/-
# What the functions of a holder do, slot by slot

Every function of `CHolder` that returns is a sequence of events, each of which fills,
changes or empties one slot.  The lemmas `…_eq_ok` say for each function which slots are
changed and how, and that the change is a run of events; invariants of all holders are
then proved event by event.
-/
import Sustcore.Capability

namespace Sustcore

open Relation Function Kernel CHolder Bool

/-! ## Slots of all holders -/

/-- A holder, a group and a slot. -/
abbrev Loc := ℕ × Fin CapIdx.CSPACE_SIZE × Fin CapIdx.CGROUP_SLOTS

/-- The slot of a holder that an index names. -/
def CapIdx.loc (idx : CapIdx) (h : ℕ) : Loc := (h, idx.group, idx.slot)

section Slots

variable {σ : Type}

def CapState.caps (s : CapState σ) : Loc → Option Capability :=
  fun i => (s.holders i.1 i.2.1).bind fun grp => grp i.2.2

theorem get_eq_caps (s : CapState σ) (h : ℕ) (idx : CapIdx) :
    (s.holders h).get idx = s.caps (idx.loc h) := by
  unfold CSpace.get CapState.caps CapIdx.loc
  cases s.holders h idx.group with
  | none => rfl
  | some grp => rfl

/-- Writing a slot changes that slot only. -/
@[simp] theorem assign_caps (h : ℕ) (idx : CapIdx) (cap : Option Capability) (s : CapState σ) :
    (assign h idx cap s).caps = update s.caps (idx.loc h) cap := by
  funext ⟨h', g, j⟩
  unfold CapState.caps assign CSpace.set CapIdx.loc
  by_cases hh : h' = h
  · subst hh
    by_cases hg : g = idx.group
    · subst hg
      by_cases hj : j = idx.slot
      · subst hj
        simp
      rw [update_of_ne (by simp [hj])]
      simp only [update_self, Option.bind_some, update_of_ne hj]
      cases s.holders h' idx.group with
      | none => rfl
      | some grp => rfl
    · rw [update_of_ne (by simp [hg])]
      simp only [update_self, update_of_ne hg]
  · rw [update_of_ne (by simp [hh])]
    simp only [update_of_ne hh]

end Slots

/-! ## Free slots -/

theorem firstFrom_eq_some {α : Type} {body : ℕ → Option α} {a : α} :
    ∀ {n i : ℕ}, firstFrom body n i = some a → ∃ k, i ≤ k ∧ k < i + n ∧ body k = some a := by
  intro n
  induction n with
  | zero =>
    intro i h
    cases h
  | succ n ih =>
    intro i h
    rw [firstFrom] at h
    cases hbody : body i with
    | some b =>
      rw [hbody] at h
      exact ⟨i, le_rfl, by omega, by rw [hbody]; exact h⟩
    | none =>
      rw [hbody] at h
      obtain ⟨k, hle, hlt, hk⟩ := ih h
      exact ⟨k, by omega, by omega, hk⟩

theorem firstFrom_eq_none {α : Type} {body : ℕ → Option α} :
    ∀ {n i : ℕ}, firstFrom body n i = none → ∀ k, i ≤ k → k < i + n → body k = none := by
  intro n
  induction n with
  | zero =>
    omega
  | succ n ih =>
    intro i h k hle hlt
    rw [firstFrom] at h
    cases hbody : body i with
    | some b =>
      rw [hbody] at h
      cases h
    | none =>
      rw [hbody] at h
      rcases eq_or_lt_of_le hle with rfl | hlt'
      · exact hbody
      · exact ih h k hlt' (by omega)

/-- `lookup_freeslot` fails only if all slots are used. -/
theorem lookupFreeslot_error {sp : CSpace} {e : ErrCode} (h : sp.lookupFreeslot = .error e)
    (idx : CapIdx) : sp.get idx ≠ none := by
  unfold CSpace.lookupFreeslot at h
  simp only at h
  split at h
  · rename_i hnone
    have hgroup := firstFrom_eq_none hnone idx.group (Nat.zero_le _) (by simp)
    rw [Fin.ofNat_val_eq_self] at hgroup
    unfold CSpace.get
    cases hsp : sp idx.group with
    | none => simp [hsp] at hgroup
    | some grp =>
      simp only [hsp] at hgroup
      have hslot := firstFrom_eq_none hgroup idx.slot (Nat.zero_le _) (by simp)
      rw [CapIdx.slot_make] at hslot
      simp only
      intro hempty
      rw [hempty] at hslot
      cases hslot
  · cases h

/-- `lookup_freeslot` returns the index of an empty slot. -/
theorem lookupFreeslot_spec {sp : CSpace} {idx : CapIdx} (h : sp.lookupFreeslot = .ok idx) :
    idx.valid = true ∧ sp.get idx = none := by
  unfold CSpace.lookupFreeslot at h
  simp only at h
  split at h
  · cases h
  rename_i found hfound
  cases h
  obtain ⟨i, -, hi, hgroup⟩ := firstFrom_eq_some hfound
  obtain ⟨g, rfl⟩ : ∃ g : Fin CapIdx.CSPACE_SIZE, g.val = i := ⟨⟨i, hi⟩, rfl⟩
  rw [Fin.ofNat_val_eq_self] at hgroup
  cases hsp : sp g with
  | none =>
    simp only [hsp, Option.some.injEq] at hgroup
    subst hgroup
    refine ⟨CapIdx.valid_make g 0, ?_⟩
    unfold CSpace.get
    rw [CapIdx.group_make, hsp]
  | some grp =>
    simp only [hsp] at hgroup
    obtain ⟨j, -, hj, hslot⟩ := firstFrom_eq_some hgroup
    split at hslot
    · rename_i hempty
      cases hslot
      refine ⟨CapIdx.valid_make g j, ?_⟩
      unfold CSpace.get
      rw [CapIdx.group_make, hsp]
      exact Option.isNone_iff_eq_none.mp hempty
    · cases hslot

/-! ## Permissions -/

namespace Perm

theorem imply_refl (p : Perm) : p.imply p = true := by
  unfold imply
  rw [BitVec.and_self, beq_self_eq_true]

theorem imply_trans {p q r : Perm} (hpq : p.imply q = true) (hqr : q.imply r = true) :
    p.imply r = true := by
  unfold imply at *
  rw [beq_iff_eq] at *
  rw [← hqr, ← BitVec.and_assoc, hpq]

/-- Clearing bits gives fewer permissions. -/
theorem imply_and (p mask : Perm) : p.imply (p &&& mask) = true := by
  unfold imply
  rw [← BitVec.and_assoc, BitVec.and_self, beq_self_eq_true]

end Perm

/-! ## Events -/

section Events

variable {σ : Type} (O : Payloads σ)

/-- What can happen to the slots of all holders. -/
inductive CapEvent (s s' : CapState σ) : Prop
  /-- A new capability for the payload of an old one, with at most its permissions. -/
  | copy {i j : Loc} {c : Capability} {perm : Perm} (hi : s.caps i = some c)
      (hj : s.caps j = none) (hperm : c.perm.imply perm = true)
      (hcaps : s'.caps = update s.caps j (some ⟨c.payload, perm⟩))
      (hheap : s'.heap = O.keep c.payload s.heap)
  /-- A clone of a capability. -/
  | clone {i j : Loc} {c : Capability} {p : ℕ} {heap : σ} (hi : s.caps i = some c)
      (hj : s.caps j = none) (hclone : O.clonePayload c.payload s.heap = (p, heap))
      (hcaps : s'.caps = update s.caps j (some ⟨p, c.perm⟩))
      (hheap : s'.heap = O.keep p heap)
  /-- A clone that is deleted before it is in a slot. -/
  | scratch {i : Loc} {c : Capability} {p : ℕ} {heap : σ} (hi : s.caps i = some c)
      (hclone : O.clonePayload c.payload s.heap = (p, heap)) (hcaps : s'.caps = s.caps)
      (hheap : O.release p (O.keep p heap) = .ok s'.heap)
  /-- A capability is deleted. -/
  | drop {i : Loc} {c : Capability} (hi : s.caps i = some c)
      (hcaps : s'.caps = update s.caps i none)
      (hheap : O.release c.payload s.heap = .ok s'.heap)
  /-- A capability loses permissions. -/
  | narrow {i : Loc} {c : Capability} {perm : Perm} (hi : s.caps i = some c)
      (hperm : c.perm.imply perm = true)
      (hcaps : s'.caps = update s.caps i (some { c with perm := perm }))
      (hheap : s'.heap = s.heap)
  /-- A capability moves to another slot. -/
  | move {i j : Loc} {c : Capability} (hi : s.caps i = some c) (hj : s.caps j = none)
      (hcaps : s'.caps = update (update s.caps j (some c)) i none)
      (hheap : s'.heap = s.heap)
  /-- The mappings of a memory are protected. -/
  | protect {p : ℕ} {r : Result Unit} (hcaps : s'.caps = s.caps)
      (hheap : O.protectMemoryCow p s.heap = .ok (r, s'.heap))
  /-- Only the layout of a space changes. -/
  | layout (hcaps : s'.caps = s.caps) (hheap : s'.heap = s.heap)

variable {O} {s s' : CapState σ}

@[simp] theorem newCapability_bind {β : Type} (p : ℕ) (perm : Perm)
    (f : Capability → Kernel (CapState σ) β) (s : CapState σ) :
    (newCapability O p perm >>= f) s = f ⟨p, perm⟩ { s with heap := O.keep p s.heap } := rfl

variable {c : Capability} {h p q dst : ℕ} {heap heap' : σ}

theorem cloneCapability_bind {β : Type} (hclone : O.clonePayload c.payload s.heap = (p, heap))
    (f : Capability → Kernel (CapState σ) β) :
    (cloneCapability O c >>= f) s = f ⟨p, c.perm⟩ { s with heap := O.keep p heap } := by
  have hunfold : (cloneCapability O c >>= f) s =
      f ⟨(O.clonePayload c.payload s.heap).1, c.perm⟩
        { s with heap := O.keep (O.clonePayload c.payload s.heap).1
                  (O.clonePayload c.payload s.heap).2 } := rfl
  rw [hunfold, hclone]

theorem freeslot_eq_ok {r : Result CapIdx} (hcall : lookupFreeslot h s = .ok (r, s')) :
    s' = s ∧ ∀ idx, r = .ok idx → idx.valid = true ∧ s.caps (idx.loc h) = none := by
  cases hcall
  refine ⟨rfl, fun idx hidx => ?_⟩
  rw [← get_eq_caps]
  exact lookupFreeslot_spec hidx

variable {idx target : CapIdx}

theorem lookup_eq_ok {r : Result Capability} (hcall : lookup h idx s = .ok (r, s')) : s' = s ∧
      ((∃ e, r = .error e) ∨ ∃ c, r = .ok c ∧ idx.valid = true ∧ s.caps (idx.loc h) = some c) := by
  rcases lookup_cases h idx s with ⟨c, hvalid, hc, hrun⟩ | ⟨-, e, hrun⟩
  · obtain ⟨rfl, rfl⟩ := ok_inj (hrun.symm.trans hcall)
    rw [get_eq_caps] at hc
    exact ⟨rfl, .inr ⟨c, rfl, hvalid, hc⟩⟩
  · obtain ⟨rfl, rfl⟩ := ok_inj (hrun.symm.trans hcall)
    exact ⟨rfl, .inl ⟨e, rfl⟩⟩

/-- A call that starts with `lookup` ends there, or goes on with the capability of the slot. -/
theorem lookup_bind_eq_ok {α : Type} {f : Capability → Kernel (CapState σ) α} {r : Result α}
    (hcall : (lookup h idx >>= f) s = .ok (r, s')) : (∃ e, r = .error e ∧ s' = s) ∨
      ∃ c, idx.valid = true ∧ s.caps (idx.loc h) = some c ∧ f c s = .ok (r, s') := by
  rcases bind_eq_ok.mp hcall with ⟨e, hlookup, rfl⟩ | ⟨c, t, hlookup, hrest⟩
  · exact .inl ⟨e, rfl, (lookup_eq_ok hlookup).1⟩
  obtain ⟨rfl, ⟨e, he⟩ | ⟨c', hc', hvalid, hc⟩⟩ := lookup_eq_ok hlookup
  · cases he
  cases hc'
  exact .inr ⟨c, hvalid, hc, hrest⟩

theorem lookup_of_caps (hvalid : idx.valid = true)
    (hc : s.caps (idx.loc h) = some c) : lookup h idx s = .ok (.ok c, s) := by
  unfold lookup
  rw [hvalid, if_neg (by decide), get_bind, get_eq_caps, hc]
  rfl

variable {r : Result Unit}

theorem deleteCapability_eq_ok (hcall : deleteCapability O c s = .ok (r, s')) :
    r = .ok () ∧ s'.holders = s.holders ∧ O.release c.payload s.heap = .ok s'.heap := by
  obtain ⟨rfl, hlift⟩ := lift_eq_ok.mp hcall
  obtain ⟨heap, hrelease, hs⟩ := Except.bind_eq_ok_iff.mp hlift
  cases hs
  exact ⟨rfl, rfl, hrelease⟩

theorem caps_congr (hholders : s'.holders = s.holders) : s'.caps = s.caps := by
  unfold CapState.caps
  rw [hholders]

theorem overwrite_eq_ok {cap : Option Capability}
    (hcall : overwrite O h idx cap s = .ok (r, s')) : r = .ok () ∧
      s'.caps = update s.caps (idx.loc h) cap ∧ ((s.caps (idx.loc h) = none ∧ s'.heap = s.heap) ∨
        ∃ old, s.caps (idx.loc h) = some old ∧ O.release old.payload s.heap = .ok s'.heap) := by
  unfold overwrite at hcall
  rw [get_bind, get_eq_caps] at hcall
  cases hc : s.caps (idx.loc h) with
  | none =>
    rw [hc] at hcall
    obtain ⟨rfl, rfl⟩ := modify_eq_ok.mp hcall
    exact ⟨rfl, assign_caps h idx cap s, .inl ⟨rfl, rfl⟩⟩
  | some old =>
    rw [hc] at hcall
    rcases bind_eq_ok.mp hcall with ⟨e, hdel, -⟩ | ⟨_, t, hdel, hset⟩
    · cases (deleteCapability_eq_ok hdel).1
    · obtain ⟨-, hholders, hrelease⟩ := deleteCapability_eq_ok hdel
      obtain ⟨rfl, rfl⟩ := modify_eq_ok.mp hset
      refine ⟨rfl, ?_, .inr ⟨old, rfl, hrelease⟩⟩
      rw [assign_caps, caps_congr hholders]

/-- An empty slot is overwritten without further effect. -/
theorem overwrite_free (cap : Option Capability) (hc : s.caps (idx.loc h) = none) :
    overwrite O h idx cap s = .ok (.ok (), assign h idx cap s) := by
  unfold overwrite
  rw [get_bind, get_eq_caps, hc]
  rfl

theorem setSlot_of_valid (cap : Option Capability) (hvalid : idx.valid = true) :
    setSlot O h idx cap s = overwrite O h idx cap s := by
  unfold setSlot
  rw [hvalid, if_neg (by decide)]

variable {perm : Perm}

/-- `insert` fills an empty slot, or does nothing. -/
theorem insert_eq_ok {payload : Option ℕ} (hcall : insert O h idx payload perm s = .ok (r, s')) :
    (∃ e, r = .error e ∧ s' = s) ∨ ∃ p, payload = some p ∧ r = .ok () ∧ idx.valid = true ∧
      s.caps (idx.loc h) = none ∧ s'.caps = update s.caps (idx.loc h) (some ⟨p, perm⟩) ∧
      s'.heap = O.keep p s.heap := by
  unfold CHolder.insert at hcall
  split at hcall
  · obtain ⟨rfl, rfl⟩ := throw_eq_ok.mp hcall
    exact .inl ⟨_, rfl, rfl⟩
  rename_i hinvalid
  have hvalid : idx.valid = true := by simpa using hinvalid
  cases payload with
  | none =>
    obtain ⟨rfl, rfl⟩ := throw_eq_ok.mp hcall
    exact .inl ⟨_, rfl, rfl⟩
  | some p =>
    simp only [get_bind, get_eq_caps] at hcall
    split at hcall
    · obtain ⟨rfl, rfl⟩ := throw_eq_ok.mp hcall
      exact .inl ⟨_, rfl, rfl⟩
    rename_i hfree
    have hnone : s.caps (idx.loc h) = none := by simpa using hfree
    obtain ⟨_, rfl, hset⟩ := mustSucceed_eq_ok.mp hcall
    have hnone' : ({ s with heap := O.keep p s.heap } : CapState σ).caps (idx.loc h) = none := hnone
    rw [setSlot_of_valid _ hvalid, overwrite_free _ hnone'] at hset
    obtain ⟨-, rfl⟩ := ok_inj hset
    refine .inr ⟨p, rfl, rfl, hvalid, hnone, ?_, rfl⟩
    rw [assign_caps]
    rfl

/-- `insert` of a payload fails only if the slot is used. -/
theorem insert_error {e : ErrCode} (hcall : insert O h idx (some p) perm s = .ok (.error e, s')) :
    ¬(idx.valid = true ∧ s.caps (idx.loc h) = none) := by
  rintro ⟨hvalid, hnone⟩
  unfold CHolder.insert at hcall
  simp only [hvalid, Bool.not_true, Bool.false_eq_true, ↓reduceIte, get_bind, get_eq_caps, hnone,
    Option.isSome_none, newCapability_bind] at hcall
  obtain ⟨_, hr, -⟩ := mustSucceed_eq_ok.mp hcall
  cases hr

theorem insertToFree_eq_ok {payload : Option ℕ} {r : Result CapIdx}
    (hcall : insertToFree O h payload perm s = .ok (r, s')) :
    (∃ e, r = .error e ∧ s' = s) ∨ ∃ p idx, payload = some p ∧ r = .ok idx ∧
      idx.valid = true ∧ s.caps (idx.loc h) = none ∧
      s'.caps = update s.caps (idx.loc h) (some ⟨p, perm⟩) ∧ s'.heap = O.keep p s.heap := by
  rcases bind_eq_ok.mp hcall with ⟨e, hfree, rfl⟩ | ⟨idx, t, hfree, hrest⟩
  · exact .inl ⟨e, rfl, (freeslot_eq_ok hfree).1⟩
  obtain ⟨rfl, -⟩ := freeslot_eq_ok hfree
  rcases bind_eq_ok.mp hrest with ⟨e, hinsert, rfl⟩ | ⟨_, u, hinsert, hpure⟩
  · rcases insert_eq_ok hinsert with ⟨e', -, rfl⟩ | ⟨p, -, hr, -⟩
    · exact .inl ⟨e, rfl, rfl⟩
    · cases hr
  · obtain ⟨rfl, rfl⟩ := pure_eq_ok.mp hpure
    rcases insert_eq_ok hinsert with ⟨e, hr, -⟩ | ⟨p, hp, -, hvalid, hnone, hcaps, hheap⟩
    · cases hr
    · exact .inr ⟨p, idx, hp, rfl, hvalid, hnone, hcaps, hheap⟩

/-- `insert_to_free` of a payload fails only if all slots of the holder are used. -/
theorem insertToFree_error {e : ErrCode}
    (hcall : insertToFree O h (some p) perm s = .ok (.error e, s')) :
    ∀ i : Loc, i.1 = h → s.caps i ≠ none := by
  rcases bind_eq_ok.mp hcall with ⟨e', hfree, -⟩ | ⟨idx, t, hfree, hrest⟩
  · have herror : (s.holders h).lookupFreeslot = .error e' := (ok_inj hfree).1
    rintro ⟨_, g, j⟩ rfl
    have hget := lookupFreeslot_error herror (CapIdx.make g j)
    rw [get_eq_caps] at hget
    unfold CapIdx.loc at hget
    rwa [CapIdx.group_make, CapIdx.slot_make] at hget
  · -- a free slot was found, and inserting there succeeds
    obtain ⟨rfl, hidx⟩ := freeslot_eq_ok hfree
    rcases bind_eq_ok.mp hrest with ⟨e', hinsert, -⟩ | ⟨_, u, -, hpure⟩
    · exact absurd (hidx idx rfl) (insert_error hinsert)
    · cases (pure_eq_ok.mp hpure).1

/-- `remove` empties a slot, or does nothing. -/
theorem remove_eq_ok (hcall : remove O h idx s = .ok (r, s')) :
    (∃ e, r = .error e ∧ s' = s ∧ ¬(idx.valid = true ∧ (s.caps (idx.loc h)).isSome = true)) ∨
      ∃ c, r = .ok () ∧ idx.valid = true ∧ s.caps (idx.loc h) = some c ∧
      s'.caps = update s.caps (idx.loc h) none ∧ O.release c.payload s.heap = .ok s'.heap := by
  rcases bind_eq_ok.mp hcall with ⟨e, hlookup, rfl⟩ | ⟨c, t, hlookup, hset⟩
  · refine .inl ⟨e, rfl, (lookup_eq_ok hlookup).1, ?_⟩
    rintro ⟨hvalid, hsome⟩
    obtain ⟨c, hc⟩ := Option.isSome_iff_exists.mp hsome
    rw [lookup_of_caps hvalid hc] at hlookup
    cases (ok_inj hlookup).1
  · obtain ⟨rfl, ⟨e, he⟩ | ⟨c', hc', hvalid, hc⟩⟩ := lookup_eq_ok hlookup
    · cases he
    cases hc'
    rw [setSlot_of_valid _ hvalid] at hset
    obtain ⟨rfl, hcaps, ⟨hnone, -⟩ | ⟨old, hold, hrelease⟩⟩ := overwrite_eq_ok hset
    · rw [hc] at hnone
      cases hnone
    · rw [hc] at hold
      cases hold
      exact .inr ⟨c, rfl, hvalid, hc, hcaps, hrelease⟩

theorem onHeap_eq_ok {α : Type} {x : Kernel σ α} {r : Result α} (hcall : onHeap x s = .ok (r, s')) :
    s'.holders = s.holders ∧ x s.heap = .ok (r, s'.heap) := by
  obtain ⟨⟨res, heap⟩, hx, hs⟩ := Except.bind_eq_ok_iff.mp hcall
  cases hs
  exact ⟨rfl, hx⟩

/-- `q` is the payload `p` itself or the one new payload of `heap'`. -/
def Payloads.IsClone (O : Payloads σ) (p q : ℕ) (heap heap' : σ) : Prop :=
  q = p ∨ q = O.next heap ∧ O.next heap' = O.next heap + 1

theorem clonePayload_eq (hclone : O.clonePayload p heap = (q, heap')) :
    O.IsClone p q heap (O.keep q heap') := by
  rcases O.clone_next p heap with ⟨hp, -⟩ | ⟨hp, hnext⟩
  · rw [hclone] at hp
    exact .inl hp
  · rw [hclone] at hp hnext
    exact .inr ⟨hp, by rw [O.keep_next]; exact hnext⟩

theorem clonePayload_next_le
    (hclone : O.clonePayload p heap = (q, heap')) : O.next heap ≤ O.next heap' := by
  rcases O.clone_next p heap with ⟨-, hnext⟩ | ⟨-, hnext⟩
  · rw [hclone] at hnext
    exact hnext.ge
  · rw [hclone] at hnext
    exact (Nat.le_succ _).trans hnext.ge

/-- A clone is stored in an empty slot. -/
theorem CapEvent.clone_assign {i : Loc}
    (hi : s.caps i = some c) (hfree : s.caps (target.loc h) = none)
    (hclone : O.clonePayload c.payload s.heap = (p, heap)) :
    CapEvent O s (assign h target (some ⟨p, c.perm⟩)
      { s with heap := O.keep p heap }) :=
  .clone hi hfree hclone (assign_caps ..) rfl

/-! ## `clone` and `derive` -/

theorem clone_eq_ok {r : Result CapIdx} (hcall : clone O h idx s = .ok (r, s')) :
    ReflTransGen (CapEvent O) s s' ∧ ((∃ e, r = .error e ∧ s'.caps = s.caps) ∨
      ∃ c target p, r = .ok target ∧ s.caps (idx.loc h) = some c ∧ target.valid = true ∧
        s.caps (target.loc h) = none ∧ O.IsClone c.payload p s.heap s'.heap ∧
        s'.caps = update s.caps (target.loc h) (some ⟨p, c.perm⟩)) := by
  rcases lookup_bind_eq_ok hcall with ⟨e, rfl, rfl⟩ | ⟨c, -, hc, hrest⟩
  · exact ⟨.refl, .inl ⟨e, rfl, rfl⟩⟩
  split at hrest
  · obtain ⟨rfl, rfl⟩ := throw_eq_ok.mp hrest
    exact ⟨.refl, .inl ⟨_, rfl, rfl⟩⟩
  rcases bind_eq_ok.mp hrest with ⟨e, hslot, rfl⟩ | ⟨target, u, hslot, hclone⟩
  · obtain ⟨rfl, -⟩ := freeslot_eq_ok hslot
    exact ⟨.refl, .inl ⟨e, rfl, rfl⟩⟩
  obtain ⟨rfl, hfree⟩ := freeslot_eq_ok hslot
  obtain ⟨hvalid, hnone⟩ := hfree target rfl
  obtain ⟨p, heap, hpayload⟩ : ∃ p heap, O.clonePayload c.payload u.heap = (p, heap) := ⟨_, _, rfl⟩
  rw [cloneCapability_bind hpayload] at hclone
  obtain ⟨res, v, hset, hafter⟩ := attempt_bind_eq_ok.mp hclone
  have hnone' : ({ u with heap := O.keep p heap } : CapState σ).caps (target.loc h) = none := hnone
  rw [setSlot_of_valid _ hvalid, overwrite_free _ hnone'] at hset
  cases hset
  have hevent := CapEvent.clone_assign (O := O) hc hnone hpayload
  have hcaps : (assign h target (some ⟨p, c.perm⟩)
      { u with heap := O.keep p heap }).caps =
        update u.caps (target.loc h) (some ⟨p, c.perm⟩) := assign_caps ..
  simp only [get_bind] at hafter
  split at hafter
  · -- the mappings of a private memory are protected; an error takes the clone back
    obtain ⟨res, w, hprotect, hafter⟩ := attempt_bind_eq_ok.mp hafter
    obtain ⟨hholders, hheap⟩ := onHeap_eq_ok hprotect
    have hprot : CapEvent O _ w := .protect (caps_congr hholders) hheap
    cases res with
    | error e =>
      obtain ⟨⟨⟩, x, hclear, hthrow⟩ := mustSucceed_bind_eq_ok.mp hafter
      obtain ⟨rfl, rfl⟩ := throw_eq_ok.mp hthrow
      rw [setSlot_of_valid _ hvalid] at hclear
      have hfull : w.caps (target.loc h) = some ⟨p, c.perm⟩ := by
        rw [caps_congr hholders, hcaps, update_self]
      obtain ⟨-, hcaps', ⟨hempty, -⟩ | ⟨old, hold, hrelease⟩⟩ := overwrite_eq_ok hclear
      · rw [hfull] at hempty
        cases hempty
      refine ⟨((ReflTransGen.single hevent).tail hprot).tail (.drop hold hcaps' hrelease),
        .inl ⟨e, rfl, ?_⟩⟩
      rw [hcaps', caps_congr hholders, hcaps, update_idem, ← hnone, update_eq_self]
    | ok _ =>
      obtain ⟨rfl, rfl⟩ := pure_eq_ok.mp hafter
      have hclone : O.IsClone c.payload p u.heap s'.heap := by
        unfold Payloads.IsClone
        rw [O.protect_next _ _ _ _ hheap]
        exact clonePayload_eq hpayload
      refine ⟨(ReflTransGen.single hevent).tail hprot, .inr ⟨c, target, p, rfl, hc, hvalid,
        hnone, hclone, ?_⟩⟩
      rw [caps_congr hholders, hcaps]
  · obtain ⟨rfl, rfl⟩ := pure_eq_ok.mp hafter
    exact ⟨.single hevent, .inr ⟨c, target, p, rfl, hc, hvalid, hnone,
      clonePayload_eq hpayload, hcaps⟩⟩

theorem downgradeAt_eq_ok (hcall : downgradeAt h idx c perm s = .ok (r, s')) :
    (∃ e, r = .error e ∧ s' = s) ∨ (r = .ok () ∧ c.perm.imply perm = true ∧
      s'.caps = update s.caps (idx.loc h) (some { c with perm := perm }) ∧
      s'.heap = s.heap) := by
  unfold downgradeAt at hcall
  split at hcall
  · obtain ⟨rfl, rfl⟩ := throw_eq_ok.mp hcall
    exact .inl ⟨_, rfl, rfl⟩
  · rename_i hperm
    obtain ⟨rfl, rfl⟩ := modify_eq_ok.mp hcall
    exact .inr ⟨rfl, by simpa using hperm, assign_caps .., rfl⟩

theorem downgrade_eq_ok (hcall : downgrade h idx perm s = .ok (r, s')) :
    s' = s ∨ ∃ c, s.caps (idx.loc h) = some c ∧ c.perm.imply perm = true ∧
      s'.caps = update s.caps (idx.loc h) (some { c with perm := perm }) ∧
      s'.heap = s.heap := by
  rcases lookup_bind_eq_ok hcall with ⟨e, -, rfl⟩ | ⟨c, -, hc, hdown⟩
  · exact .inl rfl
  rcases downgradeAt_eq_ok hdown with ⟨e, -, rfl⟩ | ⟨-, hperm, hcaps, hheap⟩
  · exact .inl rfl
  · exact .inr ⟨c, hc, hperm, hcaps, hheap⟩

theorem downgrade_events (hcall : downgrade h idx perm s = .ok (r, s')) :
    ReflTransGen (CapEvent O) s s' := by
  rcases downgrade_eq_ok hcall with rfl | ⟨c, hc, hperm, hcaps, hheap⟩
  · exact .refl
  · exact .single (.narrow hc hperm hcaps hheap)

/-- `derive` fills a slot with a clone that has fewer permissions, or takes the clone back. -/
theorem derive_eq_ok {r : Result CapIdx} (hcall : derive O h idx perm s = .ok (r, s')) :
    ReflTransGen (CapEvent O) s s' ∧ (s'.caps = s.caps ∨
      ∃ (c : Capability) (target : CapIdx) (p : ℕ), s.caps (idx.loc h) = some c ∧
        s.caps (target.loc h) = none ∧ c.perm.imply perm = true ∧ O.IsClone c.payload p s.heap s'.heap ∧
        s'.caps = update s.caps (target.loc h) (some ⟨p, perm⟩)) := by
  rcases bind_eq_ok.mp hcall with ⟨e, hclone, rfl⟩ | ⟨target, t, hclone, hrest⟩
  · obtain ⟨hrun, ⟨e', -, hcaps⟩ | ⟨c, target, p, hr, -⟩⟩ := clone_eq_ok hclone
    · exact ⟨hrun, .inl hcaps⟩
    · cases hr
  obtain ⟨hrun, ⟨e', hr, -⟩ | ⟨c₀, target', p, hr, hc₀, -, hnone, hp, hcaps₀⟩⟩ := clone_eq_ok hclone
  · cases hr
  cases hr
  obtain ⟨c, u, hlookup, hnarrow⟩ := mustSucceed_bind_eq_ok.mp hrest
  obtain ⟨rfl, ⟨e, he⟩ | ⟨c', hc', -, hc⟩⟩ := lookup_eq_ok hlookup
  · cases he
  cases hc'
  have hcap : c = ⟨p, c₀.perm⟩ := by
    rw [hcaps₀, update_self] at hc
    exact (Option.some.inj hc).symm
  obtain ⟨res, v, hdown, hend⟩ := attempt_bind_eq_ok.mp hnarrow
  rcases downgradeAt_eq_ok hdown with ⟨e, rfl, rfl⟩ | ⟨rfl, hperm, hcaps, hheap⟩
  · obtain ⟨⟨⟩, w, hremove, hthrow⟩ := mustSucceed_bind_eq_ok.mp hend
    obtain ⟨-, rfl⟩ := throw_eq_ok.mp hthrow
    rcases remove_eq_ok hremove with ⟨e', hr, -⟩ | ⟨c'', -, -, hc'', hcaps, hrelease⟩
    · cases hr
    · refine ⟨hrun.tail (.drop hc'' hcaps hrelease), .inl ?_⟩
      rw [hcaps, hcaps₀, update_idem, ← hnone, update_eq_self]
  · obtain ⟨-, rfl⟩ := pure_eq_ok.mp hend
    refine ⟨hrun.tail (.narrow hc hperm hcaps hheap), .inr ⟨c₀, target, p, hc₀, hnone, ?_, ?_, ?_⟩⟩
    · rwa [hcap] at hperm
    · rwa [hheap]
    · rw [hcaps, hcaps₀, update_idem, hcap]

/-! ## `transfer_to` -/

/-- **`transfer_to`** clones a capability with `CLONE`, and moves one with `MIGRATE` or
`MIGRATE_ONCE`, which then loses `MIGRATE_ONCE`. -/
theorem transferTo_eq_ok {r : Result CapIdx} (hcall : transferTo O h dst idx s = .ok (r, s')) :
    ReflTransGen (CapEvent O) s s' ∧ ((∃ e, r = .error e ∧ s'.caps = s.caps) ∨
      ∃ c target, r = .ok target ∧ idx.valid = true ∧ s.caps (idx.loc h) = some c ∧
        target.valid = true ∧ s.caps (target.loc dst) = none ∧
        ((c.perm.imply Perm.CLONE = true ∧ ∃ p, O.IsClone c.payload p s.heap s'.heap ∧
            s'.caps = update s.caps (target.loc dst) (some ⟨p, c.perm⟩)) ∨
          (c.perm.imply Perm.CLONE = false ∧
            (c.perm.imply Perm.MIGRATE = true ∨ c.perm.imply Perm.MIGRATE_ONCE = true) ∧
            s'.caps = update (update s.caps (target.loc dst)
              (some ⟨c.payload, c.perm &&& ~~~Perm.MIGRATE_ONCE⟩)) (idx.loc h) none))) := by
  rcases lookup_bind_eq_ok hcall with ⟨e, rfl, rfl⟩ | ⟨c, hidx, hc, hrest⟩
  · exact ⟨.refl, .inl ⟨e, rfl, rfl⟩⟩
  split at hrest
  · rename_i hperm
    obtain ⟨p, heap, hpayload⟩ : ∃ p heap, O.clonePayload c.payload s.heap = (p, heap) :=
      ⟨_, _, rfl⟩
    rw [cloneCapability_bind hpayload] at hrest
    obtain ⟨res, u, hslot, hset⟩ := attempt_bind_eq_ok.mp hrest
    obtain ⟨rfl, hfree⟩ := freeslot_eq_ok hslot
    cases res with
    | error e =>
      rcases bind_eq_ok.mp hset with ⟨e', hdel, -⟩ | ⟨⟨⟩, v, hdel, hthrow⟩
      · cases (deleteCapability_eq_ok hdel).1
      obtain ⟨rfl, rfl⟩ := throw_eq_ok.mp hthrow
      obtain ⟨-, hholders, hrelease⟩ := deleteCapability_eq_ok hdel
      exact ⟨.single (.scratch hc hpayload (caps_congr hholders) hrelease),
        .inl ⟨e, rfl, caps_congr hholders⟩⟩
    | ok target =>
      obtain ⟨hvalid, hnone⟩ := hfree target rfl
      obtain ⟨res', v, hover, hend⟩ := attempt_bind_eq_ok.mp hset
      rw [setSlot_of_valid _ hvalid, overwrite_free _ hnone] at hover
      cases hover
      obtain ⟨rfl, rfl⟩ := pure_eq_ok.mp hend
      refine ⟨.single (CapEvent.clone_assign hc hnone hpayload),
        .inr ⟨c, target, rfl, hidx, hc, hvalid, hnone, .inl ⟨hperm, p,
          clonePayload_eq hpayload, assign_caps ..⟩⟩⟩
  rename_i hnoclone
  split at hrest
  · obtain ⟨rfl, rfl⟩ := throw_eq_ok.mp hrest
    exact ⟨.refl, .inl ⟨_, rfl, rfl⟩⟩
  rename_i hmigrate
  rcases bind_eq_ok.mp hrest with ⟨e, hinsert, rfl⟩ | ⟨target, u, hinsert, hmove⟩
  · rcases insertToFree_eq_ok hinsert with ⟨e', -, rfl⟩ | ⟨p, target, -, hr, -⟩
    · exact ⟨.refl, .inl ⟨e, rfl, rfl⟩⟩
    · cases hr
  rcases insertToFree_eq_ok hinsert with ⟨e', hr, -⟩ | ⟨p, target', hp, hr, hvalid, hnone,
    hcaps, hheap⟩
  · cases hr
  cases hr
  cases hp
  -- the source is still in its slot, so that the removal cannot fail
  have hne : idx.loc h ≠ target.loc dst := by
    intro heq
    rw [heq, hnone] at hc
    cases hc
  have hsource : u.caps (idx.loc h) = some c := by
    rw [hcaps, update_of_ne hne, hc]
  obtain ⟨res, v, hremove, hend⟩ := attempt_bind_eq_ok.mp hmove
  rcases remove_eq_ok hremove with ⟨e, -, -, hnot⟩ | ⟨c', rfl, -, hc', hcaps', hrelease⟩
  · exact absurd ⟨hidx, by rw [hsource]; rfl⟩ hnot
  obtain ⟨rfl, rfl⟩ := pure_eq_ok.mp hend
  refine ⟨(ReflTransGen.single (.copy hc hnone (Perm.imply_and _ _) hcaps hheap)).tail
    (.drop hc' hcaps' hrelease), .inr ⟨c, target, rfl, hidx, hc, hvalid, hnone,
      .inr ⟨by simpa using hnoclone, ?_, ?_⟩⟩⟩
  · rw [and_eq_true, not_eq_true', not_eq_true', not_and_or, not_eq_false, not_eq_false] at hmigrate
    exact hmigrate
  · rw [hcaps', hcaps]

/-! ## The other functions -/

theorem remove_events
    (hcall : remove O h idx s = .ok (r, s')) : ReflTransGen (CapEvent O) s s' := by
  rcases remove_eq_ok hcall with ⟨e, -, rfl, -⟩ | ⟨c, -, -, hc, hcaps, hrelease⟩
  · exact .refl
  · exact .single (.drop hc hcaps hrelease)

theorem copyLoop_events : ∀ {idxs : List CapIdx} {s s' : CapState σ}
    {r : Result Unit}, copyLoop O h dst idxs s = .ok (r, s') → ReflTransGen (CapEvent O) s s' := by
  intro idxs
  induction idxs with
  | nil =>
    intro s s' r hcall
    obtain ⟨-, rfl⟩ := pure_eq_ok.mp hcall
    exact .refl
  | cons idx rest ih =>
    intro s s' r hcall
    rw [copyLoop, get_bind, get_eq_caps] at hcall
    cases hc : s.caps (idx.loc h) with
    | none =>
      rw [hc] at hcall
      exact ih hcall
    | some c =>
      rw [hc] at hcall
      have hone : ∀ {res t}, insert O dst idx (some c.payload) c.perm s =
          .ok (res, t) → ReflTransGen (CapEvent O) s t := by
        intro res t hinsert
        rcases insert_eq_ok hinsert with ⟨e, -, rfl⟩ | ⟨p, hp, -, -, hnone, hcaps, hheap⟩
        · exact .refl
        · cases hp
          exact .single (.copy hc hnone (Perm.imply_refl _) hcaps hheap)
      rcases bind_eq_ok.mp hcall with ⟨e, hinsert, -⟩ | ⟨⟨⟩, t, hinsert, hrest⟩
      · exact hone hinsert
      · exact (hone hinsert).trans (ih hrest)

theorem overwrite_none_events (hcall : overwrite O h idx none s = .ok (r, s')) :
    ReflTransGen (CapEvent O) s s' := by
  obtain ⟨-, hcaps, ⟨hnone, hheap⟩ | ⟨old, hold, hrelease⟩⟩ := overwrite_eq_ok hcall
  · refine .single (.layout ?_ hheap)
    rw [hcaps, ← hnone, update_eq_self]
  · exact .single (.drop hold hcaps hrelease)

/-- `CSpace::move` deletes what is in the target slot. -/
theorem move_eq_ok (hcall : move O h target idx s = .ok (r, s')) :
    ReflTransGen (CapEvent O) s s' ∧ (s' = s ∨ ∃ c, s.caps (idx.loc h) = some c ∧
      s'.caps = update (update s.caps (target.loc h) (some c)) (idx.loc h) none) := by
  unfold move at hcall
  split at hcall
  · obtain ⟨-, rfl⟩ := pure_eq_ok.mp hcall
    exact ⟨ReflTransGen.refl, .inl rfl⟩
  rw [get_bind, get_eq_caps] at hcall
  cases hc : s.caps (idx.loc h) with
  | none =>
    rw [hc] at hcall
    obtain ⟨-, rfl⟩ := throw_eq_ok.mp hcall
    exact ⟨ReflTransGen.refl, .inl rfl⟩
  | some c =>
    rw [hc] at hcall
    rcases bind_eq_ok.mp hcall with ⟨e, hover, -⟩ | ⟨⟨⟩, t, hover, htake⟩
    · cases (overwrite_eq_ok hover).1
    obtain ⟨-, hcaps, hold⟩ := overwrite_eq_ok hover
    obtain ⟨-, rfl⟩ := modify_eq_ok.mp htake
    have hcaps' : (assign h idx none t).caps = update (update s.caps
        (target.loc h) (some c)) (idx.loc h) none := by rw [assign_caps, hcaps]
    refine ⟨?_, .inr ⟨c, rfl, hcaps'⟩⟩
    rcases hold with ⟨hnone, hheap⟩ | ⟨old, hold, hrelease⟩
    · exact ReflTransGen.single (.move hc hnone hcaps' hheap)
    by_cases hloc : target.loc h = idx.loc h
    · -- two names of one slot: the capability itself is deleted
      rw [hloc, update_idem] at hcaps'
      rw [hloc] at hold
      exact ReflTransGen.single (.drop hold hcaps' hrelease)
    -- the old capability goes first
    let u : CapState σ := assign h target none { s with heap := t.heap }
    have hu : u.caps = update s.caps (target.loc h) none := assign_caps ..
    have hdrop : CapEvent O s u := .drop hold hu hrelease
    refine (ReflTransGen.single hdrop).tail (.move (i := idx.loc h) (j := target.loc h)
      (c := c) ?_ ?_ ?_ rfl)
    · rw [hu, update_of_ne (Ne.symm hloc), hc]
    · rw [hu, update_self]
    · rw [hcaps', hu, update_idem]

theorem clearLoop_events : ∀ {idxs : List CapIdx} {s s' : CapState σ} {r : Result Unit},
    clearLoop O h idxs s = .ok (r, s') → ReflTransGen (CapEvent O) s s' := by
  intro idxs
  induction idxs with
  | nil =>
    intro s s' r hcall
    obtain ⟨-, rfl⟩ := pure_eq_ok.mp hcall
    exact .refl
  | cons idx rest ih =>
    intro s s' r hcall
    rcases bind_eq_ok.mp hcall with ⟨e, hover, -⟩ | ⟨⟨⟩, t, hover, hrest⟩
    · exact overwrite_none_events hover
    · exact (overwrite_none_events hover).trans (ih hrest)

/-- The loop of `clear` empties the slots that it visits and leaves the others. -/
theorem clearLoop_caps : ∀ {idxs : List CapIdx} {s s' : CapState σ} {r : Result Unit},
    clearLoop O h idxs s = .ok (r, s') → ∀ i, ((∃ idx ∈ idxs, idx.loc h = i) → s'.caps i = none) ∧
      (s'.caps i = none ∨ s'.caps i = s.caps i) := by
  intro idxs
  induction idxs with
  | nil =>
    intro s s' r hcall i
    obtain ⟨-, rfl⟩ := pure_eq_ok.mp hcall
    refine ⟨?_, .inr rfl⟩
    rintro ⟨idx, hidx, -⟩
    cases hidx
  | cons idx rest ih =>
    intro s s' r hcall i
    rcases bind_eq_ok.mp hcall with ⟨e, hover, -⟩ | ⟨⟨⟩, t, hover, hrest⟩
    · cases (overwrite_eq_ok hover).1
    obtain ⟨-, hcaps, -⟩ := overwrite_eq_ok hover
    obtain ⟨hvisited, hother⟩ := ih hrest i
    by_cases hloc : i = idx.loc h
    · have hnone : s'.caps i = none := by
        rcases hother with hnone | hsame
        · exact hnone
        · rw [hsame, hcaps, hloc, update_self]
      exact ⟨fun _ => hnone, .inl hnone⟩
    · rw [hcaps, update_of_ne hloc] at hother
      refine ⟨?_, hother⟩
      rintro ⟨idx', hidx', rfl⟩
      rcases List.mem_cons.mp hidx' with rfl | hmem
      · exact absurd rfl hloc
      · exact hvisited ⟨idx', hmem, rfl⟩

theorem exists_index (h : ℕ) (g : Fin CapIdx.CSPACE_SIZE) (j : Fin CapIdx.CGROUP_SLOTS) :
    ∃ idx ∈ CSpace.indices, idx.loc h = (h, g, j) := by
  refine ⟨CapIdx.make g j, ?_, ?_⟩
  · unfold CSpace.indices
    rw [List.mem_flatMap]
    exact ⟨g, List.mem_range.mpr g.isLt, List.mem_map.mpr ⟨j, List.mem_range.mpr j.isLt, rfl⟩⟩
  · unfold CapIdx.loc
    rw [CapIdx.group_make, CapIdx.slot_make]

theorem clear_eq_ok (hcall : clear O h s = .ok (r, s')) :
    ReflTransGen (CapEvent O) s s' ∧ ∀ i, s'.caps i = none ∨ s'.caps i = s.caps i := by
  rcases bind_eq_ok.mp hcall with ⟨e, hloop, -⟩ | ⟨⟨⟩, t, hloop, hend⟩
  · exact ⟨clearLoop_events hloop, fun i => (clearLoop_caps hloop i).2⟩
  obtain ⟨-, rfl⟩ := modify_eq_ok.mp hend
  have hlayout : ({ t with holders := update t.holders h CSpace.empty } :
      CapState σ).caps = t.caps := by
    funext ⟨h', g, j⟩
    by_cases hh : h' = h
    · subst hh
      rw [(clearLoop_caps hloop _).1 (exists_index h' g j)]
      unfold CapState.caps
      simp only [update_self]
      rfl
    · unfold CapState.caps
      simp only [update_of_ne hh]
  refine ⟨(clearLoop_events hloop).tail (.layout hlayout rfl), ?_⟩
  intro i
  rw [hlayout]
  exact (clearLoop_caps hloop i).2

end Events

end Sustcore
