/-
# Authority over runs of the holder functions

A run calls the functions of `CHolder` on any number of holders, in any order and with any
arguments, while the rest of the kernel creates and uses payloads.  Beside the holders it
keeps two records: the *origin* of every payload, which a clone takes over from the payload
it was made from, and the *root* capabilities that were inserted.

No call gives a capability more permissions than a capability of the same origin had before
it, and so every permission in a holder is one of a root of the same origin
(`authority_monotone`).
-/
import Sustcore.CapabilityEvents
import Sustcore.Ledger
import Sustcore.World

namespace Sustcore

open Relation Function CapState CHolder Except Kernel

/-! ## Calls -/

/-- A call of a function of `CHolder` or of its space. -/
inductive CapCall where
  | insert (h : ℕ) (idx : CapIdx) (payload : Option ℕ) (perm : Perm)
  | insertToFree (h : ℕ) (payload : Option ℕ) (perm : Perm)
  | clone (h : ℕ) (idx : CapIdx)
  | derive (h : ℕ) (idx : CapIdx) (perm : Perm)
  | downgrade (h : ℕ) (idx : CapIdx) (perm : Perm)
  | transferTo (h dst : ℕ) (idx : CapIdx)
  | copyAllTo (h dst : ℕ)
  | move (h : ℕ) (target idx : CapIdx)
  | remove (h : ℕ) (idx : CapIdx)
  | clear (h : ℕ)

section Runs

variable {σ : Type} (O : Payloads σ)

/-- The call, without the slot it returns. -/
def CapCall.run : CapCall → Kernel (CapState σ) Unit
  | .insert h idx payload perm => CHolder.insert O h idx payload perm
  | .insertToFree h payload perm => do
      let _ ← CHolder.insertToFree O h payload perm
      pure ()
  | .clone h idx => do
      let _ ← CHolder.clone O h idx
      pure ()
  | .derive h idx perm => do
      let _ ← CHolder.derive O h idx perm
      pure ()
  | .downgrade h idx perm => CHolder.downgrade h idx perm
  | .transferTo h dst idx => do
      let _ ← CHolder.transferTo O h dst idx
      pure ()
  | .copyAllTo h dst => CHolder.copyAllTo O h dst
  | .move h target idx => CHolder.move O h target idx
  | .remove h idx => CHolder.remove O h idx
  | .clear h => CHolder.clear O h

/-- The slot whose capability the call may clone. -/
def CapCall.source : CapCall → Option Loc
  | .clone h idx => some (idx.loc h)
  | .derive h idx _ => some (idx.loc h)
  | .transferTo h _ idx => some (idx.loc h)
  | _ => none

def CapCall.newRoots (call : CapCall) (r : Result Unit) : Set Capability :=
  match call, r with
  | .insert _ _ (some p) perm, .ok () => {⟨p, perm⟩}
  | .insertToFree _ (some p) perm, .ok () => {⟨p, perm⟩}
  | _, _ => ∅

/-- A payload that appears during a call is a clone of the payload of its source. -/
def CapCall.origin (call : CapCall) (s s' : CapState σ) (origin : ℕ → ℕ) : ℕ → ℕ := fun q =>
  match call.source.bind s.caps with
  | none => origin q
  | some c => if O.next s.heap ≤ q ∧ q < O.next s'.heap then origin c.payload else origin q

variable {O} {s s' : CapState σ}

/-- Payloads that were there keep their origin. -/
theorem CapCall.origin_old (call : CapCall) {origin : ℕ → ℕ} {q : ℕ}
    (hq : q < O.next s.heap) : call.origin O s s' origin q = origin q := by
  unfold CapCall.origin
  split
  · rfl
  · rw [if_neg (by omega)]

variable {r : Result Unit}

/-- A call that returns the slot it fills. -/
theorem discard_eq_ok {α : Type} {x : Kernel (CapState σ) α}
    (h : (do let _ ← x; pure () : Kernel (CapState σ) Unit) s = .ok (r, s')) :
    ∃ res, x s = .ok (res, s') ∧ r = res.map fun _ => () := by
  rcases bind_eq_ok.mp h with ⟨e, hx, rfl⟩ | ⟨a, t, hx, hpure⟩
  · exact ⟨_, hx, rfl⟩
  · obtain ⟨rfl, rfl⟩ := pure_eq_ok.mp hpure
    exact ⟨_, hx, rfl⟩

variable (O) in
/-- A new capability is stored in an empty slot. -/
def CapState.Insertion (s s' : CapState σ) (root : Capability) : Prop :=
  ∃ i, s.caps i = none ∧ s'.caps = update s.caps i (some root) ∧
    s'.heap = O.keep root.payload s.heap

variable {call : CapCall}

/-- **What a call consists of**: the insertion of a root, or events. -/
theorem CapCall.events (hcall : call.run O s = .ok (r, s')) :
    (∃ root ∈ call.newRoots r, s.Insertion O s' root) ∨ ReflTransGen (CapEvent O) s s' := by
  cases call with
  | insert h idx payload perm =>
    rcases insert_eq_ok hcall with ⟨e, -, rfl⟩ | ⟨p, rfl, rfl, -, hnone, hcaps, hheap⟩
    · exact .inr .refl
    · exact .inl ⟨⟨p, perm⟩, rfl, _, hnone, hcaps, hheap⟩
  | insertToFree h payload perm =>
    obtain ⟨res, hinsert, rfl⟩ := discard_eq_ok hcall
    rcases insertToFree_eq_ok hinsert with ⟨e, -, rfl⟩ | ⟨p, idx, rfl, rfl, -, hnone, hcaps, hheap⟩
    · exact .inr .refl
    · exact .inl ⟨⟨p, perm⟩, rfl, _, hnone, hcaps, hheap⟩
  | clone h idx =>
    obtain ⟨res, hclone, -⟩ := discard_eq_ok hcall
    exact .inr (clone_eq_ok hclone).1
  | derive h idx perm =>
    obtain ⟨res, hderive, -⟩ := discard_eq_ok hcall
    exact .inr (derive_eq_ok hderive).1
  | downgrade h idx perm => exact .inr (downgrade_events hcall)
  | transferTo h dst idx =>
    obtain ⟨res, htransfer, -⟩ := discard_eq_ok hcall
    exact .inr (transferTo_eq_ok htransfer).1
  | copyAllTo h dst => exact .inr (copyLoop_events hcall)
  | move h target idx => exact .inr (move_eq_ok hcall).1
  | remove h idx => exact .inr (remove_events hcall)
  | clear h => exact .inr (clear_eq_ok hcall).1

/-! ## One call -/

/-- `c'` has at most the permissions of a capability before the call, and its payload or a
clone of it. -/
def CapState.Below (O : Payloads σ) (source : Option Loc) (s s' : CapState σ)
    (c' : Capability) : Prop :=
  ∃ i c, s.caps i = some c ∧ c.perm.imply c'.perm = true ∧
    (c'.payload = c.payload ∨
      (source = some i ∧ c'.payload = O.next s.heap ∧ O.next s'.heap = O.next s.heap + 1))

variable {s s' : CapState σ} {source : Option Loc} {c' : Capability} {i : Loc}

theorem CapState.below_self (hc : s.caps i = some c') : s.Below O source s' c' :=
  ⟨i, c', hc, Perm.imply_refl _, .inl rfl⟩

/-- One slot is filled, the others are as before. -/
theorem CapState.below_update {j : Loc} {new : Option Capability}
    (hcaps : s'.caps = update s.caps j new)
    (hnew : ∀ c, new = some c → s.Below O source s' c) (hc : s'.caps i = some c') :
    s.Below O source s' c' := by
  rw [hcaps] at hc
  rcases update_eq_cases hc with ⟨-, hc⟩ | ⟨-, hc⟩
  · exact hnew c' hc
  · exact below_self hc

variable {perm required : Perm}

theorem CapState.below_clone {c : Capability} {p : ℕ} (hi : s.caps i = some c)
    (hperm : c.perm.imply perm = true) (hp : O.IsClone c.payload p s.heap s'.heap) :
    s.Below O (some i) s' ⟨p, perm⟩ := by
  refine ⟨i, c, hi, hperm, ?_⟩
  rcases hp with hp | ⟨hp, hnext⟩
  · exact .inl hp
  · exact .inr ⟨rfl, hp, hnext⟩

/-- One slot is filled and another one emptied. -/
theorem CapState.below_migrate {j k : Loc} {new : Capability}
    (hcaps : s'.caps = update (update s.caps j (some new)) k none)
    (hnew : s.Below O source s' new) (hc : s'.caps i = some c') : s.Below O source s' c' := by
  rw [hcaps] at hc
  obtain ⟨-, ⟨⟩⟩ | ⟨-, hc⟩ := update_eq_cases hc
  rcases update_eq_cases hc with ⟨-, ⟨⟩⟩ | ⟨-, hc⟩
  · exact hnew
  · exact below_self hc

theorem CapState.below_insert {j : Loc} {root : Capability} {roots : Set Capability}
    (hcaps : s'.caps = update s.caps j (some root)) (hroot : root ∈ roots)
    (hc : s'.caps i = some c') : c' ∈ roots ∨ s.Below O source s' c' := by
  rw [hcaps] at hc
  rcases update_eq_cases hc with ⟨-, ⟨⟩⟩ | ⟨-, hc⟩
  · exact .inl hroot
  · exact .inr (below_self hc)

theorem copyLoop_caps {h dst : ℕ} : ∀ {idxs : List CapIdx} {s s' : CapState σ}
    {r : Result Unit}, CHolder.copyLoop O h dst idxs s = .ok (r, s') →
    ∀ i c, s'.caps i = some c → ∃ j, s.caps j = some c := by
  intro idxs
  induction idxs with
  | nil =>
    intro s s' r hcall i c hc
    obtain ⟨-, rfl⟩ := pure_eq_ok.mp hcall
    exact ⟨i, hc⟩
  | cons idx rest ih =>
    intro s s' r hcall i c hc
    rw [CHolder.copyLoop, get_bind, get_eq_caps] at hcall
    cases hidx : s.caps (idx.loc h) with
    | none =>
      rw [hidx] at hcall
      exact ih hcall i c hc
    | some c₀ =>
      rw [hidx] at hcall
      have hone : ∀ {res t}, insert O dst idx (some c₀.payload) c₀.perm s =
          .ok (res, t) → ∀ i c, t.caps i = some c → ∃ j, s.caps j = some c := by
        intro res t hinsert i c hc
        rcases insert_eq_ok hinsert with ⟨e, -, rfl⟩ | ⟨p, hp, -, -, -, hcaps, -⟩
        · exact ⟨i, hc⟩
        cases hp
        rw [hcaps] at hc
        rcases update_eq_cases hc with ⟨-, ⟨⟩⟩ | ⟨-, hc⟩
        · exact ⟨_, hidx⟩
        · exact ⟨i, hc⟩
      rcases bind_eq_ok.mp hcall with ⟨e, hinsert, -⟩ | ⟨⟨⟩, t, hinsert, hrest⟩
      · exact hone hinsert i c hc
      · obtain ⟨j, hj⟩ := ih hrest i c hc
        exact hone hinsert j c hj

/-- **What one call can give**: a root that it inserts, or something below what was there. -/
theorem CapCall.below (hcall : call.run O s = .ok (r, s')) (hc : s'.caps i = some c') :
    c' ∈ call.newRoots r ∨ s.Below O call.source s' c' := by
  cases call with
  | insert h idx payload perm =>
    rcases insert_eq_ok hcall with ⟨e, -, rfl⟩ | ⟨p, rfl, rfl, -, -, hcaps, -⟩
    · exact .inr (below_self hc)
    · exact below_insert hcaps rfl hc
  | insertToFree h payload perm =>
    obtain ⟨res, hinsert, rfl⟩ := discard_eq_ok hcall
    rcases insertToFree_eq_ok hinsert with ⟨e, -, rfl⟩ | ⟨p, idx, rfl, rfl, -, -, hcaps, -⟩
    · exact .inr (below_self hc)
    · exact below_insert hcaps rfl hc
  | clone h idx =>
    obtain ⟨res, hclone, -⟩ := discard_eq_ok hcall
    refine .inr ?_
    obtain ⟨-, ⟨e, -, hcaps⟩ | ⟨c, target, p, -, hsrc, -, -, hp, hcaps⟩⟩ := clone_eq_ok hclone
    · exact below_self (hcaps ▸ hc)
    · refine below_update hcaps ?_ hc
      intro c₁ hc₁
      cases hc₁
      exact below_clone hsrc (Perm.imply_refl _) hp
  | derive h idx perm =>
    obtain ⟨res, hderive, -⟩ := discard_eq_ok hcall
    refine .inr ?_
    obtain ⟨-, hcaps | ⟨c, target, p, hsrc, -, hperm, hp, hcaps⟩⟩ := derive_eq_ok hderive
    · exact below_self (hcaps ▸ hc)
    · refine below_update hcaps ?_ hc
      intro c₁ hc₁
      cases hc₁
      exact below_clone hsrc hperm hp
  | downgrade h idx perm =>
    refine .inr ?_
    rcases downgrade_eq_ok hcall with rfl | ⟨c, hsrc, hperm, hcaps, -⟩
    · exact below_self hc
    · refine below_update hcaps ?_ hc
      intro c₁ hc₁
      cases hc₁
      exact ⟨_, c, hsrc, hperm, .inl rfl⟩
  | transferTo h dst idx =>
    obtain ⟨res, htransfer, -⟩ := discard_eq_ok hcall
    refine .inr ?_
    obtain ⟨-, ⟨e, -, hcaps⟩ | ⟨c, target, -, -, hsrc, -, -, hpath⟩⟩ := transferTo_eq_ok htransfer
    · exact below_self (hcaps ▸ hc)
    rcases hpath with ⟨-, p, hp, hcaps⟩ | ⟨-, -, hcaps⟩
    · refine below_update hcaps ?_ hc
      intro c₁ hc₁
      cases hc₁
      exact below_clone hsrc (Perm.imply_refl _) hp
    · exact below_migrate hcaps ⟨_, c, hsrc, Perm.imply_and _ _, .inl rfl⟩ hc
  | copyAllTo h dst =>
    obtain ⟨j, hj⟩ := copyLoop_caps hcall i c' hc
    exact .inr (below_self hj)
  | move h target idx =>
    refine .inr ?_
    obtain ⟨-, rfl | ⟨c, hsrc, hcaps⟩⟩ := move_eq_ok hcall
    · exact below_self hc
    · exact below_migrate hcaps (below_self hsrc) hc
  | remove h idx =>
    refine .inr ?_
    rcases remove_eq_ok hcall with ⟨e, -, rfl, -⟩ | ⟨c, -, -, -, hcaps, -⟩
    · exact below_self hc
    · refine below_update hcaps ?_ hc
      intro c₁ hc₁
      cases hc₁
  | clear h =>
    refine .inr ?_
    rcases (clear_eq_ok hcall).2 i with hnone | hsame
    · rw [hnone] at hc
      cases hc
    · exact below_self (hsame ▸ hc)

/-! ## Addresses of payloads -/

/-- Addresses of payloads are used up. -/
theorem CapEvent.next_le (h : CapEvent O s s') : O.next s.heap ≤ O.next s'.heap := by
  cases h with
  | copy hi hj hperm hcaps hheap => rw [hheap, O.keep_next]
  | clone hi hj hclone hcaps hheap =>
    rw [hheap, O.keep_next]
    exact clonePayload_next_le hclone
  | scratch hi hclone hcaps hheap =>
    rw [O.release_next _ _ _ hheap, O.keep_next]
    exact clonePayload_next_le hclone
  | drop hi hcaps hheap => rw [O.release_next _ _ _ hheap]
  | narrow hi hperm hcaps hheap => rw [hheap]
  | move hi hj hcaps hheap => rw [hheap]
  | protect hcaps hheap => rw [O.protect_next _ _ _ _ hheap]
  | layout hcaps hheap => rw [hheap]

theorem next_le_of_events (h : ReflTransGen (CapEvent O) s s') :
    O.next s.heap ≤ O.next s'.heap := by
  induction h with
  | refl => exact le_rfl
  | tail _ hlast ih => exact ih.trans hlast.next_le

theorem CapCall.next_le (hcall : call.run O s = .ok (r, s')) : O.next s.heap ≤ O.next s'.heap := by
  rcases CapCall.events hcall with ⟨root, -, -, -, -, hheap⟩ | hevents
  · rw [hheap, O.keep_next]
  · exact next_le_of_events hevents

/-! ## Runs -/

/-- The holders with the two records of a run. -/
structure TracedState (σ : Type) where
  state : CapState σ
  origin : ℕ → ℕ
  roots : Set Capability

variable (O) in
/-- A call, or a step of the rest of the kernel. -/
inductive CapStep : TracedState σ → TracedState σ → Prop
  | call (w : TracedState σ) {call : CapCall} {r : Result Unit} {s' : CapState σ}
      (hrun : call.run O w.state = .ok (r, s'))
      (hroot : ∀ root ∈ call.newRoots r, root.payload < O.next w.state.heap) :
      CapStep w ⟨s', call.origin O w.state s' w.origin, w.roots ∪ call.newRoots r⟩
  | other (w : TracedState σ) {heap : σ} (hnext : O.next w.state.heap ≤ O.next heap) :
      CapStep w { w with state := { w.state with heap := heap } }

/-- No capability has been inserted. -/
def TracedState.init (heap : σ) : TracedState σ := ⟨⟨fun _ => CSpace.empty, heap⟩, id, ∅⟩

variable (O) in
/-- Every capability is below a root of its origin. -/
structure TracedState.Confined (w : TracedState σ) : Prop where
  bounded : ∀ i c, w.state.caps i = some c → c.payload < O.next w.state.heap
  roots_bounded : ∀ root ∈ w.roots, root.payload < O.next w.state.heap
  covered : ∀ i c, w.state.caps i = some c → ∃ root ∈ w.roots,
    w.origin root.payload = w.origin c.payload ∧ root.perm.imply c.perm = true

theorem TracedState.confined_init (heap : σ) : (TracedState.init heap).Confined O where
  bounded := fun _ _ hc => by cases hc
  roots_bounded := fun _ hroot => absurd hroot (Set.notMem_empty _)
  covered := fun _ _ hc => by cases hc

theorem CapState.Below.origin (origin : ℕ → ℕ)
    (hbounded : ∀ i c, s.caps i = some c → c.payload < O.next s.heap)
    (h : s.Below O call.source s' c') : ∃ j c, s.caps j = some c ∧
      call.origin O s s' origin c.payload = call.origin O s s' origin c'.payload ∧
      c.perm.imply c'.perm = true := by
  obtain ⟨j, c, hj, hperm, hpayload⟩ := h
  refine ⟨j, c, hj, ?_, hperm⟩
  rcases hpayload with hpayload | ⟨hsource, hpayload, hnext⟩
  · rw [hpayload]
  -- the new payload is the one whose origin the call records
  rw [call.origin_old (hbounded j c hj)]
  unfold CapCall.origin
  rw [hsource, Option.bind_some, hj]
  simp only
  rw [if_pos (by omega)]

theorem TracedState.Confined.step {w w' : TracedState σ} (h : w.Confined O)
    (hstep : CapStep O w w') : w'.Confined O := by
  cases hstep with
  | other hnext =>
    exact ⟨fun i c hc => (h.bounded i c hc).trans_le hnext,
      fun root hroot => (h.roots_bounded root hroot).trans_le hnext, h.covered⟩
  | call hrun hroot =>
    rename_i call r s'
    have hle := CapCall.next_le hrun
    refine ⟨?_, ?_, ?_⟩
    · intro i c hc
      rcases CapCall.below hrun hc with hnew | ⟨j, c₀, hj, -, hpayload | ⟨-, hpayload, hnext⟩⟩
      · exact (hroot c hnew).trans_le hle
      · rw [hpayload]
        exact (h.bounded j c₀ hj).trans_le hle
      · simp only
        omega
    · rintro root (hold | hnew)
      · exact (h.roots_bounded root hold).trans_le hle
      · exact (hroot root hnew).trans_le hle
    · intro i c hc
      rcases CapCall.below hrun hc with hnew | hbelow
      · exact ⟨c, .inr hnew, rfl, Perm.imply_refl _⟩
      obtain ⟨j, c₀, hj, horigin, hperm⟩ := hbelow.origin w.origin h.bounded
      obtain ⟨root, hmem, hroot', hperm'⟩ := h.covered j c₀ hj
      refine ⟨root, .inl hmem, ?_, Perm.imply_trans hperm' hperm⟩
      show call.origin O w.state s' w.origin root.payload =
        call.origin O w.state s' w.origin c.payload
      rw [← horigin, call.origin_old (h.roots_bounded root hmem),
        call.origin_old (h.bounded j c₀ hj)]
      exact hroot'

/-- **Authority is monotone.**  In every run every capability is below a root of its origin,
and a call puts into the holders only the root that it inserts and capabilities below those
of the same origin that were there before. -/
theorem authority_monotone {heap : σ} {w : TracedState σ}
    (hrun : ReflTransGen (CapStep O) (TracedState.init heap) w) :
    (∀ i c, w.state.caps i = some c → ∃ root ∈ w.roots,
      w.origin root.payload = w.origin c.payload ∧ root.perm.imply c.perm = true) ∧
    ∀ (call : CapCall) (r : Result Unit) (s' : CapState σ), call.run O w.state = .ok (r, s') →
      ∀ i c', s'.caps i = some c' → c' ∈ call.newRoots r ∨ ∃ j c, w.state.caps j = some c ∧
        call.origin O w.state s' w.origin c.payload =
          call.origin O w.state s' w.origin c'.payload ∧ c.perm.imply c'.perm = true := by
  have hinv : w.Confined O := Transition.invariant (fun _ _ h hstep => h.step hstep) hrun
    (TracedState.confined_init heap)
  refine ⟨hinv.covered, ?_⟩
  intro call r s' hcall i c' hc
  rcases CapCall.below hcall hc with hnew | hbelow
  · exact .inl hnew
  · exact .inr (hbelow.origin w.origin hinv.bounded)

/-! ## `MIGRATE_ONCE` -/

theorem not_imply_migrateOnce (perm : Perm) :
    (perm &&& ~~~Perm.MIGRATE_ONCE).imply Perm.MIGRATE_ONCE = false := by
  unfold Perm.imply
  rw [BitVec.and_assoc, show ~~~Perm.MIGRATE_ONCE &&& Perm.MIGRATE_ONCE = 0#64 by decide,
    BitVec.and_zero]
  decide

theorem imply_without_migrateOnce (hother : ~~~Perm.MIGRATE_ONCE &&& required = required) :
    (perm &&& ~~~Perm.MIGRATE_ONCE).imply required = perm.imply required := by
  unfold Perm.imply
  rw [BitVec.and_assoc, hother]

theorem transferTo_refused {h dst : ℕ} {idx : CapIdx} {c : Capability} {r : Result CapIdx}
    (hc : s.caps (idx.loc h) = some c) (hclone : c.perm.imply Perm.CLONE = false)
    (hmigrate : c.perm.imply Perm.MIGRATE = false) (honce : c.perm.imply Perm.MIGRATE_ONCE = false)
    (hcall : transferTo O h dst idx s = .ok (r, s')) : ∃ e, r = .error e := by
  obtain ⟨-, ⟨e, hr, -⟩ | ⟨c₁, target, -, -, hc₁, -, -, hpath⟩⟩ := transferTo_eq_ok hcall
  · exact ⟨e, hr⟩
  rw [hc] at hc₁
  cases hc₁
  rcases hpath with ⟨hclone', -⟩ | ⟨-, hmigrate' | honce', -⟩
  · rw [hclone] at hclone'
    cases hclone'
  · rw [hmigrate] at hmigrate'
    cases hmigrate'
  · rw [honce] at honce'
    cases honce'

/-- What a permission word lacks, every word below it lacks. -/
theorem imply_eq_false_of_below {below : Perm} (hbelow : perm.imply below = true)
    (hlacks : perm.imply required = false) : below.imply required = false := by
  cases hcarries : below.imply required with
  | false => rfl
  | true =>
    rw [Perm.imply_trans hbelow hcarries] at hlacks
    cases hlacks

/-- **What `transfer_to` delivers** carries `MIGRATE_ONCE` only if the source carries it
together with `CLONE`.  What was delivered by virtue of `MIGRATE_ONCE` alone is not
transferred again, and neither is any capability below it. -/
theorem migrate_once_delivered {h dst : ℕ} {idx target : CapIdx}
    (hcall : transferTo O h dst idx s = .ok (.ok target, s')) :
    ∃ c d, s.caps (idx.loc h) = some c ∧ s'.caps (target.loc dst) = some d ∧
      (d.perm.imply Perm.MIGRATE_ONCE = false ↔
        ¬(c.perm.imply Perm.CLONE = true ∧ c.perm.imply Perm.MIGRATE_ONCE = true)) ∧
      (c.perm.imply Perm.CLONE = false → c.perm.imply Perm.MIGRATE = false →
        ∀ (t t' : CapState σ) (d' : Capability) (h' dst' : ℕ) (idx' : CapIdx)
          (r : Result CapIdx), t.caps (idx'.loc h') = some d' →
          d.perm.imply d'.perm = true →
          transferTo O h' dst' idx' t = .ok (r, t') → ∃ e, r = .error e) := by
  obtain ⟨-, ⟨e, hr, -⟩ | ⟨c, target', hr, -, hc, -, hnone, hpath⟩⟩ := transferTo_eq_ok hcall
  · cases hr
  cases hr
  rcases hpath with ⟨hclone, p, -, hcaps⟩ | ⟨hclone, -, hcaps⟩
  · refine ⟨c, ⟨p, c.perm⟩, hc, by rw [hcaps, update_self], ?_, ?_⟩
    · rw [hclone, eq_self_iff_true, true_and, Bool.not_eq_true]
    · intro hnot
      rw [hclone] at hnot
      cases hnot
  · have hne : target.loc dst ≠ idx.loc h := by
      intro heq
      rw [← heq, hnone] at hc
      cases hc
    refine ⟨c, ⟨c.payload, c.perm &&& ~~~Perm.MIGRATE_ONCE⟩, hc,
      by rw [hcaps, update_of_ne hne, update_self], ?_, ?_⟩
    · rw [not_imply_migrateOnce, hclone]
      simp
    · intro _ hmigrate t t' d' h' dst' idx' r hd' hbelow hagain
      apply transferTo_refused hd' _ _ _ hagain
      · apply imply_eq_false_of_below hbelow
        rwa [imply_without_migrateOnce (by decide)]
      · apply imply_eq_false_of_below hbelow
        rwa [imply_without_migrateOnce (by decide)]
      · exact imply_eq_false_of_below hbelow (not_imply_migrateOnce _)

end Runs

/-! ## Two runs -/

section Sample

/-- A machine without memory and with one endpoint, to which there is no capability yet. -/
def oneEndpoint : World (Gfp Buddy) :=
  ⟨⟨fun _ => none, ⟨Buddy.preInit 0, fun _ => 0⟩, fun _ => 0⟩,
    fun p => if p = 0 then some .endpoint else none, fun _ => 0, 1, fun _ => none, none, []⟩

def buddyPayloads : Payloads (World (Gfp Buddy)) := World.payloads (gfpFrames buddyRaw)

def CapState.after {α : Type} (s : CapState (World (Gfp Buddy)))
    (x : Kernel (CapState (World (Gfp Buddy))) α) : CapState (World (Gfp Buddy)) :=
  (valueOr (.error .nullptr, s) (x s)).2

def endpointHeld (perm : Perm) : CapState (World (Gfp Buddy)) :=
  after ⟨fun _ => CSpace.empty, oneEndpoint⟩
    (insert buddyPayloads 0 (CapIdx.make 0 0) (some 0) perm)

/-- A capability that can only be migrated once is delivered without that permission. -/
theorem migrate_once_delivered_endpoint :
    ∃ (s' : CapState (World (Gfp Buddy))) (d : Capability),
      s'.caps ((CapIdx.make 0 0).loc 1) = some d ∧ d.perm.imply Perm.MIGRATE_ONCE = false := by
  have hcall := eq_ok_of_returned (a := CapIdx.make 0 0)
    (x := transferTo buddyPayloads 0 1 (CapIdx.make 0 0) (endpointHeld Perm.MIGRATE_ONCE))
    (endpointHeld Perm.MIGRATE_ONCE) (by decide)
  obtain ⟨c, d, hc, hd, honce, -⟩ := migrate_once_delivered hcall
  cases hc
  exact ⟨_, d, hd, honce.mpr (by decide)⟩

/-- A capability that can be cloned and migrated once is delivered with both permissions. -/
theorem migrate_once_kept : ∃ (target : CapIdx) (s' : CapState (World (Gfp Buddy))),
    transferTo buddyPayloads 0 1 (CapIdx.make 0 0)
      (endpointHeld (Perm.CLONE ||| Perm.MIGRATE_ONCE)) = .ok (.ok target, s') ∧
    ∃ d, s'.caps (target.loc 1) = some d ∧ d.perm.imply Perm.MIGRATE_ONCE = true := by
  refine ⟨CapIdx.make 0 0, _,
    eq_ok_of_returned (endpointHeld (Perm.CLONE ||| Perm.MIGRATE_ONCE)) (by decide),
    ⟨0, Perm.CLONE ||| Perm.MIGRATE_ONCE⟩, by decide, by decide⟩

/-- In the run that inserts a root and transfers it, the receiver has no more than the root. -/
theorem authority_monotone_endpoint : ∃ w : TracedState (World (Gfp Buddy)),
    w.state.caps ((CapIdx.make 0 0).loc 1) = some ⟨0, Perm.CLONE⟩ ∧
    ∃ root ∈ w.roots, w.origin root.payload = w.origin 0 ∧
      root.perm.imply Perm.CLONE = true := by
  have hinsert := eq_ok_valueOr (d := (.error .nullptr, endpointHeld Perm.CLONE))
    (x := (CapCall.insert 0 (CapIdx.make 0 0) (some 0) Perm.CLONE).run buddyPayloads
      ⟨fun _ => CSpace.empty, oneEndpoint⟩) (by decide)
  have htransfer := eq_ok_valueOr (d := (.error .nullptr, endpointHeld Perm.CLONE))
    (x := (CapCall.transferTo 0 1 (CapIdx.make 0 0)).run buddyPayloads
      (endpointHeld Perm.CLONE)) (by decide)
  have hrun : ReflTransGen (CapStep buddyPayloads) (TracedState.init oneEndpoint) _ :=
    (ReflTransGen.single (CapStep.call (TracedState.init oneEndpoint) hinsert (by
      rintro root hroot
      obtain rfl : root = ⟨0, Perm.CLONE⟩ := hroot
      decide))).tail (CapStep.call _ htransfer (fun root hroot => absurd hroot (Set.notMem_empty _)))
  have hheld := (authority_monotone hrun).1 ((CapIdx.make 0 0).loc 1) ⟨0, Perm.CLONE⟩ (by decide)
  exact ⟨_, by decide, hheld⟩

end Sample

end Sustcore
