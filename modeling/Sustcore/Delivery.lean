/-
# Delivery of several capabilities (`kernel/syscall/endpoint.cpp`, `kernel/syscall/task.cpp`)

A message carries up to four capabilities, which are transferred one by one when it is
received.  A new process gets its initial capabilities one by one.  Both loops can fail at
any item, and then something has been delivered already.

`insert_received_caps` takes back what it inserted, which undoes clones but not
migrations: the capability of the sender is gone.  `copy_initial_caps_in_place` takes back
only the item that fails.  `failed_delivery_unchanged` says when an error leaves all
holders as they were.
-/
import Sustcore.CapabilityRuns

namespace Sustcore

open Function Kernel CHolder List

/-! ## Messages -/

def MAX_MSG_SIZE : ℕ := 128
def MAX_MSG_CAPS : ℕ := 4

/-- `EndpointMessage`; the sizes are those of the two lists. -/
structure EndpointMessage where
  senderPid : ℕ
  msgbuf : List UInt8
  capidxs : List CapIdx
  msgsz_le : msgbuf.length ≤ MAX_MSG_SIZE
  capsz_le : capidxs.length ≤ MAX_MSG_CAPS
  deriving DecidableEq

section Delivery

variable {σ : Type} (O : Payloads σ)

/-! ## The capabilities of a message -/

/-- The `cleanup` guard: removes the slots that were filled. -/
def cleanupInserted (holder : ℕ) : List CapIdx → Kernel (CapState σ) Unit
  | [] => pure ()
  | slot :: rest => do
      mustSucceed (remove O holder slot)
      cleanupInserted holder rest

/-- The loop of `insert_received_caps`. -/
def transferLoop (sender holder : ℕ) :
    List CapIdx → List CapIdx → Kernel (CapState σ) (List CapIdx)
  | [], inserted => pure inserted
  | idx :: rest, inserted => do
      let slotRes ← attempt (transferTo O sender holder idx)
      match slotRes with
      | .error e => do
          cleanupInserted O holder inserted
          throw e
      | .ok slot => transferLoop sender holder rest (inserted ++ [slot])

/-- `insert_received_caps`; `holderOf` finds the holder of a process, and `none` is a null
holder. -/
def insertReceivedCaps (holderOf : ℕ → Result ℕ) (holder : Option ℕ) (msg : EndpointMessage) :
    Kernel (CapState σ) (List CapIdx) :=
  match holder with
  | none => throw .nullptr
  | some holder => do
      let sender ← ofResult (holderOf msg.senderPid)
      transferLoop O sender holder msg.capidxs []

/-! ## The initial capabilities of a process -/

/-- `destruct` of a payload that no capability refers to. -/
def destructPayload (p : ℕ) : Kernel (CapState σ) Unit :=
  lift fun s => do
    let heap ← O.destruct p s.heap
    pure { s with heap := heap }

/-- A clone that could not be inserted is destructed. -/
def discardClone (payload srcPayload : ℕ) : Kernel (CapState σ) Unit :=
  if payload = srcPayload then pure () else destructPayload O payload

/-- The end of a round that cloned: the private memory of the parent is write-protected.
`protect` is `protect_memory_cow` of the address space of the parent, if it has one. -/
def protectSource (protect : Option (ℕ → Kernel σ Unit)) (dst : ℕ) (idx : CapIdx)
    (srcPayload : ℕ) : Kernel (CapState σ) Unit := do
  let s ← get
  match protect with
  | none => pure ()
  | some protect =>
    if O.isPrivateMemory s.heap srcPayload then do
      let cowRes ← attempt (onHeap (protect srcPayload))
      match cowRes with
      | .error e => do
          mustSucceed (remove O dst idx)
          throw e
      | .ok () => pure ()
    else pure ()

/-- One round of `copy_initial_caps_in_place`. -/
def copyInitialCap (protect : Option (ℕ → Kernel σ Unit)) (src dst : ℕ) (idx : CapIdx) :
    Kernel (CapState σ) Unit := do
  let srcCap ← lookup src idx
  if srcCap.perm.imply Perm.CLONE then do
    let s ← get
    let (payload, heap) := O.clonePayload srcCap.payload s.heap
    modify fun s => { s with heap := heap }
    let insertRes ← attempt (insert O dst idx (some payload) srcCap.perm)
    match insertRes with
    | .error e => do
        discardClone O payload srcCap.payload
        throw e
    | .ok () => protectSource O protect dst idx srcCap.payload
  else if srcCap.perm.imply Perm.MIGRATE || srcCap.perm.imply Perm.MIGRATE_ONCE then do
    insert O dst idx (some srcCap.payload) (srcCap.perm &&& ~~~Perm.MIGRATE_ONCE)
    let removeRes ← attempt (remove O src idx)
    match removeRes with
    | .error e => do
        mustSucceed (remove O dst idx)
        throw e
    | .ok () => pure ()
  else throw .insufficientPermissions

/-- The loop of `copy_initial_caps_in_place`. -/
def copyInitialLoop (protect : Option (ℕ → Kernel σ Unit)) (src dst : ℕ) :
    List CapIdx → Kernel (CapState σ) Unit
  | [] => pure ()
  | idx :: rest => do
      copyInitialCap O protect src dst idx
      copyInitialLoop protect src dst rest

/-- `copy_initial_caps_in_place`; `caps` is the buffer, of the size the caller gives. -/
def copyInitialCapsInPlace (src : Option ℕ) (protect : Option (ℕ → Kernel σ Unit))
    (dst : Option ℕ) (caps : List CapIdx) : Kernel (CapState σ) Unit :=
  match src, dst with
  | some src, some dst => copyInitialLoop O protect src dst caps
  | _, _ => throw .nullptr

/-! ## What was inserted is taken back -/

variable {O} {s s' t : CapState σ} {holder sender src dst : ℕ} {idx : CapIdx}

/-- The slot is one of those that were filled. -/
def Inserted (holder : ℕ) (inserted : List CapIdx) (i : Loc) : Prop :=
  ∃ slot ∈ inserted, slot.loc holder = i

theorem inserted_append {inserted : List CapIdx} {slot : CapIdx} {i : Loc} :
    Inserted holder (inserted ++ [slot]) i ↔ Inserted holder inserted i ∨ slot.loc holder = i := by
  unfold Inserted
  simp only [mem_append, mem_singleton, or_and_right, exists_or, exists_eq_left]

/-- `cleanup` empties the slots that were filled, and only these. -/
theorem cleanupInserted_eq_ok : ∀ {inserted : List CapIdx} {t s' : CapState σ} {r : Result Unit},
    cleanupInserted O holder inserted t = .ok (r, s') → r = .ok () ∧ ∀ i,
      (Inserted holder inserted i → s'.caps i = none) ∧
      (¬Inserted holder inserted i → s'.caps i = t.caps i) ∧
      (t.caps i = none → s'.caps i = none) := by
  intro inserted
  induction inserted with
  | nil =>
    intro t s' r hcall
    obtain ⟨rfl, rfl⟩ := pure_eq_ok.mp hcall
    refine ⟨rfl, fun i => ⟨?_, fun _ => rfl, fun h => h⟩⟩
    rintro ⟨slot, hslot, -⟩
    cases hslot
  | cons slot rest ih =>
    intro t s' r hcall
    obtain ⟨⟨⟩, u, hremove, hrest⟩ := mustSucceed_bind_eq_ok.mp hcall
    obtain ⟨rfl, hcaps⟩ := ih hrest
    rcases remove_eq_ok hremove with ⟨e, he, -⟩ | ⟨c, -, -, -, hu, -⟩
    · cases he
    refine ⟨rfl, fun i => ?_⟩
    obtain ⟨hin, hout, hnone⟩ := hcaps i
    by_cases hi : i = slot.loc holder
    · have hempty : s'.caps i = none := by
        apply hnone
        rw [hu, hi, update_self]
      exact ⟨fun _ => hempty, fun hnot => absurd ⟨slot, mem_cons_self, hi.symm⟩ hnot,
        fun _ => hempty⟩
    · have hsame : u.caps i = t.caps i := by rw [hu, update_of_ne hi]
      refine ⟨?_, ?_, fun h => hnone (hsame ▸ h)⟩
      · rintro ⟨slot', hslot', hloc⟩
        rcases mem_cons.mp hslot' with rfl | hmem
        · exact absurd hloc.symm hi
        · exact hin ⟨slot', hmem, hloc⟩
      · intro hnot
        rw [hout (fun ⟨slot', hmem, hloc⟩ => hnot ⟨slot', mem_cons_of_mem _ hmem, hloc⟩), hsame]

/-- So far there were only clones: what was inserted can be taken back. -/
structure Undoable (holder : ℕ) (s t : CapState σ) (inserted : List CapIdx) : Prop where
  filled : ∀ i, Inserted holder inserted i → s.caps i = none ∧
    ∃ c, t.caps i = some c ∧ c.perm.imply Perm.CLONE = true
  rest : ∀ i, ¬Inserted holder inserted i → t.caps i = s.caps i

/-- A capability was migrated: its slot is empty or has been filled again. -/
def Lost (holder : ℕ) (s t : CapState σ) (inserted : List CapIdx) : Prop :=
  ∃ i, s.caps i ≠ none ∧ (t.caps i = none ∨ Inserted holder inserted i)

variable {inserted : List CapIdx} {target : CapIdx} {c : Capability}

theorem undoable_start (s : CapState σ) : Undoable holder s s [] where
  filled := by
    rintro i ⟨slot, hslot, -⟩
    cases hslot
  rest := fun _ _ => rfl

variable {r : Result Unit}

/-- What can be undone is undone. -/
theorem Undoable.cleanup (h : Undoable holder s t inserted)
    (hcleanup : cleanupInserted O holder inserted t = .ok (r, s')) : s'.caps = s.caps := by
  funext i
  obtain ⟨hin, hout, -⟩ := (cleanupInserted_eq_ok hcleanup).2 i
  by_cases hi : Inserted holder inserted i
  · rw [hin hi, (h.filled i hi).1]
  · rw [hout hi, h.rest i hi]

theorem Lost.cleanup (h : Lost holder s t inserted)
    (hcleanup : cleanupInserted O holder inserted t = .ok (r, s')) : s'.caps ≠ s.caps := by
  obtain ⟨i, hsome, hlost⟩ := h
  obtain ⟨hin, -, hnone⟩ := (cleanupInserted_eq_ok hcleanup).2 i
  have hempty : s'.caps i = none := by
    rcases hlost with hempty | hi
    · exact hnone hempty
    · exact hin hi
  intro heq
  rw [heq] at hempty
  exact hsome hempty

/-! ## One transfer -/

variable {t' : CapState σ}

theorem Undoable.clone {p : ℕ} {perm : Perm}
    (h : Undoable holder s t inserted) (hfree : t.caps (target.loc holder) = none)
    (hclone : perm.imply Perm.CLONE = true)
    (hcaps : t'.caps = update t.caps (target.loc holder) (some ⟨p, perm⟩)) :
    Undoable holder s t' (inserted ++ [target]) where
  filled := by
    intro i hi
    rw [inserted_append] at hi
    by_cases htarget : i = target.loc holder
    · subst htarget
      refine ⟨?_, _, by rw [hcaps, update_self], hclone⟩
      by_cases hold : Inserted holder inserted (target.loc holder)
      · exact (h.filled _ hold).1
      · rwa [← h.rest _ hold]
    · rcases hi with hi | hi
      · rw [hcaps, update_of_ne htarget]
        exact h.filled i hi
      · exact absurd hi.symm htarget
  rest := by
    intro i hi
    rw [inserted_append] at hi
    rw [not_or] at hi
    rw [hcaps, update_of_ne (Ne.symm hi.2)]
    exact h.rest i hi.1

variable {new : Capability}

/-- The first migration takes a capability that was there at the beginning. -/
theorem Undoable.migrate (h : Undoable holder s t inserted) (hc : t.caps (idx.loc sender) = some c)
    (hclone : c.perm.imply Perm.CLONE = false)
    (hcaps : t'.caps = update (update t.caps (target.loc holder) (some new))
      (idx.loc sender) none) : Lost holder s t' (inserted ++ [target]) := by
  refine ⟨idx.loc sender, ?_, .inl (by rw [hcaps, update_self])⟩
  have hnot : ¬Inserted holder inserted (idx.loc sender) := by
    intro hi
    obtain ⟨-, c', hc', hclone'⟩ := h.filled _ hi
    rw [hc] at hc'
    cases hc'
    rw [hclone] at hclone'
    cases hclone'
  rw [← h.rest _ hnot, hc]
  exact Option.some_ne_none c

/-- A later transfer does not bring back what is lost. -/
theorem Lost.transfer (h : Lost holder s t inserted)
    (hcaps : ∀ i, i ≠ target.loc holder → t.caps i = none → t'.caps i = none) :
    Lost holder s t' (inserted ++ [target]) := by
  obtain ⟨i, hsome, hlost⟩ := h
  refine ⟨i, hsome, ?_⟩
  rw [inserted_append]
  rcases hlost with hnone | hi
  · by_cases htarget : i = target.loc holder
    · exact .inr (.inr htarget.symm)
    · exact .inl (hcaps i htarget hnone)
  · exact .inr (.inl hi)

variable (O) in
/-- No capability of the message is migrated: each one that is transferred is a clone. -/
def OnlyClones (sender holder : ℕ) : List CapIdx → CapState σ → Prop
  | [], _ => True
  | idx :: rest, s => ∀ target t, transferTo O sender holder idx s = .ok (.ok target, t) →
      (∃ c, s.caps (idx.loc sender) = some c ∧ c.perm.imply Perm.CLONE = true) ∧
        OnlyClones sender holder rest t

/-- **One round of the loop**: the transfer fails and the guard takes back what was inserted, or
the loop goes on. -/
theorem transferLoop_cons_eq_ok {rest : List CapIdx} {r : Result (List CapIdx)}
    (hloop : transferLoop O sender holder (idx :: rest) inserted t = .ok (r, s')) :
    (∃ e u, transferTo O sender holder idx t = .ok (.error e, u) ∧ u.caps = t.caps ∧
      cleanupInserted O holder inserted u = .ok (.ok (), s')) ∨
    ∃ c target u, transferTo O sender holder idx t = .ok (.ok target, u) ∧
      t.caps (idx.loc sender) = some c ∧ t.caps (target.loc holder) = none ∧
      ((c.perm.imply Perm.CLONE = true ∧
          ∃ p, u.caps = update t.caps (target.loc holder) (some ⟨p, c.perm⟩)) ∨
        (c.perm.imply Perm.CLONE = false ∧
          (c.perm.imply Perm.MIGRATE = true ∨ c.perm.imply Perm.MIGRATE_ONCE = true) ∧
          u.caps = update (update t.caps (target.loc holder)
            (some ⟨c.payload, c.perm &&& ~~~Perm.MIGRATE_ONCE⟩)) (idx.loc sender) none)) ∧
      transferLoop O sender holder rest (inserted ++ [target]) u = .ok (r, s') := by
  obtain ⟨res, u, htransfer, hrest⟩ := attempt_bind_eq_ok.mp hloop
  obtain ⟨-, ⟨e, rfl, hcaps⟩ | ⟨c, target, rfl, -, hc, -, hfree, hpath⟩⟩ :=
    transferTo_eq_ok htransfer
  · rcases bind_eq_ok.mp hrest with ⟨e', hcleanup, -⟩ | ⟨⟨⟩, v, hcleanup, hthrow⟩
    · cases (cleanupInserted_eq_ok hcleanup).1
    · obtain ⟨-, rfl⟩ := throw_eq_ok.mp hthrow
      exact .inl ⟨e, u, htransfer, hcaps, hcleanup⟩
  · refine .inr ⟨c, target, u, htransfer, hc, hfree, ?_, hrest⟩
    exact hpath.imp_left fun ⟨hclone, p, _, hcaps⟩ => ⟨hclone, p, hcaps⟩

theorem transferLoop_lost {e : ErrCode} : ∀ {capidxs inserted : List CapIdx} {t : CapState σ},
    Lost holder s t inserted →
    transferLoop O sender holder capidxs inserted t = .ok (.error e, s') → s'.caps ≠ s.caps := by
  intro capidxs
  induction capidxs with
  | nil =>
    intro inserted t _ hloop
    cases (pure_eq_ok.mp hloop).1
  | cons idx rest ih =>
    intro inserted t hlost hloop
    rcases transferLoop_cons_eq_ok hloop with ⟨_, u, -, hcaps, hcleanup⟩ |
      ⟨c, target, u, -, -, -, hpath, hrest⟩
    · refine Lost.cleanup (t := u) ?_ hcleanup
      unfold Lost at hlost ⊢
      rwa [hcaps]
    · refine ih (hlost.transfer ?_) hrest
      intro i hi hnone
      rcases hpath with ⟨-, p, hcaps⟩ | ⟨-, -, hcaps⟩
      · rw [hcaps, update_of_ne hi, hnone]
      · rw [hcaps]
        by_cases hsource : i = idx.loc sender
        · rw [hsource, update_self]
        · rw [update_of_ne hsource, update_of_ne hi, hnone]

/-- **The loop of `insert_received_caps`**: an error undoes everything exactly when there
were only clones. -/
theorem transferLoop_undo {e : ErrCode} : ∀ {capidxs inserted : List CapIdx} {t : CapState σ},
    Undoable holder s t inserted →
    transferLoop O sender holder capidxs inserted t = .ok (.error e, s') →
    (s'.caps = s.caps ↔ OnlyClones O sender holder capidxs t) := by
  intro capidxs
  induction capidxs with
  | nil =>
    intro inserted t _ hloop
    cases (pure_eq_ok.mp hloop).1
  | cons idx rest ih =>
    intro inserted t hundo hloop
    rcases transferLoop_cons_eq_ok hloop with ⟨_, u, htransfer, hcaps, hcleanup⟩ |
      ⟨c, target, u, htransfer, hc, hfree, hpath, hrest⟩
    · -- this is the item that fails
      have hundo' : Undoable holder s u inserted :=
        ⟨by rw [hcaps]; exact hundo.filled, by rw [hcaps]; exact hundo.rest⟩
      refine iff_of_true (hundo'.cleanup hcleanup) ?_
      intro target t' hok
      rw [htransfer] at hok
      cases (ok_inj hok).1
    · have honly : OnlyClones O sender holder (idx :: rest) t ↔
          c.perm.imply Perm.CLONE = true ∧ OnlyClones O sender holder rest u := by
        constructor
        · intro h
          obtain ⟨⟨c', hc', hclone⟩, hrest'⟩ := h target u htransfer
          rw [hc] at hc'
          cases hc'
          exact ⟨hclone, hrest'⟩
        · rintro ⟨hclone, hrest'⟩ target' u' hok
          rw [htransfer] at hok
          obtain ⟨-, rfl⟩ := ok_inj hok
          exact ⟨⟨c, hc, hclone⟩, hrest'⟩
      rw [honly]
      rcases hpath with ⟨hclone, p, hcaps⟩ | ⟨hclone, -, hcaps⟩
      · rw [ih (hundo.clone hfree hclone hcaps) hrest]
        exact ⟨fun h => ⟨hclone, h⟩, fun h => h.2⟩
      · refine iff_of_false (transferLoop_lost (hundo.migrate hc hclone hcaps) hrest) ?_
        rintro ⟨hclone', -⟩
        rw [hclone] at hclone'
        cases hclone'

/-! ## One initial capability -/

theorem discardClone_caps {p q : ℕ}
    (hcall : discardClone O p q s = .ok (r, s')) : r = .ok () ∧ s'.caps = s.caps := by
  unfold discardClone at hcall
  split at hcall
  · obtain ⟨rfl, rfl⟩ := pure_eq_ok.mp hcall
    exact ⟨rfl, rfl⟩
  · obtain ⟨rfl, hlift⟩ := lift_eq_ok.mp hcall
    obtain ⟨heap, -, hs⟩ := Except.bind_eq_ok_iff.mp hlift
    cases hs
    exact ⟨rfl, rfl⟩

/-- A slot that was filled is emptied again. -/
theorem remove_undo (hfree : s.caps (idx.loc dst) = none)
    (hcaps : t.caps = update s.caps (idx.loc dst) (some new))
    (hremove : remove O dst idx t = .ok (.ok (), s')) : s'.caps = s.caps := by
  rcases remove_eq_ok hremove with ⟨e, he, -⟩ | ⟨c, -, -, -, hs', -⟩
  · cases he
  · rw [hs', hcaps, update_idem, ← hfree, update_eq_self]

variable {protect : Option (ℕ → Kernel σ Unit)}

variable (O protect) in
/-- The memory `p` of the parent can be write-protected, where this is needed. -/
def Protectable (heap : σ) (p : ℕ) : Prop :=
  ∀ f, protect = some f → O.isPrivateMemory heap p = true → ∃ heap', f p heap = .ok (.ok (), heap')

/-- The protection at the end of a round: it succeeds, or the clone is taken back. -/
theorem protectSource_eq_ok {p : ℕ} (hfree : s.caps (idx.loc dst) = none)
    (hcaps : t.caps = update s.caps (idx.loc dst) (some new))
    (hcall : protectSource O protect dst idx p t = .ok (r, s')) :
    (∃ e, r = .error e ∧ s'.caps = s.caps ∧ ¬Protectable O protect t.heap p) ∨
      (r = .ok () ∧ s'.caps = t.caps ∧ Protectable O protect t.heap p) := by
  unfold protectSource at hcall
  rw [get_bind] at hcall
  cases protect with
  | none =>
    obtain ⟨rfl, rfl⟩ := pure_eq_ok.mp hcall
    exact .inr ⟨rfl, rfl, nofun⟩
  | some protect =>
    simp only at hcall
    split at hcall
    · rename_i hprivate
      obtain ⟨res, u, hprotect, hend⟩ := attempt_bind_eq_ok.mp hcall
      obtain ⟨hholders, hheap⟩ := onHeap_eq_ok hprotect
      have hu : u.caps = t.caps := caps_congr hholders
      cases res with
      | error e =>
        obtain ⟨⟨⟩, z, hundo, hthrow⟩ := mustSucceed_bind_eq_ok.mp hend
        obtain ⟨rfl, rfl⟩ := throw_eq_ok.mp hthrow
        refine .inl ⟨e, rfl, remove_undo hfree (hu.trans hcaps) hundo, ?_⟩
        intro hable
        obtain ⟨heap', hok⟩ := hable protect rfl hprivate
        cases (ok_inj (hheap.symm.trans hok)).1
      | ok _ =>
        obtain ⟨rfl, rfl⟩ := pure_eq_ok.mp hend
        refine .inr ⟨rfl, hu, ?_⟩
        intro f hf _
        cases hf
        exact ⟨_, hheap⟩
    · rename_i hshared
      obtain ⟨rfl, rfl⟩ := pure_eq_ok.mp hcall
      exact .inr ⟨rfl, rfl, fun _ _ hprivate => absurd hprivate hshared⟩

/-- The item is in the slot of the child, which was empty; the other capabilities of the
child are still there. -/
def Copied (dst : ℕ) (idx : CapIdx) (s s' : CapState σ) : Prop :=
  s.caps (idx.loc dst) = none ∧ s'.caps (idx.loc dst) ≠ none ∧
    ∀ i, i.1 = dst → s.caps i ≠ none → s'.caps i ≠ none

/-- The slot of the child is filled. -/
theorem copied_of_update (hfree : s.caps (idx.loc dst) = none)
    (hcaps : s'.caps = update s.caps (idx.loc dst) (some new)) : Copied dst idx s s' := by
  refine ⟨hfree, by rw [hcaps, update_self]; exact Option.some_ne_none new, ?_⟩
  intro i _ hsome
  have hne : i ≠ idx.loc dst := by
    rintro rfl
    exact hsome hfree
  rwa [hcaps, update_of_ne hne]

variable (O protect) in
/-- The checks of an item: the slot of the child is free, and that of the parent has a
capability that can be cloned, with its memory protected, or migrated. -/
def Copyable (src dst : ℕ) (idx : CapIdx) (s : CapState σ) : Prop :=
  idx.valid = true ∧ s.caps (idx.loc dst) = none ∧ ∃ c, s.caps (idx.loc src) = some c ∧
    if c.perm.imply Perm.CLONE then
      Protectable O protect (O.keep (O.clonePayload c.payload s.heap).1
        (O.clonePayload c.payload s.heap).2) c.payload
    else (c.perm.imply Perm.MIGRATE || c.perm.imply Perm.MIGRATE_ONCE) = true

/-- **One item**: it is copied if it passes its checks, and otherwise no holder changes. -/
theorem copyInitialCap_eq_ok (hcall : copyInitialCap O protect src dst idx s = .ok (r, s')) :
    (∃ e, r = .error e ∧ s'.caps = s.caps ∧ ¬Copyable O protect src dst idx s) ∨
      (r = .ok () ∧ Copied dst idx s s' ∧ Copyable O protect src dst idx s) := by
  by_cases hfound : ∃ c, idx.valid = true ∧ s.caps (idx.loc src) = some c
  swap
  · rcases lookup_bind_eq_ok hcall with ⟨e, rfl, rfl⟩ | ⟨c, hvalid, hc, -⟩
    · exact .inl ⟨e, rfl, rfl, fun ⟨hvalid, _, c, hc, _⟩ => hfound ⟨c, hvalid, hc⟩⟩
    · exact absurd ⟨c, hvalid, hc⟩ hfound
  obtain ⟨c, hvalid, hc⟩ := hfound
  rw [copyInitialCap, bind_of_ok (lookup_of_caps hvalid hc)] at hcall
  have hchecks : Copyable O protect src dst idx s ↔ s.caps (idx.loc dst) = none ∧
      if c.perm.imply Perm.CLONE then
        Protectable O protect (O.keep (O.clonePayload c.payload s.heap).1
          (O.clonePayload c.payload s.heap).2) c.payload
      else (c.perm.imply Perm.MIGRATE || c.perm.imply Perm.MIGRATE_ONCE) = true := by
    simp [Copyable, hvalid, hc]
  rw [hchecks]
  split at hcall
  · -- the capability is cloned
    rename_i hclone
    rw [if_pos hclone]
    obtain ⟨res, u, hinsert, hend⟩ := attempt_bind_eq_ok.mp hcall
    rcases insert_eq_ok hinsert with ⟨e, rfl, rfl⟩ | ⟨q, hq, rfl, -, hfree, hu, hheap⟩
    · rcases bind_eq_ok.mp hend with ⟨e', hdiscard, -⟩ | ⟨⟨⟩, v, hdiscard, hthrow⟩
      · cases (discardClone_caps hdiscard).1
      obtain ⟨rfl, rfl⟩ := throw_eq_ok.mp hthrow
      refine .inl ⟨e, rfl, ?_, fun hfree => insert_error hinsert ⟨hvalid, hfree.1⟩⟩
      rw [(discardClone_caps hdiscard).2]
      rfl
    · cases hq
      have hfree' : s.caps (idx.loc dst) = none := hfree
      have hu' : u.caps = update s.caps (idx.loc dst) (some ⟨_, c.perm⟩) := hu
      rw [← show u.heap = O.keep (O.clonePayload c.payload s.heap).1
        (O.clonePayload c.payload s.heap).2 from hheap]
      rcases protectSource_eq_ok hfree' hu' hend with ⟨e, rfl, hs', hnot⟩ | ⟨rfl, hs', hable⟩
      · exact .inl ⟨e, rfl, hs', fun h => hnot h.2⟩
      · exact .inr ⟨rfl, copied_of_update hfree' (hs'.trans hu'), hfree', hable⟩
  rename_i hclone
  rw [if_neg hclone]
  split at hcall
  · -- the capability is migrated
    rename_i hmigrate
    rcases bind_eq_ok.mp hcall with ⟨e, hinsert, rfl⟩ | ⟨⟨⟩, u, hinsert, hmove⟩
    · rcases insert_eq_ok hinsert with ⟨e', -, rfl⟩ | ⟨p, -, hr, -⟩
      · exact .inl ⟨e, rfl, rfl, fun hfree => insert_error hinsert ⟨hvalid, hfree.1⟩⟩
      · cases hr
    rcases insert_eq_ok hinsert with ⟨e, he, -⟩ | ⟨p, -, -, -, hfree, hu, -⟩
    · cases he
    -- the slot of the parent is not in the holder of the child
    have hholder : src ≠ dst := by
      rintro rfl
      rw [hc] at hfree
      cases hfree
    have hkept : ∀ i : Loc, i.1 = dst → i ≠ idx.loc src := by
      rintro i hi rfl
      exact hholder hi
    obtain ⟨res, v, hremove, hend⟩ := attempt_bind_eq_ok.mp hmove
    rcases remove_eq_ok hremove with ⟨e, -, -, hempty⟩ | ⟨c', rfl, -, -, hv, -⟩
    · refine absurd ⟨hvalid, ?_⟩ hempty
      rw [hu, update_of_ne (hkept _ rfl).symm, hc]
      rfl
    obtain ⟨rfl, rfl⟩ := pure_eq_ok.mp hend
    obtain ⟨hfree', hfilled, hothers⟩ := copied_of_update hfree hu
    have hsame : ∀ i : Loc, i.1 = dst → s'.caps i = u.caps i := by
      intro i hi
      rw [hv, update_of_ne (hkept i hi)]
    refine .inr ⟨rfl, ⟨hfree', ?_, ?_⟩, hfree, hmigrate⟩
    · rwa [hsame _ rfl]
    · intro i hi hsome
      rw [hsame i hi]
      exact hothers i hi hsome
  · rename_i hmigrate
    obtain ⟨rfl, rfl⟩ := throw_eq_ok.mp hcall
    exact .inl ⟨_, rfl, rfl, fun h => hmigrate h.2⟩

/-! ## When an error changes nothing -/

/-- What the child has been given it keeps. -/
theorem copyInitialLoop_kept : ∀ {caps : List CapIdx} {t s' : CapState σ} {r : Result Unit},
    copyInitialLoop O protect src dst caps t = .ok (r, s') →
    ∀ i, i.1 = dst → t.caps i ≠ none → s'.caps i ≠ none := by
  intro caps
  induction caps with
  | nil =>
    intro t s' r hloop i _ hsome
    obtain ⟨-, rfl⟩ := pure_eq_ok.mp hloop
    exact hsome
  | cons idx rest ih =>
    intro t s' r hloop i hi hsome
    rcases bind_eq_ok.mp hloop with ⟨e, hitem, -⟩ | ⟨⟨⟩, u, hitem, hrest⟩
    · rcases copyInitialCap_eq_ok hitem with ⟨e', -, hcaps, -⟩ | ⟨hr, -⟩
      · rwa [hcaps]
      · cases hr
    · rcases copyInitialCap_eq_ok hitem with ⟨e', he, -⟩ | ⟨-, ⟨-, -, hkept⟩, -⟩
      · cases he
      · exact ih hrest i hi (hkept i hi hsome)

variable (O) in
/-- No initial capability is copied: a holder is missing, or the first item does not pass its
checks. -/
def NothingCopied (src : Option ℕ) (protect : Option (ℕ → Kernel σ Unit)) (dst : Option ℕ)
    (caps : List CapIdx) (s : CapState σ) : Prop :=
  ∀ h h' idx, src = some h → dst = some h' → caps.head? = some idx →
    ¬Copyable O protect h h' idx s

/-- `copy_initial_caps_in_place` does not take back the items before the one that fails. -/
theorem copyInitialCapsInPlace_error {src dst : Option ℕ} {caps : List CapIdx} {e : ErrCode}
    (hcall : copyInitialCapsInPlace O src protect dst caps s = .ok (.error e, s')) :
    s'.caps = s.caps ↔ NothingCopied O src protect dst caps s := by
  unfold copyInitialCapsInPlace at hcall
  split at hcall
  · rename_i h h'
    cases caps with
    | nil => cases (pure_eq_ok.mp hcall).1
    | cons idx rest =>
      have hfirst : NothingCopied O (some h) protect (some h') (idx :: rest) s ↔
          ¬Copyable O protect h h' idx s := by
        simp [NothingCopied]
      rw [hfirst]
      rcases bind_eq_ok.mp hcall with ⟨e', hitem, -⟩ | ⟨⟨⟩, u, hitem, hrest⟩
      · rcases copyInitialCap_eq_ok hitem with ⟨e'', -, hcaps, hnot⟩ | ⟨hr, -⟩
        · exact iff_of_true hcaps hnot
        · cases hr
      · rcases copyInitialCap_eq_ok hitem with ⟨e'', he, -⟩ | ⟨-, ⟨hfree, hfilled, -⟩, hable⟩
        · cases he
        refine iff_of_false ?_ (not_not.mpr hable)
        intro heq
        have hkept := copyInitialLoop_kept hrest (idx.loc h') rfl hfilled
        rw [heq] at hkept
        exact hkept hfree
  · rename_i hmissing
    obtain ⟨-, rfl⟩ := throw_eq_ok.mp hcall
    exact iff_of_true rfl fun h h' _ hsrc hdst => absurd hdst (hmissing h h' hsrc)

variable (O) in
/-- **A failed delivery.**  After an error of `insert_received_caps` the holders are as they
were exactly when no capability of the message had been migrated; after an error of
`copy_initial_caps_in_place` exactly when no capability had been copied. -/
theorem failed_delivery_unchanged :
    (∀ (holderOf : ℕ → Result ℕ) (holder : Option ℕ) (msg : EndpointMessage) (e : ErrCode)
      (s s' : CapState σ), insertReceivedCaps O holderOf holder msg s = .ok (.error e, s') →
      (s'.caps = s.caps ↔ ∀ sender h, holderOf msg.senderPid = .ok sender → holder = some h →
        OnlyClones O sender h msg.capidxs s)) ∧
    (∀ (src dst : Option ℕ) (protect : Option (ℕ → Kernel σ Unit)) (caps : List CapIdx)
      (e : ErrCode) (s s' : CapState σ),
      copyInitialCapsInPlace O src protect dst caps s = .ok (.error e, s') →
      (s'.caps = s.caps ↔ NothingCopied O src protect dst caps s)) := by
  refine ⟨?_, fun _ _ _ _ _ _ _ => copyInitialCapsInPlace_error⟩
  intro holderOf holder msg e s s' hcall
  cases holder with
  | none =>
    obtain ⟨-, rfl⟩ := throw_eq_ok.mp hcall
    exact iff_of_true rfl fun _ _ _ hholder => by cases hholder
  | some h =>
    rcases ofResult_bind_eq_ok.mp hcall with ⟨e', hsender, -, rfl⟩ | ⟨sender, hsender, hloop⟩
    · refine iff_of_true rfl ?_
      intro sender h' hok
      rw [hsender] at hok
      cases hok
    rw [transferLoop_undo (undoable_start s) hloop]
    constructor
    · intro honly sender' h' hok hh'
      rw [hsender] at hok
      cases hok
      cases hh'
      exact honly
    · intro honly
      exact honly sender h hsender rfl

end Delivery

/-- A message of holder 0 with the capability in its first slot and one that is not there. -/
def twoCaps : EndpointMessage :=
  ⟨0, [], [CapIdx.make 0 0, CapIdx.make 0 1], by decide, by decide⟩

/-- When the second capability fails, a clone of the first one is taken back. -/
theorem failed_delivery_unchanged_clone : ∃ s' : CapState (World (Gfp Buddy)),
    insertReceivedCaps buddyPayloads (fun _ => .ok 0) (some 1) twoCaps (endpointHeld Perm.CLONE) =
      .ok (.error .outOfBoundary, s') ∧ s'.caps = (endpointHeld Perm.CLONE).caps := by
  have hcall := eq_ok_of_failed (e := .outOfBoundary) (x := insertReceivedCaps buddyPayloads
    (fun _ => .ok 0) (some 1) twoCaps (endpointHeld Perm.CLONE)) (endpointHeld Perm.CLONE)
    (by decide)
  have hfirst := eq_ok_of_returned (a := CapIdx.make 0 0) (x := transferTo buddyPayloads
    0 1 (CapIdx.make 0 0) (endpointHeld Perm.CLONE)) (endpointHeld Perm.CLONE) (by decide)
  refine ⟨_, hcall, ((failed_delivery_unchanged buddyPayloads).1 _ _ _ _ _ _ hcall).mpr ?_⟩
  intro sender h hsender hh
  cases hsender
  cases hh
  intro target t htarget
  rw [hfirst] at htarget
  obtain ⟨-, rfl⟩ := ok_inj htarget
  refine ⟨⟨⟨0, Perm.CLONE⟩, by decide, by decide⟩, ?_⟩
  intro target' t' hsecond
  have hnone : returned (transferTo buddyPayloads 0 1 (CapIdx.make 0 1)
      (Except.valueOr (.ok (CapIdx.make 0 0), endpointHeld Perm.CLONE) (transferTo
        buddyPayloads 0 1 (CapIdx.make 0 0) (endpointHeld Perm.CLONE))).2) = none := by decide
  rw [hsecond] at hnone
  cases hnone

/-- When the second capability fails, a first one that was migrated is lost; and the child
of a failed process creation keeps a first one that was cloned. -/
theorem failed_delivery_changed :
    (∃ s' : CapState (World (Gfp Buddy)),
      insertReceivedCaps buddyPayloads (fun _ => .ok 0) (some 1) twoCaps
        (endpointHeld Perm.MIGRATE) = .ok (.error .outOfBoundary, s') ∧
      (endpointHeld Perm.MIGRATE).caps ((CapIdx.make 0 0).loc 0) = some ⟨0, Perm.MIGRATE⟩ ∧
      s'.caps ((CapIdx.make 0 0).loc 0) = none ∧ s'.caps ((CapIdx.make 0 0).loc 1) = none) ∧
    (∃ s' : CapState (World (Gfp Buddy)),
      copyInitialCapsInPlace buddyPayloads (some 0) none (some 1) twoCaps.capidxs
        (endpointHeld Perm.CLONE) = .ok (.error .outOfBoundary, s') ∧
      (endpointHeld Perm.CLONE).caps ((CapIdx.make 0 0).loc 1) = none ∧
      s'.caps ((CapIdx.make 0 0).loc 1) = some ⟨0, Perm.CLONE⟩) :=
  ⟨⟨_, eq_ok_of_failed (endpointHeld Perm.MIGRATE) (by decide), by decide, by decide, by decide⟩,
    ⟨_, eq_ok_of_failed (endpointHeld Perm.CLONE) (by decide), by decide, by decide⟩⟩

end Sustcore
