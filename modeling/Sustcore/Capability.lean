/-
# Capabilities and their holders (`kernel/cap/capability.h`, `kernel/cap/cholder.cpp`)

A `Capability` is a payload with a permission word.  A holder keeps capabilities in a space
of 4096 groups of 256 slots; a slot is named by a 64-bit index.  The functions of `CHolder`
are written here over any heap of payloads (`Payloads`), of which they use
`clone_payload`, the reference counting `keep` and `release`, `destruct` and
`protect_memory_cow`.

A capability object belongs to one slot, so slots hold capabilities by value: storing is
the end of `new`, and overwriting or clearing a slot is `delete`.
-/
import Sustcore.Outcome

namespace Sustcore

open Kernel Function

/-! ## Indices -/

abbrev CapIdx := BitVec 64

namespace CapIdx

def MASK_VALID : CapIdx := 0x1000000000000000
def MASK_SLOT : CapIdx := 0x00000000000000FF
def MASK_GROUP : CapIdx := 0x00000000000FFF00
def MASK_RSVD : CapIdx :=
  0xFFFFFFFFFFFFFFFF &&& ~~~(MASK_VALID ||| MASK_SLOT ||| MASK_GROUP)

/-- `cap::null` and `cap::error`. -/
def null : CapIdx := 0
def error : CapIdx := 0xFFFFFFFFFFFFFFFF

/-- The number of groups of a space. -/
abbrev CSPACE_SIZE : ℕ := 4096

/-- The number of slots of a group. -/
abbrev CGROUP_SLOTS : ℕ := 256

/-- `cap::valid`. -/
def valid (idx : CapIdx) : Bool := idx &&& MASK_VALID != 0 && idx &&& MASK_RSVD == 0

/-- `cap::make`. -/
def make (group slot : ℕ) : CapIdx :=
  MASK_VALID ||| ((BitVec.ofNat 64 group <<< 8) &&& MASK_GROUP) |||
    (BitVec.ofNat 64 slot &&& MASK_SLOT)

theorem group_lt (idx : CapIdx) : ((idx &&& MASK_GROUP) >>> 8).toNat < CSPACE_SIZE := by
  have hle : (idx &&& MASK_GROUP).toNat ≤ 0xFFF00 := by
    exact Nat.and_le_right
  rw [BitVec.toNat_ushiftRight]
  simp only [CSPACE_SIZE]
  omega

theorem slot_lt (idx : CapIdx) : (idx &&& MASK_SLOT).toNat < CGROUP_SLOTS := by
  have hle : (idx &&& MASK_SLOT).toNat ≤ 0xFF := by
    exact Nat.and_le_right
  simp only [CGROUP_SLOTS]
  omega

/-- `cap::group`. -/
def group (idx : CapIdx) : Fin CSPACE_SIZE := ⟨((idx &&& MASK_GROUP) >>> 8).toNat, group_lt idx⟩

/-- `cap::slot`. -/
def slot (idx : CapIdx) : Fin CGROUP_SLOTS := ⟨(idx &&& MASK_SLOT).toNat, slot_lt idx⟩

/-- The bits of an index under a mask, from the three fields it is made of. -/
theorem make_and (g j : ℕ) (mask : CapIdx) : make g j &&& mask =
    MASK_VALID &&& mask ||| ((BitVec.ofNat 64 g <<< 8) &&& (MASK_GROUP &&& mask)) |||
      (BitVec.ofNat 64 j &&& (MASK_SLOT &&& mask)) := by
  unfold make
  rw [BitVec.and_comm, BitVec.and_or_distrib_left, BitVec.and_or_distrib_left,
    BitVec.and_comm mask, BitVec.and_comm mask, BitVec.and_comm mask, BitVec.and_assoc,
    BitVec.and_assoc]

theorem slot_make (g : ℕ) (j : Fin CGROUP_SLOTS) : (make g j).slot = j := by
  have hmask : make g j &&& MASK_SLOT = BitVec.ofNat 64 j &&& MASK_SLOT := by
    rw [make_and, show MASK_VALID &&& MASK_SLOT = 0#64 by decide,
      show MASK_GROUP &&& MASK_SLOT = 0#64 by decide, show MASK_SLOT &&& MASK_SLOT = MASK_SLOT by decide,
      BitVec.and_zero, BitVec.zero_or, BitVec.zero_or]
  apply Fin.ext
  show (make g j &&& MASK_SLOT).toNat = j
  rw [hmask, BitVec.toNat_and, show MASK_SLOT.toNat = 2 ^ 8 - 1 by decide,
    Nat.and_two_pow_sub_one_eq_mod, BitVec.toNat_ofNat]
  have hj : j.val < 256 := j.isLt
  omega

theorem group_make (g : Fin CSPACE_SIZE) (j : ℕ) : (make g j).group = g := by
  have hmask : make g j &&& MASK_GROUP = (BitVec.ofNat 64 g <<< 8) &&& (0xFFF#64 <<< 8) := by
    rw [make_and, show MASK_VALID &&& MASK_GROUP = 0#64 by decide,
      show MASK_SLOT &&& MASK_GROUP = 0#64 by decide,
      show MASK_GROUP &&& MASK_GROUP = 0xFFF#64 <<< 8 by decide,
      BitVec.and_zero, BitVec.zero_or, BitVec.or_zero]
  apply Fin.ext
  show ((make g j &&& MASK_GROUP) >>> 8).toNat = g
  have hg : g.val < 4096 := g.isLt
  rw [hmask, ← BitVec.shiftLeft_and_distrib, BitVec.toNat_ushiftRight, BitVec.toNat_shiftLeft,
    BitVec.toNat_and, show (0xFFF#64).toNat = 2 ^ 12 - 1 by decide,
    Nat.and_two_pow_sub_one_eq_mod, BitVec.toNat_ofNat, Nat.shiftLeft_eq, Nat.shiftRight_eq_div_pow]
  omega

theorem valid_make (g j : ℕ) : valid (make g j) = true := by
  have hvalid : make g j &&& MASK_VALID = MASK_VALID := by
    rw [make_and, show MASK_VALID &&& MASK_VALID = MASK_VALID by decide,
      show MASK_GROUP &&& MASK_VALID = 0#64 by decide, show MASK_SLOT &&& MASK_VALID = 0#64 by decide,
      BitVec.and_zero, BitVec.and_zero, BitVec.or_zero, BitVec.or_zero]
  have hrsvd : make g j &&& MASK_RSVD = 0#64 := by
    rw [make_and, show MASK_VALID &&& MASK_RSVD = 0#64 by decide,
      show MASK_GROUP &&& MASK_RSVD = 0#64 by decide, show MASK_SLOT &&& MASK_RSVD = 0#64 by decide,
      BitVec.and_zero, BitVec.and_zero, BitVec.or_zero, BitVec.or_zero]
  unfold valid
  rw [hvalid, hrsvd]
  decide

end CapIdx

/-! ## Permissions -/

abbrev Perm := BitVec 64

namespace Perm

def CLONE : Perm := 0x0002
def MIGRATE : Perm := 0x0004
def MIGRATE_ONCE : Perm := 0x0008

/-- `perm::vfile`, and the same bits in `perm::vdir`. -/
def READ : Perm := 0x010000
def WRITE : Perm := 0x020000

/-- `perm::imply`. -/
def imply (owned required : Perm) : Bool := owned &&& required == required

/-- `perm::allperm`. -/
def allperm : Perm := ~~~0

end Perm

/-- `Capability`; a payload is given by its address. -/
structure Capability where
  payload : ℕ
  perm : Perm
  deriving DecidableEq, Repr

/-! ## Spaces -/

abbrev CGroup := Fin CapIdx.CGROUP_SLOTS → Option Capability

/-- `CSpace`; a group is allocated when it is first used. -/
abbrev CSpace := Fin CapIdx.CSPACE_SIZE → Option CGroup

namespace CSpace

/-- A space without groups. -/
def empty : CSpace := fun _ => none

def get (sp : CSpace) (idx : CapIdx) : Option Capability :=
  match sp idx.group with
  | none => none
  | some grp => grp idx.slot

/-- `set`, without the `delete` of the old capability. -/
def set (sp : CSpace) (idx : CapIdx) (cap : Option Capability) : CSpace :=
  let grp := (sp idx.group).getD fun _ => none
  update sp idx.group (some (update grp idx.slot cap))

end CSpace

/-- A loop over `i`, `i + 1`, … that returns from its body: the first value of `n` rounds. -/
def firstFrom {α : Type} (body : ℕ → Option α) : ℕ → ℕ → Option α
  | 0, _ => none
  | n + 1, i =>
    match body i with
    | some a => some a
    | none => firstFrom body n (i + 1)

def CSpace.lookupFreeslot (sp : CSpace) : Result CapIdx :=
  let found := firstFrom (fun i =>
    match sp (Fin.ofNat CapIdx.CSPACE_SIZE i) with
    | none => some (CapIdx.make i 0)
    | some grp =>
      firstFrom (fun j => if (grp (CapIdx.make i j).slot).isNone then some (CapIdx.make i j)
        else none) CapIdx.CGROUP_SLOTS 0) CapIdx.CSPACE_SIZE 0
  match found with
  | none => .error .noFreeSlot
  | some idx => .ok idx

/-- The indices of all slots, in the order of `foreach`. -/
def CSpace.indices : List CapIdx :=
  (List.range CapIdx.CSPACE_SIZE).flatMap fun i =>
    (List.range CapIdx.CGROUP_SLOTS).map fun j => CapIdx.make i j

/-! ## Payloads -/

/-- What the functions of `CHolder` use of a heap of payloads.  `next` is the address where
the next payload will be; a clone is the payload itself or a new payload. -/
structure Payloads (σ : Type) where
  clonePayload : ℕ → σ → ℕ × σ
  keep : ℕ → σ → σ
  release : ℕ → σ → Except Halt σ
  destruct : ℕ → σ → Except Halt σ
  /-- The payload is a `MemoryPayload` that is not `shared`. -/
  isPrivateMemory : σ → ℕ → Bool
  /-- There is a current address space (`env::inst().tmm()`). -/
  hasTmm : σ → Bool
  protectMemoryCow : ℕ → Kernel σ Unit
  next : σ → ℕ
  clone_next : ∀ p s, (clonePayload p s).1 = p ∧ next (clonePayload p s).2 = next s ∨
    (clonePayload p s).1 = next s ∧ next (clonePayload p s).2 = next s + 1
  keep_next : ∀ p s, next (keep p s) = next s
  release_next : ∀ p s s', release p s = .ok s' → next s' = next s
  destruct_next : ∀ p s s', destruct p s = .ok s' → next s' = next s
  protect_next : ∀ p s r s', protectMemoryCow p s = .ok (r, s') → next s' = next s

/-- The holders, by their numbers, and the heap of payloads. -/
structure CapState (σ : Type) where
  holders : ℕ → CSpace
  heap : σ

section Holders

variable {σ : Type} (O : Payloads σ)

/-- `new Capability(payload, perm)`. -/
def newCapability (payload : ℕ) (perm : Perm) : Kernel (CapState σ) Capability := do
  modify fun s => { s with heap := O.keep payload s.heap }
  pure ⟨payload, perm⟩

/-- `new Capability(other)`. -/
def cloneCapability (other : Capability) : Kernel (CapState σ) Capability := do
  let s ← get
  let (payload, heap) := O.clonePayload other.payload s.heap
  modify fun s => { s with heap := heap }
  newCapability O payload other.perm

/-- `delete cap`. -/
def deleteCapability (cap : Capability) : Kernel (CapState σ) Unit :=
  lift fun s => do
    let heap ← O.release cap.payload s.heap
    pure { s with heap := heap }

def onHeap {α : Type} (x : Kernel σ α) : Kernel (CapState σ) α := fun s => do
  let (res, heap) ← x s.heap
  pure (res, { s with heap := heap })

namespace CHolder

def lookup (h : ℕ) (idx : CapIdx) : Kernel (CapState σ) Capability := do
  if !idx.valid then throw .typeNotMatched
  else do
    let s ← get
    match (s.holders h).get idx with
    | none => throw .outOfBoundary
    | some cap => pure cap

/-- A lookup changes nothing and finds what the slot holds. -/
theorem lookup_cases (h : ℕ) (idx : CapIdx) (s : CapState σ) :
    (∃ c, idx.valid = true ∧ (s.holders h).get idx = some c ∧ lookup h idx s = .ok (.ok c, s)) ∨
      (idx.valid = true → (s.holders h).get idx = none) ∧ ∃ e, lookup h idx s = .ok (.error e, s) := by
  unfold lookup
  cases hvalid : idx.valid with
  | false => exact .inr ⟨nofun, _, rfl⟩
  | true =>
    simp only [Bool.not_true, Bool.false_eq_true, if_false, Kernel.get_bind]
    cases hget : (s.holders h).get idx with
    | none => exact .inr ⟨fun _ => rfl, _, rfl⟩
    | some c => exact .inl ⟨c, trivial, rfl, rfl⟩

/-- Write a slot of a space. -/
def assign (h : ℕ) (idx : CapIdx) (cap : Option Capability) (s : CapState σ) : CapState σ :=
  { s with holders := update s.holders h ((s.holders h).set idx cap) }

/-- `CGroup::set`: the old capability is deleted before the slot is written. -/
def overwrite (h : ℕ) (idx : CapIdx) (cap : Option Capability) : Kernel (CapState σ) Unit := do
  let s ← get
  match (s.holders h).get idx with
  | none => pure ()
  | some old => deleteCapability O old
  modify (assign h idx cap)

def setSlot (h : ℕ) (idx : CapIdx) (cap : Option Capability) : Kernel (CapState σ) Unit := do
  if !idx.valid then throw .typeNotMatched
  else overwrite O h idx cap

def lookupFreeslot (h : ℕ) : Kernel (CapState σ) CapIdx := do
  let s ← get
  ofResult (s.holders h).lookupFreeslot

/-- `insert`; `none` is a null payload. -/
def insert (h : ℕ) (idx : CapIdx) (payload : Option ℕ) (perm : Perm) :
    Kernel (CapState σ) Unit := do
  if !idx.valid then throw .typeNotMatched
  else match payload with
    | none => throw .nullptr
    | some payload => do
        let s ← get
        if ((s.holders h).get idx).isSome then throw .busy
        else do
          let cap ← newCapability O payload perm
          mustSucceed (setSlot O h idx (some cap))

def insertToFree (h : ℕ) (payload : Option ℕ) (perm : Perm) : Kernel (CapState σ) CapIdx := do
  let idx ← lookupFreeslot h
  insert O h idx payload perm
  pure idx

def remove (h : ℕ) (idx : CapIdx) : Kernel (CapState σ) Unit := do
  let _ ← lookup h idx
  setSlot O h idx none

def clone (h : ℕ) (srcIdx : CapIdx) : Kernel (CapState σ) CapIdx := do
  let srcCap ← lookup h srcIdx
  if !srcCap.perm.imply Perm.CLONE then throw .insufficientPermissions
  else do
    let targetIdx ← lookupFreeslot h
    let clonedCap ← cloneCapability O srcCap
    let setRes ← attempt (setSlot O h targetIdx (some clonedCap))
    match setRes with
    | .error e => do
        deleteCapability O clonedCap
        throw e
    | .ok () => do
        let s ← get
        if O.isPrivateMemory s.heap srcCap.payload && O.hasTmm s.heap then do
          let cowRes ← attempt (onHeap (O.protectMemoryCow srcCap.payload))
          match cowRes with
          | .error e => do
              mustSucceed (setSlot O h targetIdx none)
              throw e
          | .ok () => pure targetIdx
        else pure targetIdx

/-- `Capability::downgrade` of the capability in a slot. -/
def downgradeAt (h : ℕ) (idx : CapIdx) (cap : Capability) (newPerm : Perm) :
    Kernel (CapState σ) Unit :=
  if !cap.perm.imply newPerm then throw .insufficientPermissions
  else modify (assign h idx (some { cap with perm := newPerm }))

def downgrade (h : ℕ) (idx : CapIdx) (newPerm : Perm) : Kernel (CapState σ) Unit := do
  let cap ← lookup h idx
  downgradeAt h idx cap newPerm

def derive (h : ℕ) (srcIdx : CapIdx) (newPerm : Perm) : Kernel (CapState σ) CapIdx := do
  let targetIdx ← clone O h srcIdx
  let cap ← mustSucceed (lookup h targetIdx)
  let downgradeRes ← attempt (downgradeAt h targetIdx cap newPerm)
  match downgradeRes with
  | .error e => do
      -- `clone_guard`
      mustSucceed (remove O h targetIdx)
      throw e
  | .ok () => pure targetIdx

def transferTo (h dst : ℕ) (srcIdx : CapIdx) : Kernel (CapState σ) CapIdx := do
  let srcCap ← lookup h srcIdx
  if srcCap.perm.imply Perm.CLONE then do
    let clonedCap ← cloneCapability O srcCap
    let targetRes ← attempt (lookupFreeslot dst)
    match targetRes with
    | .error e => do
        deleteCapability O clonedCap
        throw e
    | .ok targetIdx => do
        let setRes ← attempt (setSlot O dst targetIdx (some clonedCap))
        match setRes with
        | .error e => do
            deleteCapability O clonedCap
            throw e
        | .ok () => pure targetIdx
  else if !srcCap.perm.imply Perm.MIGRATE && !srcCap.perm.imply Perm.MIGRATE_ONCE then
    throw .insufficientPermissions
  else do
    let deliveredPerm := srcCap.perm &&& ~~~Perm.MIGRATE_ONCE
    let insertedIdx ← insertToFree O dst (some srcCap.payload) deliveredPerm
    let removeRes ← attempt (remove O h srcIdx)
    match removeRes with
    | .error e => do
        mustSucceed (remove O dst insertedIdx)
        throw e
    | .ok () => pure insertedIdx

/-- The loop of `copy_all_to`. -/
def copyLoop (h dst : ℕ) : List CapIdx → Kernel (CapState σ) Unit
  | [] => pure ()
  | idx :: rest => do
      let s ← get
      match (s.holders h).get idx with
      | none => copyLoop h dst rest
      | some cap => do
          insert O dst idx (some cap.payload) cap.perm
          copyLoop h dst rest

def copyAllTo (h dst : ℕ) : Kernel (CapState σ) Unit := copyLoop O h dst CSpace.indices

/-- `CSpace::move`. -/
def move (h : ℕ) (targetIdx srcIdx : CapIdx) : Kernel (CapState σ) Unit := do
  if targetIdx = srcIdx then pure ()
  else do
    let s ← get
    match (s.holders h).get srcIdx with
    | none => throw .outOfBoundary
    | some cap => do
        overwrite O h targetIdx (some cap)
        -- `take`
        modify (assign h srcIdx none)

/-- The loop of `~CGroup` over the slots of a holder. -/
def clearLoop (h : ℕ) : List CapIdx → Kernel (CapState σ) Unit
  | [] => pure ()
  | idx :: rest => do
      overwrite O h idx none
      clearLoop h rest

/-- `clear`, which also is what the destructor of a holder does. -/
def clear (h : ℕ) : Kernel (CapState σ) Unit := do
  clearLoop O h CSpace.indices
  modify fun s => { s with holders := update s.holders h CSpace.empty }

end CHolder

end Holders

end Sustcore
