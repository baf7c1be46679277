/-
# The timer queue (`driver/clock.cpp`)

`ExpireActionQueue` keeps at most 32 actions in slots.  `_heap` is a binary heap of slot numbers,
ordered by the time at which the action of the slot expires; a slot notes its place in the heap,
and the slots that are not active are linked through `next_free`.  A handle names a slot and the
generation that the slot had when the action was queued; the generation is a number of 16 bits
that goes up when the action leaves the slot.

The functions follow the code.  Slot numbers and places in the heap are below 32 and are kept as
natural numbers, with `INVALID_SLOT` for the end of the free list.
-/
import Sustcore.Chain
import Sustcore.IndexedHeap
import Sustcore.Outcome

namespace Sustcore.Clock

open Function

/-! ## The queue -/

structure ExpireAction where
  expireTime : ℕ
  expireAction : ℕ
  expireArg0 : ℕ
  expireArg1 : ℕ
  deriving DecidableEq

/-- `ExpireHandle::INVALID_SLOT`. -/
def INVALID_SLOT : ℕ := 0xFFFF

@[ext] structure ExpireHandle where
  slot : ℕ
  generation : UInt16
  deriving DecidableEq

/-- `ExpireHandle::valid`. -/
def ExpireHandle.valid (handle : ExpireHandle) : Bool := handle.slot ≠ INVALID_SLOT

def MAX_HEAP_ACTIONS : ℕ := 32
def MAX_DUE_ACTIONS : ℕ := 8

/-- `ExpireActionQueue::ExpireSlot`. -/
structure ExpireSlot where
  action : ExpireAction
  heapIndex : ℕ
  nextFree : ℕ
  generation : UInt16
  active : Bool

structure ExpireActionQueue where
  heap : ℕ → ℕ
  slots : ℕ → ExpireSlot
  freeHead : ℕ
  heapSize : ℕ

namespace ExpireActionQueue

/-- `ExpireActionQueue::ExpireActionQueue`. -/
def init : ExpireActionQueue where
  heap := fun _ => 0
  slots := fun index => ⟨⟨0, 0, 0, 0⟩, 0,
    if index + 1 < MAX_HEAP_ACTIONS then index + 1 else INVALID_SLOT, 1, false⟩
  freeHead := 0
  heapSize := 0

def time (q : ExpireActionQueue) (slot : ℕ) : ℕ := (q.slots slot).action.expireTime

def later (q : ExpireActionQueue) (lhs rhs : ℕ) : Bool := q.time rhs < q.time lhs

/-- A slot gets another place in the heap. -/
def setHeapIndex (slots : ℕ → ExpireSlot) (slot heapIndex : ℕ) : ℕ → ExpireSlot :=
  update slots slot { slots slot with heapIndex := heapIndex }

def swapHeapNodes (q : ExpireActionQueue) (lhs rhs : ℕ) : ExpireActionQueue :=
  let lhsSlot := q.heap lhs
  let rhsSlot := q.heap rhs
  { q with heap := update (update q.heap lhs rhsSlot) rhs lhsSlot
           slots := setHeapIndex (setHeapIndex q.slots rhsSlot lhs) lhsSlot rhs }

def shiftUp (q : ExpireActionQueue) (index : ℕ) : ExpireActionQueue :=
  if _h0 : index = 0 then q
  else if q.later (q.heap ((index - 1) / 2)) (q.heap index) then
    shiftUp (q.swapHeapNodes ((index - 1) / 2) index) ((index - 1) / 2)
  else q
termination_by index
decreasing_by omega

/-- The choice of the body of `shift_down`. -/
def smallest (q : ExpireActionQueue) (index : ℕ) : ℕ :=
  let left := index * 2 + 1
  let right := left + 1
  let smallest := if left < q.heapSize ∧ q.later (q.heap index) (q.heap left) then left else index
  if right < q.heapSize ∧ q.later (q.heap smallest) (q.heap right) then right else smallest

theorem smallest_ne {q : ExpireActionQueue} {index : ℕ} (h : q.smallest index ≠ index) :
    index < q.smallest index ∧ q.smallest index < q.heapSize := by
  unfold smallest at *
  dsimp only at *
  split_ifs at * <;> omega

def shiftDown (q : ExpireActionQueue) (index : ℕ) : ExpireActionQueue :=
  if _h0 : q.smallest index = index then q
  else shiftDown (q.swapHeapNodes index (q.smallest index)) (q.smallest index)
termination_by q.heapSize - index
decreasing_by
  have hne := smallest_ne _h0
  show q.heapSize - _ < _
  omega

def push (q : ExpireActionQueue) (action : ExpireAction) :
    Result (ExpireHandle × ExpireActionQueue) :=
  if q.freeHead = INVALID_SLOT ∨ MAX_HEAP_ACTIONS ≤ q.heapSize then .error .outOfMemory
  else
    let slotId := q.freeHead
    let slot := { q.slots slotId with action := action, heapIndex := q.heapSize, active := true }
    let queued := { q with freeHead := (q.slots slotId).nextFree
                           slots := update q.slots slotId slot
                           heap := update q.heap q.heapSize slotId
                           heapSize := q.heapSize + 1 }
    .ok (⟨slotId, slot.generation⟩, queued.shiftUp q.heapSize)

/-- The first part of `remove_at`: the last node takes the place, and is sifted. -/
def unlinkAt (q : ExpireActionQueue) (heapIndex : ℕ) : ExpireActionQueue :=
  let q := { q with heapSize := q.heapSize - 1 }
  if heapIndex ≠ q.heapSize then
    let q := { q with heap := update q.heap heapIndex (q.heap q.heapSize)
                      slots := setHeapIndex q.slots (q.heap q.heapSize) heapIndex }
    if 0 < heapIndex ∧ q.later (q.heap ((heapIndex - 1) / 2)) (q.heap heapIndex) then
      q.shiftUp heapIndex
    else q.shiftDown heapIndex
  else q

/-- The second part of `remove_at`: the slot is free again. -/
def freeSlot (q : ExpireActionQueue) (slotId : ℕ) : ExpireActionQueue :=
  { q with slots := update q.slots slotId
             { q.slots slotId with active := false, nextFree := q.freeHead, heapIndex := 0
                                   generation := (q.slots slotId).generation + 1 }
           freeHead := slotId }

def removeAt (q : ExpireActionQueue) (heapIndex : ℕ) : ExpireAction × ExpireActionQueue :=
  let slotId := q.heap heapIndex
  ((q.slots slotId).action, (q.unlinkAt heapIndex).freeSlot slotId)

def cancel (q : ExpireActionQueue) (handle : ExpireHandle) : Bool × ExpireActionQueue :=
  if ¬handle.valid ∨ MAX_HEAP_ACTIONS ≤ handle.slot then (false, q)
  else
    let slot := q.slots handle.slot
    if ¬slot.active ∨ slot.generation ≠ handle.generation then (false, q)
    else (true, (q.removeAt slot.heapIndex).2)

/-- The loop of `pop_due`, which has `room` entries left in its result. -/
def popLoop (now : ℕ) : ℕ → ExpireActionQueue → List ExpireAction × ExpireActionQueue
  | 0, q => ([], q)
  | room + 1, q =>
    if q.heapSize = 0 then ([], q)
    else if now < q.time (q.heap 0) then ([], q)
    else
      let (removed, q) := q.removeAt 0
      let (entries, q) := popLoop now room q
      (removed :: entries, q)

def popDue (q : ExpireActionQueue) (now : ℕ) : List ExpireAction × ExpireActionQueue :=
  popLoop now MAX_DUE_ACTIONS q

end ExpireActionQueue

end Sustcore.Clock
