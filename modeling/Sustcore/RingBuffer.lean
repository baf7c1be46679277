/-
# The ring buffer (`include/sus/ringbuf.h`)

`RingBuffer` keeps its elements in an array between a head and a tail index that wrap around;
one slot stays free, so that equal indices mean an empty buffer.  When a `pop` empties the
buffer both indices go back to zero.

Seen from outside it is a bounded queue: `contents` is the list of its elements, `push`
appends one (`contents_push`) and `pop` removes the first one (`contents_pop`).
-/
import Mathlib

namespace Sustcore

open Function List

/-- `std::error_type`, as the ring buffer uses it. -/
inductive RingError where
  | nullptr
  | overflowError
  | underflowError
  deriving DecidableEq, Repr

/-- `util::RingBuffer`.  `data` is the allocated memory; a capacity of zero means that the
allocation failed. -/
structure RingBuffer (α : Type) where
  data : ℕ → α
  capacity : ℕ
  head : ℕ
  tail : ℕ
  bounds : capacity = 0 ∧ head = 0 ∧ tail = 0 ∨ 2 ≤ capacity ∧ head < capacity ∧ tail < capacity

namespace RingBuffer

variable {α : Type} {b b' : RingBuffer α} {v : α} {i : ℕ}

/-- `U_normalize_capacity`. -/
def normalizeCapacity (capacity : ℕ) : ℕ := if capacity < 2 then 2 else capacity

/-- The constructor; `memory` is what the allocated array holds, if the allocation succeeds. -/
def create (capacity : ℕ) (memory : ℕ → α) (allocated : Bool) : RingBuffer α where
  data := memory
  capacity := if allocated then normalizeCapacity capacity else 0
  head := 0
  tail := 0
  bounds := by
    unfold normalizeCapacity
    split_ifs <;> omega

/-- `U_next`. -/
def next (b : RingBuffer α) (idx : ℕ) : ℕ := if b.capacity = 0 then 0 else (idx + 1) % b.capacity

/-- `U_index_from_head`. -/
def indexFromHead (b : RingBuffer α) (offset : ℕ) : ℕ :=
  if b.capacity = 0 then 0
  else if b.capacity ≤ b.head + offset then b.head + offset - b.capacity
  else b.head + offset

def size (b : RingBuffer α) : ℕ :=
  if b.capacity = 0 then 0
  else if b.head ≤ b.tail then b.tail - b.head
  else b.capacity - (b.head - b.tail)

def empty (b : RingBuffer α) : Bool := decide (b.head = b.tail)

def full (b : RingBuffer α) : Bool := decide (b.capacity ≠ 0 ∧ b.next b.tail = b.head)

def front (b : RingBuffer α) : α := b.data b.head

theorem next_eq (h : i < b.capacity) : b.next i = if i + 1 = b.capacity then 0 else i + 1 := by
  unfold next
  rw [if_neg (by omega)]
  split
  · rename_i heq
    rw [heq, Nat.mod_self]
  · exact Nat.mod_eq_of_lt (by omega)

theorem next_bounds (b : RingBuffer α) (i : ℕ) :
    b.capacity = 0 ∧ b.next i = 0 ∨ b.capacity ≠ 0 ∧ b.next i < b.capacity := by
  unfold next
  by_cases hzero : b.capacity = 0
  · exact Or.inl ⟨hzero, if_pos hzero⟩
  · right
    rw [if_neg hzero]
    exact ⟨hzero, Nat.mod_lt _ (Nat.pos_of_ne_zero hzero)⟩

/-- `emplace`, which both `push` functions call. -/
def push (b : RingBuffer α) (value : α) : Except RingError (RingBuffer α) :=
  if b.capacity = 0 then .error .nullptr
  else if b.full then .error .overflowError
  else .ok { b with
    data := update b.data b.tail value
    tail := b.next b.tail
    bounds := by
      have hbounds := b.bounds
      have hnext := b.next_bounds b.tail
      omega }

def pop (b : RingBuffer α) : Except RingError (RingBuffer α) :=
  if b.empty then .error .underflowError
  else if b.next b.head = b.tail then .ok { b with
    head := 0
    tail := 0
    bounds := by
      have hbounds := b.bounds
      omega }
  else .ok { b with
    head := b.next b.head
    bounds := by
      have hbounds := b.bounds
      have hnext := b.next_bounds b.head
      omega }

/-! ## The elements -/

/-- The elements, from the first one on. -/
def contents (b : RingBuffer α) : List α :=
  (range b.size).map fun i => b.data (b.indexFromHead i)

@[simp] theorem contents_length (b : RingBuffer α) : b.contents.length = b.size := by
  unfold contents
  rw [length_map, length_range]

theorem contents_create (capacity : ℕ) (memory : ℕ → α) (allocated : Bool) :
    (create capacity memory allocated).contents = [] := by
  have hsize : (create capacity memory allocated).size = 0 := by
    unfold size create
    simp
  exact length_eq_zero_iff.mp ((contents_length _).trans hsize)

/-- **An empty buffer** has no elements. -/
theorem empty_iff : b.empty = true ↔ b.contents = [] := by
  rw [← length_eq_zero_iff, contents_length]
  have hbounds := b.bounds
  unfold empty size
  rw [decide_eq_true_eq]
  split_ifs <;> omega

theorem push_isOk (hcapacity : b.capacity ≠ 0) (hfull : b.full = false) :
    ∃ b', b.push v = .ok b' := by
  unfold push
  rw [if_neg hcapacity, hfull]
  exact ⟨_, rfl⟩

theorem pop_isOk (hempty : b.empty = false) : ∃ b', b.pop = .ok b' := by
  unfold pop
  rw [hempty, if_neg (by decide)]
  split
  · exact ⟨_, rfl⟩
  · exact ⟨_, rfl⟩

/-- **`push`** appends an element. -/
theorem contents_push (h : b.push v = .ok b') :
    b'.contents = b.contents ++ [v] ∧ b'.capacity = b.capacity := by
  unfold push at h
  split at h
  · cases h
  rename_i hcapacity
  split at h
  · cases h
  rename_i hfull
  cases h
  refine ⟨?_, rfl⟩
  have hbounds := b.bounds
  have hnext := next_eq (b := b) (i := b.tail) (by omega)
  have hne : b.next b.tail ≠ b.head := fun heq => hfull (decide_eq_true ⟨hcapacity, heq⟩)
  have hsize : ∀ hb, size { b with
      data := update b.data b.tail v, tail := b.next b.tail, bounds := hb } =
      b.size + 1 := by
    unfold size
    simp only
    rw [hnext] at hne ⊢
    split_ifs at hne ⊢ <;> omega
  unfold contents
  rw [hsize, range_succ, map_append, map_singleton]
  -- the new element is in the slot behind the others, which is none of theirs
  have hindex : ∀ hb i, indexFromHead { b with
      data := update b.data b.tail v, tail := b.next b.tail, bounds := hb } i =
      b.indexFromHead i := fun _ _ => rfl
  congr 1
  · apply map_congr_left
    intro i hi
    have hlt := mem_range.mp hi
    rw [hindex]
    refine update_of_ne ?_ ..
    unfold size at hlt
    unfold indexFromHead
    split_ifs at hlt ⊢ <;> omega
  · have hlast : b.indexFromHead b.size = b.tail := by
      unfold indexFromHead size
      split_ifs <;> omega
    rw [hindex, hlast]
    simp only [update_self]

/-- **`pop`** removes the first element. -/
theorem contents_pop (h : b.pop = .ok b') :
    b.contents = b.front :: b'.contents ∧ b'.capacity = b.capacity := by
  unfold pop at h
  split at h
  · cases h
  rename_i hempty
  have hne : b.head ≠ b.tail := fun heq => hempty (decide_eq_true heq)
  have hbounds := b.bounds
  have hnext := next_eq (b := b) (i := b.head) (by omega)
  have hfirst : b.indexFromHead 0 = b.head := by
    unfold indexFromHead
    split_ifs <;> omega
  split at h
  · -- the last element: the indices go back to zero
    rename_i hlast
    cases h
    refine ⟨?_, rfl⟩
    have hone : b.size = 1 := by
      rw [hnext] at hlast
      unfold size
      split_ifs at hlast ⊢ <;> omega
    have hzero : ∀ hb, size { b with head := 0, tail := 0, bounds := hb } = 0 := by
      unfold size
      simp
    unfold contents front
    rw [hone, hzero]
    show [b.data (b.indexFromHead 0)] = _
    rw [hfirst]
    rfl
  · rename_i hrest
    cases h
    refine ⟨?_, rfl⟩
    have hsize : ∀ hb, b.size = size { b with head := b.next b.head, bounds := hb } + 1 := by
      unfold size
      simp only
      rw [hnext] at hrest ⊢
      split_ifs at hrest ⊢ <;> omega
    have hnextBounds := b.next_bounds b.head
    unfold contents front
    rw [hsize (by omega), range_succ_eq_map, map_cons, map_map, hfirst]
    congr 1
    apply map_congr_left
    intro i hi
    have hlt := mem_range.mp hi
    show b.data (b.indexFromHead (i + 1)) = b.data _
    congr 1
    unfold size at hlt
    unfold indexFromHead
    simp only at hlt ⊢
    rw [hnext] at hlt ⊢
    split_ifs at hlt ⊢ <;> omega

end RingBuffer

end Sustcore
