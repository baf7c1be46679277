/-
# Binary heaps with an index

A binary heap of items is kept in an array, together with the position of every item in the
array, so that an item can be removed from the middle.  The first half is about the order alone:
`k i` is the key at position `i`, the parent of `i` is `(i - 1) / 2`, and sifting swaps a position
that may be out of order (the hole) with its parent or with its smaller child.

* `HeapOrder` : no key is smaller than that of its parent;
* `UpOrder`, `DownOrder` : the same except at the hole, as sifting up and sifting down need it.

The second half adds the items: `Indexed h n A` says that the positions below `n` and the items
of `A` are in bijection.
-/
import Mathlib

namespace Sustcore.IndexedHeap

open Function

/-! ## Order -/

/-- The position above. -/
def parent (i : ℕ) : ℕ := (i - 1) / 2

theorem parent_lt {i : ℕ} (h : i ≠ 0) : parent i < i := by
  unfold parent
  omega

theorem parent_eq_iff {c p : ℕ} : 0 < c ∧ parent c = p ↔ c = 2 * p + 1 ∨ c = 2 * p + 2 := by
  unfold parent
  omega

section Order

variable {κ : Type} {k : ℕ → κ} {n hole : ℕ}

theorem swap_apply_other {a b i : ℕ} (ha : i ≠ a) (hb : i ≠ b) : (k ∘ Equiv.swap a b) i = k i := by
  rw [comp_apply, Equiv.swap_apply_of_ne_of_ne ha hb]

theorem swap_apply_fst (a b : ℕ) : (k ∘ Equiv.swap a b) a = k b := by
  rw [comp_apply, Equiv.swap_apply_left]

theorem swap_apply_snd (a b : ℕ) : (k ∘ Equiv.swap a b) b = k a := by
  rw [comp_apply, Equiv.swap_apply_right]

variable [LinearOrder κ]

/-- Every key is at least that of its parent. -/
def HeapOrder (k : ℕ → κ) (n : ℕ) : Prop := ∀ i, 0 < i → i < n → k (parent i) ≤ k i

/-- Only the hole may be smaller than its parent; what is below the hole is not. -/
structure UpOrder (k : ℕ → κ) (n hole : ℕ) : Prop where
  except : ∀ i, 0 < i → i < n → i ≠ hole → k (parent i) ≤ k i
  grand : hole ≠ 0 → ∀ c, 0 < c → c < n → parent c = hole → k (parent hole) ≤ k c

/-- Only the hole may be larger than what is below it; its parent is not. -/
structure DownOrder (k : ℕ → κ) (n hole : ℕ) : Prop where
  except : ∀ i, 0 < i → i < n → parent i ≠ hole → k (parent i) ≤ k i
  grand : hole ≠ 0 → ∀ c, 0 < c → c < n → parent c = hole → k (parent hole) ≤ k c

theorem UpOrder.move (h : UpOrder k n hole) (hne : hole ≠ 0) (hhole : hole < n)
    (hle : k hole ≤ k (parent hole)) :
    UpOrder (k ∘ Equiv.swap (parent hole) hole) n (parent hole) := by
  have hp := parent_lt hne
  -- a sibling of the hole, or a child of it, is above the old parent
  have hchild : ∀ c, 0 < c → c < n → parent c = parent hole → c ≠ hole →
      k (parent hole) ≤ k c := by
    intro c hc0 hc hpc hne'
    rw [← hpc]
    exact h.except c hc0 hc hne'
  constructor
  · intro i hi0 hi hip
    by_cases hih : i = hole
    · rwa [hih, swap_apply_snd, swap_apply_fst]
    rw [swap_apply_other hip hih]
    by_cases hph : parent i = hole
    · rw [hph, swap_apply_snd]
      exact h.grand hne i hi0 hi hph
    by_cases hpp : parent i = parent hole
    · rw [hpp, swap_apply_fst]
      exact hle.trans (hchild i hi0 hi hpp hih)
    · rw [swap_apply_other hpp hph]
      exact h.except i hi0 hi hih
  · intro hp0 c hc0 hc hpc
    have hpp := parent_lt hp0
    have habove : k (parent (parent hole)) ≤ k (parent hole) :=
      h.except _ (by omega) (by omega) (by omega)
    rw [swap_apply_other (by omega) (by omega)]
    by_cases hch : c = hole
    · rwa [hch, swap_apply_snd]
    · have hcp := parent_lt (show c ≠ 0 by omega)
      rw [swap_apply_other (by omega) hch]
      exact habove.trans (hchild c hc0 hc hpc hch)

/-- Only the keys in the heap matter. -/
theorem UpOrder.congr {k' : ℕ → κ} (h : UpOrder k n hole) (hhole : hole < n)
    (heq : ∀ i, i < n → k' i = k i) : UpOrder k' n hole := by
  constructor
  · intro i hi0 hi hih
    have hp := parent_lt (show i ≠ 0 by omega)
    rw [heq i hi, heq _ (by omega)]
    exact h.except i hi0 hi hih
  · intro h0 c hc0 hc hpc
    have hp := parent_lt h0
    rw [heq c hc, heq _ (by omega)]
    exact h.grand h0 c hc0 hc hpc

theorem UpOrder.finish (h : UpOrder k n hole) (hstop : hole ≠ 0 → k (parent hole) ≤ k hole) :
    HeapOrder k n := by
  intro i hi0 hi
  by_cases hih : i = hole
  · rw [hih]
    exact hstop (by omega)
  · exact h.except i hi0 hi hih

theorem DownOrder.move {c : ℕ} (h : DownOrder k n hole) (hc0 : 0 < c) (hc : c < n)
    (hpc : parent c = hole) (hle : k c ≤ k hole)
    (hmin : ∀ d, 0 < d → d < n → parent d = hole → k c ≤ k d) :
    DownOrder (k ∘ Equiv.swap hole c) n c := by
  have hhc : hole < c := by
    rw [← hpc]
    exact parent_lt (by omega)
  constructor
  · intro i hi0 hi hpi
    by_cases hic : i = c
    · rwa [hic, hpc, swap_apply_fst, swap_apply_snd]
    by_cases hih : i = hole
    · have hph := parent_lt (show hole ≠ 0 by omega)
      rw [hih, swap_apply_fst, swap_apply_other (by omega) (by omega)]
      exact h.grand (by omega) c hc0 hc hpc
    rw [swap_apply_other hih hic]
    by_cases hph : parent i = hole
    · rw [hph, swap_apply_fst]
      exact hmin i hi0 hi hph
    · rw [swap_apply_other hph hpi]
      exact h.except i hi0 hi hph
  · intro _ d hd0 hd hpd
    have hdc := parent_lt (show d ≠ 0 by omega)
    rw [hpc, swap_apply_fst, swap_apply_other (by omega) (by omega), ← hpd]
    exact h.except d hd0 hd (by omega)

theorem DownOrder.finish (h : DownOrder k n hole)
    (hstop : ∀ c, 0 < c → c < n → parent c = hole → k hole ≤ k c) : HeapOrder k n := by
  intro i hi0 hi
  by_cases hpi : parent i = hole
  · rw [hpi]
    exact hstop i hi0 hi hpi
  · exact h.except i hi0 hi hpi

/-- A new key at the end. -/
theorem HeapOrder.append (h : HeapOrder k n) {v : κ} : UpOrder (update k n v) (n + 1) n := by
  constructor
  · intro i hi0 hi hin
    have hp := parent_lt (show i ≠ 0 by omega)
    rw [update_of_ne hin, update_of_ne (by omega)]
    exact h i hi0 (by omega)
  · intro _ c hc0 hc hpc
    have hp := parent_lt (show c ≠ 0 by omega)
    omega

theorem HeapOrder.grand (h : HeapOrder k n) {hole : ℕ} (h0 : hole ≠ 0) (hhole : hole < n) {c : ℕ}
    (hc0 : 0 < c) (hc : c < n) (hpc : parent c = hole) : k (parent hole) ≤ k c := by
  refine (h hole (by omega) hhole).trans ?_
  have hstep := h c hc0 hc
  rwa [hpc] at hstep

/-- A smaller key in the middle, to be sifted up. -/
theorem HeapOrder.replace_up (h : HeapOrder k n) {v : κ} (h0 : hole ≠ 0) (hhole : hole < n)
    (hlt : v < k (parent hole)) : UpOrder (update k hole v) n hole := by
  have hp := parent_lt h0
  constructor
  · intro i hi0 hi hih
    rw [update_of_ne hih]
    by_cases hpi : parent i = hole
    · rw [hpi, update_self]
      exact hlt.le.trans (h.grand h0 hhole hi0 hi hpi)
    · rw [update_of_ne hpi]
      exact h i hi0 hi
  · intro _ c hc0 hc hpc
    have hcp := parent_lt (show c ≠ 0 by omega)
    rw [update_of_ne (by omega), update_of_ne (by omega)]
    exact h.grand h0 hhole hc0 hc hpc

/-- Any other key in the middle, to be sifted down. -/
theorem HeapOrder.replace_down (h : HeapOrder k n) {v : κ} (hhole : hole < n)
    (hle : hole ≠ 0 → k (parent hole) ≤ v) : DownOrder (update k hole v) n hole := by
  constructor
  · intro i hi0 hi hpi
    rw [update_of_ne hpi]
    by_cases hih : i = hole
    · rw [hih, update_self]
      exact hle (by omega)
    · rw [update_of_ne hih]
      exact h i hi0 hi
  · intro h0 c hc0 hc hpc
    have hp := parent_lt h0
    have hcp := parent_lt (show c ≠ 0 by omega)
    rw [update_of_ne (by omega), update_of_ne (by omega)]
    exact h.grand h0 hhole hc0 hc hpc

theorem HeapOrder.mono (h : HeapOrder k n) {m : ℕ} (hm : m ≤ n) : HeapOrder k m :=
  fun i hi0 hi => h i hi0 (by omega)

/-- **The root has the smallest key.** -/
theorem HeapOrder.root_le (h : HeapOrder k n) (i : ℕ) (hi : i < n) : k 0 ≤ k i := by
  induction i using Nat.strong_induction_on with
  | _ i ih =>
    by_cases hi0 : i = 0
    · rw [hi0]
    · have hp := parent_lt hi0
      exact (ih (parent i) hp (by omega)).trans (h i (by omega) hi)

end Order

/-! ## Items and their positions -/

/-- The items in the array, and the position that is noted for each. -/
@[ext] structure Heap (ι : Type) where
  arr : ℕ → ι
  pos : ι → ℕ

variable {ι κ : Type} [LinearOrder κ]

/-- The items of `A` are at the positions below `n`, each at the position that is noted. -/
structure Indexed (h : Heap ι) (n : ℕ) (A : Set ι) : Prop where
  item : ∀ i, i < n → h.arr i ∈ A ∧ h.pos (h.arr i) = i
  position : ∀ x ∈ A, h.pos x < n ∧ h.arr (h.pos x) = x

/-- Items at different positions differ. -/
theorem Indexed.arr_ne {h : Heap ι} {n : ℕ} {A : Set ι} (hA : Indexed h n A) {i j : ℕ} (hi : i < n)
    (hj : j < n) (hne : i ≠ j) : h.arr i ≠ h.arr j := by
  intro heq
  apply hne
  rw [← (hA.item i hi).2, heq, (hA.item j hj).2]

/-- The positions that are noted for other items do not matter. -/
theorem Indexed.congr_pos {h : Heap ι} {n : ℕ} {A : Set ι} (hA : Indexed h n A) {pos : ι → ℕ}
    (heq : ∀ x ∈ A, pos x = h.pos x) : Indexed ⟨h.arr, pos⟩ n A := by
  constructor
  · intro i hi
    obtain ⟨hmem, hpos⟩ := hA.item i hi
    exact ⟨hmem, (heq _ hmem).trans hpos⟩
  · intro x hx
    show pos x < n ∧ h.arr (pos x) = x
    rw [heq x hx]
    exact hA.position x hx

namespace Heap

section Smallest

variable (key : ι → κ)

/-- The smallest of a position and of the two below it. -/
def smallest (h : Heap ι) (n i : ℕ) : ℕ :=
  let s := if 2 * i + 1 < n ∧ key (h.arr (2 * i + 1)) < key (h.arr i) then 2 * i + 1 else i
  if 2 * i + 2 < n ∧ key (h.arr (2 * i + 2)) < key (h.arr s) then 2 * i + 2 else s

theorem smallest_cases (h : Heap ι) (n i : ℕ) :
    smallest key h n i = i ∨ smallest key h n i = 2 * i + 1 ∧ 2 * i + 1 < n ∨
      smallest key h n i = 2 * i + 2 ∧ 2 * i + 2 < n := by
  unfold smallest
  dsimp only
  split_ifs <;> omega

theorem smallest_ne {h : Heap ι} {n i : ℕ} (hne : smallest key h n i ≠ i) :
    i < smallest key h n i ∧ smallest key h n i < n := by
  have hcases := smallest_cases key h n i
  omega

theorem smallest_le (h : Heap ι) (n i : ℕ) : key (h.arr (smallest key h n i)) ≤ key (h.arr i) ∧
      ∀ c, 0 < c → c < n → parent c = i → key (h.arr (smallest key h n i)) ≤ key (h.arr c) := by
  constructor
  · unfold smallest
    dsimp only
    split_ifs with hl hr hr
    · exact hr.2.le.trans hl.2.le
    · exact hl.2.le
    · exact hr.2.le
    · exact le_rfl
  · intro c hc0 hc hpc
    rcases parent_eq_iff.mp ⟨hc0, hpc⟩ with rfl | rfl
    · unfold smallest
      dsimp only
      split_ifs with hl hr hr
      · exact hr.2.le
      · exact le_rfl
      · exact hr.2.le.trans (not_lt.mp fun hlt => hl ⟨hc, hlt⟩)
      · exact not_lt.mp fun hlt => hl ⟨hc, hlt⟩
    · unfold smallest
      dsimp only
      split_ifs with hl hr hr
      · exact le_rfl
      · exact not_lt.mp fun hlt => hr ⟨hc, hlt⟩
      · exact le_rfl
      · exact not_lt.mp fun hlt => hr ⟨hc, hlt⟩

end Smallest

variable [DecidableEq ι]

/-- Swap two positions. -/
def swap (h : Heap ι) (i j : ℕ) : Heap ι :=
  ⟨h.arr ∘ Equiv.swap i j, update (update h.pos (h.arr j) i) (h.arr i) j⟩

/-- An item at the end. -/
def append (h : Heap ι) (n : ℕ) (x : ι) : Heap ι :=
  ⟨update h.arr n x, update h.pos x n⟩

/-- The last item takes the place of another. -/
def replace (h : Heap ι) (i last : ℕ) : Heap ι :=
  ⟨update h.arr i (h.arr last), update h.pos (h.arr last) i⟩

variable (key : ι → κ)

/-- Swap with the parent as long as it is larger. -/
def siftUp (h : Heap ι) (i : ℕ) : Heap ι :=
  if _h0 : i = 0 then h
  else if key (h.arr i) < key (h.arr (parent i)) then siftUp (h.swap (parent i) i) (parent i)
  else h
termination_by i
decreasing_by exact parent_lt _h0

/-- Swap with the smaller child as long as it is smaller. -/
def siftDown (n : ℕ) (h : Heap ι) (i : ℕ) : Heap ι :=
  if _h0 : smallest key h n i = i then h
  else siftDown n (h.swap i (smallest key h n i)) (smallest key h n i)
termination_by n - i
decreasing_by
  have hne := smallest_ne key _h0
  omega

end Heap

/-! ## The bijection is kept -/

section Bijection

variable [DecidableEq ι] {h : Heap ι} {n : ℕ} {A : Set ι}

theorem Indexed.swap (hA : Indexed h n A) {i j : ℕ} (hi : i < n) (hj : j < n) :
    Indexed (h.swap i j) n A := by
  have hij : ∀ m, m < n → Equiv.swap i j m < n := by
    intro m hm
    rw [Equiv.swap_apply_def]
    split_ifs
    · exact hj
    · exact hi
    · exact hm
  -- the new position of an item is the swapped old one
  have hpos : ∀ x ∈ A, (h.swap i j).pos x = Equiv.swap i j (h.pos x) := by
    intro x hx
    obtain ⟨hlt, hat⟩ := hA.position x hx
    show update (update h.pos (h.arr j) i) (h.arr i) j x = _
    by_cases hxi : x = h.arr i
    · rw [hxi, update_self, (hA.item i hi).2, Equiv.swap_apply_left]
    rw [update_of_ne hxi]
    by_cases hxj : x = h.arr j
    · rw [hxj, update_self, (hA.item j hj).2, Equiv.swap_apply_right]
    rw [update_of_ne hxj, Equiv.swap_apply_of_ne_of_ne]
    · rintro rfl
      exact hxi hat.symm
    · rintro rfl
      exact hxj hat.symm
  constructor
  · intro m hm
    have hmem := (hA.item _ (hij m hm)).1
    refine ⟨hmem, (hpos _ hmem).trans ?_⟩
    rw [(hA.item _ (hij m hm)).2, Equiv.swap_apply_self]
  · intro x hx
    obtain ⟨hlt, hat⟩ := hA.position x hx
    rw [hpos x hx]
    refine ⟨hij _ hlt, ?_⟩
    show h.arr (Equiv.swap i j (Equiv.swap i j (h.pos x))) = x
    rw [Equiv.swap_apply_self, hat]

theorem Indexed.append (hA : Indexed h n A) {x : ι} (hx : x ∉ A) :
    Indexed (h.append n x) (n + 1) (insert x A) := by
  constructor
  · intro i hi
    show update h.arr n x i ∈ _ ∧
      update h.pos x n (update h.arr n x i) = i
    by_cases hin : i = n
    · rw [hin, update_self, update_self]
      exact ⟨Set.mem_insert x A, rfl⟩
    · obtain ⟨hmem, hpos⟩ := hA.item i (by omega)
      rw [update_of_ne hin, update_of_ne (by rintro rfl; exact hx hmem)]
      exact ⟨Set.mem_insert_of_mem x hmem, hpos⟩
  · intro y hy
    show update h.pos x n y < n + 1 ∧
      update h.arr n x (update h.pos x n y) = y
    by_cases hyx : y = x
    · rw [hyx, update_self, update_self]
      exact ⟨Nat.lt_succ_self n, rfl⟩
    · obtain ⟨hlt, hat⟩ := hA.position y (Set.mem_of_mem_insert_of_ne hy hyx)
      rw [update_of_ne hyx, update_of_ne (by omega)]
      exact ⟨by omega, hat⟩

omit [DecidableEq ι] in
/-- The last item is taken away. -/
theorem Indexed.dropLast (hA : Indexed h (n + 1) A) : Indexed h n (A \ {h.arr n}) := by
  constructor
  · intro i hi
    obtain ⟨hmem, hpos⟩ := hA.item i (by omega)
    refine ⟨⟨hmem, ?_⟩, hpos⟩
    exact hA.arr_ne (by omega) (Nat.lt_succ_self n) (by omega)
  · rintro x ⟨hx, hne⟩
    obtain ⟨hlt, hat⟩ := hA.position x hx
    refine ⟨?_, hat⟩
    rcases Nat.lt_succ_iff_lt_or_eq.mp hlt with h' | h'
    · exact h'
    · rw [h'] at hat
      exact absurd hat.symm hne

/-- An item is taken away and the last one put in its place. -/
theorem Indexed.replace (hA : Indexed h (n + 1) A) {i : ℕ} (hi : i < n) :
    Indexed (h.replace i n) n (A \ {h.arr i}) := by
  have hlast := hA.item n (Nat.lt_succ_self n)
  constructor
  · intro j hj
    show update h.arr i (h.arr n) j ∈ _ ∧
      update h.pos (h.arr n) i (update h.arr i (h.arr n) j) = j
    by_cases hji : j = i
    · rw [hji, update_self, update_self]
      exact ⟨⟨hlast.1, hA.arr_ne (Nat.lt_succ_self n) (by omega) (by omega)⟩, rfl⟩
    · obtain ⟨hmem, hpos⟩ := hA.item j (by omega)
      rw [update_of_ne hji, update_of_ne
        (hA.arr_ne (by omega) (Nat.lt_succ_self n) (by omega))]
      exact ⟨⟨hmem, hA.arr_ne (by omega) (by omega) hji⟩, hpos⟩
  · rintro x ⟨hx, hne⟩
    obtain ⟨hlt, hat⟩ := hA.position x hx
    show update h.pos (h.arr n) i x < n ∧
      update h.arr i (h.arr n) (update h.pos (h.arr n) i x) = x
    by_cases hxn : x = h.arr n
    · rw [hxn, update_self, update_self]
      exact ⟨hi, rfl⟩
    have hpn : h.pos x ≠ n := by
      intro heq
      rw [heq] at hat
      exact hxn hat.symm
    have hpi : h.pos x ≠ i := by
      intro heq
      rw [heq] at hat
      exact hne hat.symm
    rw [update_of_ne hxn, update_of_ne hpi]
    exact ⟨by omega, hat⟩

end Bijection

/-! ## Sifting -/

section Sifting

variable [DecidableEq ι] (key : ι → κ) {n : ℕ} {A : Set ι}

/-- **Sifting up** keeps the bijection and ends with a heap. -/
theorem siftUp_spec (h : Heap ι) (i : ℕ) (hi : i < n) (hA : Indexed h n A)
    (horder : UpOrder (key ∘ h.arr) n i) :
    Indexed (h.siftUp key i) n A ∧ HeapOrder (key ∘ (h.siftUp key i).arr) n := by
  induction i using Nat.strong_induction_on generalizing h with
  | _ i ih =>
    unfold Heap.siftUp
    by_cases h0 : i = 0
    · rw [dif_pos h0]
      exact ⟨hA, horder.finish fun hne => absurd h0 hne⟩
    rw [dif_neg h0]
    by_cases hlt : key (h.arr i) < key (h.arr (parent i))
    · rw [if_pos hlt]
      have hp := parent_lt h0
      exact ih (parent i) hp _ (by omega) (hA.swap (by omega) hi) (horder.move h0 hi hlt.le)
    · rw [if_neg hlt]
      exact ⟨hA, horder.finish fun _ => not_lt.mp hlt⟩

/-- **Sifting down** keeps the bijection and ends with a heap. -/
theorem siftDown_spec (h : Heap ι) (i : ℕ) (hi : i < n) (hA : Indexed h n A)
    (horder : DownOrder (key ∘ h.arr) n i) :
    Indexed (h.siftDown key n i) n A ∧ HeapOrder (key ∘ (h.siftDown key n i).arr) n := by
  induction hd : n - i using Nat.strong_induction_on generalizing h i with
  | _ d ih =>
    unfold Heap.siftDown
    obtain ⟨hle, hmin⟩ := Heap.smallest_le key h n i
    by_cases heq : Heap.smallest key h n i = i
    · rw [dif_pos heq]
      rw [heq] at hmin
      exact ⟨hA, horder.finish hmin⟩
    rw [dif_neg heq]
    obtain ⟨hgt, hlt⟩ := Heap.smallest_ne key heq
    have hchild : 0 < Heap.smallest key h n i ∧ parent (Heap.smallest key h n i) = i := by
      apply parent_eq_iff.mpr
      have hcases := Heap.smallest_cases key h n i
      omega
    exact ih _ (by omega) _ _ hlt (hA.swap hi hlt)
      (horder.move hchild.1 hlt hchild.2 hle hmin) rfl

end Sifting

end Sustcore.IndexedHeap
