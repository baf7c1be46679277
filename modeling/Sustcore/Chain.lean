/-
# Singly linked chains

`Chain next nil head l` : from `head` on, following `next`, come the elements of `l` and then
`nil`.  A chain that ends has no cycle, so the list is determined and has no repetition.

`walk next a n` is the element after `n` links of a partial function.  Where finitely many keys
decide about the next element, a walk ends exactly if it never meets a key twice.
-/
import Mathlib

namespace Sustcore

open Function List

variable {α : Type}

/-- The elements from `head` on to `nil`. -/
def Chain (next : α → α) (nil : α) : α → List α → Prop
  | head, [] => head = nil
  | head, a :: rest => head = a ∧ a ≠ nil ∧ Chain next nil (next a) rest

namespace Chain

variable {next next' : α → α} {nil head a : α} {l l' : List α}

variable (h : Chain next nil head l)

include h

theorem congr (heq : ∀ a ∈ l, next' a = next a) : Chain next' nil head l := by
  induction l generalizing head with
  | nil => exact h
  | cons a rest ih =>
    obtain ⟨hhead, hne, hrest⟩ := h
    refine ⟨hhead, hne, ?_⟩
    rw [heq a mem_cons_self]
    exact ih hrest fun b hb => heq b (mem_cons_of_mem a hb)

/-- There is one list at most. -/
theorem unique (h' : Chain next nil head l') : l = l' := by
  induction l generalizing head l' with
  | nil =>
    cases l' with
    | nil => rfl
    | cons a' rest' =>
      obtain ⟨hhead, hne, -⟩ := h'
      exact absurd (hhead.symm.trans h) hne
  | cons a rest ih =>
    obtain ⟨hhead, hne, hrest⟩ := h
    cases l' with
    | nil => exact absurd (hhead.symm.trans h') hne
    | cons a' rest' =>
      obtain ⟨hhead', -, hrest'⟩ := h'
      obtain rfl : a = a' := hhead.symm.trans hhead'
      rw [ih hrest hrest']

theorem suffix_of_mem (ha : a ∈ l) : ∃ rest, (a :: rest) <:+ l ∧ Chain next nil a (a :: rest) := by
  induction l generalizing head with
  | nil => exact absurd ha not_mem_nil
  | cons b rest ih =>
    obtain ⟨hhead, hne, hrest⟩ := h
    by_cases hab : a = b
    · rw [hab]
      exact ⟨rest, suffix_refl _, rfl, hne, hrest⟩
    · have hmem : a ∈ rest := (mem_cons.mp ha).resolve_left hab
      obtain ⟨rest', hsuffix, hchain⟩ := ih hrest hmem
      exact ⟨rest', hsuffix.trans (suffix_cons b rest), hchain⟩

/-- **A chain has no cycle.** -/
theorem nodup : l.Nodup := by
  induction l generalizing head with
  | nil => exact nodup_nil
  | cons a rest ih =>
    obtain ⟨hhead, hne, hrest⟩ := h
    refine nodup_cons.mpr ⟨?_, ih hrest⟩
    intro hmem
    -- a second `a` would begin the same chain again, which is longer
    obtain ⟨rest', hsuffix, hchain⟩ := hrest.suffix_of_mem hmem
    have hself : Chain next nil a (a :: rest) := ⟨rfl, hne, hrest⟩
    have heq := hself.unique hchain
    have hlen := hsuffix.length_le
    rw [← heq, length_cons] at hlen
    omega

/-- Take the first element. -/
theorem pop (hne : head ≠ nil) : ∃ rest, l = head :: rest ∧ Chain next nil (next head) rest := by
  cases l with
  | nil => exact absurd h hne
  | cons a rest =>
    obtain ⟨rfl, -, hrest⟩ := h
    exact ⟨rest, rfl, hrest⟩

/-- Put an element in front. -/
theorem push [DecidableEq α] (hne : a ≠ nil) (ha : a ∉ l) :
    Chain (update next a head) nil a (a :: l) := by
  refine ⟨rfl, hne, ?_⟩
  rw [update_self]
  apply h.congr
  intro b hb
  rw [update_of_ne]
  rintro rfl
  exact ha hb

end Chain

/-! ## Walks -/

/-- The element `n` links after `a`. -/
def walk (next : α → Option α) (a : α) (n : ℕ) : Option α := (fun x => x.bind next)^[n] (some a)

section Walk

variable {next : α → Option α} {a : α} {i j m n : ℕ}

theorem walk_add (next : α → Option α) (a : α) (m n : ℕ) :
    walk next a (m + n) = (fun x => x.bind next)^[m] (walk next a n) :=
  iterate_add_apply _ m n _

theorem walk_succ (next : α → Option α) (a : α) (n : ℕ) :
    walk next a (n + 1) = (walk next a n).bind next :=
  iterate_succ_apply' _ n _

/-- A walk that has ended does not start again. -/
theorem walk_ne_none (hle : m ≤ n) (h : walk next a n ≠ none) : walk next a m ≠ none := by
  intro hnone
  apply h
  rw [← Nat.sub_add_cancel hle, walk_add, hnone]
  exact iterate_fixed rfl (n - m)

/-- A walk that comes back goes on for ever. -/
theorem walk_of_cycle (hlt : i < j) (heq : walk next a i = walk next a j)
    (hj : walk next a j ≠ none) (n : ℕ) : walk next a n ≠ none := by
  induction n using Nat.strong_induction_on with
  | h n ih =>
    by_cases hle : n ≤ j
    · exact walk_ne_none hle hj
    · -- the same element comes one round earlier
      have hback := ih (n - j + i) (by omega)
      rwa [walk_add, heq, ← walk_add, Nat.sub_add_cancel (by omega)] at hback

/-- A walk has ended after `n + 1` links if no `n + 1` links can be followed. -/
theorem walk_eq_none_iff : walk next a (n + 1) = none ↔
    ∀ path : ℕ → α, path 0 = a → ∃ m ≤ n, next (path m) ≠ some (path (m + 1)) := by
  constructor
  · rintro h path rfl
    by_contra! hpath
    have hwalk : ∀ m ≤ n + 1, walk next (path 0) m = some (path m) := by
      intro m
      induction m with
      | zero => exact fun _ => rfl
      | succ m ih =>
        intro hm
        rw [walk_succ, ih (by omega)]
        exact hpath m (by omega)
    rw [hwalk (n + 1) le_rfl] at h
    cases h
  · intro h
    by_contra hsome
    obtain ⟨m, hm, hne⟩ := h (fun m => (walk next a m).getD a) rfl
    obtain ⟨x, hx⟩ := Option.ne_none_iff_exists'.mp (walk_ne_none (Nat.le_succ_of_le hm) hsome)
    obtain ⟨y, hy⟩ := Option.ne_none_iff_exists'.mp (walk_ne_none (Nat.succ_le_succ hm) hsome)
    apply hne
    simp only [hx, hy, Option.getD_some]
    rwa [walk_succ, hx] at hy

/-- The walk meets an element with the key `k` after `n` links. -/
def KeyAt (key : α → Option ℕ) (next : α → Option α) (a : α) (n k : ℕ) : Prop :=
  ∃ x, walk next a n = some x ∧ key x = some k

variable {key : α → Option ℕ} {bound : ℕ}

/-- **When a walk ends**: the next element depends on the key only, of which there are `bound`. -/
theorem walk_ends_iff (hkey : ∀ x y, next x = some y → ∃ k < bound, key x = some k)
    (hnext : ∀ x y k, key x = some k → key y = some k → next x = next y) :
    ((∃ n, walk next a n = none) ↔ ∀ i j k, i < j → KeyAt key next a i k → ¬KeyAt key next a j k) ∧
    ((∃ n, walk next a n = none) → walk next a (bound + 1) = none) := by
  have hrepeat : ∀ i j k, i < j → KeyAt key next a i k → KeyAt key next a j k →
      ∀ n, walk next a n ≠ none := by
    rintro i j k hlt ⟨x, hx, hkx⟩ ⟨y, hy, hky⟩
    have heq : walk next a (i + 1) = walk next a (j + 1) := by
      rw [walk_succ, walk_succ, hx, hy]
      exact hnext x y k hkx hky
    refine walk_of_cycle (Nat.succ_lt_succ hlt) heq ?_
    rw [← heq]
    exact walk_ne_none hlt (by simp [hy])
  -- `bound + 1` elements with a next one: two of them have the same key
  have hlong : walk next a (bound + 1) ≠ none →
      ∃ i j k, i < j ∧ KeyAt key next a i k ∧ KeyAt key next a j k := by
    intro hsome
    have hkeys : ∀ i : Fin (bound + 1), ∃ k : Fin bound, KeyAt key next a i k := by
      intro i
      obtain ⟨y, hy⟩ := Option.ne_none_iff_exists'.mp (walk_ne_none i.isLt hsome)
      rw [walk_succ] at hy
      obtain ⟨x, hx, hxy⟩ := Option.bind_eq_some_iff.mp hy
      obtain ⟨k, hk, hkx⟩ := hkey x y hxy
      exact ⟨⟨k, hk⟩, x, hx, hkx⟩
    choose f hf using hkeys
    obtain ⟨i, j, hne, hfij⟩ := Fintype.exists_ne_map_eq_of_card_lt f (by simp)
    rcases lt_or_gt_of_ne hne with hlt | hlt
    · exact ⟨i, j, f i, hlt, hf i, hfij ▸ hf j⟩
    · exact ⟨j, i, f i, hlt, hfij ▸ hf j, hf i⟩
  refine ⟨⟨fun ⟨n, hn⟩ i j k hlt hi hj => hrepeat i j k hlt hi hj n hn, fun hall => ?_⟩,
    fun ⟨n, hn⟩ => ?_⟩
  · refine ⟨bound + 1, by_contra fun hsome => ?_⟩
    obtain ⟨i, j, k, hlt, hi, hj⟩ := hlong hsome
    exact hall i j k hlt hi hj
  · by_contra hsome
    obtain ⟨i, j, k, hlt, hi, hj⟩ := hlong hsome
    exact hrepeat i j k hlt hi hj n hn

end Walk

end Sustcore
