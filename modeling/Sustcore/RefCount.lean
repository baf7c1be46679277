/-
# Exact reference counts

A *table* says which object each slot refers to.  Reference counts are *exact* when the
count of every object is the number of slots that refer to it, plus a number `outside` of
references that are not in a slot.  A reference in hand is one of these: the rules below
make a reference in hand, put it into a slot, take it out of a slot and drop it.

Nothing here is specific to capabilities.
-/
import Mathlib.Data.Set.Card

namespace RefCount

open Function

section

variable {ι κ : Type}

/-- The slots that refer to an object. -/
def holders (T : ι → Option κ) (q : κ) : Set ι := {i | T i = some q}

/-- The counts are those of the slots and of the references outside. -/
def Exact (T : ι → Option κ) (outside refs : κ → ℕ) : Prop :=
  ∀ q, (refs q : ℕ∞) = (holders T q).encard + outside q

variable {T : ι → Option κ} {outside refs : κ → ℕ} {i : ι} {q : κ}

theorem Exact.pos (h : Exact T outside refs) (hi : T i = some q) : 0 < refs q := by
  have hone : (1 : ℕ∞) ≤ (holders T q).encard := Set.one_le_encard_iff_nonempty.mpr ⟨i, hi⟩
  have hle : (1 : ℕ∞) ≤ refs q := by
    rw [h q]
    exact hone.trans le_self_add
  exact_mod_cast hle

/-- An object without references is in no slot. -/
theorem Exact.unheld (h : Exact T outside refs) (hzero : refs q = 0) (i : ι) : T i ≠ some q := by
  intro hi
  have hpos := h.pos hi
  omega

end

section Rules

variable {ι κ : Type} [DecidableEq κ] {T : ι → Option κ} {outside refs : κ → ℕ} {q : κ}

theorem Exact.make (h : Exact T outside refs) (q : κ) :
    Exact T (update outside q (outside q + 1)) (update refs q (refs q + 1)) := by
  intro q'
  by_cases hq : q' = q
  · subst hq
    rw [update_self, update_self, Nat.cast_add, Nat.cast_add, h q', add_assoc]
  · rw [update_of_ne hq, update_of_ne hq]
    exact h q'

theorem Exact.drop (h : Exact T (update outside q (outside q + 1)) refs) :
    Exact T outside (update refs q (refs q - 1)) := by
  intro q'
  have hq' := h q'
  by_cases hq : q' = q
  · subst hq
    rw [update_self, Nat.cast_add, ← add_assoc] at hq'
    rw [update_self]
    have hpos : 1 ≤ refs q' := by
      have hle : (1 : ℕ∞) ≤ refs q' := by
        rw [hq']
        exact le_add_self
      exact_mod_cast hle
    have hsub : ((refs q' - 1 : ℕ) : ℕ∞) + (1 : ℕ) = (holders T q').encard + outside q' +
        (1 : ℕ) := by
      rw [← Nat.cast_add, Nat.sub_add_cancel hpos, hq']
    exact (ENat.add_left_injective_of_ne_top (ENat.natCast_ne_top 1)) hsub
  · rw [update_of_ne hq] at hq' ⊢
    exact hq'

end Rules

section Slots

variable {ι κ : Type} [DecidableEq ι] [DecidableEq κ] {T : ι → Option κ}
  {outside refs : κ → ℕ} {i : ι} {q : κ}

/-- The slots of a table after one of them is filled. -/
theorem holders_fill (hi : T i = none) (q' : κ) : holders (update T i (some q)) q' =
      if q' = q then insert i (holders T q') else holders T q' := by
  ext j
  by_cases hj : j = i
  · subst hj
    split
    · rename_i hq
      simp [holders, hq]
    · rename_i hq
      simp [holders, hi, Ne.symm hq]
  · split
    · simp [holders, hj]
    · simp [holders, update_of_ne hj]

/-- A reference in hand is put into an empty slot. -/
theorem Exact.fill (h : Exact T (update outside q (outside q + 1)) refs)
    (hi : T i = none) : Exact (update T i (some q)) outside refs := by
  intro q'
  have hq' := h q'
  rw [holders_fill hi]
  by_cases hq : q' = q
  · subst hq
    have hnot : i ∉ holders T q' := by
      intro hmem
      have hsome : T i = some q' := hmem
      rw [hi] at hsome
      cases hsome
    rw [if_pos rfl, Set.encard_insert_of_notMem hnot]
    rw [update_self, Nat.cast_add, Nat.cast_one, add_comm (outside q' : ℕ∞), ← add_assoc] at hq'
    exact hq'
  · rw [if_neg hq]
    rw [update_of_ne hq] at hq'
    exact hq'

theorem Exact.take (h : Exact T outside refs) (hi : T i = some q) :
    Exact (update T i none) (update outside q (outside q + 1)) refs := by
  intro q'
  have hq' := h q'
  have hback : T = update (update T i none) i (some q) := by
    rw [update_idem, ← hi, update_eq_self]
  rw [hback, holders_fill (update_self ..)] at hq'
  by_cases hq : q' = q
  · subst hq
    have hnot : i ∉ holders (update T i none) q' := by
      simp [holders]
    rw [if_pos rfl, Set.encard_insert_of_notMem hnot] at hq'
    rw [hq', update_self, Nat.cast_add, Nat.cast_one, add_assoc, add_comm (1 : ℕ∞)]
  · rw [if_neg hq] at hq'
    rwa [update_of_ne hq]

end Slots

end RefCount
