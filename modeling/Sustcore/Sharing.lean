/-
# Shared cells with stale share counts

A *table* maps slots to cells and keeps, in each slot, a local guess of the number of
slots that hold the same cell.  The guess of one slot is not updated when another slot
lets the cell go, so it may be too high; what matters is that it is never too low where
it counts: a cell held by two slots has a guess of at least two in both.  A table is
*sound* when this holds and every cell has at least as many references as slots.

Nothing here is specific to memory pages.
-/
import Mathlib.Data.Set.Card

namespace Sharing

open Function Option Set

/-- Which cell each slot holds, with the share count the slot has recorded. -/
abbrev Table (ι κ : Type) := ι → Option (κ × ℕ)

section

variable {ι κ : Type}

/-- The slots that hold a cell. -/
def holders (T : Table ι κ) (q : κ) : Set ι := {i | ∃ n, T i = some (q, n)}

theorem mem_holders {T : Table ι κ} {q : κ} {i : ι} :
    i ∈ holders T q ↔ ∃ n, T i = some (q, n) := Iff.rfl

/-- Every holder has a reference, and shared cells are known to be shared. -/
structure Sound (T : Table ι κ) (refs : κ → ℕ) : Prop where
  counted : ∀ q, (holders T q).encard ≤ refs q
  pos : ∀ i q n, T i = some (q, n) → 1 ≤ n
  shared : ∀ i j q m n, i ≠ j → T i = some (q, m) → T j = some (q, n) → 2 ≤ m

variable {T : Table ι κ} {refs refs' : κ → ℕ} {i j : ι} {q : κ} {m n : ℕ}

theorem sound_empty : Sound (fun _ : ι => none) refs where
  counted q := by
    have hnone : holders (fun _ : ι => (none : Option (κ × ℕ))) q = ∅ := by
      ext i
      simp [mem_holders]
    rw [hnone, encard_empty]
    exact zero_le
  pos := by
    intro i q n h
    cases h
  shared := by
    intro i j q m n _ h _
    cases h

theorem Sound.refs_pos (h : Sound T refs) (hi : T i = some (q, n)) : 0 < refs q := by
  have hone : (1 : ℕ∞) ≤ (holders T q).encard := one_le_encard_iff_nonempty.mpr ⟨i, n, hi⟩
  exact_mod_cast hone.trans (h.counted q)

/-- A cell without references is not held. -/
theorem Sound.unheld (h : Sound T refs) (hq : refs q = 0) : T i ≠ some (q, n) := by
  intro hi
  have := h.refs_pos hi
  omega

/-- **A share count of one means that there is no other holder.** -/
theorem Sound.exclusive (h : Sound T refs) (hi : T i = some (q, m)) (hle : m ≤ 1)
    (hj : T j = some (q, n)) : j = i := by
  by_contra hne
  have := h.shared i j q m n (Ne.symm hne) hi hj
  omega

/-- References may be added, and references of cells nobody holds may go. -/
theorem Sound.mono (h : Sound T refs)
    (hle : ∀ i q n, T i = some (q, n) → refs q ≤ refs' q) : Sound T refs' where
  counted q := by
    rcases (holders T q).eq_empty_or_nonempty with hnone | ⟨i, n, hi⟩
    · rw [hnone, encard_empty]
      exact zero_le
    · exact (h.counted q).trans (by exact_mod_cast hle i q n hi)
  pos := h.pos
  shared := h.shared

end

section Update

variable {ι κ : Type} [DecidableEq ι] {T : Table ι κ} {refs refs' : κ → ℕ} {i j : ι} {q : κ}
  {m n : ℕ}

/-- A slot lets its cell go, with one reference. -/
theorem Sound.release [DecidableEq κ] (h : Sound T refs) (hi : T i = some (q, n))
    (hrefs : ∀ q', refs' q' = if q' = q then refs q' - 1 else refs q') :
    Sound (update T i none) refs' := by
  have hold : ∀ {j q' m}, update T i none j = some (q', m) → j ≠ i ∧
      T j = some (q', m) := by
    intro j q' m hj
    by_cases hji : j = i
    · rw [hji, update_self] at hj
      cases hj
    · rw [update_of_ne hji] at hj
      exact ⟨hji, hj⟩
  constructor
  · intro q'
    have hsub : holders (update T i none) q' ⊆ holders T q' \ {i} := by
      rintro j ⟨m, hj⟩
      exact ⟨⟨m, (hold hj).2⟩, (hold hj).1⟩
    rw [hrefs]
    by_cases hq : q' = q
    · subst hq
      have hmem : i ∈ holders T q' := ⟨n, hi⟩
      have hcard : (holders T q' \ {i}).encard + 1 ≤ ((refs q' - 1 : ℕ) : ℕ∞) + 1 := by
        rw [encard_sdiff_singleton_add_one hmem]
        have hpos := h.refs_pos hi
        calc (holders T q').encard ≤ refs q' := h.counted q'
          _ = ((refs q' - 1 : ℕ) : ℕ∞) + 1 := by
            exact_mod_cast (Nat.sub_add_cancel hpos).symm
      rw [if_pos rfl]
      exact (encard_le_encard hsub).trans
        ((ENat.add_le_add_iff_right ENat.one_ne_top).mp hcard)
    · rw [if_neg hq]
      exact (encard_le_encard (hsub.trans sdiff_subset)).trans (h.counted q')
  · intro j q' m hj
    exact h.pos j q' m (hold hj).2
  · intro j k q' m m' hne hj hk
    exact h.shared j k q' m m' hne (hold hj).2 (hold hk).2

/-- A slot takes a cell that nobody holds. -/
theorem Sound.adopt (h : Sound T refs) (hfree : ∀ j n, T j ≠ some (q, n)) (hpos : 0 < refs q) :
    Sound (update T i (some (q, 1))) refs := by
  have hold : ∀ {j q' m}, update T i (some (q, 1)) j = some (q', m) →
      (j = i ∧ q' = q ∧ m = 1) ∨ (q' ≠ q ∧ T j = some (q', m)) := by
    intro j q' m hj
    by_cases hji : j = i
    · rw [hji, update_self] at hj
      obtain ⟨rfl, rfl⟩ := Prod.mk.inj (some.inj hj)
      exact .inl ⟨hji, rfl, rfl⟩
    · rw [update_of_ne hji] at hj
      refine .inr ⟨?_, hj⟩
      rintro rfl
      exact hfree j m hj
  constructor
  · intro q'
    by_cases hq : q' = q
    · have hsub : holders (update T i (some (q, 1))) q' ⊆ {i} := by
        rintro j ⟨m, hj⟩
        rcases hold hj with ⟨hji, -, -⟩ | ⟨hne, -⟩
        · exact hji
        · exact absurd hq hne
      calc (holders (update T i (some (q, 1))) q').encard
          ≤ ({i} : Set ι).encard := encard_le_encard hsub
        _ = 1 := encard_singleton i
        _ ≤ refs q' := by
          rw [hq]
          exact_mod_cast hpos
    · refine (encard_le_encard ?_).trans (h.counted q')
      rintro j ⟨m, hj⟩
      rcases hold hj with ⟨-, heq, -⟩ | ⟨-, hj⟩
      · exact absurd heq hq
      · exact ⟨m, hj⟩
  · intro j q' m hj
    rcases hold hj with ⟨-, -, rfl⟩ | ⟨-, hj⟩
    · exact le_rfl
    · exact h.pos j q' m hj
  · intro j k q' m m' hne hj hk
    rcases hold hj with ⟨hj, hq, -⟩ | ⟨hq, hj⟩ <;> rcases hold hk with ⟨hk, hq', -⟩ | ⟨hq', hk⟩
    · exact absurd (hj.trans hk.symm) hne
    · exact absurd hq hq'
    · exact absurd hq' hq
    · exact h.shared j k q' m m' hne hj hk

/-- **A second slot takes a cell**, with a reference of its own; both slots now record a
share count above the old one. -/
theorem Sound.share [DecidableEq κ] (h : Sound T refs) (hi : T i = some (q, n)) (hj : T j = none)
    (hrefs : ∀ q', refs' q' = if q' = q then refs q' + 1 else refs q') :
    Sound (update (update T i (some (q, n + 1))) j (some (q, n + 1))) refs' := by
  have hpos := h.pos i q n hi
  -- a slot of the new table is one of the two, or it is unchanged
  have hold : ∀ {k q' m}, update (update T i (some (q, n + 1))) j
      (some (q, n + 1)) k = some (q', m) →
      ((k = i ∨ k = j) ∧ q' = q ∧ m = n + 1) ∨ (k ≠ i ∧ T k = some (q', m)) := by
    intro k q' m hk
    by_cases hkj : k = j
    · rw [hkj, update_self] at hk
      obtain ⟨rfl, rfl⟩ := Prod.mk.inj (some.inj hk)
      exact .inl ⟨.inr hkj, rfl, rfl⟩
    rw [update_of_ne hkj] at hk
    by_cases hki : k = i
    · rw [hki, update_self] at hk
      obtain ⟨rfl, rfl⟩ := Prod.mk.inj (some.inj hk)
      exact .inl ⟨.inl hki, rfl, rfl⟩
    · rw [update_of_ne hki] at hk
      exact .inr ⟨hki, hk⟩
  constructor
  · intro q'
    rw [hrefs]
    by_cases hq : q' = q
    · subst hq
      have hsub : holders (update (update T i (some (q', n + 1))) j
          (some (q', n + 1))) q' ⊆ insert j (holders T q') := by
        rintro k ⟨m, hk⟩
        rcases hold hk with ⟨hk | hk, -, -⟩ | ⟨-, hk⟩
        · exact .inr ⟨n, hk ▸ hi⟩
        · exact .inl hk
        · exact .inr ⟨m, hk⟩
      have hnot : j ∉ holders T q' := by
        rintro ⟨m, hm⟩
        rw [hj] at hm
        cases hm
      rw [if_pos rfl]
      calc (holders (update (update T i (some (q', n + 1))) j
          (some (q', n + 1))) q').encard
          ≤ (insert j (holders T q')).encard := encard_le_encard hsub
        _ = (holders T q').encard + 1 := encard_insert_of_notMem hnot
        _ ≤ (refs q' : ℕ∞) + 1 := by gcongr; exact h.counted q'
        _ = ((refs q' + 1 : ℕ) : ℕ∞) := by push_cast; rfl
    · rw [if_neg hq]
      refine (encard_le_encard ?_).trans (h.counted q')
      rintro k ⟨m, hk⟩
      rcases hold hk with ⟨-, heq, -⟩ | ⟨-, hk⟩
      · exact absurd heq hq
      · exact ⟨m, hk⟩
  · intro k q' m hk
    rcases hold hk with ⟨-, -, rfl⟩ | ⟨-, hk⟩
    · omega
    · exact h.pos k q' m hk
  · intro k l q' m m' hkl hk hl
    rcases hold hk with ⟨-, -, rfl⟩ | ⟨hki, hkold⟩
    · omega
    rcases hold hl with ⟨-, rfl, -⟩ | ⟨-, hlold⟩
    · -- the old holder of the cell already made this slot a sharer
      exact h.shared k i q' m n hki hkold hi
    · exact h.shared k l q' m m' hkl hkold hlold

end Update

end Sharing
