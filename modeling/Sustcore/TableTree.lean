/-
# Trees of tables in memory

A table is an array of entries at an address, and an entry may hold the address of another table.
`reach` follows a path of indices from a table.  The tables of a tree are *separated* if no table is
reached by two paths.  Then a new table that is linked into an entry is reached by one path, and all
other paths lead where they led before (`reach_link`).
-/
import Mathlib.Data.List.Induction
import Mathlib.Data.Nat.Notation
import Mathlib.Logic.Function.Basic

namespace TableTree

open Function Option List

variable {E : Type} (child : E → Option ℕ)

/-- The table that a path of indices leads to. -/
def reach (mem : ℕ → ℕ → E) : ℕ → List ℕ → Option ℕ
  | a, [] => some a
  | a, i :: path => (child (mem a i)).bind fun b => reach mem b path

/-- No table is reached by two paths. -/
def Separated (mem : ℕ → ℕ → E) (root : ℕ) : Prop :=
  ∀ p q a, reach child mem root p = some a → reach child mem root q = some a → p = q

/-- Entry `i` of the table at `a` is replaced. -/
def set (mem : ℕ → ℕ → E) (a i : ℕ) (e : E) : ℕ → ℕ → E :=
  update mem a (update (mem a) i e)

variable {child} {mem : ℕ → ℕ → E} {root a b i : ℕ} {p q : List ℕ} {e : E}

@[simp] theorem set_self (mem : ℕ → ℕ → E) (a i : ℕ) (e : E) : set mem a i e a i = e := by
  unfold set
  rw [update_self, update_self]

theorem set_of_ne {c k : ℕ} (hne : ¬(c = a ∧ k = i)) : set mem a i e c k = mem c k := by
  unfold set
  by_cases hc : c = a
  · subst hc
    rw [update_self, update_of_ne fun hk => hne ⟨rfl, hk⟩]
  · rw [update_of_ne hc]

theorem reach_append (mem : ℕ → ℕ → E) (p q : List ℕ) (a : ℕ) :
    reach child mem a (p ++ q) = (reach child mem a p).bind fun b => reach child mem b q := by
  induction p generalizing a with
  | nil => rfl
  | cons i p ih =>
    show (child (mem a i)).bind _ = ((child (mem a i)).bind _).bind _
    cases child (mem a i) with
    | none => rfl
    | some b => exact ih b

theorem reach_concat (mem : ℕ → ℕ → E) (p : List ℕ) (a i : ℕ) :
    reach child mem a (p ++ [i]) = (reach child mem a p).bind fun b => child (mem b i) := by
  rw [reach_append]
  congr 1
  funext b
  exact bind_fun_some _

theorem reach_concat_of (hp : reach child mem root p = some a) :
    reach child mem root (p ++ [i]) = child (mem a i) := by
  rw [reach_concat, hp, bind_some]

/-- Paths only depend on the children of the entries. -/
theorem reach_congr {mem' : ℕ → ℕ → E} (h : ∀ a i, child (mem' a i) = child (mem a i)) :
    reach child mem' = reach child mem := by
  funext a p
  induction p generalizing a with
  | nil => rfl
  | cons i p ih =>
    show (child (mem' a i)).bind _ = (child (mem a i)).bind _
    rw [h]
    congr 1
    funext b
    exact ih b

/-- An entry is replaced by one with the same child. -/
theorem reach_set (h : child e = child (mem a i)) :
    reach child (set mem a i e) = reach child mem := by
  refine reach_congr fun c k => ?_
  by_cases hck : c = a ∧ k = i
  · obtain ⟨rfl, rfl⟩ := hck
    rw [set_self, h]
  · rw [set_of_ne hck]

variable {zero : E} (hsep : Separated child mem root)
    (hp : reach child mem root p = some a) (hnone : child (mem a i) = none)
    (hfresh : ∀ q, reach child mem root q ≠ some b) (hzero : child zero = none)
    (he : child e = some b)

include hsep hp hnone hfresh hzero he

/-- **A new table is reached by one path**, and all other paths lead where they led before. -/
theorem reach_link (q : List ℕ) :
    reach child (set (update mem b fun _ => zero) a i e) root q =
      if q = p ++ [i] then some b else reach child mem root q := by
  have hab : b ≠ a := fun h => hfresh p (by rw [hp, h])
  -- the paths are followed from their ends
  induction q using reverseRecOn with
  | nil => rw [if_neg (by simp)]; rfl
  | append_singleton q k ih =>
    rw [reach_concat, reach_concat, ih]
    by_cases hq : q = p ++ [i]
    · -- below the new table there is nothing, and there was nothing
      subst hq
      rw [if_pos rfl, bind_some, set_of_ne (fun h => hab h.1), update_self, hzero,
        if_neg (by simp), reach_concat_of hp, hnone, bind_none]
    rw [if_neg hq]
    cases hc : reach child mem root q with
    | none =>
      have hne : q ++ [k] ≠ p ++ [i] := by
        intro heq
        obtain ⟨rfl, -⟩ := append_inj' heq rfl
        rw [hp] at hc
        cases hc
      rw [if_neg hne, bind_none, bind_none]
    | some c =>
      rw [bind_some, bind_some]
      by_cases hck : c = a ∧ k = i
      · obtain ⟨rfl, rfl⟩ := hck
        rw [set_self, he, hsep q p c hc hp, if_pos rfl]
      have hne : q ++ [k] ≠ p ++ [i] := by
        intro heq
        obtain ⟨rfl, hk⟩ := append_inj' heq rfl
        exact hck ⟨some.inj (hc.symm.trans hp), (cons.inj hk).1⟩
      have hcb : c ≠ b := fun h => hfresh q (by rw [hc, h])
      rw [if_neg hne, set_of_ne hck, update_of_ne hcb]

/-- A new table keeps the tables separated. -/
theorem Separated.link : Separated child (set (update mem b fun _ => zero) a i e) root := by
  intro q r c hq hr
  rw [reach_link hsep hp hnone hfresh hzero he] at hq hr
  by_cases hqp : q = p ++ [i]
  · rw [if_pos hqp] at hq
    cases hq
    by_cases hrp : r = p ++ [i]
    · rw [hqp, hrp]
    · rw [if_neg hrp] at hr
      exact absurd hr (hfresh r)
  · rw [if_neg hqp] at hq
    by_cases hrp : r = p ++ [i]
    · rw [if_pos hrp] at hr
      cases hr
      exact absurd hq (hfresh q)
    · rw [if_neg hrp] at hr
      exact hsep q r c hq hr

end TableTree
