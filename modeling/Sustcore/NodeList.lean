/-
# Intrusive lists

An intrusive list links nodes through a field of the nodes themselves, so a node is in a
list at most once.  Several lists can share the field; a node that is linked in one of them
is not inserted into another one.

Nothing here is specific to threads.
-/
import Mathlib.Data.List.Basic
import Mathlib.Data.List.Nodup

/-- The nodes of an intrusive list, from the front to the back. -/
structure NodeList (α : Type) where
  nodes : List α
  nodup : nodes.Nodup

namespace NodeList

open List

variable {α : Type}

def empty : NodeList α := ⟨[], nodup_nil⟩

def single (x : α) : NodeList α := ⟨[x], nodup_singleton x⟩

instance : Membership α (NodeList α) := ⟨fun l x => x ∈ l.nodes⟩

variable {l : NodeList α} {x y : α}

theorem mem_def : x ∈ l ↔ x ∈ l.nodes := Iff.rfl

/-- Remove the first node. -/
def popFront (l : NodeList α) : NodeList α := ⟨l.nodes.tail, l.nodup.sublist l.nodes.tail_sublist⟩

@[simp] theorem popFront_nodes (l : NodeList α) : l.popFront.nodes = l.nodes.tail := rfl

variable {rest : List α}

theorem mem_of_first (h : l.nodes = x :: rest) : x ∈ l := by
  rw [mem_def, h]
  exact mem_cons_self

theorem notMem_rest (h : l.nodes = x :: rest) : x ∉ rest := by
  have hnodup := l.nodup
  rw [h] at hnodup
  exact (nodup_cons.mp hnodup).1

theorem popFront_of_first (h : l.nodes = x :: rest) : l.popFront.nodes = rest := by
  rw [popFront_nodes, h, tail_cons]

theorem nodes_eq_nil_of_subset {l' : NodeList α} (hsub : ∀ x ∈ l', x ∈ l) (h : l.nodes = []) :
    l'.nodes = [] := by
  have hsubset : l'.nodes ⊆ l.nodes := hsub
  rwa [h, subset_nil] at hsubset

theorem notMem_popFront (h : l.nodes = x :: rest) : x ∉ l.popFront := by
  rw [mem_def, popFront_of_first h]
  exact notMem_rest h

variable [DecidableEq α]

instance (l : NodeList α) (x : α) : Decidable (x ∈ l) :=
  inferInstanceAs (Decidable (x ∈ l.nodes))

/-- Append a node, unless it is linked already. -/
def pushBack (l : NodeList α) (x : α) : NodeList α :=
  if h : x ∈ l.nodes then l
  else ⟨l.nodes ++ [x], nodup_append.mpr ⟨l.nodup, nodup_singleton x, by
    intro a ha b hb
    obtain rfl := mem_singleton.mp hb
    rintro rfl
    exact h ha⟩⟩

def remove (l : NodeList α) (x : α) : NodeList α := ⟨l.nodes.erase x, l.nodup.erase x⟩

theorem pushBack_nodes (h : x ∉ l) : (l.pushBack x).nodes = l.nodes ++ [x] := by
  have h' : x ∉ l.nodes := h
  unfold pushBack
  rw [dif_neg h']

theorem mem_pushBack : y ∈ l.pushBack x ↔ y ∈ l ∨ y = x := by
  by_cases h : x ∈ l
  · have h' : x ∈ l.nodes := h
    unfold pushBack
    rw [dif_pos h']
    constructor
    · exact Or.inl
    · rintro (hy | rfl)
      · exact hy
      · exact h
  · rw [mem_def, pushBack_nodes h, mem_append, mem_singleton]
    rfl

theorem mem_remove : y ∈ l.remove x ↔ y ≠ x ∧ y ∈ l :=
  l.nodup.mem_erase_iff

end NodeList
