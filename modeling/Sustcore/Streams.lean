/-
# Code that reads and writes sequences

A state may be seen as a sequence: what a reader has still to read, or what a writer has written
so far.  `V s l` says that the state `s` is seen as the list `l`.

* `Parses V x xs a` : where `xs` comes next, `x` reads it and returns `a`; where the input ends
  inside `xs`, `x` returns an error.
* `Rejects V x xs` : where `xs` comes next, or its beginning is all that is left, `x` returns an
  error.
* `Writes V x xs` : `x` appends `xs`.

Each has one rule for every way to put code together, so that what a decoder accepts is found by
following the decoder.
-/
import Sustcore.Outcome

namespace Sustcore

open Kernel List

variable {σ α β γ : Type} {V : σ → List γ → Prop}

/-! ## Reading -/

variable (V) in
/-- The code reads exactly `xs`, and returns `a`. -/
structure Parses (x : Kernel σ α) (xs : List γ) (a : α) : Prop where
  reads : ∀ s rest, V s (xs ++ rest) → ∃ t, x s = .ok (.ok a, t) ∧ V t rest
  refuses : ∀ s p, V s p → p <+: xs → p ≠ xs → ∃ e t, x s = .ok (.error e, t)

variable (V) in
/-- The code fails on `xs`, on more than it and on a part of it. -/
def Rejects (x : Kernel σ α) (xs : List γ) : Prop :=
  ∀ s l, V s l → l <+: xs ∨ xs <+: l → ∃ e t, x s = .ok (.error e, t)

theorem Parses.pure (a : α) : Parses V (Pure.pure a : Kernel σ α) [] a where
  reads := fun s _ hs => ⟨s, rfl, hs⟩
  refuses := fun _ _ _ hp hne => absurd (prefix_nil.mp hp) hne

theorem Rejects.throw (e : ErrCode) (xs : List γ) :
    Rejects V (throw e : Kernel σ α) xs := fun s _ _ _ => ⟨e, s, rfl⟩

variable {xs ys : List γ}

/-- A prefix of two lists in a row ends in the first one, or goes on into the second. -/
theorem prefix_append_cases {p : List γ} (h : p <+: xs ++ ys) :
    (p <+: xs ∧ p ≠ xs) ∨ ∃ q, p = xs ++ q ∧ q <+: ys := by
  rcases prefix_or_prefix_of_prefix h (prefix_append xs ys) with hp | ⟨q, rfl⟩
  · by_cases heq : p = xs
    · exact .inr ⟨[], by rw [heq, append_nil], nil_prefix⟩
    · exact .inl ⟨hp, heq⟩
  · exact .inr ⟨q, rfl, (prefix_append_right_inj xs).mp h⟩

variable {x : Kernel σ α}

/-- **One piece of code after the other.** -/
theorem Parses.bind {f : α → Kernel σ β} {a : α} {b : β}
    (hx : Parses V x xs a) (hf : Parses V (f a) ys b) : Parses V (x >>= f) (xs ++ ys) b where
  reads := by
    intro s rest hs
    rw [append_assoc] at hs
    obtain ⟨t, hxs, ht⟩ := hx.reads s _ hs
    rw [bind_of_ok hxs]
    exact hf.reads t rest ht
  refuses := by
    intro s p hs hp hne
    rcases prefix_append_cases hp with ⟨hp, hne'⟩ | ⟨q, rfl, hq⟩
    · obtain ⟨e, t, hxs⟩ := hx.refuses s p hs hp hne'
      exact ⟨e, t, bind_of_error hxs f⟩
    obtain ⟨t, hxs, ht⟩ := hx.reads s q hs
    rw [bind_of_ok hxs]
    apply hf.refuses t q ht hq
    rintro rfl
    exact hne rfl

/-- The last step only puts the parts together. -/
theorem Parses.bind_pure {f : α → β} {a : α}
    (hx : Parses V x xs a) : Parses V (x >>= fun a => Pure.pure (f a)) xs (f a) := by
  have h := hx.bind (f := fun a => Pure.pure (f a)) (Parses.pure (V := V) (f a))
  rwa [append_nil] at h

/-- What comes after a part that is read is refused. -/
theorem Parses.bind_rejects {f : α → Kernel σ β} {a : α}
    (hx : Parses V x xs a) (hf : Rejects V (f a) ys) : Rejects V (x >>= f) (xs ++ ys) := by
  -- the input reaches past `xs` or it does not
  have hlong : ∀ s q, V s (xs ++ q) → q <+: ys ∨ ys <+: q →
      ∃ e t, (x >>= f) s = .ok (.error e, t) := by
    intro s q hs hq
    obtain ⟨t, hxs, ht⟩ := hx.reads s q hs
    rw [bind_of_ok hxs]
    exact hf t q ht hq
  rintro s l hs (hl | ⟨q, rfl⟩)
  · rcases prefix_append_cases hl with ⟨hp, hne⟩ | ⟨q, rfl, hq⟩
    · obtain ⟨e, t, hxs⟩ := hx.refuses s l hs hp hne
      exact ⟨e, t, bind_of_error hxs f⟩
    · exact hlong s q hs (.inl hq)
  · rw [append_assoc] at hs
    exact hlong s (ys ++ q) hs (.inr (prefix_append ys q))

/-- A refusal ends the code. -/
theorem Rejects.bind (hx : Rejects V x xs) (f : α → Kernel σ β)
    (ys : List γ) : Rejects V (x >>= f) (xs ++ ys) := by
  intro s l hs hl
  have hl' : l <+: xs ∨ xs <+: l := by
    rcases hl with hl | hl
    · exact prefix_or_prefix_of_prefix hl (prefix_append xs ys)
    · exact .inr ((prefix_append xs ys).trans hl)
  obtain ⟨e, t, hxs⟩ := hx s l hs hl'
  exact ⟨e, t, bind_of_error hxs f⟩

/-! ## Writing -/

variable (V) in
/-- The code appends `xs`. -/
def Writes (x : Kernel σ Unit) (xs : List γ) : Prop :=
  ∀ s l, V s l → ∃ t, x s = .ok (.ok (), t) ∧ V t (l ++ xs)

theorem Writes.nil : Writes V (Pure.pure () : Kernel σ Unit) [] := by
  intro s l hs
  refine ⟨s, rfl, ?_⟩
  rwa [append_nil]

theorem Writes.bind {x : Kernel σ Unit} {f : Unit → Kernel σ Unit}
    (hx : Writes V x xs) (hf : Writes V (f ()) ys) : Writes V (x >>= f) (xs ++ ys) := by
  intro s l hs
  obtain ⟨t, hxs, ht⟩ := hx s l hs
  obtain ⟨u, hft, hu⟩ := hf t _ ht
  refine ⟨u, ?_, ?_⟩
  · rw [bind_of_ok hxs, hft]
  · rwa [← append_assoc]

end Sustcore
