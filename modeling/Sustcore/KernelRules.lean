/-
# Rules for kernel code

Loops and queries of `Kernel` code, and the rules by which a relation between the states before
and after a call goes through a piece of code: `Keeps R x` says that every run of `x` that
returns, with a value or an error code, relates its two states by `R`.  For a preorder `R` the
rules follow the code: a sequence keeps `R` if its parts do, and a loop if its body does.
-/
import Sustcore.Outcome

namespace Sustcore.Kernel

open Except Kernel

variable {σ α β : Type}

/-! ## Queries -/

/-- A result that is read off the state. -/
def query (f : σ → Result α) : Kernel σ α := fun s => .ok (f s, s)

variable {s s' : σ} {f : σ → Result α}

theorem query_eq_ok {r : Result α} : query f s = .ok (r, s') ↔ r = f s ∧ s' = s := by
  constructor
  · intro h
    cases h
    exact ⟨rfl, rfl⟩
  · rintro ⟨rfl, rfl⟩
    rfl

theorem query_bind_eq_ok {g : α → Kernel σ β} {r : Result β} :
    (query f >>= g) s = .ok (r, s') ↔ (∃ e, f s = .error e ∧ r = .error e ∧ s' = s) ∨
      ∃ a, f s = .ok a ∧ g a s = .ok (r, s') :=
  ofResult_bind_eq_ok

/-- A query that may also stop the machine. -/
def queryHalt (f : σ → Except Halt (Result α)) : Kernel σ α := fun s => do
  let r ← f s
  pure (r, s)

theorem queryHalt_eq_ok {f : σ → Except Halt (Result α)} {r : Result α} :
    queryHalt f s = .ok (r, s') ↔ f s = .ok r ∧ s' = s := by
  unfold queryHalt
  rw [bind_eq_ok_iff]
  constructor
  · rintro ⟨r', hr, h⟩
    cases h
    exact ⟨hr, rfl⟩
  · rintro ⟨hr, rfl⟩
    exact ⟨r, hr, rfl⟩

/-- A computation without state that may stop the machine. -/
def ofHalt (x : Except Halt α) : Kernel σ α := fun s => do
  let a ← x
  pure (.ok a, s)

theorem ofHalt_eq_ok {x : Except Halt α} {r : Result α} :
    (ofHalt x : Kernel σ α) s = .ok (r, s') ↔ ∃ a, x = .ok a ∧ r = .ok a ∧ s' = s := by
  unfold ofHalt
  rw [bind_eq_ok_iff]
  constructor
  · rintro ⟨a, ha, h⟩
    cases h
    exact ⟨a, ha, rfl, rfl⟩
  · rintro ⟨a, ha, rfl, rfl⟩
    exact ⟨a, ha, rfl⟩

/-! ## Loops -/

/-- The loop over `count` numbers from `start` on.  A round that returns a value ends it. -/
def search (body : ℕ → Kernel σ (Option β)) : ℕ → ℕ → Kernel σ (Option β)
  | _, 0 => pure none
  | start, count + 1 => do
      match ← body start with
      | some b => pure (some b)
      | none => search body (start + 1) count

/-- The loop over `count` numbers from `start` on that appends what its rounds return. -/
def collect (body : ℕ → Kernel σ (List β)) : ℕ → ℕ → Kernel σ (List β)
  | _, 0 => pure []
  | start, count + 1 => do
      let xs ← body start
      let ys ← collect body (start + 1) count
      pure (xs ++ ys)

/-- The loop over the members of a list. -/
def forEach (body : α → Kernel σ Unit) : List α → Kernel σ Unit
  | [] => pure ()
  | a :: as => do
      body a
      forEach body as

/-! ## Stops -/

/-- A composition stops where its first part does, or where the second one does. -/
theorem bind_eq_halt {x : Kernel σ α} {f : α → Kernel σ β} {e : Halt} :
    (x >>= f) s = .error e ↔ x s = .error e ∨ ∃ a t, x s = .ok (.ok a, t) ∧ f a t = .error e := by
  change (x s >>= _) = _ ↔ _
  rw [bind_eq_error_iff]
  apply or_congr_right
  constructor
  · rintro ⟨⟨res, t⟩, hx, h⟩
    cases res with
    | error e' => cases h
    | ok a => exact ⟨a, t, hx, h⟩
  · rintro ⟨a, t, hx, h⟩
    exact ⟨_, hx, h⟩

theorem ofHalt_eq_halt {x : Except Halt α} {e : Halt} :
    (ofHalt x : Kernel σ α) s = .error e ↔ x = .error e := by
  unfold ofHalt
  rw [bind_eq_error_iff]
  constructor
  · rintro (h | ⟨a, -, h⟩)
    · exact h
    · cases h
  · exact .inl

/-! ## Relations kept by a call -/

/-- Every run of `x` that returns relates its states. -/
def Keeps (R : σ → σ → Prop) (x : Kernel σ α) : Prop :=
  ∀ s r s', x s = .ok (r, s') → R s s'

/-- What `g` reads of the state stays as it is. -/
def Fixes (g : σ → β) (s s' : σ) : Prop := g s' = g s

instance (g : σ → β) : Std.Refl (Fixes g) := ⟨fun _ => rfl⟩

instance (g : σ → β) : IsTrans σ (Fixes g) := ⟨fun _ _ _ h₁ h₂ => h₂.trans h₁⟩

namespace Keeps

variable {R : σ → σ → Prop} {x : Kernel σ α} {f : α → Kernel σ β}

theorem halt (h : Halt) : Keeps R (halt h : Kernel σ α) := nofun

section Reflexive

variable [Std.Refl R]

theorem pure (a : α) : Keeps R (Pure.pure a : Kernel σ α) := by
  intro s r s' h
  obtain ⟨-, rfl⟩ := pure_eq_ok.mp h
  exact Std.Refl.refl s'

theorem throw (e : ErrCode) : Keeps R (throw e : Kernel σ α) := by
  intro s r s' h
  obtain ⟨-, rfl⟩ := throw_eq_ok.mp h
  exact Std.Refl.refl s'

theorem query (q : σ → Result α) : Keeps R (query q) := by
  intro s r s' h
  obtain ⟨-, rfl⟩ := query_eq_ok.mp h
  exact Std.Refl.refl s'

theorem queryHalt (q : σ → Except Halt (Result α)) : Keeps R (queryHalt q) := by
  intro s r s' h
  obtain ⟨-, rfl⟩ := queryHalt_eq_ok.mp h
  exact Std.Refl.refl s'

theorem ofResult (q : Result α) : Keeps R (ofResult q : Kernel σ α) :=
  query fun _ => q

theorem get : Keeps R (get : Kernel σ σ) := query fun s => .ok s

end Reflexive

theorem modify {g : σ → σ} (h : ∀ s, R s (g s)) : Keeps R (modify g) := by
  intro s r s' hrun
  obtain ⟨-, rfl⟩ := modify_eq_ok.mp hrun
  exact h s

theorem attempt (hx : Keeps R x) : Keeps R (attempt x) := by
  intro s r s' h
  obtain ⟨⟨res, t⟩, hrun, hpure⟩ := bind_eq_ok_iff.mp h
  cases hpure
  exact hx s res _ hrun

section Transitive

variable [IsTrans σ R]

theorem bind (hx : Keeps R x) (hf : ∀ a, Keeps R (f a)) : Keeps R (x >>= f) := by
  intro s r s' h
  rcases bind_eq_ok.mp h with ⟨e, hx', -⟩ | ⟨a, t, hx', hf'⟩
  · exact hx s _ s' hx'
  · exact IsTrans.trans s t s' (hx s _ t hx') (hf a t r s' hf')

variable [Std.Refl R]

theorem collect {body : ℕ → Kernel σ (List β)} (h : ∀ i, Keeps R (body i)) (start count : ℕ) :
    Keeps R (collect body start count) := by
  induction count generalizing start with
  | zero => exact pure []
  | succ count ih =>
    apply bind (h start)
    intro xs
    apply bind (ih (start + 1))
    intro ys
    exact pure (xs ++ ys)

end Transitive

theorem ite {c : Prop} [Decidable c] {y : Kernel σ α} (hx : Keeps R x) (hy : Keeps R y) :
    Keeps R (if c then x else y) := by
  split
  · exact hx
  · exact hy

end Keeps

/-! ## Code that always returns -/

/-- From every state with `I`, `x` returns in a state with `I`. -/
def Returns (I : σ → Prop) (x : Kernel σ α) : Prop :=
  ∀ s, I s → ∃ r s', x s = .ok (r, s') ∧ I s'

namespace Returns

variable {I : σ → Prop} {x : Kernel σ α} {f : α → Kernel σ β}

theorem pure (a : α) : Returns I (Pure.pure a : Kernel σ α) := fun s hs => ⟨.ok a, s, rfl, hs⟩

theorem throw (e : ErrCode) : Returns I (throw e : Kernel σ α) :=
  fun s hs => ⟨.error e, s, rfl, hs⟩

/-- **One call after the other.** -/
theorem bind (hx : Returns I x) (hf : ∀ a, Returns I (f a)) : Returns I (x >>= f) := by
  intro s hs
  obtain ⟨r, t, hrun, ht⟩ := hx s hs
  cases r with
  | error e => exact ⟨.error e, t, bind_of_error hrun f, ht⟩
  | ok a =>
    rw [bind_of_ok hrun]
    exact hf a t ht

theorem ite {c : Prop} [Decidable c] {y : Kernel σ α} (hx : Returns I x) (hy : Returns I y) :
    Returns I (if c then x else y) := by
  split
  · exact hx
  · exact hy

end Returns

end Sustcore.Kernel
