/-
# Outcomes of kernel code

The kernel's functions end in one of three ways: they return a value, they return an
error code (`Result<T>` in the source), or they stop the machine in an `assert` or a
`panic`.  A stop is `Except.error` of the outer `Except Halt`; an error code is an
ordinary return value of type `Except ErrCode α`.

The bind lemmas below are the only place where `do`-blocks are taken apart.
-/
import Mathlib

/-! ## Inversion of binds -/

universe u v

namespace Except

variable {ε : Type u} {α β : Type v} {x : Except ε α}

/-- A sequential composition succeeds iff both parts do. -/
theorem bind_eq_ok_iff {f : α → Except ε β} {b : β} :
    (x >>= f) = .ok b ↔ ∃ a, x = .ok a ∧ f a = .ok b := by
  cases x with
  | error e => simp [bind, Except.bind]
  | ok a => simp [bind, Except.bind]

theorem bind_eq_error_iff {f : α → Except ε β} {e : ε} :
    (x >>= f) = .error e ↔ x = .error e ∨ ∃ a, x = .ok a ∧ f a = .error e := by
  cases x with
  | error e' => simp [bind, Except.bind]
  | ok a => simp [bind, Except.bind]

/-- A call on a part `τ` of the state, which is then put back. -/
theorem bind_part_eq_ok {σ τ : Type v} {x : Except ε (α × τ)} (g : τ → σ) {r : α} {s : σ} :
    (x >>= fun p => pure (p.1, g p.2)) = .ok (r, s) ↔ ∃ t, x = .ok (r, t) ∧ s = g t := by
  rw [bind_eq_ok_iff]
  constructor
  · rintro ⟨⟨res, t⟩, hx, h⟩
    cases h
    exact ⟨t, hx, rfl⟩
  · rintro ⟨t, hx, rfl⟩
    exact ⟨(r, t), hx, rfl⟩

theorem map_snd_eq_ok {x : Except ε (α × β)} {b : β} (h : x.map Prod.snd = .ok b) :
    ∃ a, x = .ok (a, b) := by
  cases x with
  | error e => cases h
  | ok p =>
    cases h
    exact ⟨p.1, rfl⟩

/-- The value of a computation that returns one, and `d` otherwise. -/
def valueOr (d : α) : Except ε α → α
  | .ok a => a
  | .error _ => d

theorem eq_ok_valueOr {d : α} (h : x.isOk = true) : x = .ok (valueOr d x) := by
  cases x with
  | error e => cases h
  | ok a => rfl

end Except

theorem Option.eq_some_getD {α : Type u} {x : Option α} {d : α} (h : x.isSome = true) :
    x = some (x.getD d) := by
  cases x with
  | none => cases h
  | some a => rfl

namespace Sustcore

/-- What a call returns, and the state after it. -/
theorem ok_inj {ε : Type u} {α β : Type v} {a c : α} {b d : β}
    (h : (.ok (a, b) : Except ε (α × β)) = .ok (c, d)) : a = c ∧ b = d :=
  Prod.mk.inj (Except.ok.inj h)

/-- A value of an updated function is the new one, or an old one at another place. -/
theorem update_eq_cases {ι : Type u} {α : Type v} [DecidableEq ι] {f : ι → α} {i j : ι} {x y : α}
    (h : Function.update f i x j = y) : j = i ∧ x = y ∨ j ≠ i ∧ f j = y := by
  by_cases hj : j = i
  · subst hj
    exact .inl ⟨rfl, Function.update_self j x f ▸ h⟩
  · exact .inr ⟨hj, Function.update_of_ne hj x f ▸ h⟩

/-! ## Error codes and stops -/

/-- The error codes of `sustcore/errcode.h` that the modelled functions return; `SLOT_BUSY`
is another name of `BUSY`. -/
inductive ErrCode where
  | failure
  | invalidParam
  | outOfBoundary
  | notSupported
  | busy
  | outOfMemory
  | nullptr
  | insufficientPermissions
  | typeNotMatched
  | noFreeSlot
  | entryNotFound
  | ioError
  | pageNotPresent
  | invalidPte
  | futureError
  | futurePending
  | futureCancled
  | futureConsumed
  | timeout
  | interrupted
  | wouldBlock
  | brokenPipe
  | noRunnableThread
  | unknownError
  | keyDuplicated
  | creationFailed
  | allocationFailed
  | fsError
  deriving DecidableEq, Repr

/-- `Result<T>`. -/
abbrev Result (α : Type) := Except ErrCode α

/-- Why a run of kernel code does not return: a failed `assert`, a `panic`, or (in the
model only) a recursion bound that was too small.  After a write outside of an array or the
use of a freed object (`undefined`) the source does not say what happens. -/
inductive Halt where
  | assertFailed
  | panic
  | outOfFuel
  | undefined
  deriving DecidableEq, Repr

/-- `assert(c)`. -/
def assertThat (c : Bool) : Except Halt Unit :=
  if c then .ok () else .error .assertFailed

theorem assertThat_eq_ok_iff {c : Bool} {u : Unit} : assertThat c = .ok u ↔ c = true := by
  cases c <;> simp [assertThat]

theorem assertThat_ne_outOfFuel (c : Bool) : assertThat c ≠ .error .outOfFuel := by
  cases c <;> simp [assertThat]

/-- Kernel code over a state `σ`: it returns a value or an error code, with the state it
leaves behind, or stops the machine. -/
def Kernel (σ α : Type) : Type := σ → Except Halt (Result α × σ)

namespace Kernel

variable {σ α β : Type}

/-- `propagate`: an error code ends the computation and leaves the state as it is. -/
instance : Monad (Kernel σ) where
  pure a := fun s => .ok (.ok a, s)
  bind x f := fun s => do
    let (res, s) ← x s
    match res with
    | .error e => pure (.error e, s)
    | .ok a => f a s

/-- `unexpect_return`. -/
def throw (e : ErrCode) : Kernel σ α := fun s => .ok (.error e, s)

/-- Read the state. -/
def get : Kernel σ σ := fun s => .ok (.ok s, s)

/-- Change the state. -/
def modify (f : σ → σ) : Kernel σ Unit := fun s => .ok (.ok (), f s)

/-- Return a result that was computed without touching the state. -/
def ofResult (r : Result α) : Kernel σ α := fun s => .ok (r, s)

/-- Stop the machine. -/
def halt (h : Halt) : Kernel σ α := fun _ => .error h

/-- A step that returns no error code but may stop the machine. -/
def lift (f : σ → Except Halt σ) : Kernel σ Unit := fun s => do
  let s ← f s
  pure (.ok (), s)

/-- Run `x` and look at its result; an error code does not end the computation. -/
def attempt (x : Kernel σ α) : Kernel σ (Result α) := fun s => do
  let (res, s) ← x s
  pure (.ok res, s)

/-- Run `x` and `assert` that it returns no error code. -/
def mustSucceed (x : Kernel σ α) : Kernel σ α := fun s => do
  let (res, s) ← x s
  match res with
  | .error _ => .error .assertFailed
  | .ok a => pure (.ok a, s)

@[simp] theorem get_bind (f : σ → Kernel σ β) (s : σ) : (get >>= f) s = f s s := rfl

@[simp] theorem modify_bind (g : σ → σ) (f : Unit → Kernel σ β) (s : σ) :
    (modify g >>= f) s = f () (g s) := rfl

variable {s s' t : σ}

theorem modify_eq_ok {g : σ → σ} {r : Result Unit} :
    modify g s = .ok (r, s') ↔ r = .ok () ∧ s' = g s := by
  constructor
  · intro h
    cases h
    exact ⟨rfl, rfl⟩
  · rintro ⟨rfl, rfl⟩
    rfl

theorem pure_eq_ok {a : α} {r : Result α} :
    (pure a : Kernel σ α) s = .ok (r, s') ↔ r = .ok a ∧ s' = s := by
  constructor
  · intro h
    cases h
    exact ⟨rfl, rfl⟩
  · rintro ⟨rfl, rfl⟩
    rfl

theorem throw_eq_ok {e : ErrCode} {r : Result α} :
    (throw e : Kernel σ α) s = .ok (r, s') ↔ r = .error e ∧ s' = s := by
  constructor
  · intro h
    cases h
    exact ⟨rfl, rfl⟩
  · rintro ⟨rfl, rfl⟩
    rfl

variable {r : Result β} {x : Kernel σ α} {f : α → Kernel σ β}

/-- **Sequential composition**: the first part returns an error, or the second part runs
in the state the first one left. -/
theorem bind_eq_ok : (x >>= f) s = .ok (r, s') ↔ (∃ e, x s = .ok (.error e, s') ∧ r = .error e) ∨
      ∃ a t, x s = .ok (.ok a, t) ∧ f a t = .ok (r, s') := by
  have hunfold : (x >>= f) s = (x s >>= fun p => match p.1 with
      | .error e => pure (.error e, p.2)
      | .ok a => f a p.2) := rfl
  rw [hunfold, Except.bind_eq_ok_iff]
  constructor
  · rintro ⟨⟨res, t⟩, hx, h⟩
    cases res with
    | error e =>
      cases h
      exact .inl ⟨e, hx, rfl⟩
    | ok a => exact .inr ⟨a, t, hx, h⟩
  · rintro (⟨e, hx, rfl⟩ | ⟨a, t, hx, h⟩)
    · exact ⟨_, hx, rfl⟩
    · exact ⟨_, hx, h⟩

/-- If the composition returns a value, so do both parts. -/
theorem bind_returns {b : β} (h : (x >>= f) s = .ok (.ok b, s')) :
    ∃ a t, x s = .ok (.ok a, t) ∧ f a t = .ok (.ok b, s') := by
  rcases bind_eq_ok.mp h with ⟨_, -, hb⟩ | h
  · cases hb
  · exact h

/-- The first part is known to return a value. -/
theorem bind_of_ok {a : α} (h : x s = .ok (.ok a, t))
    (f : α → Kernel σ β) : (x >>= f) s = f a t := by
  show (x s >>= _) = _
  rw [h]
  rfl

/-- The first part is known to return an error. -/
theorem bind_of_error {e : ErrCode} (h : x s = .ok (.error e, t))
    (f : α → Kernel σ β) : (x >>= f) s = .ok (.error e, t) := by
  show (x s >>= _) = _
  rw [h]
  rfl

theorem attempt_bind_of {res : Result α} (h : x s = .ok (res, t))
    (f : Result α → Kernel σ β) : (attempt x >>= f) s = f res t := by
  show ((x s >>= _) >>= _) = _
  rw [h]
  rfl

theorem lift_eq_ok {f : σ → Except Halt σ} {r : Result Unit} :
    lift f s = .ok (r, s') ↔ r = .ok () ∧ f s = .ok s' := by
  unfold lift
  rw [Except.bind_eq_ok_iff]
  constructor
  · rintro ⟨t, ht, h⟩
    cases h
    exact ⟨rfl, ht⟩
  · rintro ⟨rfl, h⟩
    exact ⟨s', h, rfl⟩

/-- After `attempt` the computation goes on, whatever the result. -/
theorem attempt_bind_eq_ok {f : Result α → Kernel σ β} : (attempt x >>= f) s = .ok (r, s') ↔
      ∃ res t, x s = .ok (res, t) ∧ f res t = .ok (r, s') := by
  have hunfold : (attempt x >>= f) s = (x s >>= fun p => f p.1 p.2) := by
    show ((x s >>= fun p => pure (Except.ok p.1, p.2)) >>= _) = _
    cases x s with
    | error e => rfl
    | ok p => rfl
  rw [hunfold, Except.bind_eq_ok_iff]
  constructor
  · rintro ⟨⟨res, t⟩, hx, h⟩
    exact ⟨res, t, hx, h⟩
  · rintro ⟨res, t, hx, h⟩
    exact ⟨(res, t), hx, h⟩

theorem mustSucceed_eq_ok {r : Result α} :
    mustSucceed x s = .ok (r, s') ↔ ∃ a, r = .ok a ∧ x s = .ok (.ok a, s') := by
  unfold mustSucceed
  rw [Except.bind_eq_ok_iff]
  constructor
  · rintro ⟨⟨res, t⟩, hx, h⟩
    cases res with
    | error e => cases h
    | ok a =>
      cases h
      exact ⟨a, rfl, hx⟩
  · rintro ⟨a, rfl, hx⟩
    exact ⟨(.ok a, s'), hx, rfl⟩

theorem mustSucceed_bind_eq_ok : (mustSucceed x >>= f) s = .ok (r, s') ↔
      ∃ a t, x s = .ok (.ok a, t) ∧ f a t = .ok (r, s') := by
  rw [bind_eq_ok]
  constructor
  · rintro (⟨e, h, -⟩ | ⟨a, t, h, hf⟩)
    · obtain ⟨a, ha, -⟩ := mustSucceed_eq_ok.mp h
      cases ha
    · obtain ⟨a', ha, hx⟩ := mustSucceed_eq_ok.mp h
      cases ha
      exact ⟨a, t, hx, hf⟩
  · rintro ⟨a, t, hx, hf⟩
    exact .inr ⟨a, t, mustSucceed_eq_ok.mpr ⟨a, rfl, hx⟩, hf⟩

theorem ofResult_bind_eq_ok {x : Result α} :
    (ofResult x >>= f) s = .ok (r, s') ↔ (∃ e, x = .error e ∧ r = .error e ∧ s' = s) ∨
      ∃ a, x = .ok a ∧ f a s = .ok (r, s') := by
  cases x with
  | error e =>
    constructor
    · intro h
      cases h
      exact .inl ⟨e, rfl, rfl, rfl⟩
    · rintro (⟨e', he, rfl, rfl⟩ | ⟨a, ha, -⟩)
      · obtain rfl := Except.error.inj he
        rfl
      · cases ha
  | ok a =>
    constructor
    · intro h
      exact .inr ⟨a, rfl, h⟩
    · rintro (⟨e, he, -⟩ | ⟨b, hb, h⟩)
      · cases he
      · cases hb
        exact h

theorem ofResult_bind_returns {x : Result α} {b : β}
    (h : (ofResult x >>= f) s = .ok (.ok b, s')) : ∃ a, x = .ok a ∧ f a s = .ok (.ok b, s') := by
  rcases ofResult_bind_eq_ok.mp h with ⟨_, -, hb, -⟩ | h
  · cases hb
  · exact h

end Kernel

/-- The value a call returns, if it returns one. -/
def returned {α β : Type} : Except Halt (Result α × β) → Option α
  | .ok (.ok a, _) => some a
  | _ => none

theorem eq_ok_of_returned {α β : Type} {x : Except Halt (Result α × β)} {a : α} (d : β)
    (h : returned x = some a) : x = .ok (.ok a, (Except.valueOr (.ok a, d) x).2) := by
  match x with
  | .ok (.ok b, s) =>
    cases h
    rfl
  | .ok (.error e, s) => cases h
  | .error e => cases h

/-- The error code that a call returns. -/
def failed {α β : Type} : Except Halt (Result α × β) → Option ErrCode
  | .ok (.error e, _) => some e
  | _ => none

theorem eq_ok_of_failed {α β : Type} {x : Except Halt (Result α × β)} {e : ErrCode} (d : β)
    (h : failed x = some e) : x = .ok (.error e, (Except.valueOr (.error e, d) x).2) := by
  match x, h with
  | .ok (.error _, s), h =>
    cases h
    rfl

/-- Why a call stops the machine. -/
def stopped {α : Type} : Except Halt α → Option Halt
  | .error e => some e
  | .ok _ => none

theorem eq_error_of_stopped {α : Type} {x : Except Halt α} {e : Halt} (h : stopped x = some e) :
    x = .error e := by
  match x, h with
  | .error _, h => rw [Option.some.inj h]

/-! ## Pages

Addresses are natural numbers; a physical range never wraps around. -/

abbrev PAGESIZE : ℕ := 4096

/-- The bytes of `n` pages from the address `a` on. -/
def pageRange (a : ℕ) (n : ℕ) : Set ℕ := Set.Ico a (a + n * PAGESIZE)

@[simp] theorem mem_pageRange {a n x : ℕ} :
    x ∈ pageRange a n ↔ a ≤ x ∧ x < a + n * PAGESIZE := Iff.rfl

end Sustcore
