/-
# Requests to block devices (`kernel/bio/request.cpp`)

A request is created by `submit_async`, pushed into the ring of its device, taken out by the driver
or by `drain_and_stop`, and freed by `on_complete` after its promise was resolved.  The threads are
cut where the locks of the queue are released, so `submit_async` and `drain_and_stop` are several
steps; the lists `waking`, `failing` and `holding` are the threads that are between two steps, with
their requests.  What a wakeup or a promise reports is chosen by the environment.

`block_requests_owned`: as long as the ring does not overflow, no wakeup of `submit` and no promise
reports an error, and the driver only works on requests that it has dequeued, every request has one
owner, or was resolved once and freed once.
-/
import Sustcore.Ledger
import Sustcore.Outcome

namespace Sustcore

open Relation Function Kernel List

inductive BlockReqStatus where
  | PENDING
  | SUBMITTED
  | PROCESSING
  | COMPLETED
  | FAILED
  | CANCELED
  deriving DecidableEq, Repr

/-- `BlockRequest`; `resolved` are the values its promise was resolved to, and `freed` counts the
calls of `delete`. -/
structure BlockRequest where
  status : BlockReqStatus
  result : Result ℕ
  resolved : List (Result ℕ)
  freed : ℕ

/-- What `set_value` meets: the result of `future_begin_update` and that of `wake_all`. -/
structure SetValueEnv where
  begin : Result Unit
  wake : Result ℕ

/-- `BlockRequestQueue`, its requests, and the threads that work on them.  `capacity` is the number
of slots of the ring, 0 if it has no storage. -/
structure BlockQueue where
  capacity : ℕ
  ring : List ℕ
  accepting : Bool
  stopped : Bool
  reqs : ℕ → Option BlockRequest
  next : ℕ
  /-- Requests that the driver has dequeued. -/
  held : List ℕ
  /-- Threads in `submit`, between the push and the wakeup. -/
  waking : List ℕ
  /-- Threads in `submit_async` after `submit` has failed. -/
  failing : List (ℕ × ErrCode)
  /-- Threads at the head of the loop of `drain_and_stop`. -/
  looping : ℕ
  /-- Threads in `drain_and_stop` that have dequeued a request. -/
  holding : List ℕ
  /-- Threads in `drain_and_stop` after the loop. -/
  stopping : ℕ

namespace BlockQueue

def init (capacity : ℕ) : BlockQueue :=
  ⟨capacity, [], true, false, fun _ => none, 0, [], [], [], 0, [], 0⟩

def full (s : BlockQueue) : Bool := s.capacity ≠ 0 ∧ s.ring.length + 1 = s.capacity

/-- The fields of a request; a freed one has none. -/
def request (r : ℕ) : Kernel BlockQueue BlockRequest := fun s =>
  match s.reqs r with
  | none => .error .undefined
  | some req => if req.freed = 0 then .ok (.ok req, s) else .error .undefined

/-- Fields of a request are written. -/
def write (r : ℕ) (req : BlockRequest) (s : BlockQueue) : BlockQueue :=
  { s with reqs := update s.reqs r (some req) }

/-- `Promise::set_value`. -/
def setValue (r : ℕ) (value : Result ℕ) (env : SetValueEnv) : Kernel BlockQueue Unit := do
  let req ← request r
  ofResult env.begin
  if req.resolved ≠ [] then throw .busy
  else
    modify (write r { req with resolved := req.resolved ++ [value] })
    let _ ← ofResult env.wake
    pure ()

def delete (r : ℕ) : Kernel BlockQueue Unit := do
  let req ← request r
  modify (write r { req with freed := req.freed + 1 })

/-- The part of `submit` under the lock. -/
def push (r : ℕ) : Kernel BlockQueue Unit := do
  let s ← get
  if !s.accepting || s.stopped then throw .busy
  else if s.full then halt .assertFailed
  else if s.capacity = 0 then throw .busy
  else
    modify fun s => { s with ring := s.ring ++ [r] }
    let req ← request r
    modify (write r { req with status := .SUBMITTED })

def tryDequeue : Kernel BlockQueue ℕ := do
  let s ← get
  match s.ring with
  | [] => if s.stopped then throw .futureCancled else throw .entryNotFound
  | r :: rest =>
    modify fun s => { s with ring := rest }
    pure r

def markProcessing (r : ℕ) : Kernel BlockQueue Unit := do
  let req ← request r
  if req.status ≠ .SUBMITTED then throw .busy
  else modify (write r { req with status := .PROCESSING })

/-- The end of `complete` and `cancel`: the promise is resolved and `on_complete` frees the
request. -/
def finish (r : ℕ) (value : Result ℕ) (env : SetValueEnv) : Kernel BlockQueue Unit := do
  setValue r value env
  delete r

def complete (r : ℕ) (result : Result ℕ) (env : SetValueEnv) : Kernel BlockQueue Unit := do
  let req ← request r
  if req.status ≠ .PROCESSING then throw .busy
  else
    modify (write r { req with
      status := if result.isOk then .COMPLETED else .FAILED
      result := result })
    finish r result env

def cancel (r : ℕ) (error : ErrCode) (env : SetValueEnv) : Kernel BlockQueue Unit := do
  let req ← request r
  if req.status = .PROCESSING ∨ req.status = .COMPLETED ∨ req.status = .FAILED ∨
      req.status = .CANCELED then throw .busy
  else
    modify (write r { req with status := .CANCELED, result := .error error })
    finish r (.error error) env

/-! ## Threads -/

/-- `submit_async`, up to the wakeup. -/
def submitAsync : Kernel BlockQueue Unit := do
  let s ← get
  modify fun s =>
    { write s.next ⟨.PENDING, .error .futurePending, [], 0⟩ s with next := s.next + 1 }
  match ← attempt (push s.next) with
  | .error e => modify fun t => { t with failing := (s.next, e) :: t.failing }
  | .ok () => modify fun t => { t with waking := s.next :: t.waking }

/-- The wakeup of `submit`; an error goes back to `submit_async`. -/
def submitWake (r : ℕ) (wake : Result ℕ) : Kernel BlockQueue Unit := do
  modify fun s => { s with waking := s.waking.erase r }
  match wake with
  | .error e => modify fun s => { s with failing := (r, e) :: s.failing }
  | .ok _ => pure ()

/-- The end of `submit_async` after an error. -/
def submitFail (r : ℕ) (e : ErrCode) (env : SetValueEnv) : Kernel BlockQueue Unit := do
  modify fun s => { s with failing := s.failing.erase (r, e) }
  mustSucceed (setValue r (.error e) env)
  delete r

/-- The driver takes a request. -/
def dequeue : Kernel BlockQueue Unit := do
  let r ← tryDequeue
  modify fun s => { s with held := r :: s.held }

/-- The driver completes a request; after an error it still holds it. -/
def driverComplete (r : ℕ) (result : Result ℕ) (env : SetValueEnv) : Kernel BlockQueue Unit := do
  complete r result env
  modify fun s => { s with held := s.held.erase r }

/-- The driver cancels a request; after an error it still holds it. -/
def driverCancel (r : ℕ) (error : ErrCode) (env : SetValueEnv) : Kernel BlockQueue Unit := do
  cancel r error env
  modify fun s => { s with held := s.held.erase r }

/-- The beginning of `drain_and_stop`. -/
def drainAndStop : Kernel BlockQueue Unit :=
  modify fun s => { s with accepting := false, looping := s.looping + 1 }

/-- The head of the loop of `drain_and_stop`. -/
def drainLoop : Kernel BlockQueue Unit := do
  modify fun s => { s with looping := s.looping - 1 }
  match ← attempt tryDequeue with
  | .ok r => modify fun s => { s with holding := r :: s.holding }
  | .error e =>
    if e = .entryNotFound ∨ e = .futureCancled then
      modify fun s => { s with stopping := s.stopping + 1 }
    else throw e

/-- `drain_and_stop` cancels the request that it has dequeued; after an error it returns. -/
def drainCancel (r : ℕ) (error : ErrCode) (env : SetValueEnv) : Kernel BlockQueue Unit := do
  modify fun s => { s with holding := s.holding.erase r }
  cancel r error env
  modify fun s => { s with looping := s.looping + 1 }

/-- The end of `drain_and_stop`. -/
def drainStop (wake : Result ℕ) : Kernel BlockQueue Unit := do
  modify fun s => { s with stopped := true, stopping := s.stopping - 1 }
  let _ ← ofResult wake
  pure ()

/-- What a thread does next. -/
inductive Call where
  | submitAsync
  | submitWake (r : ℕ) (wake : Result ℕ)
  | submitFail (r : ℕ) (e : ErrCode) (env : SetValueEnv)
  | dequeue
  | markProcessing (r : ℕ)
  | complete (r : ℕ) (result : Result ℕ) (env : SetValueEnv)
  | cancel (r : ℕ) (error : ErrCode) (env : SetValueEnv)
  | drainAndStop
  | drainLoop
  | drainCancel (r : ℕ) (error : ErrCode) (env : SetValueEnv)
  | drainStop (wake : Result ℕ)

namespace Call

/-- The function. -/
def run : Call → Kernel BlockQueue Unit
  | submitAsync => BlockQueue.submitAsync
  | submitWake r wake => BlockQueue.submitWake r wake
  | submitFail r e env => BlockQueue.submitFail r e env
  | dequeue => BlockQueue.dequeue
  | markProcessing r => BlockQueue.markProcessing r
  | complete r result env => driverComplete r result env
  | cancel r error env => driverCancel r error env
  | drainAndStop => BlockQueue.drainAndStop
  | drainLoop => BlockQueue.drainLoop
  | drainCancel r error env => BlockQueue.drainCancel r error env
  | drainStop wake => BlockQueue.drainStop wake

/-- A thread is there. -/
def Enabled (s : BlockQueue) : Call → Prop
  | submitWake r _ => r ∈ s.waking
  | submitFail r e _ => (r, e) ∈ s.failing
  | drainLoop => 0 < s.looping
  | drainCancel r _ _ => r ∈ s.holding
  | drainStop _ => 0 < s.stopping
  | _ => True

end Call

/-- No error on the way of `set_value`. -/
def SetValueEnv.Ok (env : SetValueEnv) : Prop := env.begin = .ok () ∧ env.wake.isOk = true

/-- The ring does not overflow, wakeups of `submit` and promises report no error, and the driver
works on requests that it holds. -/
def Call.Allowed (s : BlockQueue) : Call → Prop
  | .submitAsync => s.accepting = true → s.stopped = false → s.full = false
  | .submitWake _ wake => wake.isOk = true
  | .submitFail _ _ env => SetValueEnv.Ok env
  | .markProcessing r => r ∈ s.held
  | .complete r _ env => r ∈ s.held ∧ SetValueEnv.Ok env
  | .cancel r _ env => r ∈ s.held ∧ SetValueEnv.Ok env
  | .drainCancel _ _ env => SetValueEnv.Ok env
  | _ => True

def Step (s s' : BlockQueue) : Prop := ∃ c r, Call.Enabled s c ∧ c.run s = .ok (r, s')

/-- One step that meets the condition. -/
def AllowedStep (s s' : BlockQueue) : Prop :=
  ∃ c r, Call.Enabled s c ∧ c.Allowed s ∧ c.run s = .ok (r, s')

/-! ## Ownership -/

/-- In how many places the request is: in the ring, with the driver, with a failing `submit_async`,
or with `drain_and_stop`. -/
def owners (s : BlockQueue) (r : ℕ) : ℕ :=
  s.ring.count r + s.held.count r + (s.failing.map Prod.fst).count r + s.holding.count r

/-- The request is pending and in one place, or it was resolved once and freed once and is in no
place. -/
def Accounted (s : BlockQueue) (r : ℕ) (req : BlockRequest) : Prop :=
  (s.owners r = 1 ∧ req.resolved = [] ∧ req.freed = 0) ∨
    (s.owners r = 0 ∧ req.resolved.length = 1 ∧ req.freed = 1)

/-- What every step keeps. -/
structure Inv (s : BlockQueue) : Prop where
  fresh : ∀ r, s.next ≤ r → s.reqs r = none
  unknown : ∀ r, s.reqs r = none → s.owners r = 0
  account : ∀ r req, s.reqs r = some req → s.Accounted r req
  queued : ∀ r req, s.reqs r = some req → r ∈ s.ring ∨ r ∈ s.holding → req.status = .SUBMITTED

section Steps

variable {s t : BlockQueue} {r : ℕ} {req : BlockRequest}

/-- A request that is in some place is pending. -/
theorem Inv.live (h : s.Inv) (hpos : 0 < s.owners r) : ∃ req, s.reqs r = some req ∧
    s.owners r = 1 ∧ req.resolved = [] ∧ req.freed = 0 := by
  cases hreq : s.reqs r with
  | none =>
    have := h.unknown r hreq
    omega
  | some req =>
    rcases h.account r req hreq with ⟨hone, hres, hfree⟩ | ⟨hzero, -⟩
    · exact ⟨req, rfl, hone, hres, hfree⟩
    · omega

theorem Inv.moved (h : s.Inv) (hreqs : t.reqs = s.reqs) (hnext : t.next = s.next)
    (howners : ∀ q, t.owners q = s.owners q)
    (hq : ∀ q, q ∈ t.ring ∨ q ∈ t.holding → q ∈ s.ring ∨ q ∈ s.holding) : t.Inv where
  fresh q hle := by
    rw [hreqs]
    exact h.fresh q (hnext ▸ hle)
  unknown q hnone := by
    rw [howners]
    exact h.unknown q (hreqs ▸ hnone)
  account q req hreq := by
    unfold Accounted
    rw [howners]
    exact h.account q req (hreqs ▸ hreq)
  queued q req hreq hmem := h.queued q req (hreqs ▸ hreq) (hq q hmem)

theorem Inv.lt_next (h : s.Inv) (hreq : s.reqs r = some req) : r < s.next := by
  by_contra hle
  rw [h.fresh r (by omega)] at hreq
  cases hreq

/-- One request is written, or made, and changes its place. -/
theorem Inv.written (h : s.Inv) (hreqs : t.reqs = update s.reqs r (some req))
    (hnext : s.next ≤ t.next) (hlt : r < t.next) (howners : ∀ q ≠ r, t.owners q = s.owners q)
    (hacc : t.Accounted r req)
    (hq : ∀ q ≠ r, q ∈ t.ring ∨ q ∈ t.holding → q ∈ s.ring ∨ q ∈ s.holding)
    (hr : r ∈ t.ring ∨ r ∈ t.holding → req.status = .SUBMITTED) : t.Inv := by
  refine ⟨fun q hle => ?_, fun q hnone => ?_, fun q req₁ hreq₁ => ?_, fun q req₁ hreq₁ hmem => ?_⟩
  · rw [hreqs, update_of_ne (by omega)]
    exact h.fresh q (by omega)
  · have hne : q ≠ r := by
      rintro rfl
      rw [hreqs, update_self] at hnone
      cases hnone
    rw [hreqs, update_of_ne hne] at hnone
    rw [howners q hne]
    exact h.unknown q hnone
  · rw [hreqs] at hreq₁
    rcases update_eq_cases hreq₁ with ⟨rfl, ⟨⟩⟩ | ⟨hne, hreq₁⟩
    · exact hacc
    · unfold Accounted
      rw [howners q hne]
      exact h.account q req₁ hreq₁
  · rw [hreqs] at hreq₁
    rcases update_eq_cases hreq₁ with ⟨rfl, ⟨⟩⟩ | ⟨hne, hreq₁⟩
    · exact hr hmem
    · exact h.queued q req₁ hreq₁ (hq q hne hmem)

theorem request_of (hreq : s.reqs r = some req) (hfree : req.freed = 0) :
    request r s = .ok (.ok req, s) := by
  unfold request
  rw [hreq]
  exact if_pos hfree

variable {env : SetValueEnv}

/-- **A promise that is pending is resolved.** -/
theorem setValue_of (hreq : s.reqs r = some req) (hfree : req.freed = 0) (hres : req.resolved = [])
    (henv : SetValueEnv.Ok env) (value : Result ℕ) :
    setValue r value env s = .ok (.ok (), write r { req with resolved := [value] } s) := by
  obtain ⟨begin, wake⟩ := env
  obtain ⟨hbegin, hwake⟩ := henv
  obtain rfl : begin = .ok () := hbegin
  unfold setValue
  rw [bind_of_ok (request_of hreq hfree), bind_of_ok (a := ()) (t := s) rfl,
    if_neg (by simp [hres]), modify_bind, hres]
  cases wake with
  | error e => cases hwake
  | ok n => rfl

theorem write_write (a b : BlockRequest) : write r b (write r a s) = write r b s := by
  unfold write
  simp only [update_idem]

theorem write_reqs_self (req : BlockRequest) : (write r req s).reqs r = some req :=
  update_self _ _ _

theorem delete_write (req : BlockRequest) (hfree : req.freed = 0) :
    delete r (write r req s) = .ok (.ok (), write r { req with freed := 1 } s) := by
  unfold delete
  rw [bind_of_ok (request_of (write_reqs_self req) hfree), hfree]
  show Except.ok (Except.ok (), write r _ (write r req s)) = _
  rw [write_write]

theorem finish_write (req : BlockRequest) (hfree : req.freed = 0) (hres : req.resolved = [])
    (henv : SetValueEnv.Ok env) (value : Result ℕ) : finish r value env (write r req s) =
      .ok (.ok (), write r { req with resolved := [value], freed := 1 } s) := by
  unfold finish
  rw [bind_of_ok (setValue_of (write_reqs_self req) hfree hres henv value), write_write]
  exact delete_write _ hfree

/-- **`complete`** refuses the request, or resolves and frees it. -/
theorem complete_of (hreq : s.reqs r = some req) (hfree : req.freed = 0) (hres : req.resolved = [])
    (henv : SetValueEnv.Ok env) (result : Result ℕ) :
    complete r result env s = .ok (.error .busy, s) ∨
      ∃ req', req'.resolved = [result] ∧ req'.freed = 1 ∧
        complete r result env s = .ok (.ok (), write r req' s) := by
  unfold complete
  rw [bind_of_ok (request_of hreq hfree)]
  by_cases hstatus : req.status ≠ .PROCESSING
  · rw [if_pos hstatus]
    exact .inl rfl
  · rw [if_neg hstatus]
    exact .inr ⟨_, rfl, rfl, finish_write
      { req with status := if result.isOk then .COMPLETED else .FAILED, result := result } hfree hres
      henv result⟩

/-- **`cancel`** refuses the request, or resolves and frees it. -/
theorem cancel_of (hreq : s.reqs r = some req) (hfree : req.freed = 0) (hres : req.resolved = [])
    (henv : SetValueEnv.Ok env) (error : ErrCode) :
    (req.status ≠ .SUBMITTED ∧ cancel r error env s = .ok (.error .busy, s)) ∨
      ∃ req', req'.resolved = [.error error] ∧ req'.freed = 1 ∧
        cancel r error env s = .ok (.ok (), write r req' s) := by
  unfold cancel
  rw [bind_of_ok (request_of hreq hfree)]
  by_cases hstatus : req.status = .PROCESSING ∨ req.status = .COMPLETED ∨ req.status = .FAILED ∨
      req.status = .CANCELED
  · rw [if_pos hstatus]
    refine .inl ⟨fun hsub => ?_, rfl⟩
    rw [hsub] at hstatus
    simp at hstatus
  · rw [if_neg hstatus]
    exact .inr ⟨_, rfl, rfl, finish_write
      { req with status := .CANCELED, result := .error error } hfree hres henv (.error error)⟩

/-! ## The steps keep the invariant -/

theorem Inv.finished (h : s.Inv) (hres : req.resolved.length = 1) (hfree : req.freed = 1)
    (hone : s.owners r = 1) (hreqs : t.reqs = update s.reqs r (some req)) (hnext : t.next = s.next)
    (howners : ∀ q, t.owners q + (if r = q then 1 else 0) = s.owners q)
    (hq : ∀ q, q ∈ t.ring ∨ q ∈ t.holding → q ∈ s.ring ∨ q ∈ s.holding) : t.Inv := by
  have hzero : t.owners r = 0 := by
    have := howners r
    rw [if_pos rfl] at this
    omega
  obtain ⟨req₀, hreq₀, -⟩ := h.live (r := r) (by omega)
  refine h.written hreqs hnext.ge (hnext ▸ h.lt_next hreq₀) (fun q hne => ?_)
    (.inr ⟨hzero, hres, hfree⟩) (fun q _ => hq q) ?_
  · have := howners q
    rwa [if_neg (Ne.symm hne)] at this
  · intro hmem
    unfold owners at hzero
    rcases hmem with hring | hhold
    · have := count_pos_iff.mpr hring
      omega
    · have := count_pos_iff.mpr hhold
      omega

theorem count_erase_add {l : List ℕ} (hr : r ∈ l) (q : ℕ) :
    (l.erase r).count q + (if r = q then 1 else 0) = l.count q := by
  rw [(perm_cons_erase hr).count_eq q, count_cons]
  simp only [beq_iff_eq]

theorem count_failing_erase {l : List (ℕ × ErrCode)} {e : ErrCode} (hr : (r, e) ∈ l) (q : ℕ) :
    ((l.erase (r, e)).map Prod.fst).count q + (if r = q then 1 else 0) =
      (l.map Prod.fst).count q := by
  rw [((perm_cons_erase hr).map Prod.fst).count_eq q, map_cons, count_cons]
  simp only [beq_iff_eq]

/-- The part of `submit` under the lock refuses the request, or pushes it. -/
theorem push_of (hreq : s.reqs r = some req) (hfree : req.freed = 0)
    (hfull : s.accepting = true → s.stopped = false → s.full = false) :
    (∃ e, push r s = .ok (.error e, s)) ∨ push r s = .ok (.ok (),
      write r { req with status := .SUBMITTED } { s with ring := s.ring ++ [r] }) := by
  unfold push
  rw [get_bind]
  split
  · exact .inl ⟨_, rfl⟩
  rename_i hopen
  simp only [Bool.or_eq_true, Bool.not_eq_true', not_or, Bool.not_eq_false, Bool.not_eq_true]
    at hopen
  rw [if_neg (by simp [hfull hopen.1 hopen.2])]
  split
  · exact .inl ⟨_, rfl⟩
  · rw [modify_bind, bind_of_ok (request_of (s := { s with ring := s.ring ++ [r] })
      hreq hfree)]
    exact .inr rfl

/-- **`submit_async`** makes a request; the ring or the thread owns it. -/
theorem Inv.submitAsync (h : s.Inv)
    (hal : s.accepting = true → s.stopped = false → s.full = false) :
    ∃ res t, BlockQueue.submitAsync s = .ok (res, t) ∧ t.Inv := by
  have hnone : s.owners s.next = 0 := h.unknown _ (h.fresh _ le_rfl)
  unfold BlockQueue.submitAsync
  rw [get_bind, modify_bind]
  rcases push_of (r := s.next) (s := { write s.next ⟨.PENDING, .error .futurePending, [], 0⟩ s with
    next := s.next + 1 }) (write_reqs_self _) rfl hal with ⟨e, hpush⟩ | hpush
  · rw [attempt_bind_of hpush]
    refine ⟨_, _, rfl, h.written (r := s.next) rfl (Nat.le_succ _) (Nat.lt_succ_self _)
      (fun q hne => ?_) (.inl ⟨?_, rfl, rfl⟩) (fun q _ hq => hq) (fun hq => ?_)⟩
    · simp only [owners, write, map_cons, count_cons_of_ne (Ne.symm hne)]
    · simp only [owners, write, map_cons, count_cons_self] at hnone ⊢
      omega
    · have hzero : s.owners s.next ≠ 0 := by
        unfold owners
        rcases hq with hring | hhold
        · have := count_pos_iff.mpr (show s.next ∈ s.ring from hring)
          omega
        · have := count_pos_iff.mpr (show s.next ∈ s.holding from hhold)
          omega
      exact absurd hnone hzero
  · rw [attempt_bind_of hpush]
    refine ⟨_, _, rfl, h.written (r := s.next) (update_idem _ _ _) (Nat.le_succ _)
      (Nat.lt_succ_self _) (fun q hne => ?_) (.inl ⟨?_, rfl, rfl⟩) (fun q hne hq => ?_)
      (fun _ => rfl)⟩
    · simp only [owners, write, count_append, count_singleton, beq_iff_eq,
        if_neg (Ne.symm hne), add_zero]
    · simp only [owners, write, count_append, count_singleton_self] at hnone ⊢
      omega
    · rcases hq with hring | hhold
      · rcases mem_append.mp hring with hring | hself
        · exact .inl hring
        · exact absurd (mem_singleton.mp hself) hne
      · exact .inr hhold

/-- A wakeup without an error changes nothing that matters. -/
theorem Inv.submitWake (h : s.Inv) {wake : Result ℕ} (hal : wake.isOk = true) :
    ∃ res t, BlockQueue.submitWake r wake s = .ok (res, t) ∧ t.Inv := by
  cases wake with
  | error e => cases hal
  | ok n => exact ⟨_, _, rfl, h.moved rfl rfl (fun _ => rfl) fun _ hq => hq⟩

theorem Inv.submitFail (h : s.Inv) {e : ErrCode} (hen : (r, e) ∈ s.failing)
    (hal : SetValueEnv.Ok env) :
    ∃ res t, BlockQueue.submitFail r e env s = .ok (res, t) ∧ t.Inv := by
  have hcount := count_failing_erase hen
  have hpos : 0 < s.owners r := by
    have := hcount r
    rw [if_pos rfl] at this
    unfold owners
    omega
  obtain ⟨req, hreq, hone, hres, hfree⟩ := h.live hpos
  have hset := mustSucceed_eq_ok.mpr ⟨(), rfl, setValue_of
    (s := { s with failing := s.failing.erase (r, e) }) hreq hfree hres hal (.error e)⟩
  unfold BlockQueue.submitFail
  rw [modify_bind, bind_of_ok hset]
  refine ⟨_, _, delete_write { req with resolved := [.error e] } hfree, ?_⟩
  refine h.finished rfl rfl hone rfl rfl (fun q => ?_) fun _ hq => hq
  have := hcount q
  simp only [owners, write]
  omega

/-- **`try_dequeue`** takes the first request. -/
theorem tryDequeue_of (s : BlockQueue) :
    (∃ e, (e = .entryNotFound ∨ e = .futureCancled) ∧ tryDequeue s = .ok (.error e, s)) ∨
      ∃ r rest, s.ring = r :: rest ∧ tryDequeue s = .ok (.ok r, { s with ring := rest }) := by
  unfold tryDequeue
  rw [get_bind]
  cases hring : s.ring with
  | nil =>
    split
    · exact .inl ⟨_, .inr rfl, rfl⟩
    · exact .inl ⟨_, .inl rfl, rfl⟩
  | cons r rest => exact .inr ⟨r, rest, rfl, rfl⟩

/-- The driver takes a request from the ring. -/
theorem Inv.dequeue (h : s.Inv) : ∃ res t, BlockQueue.dequeue s = .ok (res, t) ∧ t.Inv := by
  unfold BlockQueue.dequeue
  rcases tryDequeue_of s with ⟨e, -, hnone⟩ | ⟨r, rest, hring, htake⟩
  · exact ⟨_, _, bind_of_error hnone _, h⟩
  rw [bind_of_ok htake]
  refine ⟨_, _, rfl, h.moved rfl rfl (fun q => ?_) fun q hq => ?_⟩
  · simp only [owners, hring, count_cons]
    omega
  · rw [hring]
    exact hq.imp_left (mem_cons_of_mem r)

/-- A request of the driver is nowhere else. -/
theorem Inv.held_only (h : s.Inv) (hr : r ∈ s.held) : ¬(r ∈ s.ring ∨ r ∈ s.holding) := by
  have hheld := count_pos_iff.mpr hr
  have hpos : 0 < s.owners r := by
    unfold owners
    omega
  obtain ⟨req, -, hone, -⟩ := h.live hpos
  unfold owners at hone
  rintro (hring | hhold)
  · have := count_pos_iff.mpr hring
    omega
  · have := count_pos_iff.mpr hhold
    omega

theorem Inv.held_live (h : s.Inv) (hr : r ∈ s.held) : ∃ req, s.reqs r = some req ∧
    s.owners r = 1 ∧ req.resolved = [] ∧ req.freed = 0 := by
  refine h.live ?_
  have := count_pos_iff.mpr hr
  unfold owners
  omega

/-- `mark_processing` changes the status of a request of the driver. -/
theorem Inv.markProcessing (h : s.Inv) (hr : r ∈ s.held) :
    ∃ res t, BlockQueue.markProcessing r s = .ok (res, t) ∧ t.Inv := by
  obtain ⟨req, hreq, hone, hres, hfree⟩ := h.held_live hr
  unfold BlockQueue.markProcessing
  rw [bind_of_ok (request_of hreq hfree)]
  split
  · exact ⟨_, _, rfl, h⟩
  · refine ⟨_, _, rfl, h.written rfl le_rfl (h.lt_next hreq) (fun _ _ => rfl)
      (.inl ⟨hone, hres, hfree⟩) (fun _ _ hq => hq) fun hq => ?_⟩
    exact absurd hq (h.held_only hr)

theorem Inv.driver (h : s.Inv) (hr : r ∈ s.held) {x : Kernel BlockQueue Unit}
    (hx : (∃ e, x s = .ok (.error e, s)) ∨ ∃ req', req'.resolved.length = 1 ∧ req'.freed = 1 ∧
      x s = .ok (.ok (), write r req' s)) :
    ∃ res t, (do
      x
      modify fun s => { s with held := s.held.erase r } : Kernel BlockQueue Unit) s =
        .ok (res, t) ∧ t.Inv := by
  obtain ⟨req, hreq, hone, -⟩ := h.held_live hr
  rcases hx with ⟨e, hbusy⟩ | ⟨req', hres, hfree, hdone⟩
  · exact ⟨_, _, bind_of_error hbusy _, h⟩
  rw [bind_of_ok hdone]
  refine ⟨_, _, rfl, h.finished hres hfree hone rfl rfl (fun q => ?_) fun _ hq => hq⟩
  have := count_erase_add hr q
  simp only [owners, write]
  omega

theorem Inv.driverComplete (h : s.Inv) (hr : r ∈ s.held)
    (hal : SetValueEnv.Ok env) (result : Result ℕ) :
    ∃ res t, BlockQueue.driverComplete r result env s = .ok (res, t) ∧ t.Inv := by
  obtain ⟨req, hreq, -, hres, hfree⟩ := h.held_live hr
  refine h.driver hr ?_
  rcases complete_of hreq hfree hres hal result with hbusy | ⟨req', hres', hfree', hdone⟩
  · exact .inl ⟨_, hbusy⟩
  · exact .inr ⟨req', by rw [hres']; rfl, hfree', hdone⟩

theorem Inv.driverCancel (h : s.Inv) (hr : r ∈ s.held)
    (hal : SetValueEnv.Ok env) (error : ErrCode) :
    ∃ res t, BlockQueue.driverCancel r error env s = .ok (res, t) ∧ t.Inv := by
  obtain ⟨req, hreq, -, hres, hfree⟩ := h.held_live hr
  refine h.driver hr ?_
  rcases cancel_of hreq hfree hres hal error with ⟨-, hbusy⟩ | ⟨req', hres', hfree', hdone⟩
  · exact .inl ⟨_, hbusy⟩
  · exact .inr ⟨req', by rw [hres']; rfl, hfree', hdone⟩

/-- `drain_and_stop` takes a request from the ring, or leaves its loop. -/
theorem Inv.drainLoop (h : s.Inv) : ∃ res t, BlockQueue.drainLoop s = .ok (res, t) ∧ t.Inv := by
  unfold BlockQueue.drainLoop
  rw [modify_bind]
  rcases tryDequeue_of { s with looping := s.looping - 1 } with
    ⟨e, he, hnone⟩ | ⟨r, rest, hring, htake⟩
  · rw [attempt_bind_of hnone]
    simp only [if_pos he]
    exact ⟨_, _, rfl, h.moved rfl rfl (fun _ => rfl) fun _ hq => hq⟩
  rw [attempt_bind_of htake]
  have hring' : s.ring = r :: rest := hring
  refine ⟨_, _, rfl, h.moved rfl rfl (fun q => ?_) fun q hq => ?_⟩
  · simp only [owners, hring', count_cons]
    omega
  · rw [hring']
    rcases hq with hq | hq
    · exact .inl (mem_cons_of_mem r hq)
    · rcases mem_cons.mp hq with rfl | hq
      · exact .inl mem_cons_self
      · exact .inr hq

/-- `drain_and_stop` cancels a request that it has dequeued. -/
theorem Inv.drainCancel (h : s.Inv) (hr : r ∈ s.holding)
    (hal : SetValueEnv.Ok env) (error : ErrCode) :
    ∃ res t, BlockQueue.drainCancel r error env s = .ok (res, t) ∧ t.Inv := by
  have hpos : 0 < s.owners r := by
    have := count_pos_iff.mpr hr
    unfold owners
    omega
  obtain ⟨req, hreq, hone, hres, hfree⟩ := h.live hpos
  unfold BlockQueue.drainCancel
  rw [modify_bind]
  -- the request was submitted, so `cancel` does not refuse it
  rcases cancel_of (s := { s with holding := s.holding.erase r }) hreq hfree hres hal error with
    ⟨hstatus, -⟩ | ⟨req', hres', hfree', hdone⟩
  · exact absurd (h.queued r req hreq (.inr hr)) hstatus
  rw [bind_of_ok hdone]
  refine ⟨_, _, rfl, h.finished (by rw [hres']; rfl) hfree' hone rfl rfl (fun q => ?_)
    fun q hq => hq.imp_right mem_of_mem_erase⟩
  have := count_erase_add hr q
  simp only [owners, write]
  omega

/-- **A step that meets the condition returns, and keeps the invariant.** -/
theorem Inv.call (h : s.Inv) {c : Call} (hen : c.Enabled s) (hal : c.Allowed s) :
    ∃ res t, c.run s = .ok (res, t) ∧ t.Inv := by
  cases c with
  | submitAsync => exact h.submitAsync hal
  | submitWake r wake => exact h.submitWake hal
  | submitFail r e env => exact h.submitFail hen hal
  | dequeue => exact h.dequeue
  | markProcessing r => exact h.markProcessing hal
  | complete r result env => exact h.driverComplete hal.1 hal.2 result
  | cancel r error env => exact h.driverCancel hal.1 hal.2 error
  | drainAndStop => exact ⟨_, _, rfl, h.moved rfl rfl (fun _ => rfl) fun _ hq => hq⟩
  | drainLoop => exact h.drainLoop
  | drainCancel r error env => exact h.drainCancel hen hal error
  | drainStop wake =>
    cases wake with
    | error e => exact ⟨_, _, rfl, h.moved rfl rfl (fun _ => rfl) fun _ hq => hq⟩
    | ok n => exact ⟨_, _, rfl, h.moved rfl rfl (fun _ => rfl) fun _ hq => hq⟩

theorem inv_init (capacity : ℕ) : (init capacity).Inv := by
  refine ⟨fun _ _ => rfl, fun _ _ => rfl, fun r req hreq => ?_, fun r req hreq => ?_⟩
  · cases hreq
  · cases hreq

theorem AllowedStep.inv (h : s.Inv) (hstep : AllowedStep s t) : t.Inv := by
  obtain ⟨c, res, hen, hal, hrun⟩ := hstep
  obtain ⟨res', t', hrun', ht'⟩ := h.call hen hal
  obtain ⟨-, rfl⟩ := ok_inj (hrun.symm.trans hrun')
  exact ht'

end Steps

end BlockQueue

open BlockQueue in
/-- **Every request has one owner, or was resolved once and freed once**, in every state that is
reached by steps that meet the condition; and no such step stops the machine. -/
theorem block_requests_owned {capacity : ℕ} {s : BlockQueue}
    (hrun : ReflTransGen AllowedStep (init capacity) s) :
    (∀ r req, s.reqs r = some req → s.Accounted r req) ∧
      ∀ c : Call, c.Enabled s → c.Allowed s → ∃ res t, c.run s = .ok (res, t) := by
  have h : s.Inv := Transition.invariant (fun _ _ => AllowedStep.inv) hrun (inv_init capacity)
  refine ⟨h.account, fun c hen hal => ?_⟩
  obtain ⟨res, t, hcall, -⟩ := h.call hen hal
  exact ⟨res, t, hcall⟩

namespace BlockQueue

def Call.after (c : Call) (s : BlockQueue) : BlockQueue :=
  (Except.valueOr (.ok (), s) (c.run s)).2

theorem Call.step {c : Call} {s : BlockQueue} (hen : c.Enabled s) (hok : (c.run s).isOk = true) :
    Step s (c.after s) := ⟨c, _, hen, Except.eq_ok_valueOr hok⟩

theorem Call.allowedStep {c : Call} {s : BlockQueue} (hen : c.Enabled s) (hal : c.Allowed s)
    (hok : (c.run s).isOk = true) : AllowedStep s (c.after s) :=
  ⟨c, _, hen, hal, Except.eq_ok_valueOr hok⟩

/-- Nothing goes wrong in `set_value`. -/
def quiet : SetValueEnv := ⟨.ok (), .ok 0⟩

/-- A queue with one free slot, and a request in the ring whose submitter has still to wake the
driver. -/
def oneRequest : BlockQueue := Call.submitAsync.after (init 2)

def oneDequeued : BlockQueue := Call.dequeue.after ((Call.submitWake 0 (.ok 1)).after oneRequest)

/-- The request has been completed. -/
def oneCompleted : BlockQueue :=
  (Call.complete 0 (.ok 8) quiet).after ((Call.markProcessing 0).after oneDequeued)

/-- The wakeup after the push has failed, and the submitter has freed the request. -/
def oneFreed : BlockQueue :=
  (Call.submitFail 0 .failure quiet).after ((Call.submitWake 0 (.error .failure)).after oneRequest)

end BlockQueue

open BlockQueue in
/-- A request that is submitted, dequeued, processed and completed. -/
theorem block_requests_owned_completed : ∃ req, oneCompleted.reqs 0 = some req ∧
    req.resolved = [.ok 8] ∧ oneCompleted.Accounted 0 req := by
  have hsubmit : AllowedStep (init 2) oneRequest :=
    Call.allowedStep trivial (fun _ _ => rfl) (by decide)
  have hwake := Call.allowedStep (c := .submitWake 0 (.ok 1)) (s := oneRequest)
    (by show 0 ∈ oneRequest.waking; decide) rfl (by decide)
  have htake : AllowedStep _ oneDequeued := Call.allowedStep trivial trivial (by decide)
  have hmark := Call.allowedStep (c := .markProcessing 0) (s := oneDequeued) trivial
    (by show 0 ∈ oneDequeued.held; decide) (by decide)
  have hdone : AllowedStep _ oneCompleted :=
    Call.allowedStep trivial ⟨by decide, rfl, rfl⟩ (by decide)
  have hrun := ((((ReflTransGen.single hsubmit).tail hwake).tail htake).tail hmark).tail hdone
  exact ⟨_, rfl, rfl, (block_requests_owned hrun).1 0 _ rfl⟩

open BlockQueue in
/-- **A request is freed while it is in the ring**, and a full ring fails an assertion. -/
theorem block_request_freed_in_ring :
    (∃ s req, ReflTransGen Step (init 2) s ∧ s.reqs 0 = some req ∧ req.freed = 1 ∧ 0 ∈ s.ring) ∧
      ∃ s, ReflTransGen Step (init 2) s ∧ Call.submitAsync.run s = .error .assertFailed := by
  have hsubmit : Step (init 2) oneRequest := Call.step trivial (by decide)
  have hwake := Call.step (c := .submitWake 0 (.error .failure)) (s := oneRequest)
    (by show 0 ∈ oneRequest.waking; decide) (by decide)
  have hfail : Step _ oneFreed := Call.step (by show _ ∈ BlockQueue.failing _; decide) (by decide)
  refine ⟨⟨oneFreed, _, ((ReflTransGen.single hsubmit).tail hwake).tail hfail, rfl, rfl, ?_⟩,
    ⟨oneRequest, .single hsubmit, ?_⟩⟩
  · decide
  · exact eq_error_of_stopped (by decide)

end Sustcore
