/-
# Endpoints and futures (`kernel/object/endpoint.cpp`, `kernel/task/wait.h`)

A send and a receive on an endpoint both return a future.  A send hands its message to the
first pending receive, by completing the promise of that receive, or queues it; a receive
takes the first queued message, or becomes pending.  A thread waits for a future in the wait
queue of the descriptor that belongs to it, with a predicate that asks whether the future is
readable.

The asynchronous states, the messages and the pending calls are named by numbers in the order
in which they are made.  A pending call is named like its promise.
-/
import Sustcore.Delivery
import Sustcore.ThreadDeaths

namespace Sustcore

open Function

/-! ## Futures -/

inductive FutureState where
  | pending
  | complete
  | error
  | cancled
  | consumed
  deriving DecidableEq, Repr

/-- `AsyncState`; `value` is the message of a `Promise<EndpointMessage *>`, and `callback` says
that `cancel_callback` is set. -/
structure AsyncState where
  state : FutureState
  waitWd : ℕ
  value : Option ℕ
  callback : Bool
  deriving DecidableEq, Repr

def AsyncState.readable (a : AsyncState) : Bool := a.state != .pending

/-- The threads, the states of the two kinds of promises, and the messages. -/
structure Ipc where
  sched : Sched
  nextWd : ℕ
  sends : ℕ → AsyncState
  nextSend : ℕ
  recvs : ℕ → AsyncState
  nextRecv : ℕ
  heap : ℕ → Option EndpointMessage
  nextMsg : ℕ

namespace Ipc

/-- The predicate of a thread that waits for a receive, as a number. -/
def recvPredicate (p : ℕ) : ℕ := 2 * p

/-- The predicate of a thread that waits for a send, as a number. -/
def sendPredicate (q : ℕ) : ℕ := 2 * q + 1

/-- The values of the predicates. -/
def holds (s : Ipc) (n : ℕ) : Bool :=
  if n % 2 = 0 then (s.recvs (n / 2)).readable else (s.sends (n / 2)).readable

/-- `wake_all`, without the number of threads that it returns. -/
def wake (wd : ℕ) (s : Ipc) : Result Unit × Ipc :=
  match s.sched.wakeAll s.holds wd with
  | (.error e, sched) => (.error e, { s with sched := sched })
  | (.ok _, sched) => (.ok (), { s with sched := sched })

/-- `new EndpointMessage()`. -/
def newMessage (msg : EndpointMessage) (s : Ipc) : ℕ × Ipc :=
  (s.nextMsg, { s with heap := update s.heap s.nextMsg (some msg)
                       nextMsg := s.nextMsg + 1 })

/-- A `Promise<void>`, with the callback of a pending send. -/
def newSend (s : Ipc) : ℕ × Ipc :=
  (s.nextSend, { s with sends := update s.sends s.nextSend ⟨.pending, s.nextWd, none, true⟩
                        nextSend := s.nextSend + 1
                        nextWd := s.nextWd + 1 })

/-- A `Promise<EndpointMessage *>`. -/
def newRecv (s : Ipc) : ℕ × Ipc :=
  (s.nextRecv, { s with
    recvs := update s.recvs s.nextRecv ⟨.pending, s.nextWd, none, false⟩
    nextRecv := s.nextRecv + 1
    nextWd := s.nextWd + 1 })

def setSend (q : ℕ) (f : AsyncState → AsyncState) (s : Ipc) : Ipc :=
  { s with sends := update s.sends q (f (s.sends q)) }

/-- Change the state of a receive. -/
def setRecv (p : ℕ) (f : AsyncState → AsyncState) (s : Ipc) : Ipc :=
  { s with recvs := update s.recvs p (f (s.recvs p)) }

/-- `Promise<EndpointMessage *>::set_value`. -/
def setRecvValue (p m : ℕ) (s : Ipc) : Result Unit × Ipc :=
  if (s.recvs p).state != .pending then (.error .busy, s)
  else (s.setRecv p fun a => { a with value := some m, state := .complete }).wake (s.recvs p).waitWd

/-- `Promise<void>::set_value`. -/
def setSendValue (q : ℕ) (s : Ipc) : Result Unit × Ipc :=
  if (s.sends q).state != .pending then (.error .busy, s)
  else (s.setSend q fun a => { a with state := .complete }).wake (s.sends q).waitWd

/-- `Future<EndpointMessage *>::value`. -/
def recvValue (p : ℕ) (s : Ipc) : Result ℕ × Ipc :=
  match (s.recvs p).state with
  | .pending => (.error .futurePending, s)
  | .error => (.error .futureError, s)
  | .cancled => (.error .futureCancled, s)
  | .consumed => (.error .futureConsumed, s)
  | .complete =>
    match (s.recvs p).value with
    | none => (.error .futureError, s)
    | some m => (.ok m, s.setRecv p fun a => { a with value := none, state := .consumed })

/-- `Future<void>::value`. -/
def sendValue (q : ℕ) (s : Ipc) : Result Unit × Ipc :=
  match (s.sends q).state with
  | .pending => (.error .futurePending, s)
  | .error => (.error .futureError, s)
  | .cancled => (.error .futureCancled, s)
  | .consumed => (.error .futureConsumed, s)
  | .complete => (.ok (), s.setSend q fun a => { a with state := .consumed })

def checkFutureWaitThread (s : Ipc) : Result Unit :=
  match s.sched.current with
  | none => .error .invalidParam
  | some cur => if (s.sched.tcb cur).schdClass = .idle then .error .invalidParam else .ok ()

/-- A round of `wait_for`: the running thread takes the value, with `value`, or blocks; then
the result is `none` and it goes on with another round. -/
def waitFor {α : Type} (a : AsyncState) (predicate : ℕ) (value : Ipc → Result α × Ipc) :
    Kernel Ipc (Option α) := fun s =>
  match s.checkFutureWaitThread with
  | .error e => .ok (.error e, s)
  | .ok () =>
    if a.readable then .ok ((value s).1.map some, (value s).2)
    else do
      let (r, sched) ← Sched.blockCurrent a.waitWd (some predicate) s.sched
      pure (r.map fun _ => none, { s with sched := sched })

/-- `wait_for` of a receive. -/
def waitForRecv (p : ℕ) : Kernel Ipc (Option ℕ) := fun s =>
  s.waitFor (s.recvs p) (recvPredicate p) (recvValue p)

/-- `wait_for` of a send. -/
def waitForSend (q : ℕ) : Kernel Ipc (Option Unit) := fun s =>
  s.waitFor (s.sends q) (sendPredicate q) (sendValue q)

end Ipc

/-! ## Messages -/

/-- `EndpointMsgView`; `none` is a null pointer. -/
structure EndpointMsgView where
  msgbuf : Option (List UInt8)
  msgsz : ℕ
  capidxs : Option (List CapIdx)
  capsz : ℕ
  deriving DecidableEq

def checkMsgValid (view : EndpointMsgView) : Result Unit :=
  if MAX_MSG_SIZE < view.msgsz ∨ MAX_MSG_CAPS < view.capsz then .error .outOfBoundary
  else if view.msgsz ≠ 0 ∧ view.msgbuf = none then .error .nullptr
  else if view.capsz ≠ 0 ∧ view.capidxs = none then .error .nullptr
  else .ok ()

/-- `build_endpoint_message`, of a view that has passed `check_msg_valid`. -/
def buildEndpointMessage (senderPid : ℕ) (view : EndpointMsgView)
    (hmsgsz : view.msgsz ≤ MAX_MSG_SIZE) (hcapsz : view.capsz ≤ MAX_MSG_CAPS) :
    EndpointMessage where
  senderPid := senderPid
  msgbuf := (view.msgbuf.getD []).take view.msgsz
  capidxs := (view.capidxs.getD []).take view.capsz
  msgsz_le := (List.length_take_le _ _).trans hmsgsz
  capsz_le := (List.length_take_le _ _).trans hcapsz

section Valid

variable {view : EndpointMsgView} (h : checkMsgValid view = .ok ())

include h

theorem sizes_le_of_valid : view.msgsz ≤ MAX_MSG_SIZE ∧ view.capsz ≤ MAX_MSG_CAPS := by
  unfold checkMsgValid at h
  split at h
  · cases h
  · omega

theorem msgsz_le_of_valid : view.msgsz ≤ MAX_MSG_SIZE := (sizes_le_of_valid h).1

theorem capsz_le_of_valid : view.capsz ≤ MAX_MSG_CAPS := (sizes_le_of_valid h).2

end Valid

/-! ## Endpoints -/

structure PendingEndpointSend where
  promise : ℕ
  message : ℕ
  deriving DecidableEq, Repr

structure EndpointPayload where
  messages : NodeList ℕ
  pendingSends : List PendingEndpointSend
  pendingRecvs : NodeList ℕ

/-- An endpoint and what it works on. -/
structure EndpointState where
  ipc : Ipc
  payload : EndpointPayload

namespace EndpointState

def GRANT : Perm := 0x010000
def READ : Perm := 0x020000
def WRITE : Perm := 0x040000

def findPendingSend (s : EndpointState) (m : ℕ) : Option PendingEndpointSend :=
  s.payload.pendingSends.find? fun pending => pending.message == m

def removePendingSend (q : ℕ) (s : EndpointState) : EndpointState :=
  { s with payload := { s.payload with
    pendingSends := s.payload.pendingSends.filter fun pending => pending.promise != q } }

/-- The promise of a pending send is completed; an error is only logged. -/
def completeSend (q : ℕ) (s : EndpointState) : EndpointState :=
  { s with ipc := (s.ipc.setSendValue q).2 }

/-- The second half of `send`: the message `m` of the pending send `q` goes to the first
pending receive or into the queue. -/
def dispatchSend (q m : ℕ) (s : EndpointState) : Result ℕ × EndpointState :=
  match s.payload.pendingRecvs.nodes with
  | [] =>
    (.ok q, { s with payload := { s.payload with messages := s.payload.messages.pushBack m } })
  | p :: _ =>
    let s := { s with payload := { s.payload with
      pendingRecvs := s.payload.pendingRecvs.popFront } }
    match s.ipc.setRecvValue p m with
    | (.error e, ipc) =>
      (.error e, { s with ipc := ipc, payload := { s.payload with
        pendingRecvs := s.payload.pendingRecvs.pushBack p } })
    | (.ok (), ipc) => (.ok q, (({ s with ipc := ipc }).completeSend q).removePendingSend q)

/-- The message of a send, its promise and the pending send are made. -/
def beginSend (msg : EndpointMessage) (s : EndpointState) : EndpointState :=
  let (m, ipc) := s.ipc.newMessage msg
  let (q, ipc) := ipc.newSend
  { s with ipc := ipc, payload := { s.payload with
    pendingSends := s.payload.pendingSends ++ [⟨q, m⟩] } }

/-- `EndpointObject::send` through a capability with the permissions `perm`; the result names
the future. -/
def send (perm : Perm) (senderPid : ℕ) (view : EndpointMsgView) (s : EndpointState) :
    Result ℕ × EndpointState :=
  match hvalid : checkMsgValid view with
  | .error e => (.error e, s)
  | .ok () =>
    if !perm.imply WRITE then (.error .insufficientPermissions, s)
    else if view.capsz != 0 && !perm.imply GRANT then (.error .insufficientPermissions, s)
    else
      let msg := buildEndpointMessage senderPid view (msgsz_le_of_valid hvalid)
        (capsz_le_of_valid hvalid)
      (s.beginSend msg).dispatchSend s.ipc.nextSend s.ipc.nextMsg

/-- The send of a message that a receive has taken is completed. -/
def completeSendOf (m : ℕ) (s : EndpointState) : EndpointState :=
  match s.findPendingSend m with
  | none => s
  | some pending => (s.removePendingSend pending.promise).completeSend pending.promise

/-- `EndpointObject::recv`. -/
def recv (perm : Perm) (s : EndpointState) : Result ℕ × EndpointState :=
  if !perm.imply READ then (.error .insufficientPermissions, s)
  else
    let (p, ipc) := s.ipc.newRecv
    let s := { s with ipc := ipc }
    match s.payload.messages.nodes with
    | m :: _ =>
      let s := { s with payload := { s.payload with messages := s.payload.messages.popFront } }
      let s := s.completeSendOf m
      match s.ipc.setRecvValue p m with
      | (.error e, ipc) => (.error e, { s with ipc := ipc })
      | (.ok (), ipc) => (.ok p, { s with ipc := ipc })
    | [] =>
      (.ok p, { s with
        ipc := s.ipc.setRecv p fun a => { a with callback := true }
        payload := { s.payload with pendingRecvs := s.payload.pendingRecvs.pushBack p } })

/-- `Future<T>::cancle` of a future that is not pending. -/
def cancleError : FutureState → ErrCode
  | .cancled => .futureCancled
  | .consumed => .futureConsumed
  | _ => .futureError

/-- `Future<EndpointMessage *>::cancle`; the callback takes the pending receive out of its
list. -/
def cancleRecv (p : ℕ) (s : EndpointState) : Result Unit × EndpointState :=
  let a := s.ipc.recvs p
  if a.state != .pending then (.error (cancleError a.state), s)
  else
    let s := if a.callback then
        { s with payload := { s.payload with pendingRecvs := s.payload.pendingRecvs.remove p } }
      else s
    let (r, ipc) := (s.ipc.setRecv p fun a => { a with state := .cancled }).wake a.waitWd
    (r, { s with ipc := ipc })

/-- The callback of a pending send: the message is withdrawn, if the send is still pending. -/
def withdraw (q : ℕ) (s : EndpointState) : EndpointState :=
  match s.payload.pendingSends.find? fun pending => pending.promise == q with
  | none => s
  | some pending =>
    { s with payload := { s.payload with
      messages := s.payload.messages.remove pending.message
      pendingSends := s.payload.pendingSends.filter fun pending => pending.promise != q } }

/-- `Future<void>::cancle`. -/
def cancleSend (q : ℕ) (s : EndpointState) : Result Unit × EndpointState :=
  let a := s.ipc.sends q
  if a.state != .pending then (.error (cancleError a.state), s)
  else
    let s := if a.callback then s.withdraw q else s
    let (r, ipc) := (s.ipc.setSend q fun a => { a with state := .cancled }).wake a.waitWd
    (r, { s with ipc := ipc })

end EndpointState

end Sustcore
