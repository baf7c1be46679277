/-
# The system calls of endpoints (`kernel/syscall/endpoint.cpp`)

The receiving system calls take a message from an endpoint, insert its capabilities into the
holder of the caller and copy it to the user.  `endpoint_call` makes a pair of reply
capabilities, sends the second one along with the message and waits for the reply.

A system call that waits is cut into the parts between its waits: each part runs up to the
next `wait_for`, and a round of `wait_for` that blocks returns `none`.  The memory of the user
is not modelled; `commit` is the result of `commit_to_user` for what was written.
-/
import Sustcore.EndpointInvariant
import Sustcore.PayloadLifetime

namespace Sustcore

open Function Kernel List

/-! ## State -/

structure ReplyPayload where
  message : Option ℕ
  pendingRecvs : NodeList ℕ

/-- The capabilities, the threads with their futures and messages, and the endpoints and
replies by the addresses of their payloads. -/
structure CallState (F : Type) where
  caps : CapState (World F)
  ipc : Ipc
  endpoints : ℕ → EndpointPayload
  replies : ℕ → ReplyPayload

/-- What a system call uses of the process of a thread. -/
structure Caller where
  pid : ℕ
  holder : Option ℕ
  deriving DecidableEq

structure MsgPacket where
  msgbuf : Fin MAX_MSG_SIZE → UInt8
  msgsz : ℕ
  caplist : Fin MAX_MSG_CAPS → CapIdx
  capsz : ℕ

def msgView (msg : MsgPacket) : Result EndpointMsgView :=
  if MAX_MSG_SIZE < msg.msgsz ∨ MAX_MSG_CAPS < msg.capsz then .error .outOfBoundary
  else .ok ⟨some (ofFn msg.msgbuf), msg.msgsz, some (ofFn msg.caplist), msg.capsz⟩

/-- The packet after the two `memcpy` of `write_received_msg`. -/
def MsgPacket.write (packetOut : MsgPacket) (msg : EndpointMessage) (outCaps : List CapIdx) :
    MsgPacket where
  msgbuf i := msg.msgbuf.getD i (packetOut.msgbuf i)
  msgsz := msg.msgbuf.length
  caplist i := if i < msg.capidxs.length then outCaps.getD i 0 else packetOut.caplist i
  capsz := msg.capidxs.length

section Calls

variable {F : Type} (A : FrameAllocator F)

def onCaps {α : Type} (x : Kernel (CapState (World F)) α) : Kernel (CallState F) α := fun s => do
  let (res, caps) ← x s.caps
  pure (res, { s with caps := caps })

/-- A function of the threads and futures. -/
def onIpc {α : Type} (x : Kernel Ipc α) : Kernel (CallState F) α := fun s => do
  let (res, ipc) ← x s.ipc
  pure (res, { s with ipc := ipc })

/-- A function of an `EndpointObject`. -/
def onEndpoint {α : Type} (e : ℕ) (f : EndpointState → Result α × EndpointState) :
    Kernel (CallState F) α := fun s =>
  let (res, t) := f ⟨s.ipc, s.endpoints e⟩
  .ok (res, { s with ipc := t.ipc, endpoints := update s.endpoints e t.payload })

/-! ## The caller -/

/-- `running_tcb`; `taskOf` gives the process of a thread. -/
def runningTcb (taskOf : ℕ → Option Caller) : Kernel (CallState F) Caller := fun s =>
  match s.ipc.sched.current.bind taskOf with
  | none => .ok (.error .invalidParam, s)
  | some caller => .ok (.ok caller, s)

def currentHolder (caller : Caller) : Kernel (CallState F) ℕ :=
  match caller.holder with
  | none => throw .invalidParam
  | some holder => pure holder

/-- `endpoint_object` and `reply_object`: the capability of a payload of one type. -/
def typedObject (type : PayloadType) (taskOf : ℕ → Option Caller) (capidx : CapIdx) :
    Kernel (CallState F) Capability := do
  let caller ← runningTcb taskOf
  let holder ← currentHolder caller
  let cap ← onCaps (CHolder.lookup holder capidx)
  let s ← get
  if s.caps.heap.objects cap.payload ≠ some type then throw .typeNotMatched
  else pure cap

def endpointObject (taskOf : ℕ → Option Caller) (capidx : CapIdx) :
    Kernel (CallState F) Capability := typedObject .endpoint taskOf capidx

def replyObject (taskOf : ℕ → Option Caller) (capidx : CapIdx) :
    Kernel (CallState F) Capability := typedObject .reply taskOf capidx

/-! ## Receiving -/

/-- `write_received_msg`, into a packet with the sizes that the user gave; `holderOf` finds the
holder of a process. -/
def writeReceivedMsg (holderOf : ℕ → Result ℕ) (holder : ℕ) (msg : EndpointMessage)
    (packet : MsgPacket) : Kernel (CallState F) MsgPacket :=
  if packet.msgsz < msg.msgbuf.length ∨ packet.capsz < msg.capidxs.length then
    throw .outOfBoundary
  else if msg.capidxs = [] then pure (packet.write msg [])
  else do
    let outCaps ← onCaps (insertReceivedCaps (World.payloads A) holderOf (some holder) msg)
    pure (packet.write msg outCaps)

/-- `delete msg`. -/
def deleteMessage (m : ℕ) (s : CallState F) : CallState F :=
  { s with ipc := { s.ipc with heap := update s.ipc.heap m none } }

/-- The end of a receive, with the message in hand: it is written to the user, and `msg_guard`
deletes it. -/
def takeMessage (holderOf : ℕ → Result ℕ) (commit : MsgPacket → Result Unit) (holder m : ℕ)
    (packet : MsgPacket) : Kernel (CallState F) Unit := do
  let s ← get
  match s.ipc.heap m with
  | none => halt .undefined
  | some msg => do
      let writeRes ← attempt (writeReceivedMsg A holderOf holder msg packet)
      modify (deleteMessage m)
      let packetOut ← ofResult writeRes
      ofResult (commit packetOut)

def endpointRecvAsync (taskOf : ℕ → Option Caller) (holderOf : ℕ → Result ℕ)
    (commit : MsgPacket → Result Unit) (endpoint : CapIdx) (packet : MsgPacket) :
    Kernel (CallState F) Bool := do
  let caller ← runningTcb taskOf
  let holder ← currentHolder caller
  let cap ← endpointObject taskOf endpoint
  let p ← onEndpoint cap.payload (EndpointState.recv cap.perm)
  let s ← get
  if !(s.ipc.recvs p).readable then do
    onEndpoint cap.payload (EndpointState.cancleRecv p)
    pure false
  else do
    let m ← onIpc fun ipc => .ok (ipc.recvValue p)
    takeMessage A holderOf commit holder m packet
    pure true

/-- `endpoint_recv_sync` up to its wait; the result is the holder and the future. -/
def endpointRecvSync (taskOf : ℕ → Option Caller) (endpoint : CapIdx) :
    Kernel (CallState F) (ℕ × ℕ) := do
  let caller ← runningTcb taskOf
  let holder ← currentHolder caller
  let cap ← endpointObject taskOf endpoint
  let p ← onEndpoint cap.payload (EndpointState.recv cap.perm)
  pure (holder, p)

/-- A round of the wait for a message, and the end of the call when there is one. -/
def recvRound (holderOf : ℕ → Result ℕ) (commit : MsgPacket → Result Unit) (holder p : ℕ)
    (packet : MsgPacket) : Kernel (CallState F) (Option Unit) := do
  let res ← onIpc (Ipc.waitForRecv p)
  match res with
  | none => pure none
  | some m => do
      takeMessage A holderOf commit holder m packet
      pure (some ())

/-! ## Calls -/

def CALLER : Perm := 0x010000
def REPLIER : Perm := 0x020000

structure ReplySlots where
  caller : CapIdx
  replier : CapIdx
  deriving DecidableEq

/-- `new ReplyPayload()`. -/
def newReply (s : CallState F) : ℕ × CallState F :=
  (s.caps.heap.next, { s with
    caps := { s.caps with heap := s.caps.heap.newObject .reply }
    replies := update s.replies s.caps.heap.next ⟨none, NodeList.empty⟩ })

/-- `delete` of a payload that no capability refers to. -/
def deleteReply (payload : ℕ) (s : CallState F) : CallState F :=
  { s with caps := { s.caps with heap := { s.caps.heap with
    objects := update s.caps.heap.objects payload none } } }

def createReplySlots (holder : ℕ) : Kernel (CallState F) ReplySlots := do
  let s ← get
  let (payload, s) := newReply s
  modify fun _ => s
  let callerRes ← attempt
    (onCaps (CHolder.insertToFree (World.payloads A) holder (some payload) CALLER))
  match callerRes with
  | .error e => do
      -- `reply_guard`
      modify (deleteReply payload)
      throw e
  | .ok caller => do
      let replier ← onCaps (CHolder.insertToFree (World.payloads A) holder (some payload)
        (REPLIER ||| Perm.MIGRATE_ONCE))
      pure ⟨caller, replier⟩

/-- `replier_guard` and `caller_guard`. -/
def removeSlots (holder : ℕ) (slots : ReplySlots) : Kernel (CallState F) Unit := do
  mustSucceed (onCaps (CHolder.remove (World.payloads A) holder slots.replier))
  mustSucceed (onCaps (CHolder.remove (World.payloads A) holder slots.caller))

/-- The code under the two guards: an error removes the reply capabilities. -/
def guarded {α : Type} (holder : ℕ) (slots : ReplySlots) (x : Kernel (CallState F) α) :
    Kernel (CallState F) α := do
  let res ← attempt x
  match res with
  | .error e => do
      removeSlots A holder slots
      throw e
  | .ok a => pure a

/-- `call_capidxs`: the capabilities of the packet, and the replier capability behind them. -/
def callCapidxs (packet : MsgPacket) (replier : CapIdx) :
    Except Halt (Fin MAX_MSG_CAPS → CapIdx) :=
  if h : packet.capsz < MAX_MSG_CAPS then
    .ok (update (fun i => if i < packet.capsz then packet.caplist i else 0)
      ⟨packet.capsz, h⟩ replier)
  else .error .undefined

/-- What `endpoint_call` keeps while it waits. -/
structure PendingCall where
  holder : ℕ
  slots : ReplySlots
  callerCap : Capability
  future : ℕ
  deriving DecidableEq

/-- `endpoint_call` under its guards, up to the wait for the send. -/
def sendCall (caller : Caller) (holder : ℕ) (cap : Capability) (slots : ReplySlots)
    (packet : MsgPacket) : Kernel (CallState F) PendingCall := do
  match callCapidxs packet slots.replier with
  | .error h => halt h
  | .ok capidxs => do
      let callerCap ← onCaps (CHolder.lookup holder slots.caller)
      let q ← onEndpoint cap.payload (EndpointState.send cap.perm caller.pid
        ⟨some (ofFn packet.msgbuf), packet.msgsz, some (ofFn capidxs), packet.capsz + 1⟩)
      pure ⟨holder, slots, callerCap, q⟩

/-- `endpoint_call` up to the wait for the send. -/
def endpointCall (taskOf : ℕ → Option Caller) (endpoint : CapIdx) (sendPacket : MsgPacket) :
    Kernel (CallState F) PendingCall := do
  let _ ← ofResult (msgView sendPacket)
  let caller ← runningTcb taskOf
  let holder ← currentHolder caller
  let cap ← endpointObject taskOf endpoint
  let slots ← createReplySlots A holder
  guarded A holder slots (sendCall caller holder cap slots sendPacket)

/-- A round of the wait for the send; when the message was received, the guards are
released. -/
def callSendRound (call : PendingCall) : Kernel (CallState F) (Option Unit) :=
  guarded A call.holder call.slots (onIpc (Ipc.waitForSend call.future))

/-- `ReplyObject::recv`. -/
def replyRecv (cap : Capability) : Kernel (CallState F) ℕ := fun s =>
  if !cap.perm.imply CALLER then throw .insufficientPermissions s
  else
    let (p, ipc) := s.ipc.newRecv
    let reply := s.replies cap.payload
    match reply.message with
    | some m =>
      let (res, ipc) := ipc.setRecvValue p m
      .ok (res.map fun _ => p, { s with
        ipc := ipc
        replies := update s.replies cap.payload { reply with message := none } })
    | none =>
      .ok (.ok p, { s with
        ipc := ipc.setRecv p fun a => { a with callback := true }
        replies := update s.replies cap.payload
          { reply with pendingRecvs := reply.pendingRecvs.pushBack p } })

/-! ## Replies -/

/-- The message of a reply goes to the pending receive or into the payload. -/
def dispatchReply (payload : ℕ) (msg : EndpointMessage) : Kernel (CallState F) Bool := fun s =>
  let reply := s.replies payload
  if reply.message.isSome then .ok (.ok false, s)
  else
    let (m, ipc) := s.ipc.newMessage msg
    match reply.pendingRecvs.nodes with
    | [] =>
      .ok (.ok true, { s with
        ipc := ipc
        replies := update s.replies payload { reply with message := some m } })
    | p :: _ =>
      let s := { s with
        ipc := ipc
        replies := update s.replies payload
          { reply with pendingRecvs := reply.pendingRecvs.popFront } }
      match s.ipc.setRecvValue p m with
      | (.error e, ipc) => .ok (.error e, deleteMessage m { s with ipc := ipc })
      | (.ok (), ipc) => .ok (.ok true, { s with ipc := ipc })

/-- `ReplyObject::send_reply`. -/
def sendReply (cap : Capability) (senderPid : ℕ) (view : EndpointMsgView) :
    Kernel (CallState F) Bool :=
  match hvalid : checkMsgValid view with
  | .error e => throw e
  | .ok () =>
    if !cap.perm.imply REPLIER then throw .insufficientPermissions
    else dispatchReply cap.payload (buildEndpointMessage senderPid view
      (msgsz_le_of_valid hvalid) (capsz_le_of_valid hvalid))

def endpointReply (taskOf : ℕ → Option Caller) (replyCap : CapIdx) (packet : MsgPacket) :
    Kernel (CallState F) Unit := do
  let view ← ofResult (msgView packet)
  let caller ← runningTcb taskOf
  let holder ← currentHolder caller
  let cap ← replyObject taskOf replyCap
  let sent ← sendReply cap caller.pid view
  if !sent then throw .failure
  else onCaps (CHolder.remove (World.payloads A) holder replyCap)

end Calls

end Sustcore
