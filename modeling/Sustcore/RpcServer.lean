/-
# The RPC server (`libs/rpc/session.cpp`)

`Server::handle_message` takes a message, decodes it, and answers through the reply capability
that came with it.  What a service adds (whether it makes a session, and what it does in a call)
is an `Env`, which may be another one for every message.  The state has, beside the fields of the
server, two logs: the replies that were sent and the session numbers that were given out.

Not every message is answered: a message without a capability, a session that the service does
not make, a call that the service fails, and a response that does not fit into a message are all
left without a reply.  The session numbers are 32 bits that wrap, so `0` and the number of an
open session are given out in the end.  `server_replies` says that there is nothing else: every
other message, malformed or not, gets exactly one reply, after any history.
-/
import Sustcore.RpcCodec

namespace Sustcore.Rpc

open ByteBuffer Function Kernel Except List

/-! ## The server -/

structure ServerSession where
  sessionNumber : UInt32
  deriving DecidableEq

/-- `ServerSession::CallResult`. -/
structure CallResult where
  isError : Bool
  returnType : UInt32
  retbuf : List UInt8

/-- The virtual functions of a service, as they behave for one message: `create_session` makes a
session of the given number or returns null, `handle_call` returns a result or an error. -/
structure Env where
  createSession : UInt32 → Bool
  handleCall : ServerSession → CallPacket → Result CallResult

/-- `Server`, with the replies that were sent and the numbers that were given out. -/
structure Server where
  serverMagic : UInt32
  sessions : UInt32 → Option ServerSession
  nextSessionNumber : UInt32
  replies : List (CapIdx × MsgPacket)
  assigned : List UInt32

/-- `Server::Server`. -/
def Server.init (serverMagic : UInt32) : Server := ⟨serverMagic, fun _ => none, 1, [], []⟩

/-- `RPCErrorCode::UNKNOWN_ERROR`. -/
def UNKNOWN_ERROR : UInt32 := 1

/-- `RPCErrorCode::INVALID_MAGIC`. -/
def INVALID_MAGIC : UInt32 := 2

/-- `reply_message`: the result of the system call is not looked at. -/
def replyMessage (replyCap : CapIdx) (msg : MsgPacket) : Kernel Server Unit :=
  modify fun s => { s with replies := s.replies ++ [(replyCap, msg)] }

/-- The functions of `Replier`: encode, then reply. -/
def replyWith (replyCap : CapIdx) (encoded : Except Halt (Result MsgPacket)) :
    Kernel Server Unit := do
  let msg ← queryHalt fun _ => encoded
  replyMessage replyCap msg

/-- `Replier::reply_session`. -/
def replySession (replyCap : CapIdx) (packet : SessionResponsePacket) : Kernel Server Unit :=
  replyWith replyCap (encodeSessionResponse packet)

/-- `Replier::reply_close`. -/
def replyClose (replyCap : CapIdx) (packet : CloseResponsePacket) : Kernel Server Unit :=
  replyWith replyCap (encodeCloseResponse packet)

/-- `Replier::reply_response`. -/
def replyResponse (replyCap : CapIdx) (packet : ResponsePacket) : Kernel Server Unit :=
  replyWith replyCap (encodeResponse packet)

/-- `Replier::reply_error`. -/
def replyError (replyCap : CapIdx) (packet : ErrorPacket) : Kernel Server Unit :=
  replyWith replyCap (encodeError packet)

def replyUnknownError (replyCap : CapIdx) (serviceMagic sessionId functionId : UInt32) :
    Kernel Server Unit :=
  replyError replyCap ⟨serviceMagic, sessionId, functionId, UNKNOWN_ERROR⟩

def replyInvalidMagic (replyCap : CapIdx) (serviceMagic sessionId functionId : UInt32) :
    Kernel Server Unit :=
  replyError replyCap ⟨serviceMagic, sessionId, functionId, INVALID_MAGIC⟩

/-- What a decoder returned. -/
def decoded {α : Type} (x : Except Halt (Result (α × ByteBuffer))) : Kernel Server (Result α) := do
  let res ← ofHalt x
  pure (res.map Prod.fst)

/-- `Server::start`; an entry of `_sessions` that has the number already is overwritten. -/
def start (env : Env) : Kernel Server ServerSession := do
  let s ← get
  let sessionNumber := s.nextSessionNumber
  modify fun s => { s with nextSessionNumber := sessionNumber + 1 }
  if env.createSession sessionNumber then do
    let session : ServerSession := ⟨sessionNumber⟩
    modify fun s => { s with sessions := update s.sessions sessionNumber session
                             assigned := s.assigned ++ [sessionNumber] }
    pure session
  else throw .allocationFailed

/-- `Server::on_session`. -/
def onSession (env : Env) (msg : MsgPacket) (replyCap : CapIdx) : Kernel Server Unit := do
  let s ← get
  match ← decoded (decodeSession msg) with
  | .error _ => replyUnknownError replyCap s.serverMagic 0 0
  | .ok packet =>
    if packet.serviceMagic ≠ s.serverMagic then replyInvalidMagic replyCap s.serverMagic 0 0
    else do
      let session ← start env
      replySession replyCap ⟨s.serverMagic, session.sessionNumber⟩

/-- `ServerSession::on_close`. -/
def ServerSession.onClose (session : ServerSession) (msg : MsgPacket) (replyCap : CapIdx) :
    Kernel Server Unit := do
  match ← decoded (decodeClose msg) with
  | .error e => throw e
  | .ok packet =>
    if packet.sessionId ≠ session.sessionNumber then
      replyUnknownError replyCap packet.serviceMagic packet.sessionId 0
    else replyClose replyCap ⟨packet.serviceMagic, session.sessionNumber⟩

/-- `ServerSession::on_call`. -/
def ServerSession.onCall (env : Env) (session : ServerSession) (msg : MsgPacket)
    (replyCap : CapIdx) : Kernel Server Unit := do
  match ← decoded (decodeCall msg) with
  | .error e => throw e
  | .ok packet =>
    if packet.sessionId ≠ session.sessionNumber then
      replyUnknownError replyCap packet.serviceMagic packet.sessionId packet.functionId
    else do
      let result ← ofResult (env.handleCall session packet)
      if result.isError then
        replyError replyCap
          ⟨packet.serviceMagic, session.sessionNumber, packet.functionId, UNKNOWN_ERROR⟩
      else
        replyResponse replyCap ⟨packet.serviceMagic, session.sessionNumber, packet.functionId,
          result.returnType, result.retbuf⟩

/-- The case `CLOSE` of `Server::handle_message`. -/
def closeSession (msg : MsgPacket) (replyCap : CapIdx) : Kernel Server Unit := do
  let s ← get
  match ← decoded (decodeClose msg) with
  | .error _ => replyUnknownError replyCap s.serverMagic 0 0
  | .ok packet =>
    if packet.serviceMagic ≠ s.serverMagic then
      replyInvalidMagic replyCap s.serverMagic packet.sessionId 0
    else match s.sessions packet.sessionId with
      | none => replyUnknownError replyCap s.serverMagic packet.sessionId 0
      | some session => do
          session.onClose msg replyCap
          modify fun s =>
            { s with sessions := update s.sessions packet.sessionId none }

/-- The case `CALL` of `Server::handle_message`. -/
def callSession (env : Env) (msg : MsgPacket) (replyCap : CapIdx) : Kernel Server Unit := do
  let s ← get
  match ← decoded (decodeCall msg) with
  | .error _ => replyUnknownError replyCap s.serverMagic 0 0
  | .ok packet =>
    if packet.serviceMagic ≠ s.serverMagic then
      replyInvalidMagic replyCap s.serverMagic packet.sessionId packet.functionId
    else match s.sessions packet.sessionId with
      | none => replyUnknownError replyCap s.serverMagic packet.sessionId packet.functionId
      | some session => ServerSession.onCall env session msg replyCap

/-- The capability that the answer goes to. -/
def replyCapOf (msg : MsgPacket) : CapIdx := msg.caplist ⟨0, by decide⟩

/-- `Server::handle_message`. -/
def handleMessage (env : Env) (msg : MsgPacket) : Kernel Server Unit := do
  let s ← get
  if msg.capsz = 0 then throw .invalidParam
  else
    let replyCap := replyCapOf msg
    if peekType msg = PacketType.session.code then onSession env msg replyCap
    else if peekType msg = PacketType.close.code then closeSession msg replyCap
    else if peekType msg = PacketType.call.code then callSession env msg replyCap
    else replyUnknownError replyCap s.serverMagic 0 0

/-- The loop of a server: a message is handled when the one before it is done, and the result of
`handle_message` is not looked at. -/
def serve : List (Env × MsgPacket) → Server → Except Halt Server
  | [], s => .ok s
  | (env, msg) :: rest, s => do
      let (_, s') ← handleMessage env msg s
      serve rest s'

/-! ## What a message leaves -/

/-- Exactly one reply was sent, to the capability. -/
def Answered (replyCap : CapIdx) (s s' : Server) : Prop :=
  ∃ reply, s'.replies = s.replies ++ [(replyCap, reply)]

/-- Every number that was given out is non-zero and was not the number of an open session. -/
def FreshNumbers (s s' : Server) : Prop :=
  ∃ ids, s'.assigned = s.assigned ++ ids ∧ ∀ id ∈ ids, id ≠ 0 ∧ s.sessions id = none

/-- A session is found under its own number. -/
def Keyed (s : Server) : Prop :=
  ∀ id session, s.sessions id = some session → session.sessionNumber = id

/-- The messages that are answered: there is a capability for the reply; a new session is made,
with a number that is free; a call is handled, and its response fits into a message. -/
structure Answerable (env : Env) (msg : MsgPacket) (s : Server) : Prop where
  cap : msg.capsz ≠ 0
  session : peekType msg = PacketType.session.code → ∀ packet reader,
    decodeSession msg = .ok (.ok (packet, reader)) → packet.serviceMagic = s.serverMagic →
    env.createSession s.nextSessionNumber = true ∧ s.nextSessionNumber ≠ 0 ∧
      s.sessions s.nextSessionNumber = none
  call : peekType msg = PacketType.call.code → ∀ packet reader,
    decodeCall msg = .ok (.ok (packet, reader)) → packet.serviceMagic = s.serverMagic →
    ∀ session, s.sessions packet.sessionId = some session →
    ∃ result, env.handleCall session packet = .ok result ∧
      (result.isError = true ∨ 28 + result.retbuf.length ≤ MAX_MSG_SIZE)

variable {replyCap : CapIdx} {s s' : Server}

theorem not_answered_of_eq (h : s'.replies = s.replies) : ¬Answered replyCap s s' := by
  rintro ⟨reply, hreply⟩
  have hlen := congrArg length (h.symm.trans hreply)
  simp at hlen

theorem freshNumbers_of_eq (h : s'.assigned = s.assigned) : FreshNumbers s s' := by
  refine ⟨[], ?_, ?_⟩
  · rw [h, append_nil]
  · simp

/-! ## Replies -/

def Server.replied (s : Server) (replyCap : CapIdx) (reply : MsgPacket) : Server :=
  { s with replies := s.replies ++ [(replyCap, reply)] }

theorem replyWith_encode (replyCap : CapIdx) (p : RpcPacket) (hfit : p.encodedSize ≤ MAX_MSG_SIZE)
    (s : Server) : ∃ reply, replyWith replyCap p.encode s = .ok (.ok (), s.replied replyCap reply) := by
  obtain ⟨reply, hencode, -⟩ := p.encode_eq hfit
  refine ⟨reply, ?_⟩
  rw [hencode]
  rfl

/-- A packet that does not fit is not sent, and nothing is sent in its place. -/
theorem replyWith_oversized (replyCap : CapIdx) (p : RpcPacket)
    (hsize : MAX_MSG_SIZE < p.encodedSize) (s : Server) :
    replyWith replyCap p.encode s = .ok (.error .outOfBoundary, s) := by
  rw [p.encode_oversized hsize]
  rfl

theorem replyError_eq (replyCap : CapIdx) (packet : ErrorPacket) (s : Server) :
    ∃ reply, replyError replyCap packet s = .ok (.ok (), s.replied replyCap reply) := by
  have hfit : (RpcPacket.error packet).encodedSize ≤ MAX_MSG_SIZE := by
    show 24 ≤ MAX_MSG_SIZE
    decide
  exact replyWith_encode replyCap _ hfit s

theorem decoded_of_ok {α : Type} {x : Except Halt (Result (α × ByteBuffer))}
    {res : Result (α × ByteBuffer)} (h : x = .ok res) (s : Server) :
    decoded x s = .ok (.ok (res.map Prod.fst), s) := by
  rw [h]
  rfl

theorem forall_decoded {α : Type} {packet : α} {reader : ByteBuffer} {P : α → Prop} :
    (∀ packet' reader', (ok (ok (packet, reader)) :
      Except Halt (Result (α × ByteBuffer))) = .ok (.ok (packet', reader')) → P packet') ↔
      P packet := by
  constructor
  · intro h
    exact h packet reader rfl
  · intro h packet' reader' heq
    obtain ⟨rfl, -⟩ := ok_inj (ok.inj heq)
    exact h

/-! ## Sessions -/

/-- The state after a session was made. -/
def Server.opened (s : Server) : Server :=
  { s with nextSessionNumber := s.nextSessionNumber + 1
           sessions := update s.sessions s.nextSessionNumber (some ⟨s.nextSessionNumber⟩)
           assigned := s.assigned ++ [s.nextSessionNumber] }

theorem Keyed.opened (h : Keyed s) : Keyed s.opened := by
  intro id session hid
  simp only [Server.opened] at hid
  by_cases heq : id = s.nextSessionNumber
  · rw [heq, update_self] at hid
    rw [← Option.some.inj hid, heq]
  · rw [update_of_ne heq] at hid
    exact h id session hid

theorem Keyed.closed (h : Keyed s) (number : UInt32) :
    Keyed { s with sessions := update s.sessions number none } := by
  intro id session hid
  simp only at hid
  by_cases heq : id = number
  · rw [heq] at hid
    exact absurd hid (by simp)
  · rw [update_of_ne heq] at hid
    exact h id session hid

theorem start_of_created {env : Env} (h : env.createSession s.nextSessionNumber = true) :
    start env s = .ok (.ok ⟨s.nextSessionNumber⟩, s.opened) := by
  unfold start
  rw [get_bind, if_pos h]
  rfl

theorem start_of_null {env : Env} (h : ¬env.createSession s.nextSessionNumber = true) :
    start env s = .ok (.error .allocationFailed,
      { s with nextSessionNumber := s.nextSessionNumber + 1 }) := by
  unfold start
  rw [get_bind, if_neg h]
  rfl

/-! ## The three kinds of requests -/

/-- The call returned, the sessions are still found under their numbers, and one reply was sent
and only free numbers were given out exactly if `C`. -/
def Handles (x : Kernel Server Unit) (replyCap : CapIdx) (s : Server) (C : Prop) : Prop :=
  ∃ r s', x s = .ok (r, s') ∧ Keyed s' ∧ (Answered replyCap s s' ∧ FreshNumbers s s' ↔ C)

/-- One reply was sent, and no number was given out. -/
theorem Handles.of_reply {x : Kernel Server Unit} {r : Result Unit}
    {reply : MsgPacket} {C : Prop} (hkeyed : Keyed s)
    (hx : x s = .ok (r, s.replied replyCap reply)) (hC : C) : Handles x replyCap s C := by
  refine ⟨_, _, hx, hkeyed, ?_⟩
  exact ⟨fun _ => hC, fun _ => ⟨⟨reply, rfl⟩, freshNumbers_of_eq rfl⟩⟩

theorem Handles.of_silence {x : Kernel Server Unit}
    {r : Result Unit} {C : Prop} (hx : x s = .ok (r, s')) (hkeyed : Keyed s')
    (hreplies : s'.replies = s.replies) (hC : ¬C) : Handles x replyCap s C := by
  refine ⟨_, _, hx, hkeyed, ?_⟩
  exact ⟨fun h => absurd h.1 (not_answered_of_eq hreplies), fun h => absurd h hC⟩

theorem Handles.replyError (hkeyed : Keyed s) (replyCap : CapIdx)
    (packet : ErrorPacket) {C : Prop} (hC : C) :
    Handles (replyError replyCap packet) replyCap s C := by
  obtain ⟨reply, hreply⟩ := replyError_eq replyCap packet s
  exact .of_reply hkeyed hreply hC

theorem onSession_handles (env : Env) (msg : MsgPacket) (replyCap : CapIdx) (hkeyed : Keyed s) :
    Handles (onSession env msg replyCap) replyCap s (∀ packet reader,
      decodeSession msg = .ok (.ok (packet, reader)) → packet.serviceMagic = s.serverMagic →
      env.createSession s.nextSessionNumber = true ∧ s.nextSessionNumber ≠ 0 ∧
        s.sessions s.nextSessionNumber = none) := by
  obtain ⟨res, hres⟩ : ∃ res, decodeSession msg = .ok res :=
    decodeWith_returns (returns_readSession _)
  unfold Handles onSession
  rw [hres]
  cases res with
  | error e => exact Handles.replyError hkeyed replyCap _ (by simp)
  | ok p =>
    obtain ⟨packet, reader⟩ := p
    rw [forall_decoded]
    show Handles (if packet.serviceMagic ≠ s.serverMagic then _ else _) replyCap s _
    by_cases hmagic : packet.serviceMagic = s.serverMagic
    · rw [if_neg (not_not.mpr hmagic)]
      by_cases hcreate : env.createSession s.nextSessionNumber = true
      · obtain ⟨reply, hreply⟩ := replyWith_encode replyCap
          (.sessionResponse ⟨s.serverMagic, s.nextSessionNumber⟩) (show 16 ≤ 128 by decide)
          s.opened
        refine ⟨_, _, (bind_of_ok (start_of_created hcreate) _).trans hreply, hkeyed.opened, ?_⟩
        constructor
        · rintro ⟨-, ids, hids, hfresh⟩ -
          have hone : ids = [s.nextSessionNumber] := (append_cancel_left hids).symm
          exact ⟨hcreate, hfresh _ (by simp [hone])⟩
        · intro h
          obtain ⟨-, hne, hfree⟩ := h hmagic
          refine ⟨⟨reply, rfl⟩, [s.nextSessionNumber], rfl, ?_⟩
          intro id hid
          rw [mem_singleton.mp hid]
          exact ⟨hne, hfree⟩
      · -- `propagate` leaves without a reply
        refine .of_silence (bind_of_error (start_of_null hcreate) _) hkeyed rfl ?_
        intro h
        exact hcreate (h hmagic).1
    · rw [if_pos hmagic]
      exact .replyError hkeyed replyCap _ fun h => absurd h hmagic

/-- A close request is always answered. -/
theorem closeSession_handles (msg : MsgPacket) (replyCap : CapIdx)
    (hkeyed : Keyed s) : Handles (closeSession msg replyCap) replyCap s True := by
  obtain ⟨res, hres⟩ : ∃ res, decodeClose msg = .ok res :=
    decodeWith_returns (returns_readSessionId _ _ _ _)
  unfold Handles closeSession
  rw [get_bind, bind_of_ok (decoded_of_ok hres s)]
  cases res with
  | error e => exact Handles.replyError hkeyed replyCap _ trivial
  | ok p =>
    obtain ⟨packet, reader⟩ := p
    show Handles (if packet.serviceMagic ≠ s.serverMagic then _ else _) replyCap s _
    by_cases hmagic : packet.serviceMagic = s.serverMagic
    · rw [if_neg (not_not.mpr hmagic)]
      cases hsession : s.sessions packet.sessionId with
      | none => exact .replyError hkeyed replyCap _ trivial
      | some session =>
        obtain ⟨reply, hreply⟩ := replyWith_encode replyCap
          (.closeResponse ⟨packet.serviceMagic, session.sessionNumber⟩)
          (show 16 ≤ 128 by decide) s
        -- the session is found under its number, so it does not refuse
        have hclose : session.onClose msg replyCap s =
            .ok (.ok (), s.replied replyCap reply) := by
          unfold ServerSession.onClose
          rw [bind_of_ok (decoded_of_ok hres s)]
          show (if packet.sessionId ≠ session.sessionNumber then _ else _ : Kernel Server Unit) s
            = _
          rwa [if_neg (not_not.mpr (hkeyed _ _ hsession).symm)]
        have hkeyed' : Keyed (s.replied replyCap reply) := hkeyed
        refine ⟨_, _, bind_of_ok hclose _, hkeyed'.closed packet.sessionId, ?_⟩
        exact ⟨fun _ => trivial, fun _ => ⟨⟨reply, rfl⟩, freshNumbers_of_eq rfl⟩⟩
    · rw [if_pos hmagic]
      exact .replyError hkeyed replyCap _ trivial

theorem onCall_handles (env : Env) (msg : MsgPacket) (replyCap : CapIdx)
    (hkeyed : Keyed s) {packet : CallPacket} {reader : ByteBuffer} {session : ServerSession}
    (hres : decodeCall msg = .ok (.ok (packet, reader)))
    (hnumber : session.sessionNumber = packet.sessionId) :
    Handles (ServerSession.onCall env session msg replyCap) replyCap s
      (∃ result, env.handleCall session packet = .ok result ∧
        (result.isError = true ∨ 28 + result.retbuf.length ≤ MAX_MSG_SIZE)) := by
  unfold Handles ServerSession.onCall
  rw [bind_of_ok (decoded_of_ok hres s)]
  show Handles (if packet.sessionId ≠ session.sessionNumber then _ else _) replyCap s _
  rw [if_neg (not_not.mpr hnumber.symm)]
  cases hcall : env.handleCall session packet with
  | error e =>
    refine .of_silence (r := .error e) rfl hkeyed rfl ?_
    rintro ⟨result, heq, -⟩
    exact absurd heq nofun
  | ok result =>
    show Handles (if result.isError then _ else _) replyCap s _
    by_cases herror : result.isError = true
    · rw [if_pos herror]
      exact .replyError hkeyed replyCap _ ⟨result, rfl, Or.inl herror⟩
    rw [if_neg herror]
    set response : RpcPacket := .response ⟨packet.serviceMagic, session.sessionNumber,
      packet.functionId, result.returnType, result.retbuf⟩
    have hsize : response.encodedSize = 28 + result.retbuf.length := rfl
    by_cases hfit : 28 + result.retbuf.length ≤ MAX_MSG_SIZE
    · obtain ⟨reply, hreply⟩ := replyWith_encode replyCap response hfit s
      exact .of_reply hkeyed hreply ⟨result, rfl, Or.inr hfit⟩
    have hover := replyWith_oversized replyCap response (by omega) s
    refine .of_silence hover hkeyed rfl ?_
    rintro ⟨other, heq, hor⟩
    rw [← ok.inj heq] at hor
    exact hor.elim herror hfit

theorem callSession_handles (env : Env) (msg : MsgPacket) (replyCap : CapIdx) (hkeyed : Keyed s) :
    Handles (callSession env msg replyCap) replyCap s (∀ packet reader,
      decodeCall msg = .ok (.ok (packet, reader)) → packet.serviceMagic = s.serverMagic →
      ∀ session, s.sessions packet.sessionId = some session →
      ∃ result, env.handleCall session packet = .ok result ∧
        (result.isError = true ∨ 28 + result.retbuf.length ≤ MAX_MSG_SIZE)) := by
  obtain ⟨res, hres⟩ : ∃ res, decodeCall msg = .ok res := decodeWith_returns (returns_readCall _)
  unfold Handles callSession
  rw [hres]
  cases res with
  | error e => exact Handles.replyError hkeyed replyCap _ (by simp)
  | ok p =>
    obtain ⟨packet, reader⟩ := p
    rw [forall_decoded]
    show Handles (if packet.serviceMagic ≠ s.serverMagic then _ else _) replyCap s _
    by_cases hmagic : packet.serviceMagic = s.serverMagic
    · rw [if_neg (not_not.mpr hmagic)]
      cases hsession : s.sessions packet.sessionId with
      | none => exact .replyError hkeyed replyCap _ (by simp)
      | some session =>
        obtain ⟨r, s', hrun, hkeyed', hiff⟩ :=
          onCall_handles env msg replyCap hkeyed hres (hkeyed _ _ hsession)
        refine ⟨r, s', hrun, hkeyed', hiff.trans ?_⟩
        constructor
        · intro h _ session' heq
          rwa [← Option.some.inj heq]
        · intro h
          exact h hmagic session rfl
    · rw [if_pos hmagic]
      exact .replyError hkeyed replyCap _ fun h => absurd h hmagic

/-! ## Any message, after any history -/

theorem handleMessage_handles (env : Env) (msg : MsgPacket) (hkeyed : Keyed s) :
    Handles (handleMessage env msg) (replyCapOf msg) s (Answerable env msg s) := by
  unfold Handles handleMessage
  rw [get_bind]
  by_cases hcap : msg.capsz = 0
  · rw [if_pos hcap]
    exact Handles.of_silence (r := .error .invalidParam) rfl hkeyed rfl fun h => h.cap hcap
  rw [if_neg hcap]
  by_cases hsession : peekType msg = PacketType.session.code
  · have hcall : peekType msg ≠ PacketType.call.code := by
      rw [hsession]
      decide
    obtain ⟨r, s', hrun, hkeyed', hiff⟩ := onSession_handles env msg (replyCapOf msg) hkeyed
    rw [if_pos hsession]
    refine ⟨r, s', hrun, hkeyed', hiff.trans ?_⟩
    exact ⟨fun h => ⟨hcap, fun _ => h, fun h => absurd h hcall⟩, fun h => h.session hsession⟩
  rw [if_neg hsession]
  by_cases hclose : peekType msg = PacketType.close.code
  · have hcall : peekType msg ≠ PacketType.call.code := by
      rw [hclose]
      decide
    obtain ⟨r, s', hrun, hkeyed', hiff⟩ := closeSession_handles msg (replyCapOf msg) hkeyed
    rw [if_pos hclose]
    refine ⟨r, s', hrun, hkeyed', hiff.trans ?_⟩
    exact ⟨fun _ => ⟨hcap, fun h => absurd h hsession, fun h => absurd h hcall⟩, fun _ => trivial⟩
  rw [if_neg hclose]
  by_cases hcall : peekType msg = PacketType.call.code
  · obtain ⟨r, s', hrun, hkeyed', hiff⟩ := callSession_handles env msg (replyCapOf msg) hkeyed
    rw [if_pos hcall]
    refine ⟨r, s', hrun, hkeyed', hiff.trans ?_⟩
    exact ⟨fun h => ⟨hcap, fun h => absurd h hsession, fun _ => h⟩, fun h => h.call hcall⟩
  · rw [if_neg hcall]
    exact Handles.replyError hkeyed _ _ ⟨hcap, fun h => absurd h hsession, fun h => absurd h hcall⟩

theorem keyed_init (serverMagic : UInt32) : Keyed (Server.init serverMagic) := nofun

/-- The server handles every sequence of messages. -/
theorem serve_keyed (served : List (Env × MsgPacket)) (hkeyed : Keyed s) :
    ∃ s', serve served s = .ok s' ∧ Keyed s' := by
  induction served generalizing s with
  | nil => exact ⟨s, rfl, hkeyed⟩
  | cons head rest ih =>
    obtain ⟨env, msg⟩ := head
    obtain ⟨r, t, hrun, ht, -⟩ := handleMessage_handles env msg hkeyed
    obtain ⟨s', hrest, hs'⟩ := ih ht
    refine ⟨s', ?_, hs'⟩
    unfold serve
    rwa [hrun]

/-- **Replies of the server.**  After any sequence of messages, the next message gets exactly one
reply and is given only a number that is non-zero and not in use, exactly if it is answerable. -/
theorem server_replies (serverMagic : UInt32) (served : List (Env × MsgPacket)) (env : Env)
    (msg : MsgPacket) :
    ∃ s r s', serve served (Server.init serverMagic) = .ok s ∧
      handleMessage env msg s = .ok (r, s') ∧
      (Answered (replyCapOf msg) s s' ∧ FreshNumbers s s' ↔ Answerable env msg s) := by
  obtain ⟨s, hserve, hkeyed⟩ := serve_keyed served (keyed_init serverMagic)
  obtain ⟨r, s', hrun, -, hiff⟩ := handleMessage_handles env msg hkeyed
  exact ⟨s, r, s', hserve, hrun, hiff⟩

/-- A message of these bytes with one capability. -/
def request (bytes : List UInt8) : MsgPacket := ⟨fun i => bytes.getD i 0, bytes.length, fun _ => 5, 1⟩

/-- A service whose calls return `size` bytes. -/
def echoService (size : ℕ) : Env :=
  ⟨fun _ => true, fun _ _ => .ok ⟨false, 0, replicate size 0⟩⟩

/-- A session is opened, and a call is made in it that returns 101 bytes: both messages are
handled, and one reply was sent. -/
theorem large_response_lost :
    (serve [(echoService 101, request (RpcPacket.session ⟨7⟩).bytes),
      (echoService 101, request (RpcPacket.call ⟨7, 1, 2, [], []⟩).bytes)]
      (Server.init 7)).map (fun s => s.replies.length) = .ok 1 := by
  decide +kernel

end Sustcore.Rpc
