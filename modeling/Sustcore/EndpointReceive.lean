/-
# What becomes of a message that cannot be received

`recv` takes the message out of the queue and completes the send before the system call
looks at the sizes of the user's packet and inserts the capabilities.  If this fails, the
message is deleted: it is not the next one to be received any more, although the sender was
told that it was received.

`recv_keeps_message` says for every receive that reaches a message that the message does not
survive, and that the receive fails if the message cannot be delivered.
-/
import Sustcore.EndpointCalls
import Sustcore.EndpointRuns

namespace Sustcore

open Function Kernel Except

/-! ## What a receive does, whatever the threads do -/

namespace Ipc

theorem wake_shape (s : Ipc) (wd : ℕ) : ∃ r sched, s.wake wd = (r, { s with sched := sched }) := by
  unfold wake
  split
  · exact ⟨_, _, rfl⟩
  · exact ⟨_, _, rfl⟩

theorem setSendValue_shape (s : Ipc) (q : ℕ) : ∃ r sends sched,
    s.setSendValue q = (r, { s with sends := sends, sched := sched }) := by
  unfold setSendValue
  split
  · exact ⟨_, _, _, rfl⟩
  · obtain ⟨r, sched, hwake⟩ := wake_shape (s.setSend q fun a => { a with state := .complete })
      (s.sends q).waitWd
    exact ⟨r, _, sched, hwake⟩

end Ipc

namespace EndpointState

variable {s s' : EndpointState} {m : ℕ}

theorem completeSendOf_shape (s : EndpointState) (m : ℕ) : ∃ sends sched pendingSends,
    s.completeSendOf m = ⟨{ s.ipc with sends := sends, sched := sched },
      { s.payload with pendingSends := pendingSends }⟩ := by
  unfold completeSendOf
  split
  · exact ⟨_, _, _, rfl⟩
  rename_i pending _
  obtain ⟨r, sends, sched, hcomplete⟩ := s.ipc.setSendValue_shape pending.promise
  refine ⟨sends, sched, (s.removePendingSend pending.promise).payload.pendingSends, ?_⟩
  show EndpointState.mk (s.ipc.setSendValue pending.promise).2 _ = _
  rw [hcomplete]
  rfl

/-- **A receive takes the first message out of the queue**, and the future that it returns is
complete. -/
theorem recv_shape {perm : Perm} {rest : List ℕ} (hread : perm.imply READ = true)
    (hfirst : s.payload.messages.nodes = m :: rest) : ∃ res s', s.recv perm = (res, s') ∧
      s'.payload.messages = s.payload.messages.popFront ∧ s'.ipc.heap = s.ipc.heap ∧
      ∀ p, res = .ok p → (s'.ipc.recvs p).state = .complete ∧ (s'.ipc.recvs p).value = some m := by
  have hself : s.ipc.newRecv.2.recvs s.ipc.nextRecv = ⟨.pending, s.ipc.nextWd, none, false⟩ :=
    update_self ..
  obtain ⟨sends, sched, pendingSends, hcomplete⟩ := completeSendOf_shape
    ⟨s.ipc.newRecv.2, { s.payload with messages := s.payload.messages.popFront }⟩ m
  let ipc : Ipc := { s.ipc.newRecv.2 with sends := sends, sched := sched }
  have hpending : (ipc.recvs s.ipc.nextRecv).state = .pending := by
    rw [hself]
  obtain ⟨r, sched', hwake⟩ := Ipc.wake_shape
    (ipc.setRecv s.ipc.nextRecv fun a => { a with value := some m, state := .complete })
    (ipc.recvs s.ipc.nextRecv).waitWd
  have hset : ipc.setRecvValue s.ipc.nextRecv m = (r, { ipc.setRecv s.ipc.nextRecv fun a =>
      { a with value := some m, state := .complete } with sched := sched' }) := by
    unfold Ipc.setRecvValue
    rwa [hpending]
  have hvalue : (ipc.setRecv s.ipc.nextRecv fun a =>
      { a with value := some m, state := .complete }).recvs s.ipc.nextRecv =
      { ipc.recvs s.ipc.nextRecv with value := some m, state := .complete } :=
    update_self ..
  unfold recv
  rw [hread]
  simp only [hfirst]
  rw [hcomplete, Bool.not_true, if_neg Bool.false_ne_true]
  have hset' : ({ s.ipc.newRecv.2 with sends := sends, sched := sched } : Ipc).setRecvValue
      s.ipc.newRecv.1 m = _ := hset
  simp only [hset']
  cases r with
  | error e => exact ⟨_, _, rfl, rfl, rfl, by simp⟩
  | ok =>
    refine ⟨_, _, rfl, rfl, rfl, ?_⟩
    intro p hp
    cases hp
    exact ⟨congrArg AsyncState.state hvalue, congrArg AsyncState.value hvalue⟩

end EndpointState

/-! ## The parts of a system call -/

section Parts

variable {F : Type} {A : FrameAllocator F} {s s' : CallState F}

theorem onCaps_eq_ok {α : Type} {x : Kernel (CapState (World F)) α} {r : Result α} :
    onCaps x s = .ok (r, s') ↔ ∃ caps, x s.caps = .ok (r, caps) ∧ s' = { s with caps := caps } :=
  bind_part_eq_ok fun caps => { s with caps := caps }

theorem onIpc_eq_ok {α : Type} {x : Kernel Ipc α} {r : Result α} :
    onIpc x s = .ok (r, s') ↔ ∃ ipc, x s.ipc = .ok (r, ipc) ∧ s' = { s with ipc := ipc } :=
  bind_part_eq_ok fun ipc => { s with ipc := ipc }

variable {taskOf : ℕ → Option Caller}

theorem runningTcb_of_some {caller : Caller} (h : s.ipc.sched.current.bind taskOf = some caller) :
    runningTcb taskOf s = .ok (.ok caller, s) := by
  unfold runningTcb
  rw [h]

variable {holder p : ℕ}

theorem currentHolder_of_some {caller : Caller} (h : caller.holder = some holder) :
    currentHolder caller s = .ok (.ok holder, s) := by
  unfold currentHolder
  rw [h]
  rfl

variable (A) in
/-- The message fits into the packet and its capabilities can be inserted. -/
def Deliverable (holderOf : ℕ → Result ℕ) (holder : ℕ) (msg : EndpointMessage)
    (packet : MsgPacket) (s : CallState F) : Prop :=
  msg.msgbuf.length ≤ packet.msgsz ∧ msg.capidxs.length ≤ packet.capsz ∧
    (msg.capidxs ≠ [] → ∃ outCaps caps, insertReceivedCaps (World.payloads A) holderOf
      (some holder) msg s.caps = .ok (.ok outCaps, caps))

variable {holderOf : ℕ → Result ℕ} {msg : EndpointMessage} {packet : MsgPacket}

/-- **`write_received_msg`** touches the holders alone, and succeeds exactly when the message
can be delivered. -/
theorem writeReceivedMsg_eq_ok {r : Result MsgPacket}
    (hcall : writeReceivedMsg A holderOf holder msg packet s = .ok (r, s')) :
    (∃ caps, s' = { s with caps := caps }) ∧
      ((∃ e, r = .error e) ↔ ¬Deliverable A holderOf holder msg packet s) := by
  unfold writeReceivedMsg at hcall
  split at hcall
  · obtain ⟨rfl, rfl⟩ := throw_eq_ok.mp hcall
    refine ⟨⟨s'.caps, rfl⟩, iff_of_true ⟨_, rfl⟩ ?_⟩
    rintro ⟨hmsgsz, hcapsz, -⟩
    omega
  split at hcall
  · rename_i hnone
    obtain ⟨rfl, rfl⟩ := pure_eq_ok.mp hcall
    refine ⟨⟨s'.caps, rfl⟩, iff_of_false nofun (not_not.mpr ⟨by omega, by omega, ?_⟩)⟩
    exact fun hsome => absurd hnone hsome
  rename_i hsome
  rcases bind_eq_ok.mp hcall with ⟨e, hinsert, rfl⟩ | ⟨outCaps, t, hinsert, hpure⟩
  · obtain ⟨caps, hcaps, rfl⟩ := onCaps_eq_ok.mp hinsert
    refine ⟨⟨caps, rfl⟩, iff_of_true ⟨e, rfl⟩ ?_⟩
    rintro ⟨-, -, hok⟩
    obtain ⟨outCaps, caps', hok⟩ := hok hsome
    rw [hcaps] at hok
    cases (ok_inj hok).1
  · obtain ⟨rfl, rfl⟩ := pure_eq_ok.mp hpure
    obtain ⟨caps, hcaps, rfl⟩ := onCaps_eq_ok.mp hinsert
    refine ⟨⟨caps, rfl⟩, iff_of_false nofun (not_not.mpr ⟨by omega, by omega, ?_⟩)⟩
    exact fun _ => ⟨outCaps, caps, hcaps⟩

variable {commit : MsgPacket → Result Unit}

/-- **The end of a receive deletes the message**, also when it could not be delivered. -/
theorem takeMessage_eq_ok {m : ℕ} {r : Result Unit}
    (hcall : takeMessage A holderOf commit holder m packet s = .ok (r, s'))
    (hmsg : s.ipc.heap m = some msg) : s'.ipc.heap m = none ∧
      (¬Deliverable A holderOf holder msg packet s → ∃ e, r = .error e) := by
  unfold takeMessage at hcall
  rw [get_bind, hmsg] at hcall
  obtain ⟨res, t, hwrite, hrest⟩ := attempt_bind_eq_ok.mp hcall
  obtain ⟨-, herror⟩ := writeReceivedMsg_eq_ok hwrite
  rw [modify_bind] at hrest
  have hdeleted : (deleteMessage m t).ipc.heap m = none := update_self ..
  rcases ofResult_bind_eq_ok.mp hrest with ⟨e, rfl, rfl, rfl⟩ | ⟨out, rfl, hcommit⟩
  · exact ⟨hdeleted, fun _ => ⟨e, rfl⟩⟩
  · obtain ⟨-, rfl⟩ := ok_inj hcommit
    refine ⟨hdeleted, fun hnot => ?_⟩
    obtain ⟨e, he⟩ := herror.mpr hnot
    cases he

/-- **`endpoint_object`** finds the capability of an endpoint. -/
theorem endpointObject_of_caps {caller : Caller} {endpoint : CapIdx} {cap : Capability}
    (hcaller : s.ipc.sched.current.bind taskOf = some caller)
    (hholder : caller.holder = some holder) (hvalid : endpoint.valid = true)
    (hcap : s.caps.caps (endpoint.loc holder) = some cap)
    (htype : s.caps.heap.objects cap.payload = some .endpoint) :
    endpointObject taskOf endpoint s = .ok (.ok cap, s) := by
  unfold endpointObject typedObject
  rw [bind_of_ok (runningTcb_of_some hcaller), bind_of_ok (currentHolder_of_some hholder),
    bind_of_ok (onCaps_eq_ok.mpr ⟨s.caps, lookup_of_caps hvalid hcap, rfl⟩),
    get_bind, htype, if_neg (fun h => h rfl)]
  rfl

/-! ## Messages are lost -/

/-- The message exists, is the next one that a receive takes, and its send is still pending. -/
def StillNext (e m : ℕ) (s : CallState F) : Prop :=
  s.ipc.heap m ≠ none ∧ (s.endpoints e).messages.nodes.head? = some m ∧
    ∃ pending ∈ (s.endpoints e).pendingSends, pending.message = m ∧
      (s.ipc.sends pending.promise).state = .pending

/-- The running thread can receive from the endpoint `e`, and `m` is the next message. -/
structure Receives (taskOf : ℕ → Option Caller) (endpoint : CapIdx) (s : CallState F)
    (holder e m : ℕ) (msg : EndpointMessage) : Prop where
  caller : ∃ caller, s.ipc.sched.current.bind taskOf = some caller ∧ caller.holder = some holder
  valid : endpoint.valid = true
  cap : ∃ perm, s.caps.caps (endpoint.loc holder) = some ⟨e, perm⟩ ∧
    perm.imply EndpointState.READ = true
  type : s.caps.heap.objects e = some .endpoint
  next : (s.endpoints e).messages.nodes.head? = some m
  exist : s.ipc.heap m = some msg

/-- The running thread resumes its wait for the receive `p`, which was completed with `m`. -/
structure Resumes (s : CallState F) (p m : ℕ) (msg : EndpointMessage) : Prop where
  thread : s.ipc.checkFutureWaitThread = .ok ()
  complete : (s.ipc.recvs p).state = .complete
  value : (s.ipc.recvs p).value = some m
  exist : s.ipc.heap m = some msg

/-- `endpoint_recv_async` takes the message out of the queue, and deletes it. -/
theorem endpointRecvAsync_lost {endpoint : CapIdx} {r : Result Bool}
    {e m : ℕ} (h : Receives taskOf endpoint s holder e m msg)
    (hcall : endpointRecvAsync A taskOf holderOf commit endpoint packet s = .ok (r, s')) :
    ¬StillNext e m s' ∧ (¬Deliverable A holderOf holder msg packet s → ∃ e, r = .error e) := by
  obtain ⟨caller, hcaller, hholder⟩ := h.caller
  obtain ⟨perm, hcap, hread⟩ := h.cap
  obtain ⟨rest, hfirst⟩ : ∃ rest, (s.endpoints e).messages.nodes = m :: rest := by
    cases hnodes : (s.endpoints e).messages.nodes with
    | nil =>
      have hnext := h.next
      rw [hnodes] at hnext
      cases hnext
    | cons m' rest =>
      have hnext := h.next
      rw [hnodes] at hnext
      cases hnext
      exact ⟨rest, rfl⟩
  obtain ⟨res, t, hrecv, hmessages, hheap, hcomplete⟩ :=
    EndpointState.recv_shape (s := ⟨s.ipc, s.endpoints e⟩) hread hfirst
  have hobject := endpointObject_of_caps hcaller hholder h.valid hcap h.type
  have hrecv' : onEndpoint e (EndpointState.recv perm) s =
      .ok (res, { s with ipc := t.ipc, endpoints := update s.endpoints e t.payload }) := by
    unfold onEndpoint
    rw [hrecv]
  unfold endpointRecvAsync at hcall
  rw [bind_of_ok (runningTcb_of_some hcaller),
    bind_of_ok (currentHolder_of_some hholder), bind_of_ok hobject] at hcall
  cases res with
  | error err =>
    -- only the completion of the new future fails; the message has left the queue
    rw [bind_of_error hrecv'] at hcall
    cases hcall
    refine ⟨?_, fun _ => ⟨err, rfl⟩⟩
    rintro ⟨-, hnext, -⟩
    simp only [update_self, hmessages] at hnext
    exact NodeList.notMem_popFront hfirst (List.mem_of_head? hnext)
  | ok p =>
    rw [bind_of_ok hrecv', get_bind] at hcall
    obtain ⟨hstate, hvalue⟩ := hcomplete p rfl
    have hreadable : (t.ipc.recvs p).readable = true := by
      unfold AsyncState.readable
      rw [hstate]
      rfl
    have htake : t.ipc.recvValue p = (.ok m, t.ipc.setRecv p fun a =>
        { a with value := none, state := .consumed }) := by
      unfold Ipc.recvValue
      rw [hstate]
      simp only [hvalue]
    have hvalueOf : onIpc (fun ipc => .ok (ipc.recvValue p)) { s with
        ipc := t.ipc, endpoints := update s.endpoints e t.payload } =
        .ok (.ok m, { s with
          ipc := t.ipc.setRecv p fun a => { a with value := none, state := .consumed }
          endpoints := update s.endpoints e t.payload }) :=
      onIpc_eq_ok.mpr ⟨_, congrArg ok htake, rfl⟩
    simp only [hreadable, Bool.not_true, Bool.false_eq_true, ↓reduceIte] at hcall
    rw [bind_of_ok hvalueOf] at hcall
    have hmsg : (t.ipc.setRecv p fun a =>
        { a with value := none, state := .consumed }).heap m = some msg := by
      show t.ipc.heap m = some msg
      rw [hheap]
      exact h.exist
    rcases bind_eq_ok.mp hcall with ⟨err, htaken, rfl⟩ | ⟨_, u, htaken, hpure⟩
    · obtain ⟨hgone, -⟩ := takeMessage_eq_ok htaken hmsg
      exact ⟨fun hnext => hnext.1 hgone, fun _ => ⟨err, rfl⟩⟩
    obtain ⟨rfl, rfl⟩ := pure_eq_ok.mp hpure
    obtain ⟨hgone, herror⟩ := takeMessage_eq_ok htaken hmsg
    refine ⟨fun hnext => hnext.1 hgone, fun hnot => ?_⟩
    obtain ⟨err, he⟩ := herror hnot
    cases he

theorem Resumes.waitForRecv {m : ℕ} (h : Resumes s p m msg) :
    s.ipc.waitForRecv p = .ok (.ok (some m), s.ipc.setRecv p fun a =>
      { a with value := none, state := .consumed }) := by
  unfold Ipc.waitForRecv Ipc.waitFor Ipc.recvValue AsyncState.readable
  simp only [h.thread, h.complete, h.value]
  rfl

/-- The rest of `endpoint_recv_sync` deletes the message that it was handed. -/
theorem recvRound_lost {r : Result (Option Unit)} {m : ℕ}
    (h : Resumes s p m msg) (hcall : recvRound A holderOf commit holder p packet s = .ok (r, s')) :
    s'.ipc.heap m = none ∧ (¬Deliverable A holderOf holder msg packet s → ∃ e, r = .error e) := by
  unfold recvRound at hcall
  rw [bind_of_ok (onIpc_eq_ok.mpr ⟨_, h.waitForRecv, rfl⟩)] at hcall
  have hmsg : (s.ipc.setRecv p fun a =>
      { a with value := none, state := .consumed }).heap m = some msg := h.exist
  rcases bind_eq_ok.mp hcall with ⟨err, htaken, rfl⟩ | ⟨_, u, htaken, hpure⟩
  · exact ⟨(takeMessage_eq_ok htaken hmsg).1, fun _ => ⟨err, rfl⟩⟩
  obtain ⟨rfl, rfl⟩ := pure_eq_ok.mp hpure
  obtain ⟨hgone, herror⟩ := takeMessage_eq_ok htaken hmsg
  refine ⟨hgone, fun hnot => ?_⟩
  obtain ⟨err, he⟩ := herror hnot
  cases he

variable (A) in
/-- **No message is kept that cannot be delivered**: every receive call that reaches a message
takes it out of the queue and deletes it, and returns an error if it cannot be delivered.  So
the message survives the error exactly when it can be delivered, and there is no error. -/
theorem recv_keeps_message (taskOf : ℕ → Option Caller) (holderOf : ℕ → Result ℕ)
    (commit : MsgPacket → Result Unit) :
    (∀ endpoint packet (s s' : CallState F) r,
      endpointRecvAsync A taskOf holderOf commit endpoint packet s = .ok (r, s') →
      ∀ holder e m msg, Receives taskOf endpoint s holder e m msg →
        ¬StillNext e m s' ∧ (¬Deliverable A holderOf holder msg packet s → ∃ err, r = .error err) ∧
        (((∃ err, r = .error err) ∧ ¬Deliverable A holderOf holder msg packet s →
          StillNext e m s') ↔ Deliverable A holderOf holder msg packet s)) ∧
    ∀ holder p packet (s s' : CallState F) r,
      recvRound A holderOf commit holder p packet s = .ok (r, s') →
      ∀ e m msg, Resumes s p m msg →
        ¬StillNext e m s' ∧ (¬Deliverable A holderOf holder msg packet s → ∃ err, r = .error err) ∧
        (((∃ err, r = .error err) ∧ ¬Deliverable A holderOf holder msg packet s →
          StillNext e m s') ↔ Deliverable A holderOf holder msg packet s) := by
  refine ⟨?_, ?_⟩
  · intro endpoint packet s s' r hcall holder e m msg h
    obtain ⟨hlost, herror⟩ := endpointRecvAsync_lost h hcall
    exact ⟨hlost, herror, by tauto⟩
  · intro holder p packet s s' r hcall e m msg h
    obtain ⟨hgone, herror⟩ := recvRound_lost h hcall
    have hlost : ¬StillNext e m s' := fun hnext => hnext.1 hgone
    exact ⟨hlost, herror, by tauto⟩

end Parts

/-! ## A small packet -/

/-- The thread `kinit` runs, its process holds an endpoint with the permission `READ`, and a
message of one byte is in the queue. -/
def oneMessage : CallState (Gfp Buddy) :=
  let sent := (EndpointRun.started.state.send EndpointState.WRITE 7 EndpointRun.oneByte).2
  ⟨endpointHeld EndpointState.READ, sent.ipc, fun _ => sent.payload,
    fun _ => ⟨none, NodeList.empty⟩⟩

def process (_ : ℕ) : Option Caller := some ⟨5, some 0⟩

/-- A packet with room for a number of bytes. -/
def packetOf (msgsz : ℕ) : MsgPacket := ⟨fun _ => 0, msgsz, fun _ => 0, 0⟩

/-- The asynchronous receive of `oneMessage`. -/
def receiveOne (msgsz : ℕ) : Except Halt (Result Bool × CallState (Gfp Buddy)) :=
  endpointRecvAsync (gfpFrames buddyRaw) process (fun _ => .ok 0) (fun _ => .ok ())
    (CapIdx.make 0 0) (packetOf msgsz) oneMessage

theorem oneMessage_receives : Receives process (CapIdx.make 0 0) oneMessage 0 0 0
    ⟨7, [7], [], by decide, by decide⟩ :=
  ⟨⟨⟨5, some 0⟩, by decide, rfl⟩, by decide, ⟨EndpointState.READ, by decide, by decide⟩, by decide,
    by decide, rfl⟩

/-- The theorem for a packet without room for the byte, and for one with room for it. -/
theorem recv_keeps_message_small : ∃ s s' : CallState (Gfp Buddy),
    receiveOne 0 = .ok (.error .outOfBoundary, s) ∧ ¬StillNext 0 0 s ∧
    receiveOne 1 = .ok (.ok true, s') ∧ Deliverable (gfpFrames buddyRaw) (fun _ => .ok 0) 0
      ⟨7, [7], [], by decide, by decide⟩ (packetOf 1) oneMessage := by
  have hfails := eq_ok_of_failed (x := receiveOne 0) oneMessage (e := .outOfBoundary) (by decide)
  have hfits := eq_ok_of_returned (a := true) (x := receiveOne 1) oneMessage (by decide)
  have hkeeps := (recv_keeps_message (gfpFrames buddyRaw) process (fun _ => .ok 0)
    (fun _ => .ok ())).1
  obtain ⟨hlost, -⟩ := hkeeps _ _ _ _ _ hfails 0 0 0 _ oneMessage_receives
  obtain ⟨-, herror, -⟩ := hkeeps _ _ _ _ _ hfits 0 0 0 _ oneMessage_receives
  refine ⟨_, _, hfails, hlost, hfits, ?_⟩
  by_contra hnot
  obtain ⟨err, he⟩ := herror hnot
  cases he

/-- **A message is lost**: the packet has no room for the byte, the call returns an error, the
message is gone and its sender has been told that it was received. -/
theorem message_lost : ∃ s' : CallState (Gfp Buddy),
    receiveOne 0 = .ok (.error .outOfBoundary, s') ∧
    (oneMessage.endpoints 0).messages.nodes = [0] ∧ (oneMessage.ipc.sends 0).state = .pending ∧
    (s'.endpoints 0).messages.nodes = [] ∧ s'.ipc.heap 0 = none ∧
    (s'.ipc.sends 0).state = .complete :=
  ⟨_, eq_ok_of_failed oneMessage (by decide), by decide, by decide, by decide, by decide,
    by decide⟩

end Sustcore
