/-
# Messages are delivered once and in order

A run of an endpoint is made of sends, receives, cancellations and waits, with thread calls
in between.  `accepted` lists the messages of the successful sends that were not withdrawn,
`received` the messages that waits returned, with the receive; `owner` is the thread that made
a receive.

If a thread with a pending receive is killed, the receive stays pending.  The next send
completes its promise, fails to wake the dying thread up, puts the receive back and returns
an error, although other receives are pending; the promise that is complete already refuses
every later send that comes to it (`send_refused`).  In the runs in which no such thread is
killed the endpoint is a queue with exactly one receiver for each message
(`endpoint_exactly_once`).
-/
import Sustcore.EndpointInvariant

namespace Sustcore

open List Except Relation Function

/-! ## Runs -/

/-- An endpoint, the owners of the receives, the messages of the successful sends that were not
withdrawn, and the messages that receives returned. -/
structure EndpointRun where
  state : EndpointState
  owner : ℕ → ℕ
  accepted : List ℕ
  received : List (ℕ × ℕ)

namespace EndpointRun

variable {s s' : EndpointRun} {handed : List (ℕ × ℕ)}

/-- A new endpoint, before the first thread is created. -/
def init : EndpointRun where
  state :=
    { ipc :=
        { sched := Sched.boot
          nextWd := 1
          sends := fun _ => ⟨.pending, 0, none, false⟩
          nextSend := 0
          recvs := fun _ => ⟨.pending, 0, none, false⟩
          nextRecv := 0
          heap := fun _ => none
          nextMsg := 0 }
      payload := ⟨NodeList.empty, [], NodeList.empty⟩ }
  owner _ := 0
  accepted := []
  received := []

/-- The number of the message of a successful send. -/
def sent (s : EndpointRun) : Result ℕ → List ℕ
  | .ok _ => [s.state.ipc.nextMsg]
  | .error _ => []

/-- The message that a wait for the receive `p` returns. -/
def taken (p : ℕ) : Result (Option ℕ) → List (ℕ × ℕ)
  | .ok (some m) => [(m, p)]
  | _ => []

/-- What is left of the accepted messages after a message was withdrawn. -/
def kept (s : EndpointRun) : Option ℕ → List ℕ
  | some m => s.accepted.erase m
  | none => s.accepted

/-- The steps of a run.  A thread that calls `recv` is not dying.  Descriptors come from
`alloc_reason`, here and for other objects.  A thread call meets the conditions under which no
thread is lost, and `Kills` says which threads it may kill. -/
inductive Step (Kills : EndpointRun → ℕ → Prop) : EndpointRun → EndpointRun → Prop
  | thread (s : EndpointRun) (call : ThreadCall) (sched : Sched)
      (hpossible : call.Possible s.state.ipc.sched) (hmeets : call.Meets s.state.ipc.sched)
      (hwds : ∀ wd ∈ call.wds, wd < s.state.ipc.nextWd)
      (hkill : ∀ t, call = .kill t → Kills s t)
      (hrun : call.run s.state.ipc.sched = .ok sched) :
      Step Kills s { s with state := { s.state with ipc := { s.state.ipc with sched := sched } } }
  | allocReason (s : EndpointRun) :
      Step Kills s { s with state := { s.state with
        ipc := { s.state.ipc with nextWd := s.state.ipc.nextWd + 1 } } }
  | send (s : EndpointRun) (perm : Perm) (pid : ℕ) (view : EndpointMsgView) :
      Step Kills s { s with
        state := (s.state.send perm pid view).2
        accepted := s.accepted ++ s.sent (s.state.send perm pid view).1 }
  | recv (s : EndpointRun) (perm : Perm) (t : ℕ) (hcurrent : s.state.ipc.sched.current = some t)
      (halive : (s.state.ipc.sched.tcb t).state ≠ .dying) :
      Step Kills s { s with
        state := (s.state.recv perm).2
        owner := update s.owner s.state.ipc.nextRecv t }
  | cancleRecv (s : EndpointRun) (p : ℕ) :
      Step Kills s { s with state := (s.state.cancleRecv p).2 }
  | cancleSend (s : EndpointRun) (q : ℕ) :
      Step Kills s { s with
        state := (s.state.cancleSend q).2
        accepted := s.kept (s.state.withdrawn q) }
  | waitForRecv (s : EndpointRun) (p : ℕ) (r : Result (Option ℕ)) (ipc : Ipc)
      (hp : p < s.state.ipc.nextRecv) (hcall : s.state.ipc.waitForRecv p = .ok (r, ipc)) :
      Step Kills s { s with
        state := { s.state with ipc := ipc }
        received := s.received ++ taken p r }
  | waitForSend (s : EndpointRun) (q : ℕ) (r : Result (Option Unit)) (ipc : Ipc)
      (hq : q < s.state.ipc.nextSend) (hcall : s.state.ipc.waitForSend q = .ok (r, ipc)) :
      Step Kills s { s with state := { s.state with ipc := ipc } }

/-- The thread made no receive that is pending, and waits for none. -/
def NotReceiving (s : EndpointRun) (t : ℕ) : Prop :=
  ∀ p ∈ s.state.payload.pendingRecvs,
    s.owner p ≠ t ∧ t ∉ s.state.ipc.sched.queues (s.state.ipc.recvs p).waitWd

/-- `handed` lists the messages that were handed to receives, and the receives, in that
order. -/
structure Inv (handed : List (ℕ × ℕ)) (s : EndpointRun) : Prop where
  wf : s.state.Wf s.owner
  order : s.accepted = handed.map Prod.fst ++ s.state.payload.messages.nodes
  nodup : s.accepted.Nodup
  handed_lt : ∀ x ∈ handed, x.1 < s.state.ipc.nextMsg ∧ x.2 < s.state.ipc.nextRecv
  turns : (handed.map Prod.snd ++ s.state.payload.pendingRecvs.nodes).Pairwise (· < ·)
  delivered : ∀ x ∈ handed, (s.state.ipc.recvs x.2).state = .complete ∧
      (s.state.ipc.recvs x.2).value = some x.1 ∨
    (s.state.ipc.recvs x.2).state = .consumed ∧ x ∈ s.received
  complete : ∀ p, (s.state.ipc.recvs p).state = .complete → p ∈ handed.map Prod.snd
  received : ∀ x ∈ s.received, x ∈ handed ∧ (s.state.ipc.recvs x.2).state = .consumed
  received_nodup : s.received.Nodup

variable (h : s.Inv handed)

include h

variable {state : EndpointState}

theorem Inv.of_kept {owner : ℕ → ℕ} {accepted : List ℕ} (hwf : state.Wf owner)
    (horder : accepted = handed.map Prod.fst ++ state.payload.messages.nodes)
    (hnodup : accepted.Nodup) (hnextMsg : s.state.ipc.nextMsg ≤ state.ipc.nextMsg)
    (hnextRecv : s.state.ipc.nextRecv ≤ state.ipc.nextRecv)
    (hturns : (handed.map Prod.snd ++ state.payload.pendingRecvs.nodes).Pairwise (· < ·))
    (hkept : ∀ x ∈ handed, state.ipc.recvs x.2 = s.state.ipc.recvs x.2)
    (hcomplete : ∀ p, (state.ipc.recvs p).state = .complete →
      (s.state.ipc.recvs p).state = .complete) :
    { s with state := state, owner := owner, accepted := accepted }.Inv handed := by
  refine ⟨hwf, horder, hnodup, ?_, hturns, ?_, fun p hp => h.complete p (hcomplete p hp), ?_,
    h.received_nodup⟩
  · intro x hx
    obtain ⟨hmsg, hrecv⟩ := h.handed_lt x hx
    exact ⟨lt_of_lt_of_le hmsg hnextMsg, lt_of_lt_of_le hrecv hnextRecv⟩
  · intro x hx
    simp only [hkept x hx]
    exact h.delivered x hx
  · intro x hx
    obtain ⟨hin, hconsumed⟩ := h.received x hx
    simp only [hkept x hin]
    exact ⟨hin, hconsumed⟩

/-- The queues, the states of the receives and the lists stay as they are. -/
theorem Inv.of_same {owner : ℕ → ℕ}
    (hwf : state.Wf owner) (hmessages : state.payload.messages = s.state.payload.messages)
    (hpending : state.payload.pendingRecvs = s.state.payload.pendingRecvs)
    (hrecvs : state.ipc.recvs = s.state.ipc.recvs)
    (hnextRecv : state.ipc.nextRecv = s.state.ipc.nextRecv)
    (hnextMsg : state.ipc.nextMsg = s.state.ipc.nextMsg) :
    { s with state := state, owner := owner }.Inv handed := by
  refine h.of_kept hwf ?_ h.nodup hnextMsg.ge hnextRecv.ge ?_ (fun x _ => by rw [hrecvs])
    fun p hp => by rwa [hrecvs] at hp
  · rw [hmessages]
    exact h.order
  · rw [hpending]
    exact h.turns

theorem Inv.hand {p m : ℕ}
    (hp : p ∉ handed.map Prod.snd) (hhanded : EndpointState.Handed p m s.state state) :
    (∀ x ∈ handed ++ [(m, p)], (state.ipc.recvs x.2).state = .complete ∧
      (state.ipc.recvs x.2).value = some x.1 ∨
      (state.ipc.recvs x.2).state = .consumed ∧ x ∈ s.received) ∧
    (∀ p', (state.ipc.recvs p').state = .complete → p' ∈ (handed ++ [(m, p)]).map Prod.snd) ∧
    ∀ x ∈ s.received, x ∈ handed ++ [(m, p)] ∧ (state.ipc.recvs x.2).state = .consumed := by
  obtain ⟨hstate, hvalue, hother⟩ := hhanded
  have hne : ∀ x ∈ handed, x.2 ≠ p := by
    rintro x hx rfl
    exact hp (mem_map_of_mem hx)
  refine ⟨?_, ?_, ?_⟩
  · intro x hx
    rcases mem_append.mp hx with hx | hx
    · rw [hother x.2 (hne x hx)]
      exact h.delivered x hx
    · obtain rfl := mem_singleton.mp hx
      exact .inl ⟨hstate, hvalue⟩
  · intro p' hcomplete
    rw [map_append, mem_append]
    by_cases heq : p' = p
    · exact .inr (mem_singleton.mpr heq)
    · rw [hother p' heq] at hcomplete
      exact .inl (h.complete p' hcomplete)
  · intro x hx
    obtain ⟨hin, hconsumed⟩ := h.received x hx
    rw [hother x.2 (hne x hin)]
    exact ⟨mem_append_left _ hin, hconsumed⟩

/-- The number of a new message was not used before. -/
theorem Inv.accepted_lt {m : ℕ} (hm : m ∈ s.accepted) : m < s.state.ipc.nextMsg := by
  rw [h.order, mem_append] at hm
  rcases hm with hm | hm
  · obtain ⟨x, hx, rfl⟩ := mem_map.mp hm
    exact (h.handed_lt x hx).1
  · exact h.wf.messages_lt m hm

theorem Inv.accepted_nodup : (s.accepted ++ [s.state.ipc.nextMsg]).Nodup := by
  refine nodup_append.mpr ⟨h.nodup, nodup_singleton _, ?_⟩
  rintro m hm _ hnew rfl
  obtain rfl := mem_singleton.mp hnew
  exact absurd (h.accepted_lt hm) (lt_irrefl _)

/-! ## One step -/

theorem Inv.send (perm : Perm) (pid : ℕ) (view : EndpointMsgView) :
    ∃ handed', { s with
      state := (s.state.send perm pid view).2
      accepted := s.accepted ++ s.sent (s.state.send perm pid view).1 }.Inv handed' := by
  by_cases hmay : EndpointState.MaySend perm view
  · obtain ⟨msg, hsend⟩ := EndpointState.send_of_maySend (s := s.state) pid hmay
    rw [hsend]
    cases hfirst : s.state.payload.pendingRecvs.nodes with
    | nil =>
      obtain ⟨state, hdispatch, hwf, hmessages, hpending, hrecvs, hnextRecv, hnextMsg⟩ :=
        h.wf.dispatchSend_queued msg hfirst
      rw [hdispatch]
      refine ⟨handed, h.of_kept hwf ?_ h.accepted_nodup (hnextMsg ▸ Nat.le_succ _) hnextRecv.ge ?_
        (fun x _ => by rw [hrecvs]) fun p hp => by rwa [hrecvs] at hp⟩
      · show s.accepted ++ [s.state.ipc.nextMsg] = _
        rw [hmessages, ← append_assoc, ← h.order]
      · rw [hpending]
        exact h.turns
    | cons p rest =>
      obtain ⟨state, hdispatch, hwf, hmessages, hrest, hhanded, hnextRecv, hnextMsg⟩ :=
        h.wf.dispatchSend_handed msg hfirst
      rw [hdispatch]
      have hp := NodeList.mem_of_first hfirst
      -- there is no message in the queue, so the new one is next
      have hempty : s.state.payload.messages.nodes = [] := by
        rcases h.wf.either with hempty | hnone
        · exact hempty
        · rw [hfirst] at hnone
          cases hnone
      have hturns := h.turns
      rw [hfirst] at hturns
      have hnot : p ∉ handed.map Prod.snd := fun hin => lt_irrefl p
        ((pairwise_append.mp hturns).2.2 p hin p mem_cons_self)
      obtain ⟨hdelivered, hcomplete, hreceived⟩ := h.hand hnot hhanded
      refine ⟨handed ++ [(s.state.ipc.nextMsg, p)], hwf, ?_, h.accepted_nodup, ?_, ?_, hdelivered,
        hcomplete, hreceived, h.received_nodup⟩
      · rw [hmessages, h.order, hempty, map_append, append_nil, append_nil]
        rfl
      · intro x hx
        rw [hnextMsg, hnextRecv]
        rcases mem_append.mp hx with hx | hx
        · exact ⟨Nat.lt_succ_of_lt (h.handed_lt x hx).1, (h.handed_lt x hx).2⟩
        · obtain rfl := mem_singleton.mp hx
          exact ⟨Nat.lt_succ_self _, (h.wf.pending p hp).1⟩
      · rwa [hrest, map_append, append_assoc]
  · obtain ⟨e, hsend⟩ := EndpointState.send_of_not_maySend (s := s.state) pid hmay
    rw [hsend]
    refine ⟨handed, ?_⟩
    show EndpointRun.Inv handed { s with accepted := s.accepted ++ [] }
    rwa [append_nil]

theorem Inv.recv (perm : Perm) {t : ℕ} (halive : (s.state.ipc.sched.tcb t).state ≠ .dying) :
    ∃ handed', { s with
      state := (s.state.recv perm).2
      owner := update s.owner s.state.ipc.nextRecv t }.Inv handed' := by
  have hnew := h.wf.nextRecv_fresh
  have hnot : s.state.ipc.nextRecv ∉ handed.map Prod.snd := by
    intro hin
    obtain ⟨x, hx, heq⟩ := mem_map.mp hin
    have hlt := (h.handed_lt x hx).2
    rw [heq] at hlt
    exact lt_irrefl _ hlt
  cases hread : perm.imply EndpointState.READ with
  | false =>
    rw [EndpointState.recv_of_not_imply hread]
    exact ⟨handed, h.of_same (h.wf.setOwner hnew) rfl rfl rfl rfl rfl⟩
  | true =>
    cases hfirst : s.state.payload.messages.nodes with
    | nil =>
      obtain ⟨state, hrecv, hwf, hmessages, hpending, hstate, hother, hnextRecv, hnextMsg⟩ :=
        h.wf.recv_pending hread hfirst halive
      rw [hrecv]
      refine ⟨handed, h.of_kept hwf ?_ h.nodup hnextMsg.ge (hnextRecv ▸ Nat.le_succ _) ?_ ?_ ?_⟩
      · rw [hmessages]
        exact h.order
      · rw [hpending, ← append_assoc]
        refine pairwise_append.mpr ⟨h.turns, pairwise_singleton _ _, ?_⟩
        intro p hp p' hp'
        obtain rfl := mem_singleton.mp hp'
        rcases mem_append.mp hp with hp | hp
        · obtain ⟨x, hx, rfl⟩ := mem_map.mp hp
          exact (h.handed_lt x hx).2
        · exact (h.wf.pending p hp).1
      · intro x hx
        exact hother x.2 fun heq => hnot (heq ▸ mem_map_of_mem hx)
      · intro p hcomplete
        have hp : p ≠ s.state.ipc.nextRecv := by
          rintro rfl
          rw [hstate] at hcomplete
          cases hcomplete
        rwa [hother p hp] at hcomplete
    | cons m rest =>
      obtain ⟨state, hrecv, hwf, hrest, hpending, hhanded, hnextRecv, hnextMsg⟩ :=
        h.wf.recv_message hread hfirst
      rw [hrecv]
      -- there is a message in the queue, so no receive is pending
      have hnone : s.state.payload.pendingRecvs.nodes = [] := by
        rcases h.wf.either with hempty | hnone
        · rw [hfirst] at hempty
          cases hempty
        · exact hnone
      have hm := NodeList.mem_of_first hfirst
      have howner : s.state.ipc.nextRecv ∉ state.payload.pendingRecvs := by
        rwa [hpending]
      obtain ⟨hdelivered, hcomplete, hreceived⟩ := h.hand hnot hhanded
      refine ⟨handed ++ [(m, s.state.ipc.nextRecv)], hwf.setOwner howner, ?_, h.nodup, ?_, ?_,
        hdelivered, hcomplete, hreceived, h.received_nodup⟩
      · rw [hrest, h.order, hfirst, map_append, append_assoc]
        rfl
      · intro x hx
        rw [hnextMsg, hnextRecv]
        rcases mem_append.mp hx with hx | hx
        · exact ⟨(h.handed_lt x hx).1, Nat.lt_succ_of_lt (h.handed_lt x hx).2⟩
        · obtain rfl := mem_singleton.mp hx
          exact ⟨h.wf.messages_lt m hm, Nat.lt_succ_self _⟩
      · have hturns := h.turns
        rw [hnone, append_nil] at hturns
        rw [hpending, hnone, append_nil, map_append]
        refine pairwise_append.mpr ⟨hturns, pairwise_singleton _ _, ?_⟩
        intro p hp p' hp'
        obtain rfl := mem_singleton.mp hp'
        obtain ⟨x, hx, rfl⟩ := mem_map.mp hp
        exact (h.handed_lt x hx).2

theorem Inv.cancleRecv (p : ℕ) :
    { s with state := (s.state.cancleRecv p).2 }.Inv handed := by
  obtain ⟨hwf, hmessages, hpending, hrecvs, hnextRecv, hnextMsg⟩ := h.wf.cancleRecv p
  refine h.of_kept hwf ?_ h.nodup hnextMsg.ge hnextRecv.ge (h.turns.sublist (hpending.append_left _))
    ?_ ?_
  · rw [hmessages]
    exact h.order
  · intro x hx
    refine (hrecvs x.2).resolve_right ?_
    rintro ⟨hstate, -⟩
    have hdelivered := h.delivered x hx
    rw [hstate] at hdelivered
    rcases hdelivered with ⟨hcomplete, -⟩ | ⟨hconsumed, -⟩
    · cases hcomplete
    · cases hconsumed
  · intro p' hcomplete
    rcases hrecvs p' with hsame | ⟨-, hcancled⟩
    · rwa [hsame] at hcomplete
    · cases hcancled.symm.trans hcomplete

theorem Inv.cancleSend (q : ℕ) :
    { s with
      state := (s.state.cancleSend q).2
      accepted := s.kept (s.state.withdrawn q) }.Inv handed := by
  obtain ⟨hwf, hpending, hmessages, hrecvs, hnextRecv, hnextMsg⟩ := h.wf.cancleSend q
  refine h.of_kept hwf ?_ ?_ hnextMsg.ge hnextRecv.ge ?_ (fun x _ => by rw [hrecvs])
    fun p hp => by rwa [hrecvs] at hp
  · rw [hmessages]
    cases hwithdrawn : s.state.withdrawn q with
    | none => exact h.order
    | some m =>
      -- the message is in the queue, and so it was not handed to anybody
      have hm : m ∈ s.state.payload.messages.nodes := h.wf.withdrawn_mem hwithdrawn
      have hnodup := h.nodup
      rw [h.order] at hnodup
      have hnot : m ∉ handed.map Prod.fst := fun hin =>
        (nodup_append.mp hnodup).2.2 m hin m hm rfl
      show s.accepted.erase m = _
      rw [h.order, erase_append_right _ hnot]
  · cases s.state.withdrawn q with
    | none => exact h.nodup
    | some m => exact h.nodup.erase m
  · rw [hpending]
    exact h.turns

theorem Inv.waitForRecv {p : ℕ} {r : Result (Option ℕ)} {ipc : Ipc}
    (hp : p < s.state.ipc.nextRecv) (hcall : s.state.ipc.waitForRecv p = .ok (r, ipc)) :
    { s with
      state := { s.state with ipc := ipc }
      received := s.received ++ taken p r }.Inv handed := by
  obtain ⟨hwf, hnextRecv, hnextMsg, hcase⟩ := h.wf.waitForRecv hp hcall
  rcases hcase with ⟨hrecvs, hnone⟩ | ⟨m, rfl, hstate, hvalue, hconsumed, hother⟩
  · have htaken : taken p r = [] := by
      unfold taken
      split
      · exact absurd rfl (hnone _)
      · rfl
    rw [htaken, append_nil]
    exact h.of_same hwf rfl rfl hrecvs hnextRecv hnextMsg
  · -- the receive was completed, so this message was handed to it
    obtain ⟨x, hx, rfl⟩ := mem_map.mp (h.complete p hstate)
    have hvalue' : x.1 = m := by
      rcases h.delivered x hx with ⟨-, hm⟩ | ⟨hused, -⟩
      · exact Option.some.inj (hm.symm.trans hvalue)
      · rw [hstate] at hused
        cases hused
    subst hvalue'
    have hturns := (pairwise_append.mp h.turns).1
    have hunique : ∀ y ∈ handed, y.2 = x.2 → y = x := fun y hy heq =>
      inj_on_of_nodup_map (hturns.imp ne_of_lt) hy hx heq
    have hnew : x ∉ s.received := by
      intro hin
      have hused := (h.received x hin).2
      rw [hstate] at hused
      cases hused
    refine ⟨hwf, h.order, h.nodup, ?_, h.turns, ?_, ?_, ?_, ?_⟩
    · rw [hnextMsg, hnextRecv]
      exact h.handed_lt
    · intro y hy
      by_cases heq : y.2 = x.2
      · obtain rfl := hunique y hy heq
        exact .inr ⟨hconsumed, mem_append_right _ mem_cons_self⟩
      · rw [hother y.2 heq]
        exact (h.delivered y hy).imp_right fun hused => ⟨hused.1, mem_append_left _ hused.2⟩
    · intro p' hcomplete
      have hcomplete' : (ipc.recvs p').state = .complete := hcomplete
      by_cases heq : p' = x.2
      · rw [heq] at hcomplete'
        cases hconsumed.symm.trans hcomplete'
      · rw [hother p' heq] at hcomplete'
        exact h.complete p' hcomplete'
    · intro y hy
      rcases mem_append.mp hy with hy | hy
      · obtain ⟨hin, hused⟩ := h.received y hy
        refine ⟨hin, ?_⟩
        by_cases heq : y.2 = x.2
        · rwa [heq]
        · rwa [hother y.2 heq]
      · obtain rfl := mem_singleton.mp hy
        exact ⟨hx, hconsumed⟩
    · refine nodup_append.mpr ⟨h.received_nodup, nodup_singleton _, ?_⟩
      rintro y hy _ hin rfl
      obtain rfl := mem_singleton.mp hin
      exact hnew hy

/-- **A step that kills no thread with a pending receive keeps the order.** -/
theorem Inv.step (hstep : Step NotReceiving s s') : ∃ handed', s'.Inv handed' := by
  cases hstep with
  | thread call sched hpossible hmeets hwds hkill hrun =>
    have hwf := h.wf.threadCall hpossible hmeets hrun hwds hkill
    exact ⟨handed, h.of_same hwf rfl rfl rfl rfl rfl⟩
  | allocReason =>
    refine ⟨handed, h.of_same ?_ rfl rfl rfl rfl rfl⟩
    exact { h.wf with
      nextWd_pos := Nat.succ_pos _
      sends_wd := fun q hq => Nat.lt_succ_of_lt (h.wf.sends_wd q hq)
      recvs_wd := fun p hp =>
        ⟨(h.wf.recvs_wd p hp).1, Nat.lt_succ_of_lt (h.wf.recvs_wd p hp).2⟩
      fresh := fun wd hwd => h.wf.fresh wd (Nat.le_of_succ_le hwd) }
  | send perm pid view => exact h.send perm pid view
  | recv perm t hcurrent halive => exact h.recv perm halive
  | cancleRecv p => exact ⟨handed, h.cancleRecv p⟩
  | cancleSend q => exact ⟨handed, h.cancleSend q⟩
  | waitForRecv p r ipc hp hcall => exact ⟨handed, h.waitForRecv hp hcall⟩
  | waitForSend q r ipc hq hcall =>
    obtain ⟨hwf, hnextRecv, hnextMsg, hrecvs⟩ := h.wf.waitForSend hq hcall
    exact ⟨handed, h.of_same hwf rfl rfl hrecvs hnextRecv hnextMsg⟩

omit h

theorem init_inv : init.Inv [] := by
  refine ⟨⟨Sched.boot_settled, one_pos, nofun, nofun, ?_, .inl rfl, ?_, ?_, ?_, nofun, nofun⟩,
    rfl, nodup_nil, nofun, List.Pairwise.nil, nofun, ?_, nofun, nodup_nil⟩
  · exact fun wd _ t => not_mem_nil
  · exact fun p hp => absurd hp not_mem_nil
  · exact fun p hp => absurd hp not_mem_nil
  · exact fun m hm => absurd hm not_mem_nil
  · intro p hcomplete
    cases hcomplete

/-! ## Exactly once and in order -/

/-- **An endpoint delivers every message once and in order** in a run in which no thread with
a pending receive is killed. -/
theorem endpoint_exactly_once (s : EndpointRun)
    (hrun : ReflTransGen (Step NotReceiving) init s) :
    (∃ handed : List (ℕ × ℕ), s.accepted = handed.map Prod.fst ++ s.state.payload.messages.nodes ∧
      (handed.map Prod.snd).Pairwise (· < ·) ∧
      (∀ x ∈ handed, (s.state.ipc.recvs x.2).state = .complete ∧
        (s.state.ipc.recvs x.2).value = some x.1 ∨ x ∈ s.received) ∧
      ∀ x ∈ s.received, x ∈ handed) ∧
    s.accepted.Nodup ∧ s.received.Nodup ∧
    (s.state.payload.messages.nodes = [] ∨ s.state.payload.pendingRecvs.nodes = []) ∧
    ∀ perm pid view, EndpointState.MaySend perm view →
      ∃ q state, s.state.send perm pid view = (.ok q, state) := by
  have hstep : ∀ a b : EndpointRun, (∃ handed, a.Inv handed) → Step NotReceiving a b →
      ∃ handed, b.Inv handed := fun _ _ ⟨_, h⟩ hstep => h.step hstep
  obtain ⟨handed, h⟩ := Transition.invariant hstep hrun ⟨[], init_inv⟩
  refine ⟨⟨handed, h.order, (pairwise_append.mp h.turns).1, ?_, ?_⟩, h.nodup,
    h.received_nodup, h.wf.either, ?_⟩
  · exact fun x hx => (h.delivered x hx).imp_right And.right
  · exact fun x hx => (h.received x hx).1
  · intro perm pid view hmay
    obtain ⟨msg, hsend⟩ := EndpointState.send_of_maySend (s := s.state) pid hmay
    rw [hsend]
    cases hfirst : s.state.payload.pendingRecvs.nodes with
    | nil =>
      obtain ⟨state, hdispatch, -⟩ := h.wf.dispatchSend_queued msg hfirst
      exact ⟨_, state, hdispatch⟩
    | cons p rest =>
      obtain ⟨state, hdispatch, -⟩ := h.wf.dispatchSend_handed msg hfirst
      exact ⟨_, state, hdispatch⟩

/-- The machine with an idle thread, the running thread `kinit` and two user threads, with the
numbers 0 to 3, and a new endpoint. -/
def started : EndpointRun :=
  { init with state := { init.state with ipc := { init.state.ipc with
    sched := valueOr Sched.boot ((((Sched.boot.create .idle .none).2.create .init
      .kinit).2.create .rr .none).2.create .rr .none).2.bootstrapTasks } } }

theorem step_create (Kills : EndpointRun → ℕ → Prop) (s : EndpointRun) (schdClass : ClassType)
    (role : BootThreadRole) (hcan : s.state.ipc.sched.CanCreate schdClass role) :
    Step Kills s { s with state := { s.state with ipc := { s.state.ipc with
      sched := (s.state.ipc.sched.create schdClass role).2 } } } :=
  .thread s (.create schdClass role) _ hcan trivial (fun wd hwd => absurd hwd (Set.notMem_empty wd))
    nofun rfl

theorem started_reached (Kills : EndpointRun → ℕ → Prop) :
    ReflTransGen (Step Kills) init started := by
  have hidle := ReflTransGen.single (step_create Kills init .idle .none
    ⟨.idle, rfl, fun _ u hu => absurd hu (Nat.not_lt_zero u)⟩)
  have hkinit := hidle.tail (step_create Kills _ .init .kinit ⟨.kinit, rfl, fun _ => by decide⟩)
  have hfirst := hkinit.tail (step_create Kills _ .rr .none ⟨.rr, rfl, nofun⟩)
  have hsecond := hfirst.tail (step_create Kills _ .rr .none ⟨.rr, rfl, nofun⟩)
  exact hsecond.tail (.thread _ .bootstrap _ trivial trivial
    (fun wd hwd => absurd hwd (Set.notMem_empty wd)) nofun (eq_ok_valueOr (by decide)))

/-- The running thread `t` makes a receive. -/
def receiving (s : EndpointRun) (t : ℕ) : EndpointRun :=
  { s with
    state := (s.state.recv EndpointState.READ).2
    owner := update s.owner s.state.ipc.nextRecv t }

/-- The threads and the promises after a wait for the receive `p`. -/
def waited (s : EndpointRun) (p : ℕ) : Ipc :=
  (valueOr (.error .failure, s.state.ipc) (s.state.ipc.waitForRecv p)).2

/-- The running thread blocks in a wait for the receive `p`. -/
def blocked (s : EndpointRun) (p : ℕ) : EndpointRun :=
  { s with state := { s.state with ipc := s.waited p }, received := s.received ++ [] }

def oneByte : EndpointMsgView := ⟨some [7], 1, none, 0⟩

/-- The thread 1 blocks in a receive and the thread 2 sends two messages: the first is handed to
the thread 1, the second is queued and then taken by the thread 2.  A third send is accepted. -/
theorem endpoint_exactly_once_two : ∃ s : EndpointRun,
    ReflTransGen (Step NotReceiving) init s ∧ s.accepted = [0, 1] ∧
    (s.state.ipc.recvs 0).value = some 0 ∧ s.received = [(1, 1)] ∧ s.accepted.Nodup ∧
    ∃ q state, s.state.send EndpointState.WRITE 5 oneByte = (.ok q, state) := by
  have hrecv := (started_reached NotReceiving).tail (.recv started EndpointState.READ 1
    (by decide) (by decide))
  have hblock := hrecv.tail (.waitForRecv _ 0 (.ok none) _ (by decide)
    (eq_ok_of_returned init.state.ipc (by decide)))
  have hsend := (hblock.tail (.send _ EndpointState.WRITE 5 oneByte)).tail
    (.send _ EndpointState.WRITE 5 oneByte)
  have hrecv' := hsend.tail (.recv _ EndpointState.READ 2 (by decide) (by decide))
  have hwait := hrecv'.tail (.waitForRecv _ 1 (.ok (some 1)) _ (by decide)
    (eq_ok_of_returned init.state.ipc (by decide)))
  obtain ⟨-, hnodup, -, -, hnext⟩ := endpoint_exactly_once _ hwait
  exact ⟨_, hwait, by decide, by decide, by decide, hnodup, hnext _ 5 _ (by decide)⟩

/-- The thread 1 waits for its receive and is killed; then the thread 2 waits for one. -/
def deserted : EndpointRun :=
  let s := (started.receiving 1).blocked 0
  let s := { s with state := { s.state with ipc := { s.state.ipc with
    sched := s.state.ipc.sched.kill 1 } } }
  (s.receiving 2).blocked 1

/-- **A send is refused because of the receive of a dead thread**, although a living thread
waits for a message. -/
theorem send_refused :
    ReflTransGen (Step fun _ _ => True) init deserted ∧
    EndpointState.MaySend EndpointState.WRITE oneByte ∧
    deserted.state.ipc.sched.current = some 3 ∧
    deserted.state.payload.pendingRecvs.nodes = [0, 1] ∧ deserted.owner 1 = 2 ∧
    (deserted.state.ipc.sched.tcb 2).state ≠ .dying ∧
    (deserted.state.send EndpointState.WRITE 5 oneByte).1 = .error .failure := by
  have hrecv := (started_reached fun _ _ => True).tail (.recv started EndpointState.READ 1
    (by decide) (by decide))
  have hblock := hrecv.tail (.waitForRecv _ 0 (.ok none) _ (by decide)
    (eq_ok_of_returned init.state.ipc (by decide)))
  have hkill := hblock.tail (.thread _ (.kill 1) _ trivial trivial
    (fun wd hwd => absurd hwd (Set.notMem_empty wd)) (fun _ _ => trivial) rfl)
  have hrecv' := hkill.tail (.recv _ EndpointState.READ 2 (by decide) (by decide))
  have hblock' := hrecv'.tail (.waitForRecv _ 1 (.ok none) _ (by decide)
    (eq_ok_of_returned init.state.ipc (by decide)))
  refine ⟨hblock', by decide, by decide, by decide, by decide, by decide, by decide⟩

end EndpointRun

end Sustcore
