/-
# What a call leaves in the space of its caller

`endpoint_call` makes a caller capability and a replier capability, under guards that remove
them again.  Once the message was received both guards are released.  The receiver takes the
replier capability, but nobody removes the caller capability: every call whose message is
received leaves one behind.  If the space has only one free slot, the caller capability is
left behind as well.

The array for the capabilities of the request has as many entries as a packet may have
capabilities, so there is no room for the replier capability behind a full packet.

`call_balanced` says when a call leaves the space as it was, up to the capabilities of the
reply.
-/
import Sustcore.EndpointReceive
import Sustcore.KernelRules

namespace Sustcore

open Function Kernel

section Balance

variable {F : Type} {A : FrameAllocator F} {s s' : CallState F} {holder : ℕ}

/-! ## The reply capabilities -/

/-- **`create_reply_slots`** makes both capabilities, or none, or only that of the caller. -/
theorem createReplySlots_eq_ok {r : Result ReplySlots}
    (hcall : createReplySlots A holder s = .ok (r, s')) :
    (∃ e, r = .error e ∧ s'.caps.caps = s.caps.caps ∧ ∀ i : Loc, i.1 = holder → s.caps.caps i ≠ none) ∨
    ∃ caller p, caller.valid = true ∧ s.caps.caps (caller.loc holder) = none ∧ ((∃ e, r = .error e ∧
        s'.caps.caps = update s.caps.caps (caller.loc holder) (some ⟨p, CALLER⟩) ∧
        ∀ i : Loc, i.1 = holder → s'.caps.caps i ≠ none) ∨
      ∃ replier, r = .ok ⟨caller, replier⟩ ∧ replier.valid = true ∧
        s.caps.caps (replier.loc holder) = none ∧ replier.loc holder ≠ caller.loc holder ∧
        s'.caps.caps = update (update s.caps.caps (caller.loc holder)
          (some ⟨p, CALLER⟩)) (replier.loc holder) (some ⟨p, REPLIER ||| Perm.MIGRATE_ONCE⟩)) := by
  obtain ⟨res, t, hfirst, hrest⟩ := attempt_bind_eq_ok.mp hcall
  obtain ⟨caps, hinsert, rfl⟩ := onCaps_eq_ok.mp hfirst
  cases res with
  | error e =>
    have hfull := insertToFree_error hinsert
    rcases insertToFree_eq_ok hinsert with ⟨e', -, rfl⟩ | ⟨p, idx, -, hr, -⟩
    · obtain ⟨rfl, rfl⟩ := throw_eq_ok.mp hrest
      exact .inl ⟨e, rfl, rfl, hfull⟩
    · cases hr
  | ok caller =>
    rcases insertToFree_eq_ok hinsert with ⟨e', hr, -⟩ | ⟨p, idx, hp, hr, hvalid, hfree, hcaps, -⟩
    · cases hr
    cases hr
    have hfree' : s.caps.caps (caller.loc holder) = none := hfree
    refine .inr ⟨caller, p, hvalid, hfree', ?_⟩
    rcases bind_eq_ok.mp hrest with ⟨e, hnext, rfl⟩ | ⟨replier, u, hnext, hpure⟩
    · obtain ⟨caps', hsecond, rfl⟩ := onCaps_eq_ok.mp hnext
      have hfull := insertToFree_error hsecond
      rcases insertToFree_eq_ok hsecond with ⟨e', -, rfl⟩ | ⟨p', idx, -, hr, -⟩
      · exact .inl ⟨e, rfl, hcaps, hfull⟩
      · cases hr
    · obtain ⟨rfl, rfl⟩ := pure_eq_ok.mp hpure
      obtain ⟨caps', hsecond, rfl⟩ := onCaps_eq_ok.mp hnext
      rcases insertToFree_eq_ok hsecond with ⟨e', hr, -⟩ |
        ⟨p', idx, hp', hr, hvalid', hfree', hcaps', -⟩
      · cases hr
      cases hr
      cases hp.symm.trans hp'
      have hne : replier.loc holder ≠ caller.loc holder := by
        intro heq
        rw [hcaps, heq, update_self] at hfree'
        cases hfree'
      refine .inr ⟨replier, rfl, hvalid', ?_, hne, ?_⟩
      · rw [hcaps, update_of_ne hne] at hfree'
        exact hfree'
      · have hfilled : caps.caps =
            update s.caps.caps (caller.loc holder) (some ⟨p, CALLER⟩) := hcaps
        rwa [← hfilled]

/-- The guards empty the two slots. -/
theorem removeSlots_eq_ok {slots : ReplySlots} {r : Result Unit}
    (hcall : removeSlots A holder slots s = .ok (r, s')) : r = .ok () ∧
      s'.caps.caps = update (update s.caps.caps (slots.replier.loc holder) none)
        (slots.caller.loc holder) none := by
  obtain ⟨_, t, hfirst, hrest⟩ := mustSucceed_bind_eq_ok.mp hcall
  obtain ⟨_, rfl, hsecond⟩ := mustSucceed_eq_ok.mp hrest
  obtain ⟨caps, hreplier, rfl⟩ := onCaps_eq_ok.mp hfirst
  obtain ⟨caps', hcaller, rfl⟩ := onCaps_eq_ok.mp hsecond
  rcases remove_eq_ok hreplier with ⟨e, he, -⟩ | ⟨c, -, -, -, hcaps, -⟩
  · cases he
  rcases remove_eq_ok hcaller with ⟨e, he, -⟩ | ⟨c', -, -, -, hcaps', -⟩
  · cases he
  refine ⟨rfl, ?_⟩
  rwa [← hcaps]

/-- Code under the guards that does not touch the holders. -/
theorem guarded_eq_ok {α : Type} {slots : ReplySlots} {x : Kernel (CallState F) α} {r : Result α}
    (hx : ∀ r' t, x s = .ok (r', t) → t.caps.caps = s.caps.caps)
    (hcall : guarded A holder slots x s = .ok (r, s')) :
    (∃ e, r = .error e ∧ s'.caps.caps = update (update s.caps.caps
      (slots.replier.loc holder) none) (slots.caller.loc holder) none) ∨
    ∃ a, r = .ok a ∧ x s = .ok (.ok a, s') ∧ s'.caps.caps = s.caps.caps := by
  obtain ⟨res, t, hres, hrest⟩ := attempt_bind_eq_ok.mp hcall
  have hcaps := hx res t hres
  cases res with
  | error e =>
    rcases bind_eq_ok.mp hrest with ⟨e', hremove, -⟩ | ⟨_, u, hremove, hthrow⟩
    · cases (removeSlots_eq_ok hremove).1
    · obtain ⟨rfl, rfl⟩ := throw_eq_ok.mp hthrow
      refine .inl ⟨e, rfl, ?_⟩
      rw [← hcaps]
      exact (removeSlots_eq_ok hremove).2
  | ok a =>
    obtain ⟨rfl, rfl⟩ := pure_eq_ok.mp hrest
    exact .inr ⟨a, rfl, hres, hcaps⟩

/-! ## The parts of a call -/

variable {cap c : Capability} {packet : MsgPacket}

theorem sendCall_caps {slots : ReplySlots} {caller : Caller} {r : Result PendingCall}
    (hcall : sendCall caller holder cap slots packet s = .ok (r, s')) :
    s'.caps.caps = s.caps.caps ∧ ∀ call, r = .ok call → call.holder = holder ∧ call.slots = slots := by
  unfold sendCall at hcall
  cases hcapidxs : callCapidxs packet slots.replier with
  | error h =>
    rw [hcapidxs] at hcall
    cases hcall
  | ok capidxs =>
  rw [hcapidxs] at hcall
  rcases bind_eq_ok.mp hcall with ⟨e, hfind, rfl⟩ | ⟨c, t, hfind, hrest⟩
  · obtain ⟨caps, hlookup, rfl⟩ := onCaps_eq_ok.mp hfind
    obtain ⟨rfl, -⟩ := lookup_eq_ok hlookup
    exact ⟨rfl, nofun⟩
  obtain ⟨caps, hlookup, rfl⟩ := onCaps_eq_ok.mp hfind
  obtain ⟨rfl, -⟩ := lookup_eq_ok hlookup
  rcases bind_eq_ok.mp hrest with ⟨e, hsend, rfl⟩ | ⟨q, u, hsend, hpure⟩
  · obtain ⟨-, rfl⟩ := ok_inj hsend
    exact ⟨rfl, nofun⟩
  obtain ⟨-, rfl⟩ := ok_inj hsend
  obtain ⟨rfl, rfl⟩ := pure_eq_ok.mp hpure
  refine ⟨rfl, ?_⟩
  intro call hr
  cases hr
  exact ⟨rfl, rfl⟩

variable {taskOf : ℕ → Option Caller}

theorem runningTcb_state {r : Result Caller}
    (hcall : runningTcb taskOf s = .ok (r, s')) : s' = s := by
  unfold runningTcb at hcall
  split at hcall
  · exact (ok_inj hcall).2.symm
  · exact (ok_inj hcall).2.symm

theorem currentHolder_keeps (caller : Caller) :
    Keeps (Fixes id) (currentHolder caller : Kernel (CallState F) ℕ) := by
  unfold currentHolder
  split
  · exact .throw _
  · exact .pure _

/-- `endpoint_object` and `reply_object` change nothing. -/
theorem typedObject_state {type : PayloadType} {capidx : CapIdx}
    {r : Result Capability} (hcall : typedObject type taskOf capidx s = .ok (r, s')) : s' = s := by
  have hkeeps : Keeps (Fixes id) (typedObject type taskOf capidx : Kernel (CallState F) _) := by
    refine .bind (fun _ _ _ => runningTcb_state) fun caller => ?_
    refine .bind (currentHolder_keeps caller) fun holder => ?_
    refine .bind ?_ fun cap => .bind .get fun _ =>
      .ite (.throw _) (.pure _)
    intro s r s' hfind
    obtain ⟨caps, hlookup, rfl⟩ := onCaps_eq_ok.mp hfind
    rw [(lookup_eq_ok hlookup).1]
    rfl
  exact hkeeps s r s' hcall

/-- The caller of a system call has the holder `holder`. -/
def HasHolder (taskOf : ℕ → Option Caller) (s : CallState F) (holder : ℕ) : Prop :=
  ∃ caller, s.ipc.sched.current.bind taskOf = some caller ∧ caller.holder = some holder

/-- The call gets to the point where it makes the reply capabilities. -/
def MakesSlots (taskOf : ℕ → Option Caller) (endpoint : CapIdx) (packet : MsgPacket)
    (s : CallState F) : Prop :=
  (∃ view, msgView packet = .ok view) ∧ ∃ cap, endpointObject taskOf endpoint s = .ok (.ok cap, s)

def OneFree (holder : ℕ) (s : CallState F) : Prop :=
  ∃ i : Loc, i.1 = holder ∧ s.caps.caps i = none ∧
    ∀ j : Loc, j.1 = holder → s.caps.caps j = none → j = i

variable {endpoint : CapIdx}

/-- **The first part of `endpoint_call`** leaves the space as it was when it fails, unless
there is exactly one free slot. -/
theorem endpointCall_eq_ok {r : Result PendingCall} (hholder : HasHolder taskOf s holder)
    (hcall : endpointCall A taskOf endpoint packet s = .ok (r, s')) :
    (∃ e, r = .error e ∧ s'.caps.caps = s.caps.caps ∧
      ¬(MakesSlots taskOf endpoint packet s ∧ OneFree holder s)) ∨
    ∃ (caller : CapIdx) (p : ℕ), s.caps.caps (caller.loc holder) = none ∧
      ((∃ e, r = .error e ∧ MakesSlots taskOf endpoint packet s ∧ OneFree holder s ∧
        s'.caps.caps = update s.caps.caps (caller.loc holder) (some ⟨p, CALLER⟩)) ∨
      ∃ call, r = .ok call ∧ call.holder = holder ∧ call.slots.caller = caller ∧
        s.caps.caps (call.slots.replier.loc holder) = none ∧
        call.slots.replier.loc holder ≠ caller.loc holder ∧
        s'.caps.caps = update (update s.caps.caps (caller.loc holder)
          (some ⟨p, CALLER⟩)) (call.slots.replier.loc holder)
          (some ⟨p, REPLIER ||| Perm.MIGRATE_ONCE⟩)) := by
  obtain ⟨c, hc, hh⟩ := hholder
  rcases ofResult_bind_eq_ok.mp hcall with ⟨e, hview, rfl, rfl⟩ | ⟨view, hview, hrest⟩
  · refine .inl ⟨e, rfl, rfl, ?_⟩
    rintro ⟨⟨⟨view, hok⟩, -⟩, -⟩
    rw [hview] at hok
    cases hok
  rw [bind_of_ok (runningTcb_of_some hc), bind_of_ok (currentHolder_of_some hh)] at hrest
  rcases bind_eq_ok.mp hrest with ⟨e, hobject, rfl⟩ | ⟨cap, t, hobject, hmake⟩
  · obtain rfl := typedObject_state hobject
    refine .inl ⟨e, rfl, rfl, ?_⟩
    rintro ⟨⟨-, cap, hok⟩, -⟩
    rw [hobject] at hok
    cases (ok_inj hok).1
  obtain rfl := typedObject_state hobject
  have hmakes : MakesSlots taskOf endpoint packet t := ⟨⟨view, hview⟩, cap, hobject⟩
  rcases bind_eq_ok.mp hmake with ⟨e, hslots, rfl⟩ | ⟨slots, u, hslots, hguarded⟩
  · rcases createReplySlots_eq_ok hslots with ⟨-, -, hcaps, hfull⟩ |
      ⟨caller, p, -, hfree, ⟨-, -, hcaps, hfull⟩ | ⟨_, hr, -⟩⟩
    · refine .inl ⟨e, rfl, hcaps, ?_⟩
      rintro ⟨-, i, hi, hnone, -⟩
      exact hfull i hi hnone
    · refine .inr ⟨caller, p, hfree, .inl ⟨e, rfl, hmakes, ?_, hcaps⟩⟩
      refine ⟨caller.loc holder, rfl, hfree, ?_⟩
      intro j hj hnone
      by_contra hne
      apply hfull j hj
      rwa [hcaps, update_of_ne hne]
    · cases hr
  · rcases createReplySlots_eq_ok hslots with ⟨_, hr, -⟩ |
      ⟨caller, p, -, hfree, ⟨_, hr, -⟩ | ⟨replier, hr, -, hfree', hne, hcaps⟩⟩
    · cases hr
    · cases hr
    cases hr
    rcases guarded_eq_ok (fun _ _ h => (sendCall_caps h).1) hguarded with
      ⟨e, rfl, hremoved⟩ | ⟨call, rfl, hsend, hsame⟩
    · refine .inl ⟨e, rfl, ?_, ?_⟩
      · rw [hremoved, hcaps, update_idem, update_comm hne, update_idem]
        have hcaller : update t.caps.caps (caller.loc holder) none = t.caps.caps :=
          update_eq_self_iff.mpr hfree.symm
        have hreplier : update t.caps.caps (replier.loc holder) none = t.caps.caps :=
          update_eq_self_iff.mpr hfree'.symm
        rw [hcaller, hreplier]
      · rintro ⟨-, i, -, -, hunique⟩
        exact hne ((hunique _ rfl hfree').trans (hunique _ rfl hfree).symm)
    · obtain ⟨-, hcallok⟩ := sendCall_caps hsend
      obtain ⟨hcallholder, hcallslots⟩ := hcallok call rfl
      refine .inr ⟨caller, p, hfree, .inr ⟨call, rfl, hcallholder, ?_, ?_, ?_, ?_⟩⟩
      · rw [hcallslots]
      · rwa [hcallslots]
      · rwa [hcallslots]
      · rwa [hcallslots, hsame]

/-! ## The message of a call -/

theorem createReplySlots_ipc {r : Result ReplySlots}
    (hcall : createReplySlots A holder s = .ok (r, s')) : s'.ipc = s.ipc := by
  obtain ⟨res, t, hfirst, hrest⟩ := attempt_bind_eq_ok.mp hcall
  obtain ⟨caps, -, rfl⟩ := onCaps_eq_ok.mp hfirst
  cases res with
  | error e =>
    obtain ⟨-, rfl⟩ := throw_eq_ok.mp hrest
    rfl
  | ok caller =>
    rcases bind_eq_ok.mp hrest with ⟨e, hnext, -⟩ | ⟨replier, u, hnext, hpure⟩
    · obtain ⟨caps', -, rfl⟩ := onCaps_eq_ok.mp hnext
      rfl
    · obtain ⟨-, rfl⟩ := pure_eq_ok.mp hpure
      obtain ⟨caps', -, rfl⟩ := onCaps_eq_ok.mp hnext
      rfl

theorem EndpointState.dispatchSend_heap (s : EndpointState) (q m : ℕ) :
    (s.dispatchSend q m).2.ipc.heap = s.ipc.heap := by
  have hset : ∀ p, ∃ r recvs sched, s.ipc.setRecvValue p m =
      (r, { s.ipc with recvs := recvs, sched := sched }) := by
    intro p
    unfold Ipc.setRecvValue
    split
    · exact ⟨_, _, _, rfl⟩
    · obtain ⟨r, sched, hwake⟩ := (s.ipc.setRecv p fun a =>
        { a with value := some m, state := .complete }).wake_shape (s.ipc.recvs p).waitWd
      exact ⟨r, _, sched, hwake⟩
  unfold dispatchSend
  split
  · rfl
  rename_i p _ _
  obtain ⟨r, recvs, sched, hset⟩ := hset p
  simp only [hset]
  cases r with
  | error e => rfl
  | ok =>
    obtain ⟨_, sends, sched', hsend⟩ :=
      Ipc.setSendValue_shape { s.ipc with recvs := recvs, sched := sched } q
    show (Ipc.setSendValue q _).2.heap = _
    rw [hsend]

theorem EndpointState.send_heap {s : EndpointState} {perm : Perm} {pid m : ℕ}
    {view : EndpointMsgView} {msg : EndpointMessage}
    (hmsg : (s.send perm pid view).2.ipc.heap m = some msg) : s.ipc.heap m = some msg ∨
      msg.senderPid = pid ∧ msg.capidxs = (view.capidxs.getD []).take view.capsz := by
  unfold send at hmsg
  split at hmsg
  · exact .inl hmsg
  split at hmsg
  · exact .inl hmsg
  split at hmsg
  · exact .inl hmsg
  rw [dispatchSend_heap] at hmsg
  by_cases hm : m = s.ipc.nextMsg
  · subst hm
    have hself := (update_self ..).symm.trans hmsg
    cases hself
    exact .inr ⟨rfl, rfl⟩
  · exact .inl ((update_of_ne hm ..).symm.trans hmsg)

theorem callCapidxs_take {replier : CapIdx} {capidxs : Fin MAX_MSG_CAPS → CapIdx}
    (h : callCapidxs packet replier = .ok capidxs) :
    ∀ idx ∈ (List.ofFn capidxs).take (packet.capsz + 1),
      (∃ k : Fin MAX_MSG_CAPS, k < packet.capsz ∧ packet.caplist k = idx) ∨ idx = replier := by
  intro idx hidx
  obtain ⟨k, hk, rfl⟩ := List.mem_take_iff_getElem.mp hidx
  rw [List.length_ofFn] at hk
  rw [List.getElem_ofFn]
  unfold callCapidxs at h
  split at h
  swap
  · cases h
  cases h
  by_cases hlast : k = packet.capsz
  · subst hlast
    exact .inr (update_self ..)
  · have hlt : k < packet.capsz := by omega
    refine .inl ⟨⟨k, by omega⟩, hlt, ?_⟩
    rw [update_of_ne (fun heq => hlast (congrArg Fin.val heq)), if_pos hlt]

theorem sendCall_capidxs {slots : ReplySlots} {caller : Caller} {call : PendingCall} {m : ℕ}
    {msg : EndpointMessage} (hcall : sendCall caller holder cap slots packet s = .ok (.ok call, s'))
    (hnew : s.ipc.heap m = none) (hmsg : s'.ipc.heap m = some msg) :
    ∀ idx ∈ msg.capidxs, (∃ k : Fin MAX_MSG_CAPS, k < packet.capsz ∧ packet.caplist k = idx) ∨
      idx = slots.replier := by
  unfold sendCall at hcall
  cases hcapidxs : callCapidxs packet slots.replier with
  | error h =>
    rw [hcapidxs] at hcall
    cases hcall
  | ok capidxs =>
  rw [hcapidxs] at hcall
  obtain ⟨c, t, hfind, hrest⟩ := bind_returns hcall
  obtain ⟨caps, -, rfl⟩ := onCaps_eq_ok.mp hfind
  obtain ⟨q, u, hsend, hpure⟩ := bind_returns hrest
  obtain ⟨-, rfl⟩ := pure_eq_ok.mp hpure
  obtain ⟨-, rfl⟩ := ok_inj hsend
  rcases EndpointState.send_heap hmsg with hold | ⟨-, hidxs⟩
  · cases hnew.symm.trans hold
  · rw [hidxs]
    exact callCapidxs_take hcapidxs

/-- **The message of a call** carries the capabilities of the packet, and the replier
capability. -/
theorem endpointCall_capidxs {call : PendingCall} {m : ℕ} {msg : EndpointMessage}
    (hcall : endpointCall A taskOf endpoint packet s = .ok (.ok call, s'))
    (hnew : s.ipc.heap m = none) (hmsg : s'.ipc.heap m = some msg) :
    ∀ idx ∈ msg.capidxs, (∃ k : Fin MAX_MSG_CAPS, k < packet.capsz ∧ packet.caplist k = idx) ∨
      idx = call.slots.replier := by
  obtain ⟨view, -, hrest⟩ := ofResult_bind_returns hcall
  obtain ⟨caller, t, hrunning, hfind⟩ := bind_returns hrest
  obtain rfl := runningTcb_state hrunning
  obtain ⟨holder, u, hholder, hlookup⟩ := bind_returns hfind
  obtain rfl : u = t := currentHolder_keeps caller _ _ _ hholder
  obtain ⟨cap, v, hobject, hmake⟩ := bind_returns hlookup
  obtain rfl := typedObject_state hobject
  obtain ⟨slots, w, hslots, hguarded⟩ := bind_returns hmake
  rw [← createReplySlots_ipc hslots] at hnew
  rcases guarded_eq_ok (fun _ _ h => (sendCall_caps h).1) hguarded with
    ⟨_, hr, -⟩ | ⟨_, hr, hsend, -⟩
  · cases hr
  cases hr
  rw [((sendCall_caps hsend).2 call rfl).2]
  exact sendCall_capidxs hsend hnew hmsg

/-! ## What nobody can transfer -/

/-- The capability can leave its holder. -/
def Capability.Movable (c : Capability) : Prop :=
  c.perm.imply Perm.MIGRATE = true ∨ c.perm.imply Perm.MIGRATE_ONCE = true

theorem caller_not_movable (p : ℕ) : ¬Capability.Movable ⟨p, CALLER⟩ := by
  show ¬(CALLER.imply Perm.MIGRATE = true ∨ CALLER.imply Perm.MIGRATE_ONCE = true)
  decide

variable {i : Loc}

theorem transferLoop_keeps {σ : Type} {O : Payloads σ} {sender : ℕ}
    (hmovable : ¬c.Movable) : ∀ {capidxs inserted : List CapIdx} {t t' : CapState σ}
      {r : Result (List CapIdx)}, t.caps i = some c → ¬Inserted holder inserted i →
      transferLoop O sender holder capidxs inserted t = .ok (r, t') → t'.caps i = some c := by
  intro capidxs
  induction capidxs with
  | nil =>
    intro inserted t t' r hi _ hloop
    rwa [(pure_eq_ok.mp hloop).2]
  | cons idx rest ih =>
    intro inserted t t' r hi hnot hloop
    rcases transferLoop_cons_eq_ok hloop with ⟨_, u, -, hcaps, hcleanup⟩ |
      ⟨c', target, u, -, hc', hfree, hpath, hrest⟩
    · -- the cleanup empties only what was inserted
      rwa [((cleanupInserted_eq_ok hcleanup).2 i).2.1 hnot, hcaps]
    · have htarget : i ≠ target.loc holder := by
        rintro rfl
        rw [hfree] at hi
        cases hi
      have hnot' : ¬Inserted holder (inserted ++ [target]) i := by
        rw [inserted_append, not_or]
        exact ⟨hnot, Ne.symm htarget⟩
      refine ih ?_ hnot' hrest
      rcases hpath with ⟨-, p, hcaps⟩ | ⟨-, hmove, hcaps⟩
      · rwa [hcaps, update_of_ne htarget]
      have hsource : i ≠ idx.loc sender := by
        rintro rfl
        rw [hi] at hc'
        cases hc'
        exact hmovable hmove
      rwa [hcaps, update_of_ne hsource, update_of_ne htarget]

variable {holderOf : ℕ → Result ℕ} {msg : EndpointMessage}

theorem writeReceivedMsg_keeps {R : CallState F → CallState F → Prop} [Std.Refl R]
    [IsTrans (CallState F) R] (h : Keeps R (onCaps
      (insertReceivedCaps (World.payloads A) holderOf (some holder) msg))) :
    Keeps R (writeReceivedMsg A holderOf holder msg packet) :=
  .ite (.throw _) (.ite (.pure _) (.bind h fun _ => .pure _))

def Stays (i : Loc) (c : Capability) (s s' : CallState F) : Prop :=
  s.caps.caps i = some c → s'.caps.caps i = some c

instance : Std.Refl (Stays (F := F) i c) := ⟨fun _ h => h⟩

instance : IsTrans (CallState F) (Stays i c) := ⟨fun _ _ _ h₁ h₂ h => h₂ (h₁ h)⟩

theorem insertReceivedCaps_stays (hmovable : ¬c.Movable) : Keeps (Stays i c)
    (onCaps (insertReceivedCaps (World.payloads A) holderOf (some holder) msg)) := by
  intro s r s' hinsert hi
  obtain ⟨caps, hcaps, rfl⟩ := onCaps_eq_ok.mp hinsert
  rcases ofResult_bind_eq_ok.mp hcaps with ⟨e, -, -, rfl⟩ | ⟨sender, -, hloop⟩
  · exact hi
  · refine transferLoop_keeps hmovable hi ?_ hloop
    rintro ⟨slot, hslot, -⟩
    cases hslot

variable {commit : MsgPacket → Result Unit}

theorem takeMessage_stays (hmovable : ¬c.Movable) (m : ℕ) :
    Keeps (Stays i c) (takeMessage A holderOf commit holder m packet) := by
  refine .bind .get fun s => ?_
  split
  · exact .halt _
  refine .bind (writeReceivedMsg_keeps (insertReceivedCaps_stays hmovable)).attempt ?_
  intro res
  refine .bind (.modify fun _ h => h) fun _ => ?_
  exact .bind (.ofResult _) fun _ => .ofResult _

/-- A wait for the reply does not remove a capability that cannot leave its holder. -/
theorem recvRound_stays {p : ℕ} (hmovable : ¬c.Movable) :
    Keeps (Stays i c) (recvRound A holderOf commit holder p packet) := by
  refine .bind ?_ fun res => ?_
  · intro s r s' hwait hi
    obtain ⟨ipc, -, rfl⟩ := onIpc_eq_ok.mp hwait
    exact hi
  · split
    · exact .pure _
    · exact .bind (takeMessage_stays hmovable _) fun _ => .pure _

/-! ## Whole calls -/

def MsgPacket.slots (packet : MsgPacket) (holder : ℕ) : Set Loc :=
  {i | ∃ k : Fin MAX_MSG_CAPS, k < packet.capsz ∧ (packet.caplist k).loc holder = i}

/-- What the other threads do to the space of the caller while the call waits: the receiver of
the message takes capabilities that the message carries. -/
def Waited (packet : MsgPacket) (call : PendingCall) (s s' : CallState F) : Prop :=
  ∀ i : Loc, i.1 = call.holder → s'.caps.caps i = s.caps.caps i ∨
    (i ∈ packet.slots call.holder ∨ i = call.slots.replier.loc call.holder) ∧
      (∃ c, s.caps.caps i = some c ∧ c.Movable) ∧ s'.caps.caps i = none

/-- Where a call ends: before it waits, in the wait for the send, or after that. -/
inductive CallEnd where
  | refused
  | unsent
  | sent
  deriving DecidableEq

variable (A) in
/-- A call from its start to its end, with its result and the slots that the reply filled. -/
inductive CallRun (taskOf : ℕ → Option Caller) (holderOf : ℕ → Result ℕ)
    (commit : MsgPacket → Result Unit) (endpoint : CapIdx) (sendPacket replyPacket : MsgPacket) :
    CallState F → CallEnd → Result Unit → Set Loc → CallState F → Prop
  | refused (s s' : CallState F) (e : ErrCode)
      (hcall : endpointCall A taskOf endpoint sendPacket s = .ok (.error e, s')) :
      CallRun taskOf holderOf commit endpoint sendPacket replyPacket s .refused (.error e) ∅ s'
  | unsent (s s₁ s₂ s' : CallState F) (call : PendingCall) (e : ErrCode)
      (hcall : endpointCall A taskOf endpoint sendPacket s = .ok (.ok call, s₁))
      (hwait : Waited sendPacket call s₁ s₂)
      (hsend : callSendRound A call s₂ = .ok (.error e, s')) :
      CallRun taskOf holderOf commit endpoint sendPacket replyPacket s .unsent (.error e) ∅ s'
  | unreplied (s s₁ s₂ s₃ s' : CallState F) (call : PendingCall) (e : ErrCode)
      (hcall : endpointCall A taskOf endpoint sendPacket s = .ok (.ok call, s₁))
      (hwait : Waited sendPacket call s₁ s₂)
      (hsend : callSendRound A call s₂ = .ok (.ok (some ()), s₃))
      (hreply : replyRecv call.callerCap s₃ = .ok (.error e, s')) :
      CallRun taskOf holderOf commit endpoint sendPacket replyPacket s .sent (.error e) ∅ s'
  | replied (s s₁ s₂ s₃ s₄ s₅ s' : CallState F) (call : PendingCall) (p : ℕ)
      (r : Result Unit)
      (hcall : endpointCall A taskOf endpoint sendPacket s = .ok (.ok call, s₁))
      (hwait : Waited sendPacket call s₁ s₂)
      (hsend : callSendRound A call s₂ = .ok (.ok (some ()), s₃))
      (hreply : replyRecv call.callerCap s₃ = .ok (.ok p, s₄))
      (hwait' : Waited sendPacket call s₄ s₅)
      (hround : recvRound A holderOf commit call.holder p replyPacket s₅ =
        .ok (r.map some, s')) :
      CallRun taskOf holderOf commit endpoint sendPacket replyPacket s .sent r
        {i | s₅.caps.caps i = none ∧ s'.caps.caps i ≠ none} s'

/-- The space of the holder is as it was, but capabilities that the message carries may have
moved away, and what is new was received. -/
def Balanced (holder : ℕ) (packet : MsgPacket) (received : Set Loc) (s s' : CallState F) : Prop :=
  ∀ i : Loc, i.1 = holder →
    (s'.caps.caps i = s.caps.caps i ∨ s.caps.caps i = none ∨ i ∈ packet.slots holder ∧
      (∃ c, s.caps.caps i = some c ∧ c.Movable) ∧ (s'.caps.caps i = none ∨ i ∈ received)) ∧
    (s.caps.caps i = none → s'.caps.caps i ≠ none → i ∈ received)

variable {received : Set Loc}

theorem balanced_of_caps
    (h : s'.caps.caps = s.caps.caps) : Balanced holder packet received s s' := by
  intro i _
  rw [h]
  exact ⟨.inl rfl, fun hnone hsome => absurd hnone hsome⟩

/-- A slot that was empty and holds something that was not received. -/
theorem not_balanced (hi : i.1 = holder)
    (hfree : s.caps.caps i = none) (hnew : s'.caps.caps i ≠ none) (hnot : i ∉ received) :
    ¬Balanced holder packet received s s' := fun h => hnot ((h i hi).2 hfree hnew)

variable {call : PendingCall}

theorem callSendRound_caps {r : Result (Option Unit)}
    (hcall : callSendRound A call s = .ok (r, s')) :
    (∃ e, r = .error e ∧ s'.caps.caps = update (update s.caps.caps
      (call.slots.replier.loc call.holder) none) (call.slots.caller.loc call.holder) none) ∨
    ∃ a, r = .ok a ∧ s'.caps.caps = s.caps.caps := by
  have hwait : ∀ (r' : Result (Option Unit)) t, onIpc (Ipc.waitForSend call.future) s = .ok (r', t) →
      t.caps.caps = s.caps.caps := by
    intro r' t h
    obtain ⟨ipc, -, rfl⟩ := onIpc_eq_ok.mp h
    rfl
  exact (guarded_eq_ok hwait hcall).imp_right fun ⟨a, hr, _, hcaps⟩ => ⟨a, hr, hcaps⟩

theorem replyRecv_caps {r : Result ℕ}
    (hcall : replyRecv cap s = .ok (r, s')) : s'.caps = s.caps := by
  unfold replyRecv at hcall
  split at hcall
  · rw [(throw_eq_ok.mp hcall).2]
  simp only at hcall
  split at hcall <;> rw [← (ok_inj hcall).2]

theorem Waited.caller {p : ℕ} (h : Waited packet call s s') (hi : i.1 = call.holder)
    (hcaller : s.caps.caps i = some ⟨p, CALLER⟩) : s'.caps.caps i = some ⟨p, CALLER⟩ := by
  rcases h i hi with hsame | ⟨-, ⟨c, hc, hmovable⟩, -⟩
  · rwa [hsame]
  · rw [hcaller] at hc
    cases hc
    exact absurd hmovable (caller_not_movable p)

theorem Waited.of_caps (h : ∀ i : Loc, i.1 = call.holder → s'.caps.caps i = s.caps.caps i) :
    Waited packet call s s' := fun i hi => .inl (h i hi)

theorem Waited.trans {t : CallState F}
    (h₁ : Waited packet call s t) (h₂ : Waited packet call t s') : Waited packet call s s' := by
  intro i hi
  rcases h₁ i hi with hsame | ⟨hin, hmovable, hgone⟩
  · rw [← hsame]
    exact h₂ i hi
  · rcases h₂ i hi with hsame | ⟨-, ⟨c, hc, -⟩, -⟩
    · exact .inr ⟨hin, hmovable, hsame.trans hgone⟩
    · rw [hgone] at hc
      cases hc

instance : Std.Refl (Waited (F := F) packet call) := ⟨fun _ => Waited.of_caps fun _ _ => rfl⟩

instance : IsTrans (CallState F) (Waited packet call) := ⟨fun _ _ _ => Waited.trans⟩

/-- The transfer of the capabilities of a message takes movable capabilities out of the space
of the sender. -/
theorem transferLoop_sender {σ : Type} {O : Payloads σ} {sender : ℕ} (hne : sender ≠ holder) :
    ∀ {capidxs inserted : List CapIdx} {t t' : CapState σ} {r : Result (List CapIdx)},
      transferLoop O sender holder capidxs inserted t = .ok (r, t') → ∀ i : Loc, i.1 = sender →
      t'.caps i = t.caps i ∨ (∃ idx ∈ capidxs, idx.loc sender = i) ∧
        (∃ c, t.caps i = some c ∧ c.Movable) ∧ t'.caps i = none := by
  intro capidxs
  induction capidxs with
  | nil =>
    intro inserted t t' r hloop i _
    rw [(pure_eq_ok.mp hloop).2]
    exact .inl rfl
  | cons idx rest ih =>
    intro inserted t t' r hloop i hi
    have hout : ∀ slot : CapIdx, i ≠ slot.loc holder := by
      rintro slot rfl
      exact hne hi.symm
    rcases transferLoop_cons_eq_ok hloop with ⟨_, u, -, hcaps, hcleanup⟩ |
      ⟨c, target, u, -, hc, -, hpath, hrest⟩
    · left
      rw [((cleanupInserted_eq_ok hcleanup).2 i).2.1, hcaps]
      rintro ⟨slot, -, hslot⟩
      exact hout slot hslot.symm
    · have hstep : u.caps i = t.caps i ∨ idx.loc sender = i ∧ c.Movable ∧ u.caps i = none := by
        rcases hpath with ⟨-, p, hcaps⟩ | ⟨-, hmove, hcaps⟩
        · rw [hcaps, update_of_ne (hout target)]
          exact .inl rfl
        by_cases hsource : i = idx.loc sender
        · refine .inr ⟨hsource.symm, hmove, ?_⟩
          rw [hcaps, hsource, update_self]
        · rw [hcaps, update_of_ne hsource, update_of_ne (hout target)]
          exact .inl rfl
      rcases hstep with hsame | ⟨rfl, hmove, hgone⟩
      · rcases ih hrest i hi with hsame' | ⟨⟨idx', hin, hloc⟩, hmovable, hgone⟩
        · exact .inl (hsame'.trans hsame)
        · rw [hsame] at hmovable
          exact .inr ⟨⟨idx', List.mem_cons_of_mem _ hin, hloc⟩, hmovable, hgone⟩
      right
      refine ⟨⟨idx, List.mem_cons_self, rfl⟩, ⟨c, hc, hmove⟩, ?_⟩
      rcases ih hrest (idx.loc sender) hi with hsame | ⟨-, ⟨c', hc', -⟩, -⟩
      · rw [hsame, hgone]
      · rw [hgone] at hc'
        cases hc'

/-- **The receiver of the message of a call** does to the space of the caller what the call
expects while it waits. -/
theorem takeMessage_waited {m : ℕ} {received : MsgPacket} {r : Result Unit}
    (hmsg : s.ipc.heap m = some msg) (hsender : holderOf msg.senderPid = .ok call.holder)
    (hcapidxs : ∀ idx ∈ msg.capidxs, idx.loc call.holder ∈ packet.slots call.holder ∨
      idx.loc call.holder = call.slots.replier.loc call.holder) (hne : call.holder ≠ holder)
    (hcall : takeMessage A holderOf commit holder m received s = .ok (r, s')) :
    Waited packet call s s' := by
  have hinsert : Keeps (Waited packet call)
      (onCaps (insertReceivedCaps (World.payloads A) holderOf (some holder) msg)) := by
    intro s r s' hinsert
    obtain ⟨caps, hcaps, rfl⟩ := onCaps_eq_ok.mp hinsert
    rw [insertReceivedCaps, hsender] at hcaps
    intro i hi
    rcases transferLoop_sender hne hcaps i hi with hsame | ⟨⟨idx, hin, rfl⟩, hmovable, hgone⟩
    · exact .inl hsame
    · exact .inr ⟨hcapidxs idx hin, hmovable, hgone⟩
  unfold takeMessage at hcall
  rw [get_bind, hmsg] at hcall
  refine Keeps.bind (writeReceivedMsg_keeps hinsert).attempt ?_ _ _ _ hcall
  intro res
  refine Keeps.bind (Keeps.modify fun _ => Waited.of_caps fun _ _ => rfl) fun _ => ?_
  exact Keeps.bind (Keeps.ofResult _) fun _ => Keeps.ofResult _

/-- **A call that is not sent**: the guards undo what the call did. -/
theorem balanced_unsent {s₁ s₂ : CallState F} {e : ErrCode} (hholder : HasHolder taskOf s holder)
    (hcall : endpointCall A taskOf endpoint packet s = .ok (.ok call, s₁))
    (hwait : Waited packet call s₁ s₂) (hsend : callSendRound A call s₂ = .ok (.error e, s')) :
    Balanced holder packet received s s' := by
  rcases endpointCall_eq_ok hholder hcall with ⟨_, hr, -⟩ |
    ⟨caller, p, hfree, ⟨_, hr, -⟩ | ⟨call', hr, rfl, rfl, hfree', hne, hcaps⟩⟩
  · cases hr
  · cases hr
  cases hr
  rcases callSendRound_caps hsend with ⟨_, -, hremoved⟩ | ⟨_, hr', -⟩
  swap
  · cases hr'
  intro i hi
  -- the slots of the call are empty again, the others are as they were before the wait
  by_cases hcaller : i = call.slots.caller.loc call.holder
  · subst hcaller
    rw [hremoved, update_self]
    exact ⟨.inr (.inl hfree), fun _ hnew => absurd rfl hnew⟩
  by_cases hreplier : i = call.slots.replier.loc call.holder
  · subst hreplier
    rw [hremoved, update_of_ne hcaller, update_self]
    exact ⟨.inr (.inl hfree'), fun _ hnew => absurd rfl hnew⟩
  have hs₁ : s₁.caps.caps i = s.caps.caps i := by
    rw [hcaps, update_of_ne hreplier, update_of_ne hcaller]
  rw [hremoved, update_of_ne hcaller, update_of_ne hreplier]
  rcases hwait i hi with hsame | ⟨hin | hin, hmovable, hgone⟩
  · rw [hsame, hs₁]
    exact ⟨.inl rfl, fun hnone hsome => absurd hnone hsome⟩
  · rw [hs₁] at hmovable
    rw [hgone]
    exact ⟨.inr (.inr ⟨hin, hmovable, .inl rfl⟩), fun _ hnew => absurd rfl hnew⟩
  · exact absurd hin hreplier

/-- **A call that is sent** leaves the caller capability behind. -/
theorem caller_left {s₁ s₂ s₃ : CallState F} (hholder : HasHolder taskOf s holder)
    (hcall : endpointCall A taskOf endpoint packet s = .ok (.ok call, s₁))
    (hwait : Waited packet call s₁ s₂) (hsend : callSendRound A call s₂ = .ok (.ok (some ()), s₃)) :
    call.holder = holder ∧ ∃ p, s.caps.caps (call.slots.caller.loc holder) = none ∧
      s₃.caps.caps (call.slots.caller.loc holder) = some ⟨p, CALLER⟩ := by
  rcases endpointCall_eq_ok hholder hcall with ⟨_, hr, -⟩ |
    ⟨caller, p, hfree, ⟨_, hr, -⟩ | ⟨call', hr, rfl, rfl, hfree', hne, hcaps⟩⟩
  · cases hr
  · cases hr
  cases hr
  have hs₁ : s₁.caps.caps (call.slots.caller.loc call.holder) = some ⟨p, CALLER⟩ := by
    rw [hcaps, update_of_ne hne.symm, update_self]
  rcases callSendRound_caps hsend with ⟨_, hr', -⟩ | ⟨_, -, hsame⟩
  · cases hr'
  refine ⟨rfl, p, hfree, ?_⟩
  rw [hsame]
  exact hwait.caller rfl hs₁

variable (A) in
/-- **When a call is balanced.**  The array of the request is large enough exactly for the
packets that are not full.  A call leaves the space of the caller as it was exactly when its
message is not received, and it does not make the reply capabilities with one free slot. -/
theorem call_balanced (taskOf : ℕ → Option Caller) (holderOf : ℕ → Result ℕ)
    (commit : MsgPacket → Result Unit) :
    (∀ packet view, msgView packet = .ok view →
      ((∀ replier, ∃ capidxs, callCapidxs packet replier = .ok capidxs) ↔
        packet.capsz ≠ MAX_MSG_CAPS)) ∧
    ∀ endpoint sendPacket replyPacket (s s' : CallState F) ending r received holder,
      HasHolder taskOf s holder →
      CallRun A taskOf holderOf commit endpoint sendPacket replyPacket s ending r received s' →
      (Balanced holder sendPacket received s s' ↔ ending ≠ .sent ∧
        (ending = .refused → ¬(MakesSlots taskOf endpoint sendPacket s ∧ OneFree holder s))) := by
  refine ⟨?_, ?_⟩
  · intro packet view hview
    have hle : packet.capsz ≤ MAX_MSG_CAPS := by
      unfold msgView at hview
      split at hview
      · cases hview
      · omega
    unfold callCapidxs
    constructor
    · intro hall heq
      obtain ⟨capidxs, hok⟩ := hall 0
      rw [dif_neg (by omega)] at hok
      cases hok
    · intro hne replier
      rw [dif_pos (lt_of_le_of_ne hle hne)]
      exact ⟨_, rfl⟩
  · intro endpoint sendPacket replyPacket s s' ending r received holder hholder hrun
    cases hrun with
    | refused _ e hcall =>
      rcases endpointCall_eq_ok hholder hcall with ⟨_, -, hcaps, hnot⟩ |
        ⟨caller, p, hfree, ⟨_, -, hmakes, hone, hcaps⟩ | ⟨_, hr, -⟩⟩
      · exact iff_of_true (balanced_of_caps hcaps) ⟨nofun, fun _ => hnot⟩
      · refine iff_of_false (not_balanced (i := caller.loc holder) rfl hfree ?_ id)
          fun h => h.2 rfl ⟨hmakes, hone⟩
        rw [hcaps, update_self]
        exact Option.some_ne_none _
      · cases hr
    | unsent s₁ s₂ _ call e hcall hwait hsend =>
      exact iff_of_true (balanced_unsent hholder hcall hwait hsend) ⟨nofun, nofun⟩
    | unreplied s₁ s₂ s₃ _ call e hcall hwait hsend hreply =>
      obtain ⟨rfl, p, hfree, hleft⟩ := caller_left hholder hcall hwait hsend
      refine iff_of_false (not_balanced (i := call.slots.caller.loc call.holder) rfl hfree ?_ id)
        fun h => h.1 rfl
      rw [replyRecv_caps hreply, hleft]
      exact Option.some_ne_none _
    | replied s₁ s₂ s₃ s₄ s₅ _ call p r hcall hwait hsend hreply hwait' hround =>
      obtain ⟨rfl, p, hfree, hleft⟩ := caller_left hholder hcall hwait hsend
      rw [← replyRecv_caps hreply] at hleft
      have hs₅ := hwait'.caller rfl hleft
      have hs' := recvRound_stays (caller_not_movable p) _ _ _ hround hs₅
      refine iff_of_false (not_balanced (i := call.slots.caller.loc call.holder) rfl hfree ?_ ?_)
        fun h => h.1 rfl
      · rw [hs']
        exact Option.some_ne_none _
      · rintro ⟨hnone, -⟩
        rw [hs₅] at hnone
        cases hnone

end Balance

/-! ## A call and its reply -/

section Sample

/-- The processes of the client, which is the thread `kinit`, and of the server, the thread 2. -/
def processOf (t : ℕ) : Option Caller := if t = 1 then some ⟨6, some 0⟩ else some ⟨5, some 1⟩

/-- The holders of the client and of the server. -/
def spaceOf (pid : ℕ) : Result ℕ := if pid = 6 then .ok 0 else .ok 1

def CallState.after {α : Type} (s : CallState (Gfp Buddy)) (x : Kernel (CallState (Gfp Buddy)) α) :
    CallState (Gfp Buddy) := (Except.valueOr (.error .failure, s) (x s)).2

/-- The client runs, and both processes hold a new endpoint. -/
def clientRuns (perm : Perm) : CallState (Gfp Buddy) :=
  ⟨CapState.after (endpointHeld perm)
      (CHolder.insert buddyPayloads 1 (CapIdx.make 0 0) (some 0) Perm.allperm),
    EndpointRun.started.state.ipc, fun _ => ⟨NodeList.empty, [], NodeList.empty⟩,
    fun _ => ⟨none, NodeList.empty⟩⟩

def bytePacket (capsz : ℕ) : MsgPacket := ⟨fun _ => 9, 1, fun _ => 0, capsz⟩

def clientCalls : Kernel (CallState (Gfp Buddy)) PendingCall :=
  endpointCall (gfpFrames buddyRaw) processOf (CapIdx.make 0 0) (bytePacket 0)

/-- What the client keeps while it waits. -/
def theCall : PendingCall := ⟨0, ⟨CapIdx.make 0 1, CapIdx.make 0 2⟩, ⟨1, CALLER⟩, 0⟩

def sendRound : Kernel (CallState (Gfp Buddy)) (Option Unit) :=
  callSendRound (gfpFrames buddyRaw) theCall

/-- A process waits for a message. -/
def messageRound (holder p : ℕ) : Kernel (CallState (Gfp Buddy)) (Option Unit) :=
  recvRound (gfpFrames buddyRaw) spaceOf (fun _ => .ok ()) holder p (bytePacket 4)

def called : CallState (Gfp Buddy) := (clientRuns Perm.allperm).after clientCalls

def clientBlocked : CallState (Gfp Buddy) := called.after sendRound

def serverAsks : CallState (Gfp Buddy) :=
  clientBlocked.after (endpointRecvSync processOf (CapIdx.make 0 0))

def serverTakes : Kernel (CallState (Gfp Buddy)) Unit :=
  takeMessage (gfpFrames buddyRaw) spaceOf (fun _ => .ok ()) 1 0 (bytePacket 4)

theorem takeMessage_waited_served :
    Waited (bytePacket 0) theCall serverAsks (serverAsks.after serverTakes) := by
  obtain ⟨msg, hmsg, hpid⟩ := Option.map_eq_some_iff.mp
    (show (serverAsks.ipc.heap 0).map EndpointMessage.senderPid = some 6 by decide)
  have hclient : clientCalls (clientRuns Perm.allperm) = .ok (.ok theCall, called) :=
    eq_ok_of_returned (clientRuns Perm.allperm) (by decide)
  have hsent : called.ipc.heap 0 = some msg := hmsg
  have hcall := eq_ok_of_returned (x := serverTakes serverAsks) (a := ()) serverAsks (by decide)
  refine takeMessage_waited hmsg (by rw [hpid]; rfl) ?_ (by decide) hcall
  intro idx hidx
  rcases endpointCall_capidxs hclient rfl hsent idx hidx with ⟨k, hk, rfl⟩ | rfl
  · exact .inl ⟨k, hk, rfl⟩
  · exact .inr rfl

def served : CallState (Gfp Buddy) := serverAsks.after (messageRound 1 0)

def serverReplied : CallState (Gfp Buddy) :=
  served.after (endpointReply (gfpFrames buddyRaw) processOf (CapIdx.make 0 1) (bytePacket 0))

/-- The client runs again. -/
def clientResumes : CallState (Gfp Buddy) :=
  { serverReplied with ipc := { serverReplied.ipc with
    sched := Except.valueOr Sched.boot serverReplied.ipc.sched.yield } }

def callSent : CallState (Gfp Buddy) := clientResumes.after sendRound

def replyWanted : CallState (Gfp Buddy) := callSent.after (replyRecv theCall.callerCap)

def callReturned : CallState (Gfp Buddy) := replyWanted.after (messageRound 0 1)

/-- The server takes the message and replies, and takes nothing else of the client. -/
theorem clientResumes_waited : Waited (bytePacket 0) theCall called clientResumes := by
  have hholder : clientResumes.caps.holders 0 =
      (CHolder.assign 0 (CapIdx.make 0 2) none called.caps).holders 0 := rfl
  rintro ⟨_, i⟩ rfl
  have hcaps : clientResumes.caps.caps (0, i) =
      (CHolder.assign 0 (CapIdx.make 0 2) none called.caps).caps (0, i) :=
    congrArg (fun space => (space i.1).bind fun grp => grp i.2) hholder
  rw [assign_caps] at hcaps
  by_cases hi : (0, i) = (CapIdx.make 0 2).loc 0
  · rw [hi] at hcaps
    refine .inr ⟨.inr hi, ⟨⟨1, REPLIER ||| Perm.MIGRATE_ONCE⟩, ?_, .inr (by decide)⟩, ?_⟩
    · show called.caps.caps (0, i) = _
      rw [hi]
      decide
    · show clientResumes.caps.caps (0, i) = none
      rwa [hi]
  · exact .inl (hcaps.trans (update_of_ne hi ..))

/-- A call through a capability without `WRITE` is balanced: there are two free slots. -/
theorem call_balanced_refused : ∃ (e : ErrCode) (s' : CallState (Gfp Buddy)),
    clientCalls (clientRuns EndpointState.READ) = .ok (.error e, s') ∧
    Balanced 0 (bytePacket 0) ∅ (clientRuns EndpointState.READ) s' := by
  have hcall := eq_ok_of_failed (e := .insufficientPermissions)
    (x := clientCalls (clientRuns EndpointState.READ)) (clientRuns EndpointState.READ) (by decide)
  refine ⟨_, _, hcall, ((call_balanced (gfpFrames buddyRaw) processOf spaceOf fun _ => .ok ()).2
    _ _ (bytePacket 4) _ _ _ _ _ 0 ⟨⟨6, some 0⟩, by decide, rfl⟩ (.refused _ _ _ hcall)).mpr
      ⟨nofun, fun _ => ?_⟩⟩
  rintro ⟨-, i, -, -, hone⟩
  have hfirst := hone ((CapIdx.make 0 1).loc 0) rfl (by decide)
  have hsecond := hone ((CapIdx.make 0 2).loc 0) rfl (by decide)
  exact absurd (hfirst.trans hsecond.symm) (by decide)

/-- **A call is not balanced.**  The array has no entry for the replier capability of a packet
with four capabilities.  A call that is answered leaves its caller capability behind. -/
theorem call_unbalanced :
    (∃ view, msgView (bytePacket 4) = .ok view) ∧
    callCapidxs (bytePacket 4) (CapIdx.make 0 2) = .error .undefined ∧
    (∃ received, CallRun (gfpFrames buddyRaw) processOf spaceOf (fun _ => .ok ())
      (CapIdx.make 0 0) (bytePacket 0) (bytePacket 4) (clientRuns Perm.allperm) .sent (.ok ())
      received callReturned ∧ (CapIdx.make 0 1).loc 0 ∉ received) ∧
    (clientRuns Perm.allperm).caps.caps ((CapIdx.make 0 1).loc 0) = none ∧
    callReturned.caps.caps ((CapIdx.make 0 1).loc 0) = some ⟨1, CALLER⟩ := by
  refine ⟨⟨_, rfl⟩, rfl, ⟨_, .replied _ called clientResumes callSent replyWanted replyWanted _
    theCall 1 (.ok ()) ?_ clientResumes_waited ?_ ?_ (Waited.of_caps fun _ _ => rfl) ?_,
    ?_⟩, by decide, by decide⟩
  · exact eq_ok_of_returned (clientRuns Perm.allperm) (by decide)
  · exact eq_ok_of_returned clientResumes (by decide)
  · exact eq_ok_of_returned callSent (by decide)
  · exact eq_ok_of_returned replyWanted (by decide)
  · rintro ⟨hnone, -⟩
    have hsome : replyWanted.caps.caps ((CapIdx.make 0 1).loc 0) ≠ none := by decide
    exact hsome hnone

end Sample

end Sustcore
