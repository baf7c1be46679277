/-
# The invariant of an endpoint

What the operations of an endpoint do, as long as every pending receive belongs to a living
thread and all threads that wait for it are alive (`EndpointState.Wf`).  Then completing a
pending receive succeeds, so a send hands its message to the first pending receive
(`Wf.dispatchSend_handed`) or queues it (`Wf.dispatchSend_queued`); a receive takes the first
message (`Wf.recv_message`) or becomes pending (`Wf.recv_pending`).
-/
import Sustcore.Endpoint

namespace Sustcore

open Function NodeList List

/-! ## What waking changes -/

namespace Ipc

variable {s s' : Ipc} {wd p q m : ℕ}

/-- **`wake_all`** changes only the threads, and succeeds on a queue without dying threads. -/
theorem wake_spec (wd : ℕ) (h : s.sched.Settled) : ∃ r sched,
    s.wake wd = (r, { s with sched := sched }) ∧ sched.Settled ∧ s.sched.Calm ∅ sched ∧
      (wd ≠ 0 → Sched.NoneDying wd s.sched → r = .ok ()) := by
  have hcalm : s.sched.Calm ∅ (s.sched.wakeAll s.holds wd).2 := Sched.Calm.wakeAll
  obtain ⟨hinv, hcurrent⟩ := Sched.Inv.wakeAll s.holds wd h
  have hsettled : (s.sched.wakeAll s.holds wd).2.Settled := by
    unfold Sched.Settled
    rwa [hcurrent]
  have hok : wd ≠ 0 → Sched.NoneDying wd s.sched →
      ∃ n, (s.sched.wakeAll s.holds wd).1 = .ok n := h.wakeAll_isOk s.holds
  unfold wake
  cases hwake : s.sched.wakeAll s.holds wd with
  | mk result sched =>
    rw [hwake] at hcalm hsettled hok
    cases result with
    | error e =>
      refine ⟨.error e, sched, rfl, hsettled, hcalm, ?_⟩
      intro hwd hnone
      obtain ⟨n, hn⟩ := hok hwd hnone
      cases hn
    | ok n => exact ⟨.ok (), sched, rfl, hsettled, hcalm, fun _ _ => rfl⟩

theorem setRecvValue_spec (m : ℕ) (h : s.sched.Settled) (hpending : (s.recvs p).state = .pending) :
    ∃ r sched, s.setRecvValue p m = (r, { s.setRecv p fun a =>
        { a with value := some m, state := .complete } with sched := sched }) ∧
      sched.Settled ∧ s.sched.Calm ∅ sched ∧
      ((s.recvs p).waitWd ≠ 0 → Sched.NoneDying (s.recvs p).waitWd s.sched → r = .ok ()) := by
  unfold setRecvValue
  rw [hpending]
  exact wake_spec (s := s.setRecv p fun a => { a with value := some m, state := .complete }) _ h

/-- Changing the state of a send keeps the descriptors. -/
theorem setSend_waitWd {f : AsyncState → AsyncState} (hf : ∀ a, (f a).waitWd = a.waitWd) (q' : ℕ) :
    ((s.setSend q f).sends q').waitWd = (s.sends q').waitWd := by
  by_cases hq : q' = q
  · subst hq
    show (update s.sends q' _ q').waitWd = _
    rw [update_self]
    exact hf _
  · show (update s.sends q _ q').waitWd = _
    rw [update_of_ne hq]

/-- Completing a send changes the state of a send and the threads. -/
theorem setSendValue_spec (q : ℕ) (h : s.sched.Settled) : ∃ r sends sched,
    s.setSendValue q = (r, { s with sends := sends, sched := sched }) ∧
      (∀ q', (sends q').waitWd = (s.sends q').waitWd) ∧ sched.Settled ∧
      s.sched.Calm ∅ sched := by
  unfold setSendValue
  split
  · exact ⟨.error .busy, s.sends, s.sched, rfl, fun _ => rfl, h, Sched.Calm.refl _⟩
  · obtain ⟨r, sched, hwake, hsettled, hcalm, -⟩ := wake_spec
      (s := s.setSend q fun a => { a with state := .complete }) (s.sends q).waitWd h
    exact ⟨r, _, sched, hwake, setSend_waitWd fun _ => rfl, hsettled, hcalm⟩

/-- A round of `wait_for` changes the threads or takes the value. -/
theorem waitFor_spec {α : Type} {a : AsyncState} {predicate : ℕ} {value : Ipc → Result α × Ipc}
    {r : Result (Option α)} (h : s.sched.Settled)
    (hcall : s.waitFor a predicate value = .ok (r, s')) :
    (∃ sched, s' = { s with sched := sched } ∧ sched.Settled ∧
      s.sched.Calm {a.waitWd} sched ∧ ∀ x, r ≠ .ok (some x)) ∨
    r = (value s).1.map some ∧ s' = (value s).2 := by
  unfold waitFor at hcall
  split at hcall
  · cases hcall
    exact .inl ⟨s.sched, rfl, h, Sched.Calm.refl _, nofun⟩
  split at hcall
  · cases hcall
    exact .inr ⟨rfl, rfl⟩
  obtain ⟨⟨r', sched⟩, hblock, hrest⟩ := Except.bind_eq_ok_iff.mp hcall
  cases hrest
  refine .inl ⟨sched, rfl, h.blockCurrent hblock, Sched.Calm.blockCurrent rfl hblock, ?_⟩
  cases r' with
  | error e => exact nofun
  | ok => exact nofun

end Ipc

/-! ## The invariant of an endpoint -/

namespace EndpointState

variable {s s' : EndpointState} {owner : ℕ → ℕ} {W : Set ℕ} {p q m t : ℕ}

/-- Every pending receive belongs to a living thread, and all the threads that wait for it
are alive. -/
structure Wf (owner : ℕ → ℕ) (s : EndpointState) : Prop where
  settled : s.ipc.sched.Settled
  nextWd_pos : 0 < s.ipc.nextWd
  sends_wd : ∀ q < s.ipc.nextSend, (s.ipc.sends q).waitWd < s.ipc.nextWd
  recvs_wd : ∀ p < s.ipc.nextRecv,
    0 < (s.ipc.recvs p).waitWd ∧ (s.ipc.recvs p).waitWd < s.ipc.nextWd
  fresh : ∀ wd, s.ipc.nextWd ≤ wd → ∀ t, t ∉ s.ipc.sched.queues wd
  either : s.payload.messages.nodes = [] ∨ s.payload.pendingRecvs.nodes = []
  pending : ∀ p ∈ s.payload.pendingRecvs,
    p < s.ipc.nextRecv ∧ (s.ipc.recvs p).state = .pending ∧ (s.ipc.recvs p).callback = true
  alive : ∀ p ∈ s.payload.pendingRecvs,
    Sched.NoneDying (s.ipc.recvs p).waitWd s.ipc.sched ∧
      (s.ipc.sched.tcb (owner p)).state ≠ .dying
  messages_lt : ∀ m ∈ s.payload.messages, m < s.ipc.nextMsg
  sends_lt : ∀ pending ∈ s.payload.pendingSends,
    pending.promise < s.ipc.nextSend ∧ pending.message ∈ s.payload.messages
  sends_unique : ∀ pending ∈ s.payload.pendingSends, ∀ other ∈ s.payload.pendingSends,
    pending.message = other.message ↔ pending.promise = other.promise

variable (h : s.Wf owner)

include h

/-- The threads move. -/
theorem Wf.sched {sched : Sched} (hsettled : sched.Settled)
    (hcalm : s.ipc.sched.Calm W sched) (hW : ∀ wd ∈ W, wd < s.ipc.nextWd) :
    { s with ipc := { s.ipc with sched := sched } }.Wf owner :=
  { h with
    settled := hsettled
    fresh := fun wd hwd => hcalm.empty (fun hin => absurd (hW wd hin) (not_lt.mpr hwd))
      (h.fresh wd hwd)
    alive := fun p hp => ⟨hcalm.noneDying (h.alive p hp).1,
      fun hdying => (h.alive p hp).2 (hcalm.dying _ hdying)⟩ }

theorem Wf.sends {sends : ℕ → AsyncState} (hwd : ∀ q, (sends q).waitWd = (s.ipc.sends q).waitWd) :
    { s with ipc := { s.ipc with sends := sends } }.Wf owner :=
  { h with
    sends_wd := fun q hq => by
      rw [hwd q]
      exact h.sends_wd q hq }

/-- The state of a receive that is not pending changes, but not its descriptor. -/
theorem Wf.setRecv {f : AsyncState → AsyncState}
    (hwd : (f (s.ipc.recvs p)).waitWd = (s.ipc.recvs p).waitWd)
    (hp : p ∉ s.payload.pendingRecvs) : { s with ipc := s.ipc.setRecv p f }.Wf owner := by
  have hother : ∀ p', p' ≠ p → (s.ipc.setRecv p f).recvs p' = s.ipc.recvs p' :=
    fun p' hne => update_of_ne hne ..
  have hne : ∀ p' ∈ s.payload.pendingRecvs, p' ≠ p := by
    rintro p' hp' rfl
    exact hp hp'
  refine { h with recvs_wd := ?_, pending := ?_, alive := ?_ }
  · intro p' hp'
    by_cases heq : p' = p
    · subst heq
      have hself : (s.ipc.setRecv p' f).recvs p' = f (s.ipc.recvs p') := update_self ..
      rw [hself, hwd]
      exact h.recvs_wd p' hp'
    · rw [hother p' heq]
      exact h.recvs_wd p' hp'
  · intro p' hp'
    rw [hother p' (hne p' hp')]
    exact h.pending p' hp'
  · intro p' hp'
    rw [hother p' (hne p' hp')]
    exact h.alive p' hp'

theorem Wf.fewerRecvs {recvs : NodeList ℕ} (hsub : ∀ p ∈ recvs, p ∈ s.payload.pendingRecvs) :
    { s with payload := { s.payload with pendingRecvs := recvs } }.Wf owner :=
  { h with
    either := h.either.imp_right (nodes_eq_nil_of_subset hsub)
    pending := fun p hp => h.pending p (hsub p hp)
    alive := fun p hp => h.alive p (hsub p hp) }

theorem Wf.fewerSends {sends : List PendingEndpointSend}
    (hsub : ∀ pending ∈ sends, pending ∈ s.payload.pendingSends) :
    { s with payload := { s.payload with pendingSends := sends } }.Wf owner :=
  { h with
    sends_lt := fun pending hpending => h.sends_lt pending (hsub pending hpending)
    sends_unique := fun pending hpending other hother =>
      h.sends_unique pending (hsub pending hpending) other (hsub other hother) }

theorem Wf.fewerMessages {messages : NodeList ℕ} (hsub : ∀ m ∈ messages, m ∈ s.payload.messages)
    (hsends : ∀ pending ∈ s.payload.pendingSends, pending.message ∈ messages) :
    { s with payload := { s.payload with messages := messages } }.Wf owner :=
  { h with
    either := h.either.imp_left (nodes_eq_nil_of_subset hsub)
    messages_lt := fun m hm => h.messages_lt m (hsub m hm)
    sends_lt := fun pending hpending => ⟨(h.sends_lt pending hpending).1, hsends pending hpending⟩ }

theorem Wf.newSend (msg : EndpointMessage) :
    { s with ipc := (s.ipc.newMessage msg).2.newSend.2 }.Wf owner := by
  refine { h with
    nextWd_pos := Nat.succ_pos _
    sends_wd := ?_
    recvs_wd := fun p hp => ⟨(h.recvs_wd p hp).1, Nat.lt_succ_of_lt (h.recvs_wd p hp).2⟩
    fresh := fun wd hwd => h.fresh wd (Nat.le_of_succ_le hwd)
    messages_lt := fun m hm => Nat.lt_succ_of_lt (h.messages_lt m hm)
    sends_lt := fun x hx => ⟨Nat.lt_succ_of_lt (h.sends_lt x hx).1, (h.sends_lt x hx).2⟩ }
  intro q hq
  show (update s.ipc.sends s.ipc.nextSend ⟨.pending, s.ipc.nextWd, none, true⟩ q).waitWd <
    s.ipc.nextWd + 1
  by_cases heq : q = s.ipc.nextSend
  · subst heq
    rw [update_self]
    exact Nat.lt_succ_self _
  · rw [update_of_ne heq]
    exact Nat.lt_succ_of_lt (h.sends_wd q (lt_of_le_of_ne (Nat.lt_succ_iff.mp hq) heq))

/-- A promise for a receive is made by a thread that is not dying. -/
theorem Wf.newRecv : { s with ipc := s.ipc.newRecv.2 }.Wf owner := by
  have hother : ∀ p, p ≠ s.ipc.nextRecv → s.ipc.newRecv.2.recvs p = s.ipc.recvs p :=
    fun p hne => update_of_ne hne ..
  have hold : ∀ p ∈ s.payload.pendingRecvs, p ≠ s.ipc.nextRecv := fun p hp =>
    ne_of_lt (h.pending p hp).1
  refine { h with
    nextWd_pos := Nat.succ_pos _
    sends_wd := fun q hq => Nat.lt_succ_of_lt (h.sends_wd q hq)
    recvs_wd := ?_
    fresh := fun wd hwd => h.fresh wd (Nat.le_of_succ_le hwd)
    pending := ?_
    alive := ?_ }
  · intro p hp
    by_cases heq : p = s.ipc.nextRecv
    · have hself : s.ipc.newRecv.2.recvs s.ipc.nextRecv = ⟨.pending, s.ipc.nextWd, none, false⟩ :=
        update_self ..
      rw [heq, hself]
      exact ⟨h.nextWd_pos, Nat.lt_succ_self _⟩
    · rw [hother p heq]
      have hlt : p < s.ipc.nextRecv := lt_of_le_of_ne (Nat.lt_succ_iff.mp hp) heq
      exact ⟨(h.recvs_wd p hlt).1, Nat.lt_succ_of_lt (h.recvs_wd p hlt).2⟩
  · intro p hp
    rw [hother p (hold p hp)]
    exact ⟨Nat.lt_succ_of_lt (h.pending p hp).1, (h.pending p hp).2⟩
  · intro p hp
    rw [hother p (hold p hp)]
    exact h.alive p hp

theorem Wf.setOwner (hp : p ∉ s.payload.pendingRecvs) : s.Wf (update owner p t) := by
  refine { h with alive := ?_ }
  intro p' hp'
  have hne : p' ≠ p := by
    rintro rfl
    exact hp hp'
  rw [update_of_ne hne]
  exact h.alive p' hp'

omit h

/-! ## Sends -/

/-- The view is valid and the capability carries the permissions that the send needs. -/
def MaySend (perm : Perm) (view : EndpointMsgView) : Prop :=
  checkMsgValid view = .ok () ∧ perm.imply WRITE = true ∧
    (view.capsz ≠ 0 → perm.imply GRANT = true)

instance (perm : Perm) (view : EndpointMsgView) : Decidable (MaySend perm view) :=
  inferInstanceAs (Decidable (_ ∧ _ ∧ _))

variable {perm : Perm}

/-- A send that is refused at once changes nothing. -/
theorem send_of_not_maySend (pid : ℕ) {view : EndpointMsgView}
    (hnot : ¬MaySend perm view) : ∃ e, s.send perm pid view = (.error e, s) := by
  unfold send
  split
  · exact ⟨_, rfl⟩
  rename_i hvalid
  split
  · exact ⟨_, rfl⟩
  rename_i hwrite
  split
  · exact ⟨_, rfl⟩
  · rename_i hgrant
    refine absurd ⟨hvalid, by simpa using hwrite, ?_⟩ hnot
    intro hcapsz
    simpa [hcapsz] using hgrant

theorem send_of_maySend (pid : ℕ) {view : EndpointMsgView}
    (hmay : MaySend perm view) : ∃ msg, s.send perm pid view =
      (s.beginSend msg).dispatchSend s.ipc.nextSend s.ipc.nextMsg := by
  obtain ⟨hvalid, hwrite, hgrant⟩ := hmay
  unfold send
  split
  · rename_i hinvalid
    rw [hvalid] at hinvalid
    cases hinvalid
  · rw [if_neg (by simp [hwrite]), if_neg (by simpa using hgrant)]
    exact ⟨_, rfl⟩

theorem Wf.newSend_unique (h : s.Wf owner) {pending other : PendingEndpointSend}
    (hpending : pending ∈ s.payload.pendingSends ++ [⟨s.ipc.nextSend, s.ipc.nextMsg⟩])
    (hother : other ∈ s.payload.pendingSends ++ [⟨s.ipc.nextSend, s.ipc.nextMsg⟩]) :
    pending.message = other.message ↔ pending.promise = other.promise := by
  have hlt : ∀ x ∈ s.payload.pendingSends, x.promise < s.ipc.nextSend ∧ x.message < s.ipc.nextMsg :=
    fun x hx => ⟨(h.sends_lt x hx).1, h.messages_lt _ (h.sends_lt x hx).2⟩
  rcases mem_append.mp hpending with hpending | hpending <;>
    rcases mem_append.mp hother with hother | hother
  · exact h.sends_unique pending hpending other hother
  · obtain rfl := mem_singleton.mp hother
    obtain ⟨hpromise, hmessage⟩ := hlt pending hpending
    exact ⟨fun heq => absurd heq (ne_of_lt hmessage), fun heq => absurd heq (ne_of_lt hpromise)⟩
  · obtain rfl := mem_singleton.mp hpending
    obtain ⟨hpromise, hmessage⟩ := hlt other hother
    exact ⟨fun heq => absurd heq (ne_of_gt hmessage), fun heq => absurd heq (ne_of_gt hpromise)⟩
  · obtain rfl := mem_singleton.mp hpending
    obtain rfl := mem_singleton.mp hother
    exact ⟨fun _ => rfl, fun _ => rfl⟩

/-- **A send without a pending receive queues the message.** -/
theorem Wf.dispatchSend_queued (h : s.Wf owner) (msg : EndpointMessage)
    (hnone : s.payload.pendingRecvs.nodes = []) : ∃ s',
    (s.beginSend msg).dispatchSend s.ipc.nextSend s.ipc.nextMsg = (.ok s.ipc.nextSend, s') ∧
      s'.Wf owner ∧ s'.payload.messages.nodes = s.payload.messages.nodes ++ [s.ipc.nextMsg] ∧
      s'.payload.pendingRecvs = s.payload.pendingRecvs ∧ s'.ipc.recvs = s.ipc.recvs ∧
      s'.ipc.nextRecv = s.ipc.nextRecv ∧ s'.ipc.nextMsg = s.ipc.nextMsg + 1 := by
  have hnew : s.ipc.nextMsg ∉ s.payload.messages := fun hin =>
    absurd (h.messages_lt _ hin) (lt_irrefl _)
  have hnodes := pushBack_nodes hnew
  have hbegin : (s.beginSend msg).payload.pendingRecvs.nodes = [] := hnone
  unfold dispatchSend
  rw [hbegin]
  refine ⟨_, rfl, ?_, hnodes, rfl, rfl, rfl, rfl⟩
  refine { h.newSend msg with either := .inr hnone, messages_lt := ?_
                              sends_lt := ?_, sends_unique := ?_ }
  · intro m hm
    rcases mem_pushBack.mp hm with hm | rfl
    · exact Nat.lt_succ_of_lt (h.messages_lt m hm)
    · exact Nat.lt_succ_self _
  · intro pending hpending
    rcases mem_append.mp hpending with hpending | hpending
    · obtain ⟨hpromise, hmessage⟩ := h.sends_lt pending hpending
      exact ⟨Nat.lt_succ_of_lt hpromise, mem_pushBack.mpr (.inl hmessage)⟩
    · obtain rfl := mem_singleton.mp hpending
      exact ⟨Nat.lt_succ_self _, mem_pushBack.mpr (.inr rfl)⟩
  · intro pending hpending other hother
    exact h.newSend_unique hpending hother

/-- The receive `p` is completed with the message `m`. -/
def Handed (p m : ℕ) (s s' : EndpointState) : Prop :=
  (s'.ipc.recvs p).state = .complete ∧ (s'.ipc.recvs p).value = some m ∧
    ∀ p', p' ≠ p → s'.ipc.recvs p' = s.ipc.recvs p'

theorem Handed.of_recvs {recvs : ℕ → AsyncState} {a : AsyncState}
    (hrecvs : s'.ipc.recvs = update recvs p { a with value := some m, state := .complete })
    (hother : ∀ p', p' ≠ p → recvs p' = s.ipc.recvs p') : Handed p m s s' := by
  unfold Handed
  rw [hrecvs, update_self]
  exact ⟨rfl, rfl, fun p' hp' => (update_of_ne hp' ..).trans (hother p' hp')⟩

theorem mem_of_mem_removePendingSend {msg : EndpointMessage} {pending : PendingEndpointSend}
    (h : pending ∈ ((s.beginSend msg).removePendingSend s.ipc.nextSend).payload.pendingSends) :
    pending ∈ s.payload.pendingSends := by
  obtain ⟨hin, hne⟩ := mem_filter.mp h
  rcases mem_append.mp hin with hin | hin
  · exact hin
  · obtain rfl := mem_singleton.mp hin
    exact absurd rfl (bne_iff_ne.mp hne)

/-- **A send hands the message to the first pending receive.** -/
theorem Wf.dispatchSend_handed (h : s.Wf owner) (msg : EndpointMessage) {rest : List ℕ}
    (hfirst : s.payload.pendingRecvs.nodes = p :: rest) : ∃ s',
    (s.beginSend msg).dispatchSend s.ipc.nextSend s.ipc.nextMsg = (.ok s.ipc.nextSend, s') ∧
      s'.Wf owner ∧ s'.payload.messages = s.payload.messages ∧
      s'.payload.pendingRecvs.nodes = rest ∧ Handed p s.ipc.nextMsg s s' ∧
      s'.ipc.nextRecv = s.ipc.nextRecv ∧ s'.ipc.nextMsg = s.ipc.nextMsg + 1 := by
  have hp := mem_of_first hfirst
  obtain ⟨hlt, hpending, -⟩ := h.pending p hp
  have hnewSend := (h.newSend msg).fewerRecvs
    fun x (hx : x ∈ s.payload.pendingRecvs.popFront) => mem_of_mem_tail hx
  -- the receive is completed: the threads that wait for it are alive, so this succeeds
  obtain ⟨r, sched, hset, hsettled, hcalm, hok⟩ := Ipc.setRecvValue_spec
    (s := (s.ipc.newMessage msg).2.newSend.2) s.ipc.nextMsg h.settled hpending
  obtain rfl := hok (ne_of_gt (h.recvs_wd p hlt).1) (h.alive p hp).1
  have hhanded := (hnewSend.setRecv (p := p)
    (f := fun a => { a with value := some s.ipc.nextMsg, state := .complete }) rfl
    (notMem_popFront hfirst)).sched hsettled hcalm nofun
  -- the completion of the send may fail, which is only logged
  obtain ⟨r, sends, sched', hcomplete, hwd, hsettled', hcalm'⟩ :=
    Ipc.setSendValue_spec s.ipc.nextSend hhanded.settled
  have hsent := (hhanded.sends hwd).sched hsettled' hcalm' nofun
  have hremoved := hsent.fewerSends
    fun x (hx : x ∈ ((s.beginSend msg).removePendingSend s.ipc.nextSend).payload.pendingSends) =>
      mem_of_mem_removePendingSend (s := s) hx
  have hbegin : (s.beginSend msg).payload.pendingRecvs.nodes = p :: rest := hfirst
  have hset' : (s.beginSend msg).ipc.setRecvValue p s.ipc.nextMsg = _ := hset
  have hrest := popFront_of_first hfirst
  unfold dispatchSend
  rw [hbegin]
  simp only [hset']
  refine ⟨_, rfl, ?_⟩
  unfold completeSend removePendingSend
  rw [hcomplete]
  exact ⟨hremoved, rfl, hrest, Handed.of_recvs rfl fun _ _ => rfl, rfl, rfl⟩

/-! ## Receives -/

theorem completeSendOf_spec (m : ℕ) (hsettled : s.ipc.sched.Settled)
    (hunique : ∀ x ∈ s.payload.pendingSends, ∀ y ∈ s.payload.pendingSends,
      x.message = y.message ↔ x.promise = y.promise) : ∃ sends sched pendingSends,
    s.completeSendOf m = ⟨{ s.ipc with sends := sends, sched := sched },
      { s.payload with pendingSends := pendingSends }⟩ ∧
    (∀ q, (sends q).waitWd = (s.ipc.sends q).waitWd) ∧ sched.Settled ∧
    s.ipc.sched.Calm ∅ sched ∧
    ∀ x ∈ pendingSends, x ∈ s.payload.pendingSends ∧ x.message ≠ m := by
  unfold completeSendOf
  cases hfind : s.findPendingSend m with
  | none =>
    refine ⟨s.ipc.sends, s.ipc.sched, s.payload.pendingSends, rfl, fun _ => rfl, hsettled,
      Sched.Calm.refl _, ?_⟩
    intro x hx
    exact ⟨hx, by simpa using find?_eq_none.mp hfind x hx⟩
  | some pending =>
    have hin : pending ∈ s.payload.pendingSends := mem_of_find?_eq_some hfind
    have hmessage : pending.message = m := by simpa using find?_some hfind
    obtain ⟨r, sends, sched, hcomplete, hwd, hsettled', hcalm⟩ :=
      Ipc.setSendValue_spec pending.promise hsettled
    refine ⟨sends, sched, (s.removePendingSend pending.promise).payload.pendingSends, ?_, hwd,
      hsettled', hcalm, ?_⟩
    · show EndpointState.mk (s.ipc.setSendValue pending.promise).2 _ = _
      rw [hcomplete]
      rfl
    · intro x hx
      obtain ⟨hx, hne⟩ := mem_filter.mp hx
      refine ⟨hx, fun heq => bne_iff_ne.mp hne ?_⟩
      exact (hunique x hx pending hin).mp (heq.trans hmessage.symm)

theorem recv_of_not_imply (hread : perm.imply READ = false) :
    s.recv perm = (.error .insufficientPermissions, s) := by
  unfold recv
  rw [hread]
  rfl

theorem Wf.nextRecv_fresh (h : s.Wf owner) : s.ipc.nextRecv ∉ s.payload.pendingRecvs :=
  fun hin => absurd (h.pending _ hin).1 (lt_irrefl _)

/-- **A receive takes the first message of the queue.** -/
theorem Wf.recv_message (h : s.Wf owner) {rest : List ℕ}
    (hread : perm.imply READ = true) (hfirst : s.payload.messages.nodes = m :: rest) : ∃ s',
    s.recv perm = (.ok s.ipc.nextRecv, s') ∧ s'.Wf owner ∧ s'.payload.messages.nodes = rest ∧
      s'.payload.pendingRecvs = s.payload.pendingRecvs ∧ Handed s.ipc.nextRecv m s s' ∧
      s'.ipc.nextRecv = s.ipc.nextRecv + 1 ∧ s'.ipc.nextMsg = s.ipc.nextMsg := by
  have hnew := h.nextRecv_fresh
  have hself : s.ipc.newRecv.2.recvs s.ipc.nextRecv = ⟨.pending, s.ipc.nextWd, none, false⟩ :=
    update_self ..
  let popped : EndpointState :=
    ⟨s.ipc.newRecv.2, { s.payload with messages := s.payload.messages.popFront }⟩
  obtain ⟨sends, sched, pendingSends, hcomplete, hwd, hsettled, hcalm, hsends⟩ :=
    completeSendOf_spec (s := popped) m h.settled h.sends_unique
  have hqueued : ∀ x ∈ pendingSends, x.message ∈ s.payload.messages.popFront := by
    intro x hx
    obtain ⟨hin, hne⟩ := hsends x hx
    have hmessage : x.message ∈ s.payload.messages.nodes := (h.sends_lt x hin).2
    rw [hfirst] at hmessage
    rw [mem_def, popFront_of_first hfirst]
    exact (mem_cons.mp hmessage).resolve_left hne
  have hsent := (((h.newRecv.fewerSends fun x hx => (hsends x hx).1).fewerMessages
    (fun x hx => mem_of_mem_tail hx) hqueued).sends hwd).sched hsettled hcalm nofun
  -- nobody waits yet for the new promise
  have hnone : Sched.NoneDying s.ipc.nextWd sched :=
    hcalm.noneDying fun t ht => absurd ht (h.fresh _ (le_refl _) t)
  obtain ⟨r, sched', hset, hsettled', hcalm', hok⟩ := Ipc.setRecvValue_spec
    (s := { s.ipc.newRecv.2 with sends := sends, sched := sched }) (p := s.ipc.nextRecv) m hsettled
    (by rw [hself])
  have hwd' : (s.ipc.newRecv.2.recvs s.ipc.nextRecv).waitWd = s.ipc.nextWd := by rw [hself]
  obtain rfl := hok (hwd' ▸ ne_of_gt h.nextWd_pos) (hwd' ▸ hnone)
  have hhanded := (hsent.setRecv (p := s.ipc.nextRecv)
    (f := fun a => { a with value := some m, state := .complete }) rfl hnew).sched
    hsettled' hcalm' nofun
  unfold recv
  rw [hread]
  have hmessages : s.payload.messages.nodes = m :: rest := hfirst
  simp only [Bool.not_true, Bool.false_eq_true, ↓reduceIte, hmessages]
  have hcomplete' : completeSendOf m ⟨s.ipc.newRecv.2, ⟨s.payload.messages.popFront,
    s.payload.pendingSends, s.payload.pendingRecvs⟩⟩ = _ := hcomplete
  rw [hcomplete']
  have hrest := popFront_of_first hfirst
  refine ⟨_, ?_, hhanded, hrest, rfl, Handed.of_recvs rfl fun p' hp' => update_of_ne hp' ..,
    rfl, rfl⟩
  split
  · rename_i e ipc herror
    cases (Prod.mk.inj (hset.symm.trans herror)).1
  · rename_i ipc hipc
    obtain rfl := (Prod.mk.inj (hset.symm.trans hipc)).2
    rfl

/-- **A receive without a message becomes pending.** -/
theorem Wf.recv_pending (h : s.Wf owner) (hread : perm.imply READ = true)
    (hnone : s.payload.messages.nodes = []) (ht : (s.ipc.sched.tcb t).state ≠ .dying) : ∃ s',
    s.recv perm = (.ok s.ipc.nextRecv, s') ∧ s'.Wf (update owner s.ipc.nextRecv t) ∧
      s'.payload.messages = s.payload.messages ∧
      s'.payload.pendingRecvs.nodes = s.payload.pendingRecvs.nodes ++ [s.ipc.nextRecv] ∧
      (s'.ipc.recvs s.ipc.nextRecv).state = .pending ∧
      (∀ p', p' ≠ s.ipc.nextRecv → s'.ipc.recvs p' = s.ipc.recvs p') ∧
      s'.ipc.nextRecv = s.ipc.nextRecv + 1 ∧ s'.ipc.nextMsg = s.ipc.nextMsg := by
  have hnew := h.nextRecv_fresh
  have hwf := (h.newRecv.setRecv (p := s.ipc.nextRecv) (f := fun a => { a with callback := true })
    rfl hnew).setOwner (t := t) hnew
  have hself : (s.ipc.newRecv.2.setRecv s.ipc.nextRecv fun a => { a with callback := true }).recvs
      s.ipc.nextRecv = ⟨.pending, s.ipc.nextWd, none, true⟩ := by
    show update (update s.ipc.recvs s.ipc.nextRecv _) s.ipc.nextRecv
      { (update s.ipc.recvs s.ipc.nextRecv ⟨.pending, s.ipc.nextWd, none, false⟩)
        s.ipc.nextRecv with callback := true } s.ipc.nextRecv = _
    rw [update_self, update_self]
  unfold recv
  rw [hread]
  simp only [hnone]
  refine ⟨_, rfl, ?_, rfl, pushBack_nodes hnew, ?_, ?_, rfl, rfl⟩
  · refine { hwf with either := .inl hnone, pending := ?_, alive := ?_ }
    · intro p' hp'
      rcases mem_pushBack.mp hp' with hp' | rfl
      · exact hwf.pending p' hp'
      · exact ⟨Nat.lt_succ_self _, congrArg AsyncState.state hself,
          congrArg AsyncState.callback hself⟩
    · intro p' hp'
      rcases mem_pushBack.mp hp' with hp' | rfl
      · exact hwf.alive p' hp'
      refine ⟨?_, ?_⟩
      · have hwd := congrArg AsyncState.waitWd hself
        exact fun u hu => absurd hu (h.fresh _ (le_of_eq hwd.symm) u)
      · show (s.ipc.sched.tcb (update owner s.ipc.nextRecv t s.ipc.nextRecv)).state ≠ _
        rwa [update_self]
  · exact congrArg AsyncState.state hself
  · intro p' hp'
    show update (update s.ipc.recvs s.ipc.nextRecv _) s.ipc.nextRecv _ p' = _
    rw [update_of_ne hp', update_of_ne hp']

/-! ## Cancellations -/

/-- **A receive that is cancelled is not pending any more.** -/
theorem Wf.cancleRecv (h : s.Wf owner) (p : ℕ) : (s.cancleRecv p).2.Wf owner ∧
    (s.cancleRecv p).2.payload.messages = s.payload.messages ∧
    (s.cancleRecv p).2.payload.pendingRecvs.nodes.Sublist s.payload.pendingRecvs.nodes ∧
    (∀ p', (s.cancleRecv p).2.ipc.recvs p' = s.ipc.recvs p' ∨
      (s.ipc.recvs p').state = .pending ∧ ((s.cancleRecv p).2.ipc.recvs p').state = .cancled) ∧
    (s.cancleRecv p).2.ipc.nextRecv = s.ipc.nextRecv ∧
    (s.cancleRecv p).2.ipc.nextMsg = s.ipc.nextMsg := by
  by_cases hpending : (s.ipc.recvs p).state = .pending
  · let left : NodeList ℕ :=
      if (s.ipc.recvs p).callback then s.payload.pendingRecvs.remove p else s.payload.pendingRecvs
    have hsub : left.nodes.Sublist s.payload.pendingRecvs.nodes := by
      unfold left
      split
      · exact erase_sublist
      · exact List.Sublist.refl _
    have hp : p ∉ left := by
      unfold left
      split
      · exact fun hin => (mem_remove.mp hin).1 rfl
      · rename_i hcallback
        exact fun hin => hcallback (h.pending p hin).2.2
    have hstate : (if (s.ipc.recvs p).callback then
        { s with payload := { s.payload with pendingRecvs := s.payload.pendingRecvs.remove p } }
      else s) = { s with payload := { s.payload with pendingRecvs := left } } := by
      unfold left
      split
      · rfl
      · rfl
    have hcancled := (h.fewerRecvs fun x (hx : x ∈ left) => hsub.subset hx).setRecv (p := p)
      (f := fun a => { a with state := .cancled }) rfl hp
    obtain ⟨r, sched, hwake, hsettled, hcalm, -⟩ := Ipc.wake_spec
      (s := s.ipc.setRecv p fun a => { a with state := .cancled }) (s.ipc.recvs p).waitWd h.settled
    have hwf := hcancled.sched hsettled hcalm nofun
    have heq : s.cancleRecv p = (r, ⟨{ s.ipc.setRecv p fun a => { a with state := .cancled } with
        sched := sched }, { s.payload with pendingRecvs := left }⟩) := by
      unfold EndpointState.cancleRecv
      simp only [hpending, bne_self_eq_false, Bool.false_eq_true, ↓reduceIte, hstate, hwake]
    rw [heq]
    refine ⟨hwf, rfl, hsub, ?_, rfl, rfl⟩
    intro p'
    by_cases heq : p' = p
    · subst heq
      refine .inr ⟨hpending, ?_⟩
      show (update s.ipc.recvs p' _ p').state = _
      rw [update_self]
    · exact .inl (update_of_ne heq ..)
  · have heq : s.cancleRecv p = (.error (cancleError (s.ipc.recvs p).state), s) := by
      exact if_pos (bne_iff_ne.mpr hpending)
    rw [heq]
    exact ⟨h, rfl, List.Sublist.refl _, fun _ => .inl rfl, rfl, rfl⟩

/-- The message that the cancellation of a send withdraws. -/
def withdrawn (q : ℕ) (s : EndpointState) : Option ℕ :=
  if (s.ipc.sends q).state = .pending ∧ (s.ipc.sends q).callback = true then
    (s.payload.pendingSends.find? fun pending => pending.promise == q).map
      PendingEndpointSend.message
  else none

theorem Wf.withdrawn_mem (h : s.Wf owner) (hm : s.withdrawn q = some m) :
    m ∈ s.payload.messages := by
  unfold withdrawn at hm
  split at hm
  · obtain ⟨pending, hfind, rfl⟩ := Option.map_eq_some_iff.mp hm
    exact (h.sends_lt pending (mem_of_find?_eq_some hfind)).2
  · cases hm

theorem Wf.withdraw (h : s.Wf owner) (q : ℕ) :
    (s.withdraw q).Wf owner ∧ (s.withdraw q).ipc = s.ipc ∧
    (s.withdraw q).payload.pendingRecvs = s.payload.pendingRecvs ∧
    (s.withdraw q).payload.messages.nodes =
      match (s.payload.pendingSends.find? fun pending => pending.promise == q).map
        PendingEndpointSend.message with
      | none => s.payload.messages.nodes
      | some m => s.payload.messages.nodes.erase m := by
  unfold EndpointState.withdraw
  cases hfind : s.payload.pendingSends.find? fun pending => pending.promise == q with
  | none => exact ⟨h, rfl, rfl, rfl⟩
  | some pending =>
    have hin : pending ∈ s.payload.pendingSends := mem_of_find?_eq_some hfind
    have hpromise : pending.promise = q := by simpa using find?_some hfind
    refine ⟨?_, rfl, rfl, rfl⟩
    refine (h.fewerSends fun x (hx : x ∈ (s.removePendingSend q).payload.pendingSends) =>
      (mem_filter.mp hx).1).fewerMessages (fun x hx => (mem_remove.mp hx).2) ?_
    intro x hx
    obtain ⟨hx, hne⟩ := mem_filter.mp hx
    refine mem_remove.mpr ⟨?_, (h.sends_lt x hx).2⟩
    intro heq
    exact bne_iff_ne.mp hne (((h.sends_unique x hx pending hin).mp heq).trans hpromise)

/-- **A send that is cancelled withdraws its message from the queue.** -/
theorem Wf.cancleSend (h : s.Wf owner) (q : ℕ) : (s.cancleSend q).2.Wf owner ∧
    (s.cancleSend q).2.payload.pendingRecvs = s.payload.pendingRecvs ∧
    (s.cancleSend q).2.payload.messages.nodes =
      (match s.withdrawn q with
      | none => s.payload.messages.nodes
      | some m => s.payload.messages.nodes.erase m) ∧ (s.cancleSend q).2.ipc.recvs = s.ipc.recvs ∧
    (s.cancleSend q).2.ipc.nextRecv = s.ipc.nextRecv ∧
    (s.cancleSend q).2.ipc.nextMsg = s.ipc.nextMsg := by
  by_cases hpending : (s.ipc.sends q).state = .pending
  · let left := if (s.ipc.sends q).callback then s.withdraw q else s
    have hleft : left.Wf owner ∧ left.ipc = s.ipc ∧
        left.payload.pendingRecvs = s.payload.pendingRecvs := by
      unfold left
      split
      · exact ⟨(h.withdraw q).1, (h.withdraw q).2.1, (h.withdraw q).2.2.1⟩
      · exact ⟨h, rfl, rfl⟩
    obtain ⟨hwf, hipc, hrecvs⟩ := hleft
    obtain ⟨r, sched, hwake, hsettled, hcalm, -⟩ := Ipc.wake_spec
      (s := left.ipc.setSend q fun a => { a with state := .cancled }) (s.ipc.sends q).waitWd
      hwf.settled
    have hwf' := (hwf.sends (Ipc.setSend_waitWd (q := q)
      (f := fun a => { a with state := .cancled }) fun _ => rfl)).sched hsettled hcalm nofun
    have heq : s.cancleSend q = (r, ⟨{ left.ipc.setSend q fun a => { a with state := .cancled } with
        sched := sched }, left.payload⟩) := by
      unfold EndpointState.cancleSend
      simp only [hpending, bne_self_eq_false, Bool.false_eq_true, ↓reduceIte]
      rw [hwake]
    rw [heq]
    have hsame : left.ipc.recvs = s.ipc.recvs ∧ left.ipc.nextRecv = s.ipc.nextRecv ∧
        left.ipc.nextMsg = s.ipc.nextMsg := by
      rw [hipc]
      exact ⟨rfl, rfl, rfl⟩
    refine ⟨hwf', hrecvs, ?_, hsame⟩
    unfold left withdrawn
    simp only [hpending, true_and]
    split
    · exact (h.withdraw q).2.2.2
    · rfl
  · have heq : s.cancleSend q = (.error (cancleError (s.ipc.sends q).state), s) := by
      exact if_pos (bne_iff_ne.mpr hpending)
    have hnone : s.withdrawn q = none := if_neg fun h => hpending h.1
    rw [heq, hnone]
    exact ⟨h, rfl, rfl, rfl, rfl, rfl⟩

/-! ## Waits -/

/-- **A wait for a receive** returns the message with which the receive was completed. -/
theorem Wf.waitForRecv (h : s.Wf owner) {ipc : Ipc} {r : Result (Option ℕ)}
    (hp : p < s.ipc.nextRecv) (hcall : s.ipc.waitForRecv p = .ok (r, ipc)) :
    { s with ipc := ipc }.Wf owner ∧ ipc.nextRecv = s.ipc.nextRecv ∧
    ipc.nextMsg = s.ipc.nextMsg ∧
    (ipc.recvs = s.ipc.recvs ∧ (∀ m, r ≠ .ok (some m)) ∨
      ∃ m, r = .ok (some m) ∧ (s.ipc.recvs p).state = .complete ∧
        (s.ipc.recvs p).value = some m ∧ (ipc.recvs p).state = .consumed ∧
        ∀ p', p' ≠ p → ipc.recvs p' = s.ipc.recvs p') := by
  rcases Ipc.waitFor_spec h.settled hcall with ⟨sched, rfl, hsettled, hcalm, hnone⟩ | ⟨rfl, rfl⟩
  · refine ⟨h.sched hsettled hcalm ?_, rfl, rfl, .inl ⟨rfl, hnone⟩⟩
    rintro wd rfl
    exact (h.recvs_wd p hp).2
  unfold Ipc.recvValue
  split
  · exact ⟨h, rfl, rfl, .inl ⟨rfl, nofun⟩⟩
  · exact ⟨h, rfl, rfl, .inl ⟨rfl, nofun⟩⟩
  · exact ⟨h, rfl, rfl, .inl ⟨rfl, nofun⟩⟩
  · exact ⟨h, rfl, rfl, .inl ⟨rfl, nofun⟩⟩
  · rename_i hstate
    split
    · exact ⟨h, rfl, rfl, .inl ⟨rfl, nofun⟩⟩
    rename_i m hvalue
    have hnot : p ∉ s.payload.pendingRecvs := by
      intro hin
      have hpending := (h.pending p hin).2.1
      rw [hstate] at hpending
      cases hpending
    have hconsumed := h.setRecv (f := fun a => { a with value := none, state := .consumed })
      rfl hnot
    refine ⟨hconsumed, rfl, rfl, .inr ⟨m, rfl, hstate, hvalue, ?_,
      fun p' hp' => update_of_ne hp' ..⟩⟩
    show (update s.ipc.recvs p _ p).state = _
    rw [update_self]

theorem Wf.waitForSend (h : s.Wf owner) {ipc : Ipc} {r : Result (Option Unit)}
    (hq : q < s.ipc.nextSend) (hcall : s.ipc.waitForSend q = .ok (r, ipc)) :
    { s with ipc := ipc }.Wf owner ∧ ipc.nextRecv = s.ipc.nextRecv ∧
    ipc.nextMsg = s.ipc.nextMsg ∧ ipc.recvs = s.ipc.recvs := by
  rcases Ipc.waitFor_spec h.settled hcall with ⟨sched, rfl, hsettled, hcalm, -⟩ | ⟨rfl, rfl⟩
  · refine ⟨h.sched hsettled hcalm ?_, rfl, rfl, rfl⟩
    rintro wd rfl
    exact h.sends_wd q hq
  unfold Ipc.sendValue
  split
  · exact ⟨h, rfl, rfl, rfl⟩
  · exact ⟨h, rfl, rfl, rfl⟩
  · exact ⟨h, rfl, rfl, rfl⟩
  · exact ⟨h, rfl, rfl, rfl⟩
  · exact ⟨h.sends (Ipc.setSend_waitWd (f := fun a => { a with state := .consumed }) fun _ => rfl),
      rfl, rfl, rfl⟩

theorem Wf.threadCall (h : s.Wf owner) {call : ThreadCall} {sched : Sched}
    (hpossible : call.Possible s.ipc.sched) (hmeets : call.Meets s.ipc.sched)
    (hrun : call.run s.ipc.sched = .ok sched) (hwds : ∀ wd ∈ call.wds, wd < s.ipc.nextWd)
    (hkill : ∀ t, call = .kill t → ∀ p ∈ s.payload.pendingRecvs,
      owner p ≠ t ∧ t ∉ s.ipc.sched.queues (s.ipc.recvs p).waitWd) :
    { s with ipc := { s.ipc with sched := sched } }.Wf owner := by
  have hsettled : sched.Settled := h.settled.step ⟨call, hpossible, hmeets, hrun⟩
  by_cases hcall : ∃ t, call = .kill t
  · obtain ⟨t, rfl⟩ := hcall
    obtain ⟨hqueues, htcb⟩ := s.ipc.sched.kill_frame t
    cases hrun
    refine { h with settled := hsettled, fresh := ?_, alive := ?_ }
    · intro wd hwd u
      rw [hqueues]
      exact h.fresh wd hwd u
    · intro p hp
      obtain ⟨howner, hout⟩ := hkill t rfl p hp
      refine ⟨(h.alive p hp).1.kill hout, ?_⟩
      rw [htcb _ howner]
      exact (h.alive p hp).2
  · exact h.sched hsettled (ThreadCall.calm hmeets hrun fun t heq => hcall ⟨t, heq⟩) hwds

end EndpointState

end Sustcore
