/-
# No thread is lost

Every thread that is not dying should be in one place: it runs, or it is in one ready list,
or it is in one wait queue, and its `ThreadState` says which (`Sched.Located`).

Three calls do not keep this.  A thread that finds the condition of `wait_event` true after
it was put into the queue leaves the queue in the state of a waiting thread, and the next
`schedule` forgets it.  A timeout and a signal make a thread ready that is still in its wait
queue.  And the calls that block and wake can be interrupted between their writes: a thread
that is preempted after `enqueue` has written its state and before it is in the queue does
not run again.  In the runs without these steps no thread is lost (`no_thread_lost`).
-/
import Sustcore.Ledger
import Sustcore.ThreadInvariant

namespace Sustcore

open Function Sched Except Option Relation List

namespace Sched

variable {s s' : Sched} {t cur wd : ℕ} {holds : ℕ → Bool} {c : Option ℕ}

/-! ## The other operations -/

/-- The running thread has put itself into a wait queue. -/
theorem Inv.waitEnqueue {predicate : Option ℕ} (h : Inv none (some cur) s)
    (henqueue : s.waitEnqueue wd cur predicate = (.ok (), s')) :
    Inv none none s' ∧ s'.current = s.current ∧ s'.Waiting cur := by
  unfold Sched.waitEnqueue at henqueue
  by_cases hzero : wd = 0
  · rw [if_pos hzero] at henqueue
    cases henqueue
  rw [if_neg hzero] at henqueue
  obtain ⟨-, rfl⟩ := Prod.mk.inj henqueue
  have hcur := h.current_lt cur rfl
  obtain ⟨-, hrun, hqueue⟩ := (h.placed cur hcur nofun).of_current
  have hset : Touches (some cur) s (s.setTcb cur fun tcb =>
      { tcb with waitWd := wd, waitPredicate := predicate, state := .uninterruptibleWaiting }) :=
    .setTcb_off h.runWf h.queueWf rfl hqueue (h.queueWf.not_linked hqueue)
  obtain ⟨hpush, hin⟩ := Touches.pushWaiter hset.runWf hset.queueWf hcur hzero
    (by rw [setTcb_tcb_self]) hqueue
  have hwaiting : ((s.setTcb cur fun tcb =>
      { tcb with waitWd := wd, waitPredicate := predicate
                 state := .uninterruptibleWaiting }).pushWaiter wd cur).Waiting cur := by
    rw [waiting_of_view (view_pushWaiter _ wd cur cur)]
    unfold Waiting
    rw [setTcb_tcb_self]
    rfl
  refine ⟨h.putAway (hset.trans hpush) (placed_waiting hwaiting nofun ?_ hin),
    (hset.trans hpush).current, hwaiting⟩
  unfold pushWaiter
  split
  · exact hrun
  · exact hrun

theorem Settled.blockCurrent {predicate : Option ℕ} {r : Result Unit} (h : s.Settled)
    (hblock : blockCurrent wd predicate s = .ok (r, s')) : s'.Settled := by
  unfold Sched.blockCurrent at hblock
  cases hcurrent : s.current with
  | none =>
    rw [hcurrent] at hblock
    cases hblock
    exact h
  | some cur =>
    rw [hcurrent] at hblock
    simp only at hblock
    split at hblock
    · cases hblock
      exact h
    have hinv : Inv none (some cur) s := by
      rwa [← hcurrent]
    cases henqueue : s.waitEnqueue wd cur predicate with
    | mk result v =>
      rw [henqueue] at hblock
      cases result with
      | error e =>
        cases hblock
        unfold waitEnqueue at henqueue
        split at henqueue
        · cases henqueue
          exact h
        · cases henqueue
      | ok =>
        obtain ⟨hv, hvcurrent, hwaiting⟩ := hinv.waitEnqueue henqueue
        obtain ⟨w, hschedule, hw⟩ := bind_eq_ok_iff.mp hblock
        cases hw
        exact schedule_of_waiting hv (hvcurrent.trans hcurrent) hwaiting hschedule

theorem Inv.setWaiting (h : Inv none c s) (state : ThreadState) (hwaiting : s.Waiting t)
    (hstate : state.waiting = true) :
    Inv none c (s.setState t state) ∧ (s.setState t state).Waiting t := by
  have hwaiting' : (s.setState t state).Waiting t := by
    unfold Waiting setState
    rwa [setTcb_tcb_self]
  refine ⟨h.of_touches (.setState h.runWf h.queueWf state) nofun ?_, hwaiting'⟩
  intro ht
  obtain ⟨hc, hrun, hqueue⟩ := (h.placed t ht nofun).of_waiting hwaiting
  exact placed_waiting hwaiting' hc hrun hqueue

/-- **`wait_event`**, unless the condition becomes true between its two evaluations. -/
theorem Settled.waitEvent {interruptible first second : Bool} {r : Result Unit} (h : s.Settled)
    (hcondition : first = true ∨ second = false)
    (hwait : waitEvent interruptible wd first second s = .ok (r, s')) : s'.Settled := by
  unfold Sched.waitEvent at hwait
  split at hwait
  · cases hwait
    exact h
  rename_i hzero
  cases hcurrent : s.current with
  | none =>
    rw [hcurrent] at hwait
    cases hwait
    exact h
  | some cur =>
    rw [hcurrent] at hwait
    simp only at hwait
    split at hwait
    · cases hwait
      exact h
    split at hwait
    · cases hwait
      exact h
    rename_i hfirst
    obtain rfl : second = false := hcondition.resolve_left hfirst
    have hinv : Inv none (some cur) s := by
      rwa [← hcurrent]
    cases henqueue : s.waitEnqueue wd cur none with
    | mk result v =>
      rw [henqueue] at hwait
      cases result with
      | error e =>
        unfold waitEnqueue at henqueue
        rw [if_neg hzero] at henqueue
        cases henqueue
      | ok =>
        simp only [Bool.false_eq_true, if_false] at hwait
        obtain ⟨hv, hvcurrent, hwaiting⟩ := hinv.waitEnqueue henqueue
        obtain ⟨w, hschedule, hw⟩ := bind_eq_ok_iff.mp hwait
        cases hw
        obtain ⟨hv', hwaiting'⟩ := hv.setWaiting (if interruptible
          then .interruptibleWaiting else .uninterruptibleWaiting) hwaiting
          (by cases interruptible <;> rfl)
        exact schedule_of_waiting hv' (hvcurrent.trans hcurrent) hwaiting' hschedule

theorem Settled.quiet (h : s.Settled) (htouches : Touches none s s') : s'.Settled := by
  unfold Settled
  rw [htouches.current]
  exact Inv.of_quiet h htouches

theorem Settled.finishWait (h : s.Settled) : s.finishWait.Settled := by
  unfold Sched.finishWait
  split
  · exact h
  rename_i cur hcurrent
  obtain ⟨htouches, hnot⟩ := Touches.waitRemove h.runWf h.queueWf (t := cur)
  have hplaced := h.placed cur (h.current_lt cur hcurrent) nofun
  rw [hcurrent] at hplaced
  obtain ⟨-, -, hqueue⟩ := hplaced.of_current
  refine h.quiet (htouches.restore ⟨?_, ?_, iff_of_false hnot hqueue⟩)
  · unfold waitRemove
    simp only
    split
    · rfl
    · unfold clearWaitMetadata
      rw [setTcb_tcb_self]
  · unfold waitRemove
    simp only
    split
    · exact Iff.rfl
    · exact Iff.rfl

theorem Settled.doTick (h : s.Settled) : s.doTick.Settled := by
  unfold Sched.doTick
  split
  · exact h
  · split
    · exact h.quiet (.setTcb_quiet h.runWf h.queueWf rfl rfl rfl rfl)
    · exact h

theorem Settled.yield (h : s.Settled) (hyield : yield s = .ok s') : s'.Settled := by
  unfold Sched.yield at hyield
  split at hyield
  · cases hyield
    exact h
  · split at hyield
    · exact h.schedule hyield
    · exact h.schedule hyield
    · exact (h.quiet (.setNeedResched h.runWf h.queueWf)).schedule hyield

theorem Settled.bootstrapTasks (h : s.Settled) (hboot : bootstrapTasks s = .ok s') :
    s'.Settled := by
  unfold Sched.bootstrapTasks at hboot
  cases hcurrent : s.current with
  | some cur =>
    rw [hcurrent] at hboot
    cases hboot
  | none =>
    rw [hcurrent] at hboot
    obtain ⟨⟨next, w⟩, hnext, hw⟩ := bind_eq_ok_iff.mp hboot
    cases hw
    unfold Settled at h
    rw [hcurrent] at h
    exact (h.prepareNextTask hnext).1.setCurrent

/-- **A timeout** of a thread that does not wait any more. -/
theorem Settled.processTimeoutTcb (h : s.Settled) (hnot : ¬s.Waiting t) :
    (s.processTimeoutTcb t).Settled := by
  have hquiet : Touches none s (s.setTcb t fun tcb => { tcb with timeout := true }) :=
    .setTcb_quiet h.runWf h.queueWf rfl rfl rfl rfl
  unfold Sched.processTimeoutTcb
  rw [wakeupWaiting_of_not_waiting]
  · exact h.quiet hquiet
  · unfold Waiting
    rwa [(hquiet.same t nofun).state]

/-- A signal does not leave its target in a wait queue: the target does not wait
interruptibly, or it is in the queue of `waitsig`, where `wake_all` comes to it. -/
def SignalReaches (holds : ℕ → Bool) (s : Sched) (t wd : ℕ) : Prop :=
  (s.tcb t).state = .interruptibleWaiting →
    wd ≠ 0 ∧ ∃ l rest, (s.queues wd).nodes = l ++ t :: rest ∧
      s.runWaitPredicate holds t = true ∧
      ∀ u ∈ l, s.runWaitPredicate holds u = true → s.Waiting u

theorem Settled.signal (h : s.Settled) (hreaches : SignalReaches holds s t wd) :
    (s.signal holds t wd).Settled := by
  let v := s.setTcb t fun tcb => { tcb with signalInterrupted := true }
  have hquiet : Touches none s v := Touches.setTcb_quiet h.runWf h.queueWf rfl rfl rfl rfl
  have hv : v.Settled := h.quiet hquiet
  have hstate : (v.tcb t).state = (s.tcb t).state := (hquiet.same t nofun).state
  have hview : ∀ u, v.view u = s.view u := by
    intro u
    by_cases hu : u = t
    · subst hu
      unfold view v
      rw [setTcb_tcb_self]
      rfl
    · exact view_setTcb_of_ne _ hu
  show (((if (v.tcb t).state = .interruptibleWaiting then (v.wakeupWaiting t).2 else v).wakeAll
    holds wd).2).Settled
  split
  · rename_i hint
    obtain ⟨hzero, l, rest, hqueue, haccepts, hbefore⟩ := hreaches (hstate.symm.trans hint)
    have hwaiting : v.Waiting t := by
      unfold Waiting
      rw [hint]
      rfl
    have hin : t ∈ v.queues wd := by
      rw [NodeList.mem_def]
      exact hqueue ▸ mem_append_right _ mem_cons_self
    have ht := (hv.queueWf.queue_wd t wd hin).1
    obtain ⟨w, hw, htouches, hready, hrun, hqueues, hpredicates⟩ :=
      Touches.wakeupWaiting hv.runWf hv.queueWf ht hwaiting
    have hc := ((hv.placed t ht nofun).of_waiting hwaiting).1
    have hwaccepts : ∀ u, w.runWaitPredicate holds u = s.runWaitPredicate holds u := by
      intro u
      rw [← accepts_of_view (hview u)]
      unfold runWaitPredicate
      rw [hpredicates u]
    have hwqueue : (w.queues wd).nodes = l ++ t :: rest := by
      rwa [hqueues]
    have hne : ∀ u ∈ l, u ≠ t := by
      rintro u hu rfl
      have hnodup := (w.queues wd).nodup
      rw [hwqueue] at hnodup
      exact (nodup_append.mp hnodup).2.2 u hu u mem_cons_self rfl
    obtain ⟨hinv, hcurrent⟩ := Inv.wakeAllLoop_woken 0 rest.length
      (Inv.wakeEarly hv htouches hready hrun hc) hwqueue ((hwaccepts t).trans haccepts) (by
        intro u hu haccepts'
        have hsame := htouches.same u fun heq => hne u hu (some.inj heq).symm
        unfold Waiting
        rw [hsame.state, state_of_view (hview u)]
        exact hbefore u hu ((hwaccepts u).symm.trans haccepts'))
    have hlength : (w.queues wd).nodes.length = l.length + 1 + rest.length := by
      rw [hwqueue, length_append, length_cons]
      omega
    rw [hw]
    unfold wakeAll
    rw [if_neg hzero, hlength]
    unfold Settled
    rwa [hcurrent, htouches.current]
  · obtain ⟨hinv, hcurrent⟩ := Inv.wakeAll holds wd hv
    unfold Settled
    rwa [hcurrent]

/-- **A thread is killed**: it leaves the ready lists, but not its wait queue. -/
theorem Settled.kill (h : s.Settled) : (s.kill t).Settled := by
  let v := if s.current ≠ some t ∧ (s.tcb t).state = .ready then (s.dequeue t).2 else s
  have hv : Touches (some t) s v ∧ (t < s.next → ¬v.InRun t) ∧ v.queues = s.queues := by
    unfold v
    split
    · obtain ⟨htouches, hrun, hqueues⟩ := Touches.dequeue h.runWf h.queueWf (t := t)
      exact ⟨htouches, fun _ => hrun, hqueues⟩
    rename_i hnot
    refine ⟨.refl h.runWf h.queueWf, ?_, rfl⟩
    intro ht hrun
    obtain ⟨hready, hcurrent, -⟩ := (h.placed t ht nofun).of_inRun hrun
    exact hnot ⟨hcurrent, hready⟩
  obtain ⟨htouches, hrun, hqueues⟩ := hv
  have hdying : Touches (some t) s (v.setState t .dying) :=
    htouches.trans (.setState htouches.runWf htouches.queueWf _)
  have hinv : Inv none s.current (v.setState t .dying) := by
    refine Inv.of_touches h hdying nofun fun ht => placed_dying ?_ (hrun ht) ?_
    · unfold setState
      rw [setTcb_tcb_self]
    · rintro hcurrent ⟨wd, hin⟩
      have hplaced := h.placed t ht nofun
      rw [hcurrent] at hplaced
      refine hplaced.of_current.2.2 ⟨wd, ?_⟩
      rwa [← hqueues]
  have hsettled : (v.setState t .dying).Settled := by
    unfold Settled
    rwa [hdying.current]
  show Settled (if (v.setState t .dying).current = some t
    then (v.setState t .dying).setNeedResched t else v.setState t .dying)
  split
  · exact hsettled.quiet (.setNeedResched hinv.runWf hinv.queueWf)
  · exact hsettled

/-- A thread can be created: its class is known, and no other thread has its pointer. -/
def CanCreate (s : Sched) (schdClass : ClassType) (role : BootThreadRole) : Prop :=
  ∃ slot, (newTcb schdClass role).slot = some slot ∧
    (slot.isList = false → ∀ u < s.next, (s.tcb u).slot ≠ some slot)

theorem Settled.create {schdClass : ClassType} {role : BootThreadRole} (h : s.Settled)
    (hcan : s.CanCreate schdClass role) : (s.create schdClass role).2.Settled := by
  obtain ⟨slot, hslot, hpointer⟩ := hcan
  let v : Sched :=
    { s with tcb := update s.tcb s.next (newTcb schdClass role), next := s.next + 1 }
  have hself : v.tcb s.next = newTcb schdClass role := update_self ..
  have hother : ∀ u, u ≠ s.next → v.tcb u = s.tcb u := fun u hu => update_of_ne hu ..
  have hold : ∀ u, u < s.next + 1 → u = s.next ∨ u ≠ s.next ∧ u < s.next := by omega
  have hrunWf : v.RunWf := by
    refine ⟨?_, ?_, ?_⟩
    · intro u hu
      rcases hold u hu with rfl | ⟨hne, hu⟩
      · rw [hself, hslot]
        exact nofun
      · rw [hother u hne]
        exact h.runWf.slot_known u hu
    · intro u w slot' hu hw hus hws hlist
      rcases hold u hu with rfl | ⟨hune, hu⟩
      · rcases hold w hw with rfl | ⟨hwne, hw⟩
        · rfl
        · rw [hself, hslot] at hus
          cases hus
          rw [hother w hwne] at hws
          exact absurd hws (hpointer hlist w hw)
      · rw [hother u hune] at hus
        rcases hold w hw with rfl | ⟨hwne, hw⟩
        · rw [hself, hslot] at hws
          cases hws
          exact absurd hus (hpointer hlist u hu)
        · rw [hother w hwne] at hws
          exact h.runWf.pointer_unique u w slot' hu hw hus hws hlist
    · intro u slot' hu
      obtain ⟨hlt, hus⟩ := h.runWf.run_slot u slot' hu
      rw [hother u (by omega)]
      exact ⟨Nat.lt_succ_of_lt hlt, hus⟩
  have hqueueWf : v.QueueWf := by
    refine ⟨?_, ?_⟩
    · intro u wd hu
      obtain ⟨hlt, hrest⟩ := h.queueWf.queue_wd u wd hu
      rw [hother u (by omega)]
      exact ⟨Nat.lt_succ_of_lt hlt, hrest⟩
    · intro u hu
      by_cases hne : u = s.next
      · subst hne
        rw [hself] at hu
        cases hu
      · rw [hother u hne] at hu ⊢
        exact h.queueWf.linked u hu
  have hnew : ¬s.InQueue s.next := by
    rintro ⟨wd, hin⟩
    exact absurd (h.queueWf.queue_wd _ wd hin).1 (lt_irrefl _)
  obtain ⟨s', hwakeup, htouches, hready, hrun, hqueues, -⟩ :=
    Touches.wakeup hrunWf hqueueWf (t := s.next) (Nat.lt_succ_self _)
  have hcurrent : s.current ≠ some s.next := fun heq =>
    absurd (h.current_lt _ heq) (lt_irrefl _)
  show Settled (v.wakeup s.next).2
  rw [hwakeup]
  unfold Settled
  rw [htouches.current]
  refine ⟨htouches.runWf, htouches.queueWf, ?_, ?_, nofun⟩
  · intro u hu
    rw [htouches.next]
    exact Nat.lt_succ_of_lt (h.current_lt u hu)
  · intro u hu _
    rw [htouches.next] at hu
    rcases hold u hu with rfl | ⟨hne, hu⟩
    · refine placed_ready hready hcurrent hrun ?_
      unfold InQueue
      rw [hqueues]
      exact hnew
    · have hsame : Same s v u := ⟨by rw [hother u hne], Iff.rfl, Iff.rfl⟩
      exact (h.placed u hu nofun).of_same (hsame.trans
        (htouches.same u fun heq => hne (some.inj heq).symm))

/-! ## Interrupts inside the calls -/

/-- The running thread has put itself into a wait queue and is to be switched away from. -/
structure Blocked (s : Sched) (cur : ℕ) : Prop where
  inv : Inv none none s
  current : s.current = some cur
  waiting : s.Waiting cur

theorem Blocked.quiet (h : s.Blocked cur) (htouches : Touches none s s') : s'.Blocked cur := by
  refine ⟨h.inv.of_quiet htouches, htouches.current.trans h.current, ?_⟩
  unfold Waiting
  rw [(htouches.same cur nofun).state]
  exact h.waiting

theorem Settled.blocked {call : Blocker} (h : s.Settled) (hcurrent : s.current = some cur)
    (hwd : call.wd ≠ 0) : ((Place.prepared call).reach s cur).Blocked cur := by
  have hinv : Inv none (some cur) s := by
    rwa [← hcurrent]
  have henqueue : s.waitEnqueue call.wd cur call.predicate =
      (.ok (), (s.markWaiter call.wd cur call.predicate).pushWaiter call.wd cur) := if_neg hwd
  obtain ⟨hinv', hcurrent', hwaiting⟩ := hinv.waitEnqueue henqueue
  cases call with
  | blockCurrent wd predicate => exact ⟨hinv', hcurrent'.trans hcurrent, hwaiting⟩
  | waitEvent interruptible wd =>
    obtain ⟨hinv', hwaiting⟩ := hinv'.setWaiting (if interruptible
      then .interruptibleWaiting else .uninterruptibleWaiting) hwaiting
      (by cases interruptible <;> rfl)
    exact ⟨hinv', hcurrent'.trans hcurrent, hwaiting⟩

/-- The writes of a blocking call are writes to the running thread. -/
theorem view_reach_prepared {call : Blocker} (hne : t ≠ cur) :
    ((Place.prepared call).reach s cur).view t = s.view t := by
  have hmarked : ((s.markWaiter call.wd cur call.predicate).pushWaiter call.wd cur).view t =
      s.view t := (view_pushWaiter ..).trans (view_setTcb_of_ne _ hne)
  cases call with
  | blockCurrent wd predicate => exact hmarked
  | waitEvent interruptible wd =>
    show (setState _ cur _).view t = _
    exact (view_setTcb_of_ne _ hne).trans hmarked

theorem pushWaiter_waitWd (s : Sched) (wd t : ℕ) :
    ((s.pushWaiter wd t).tcb t).waitWd = (s.tcb t).waitWd := by
  unfold pushWaiter
  split
  · rfl
  · rw [setTcb_tcb_self]

theorem reach_prepared_waitWd {call : Blocker} :
    (((Place.prepared call).reach s cur).tcb cur).waitWd = call.wd := by
  have hmarked : (((s.markWaiter call.wd cur call.predicate).pushWaiter call.wd cur).tcb
      cur).waitWd = call.wd := by
    rw [pushWaiter_waitWd]
    unfold markWaiter
    rw [setTcb_tcb_self]
  cases call with
  | blockCurrent wd predicate => exact hmarked
  | waitEvent interruptible wd =>
    show ((setState _ cur _).tcb cur).waitWd = _
    unfold setState
    rw [setTcb_tcb_self]
    exact hmarked

/-- The handler leaves the running thread in the queue of `wd`: it wakes the threads of other
queues only, and a timeout comes when its thread does not wait any more. -/
def SparedBy (wd : ℕ) (s : Sched) : Handler → Prop
  | .tick => True
  | .timeout t => s.current ≠ some t ∧ ¬s.Waiting t
  | .wakeAll _ wd' => wd' ≠ wd

theorem Blocked.handler {call : Blocker} {handler : Handler}
    (h : ((Place.prepared call).reach s cur).Blocked cur) (hcurrent : s.current = some cur)
    (hspares : SparedBy call.wd s handler) :
    (handler.run ((Place.prepared call).reach s cur)).Blocked cur := by
  have hrunWf := h.inv.runWf
  have hqueueWf := h.inv.queueWf
  cases handler with
  | tick =>
    show Blocked (doTick _) cur
    unfold Sched.doTick
    rw [h.current]
    simp only
    split
    · exact h.quiet (.setTcb_quiet hrunWf hqueueWf rfl rfl rfl rfl)
    · exact h
  | timeout t =>
    obtain ⟨hne, hnot⟩ := hspares
    have hquiet : Touches none ((Place.prepared call).reach s cur)
        (((Place.prepared call).reach s cur).setTcb t fun tcb => { tcb with timeout := true }) :=
      .setTcb_quiet hrunWf hqueueWf rfl rfl rfl rfl
    show Blocked (processTimeoutTcb _ t) cur
    unfold Sched.processTimeoutTcb
    rw [wakeupWaiting_of_not_waiting]
    · exact h.quiet hquiet
    · unfold Waiting
      rw [(hquiet.same t nofun).state]
      refine fun hwaiting => hnot ((waiting_of_view (view_reach_prepared ?_)).mp hwaiting)
      rintro rfl
      exact hne hcurrent
  | wakeAll holds wd =>
    obtain ⟨hinv, hcurrent'⟩ := Inv.wakeAll holds wd h.inv
    refine ⟨hinv, hcurrent'.trans h.current, (waiting_of_view (view_wakeAll ?_)).mpr h.waiting⟩
    intro hin
    exact hspares ((hqueueWf.queue_wd cur wd hin).2.2.1.symm.trans reach_prepared_waitWd)

/-- `schedule` at the end of the trap does nothing, or switches to another thread. -/
theorem Blocked.schedule (h : s.Blocked cur) (hschedule : schedule false s = .ok s') :
    s' = s ∨ s'.Settled := by
  have hwaiting := h.waiting
  unfold Waiting at hwaiting
  by_cases hresched : (s.tcb cur).needResched = true
  · have hset : s.setNeedResched cur = s := by
      unfold setNeedResched setTcb
      rw [← hresched, update_eq_self]
    have hignore : Sched.schedule true (s.setNeedResched cur) = .ok s' := by
      rw [hset, ← hschedule]
      unfold Sched.schedule
      simp only [h.current, hwaiting, Bool.not_true, Bool.false_and, Bool.and_false]
    exact .inr (schedule_of_waiting h.inv h.current h.waiting hignore)
  · unfold Sched.schedule at hschedule
    simp only [h.current, hwaiting, hresched, Bool.not_true, Bool.and_false, Bool.false_and,
      Bool.false_eq_true, if_false, Bool.not_false, if_true] at hschedule
    exact .inl (ok.inj hschedule).symm

/-- The end of a call by a thread that runs again. -/
theorem Settled.finish {call : Blocker} {second : Bool} (h : s.Settled)
    (hcurrent : s.current = some cur) (hfinish : call.finish second s cur = .ok s') :
    s'.Settled := by
  have hschedule : Sched.schedule true (s.setNeedResched cur) = .ok s' → s'.Settled :=
    (h.quiet (.setNeedResched h.runWf h.queueWf)).schedule
  cases call with
  | blockCurrent wd predicate => exact hschedule hfinish
  | waitEvent interruptible wd =>
    unfold Blocker.finish at hfinish
    simp only at hfinish
    split at hfinish
    · have hleave := h.finishWait
      unfold Sched.finishWait at hleave
      rw [hcurrent] at hleave
      cases hfinish
      exact hleave
    · exact hschedule hfinish

/-- **An interrupt after all writes of a blocking call** does no harm. -/
theorem Settled.interrupted {call : Blocker} {handler : Handler} (h : s.Settled)
    (hpossible : ∀ cur, s.current = some cur → (Place.prepared call).Reached s cur)
    (hspares : SparedBy call.wd s handler)
    (hrun : interrupted (.prepared call) handler false s = .ok s') : s'.Settled := by
  unfold Sched.interrupted at hrun
  split at hrun
  · cases hrun
    exact h
  rename_i cur hcurrent
  have hblocked := (h.blocked hcurrent (hpossible cur hcurrent).1).handler hcurrent hspares
  have hsaved : ((handler.run ((Place.prepared call).reach s cur)).setInterruptedAt cur
      (some (.prepared call))).Blocked cur :=
    hblocked.quiet (.setTcb_quiet hblocked.inv.runWf hblocked.inv.queueWf rfl rfl rfl rfl)
  obtain ⟨v, hschedule, hrest⟩ := bind_eq_ok_iff.mp hrun
  rcases hsaved.schedule hschedule with rfl | hv
  · rw [if_pos hsaved.current] at hrest
    have hforgot := hsaved.quiet (Touches.setTcb_quiet hsaved.inv.runWf hsaved.inv.queueWf
      (t := cur) (f := fun tcb => { tcb with interruptedAt := none }) rfl rfl rfl rfl)
    cases call with
    | blockCurrent wd predicate =>
      exact schedule_of_waiting hforgot.inv hforgot.current hforgot.waiting hrest
    | waitEvent interruptible wd =>
      exact schedule_of_waiting hforgot.inv hforgot.current hforgot.waiting hrest
  · split at hrest
    · rename_i hcurrent'
      exact (hv.quiet (.setTcb_quiet hv.runWf hv.queueWf rfl rfl rfl rfl)).finish hcurrent' hrest
    · cases hrest
      exact hv

/-- **A thread goes on** after such an interrupt. -/
theorem Settled.resume {second : Bool} (h : s.Settled)
    (hplace : ∀ cur place, s.current = some cur → (s.tcb cur).interruptedAt = some place →
      ∃ call, place = .prepared call)
    (hrun : resume second s = .ok s') : s'.Settled := by
  unfold Sched.resume at hrun
  split at hrun
  · cases hrun
    exact h
  rename_i cur hcurrent
  split at hrun
  · cases hrun
    exact h
  rename_i place hat
  obtain ⟨call, rfl⟩ := hplace cur place hcurrent hat
  exact (h.quiet (.setTcb_quiet h.runWf h.queueWf rfl rfl rfl rfl)).finish hcurrent hrun

/-! ## Locations -/

end Sched

/-! ## Runs -/

/-- What happens to the threads.  A call that blocks ends with the switch to the next thread;
the rest of it is `finishWait` of that thread later. -/
inductive ThreadCall where
  | waitEvent (interruptible : Bool) (wd : ℕ) (first second : Bool)
  | finishWait
  | blockCurrent (wd : ℕ) (predicate : Option ℕ)
  | wakeOne (holds : ℕ → Bool) (wd : ℕ)
  | wakeAll (holds : ℕ → Bool) (wd : ℕ)
  | timeout (t : ℕ)
  | signal (holds : ℕ → Bool) (t wd : ℕ)
  | tick
  | schedule (ignorePreemptDisabled : Bool)
  | yield
  | create (schdClass : ClassType) (role : BootThreadRole)
  | kill (t : ℕ)
  | bootstrap
  | interrupted (place : Place) (handler : Handler) (second : Bool)
  | resume (second : Bool)

namespace ThreadCall

open Sched

/-- The state after the call. -/
def run : ThreadCall → Sched → Except Halt Sched
  | waitEvent interruptible wd first second, s =>
    (Sched.waitEvent interruptible wd first second s).map Prod.snd
  | finishWait, s => .ok s.finishWait
  | blockCurrent wd predicate, s => (Sched.blockCurrent wd predicate s).map Prod.snd
  | wakeOne holds wd, s => (Sched.wakeOne holds wd s).map Prod.snd
  | wakeAll holds wd, s => .ok (s.wakeAll holds wd).2
  | timeout t, s => .ok (s.processTimeoutTcb t)
  | signal holds t wd, s => .ok (s.signal holds t wd)
  | tick, s => .ok s.doTick
  | schedule ignorePreemptDisabled, s => Sched.schedule ignorePreemptDisabled s
  | yield, s => s.yield
  | create schdClass role, s => .ok (s.create schdClass role).2
  | kill t, s => .ok (s.kill t)
  | bootstrap, s => s.bootstrapTasks
  | interrupted place handler second, s => s.interrupted place handler second
  | resume second, s => s.resume second

/-- Threads are created with a known class; each boot role and the idle class have one.  An
interrupt comes at a place that the running thread reaches. -/
def Possible : ThreadCall → Sched → Prop
  | create schdClass role, s => s.CanCreate schdClass role
  | interrupted place _ _, s => ∀ cur, s.current = some cur → place.Reached s cur
  | _, _ => True

/-- The condition of `wait_event` does not become true between its two evaluations, a timeout
comes when the thread does not wait any more, and a signal does not leave its target in a
wait queue.  An interrupt comes inside a blocking call only after all writes of the wait and
does not wake the thread, and inside no wakeup. -/
def Meets : ThreadCall → Sched → Prop
  | waitEvent _ _ first second, _ => first = true ∨ second = false
  | timeout t, s => ¬s.Waiting t
  | signal holds t wd, s => SignalReaches holds s t wd
  | interrupted (.prepared call) handler second, s =>
    SparedBy call.wd s handler ∧ second = false
  | interrupted _ _ _, _ => False
  | resume _, s => ∀ cur place, s.current = some cur → (s.tcb cur).interruptedAt = some place →
    ∃ call, place = .prepared call
  | _, _ => True

/-- A call from one state to the next. -/
def Step (s s' : Sched) : Prop := ∃ call : ThreadCall, call.Possible s ∧ call.run s = .ok s'

/-- A call that meets the conditions. -/
def GoodStep (s s' : Sched) : Prop :=
  ∃ call : ThreadCall, call.Possible s ∧ call.Meets s ∧ call.run s = .ok s'

end ThreadCall

namespace Sched

variable {s s' : Sched}

/-- No thread was created yet. -/
def boot : Sched where
  tcb _ := newTcb .bot .none
  next := 0
  run _ := NodeList.empty
  cursched _ := none
  queues _ := NodeList.empty
  current := none

theorem boot_settled : boot.Settled := by
  have hnot : ∀ t : ℕ, t ∉ (NodeList.empty : NodeList ℕ) := fun t => not_mem_nil
  refine ⟨⟨nofun, nofun, ?_⟩, ⟨?_, nofun⟩, nofun, nofun, nofun⟩
  · intro t slot hin
    exact absurd hin (hnot t)
  · intro t wd hin
    exact absurd hin (hnot t)

theorem Settled.step (h : s.Settled) (hstep : ThreadCall.GoodStep s s') : s'.Settled := by
  obtain ⟨call, hpossible, hmeets, hrun⟩ := hstep
  cases call with
  | waitEvent interruptible wd first second =>
    obtain ⟨r, hrun⟩ := map_snd_eq_ok hrun
    exact h.waitEvent hmeets hrun
  | finishWait =>
    cases hrun
    exact h.finishWait
  | blockCurrent wd predicate =>
    obtain ⟨r, hrun⟩ := map_snd_eq_ok hrun
    exact h.blockCurrent hrun
  | wakeOne holds wd =>
    obtain ⟨r, hrun⟩ := map_snd_eq_ok hrun
    unfold Sched.wakeOne at hrun
    split at hrun
    · cases hrun
      exact h
    · obtain ⟨hinv, hcurrent⟩ := Inv.wakeOneLoop h hrun
      unfold Settled
      rwa [hcurrent]
  | wakeAll holds wd =>
    cases hrun
    obtain ⟨hinv, hcurrent⟩ := Inv.wakeAll holds wd h
    unfold Settled
    rwa [hcurrent]
  | timeout t =>
    cases hrun
    exact h.processTimeoutTcb hmeets
  | signal holds t wd =>
    cases hrun
    exact h.signal hmeets
  | tick =>
    cases hrun
    exact h.doTick
  | schedule ignorePreemptDisabled => exact h.schedule hrun
  | yield => exact h.yield hrun
  | create schdClass role =>
    cases hrun
    exact h.create hpossible
  | kill t =>
    cases hrun
    exact h.kill
  | bootstrap => exact h.bootstrapTasks hrun
  | interrupted place handler second =>
    cases place with
    | prepared call =>
      obtain ⟨hspared, rfl⟩ := hmeets
      exact h.interrupted hpossible hspared hrun
    | _ => exact hmeets.elim
  | resume second => exact h.resume hmeets hrun

/-- A waiting thread that does not run and is in no list. -/
def Lost (s : Sched) (t : ℕ) : Prop :=
  t < s.next ∧ s.Waiting t ∧ s.current ≠ some t ∧ ¬s.InRun t ∧ ¬s.InQueue t

end Sched

end Sustcore
