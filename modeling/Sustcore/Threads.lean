/-
# Threads, wait queues and the scheduler (`kernel/task/wait.cpp`, `kernel/task/scheduler.cpp`)

A thread is running, in one of the ready lists of the scheduling classes (`kernel/schd`), or
in the wait queue of a wait descriptor.  Its `ThreadState` says which of these it should be;
state and lists are written by different functions.

The machine has one hart.  A thread is named by its `tid`.  The ready lists of the classes
`RT`, `RR` and `FCFS` are intrusive lists that share one link field; the classes `INIT` and
`IDLE` have pointers to a ready thread, which are lists of at most one thread here.  A wait
predicate is named by a number, and `holds` gives the values of the predicates while a
function runs.

`schedule` runs with interrupts off, the calls that block and wake do not.  An interrupt that
comes inside one of them, at a `Place`, may take the processor from the thread
(`interrupted`), which does the rest of the call when it runs again (`resume`).
-/
import Mathlib.Logic.Function.Basic
import Sustcore.NodeList
import Sustcore.Outcome

namespace Sustcore

open Function

/-! ## Threads -/

inductive ThreadState where
  | empty
  | initialization
  | ready
  | running
  | yield
  | interruptibleWaiting
  | uninterruptibleWaiting
  | dying
  deriving DecidableEq, Repr

def ThreadState.waiting : ThreadState → Bool
  | .interruptibleWaiting | .uninterruptibleWaiting => true
  | _ => false

/-- `schd::ClassType`. -/
inductive ClassType where
  | bot
  | idle
  | fcfs
  | rr
  | init
  | rt
  deriving DecidableEq, Repr

/-- The number of a class; a higher number is a higher priority. -/
def ClassType.priority : ClassType → ℕ
  | .bot => 0
  | .idle => 1
  | .fcfs => 2
  | .rr => 3
  | .init => 4
  | .rt => 5

inductive BootThreadRole where
  | none
  | kinit
  | initUser
  deriving DecidableEq, Repr

/-- The calls that put the running thread to wait. -/
inductive Blocker where
  | blockCurrent (wd : ℕ) (predicate : Option ℕ)
  | waitEvent (interruptible : Bool) (wd : ℕ)
  deriving DecidableEq, Repr

/-- Where an interrupt meets the running thread.  Inside a call that blocks: after `enqueue`
has written the state, after it has put the thread into the queue, and after all writes of
the wait, before the second evaluation of the condition and the switch.  Inside a wakeup:
after the thread `t` was popped from its queue. -/
inductive Place where
  | marked (call : Blocker)
  | linked (call : Blocker)
  | prepared (call : Blocker)
  | popped (t : ℕ)
  deriving DecidableEq, Repr

/-- `TCB`: what scheduling and waiting use of it.  `waitLinked` says that `wait_head` is
linked; `interruptedAt` is the place of the saved context inside a call. -/
structure Tcb where
  state : ThreadState
  needResched : Bool
  preemptDisabled : Bool
  schdClass : ClassType
  bootRole : BootThreadRole
  sliceCnt : ℕ
  waitWd : ℕ
  waitPredicate : Option ℕ
  waitLinked : Bool
  timeout : Bool
  signalInterrupted : Bool
  interruptedAt : Option Place
  deriving DecidableEq, Repr

/-- Where a ready thread is kept: a list of a class, or the ready thread of a role. -/
inductive ReadySlot where
  | rt
  | kinit
  | initUser
  | rr
  | fcfs
  | idle
  deriving DecidableEq, Repr

def ReadySlot.isList : ReadySlot → Bool
  | .rt | .rr | .fcfs => true
  | _ => false

/-- The slots in the order of `foreach_schdclass`. -/
def ReadySlot.order : List ReadySlot := [.rt, .kinit, .initUser, .rr, .fcfs, .idle]

/-- The class whose `pick_next` looks at the slot. -/
def ReadySlot.schdClass : ReadySlot → ClassType
  | .rt => .rt
  | .kinit | .initUser => .init
  | .rr => .rr
  | .fcfs => .fcfs
  | .idle => .idle

/-- `schd(tcb->schd_class)` and, for the class `INIT`, `ready_slot`. -/
def Tcb.slot (tcb : Tcb) : Option ReadySlot :=
  match tcb.schdClass with
  | .rt => some .rt
  | .init =>
    match tcb.bootRole with
    | .kinit => some .kinit
    | .initUser => some .initUser
    | .none => none
  | .rr => some .rr
  | .fcfs => some .fcfs
  | .idle => some .idle
  | .bot => none

/-- The threads, the ready lists, the wait queues and the running thread.  `next` is the
next `tid`; `cursched` is the thread that a class picked last. -/
structure Sched where
  tcb : ℕ → Tcb
  next : ℕ
  run : ReadySlot → NodeList ℕ
  cursched : ClassType → Option ℕ
  queues : ℕ → NodeList ℕ
  current : Option ℕ

namespace Sched

/-- Change one thread. -/
def setTcb (s : Sched) (t : ℕ) (f : Tcb → Tcb) : Sched :=
  { s with tcb := update s.tcb t (f (s.tcb t)) }

def setState (s : Sched) (t : ℕ) (state : ThreadState) : Sched :=
  s.setTcb t fun tcb => { tcb with state := state }

/-- `flags_set<FLAGS_NEED_RESCHED>()`. -/
def setNeedResched (s : Sched) (t : ℕ) : Sched :=
  s.setTcb t fun tcb => { tcb with needResched := true }

/-! ## Ready lists -/

/-- `rq_head` of the thread is linked. -/
def readyLinked (s : Sched) (t : ℕ) : Bool :=
  decide (t ∈ s.run .rt) || decide (t ∈ s.run .fcfs) || decide (t ∈ s.run .rr)

/-- `rq->…_list.push_back(*meta)`, or the pointer of a class. -/
def pushReady (s : Sched) (slot : ReadySlot) (t : ℕ) : Sched :=
  if slot.isList then
    if s.readyLinked t then s
    else { s with run := update s.run slot ((s.run slot).pushBack t) }
  else { s with run := update s.run slot (NodeList.single t) }

/-- `enqueue`; `put_prev` of every class has the same body. -/
def enqueue (s : Sched) (t : ℕ) : Result Unit × Sched :=
  match (s.tcb t).slot with
  | none => (.error .invalidParam, s)
  | some slot => (.ok (), (s.setState t .ready).pushReady slot t)

def dequeue (s : Sched) (t : ℕ) : Result Unit × Sched :=
  match (s.tcb t).slot with
  | none => (.error .invalidParam, s)
  | some slot =>
    if t ∈ s.run slot then
      (.ok (), { s with run := update s.run slot ((s.run slot).remove t) }.setState
        t .empty)
    else (.error .invalidParam, s)

def TIME_SLICES : ℕ := 5

/-- The thread at the front of a slot starts to run; `RR` gives it new time slices. -/
def pick (s : Sched) (slot : ReadySlot) (t : ℕ) : Sched :=
  { s with
    run := update s.run slot (s.run slot).popFront
    cursched := update s.cursched slot.schdClass (some t) }.setTcb t fun tcb =>
      { tcb with state := .running
                 sliceCnt := if slot = ReadySlot.rr then TIME_SLICES else tcb.sliceCnt }

/-- `pick_next_task`, over the slots that are left. -/
def pickFrom (s : Sched) : List ReadySlot → Option (ℕ × Sched)
  | [] => none
  | slot :: rest =>
    match (s.run slot).nodes with
    | [] => pickFrom s rest
    | t :: _ => some (t, s.pick slot t)

def pickNextTask (s : Sched) : Option (ℕ × Sched) := s.pickFrom ReadySlot.order

/-- `can_schedule_tcb`. -/
def canSchedule (s : Sched) (t : ℕ) : Bool := (s.tcb t).state != .dying

/-- `prepare_next_task`; `fuel` bounds the rounds of its loop. -/
def prepareNextTask : ℕ → Sched → Except Halt (ℕ × Sched)
  | 0, _ => .error .outOfFuel
  | fuel + 1, s =>
    match s.pickNextTask with
    | none => .error .panic
    | some (t, s) =>
      if s.canSchedule t then .ok (t, s)
      else prepareNextTask fuel (s.setNeedResched t)

def preparePrevTask (s : Sched) (t : ℕ) : Result Unit × Sched :=
  if (s.tcb t).state.waiting || (s.tcb t).state == .dying then (.ok (), s)
  else if !s.canSchedule t then (.ok (), s.setState t .uninterruptibleWaiting)
  else s.enqueue t

/-! ## The scheduler -/

/-- `schedule`; the switch makes the next thread the running one. -/
def schedule (ignorePreemptDisabled : Bool) (s : Sched) : Except Halt Sched :=
  match s.current with
  | none => .ok s
  | some cur =>
    let tcb := s.tcb cur
    if !ignorePreemptDisabled && !tcb.state.waiting && tcb.preemptDisabled then .ok s
    else if !tcb.needResched then .ok s
    else
      let s := s.setTcb cur fun tcb => { tcb with needResched := false }
      match s.preparePrevTask cur with
      | (.error _, _) => .error .panic
      | (.ok (), s) => do
          let (next, s) ← prepareNextTask 1 s
          pure { s with current := some next }

def bootstrapTasks (s : Sched) : Except Halt Sched :=
  match s.current with
  | some _ => .error .panic
  | none => do
      let (next, s) ← prepareNextTask 1 s
      pure { s with current := some next }

def checkPreemptCurr (s : Sched) (t : ℕ) : Sched :=
  match s.current with
  | none => s
  | some cur =>
    if (s.tcb cur).preemptDisabled then s
    else if (s.tcb t).schdClass.priority ≤ (s.tcb cur).schdClass.priority then s
    else s.setNeedResched cur

/-- `try_wakeup`, which `wakeup` and `wakeup_new` call. -/
def wakeup (s : Sched) (t : ℕ) : Bool × Sched :=
  match s.enqueue t with
  | (.error _, s) => (false, s)
  | (.ok (), s) => (true, s.checkPreemptCurr t)

def wakeupWaiting (s : Sched) (t : ℕ) : Bool × Sched :=
  if (s.tcb t).state == .dying then (false, s)
  else if !(s.tcb t).state.waiting then (false, s)
  else (s.setState t .empty).wakeup t

def yield (s : Sched) : Except Halt Sched :=
  match s.current with
  | none => .ok s
  | some cur =>
    -- the class marks the thread that it picked last
    match (s.tcb cur).schdClass, s.cursched (s.tcb cur).schdClass with
    | .bot, _ => schedule true s
    | _, none => schedule true s
    | _, some t => schedule true (s.setNeedResched t)

/-- `do_tick`; only `RR` does something at a tick. -/
def doTick (s : Sched) : Sched :=
  match s.current with
  | none => s
  | some cur =>
    if (s.tcb cur).schdClass = .rr then
      s.setTcb cur fun tcb =>
        { tcb with sliceCnt := tcb.sliceCnt - 1
                   needResched := tcb.needResched || decide (tcb.sliceCnt - 1 = 0) }
    else s

/-! ## Wait queues -/

/-- `queue->threads.push_back(*tcb)`. -/
def pushWaiter (s : Sched) (wd t : ℕ) : Sched :=
  if (s.tcb t).waitLinked then s
  else { s with queues := update s.queues wd ((s.queues wd).pushBack t) }.setTcb t
    fun tcb => { tcb with waitLinked := true }

/-- `queue->threads.pop_front()`, where `t` is the first thread. -/
def popWaiter (s : Sched) (wd t : ℕ) : Sched :=
  { s with queues := update s.queues wd (s.queues wd).popFront }.setTcb t
    fun tcb => { tcb with waitLinked := false }

def clearWaitMetadata (s : Sched) (t : ℕ) : Sched :=
  s.setTcb t fun tcb => { tcb with waitWd := 0, waitPredicate := none, waitLinked := false }

def runWaitPredicate (s : Sched) (holds : ℕ → Bool) (t : ℕ) : Bool :=
  match (s.tcb t).waitPredicate with
  | none => true
  | some p => holds p

/-- What `enqueue` writes into the thread before it puts it into the queue. -/
def markWaiter (s : Sched) (wd t : ℕ) (predicate : Option ℕ) : Sched :=
  s.setTcb t fun tcb =>
    { tcb with waitWd := wd
               waitPredicate := predicate
               state := .uninterruptibleWaiting }

/-- `WaitReasonManager::enqueue`. -/
def waitEnqueue (s : Sched) (wd t : ℕ) (predicate : Option ℕ) : Result Unit × Sched :=
  if wd = 0 then (.error .invalidParam, s)
  else (.ok (), (s.markWaiter wd t predicate).pushWaiter wd t)

/-- `WaitReasonManager::remove`. -/
def waitRemove (s : Sched) (t : ℕ) : Sched :=
  let wd := (s.tcb t).waitWd
  if wd = 0 then s
  else { s with queues := update s.queues wd ((s.queues wd).remove t) }.clearWaitMetadata t

/-- `dispatch_waiter` of the first thread of a queue, which was popped. -/
def dispatchWaiter (s : Sched) (t : ℕ) : Bool × Sched := (s.clearWaitMetadata t).wakeupWaiting t

/-- The loop of `wake_one`. -/
def wakeOneLoop (holds : ℕ → Bool) (wd : ℕ) : ℕ → Option ℕ → Kernel Sched ℕ
  | 0, _, _ => .error .outOfFuel
  | fuel + 1, firstRejected, s =>
    match (s.queues wd).nodes with
    | [] => .ok (.ok 0, s)
    | t :: _ =>
      let s := s.popWaiter wd t
      if firstRejected = some t then .ok (.ok 0, s.pushWaiter wd t)
      else if s.runWaitPredicate holds t then
        match s.dispatchWaiter t with
        | (false, s) => .ok (.error .failure, s)
        | (true, s) => .ok (.ok 1, s)
      else wakeOneLoop holds wd fuel (firstRejected.or (some t)) (s.pushWaiter wd t)

def wakeOne (holds : ℕ → Bool) (wd : ℕ) : Kernel Sched ℕ := fun s =>
  if wd = 0 then .ok (.error .invalidParam, s)
  else wakeOneLoop holds wd ((s.queues wd).nodes.length + 1) none s

/-- The loop of `wake_all`, with the rounds that are left. -/
def wakeAllLoop (holds : ℕ → Bool) (wd : ℕ) : ℕ → ℕ → Sched → Result ℕ × Sched
  | 0, count, s => (.ok count, s)
  | rounds + 1, count, s =>
    match (s.queues wd).nodes with
    | [] => (.ok count, s)
    | t :: _ =>
      let s := s.popWaiter wd t
      if s.runWaitPredicate holds t then
        match s.dispatchWaiter t with
        | (false, s) => (.error .failure, s)
        | (true, s) => wakeAllLoop holds wd rounds (count + 1) s
      else wakeAllLoop holds wd rounds count (s.pushWaiter wd t)

def wakeAll (holds : ℕ → Bool) (wd : ℕ) (s : Sched) : Result ℕ × Sched :=
  if wd = 0 then (.error .invalidParam, s)
  else wakeAllLoop holds wd (s.queues wd).nodes.length 0 s

/-- `block_current`, until the running thread is switched away from. -/
def blockCurrent (wd : ℕ) (predicate : Option ℕ) : Kernel Sched Unit := fun s =>
  match s.current with
  | none => .ok (.error .invalidParam, s)
  | some cur =>
    if (s.tcb cur).schdClass = .idle then .ok (.error .invalidParam, s)
    else
      match s.waitEnqueue wd cur predicate with
      | (.error e, s) => .ok (.error e, s)
      | (.ok (), s) => do
          let s ← schedule true (s.setNeedResched cur)
          pure (.ok (), s)

/-! ## `wait_event` -/

/-- One round of `wait_event` (`interruptible = false`) or `wait_event_int`, until the
running thread is switched away from or leaves.  `first` and `second` are the values of the
condition before and after the thread is put into the queue. -/
def waitEvent (interruptible : Bool) (wd : ℕ) (first second : Bool) : Kernel Sched Unit := fun s =>
  if wd = 0 then .ok (.error .invalidParam, s)
  else match s.current with
    | none => .ok (.error .invalidParam, s)
    | some cur =>
      if (s.tcb cur).schdClass = .idle then .ok (.error .invalidParam, s)
      else if first then .ok (.ok (), s)
      else
        match s.waitEnqueue wd cur none with
        | (.error e, s) => .ok (.error e, s)
        | (.ok (), s) =>
          let s := s.setState cur
            (if interruptible then .interruptibleWaiting else .uninterruptibleWaiting)
          if second then .ok (.ok (), s.waitRemove cur)
          else do
            let s ← schedule true (s.setNeedResched cur)
            pure (.ok (), s)

/-- `__wait_event_finish_wait` of the running thread. -/
def finishWait (s : Sched) : Sched :=
  match s.current with
  | none => s
  | some cur => s.waitRemove cur

/-! ## Timeouts, signals, new threads and the end of threads -/

def processTimeoutTcb (s : Sched) (t : ℕ) : Sched :=
  ((s.setTcb t fun tcb => { tcb with timeout := true }).wakeupWaiting t).2

/-- `PCBObject::signal`, of a target thread and the wait descriptor of `waitsig`. -/
def signal (holds : ℕ → Bool) (s : Sched) (t waitsigWd : ℕ) : Sched :=
  let s := s.setTcb t fun tcb => { tcb with signalInterrupted := true }
  let s := if (s.tcb t).state = .interruptibleWaiting then (s.wakeupWaiting t).2 else s
  (s.wakeAll holds waitsigWd).2

/-- A thread that has just been created. -/
def newTcb (schdClass : ClassType) (role : BootThreadRole) : Tcb :=
  ⟨.empty, false, false, schdClass, role, 0, 0, none, false, false, false, none⟩

/-- A thread is created and woken (`wakeup_new`). -/
def create (s : Sched) (schdClass : ClassType) (role : BootThreadRole) : Bool × Sched :=
  let t := s.next
  { s with tcb := update s.tcb t (newTcb schdClass role), next := t + 1 }.wakeup t

/-- What `kill_pcb_impl` does to a thread, without the `schedule` that follows when it is the
running one. -/
def kill (s : Sched) (t : ℕ) : Sched :=
  let s := if s.current ≠ some t ∧ (s.tcb t).state = .ready then (s.dequeue t).2 else s
  let s := s.setState t .dying
  if s.current = some t then s.setNeedResched t else s

end Sched

/-! ## Interrupts inside the calls -/

/-- The descriptor of the wait. -/
def Blocker.wd : Blocker → ℕ
  | blockCurrent wd _ => wd
  | waitEvent _ wd => wd

/-- The predicate of the wait; `wait_event` has none. -/
def Blocker.predicate : Blocker → Option ℕ
  | blockCurrent _ predicate => predicate
  | waitEvent _ _ => none

/-- `__wait_event_set_wait_state`, which `block_current` does not have. -/
def Blocker.setWaitState (s : Sched) (cur : ℕ) : Blocker → Sched
  | blockCurrent _ _ => s
  | waitEvent interruptible _ =>
    s.setState cur (if interruptible then .interruptibleWaiting else .uninterruptibleWaiting)

/-- The end of the call, from the second evaluation of the condition on. -/
def Blocker.finish (second : Bool) (s : Sched) (cur : ℕ) : Blocker → Except Halt Sched
  | blockCurrent _ _ => Sched.schedule true (s.setNeedResched cur)
  | waitEvent _ _ =>
    if second then .ok (s.waitRemove cur) else Sched.schedule true (s.setNeedResched cur)

namespace Place

/-- The running thread comes to the place: a thread with a valid descriptor blocks, or the
thread to be woken is the first one of its queue. -/
def Reached (s : Sched) (cur : ℕ) : Place → Prop
  | marked call | linked call | prepared call => call.wd ≠ 0 ∧ (s.tcb cur).schdClass ≠ .idle
  | popped t => (s.queues (s.tcb t).waitWd).nodes.head? = some t

/-- The state in which the interrupt comes. -/
def reach (s : Sched) (cur : ℕ) : Place → Sched
  | marked call => s.markWaiter call.wd cur call.predicate
  | linked call => (s.markWaiter call.wd cur call.predicate).pushWaiter call.wd cur
  | prepared call =>
    call.setWaitState ((s.markWaiter call.wd cur call.predicate).pushWaiter call.wd cur) cur
  | popped t => s.popWaiter (s.tcb t).waitWd t

/-- What the call does after the place. -/
def rest (second : Bool) (s : Sched) (cur : ℕ) : Place → Except Halt Sched
  | marked call => call.finish second (call.setWaitState (s.pushWaiter call.wd cur) cur) cur
  | linked call => call.finish second (call.setWaitState s cur) cur
  | prepared call => call.finish second s cur
  | popped t => .ok (s.dispatchWaiter t).2

end Place

/-- What the handler of an interrupt does before its `schedule`. -/
inductive Handler where
  | tick
  | timeout (t : ℕ)
  | wakeAll (holds : ℕ → Bool) (wd : ℕ)

def Handler.run (s : Sched) : Handler → Sched
  | tick => s.doTick
  | timeout t => s.processTimeoutTcb t
  | wakeAll holds wd => (s.wakeAll holds wd).2

namespace Sched

/-- Save or forget the place of a thread. -/
def setInterruptedAt (s : Sched) (t : ℕ) (place : Option Place) : Sched :=
  s.setTcb t fun tcb => { tcb with interruptedAt := place }

/-- The running thread is interrupted at the place.  `schedule` at the end of the trap
switches to another thread, or the call goes on. -/
def interrupted (place : Place) (handler : Handler) (second : Bool) (s : Sched) :
    Except Halt Sched :=
  match s.current with
  | none => .ok s
  | some cur => do
    let s ← schedule false ((handler.run (place.reach s cur)).setInterruptedAt cur (some place))
    if s.current = some cur then place.rest second (s.setInterruptedAt cur none) cur
    else pure s

/-- The running thread goes on with the call in which it was interrupted. -/
def resume (second : Bool) (s : Sched) : Except Halt Sched :=
  match s.current with
  | none => .ok s
  | some cur =>
    match (s.tcb cur).interruptedAt with
    | none => .ok s
    | some place => place.rest second (s.setInterruptedAt cur none) cur

end Sched

end Sustcore
