/-
# The alarm of the time keeper (`driver/clock.cpp`)

`TimeKeeper` queues actions and programs the alarm of the hart for the first of them.  `enqueue`
does so when the time of the root has changed, `cancel` when something was removed, and a timer
interrupt always, because it takes at most eight of the actions that are due.  An action that is
run may queue another one; that is a call of its own.

`alarm` notes what was last given to `set_next_event`.  `alarm_never_late` says that it is never
set for a time after the first action.
-/
import Sustcore.ExpireQueueHeap

namespace Sustcore.Clock

open ExpireActionQueue

/-- `units::time`: nanoseconds in a signed word. -/
abbrev Nanoseconds := BitVec 64

def ExpireActionQueue.peek (q : ExpireActionQueue) : Option ExpireAction :=
  if q.heapSize = 0 then none else some (q.slots (q.heap 0)).action

def ExpireActionQueue.rootTime (q : ExpireActionQueue) : Option ℕ :=
  q.peek.map ExpireAction.expireTime

/-- A call of `set_next_event`. -/
structure AlarmEvent where
  now : Nanoseconds
  delta : Nanoseconds

/-- `TimeKeeper`; the first two fields tell whether the pointers to the clock source and to the
alarm are not null. -/
structure TimeKeeper where
  source : Bool
  device : Bool
  queue : ExpireActionQueue
  alarm : Option AlarmEvent

namespace TimeKeeper

/-- The test at the start of every call. -/
def ready (k : TimeKeeper) : Bool := k.source && k.device

/-- The delay of `rearm_timer_locked`; `to_ns_size` reads the clock as an unsigned word. -/
def delay (now : Nanoseconds) (expireTime : ℕ) : Nanoseconds :=
  if expireTime ≤ now.toNat then 1 else BitVec.ofNat 64 expireTime - now

def rearmTimerLocked (now : Nanoseconds) (k : TimeKeeper) : TimeKeeper :=
  match k.queue.peek with
  | none => k
  | some next => { k with alarm := some ⟨now, delay now next.expireTime⟩ }

/-- `enqueue`; an action that is due is run at once. -/
def enqueue (now : Nanoseconds) (action : ExpireAction) (k : TimeKeeper) :
    Result ExpireHandle × TimeKeeper :=
  if !k.ready then (.error .invalidParam, k)
  else if action.expireTime ≤ now.toNat then (.ok ⟨INVALID_SLOT, 0⟩, k)
  else
    match k.queue.push action with
    | .error e => (.error e, k)
    | .ok (handle, queue) =>
      let pushed := { k with queue := queue }
      if k.queue.rootTime = none ∨ (queue.rootTime ≠ none ∧ queue.rootTime ≠ k.queue.rootTime) then
        (.ok handle, pushed.rearmTimerLocked now)
      else (.ok handle, pushed)

def cancel (now : Nanoseconds) (handle : ExpireHandle) (k : TimeKeeper) : Bool × TimeKeeper :=
  if !k.ready then (false, k)
  else
    let (removed, queue) := k.queue.cancel handle
    let cancelled := { k with queue := queue }
    (removed, if removed then cancelled.rearmTimerLocked now else cancelled)

/-- `on_timer_irq` up to the actions it runs. -/
def onTimerIrq (now : Nanoseconds) (k : TimeKeeper) : List ExpireAction × TimeKeeper :=
  if !k.ready then ([], k)
  else
    let (due, queue) := k.queue.popDue now.toNat
    (due, { k with queue := queue }.rearmTimerLocked now)

/-- A call, with the clock that it reads. -/
inductive Call where
  | enqueue (now : Nanoseconds) (action : ExpireAction) (htime : action.expireTime < 2 ^ 63)
  | cancel (now : Nanoseconds) (handle : ExpireHandle)
  | irq (now : Nanoseconds)

def step (k : TimeKeeper) : Call → TimeKeeper
  | .enqueue now action _ => (k.enqueue now action).2
  | .cancel now handle => (k.cancel now handle).2
  | .irq now => (k.onTimerIrq now).2

def run (source device : Bool) (calls : List Call) : TimeKeeper :=
  calls.foldl step ⟨source, device, .init, none⟩

/-! ## The alarm is set for the first action -/

/-- The alarm is set for no later than `time`, or for the next nanosecond. -/
def SetFor (k : TimeKeeper) (time : ℕ) : Prop :=
  ∃ a, k.alarm = some a ∧ a.now.toInt + a.delta.toInt ≤ max (time : ℤ) (a.now.toInt + 1)

/-- What every call keeps. -/
structure Timely (k : TimeKeeper) : Prop where
  wf : k.queue.WF
  bound : ∀ slot ∈ k.queue.activeSlots, k.queue.time slot < 2 ^ 63
  alarm : ∀ slot ∈ k.queue.activeSlots, k.SetFor (k.queue.time slot)

variable {k : TimeKeeper}

theorem SetFor.mono {time time' : ℕ} (h : k.SetFor time) (hle : time ≤ time') : k.SetFor time' := by
  obtain ⟨a, ha, hset⟩ := h
  exact ⟨a, ha, hset.trans (max_le_max_right _ (Int.ofNat_le.mpr hle))⟩

/-- The delay does not reach past the time; the words do not wrap for a time of 63 bits. -/
theorem delay_le (now : Nanoseconds) {time : ℕ} (htime : time < 2 ^ 63) :
    now.toInt + (delay now time).toInt ≤ max (time : ℤ) (now.toInt + 1) := by
  unfold delay
  split
  · exact le_max_right _ _
  rw [BitVec.toInt_sub, BitVec.toInt_eq_toNat_of_lt (x := now) (by omega),
    BitVec.toInt_eq_toNat_of_lt (x := BitVec.ofNat 64 time) (by simp; omega), BitVec.toNat_ofNat,
    Nat.mod_eq_of_lt (by omega), Int.bmod_eq_of_le (by omega) (by omega)]
  omega

theorem root_active {q : ExpireActionQueue} (hq : q.WF) {slot : ℕ} (hslot : slot ∈ q.activeSlots) :
    q.rootTime = some (q.time (q.heap 0)) ∧ q.heap 0 ∈ q.activeSlots := by
  have hlt := (hq.indexed.position slot hslot).1
  refine ⟨?_, (hq.indexed.item 0 (by omega)).1⟩
  unfold rootTime peek
  rw [if_neg (by omega)]
  rfl

theorem rearmTimerLocked_queue (now : Nanoseconds) (k : TimeKeeper) :
    (k.rearmTimerLocked now).queue = k.queue := by
  unfold rearmTimerLocked
  split <;> rfl

/-- **Programming the alarm** makes it right, whatever it was before. -/
theorem timely_rearm (now : Nanoseconds) (hwf : k.queue.WF)
    (hbound : ∀ slot ∈ k.queue.activeSlots, k.queue.time slot < 2 ^ 63) :
    (k.rearmTimerLocked now).Timely := by
  refine ⟨?_, ?_, ?_⟩
  all_goals rw [rearmTimerLocked_queue]
  · exact hwf
  · exact hbound
  · intro slot hslot
    obtain ⟨hroot, hactive⟩ := root_active hwf hslot
    refine SetFor.mono ?_ (hwf.root_first slot hslot)
    obtain ⟨next, hpeek, htime⟩ := Option.map_eq_some_iff.mp hroot
    refine ⟨⟨now, delay now next.expireTime⟩, ?_, ?_⟩
    · unfold rearmTimerLocked
      rw [hpeek]
    · rw [htime]
      exact delay_le now (hbound _ hactive)

theorem Timely.enqueue (h : k.Timely) (now : Nanoseconds) {action : ExpireAction}
    (htime : action.expireTime < 2 ^ 63) : (k.enqueue now action).2.Timely := by
  unfold TimeKeeper.enqueue
  split
  · exact h
  split
  · exact h
  cases hpush : k.queue.push action with
  | error e => exact h
  | ok p =>
    obtain ⟨handle, queue⟩ := p
    obtain ⟨hwf, hpushed⟩ := push_spec h.wf hpush
    have hbound : ∀ slot ∈ queue.activeSlots, queue.time slot < 2 ^ 63 := by
      intro slot hslot
      unfold ExpireActionQueue.time
      by_cases hs : slot = handle.slot
      · rwa [hs, hpushed.queued.2.1]
      · rw [(hpushed.other slot hs).2.1]
        exact h.bound slot ⟨hslot.1, (hpushed.other slot hs).1 ▸ hslot.2⟩
    dsimp only
    split
    · exact timely_rearm now hwf hbound
    -- the root has the time of the root before, for which the alarm is set
    rename_i hsame
    refine ⟨hwf, hbound, fun slot hslot => ?_⟩
    obtain ⟨hroot, -⟩ := root_active hwf hslot
    obtain ⟨hsome, hsame⟩ := not_or.mp hsame
    have heq : queue.rootTime = k.queue.rootTime := by
      by_contra hne
      exact hsame ⟨by rw [hroot]; exact nofun, hne⟩
    have hsize : k.queue.heapSize ≠ 0 := by
      intro hzero
      refine hsome ?_
      unfold rootTime peek
      rw [if_pos hzero]
      rfl
    have hactive : k.queue.heap 0 ∈ k.queue.activeSlots :=
      (h.wf.indexed.item 0 (Nat.pos_of_ne_zero hsize)).1
    rw [(root_active h.wf hactive).1, hroot] at heq
    have hset := h.alarm _ hactive
    rw [← Option.some.inj heq] at hset
    exact hset.mono (hwf.root_first slot hslot)

theorem Timely.drained (h : k.Timely) {queue : ExpireActionQueue}
    (hdrained : Drained k.queue queue) : ∀ slot ∈ queue.activeSlots, queue.time slot < 2 ^ 63 := by
  intro slot hslot
  unfold ExpireActionQueue.time
  rw [hdrained.action]
  exact h.bound slot ⟨hslot.1, hdrained.active slot hslot.2⟩

/-- **Every call** leaves the alarm set for the first action. -/
theorem Timely.step (h : k.Timely) (call : Call) : (k.step call).Timely := by
  cases call with
  | enqueue now action htime => exact h.enqueue now htime
  | cancel now handle =>
    show (k.cancel now handle).2.Timely
    unfold TimeKeeper.cancel
    split
    · exact h
    by_cases hcurrent : k.queue.Current handle
    · obtain ⟨hremoved, hwf, hspec⟩ := cancel_of_current h.wf hcurrent
      dsimp only
      rw [if_pos hremoved]
      exact timely_rearm now hwf (h.drained (hspec.drained hcurrent.1.2))
    · rwa [cancel_of_not_current hcurrent]
  | irq now =>
    show (k.onTimerIrq now).2.Timely
    unfold onTimerIrq
    split
    · exact h
    obtain ⟨hwf, hdrained, -⟩ := popDue_spec h.wf now.toNat
    exact timely_rearm now hwf (h.drained hdrained)

/-- **The alarm is never late**: after any run, it is set for no later than any queued action, or
for the nanosecond after the call that set it. -/
theorem alarm_never_late (source device : Bool) (calls : List Call) :
    ∀ slot ∈ (run source device calls).queue.activeSlots, ∃ a,
      (run source device calls).alarm = some a ∧ a.now.toInt + a.delta.toInt ≤
        max ((run source device calls).queue.time slot : ℤ) (a.now.toInt + 1) := by
  have hrun : (run source device calls).Timely := by
    refine List.foldlRecOn calls _ ⟨wf_init, ?_, ?_⟩ fun k hk call _ => hk.step call
    · exact fun slot hslot => absurd hslot.2 (by simp [ExpireActionQueue.init])
    · exact fun slot hslot => absurd hslot.2 (by simp [ExpireActionQueue.init])
  exact hrun.alarm

/-- Of two actions, the one of time 8 is due at the interrupt; the alarm is set for the other. -/
theorem alarm_never_late_one :
    let k := run true true [.enqueue 5 ⟨10, 0, 0, 0⟩ (by decide),
      .enqueue 6 ⟨8, 0, 0, 0⟩ (by decide), .irq 9]
    0 ∈ k.queue.activeSlots ∧ 1 ∉ k.queue.activeSlots ∧ ∃ a, k.alarm = some a ∧
      a.now.toInt + a.delta.toInt ≤ max (k.queue.time 0 : ℤ) (a.now.toInt + 1) := by
  have hslot : 0 ∈ (run true true [.enqueue 5 ⟨10, 0, 0, 0⟩ (by decide),
      .enqueue 6 ⟨8, 0, 0, 0⟩ (by decide), .irq 9]).queue.activeSlots := by
    refine ⟨?_, ?_⟩ <;> decide +kernel
  exact ⟨hslot, fun h => absurd h.2 (by decide +kernel), alarm_never_late true true _ 0 hslot⟩

end TimeKeeper

end Sustcore.Clock
