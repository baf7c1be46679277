/-
# The places of the threads, call by call

Every thread should be where its `ThreadState` says.  The calls pass through states in which
one thread is on its way: `Inv o c` has `c` in the place of the running thread and, if `o` is
a thread, forgets the wait queue of that thread, which is ready already.  The loops of
`wake_one` and `wake_all` and the switch keep it.
-/
import Sustcore.ThreadPlaces

namespace Sustcore

open Sched NodeList List

namespace Sched

variable {s s' : Sched} {t cur wd : ℕ} {holds : ℕ → Bool} {slot : ReadySlot}
  {o c : Option ℕ}

/-! ## The invariant -/

/-- The thread is where its state says, when `c` is the running thread. -/
def Placed (c : Option ℕ) (s : Sched) (t : ℕ) : Prop :=
  match (s.tcb t).state with
  | .running => c = some t ∧ ¬s.InRun t ∧ ¬s.InQueue t
  | .ready => c ≠ some t ∧ s.InRun t ∧ ¬s.InQueue t
  | .interruptibleWaiting | .uninterruptibleWaiting => c ≠ some t ∧ ¬s.InRun t ∧ s.InQueue t
  | .dying => ¬s.InRun t ∧ (c = some t → ¬s.InQueue t)
  | .empty | .initialization | .yield => False

/-- All threads are in their places, with `c` as the running thread.  The thread `o` is ready
but may be in a wait queue as well. -/
structure Inv (o c : Option ℕ) (s : Sched) : Prop where
  runWf : s.RunWf
  queueWf : s.QueueWf
  current_lt : ∀ t, c = some t → t < s.next
  placed : ∀ t < s.next, o ≠ some t → Placed c s t
  woken : ∀ t, o = some t → (s.tcb t).state = .ready ∧ s.InRun t ∧ c ≠ some t

theorem Placed.of_same (h : Placed c s t) (hsame : Same s s' t) : Placed c s' t := by
  unfold Placed at h ⊢
  rw [hsame.state]
  simp only [hsame.inRun, hsame.inQueue]
  exact h

theorem Placed.congr {c' : Option ℕ} (h : Placed c s t) (hc : c' = some t ↔ c = some t) :
    Placed c' s t := by
  unfold Placed at h ⊢
  simp only [ne_eq, hc]
  exact h

theorem placed_ready (hstate : (s.tcb t).state = .ready) (hc : c ≠ some t) (hrun : s.InRun t)
    (hqueue : ¬s.InQueue t) : Placed c s t := by
  unfold Placed
  rw [hstate]
  exact ⟨hc, hrun, hqueue⟩

theorem placed_dying (hstate : (s.tcb t).state = .dying) (hrun : ¬s.InRun t)
    (hqueue : c = some t → ¬s.InQueue t) : Placed c s t := by
  unfold Placed
  rw [hstate]
  exact ⟨hrun, hqueue⟩

theorem placed_waiting (hstate : s.Waiting t) (hc : c ≠ some t) (hrun : ¬s.InRun t)
    (hqueue : s.InQueue t) : Placed c s t := by
  unfold Waiting at hstate
  unfold Placed
  cases hs : (s.tcb t).state with
  | interruptibleWaiting => exact ⟨hc, hrun, hqueue⟩
  | uninterruptibleWaiting => exact ⟨hc, hrun, hqueue⟩
  | _ =>
    rw [hs] at hstate
    cases hstate

/-- A waiting thread is in a queue and nowhere else. -/
theorem Placed.of_waiting (h : Placed c s t) (hstate : s.Waiting t) :
    c ≠ some t ∧ ¬s.InRun t ∧ s.InQueue t := by
  unfold Waiting at hstate
  unfold Placed at h
  cases hs : (s.tcb t).state <;> rw [hs] at h hstate
  case interruptibleWaiting | uninterruptibleWaiting => exact h
  all_goals cases hstate

theorem Placed.of_inQueue (h : Placed c s t) (hqueue : s.InQueue t) :
    s.Waiting t ∨ (s.tcb t).state = .dying ∧ ¬s.InRun t ∧ c ≠ some t := by
  unfold Placed at h
  unfold Waiting
  cases hs : (s.tcb t).state <;> rw [hs] at h
  case interruptibleWaiting | uninterruptibleWaiting => exact .inl rfl
  case dying => exact .inr ⟨rfl, h.1, fun hc => h.2 hc hqueue⟩
  case running | ready => exact absurd hqueue h.2.2
  all_goals exact h.elim

theorem Placed.of_current (h : Placed (some t) s t) :
    ((s.tcb t).state = .running ∨ (s.tcb t).state = .dying) ∧ ¬s.InRun t ∧ ¬s.InQueue t := by
  unfold Placed at h
  cases hs : (s.tcb t).state <;> rw [hs] at h
  case running => exact ⟨.inl rfl, h.2⟩
  case dying => exact ⟨.inr rfl, h.1, h.2 rfl⟩
  case ready | interruptibleWaiting | uninterruptibleWaiting => exact absurd rfl h.1
  all_goals exact h.elim

theorem Placed.of_inRun (h : Placed c s t) (hrun : s.InRun t) :
    (s.tcb t).state = .ready ∧ c ≠ some t ∧ ¬s.InQueue t := by
  unfold Placed at h
  cases hs : (s.tcb t).state <;> rw [hs] at h
  case ready => exact ⟨rfl, h.1, h.2.2⟩
  case dying => exact absurd hrun h.1
  case running | interruptibleWaiting | uninterruptibleWaiting => exact absurd hrun h.2.1
  all_goals exact h.elim

/-- A step that moves at most the thread `x`, and after which `o'` and `c'` are the thread on
its way and the running thread. -/
theorem Inv.step {o' c' x : Option ℕ} (h : Inv o c s) (htouches : Touches x s s')
    (hlt : ∀ u, c' = some u → u < s.next)
    (hrest : ∀ u, o' ≠ some u → x ≠ some u → o ≠ some u ∧ (c' = some u ↔ c = some u))
    (hmoved : ∀ u < s.next, x = some u → o' ≠ some u → Placed c' s' u)
    (hwoken : ∀ u, o' = some u → (s'.tcb u).state = .ready ∧ s'.InRun u ∧ c' ≠ some u) :
    Inv o' c' s' := by
  refine ⟨htouches.runWf, htouches.queueWf, ?_, ?_, hwoken⟩
  · intro u hu
    rw [htouches.next]
    exact hlt u hu
  · intro u hu ho'
    rw [htouches.next] at hu
    by_cases hx : x = some u
    · exact hmoved u hu hx ho'
    · obtain ⟨ho, hc⟩ := hrest u ho' hx
      exact ((h.placed u hu ho).of_same (htouches.same u hx)).congr hc

theorem Inv.woken_of_touches {x : Option ℕ} (h : Inv o c s) (htouches : Touches x s s')
    (hx : ∀ u, o = some u → x ≠ some u) :
    ∀ u, o = some u → (s'.tcb u).state = .ready ∧ s'.InRun u ∧ c ≠ some u := by
  intro u hu
  have hsame := htouches.same u (hx u hu)
  obtain ⟨hstate, hrun, hc⟩ := h.woken u hu
  exact ⟨hsame.state.trans hstate, hsame.inRun.mpr hrun, hc⟩

theorem Inv.of_touches (h : Inv o c s) (htouches : Touches (some t) s s') (ho : o ≠ some t)
    (ht : t < s.next → Placed c s' t) : Inv o c s' := by
  refine h.step htouches h.current_lt (fun u hu _ => ⟨hu, Iff.rfl⟩) ?_
    (h.woken_of_touches htouches fun u hu heq => ho (hu.trans heq.symm))
  intro u hu heq _
  cases heq
  exact ht hu

theorem Inv.of_quiet (h : Inv o c s) (htouches : Touches none s s') : Inv o c s' :=
  h.step htouches h.current_lt (fun _ hu _ => ⟨hu, Iff.rfl⟩) nofun
    (h.woken_of_touches htouches fun _ _ => nofun)

/-- A woken thread that has left its queue is in its place. -/
theorem Inv.settle (h : Inv (some t) c s) (htouches : Touches (some t) s s')
    (hstate : (s'.tcb t).state = .ready) (hrun : s'.InRun t) (hqueue : ¬s'.InQueue t) :
    Inv none c s' := by
  refine h.step htouches h.current_lt (fun u _ hne => ⟨hne, Iff.rfl⟩) ?_ nofun
  intro u _ heq _
  cases heq
  exact placed_ready hstate (h.woken t rfl).2.2 hrun hqueue

/-- A thread is made ready and stays in its queue. -/
theorem Inv.wakeEarly (h : Inv none c s) (htouches : Touches (some t) s s')
    (hstate : (s'.tcb t).state = .ready) (hrun : s'.InRun t) (hc : c ≠ some t) :
    Inv (some t) c s' := by
  refine h.step htouches h.current_lt (fun u _ _ => ⟨nofun, Iff.rfl⟩)
    (fun u _ heq hne => absurd heq hne) ?_
  intro u hu
  cases hu
  exact ⟨hstate, hrun, hc⟩

/-! ## The loops of `wake_one` and `wake_all` -/

theorem Inv.reject (h : Inv o c s) {rest : List ℕ} (hfirst : (s.queues wd).nodes = t :: rest) :
    Touches none s ((s.popWaiter wd t).pushWaiter wd t) := by
  have hin := mem_of_first hfirst
  obtain ⟨hnext, hzero, hwd, -⟩ := h.queueWf.queue_wd t wd hin
  obtain ⟨hpop, hnot⟩ := Touches.popWaiter h.runWf h.queueWf hfirst
  have hwd' : ((s.popWaiter wd t).tcb t).waitWd = wd := by
    unfold popWaiter
    rwa [setTcb_tcb_self]
  obtain ⟨hpush, hin'⟩ := Touches.pushWaiter hpop.runWf hpop.queueWf hnext hzero hwd' hnot
  refine (hpop.trans hpush).restore ⟨?_, ?_, iff_of_true hin' ⟨wd, hin⟩⟩
  · exact state_of_view (view_rejected s wd t t)
  · unfold pushWaiter
    split
    · exact Iff.rfl
    · exact Iff.rfl

/-- **The first thread of a queue is dispatched.**  It becomes ready if it waited; otherwise
it only leaves the queue. -/
theorem Inv.dispatch (h : Inv o c s) {rest : List ℕ} (hfirst : (s.queues wd).nodes = t :: rest) :
    ∃ b s', (s.popWaiter wd t).dispatchWaiter t = (b, s') ∧ s'.current = s.current ∧
      (o ≠ some t → Inv o c s') ∧ (o = some t → b = false ∧ Inv none c s') := by
  have hin := mem_of_first hfirst
  have hnext := (h.queueWf.queue_wd t wd hin).1
  obtain ⟨hpop, hnot⟩ := Touches.popWaiter h.runWf h.queueWf hfirst
  have hclear : Touches (some t) (s.popWaiter wd t) ((s.popWaiter wd t).clearWaitMetadata t) :=
    Touches.setTcb_off hpop.runWf hpop.queueWf rfl hnot rfl
  have htouches := hpop.trans hclear
  have hstate : (((s.popWaiter wd t).clearWaitMetadata t).tcb t).state = (s.tcb t).state := by
    unfold clearWaitMetadata popWaiter
    rw [setTcb_tcb_self, setTcb_tcb_self]
  have hstill : ¬((s.popWaiter wd t).clearWaitMetadata t).Waiting t →
      (s.popWaiter wd t).dispatchWaiter t =
        (false, (s.popWaiter wd t).clearWaitMetadata t) := wakeupWaiting_of_not_waiting
  unfold Waiting at hstill
  rw [hstate] at hstill
  by_cases ho : o = some t
  · -- the thread was woken before
    subst ho
    obtain ⟨hready, hrun, -⟩ := h.woken t rfl
    refine ⟨_, _, hstill (by rw [hready]; decide), htouches.current, fun hne => absurd rfl hne,
      fun _ => ⟨rfl, h.settle htouches (hstate.trans hready) hrun hnot⟩⟩
  · rcases (h.placed t hnext ho).of_inQueue ⟨wd, hin⟩ with hwaiting | ⟨hdying, hrun, -⟩
    · have hwaiting' : ((s.popWaiter wd t).clearWaitMetadata t).Waiting t := by
        unfold Waiting
        rwa [hstate]
      obtain ⟨s', hwakeup, hwake, hready, hrun, hqueues, -⟩ :=
        Touches.wakeupWaiting hclear.runWf hclear.queueWf hnext hwaiting'
      have hc := ((h.placed t hnext ho).of_waiting hwaiting).1
      have hnot' : ¬s'.InQueue t := by
        unfold InQueue
        rwa [hqueues]
      exact ⟨true, s', hwakeup, (htouches.trans hwake).current,
        fun _ => h.of_touches (htouches.trans hwake) ho fun _ => placed_ready hready hc hrun hnot',
        fun heq => absurd heq ho⟩
    · exact ⟨_, _, hstill (by rw [hdying]; decide), htouches.current,
        fun _ => h.of_touches htouches ho fun _ =>
          placed_dying (hstate.trans hdying) hrun fun _ => hnot,
        fun heq => absurd heq ho⟩

/-- The invariant is kept, and no switch happens. -/
def Keeps (c : Option ℕ) (s s' : Sched) : Prop :=
  Inv none c s → Inv none c s' ∧ s'.current = s.current

theorem Keeps.refl (s : Sched) : Keeps c s s := fun h => ⟨h, rfl⟩

theorem Keeps.trans (s₁ s₂ s₃ : Sched) (h₁ : Keeps c s₁ s₂) (h₂ : Keeps c s₂ s₃) :
    Keeps c s₁ s₃ := by
  intro h
  obtain ⟨hinv, hcurrent⟩ := h₁ h
  obtain ⟨hinv', hcurrent'⟩ := h₂ hinv
  exact ⟨hinv', hcurrent'.trans hcurrent⟩

theorem Keeps.dispatch (s : Sched) (t : ℕ) (rest : List ℕ)
    (hfirst : (s.queues wd).nodes = t :: rest) :
    Keeps c s ((s.popWaiter wd t).dispatchWaiter t).2 := by
  intro h
  obtain ⟨b, s', hdispatch, hcurrent, hinv, -⟩ := h.dispatch hfirst
  rw [hdispatch]
  exact ⟨hinv nofun, hcurrent⟩

theorem Keeps.reject (s : Sched) (t : ℕ) (rest : List ℕ)
    (hfirst : (s.queues wd).nodes = t :: rest) : Keeps c s ((s.popWaiter wd t).pushWaiter wd t) :=
  fun h => ⟨h.of_quiet (h.reject hfirst), (h.reject hfirst).current⟩

theorem Inv.wakeAllLoop (rounds count : ℕ) (h : Inv none c s) :
    Inv none c (wakeAllLoop holds wd rounds count s).2 ∧
      (wakeAllLoop holds wd rounds count s).2.current = s.current :=
  wakeAllLoop_rule (R := Keeps c) .refl .trans .dispatch .reject rounds count s h

theorem Inv.wakeAll (holds : ℕ → Bool) (wd : ℕ) (h : Inv none c s) :
    Inv none c (wakeAll holds wd s).2 ∧ (wakeAll holds wd s).2.current = s.current := by
  unfold Sched.wakeAll
  split
  · exact ⟨h, rfl⟩
  · exact h.wakeAllLoop _ 0

/-- A thread outside the queue stays outside and keeps its state. -/
def LeavesOut (wd t : ℕ) (s s' : Sched) : Prop :=
  t ∉ s.queues wd → t ∉ s'.queues wd ∧ s'.view t = s.view t

theorem LeavesOut.trans (s₁ s₂ s₃ : Sched) (h₁ : LeavesOut wd t s₁ s₂)
    (h₂ : LeavesOut wd t s₂ s₃) : LeavesOut wd t s₁ s₃ := by
  intro hnot
  obtain ⟨hnot₂, hview₂⟩ := h₁ hnot
  obtain ⟨hnot₃, hview₃⟩ := h₂ hnot₂
  exact ⟨hnot₃, hview₃.trans hview₂⟩

theorem LeavesOut.dispatch (s : Sched) (u : ℕ) (rest : List ℕ)
    (hfirst : (s.queues wd).nodes = u :: rest) :
    LeavesOut wd t s ((s.popWaiter wd u).dispatchWaiter u).2 := by
  intro hnot
  rw [mem_def, hfirst, mem_cons, not_or] at hnot
  obtain ⟨hqueues, hview⟩ := dispatchWaiter_frame (s.popWaiter wd u) u
  refine ⟨?_, (hview t hnot.1).trans (view_popWaiter ..)⟩
  rw [hqueues, mem_def, popWaiter_nodes hfirst]
  exact hnot.2

theorem LeavesOut.reject (s : Sched) (u : ℕ) (rest : List ℕ)
    (hfirst : (s.queues wd).nodes = u :: rest) :
    LeavesOut wd t s ((s.popWaiter wd u).pushWaiter wd u) := by
  intro hnot
  rw [mem_def, hfirst, mem_cons, not_or] at hnot
  refine ⟨?_, view_rejected ..⟩
  rw [mem_def, pushWaiter_popWaiter hfirst, mem_append, mem_singleton, not_or]
  exact ⟨hnot.2, hnot.1⟩

/-- **`wake_all` changes no thread outside its queue.** -/
theorem view_wakeAll (hnot : t ∉ s.queues wd) : (wakeAll holds wd s).2.view t = s.view t := by
  unfold Sched.wakeAll
  split
  · rfl
  · exact (wakeAllLoop_rule (R := LeavesOut wd t) (fun _ hnot => ⟨hnot, rfl⟩) .trans .dispatch
      .reject _ 0 s hnot).2

theorem Inv.wakeOneLoop {fuel : ℕ} {first : Option ℕ} {r : Result ℕ} (h : Inv none c s)
    (hloop : wakeOneLoop holds wd fuel first s = .ok (r, s')) :
    Inv none c s' ∧ s'.current = s.current :=
  wakeOneLoop_rule (R := Keeps c) .refl .trans .dispatch .reject hloop h

/-- **`wake_all` comes to a thread that was woken before.**  The threads before it are put
back or woken, so the loop reaches it and takes it out of the queue. -/
theorem Inv.wakeAllLoop_woken : ∀ {l rest : List ℕ} {s : Sched} (count k : ℕ),
    Inv (some t) c s → (s.queues wd).nodes = l ++ t :: rest → s.runWaitPredicate holds t = true →
    (∀ u ∈ l, s.runWaitPredicate holds u = true → s.Waiting u) →
    Inv none c (Sched.wakeAllLoop holds wd (l.length + 1 + k) count s).2 ∧
      (Sched.wakeAllLoop holds wd (l.length + 1 + k) count s).2.current = s.current := by
  intro l
  induction l with
  | nil =>
    intro rest s count k h hqueue haccepts _
    rw [nil_append] at hqueue
    rw [length_nil, Nat.add_comm, Sched.wakeAllLoop, hqueue]
    simp only
    rw [accepts_of_view (view_popWaiter s wd t t), if_pos haccepts]
    obtain ⟨b, s', hdispatch, hcurrent, -, hinv⟩ := h.dispatch hqueue
    obtain ⟨rfl, hsettled⟩ := hinv rfl
    rw [hdispatch]
    exact ⟨hsettled, hcurrent⟩
  | cons x l ih =>
    intro rest s count k h hqueue haccepts hbefore
    rw [cons_append] at hqueue
    have hxl := notMem_rest hqueue
    have hne : ∀ u, u ∈ l ∨ u = t → u ≠ x := by
      rintro u hu rfl
      rcases hu with hu | rfl
      · exact hxl (mem_append_left _ hu)
      · exact hxl (mem_append_right _ mem_cons_self)
    have hlength : (x :: l).length + 1 + k = (l.length + 1 + k) + 1 := by
      rw [length_cons]
      omega
    rw [hlength, Sched.wakeAllLoop, hqueue]
    simp only
    rw [accepts_of_view (view_popWaiter s wd x x)]
    by_cases hx : s.runWaitPredicate holds x = true
    · rw [if_pos hx]
      have hwaiting := hbefore x mem_cons_self hx
      have hin := mem_of_first hqueue
      have hwakeable : s.Wakeable x :=
        ⟨hwaiting, h.runWf.slot_known x (h.queueWf.queue_wd x wd hin).1⟩
      obtain ⟨v, hv, hrest, hothers, -⟩ := dispatch_first hqueue hwakeable
      obtain ⟨b, s', hdispatch, hcurrent, hinv, -⟩ := h.dispatch hqueue
      obtain ⟨rfl, rfl⟩ := Prod.mk.inj (hv.symm.trans hdispatch)
      rw [hv]
      have hview : ∀ u, u ∈ l ∨ u = t → v.view u = s.view u := fun u hu => hothers u (hne u hu)
      obtain ⟨hloop, hloop'⟩ := ih (count + 1) k
        (hinv fun heq => hne t (.inr rfl) (Option.some.inj heq))
        hrest ((accepts_of_view (hview t (.inr rfl))).trans haccepts)
        (by
          intro u hu haccepts'
          rw [waiting_of_view (hview u (.inl hu))]
          exact hbefore u (mem_cons_of_mem _ hu)
            ((accepts_of_view (hview u (.inl hu))).symm.trans haccepts'))
      exact ⟨hloop, hloop'.trans hcurrent⟩
    · rw [if_neg hx]
      have hreject := h.reject hqueue
      have hview := view_rejected s wd x
      obtain ⟨hloop, hloop'⟩ := ih count k
        (h.of_quiet hreject)
        (by rw [pushWaiter_popWaiter hqueue, append_assoc, cons_append])
        ((accepts_of_view (hview t)).trans haccepts)
        (by
          intro u hu haccepts'
          rw [waiting_of_view (hview u)]
          exact hbefore u (mem_cons_of_mem _ hu)
            ((accepts_of_view (hview u)).symm.trans haccepts'))
      exact ⟨hloop, hloop'.trans hreject.current⟩

/-! ## The switch -/

theorem Inv.putAway (h : Inv none (some cur) s) (htouches : Touches (some cur) s s')
    (hcur : Placed none s' cur) : Inv none none s' := by
  refine h.step htouches nofun (fun u _ hne => ⟨nofun, iff_of_false nofun hne⟩) ?_ nofun
  intro u _ heq _
  cases heq
  exact hcur

theorem Inv.start (h : Inv none none s) (htouches : Touches (some t) s s') (ht : t < s.next)
    (hstate : (s'.tcb t).state = .running) (hrun : ¬s'.InRun t) (hqueue : ¬s'.InQueue t) :
    Inv none (some t) s' := by
  refine h.step htouches ?_ (fun u _ hne => ⟨nofun, iff_of_false hne nofun⟩) ?_ nofun
  · intro u hu
    cases hu
    exact ht
  · intro u _ heq _
    cases heq
    unfold Placed
    rw [hstate]
    exact ⟨rfl, hrun, hqueue⟩

theorem pickFrom_eq_some : ∀ {slots : List ReadySlot}, s.pickFrom slots = some (t, s') →
    ∃ slot rest, (s.run slot).nodes = t :: rest ∧ s' = s.pick slot t := by
  intro slots
  induction slots with
  | nil => nofun
  | cons slot slots ih =>
    intro h
    rw [pickFrom] at h
    cases hnodes : (s.run slot).nodes with
    | nil =>
      rw [hnodes] at h
      exact ih h
    | cons x rest =>
      rw [hnodes] at h
      obtain ⟨rfl, rfl⟩ := Prod.mk.inj (Option.some.inj h)
      exact ⟨slot, rest, hnodes, rfl⟩

/-- **The first thread of a ready list starts to run.** -/
theorem Inv.pick (h : Inv none none s) {rest : List ℕ} (hfirst : (s.run slot).nodes = t :: rest) :
    Inv none (some t) (s.pick slot t) := by
  have hin := mem_of_first hfirst
  obtain ⟨hnext, hslot⟩ := h.runWf.run_slot t slot hin
  have hpop : ∀ u ∈ (s.run slot).popFront, u ∈ s.run slot := fun u hu => mem_of_mem_tail hu
  let v : Sched :=
    { s with run := Function.update s.run slot (s.run slot).popFront
             cursched := Function.update s.cursched slot.schdClass (some t) }
  have hv : v.RunWf := by
    refine ⟨h.runWf.slot_known, h.runWf.pointer_unique, ?_⟩
    exact (h.runWf.setRun fun u hu => h.runWf.run_slot u slot (hpop u hu)).run_slot
  have hvqueue : v.QueueWf := h.queueWf.congr rfl rfl (fun _ => rfl) fun _ => rfl
  have htouches : Touches (some t) s v := by
    refine ⟨hv, hvqueue, rfl, rfl, ?_⟩
    intro u hu
    refine ⟨rfl, inRun_setRun ⟨hpop u, ?_⟩, Iff.rfl⟩
    intro hmem
    rw [mem_def, hfirst] at hmem
    rw [mem_def, popFront_nodes, hfirst]
    rcases mem_cons.mp hmem with rfl | hmem
    · exact absurd rfl hu
    · exact hmem
  have hrun : ¬v.InRun t := by
    rintro ⟨slot', hmem⟩
    rcases mem_run_update.mp hmem with ⟨-, hmem⟩ | ⟨hne, hmem⟩
    · exact notMem_popFront hfirst hmem
    · exact hne (Option.some.inj ((h.runWf.run_slot t slot' hmem).2.symm.trans hslot))
  have hqueue := ((h.placed t hnext nofun).of_inRun ⟨slot, hin⟩).2.2
  have hset : Touches (some t) v (s.pick slot t) := Touches.setTcb hv hvqueue rfl rfl rfl
  refine h.start (htouches.trans hset) hnext ?_ hrun hqueue
  unfold Sched.pick
  rw [setTcb_tcb_self]

/-- One round of `prepare_next_task` is enough: the thread that is picked is running, not
dying. -/
theorem prepareNextTask_succ (n : ℕ) (s : Sched) :
    Sched.prepareNextTask (n + 1) s = Sched.prepareNextTask 1 s := by
  rw [Sched.prepareNextTask, Sched.prepareNextTask]
  cases hpick : s.pickNextTask with
  | none => rfl
  | some p =>
    obtain ⟨x, v⟩ := p
    obtain ⟨slot, rest, -, rfl⟩ := pickFrom_eq_some hpick
    have hcan : (s.pick slot x).canSchedule x = true := by
      unfold canSchedule Sched.pick
      rw [setTcb_tcb_self]
      rfl
    simp only [hcan, if_true]

theorem Inv.prepareNextTask (h : Inv none none s) (hnext : prepareNextTask 1 s = .ok (t, s')) :
    Inv none (some t) s' ∧ s'.current = s.current := by
  rw [Sched.prepareNextTask] at hnext
  cases hpick : s.pickNextTask with
  | none =>
    rw [hpick] at hnext
    cases hnext
  | some p =>
    obtain ⟨x, v⟩ := p
    rw [hpick] at hnext
    simp only at hnext
    obtain ⟨slot, rest, hfirst, rfl⟩ := pickFrom_eq_some hpick
    by_cases hcan : (s.pick slot x).canSchedule x = true
    · rw [if_pos hcan] at hnext
      cases hnext
      exact ⟨h.pick hfirst, rfl⟩
    · rw [if_neg hcan] at hnext
      cases hnext

theorem Inv.setCurrent (h : Inv none c s) : Inv none c { s with current := c } :=
  ⟨h.runWf.congr rfl rfl fun _ => rfl, h.queueWf.congr rfl rfl (fun _ => rfl) fun _ => rfl,
    h.current_lt, h.placed, nofun⟩

/-- The running thread goes to its ready list, unless it is dying. -/
theorem Inv.preparePrevTask (h : Inv none (some cur) s)
    (hprev : s.preparePrevTask cur = (.ok (), s')) : Inv none none s' := by
  have hcur := h.current_lt cur rfl
  obtain ⟨hstate, hrun, hqueue⟩ := (h.placed cur hcur nofun).of_current
  have hrefl : Touches (some cur) s s := Touches.refl h.runWf h.queueWf
  unfold Sched.preparePrevTask at hprev
  rcases hstate with hrunning | hdying
  · obtain ⟨slot, hslot⟩ := Option.ne_none_iff_exists'.mp (h.runWf.slot_known cur hcur)
    have hcan : s.canSchedule cur = true := by
      unfold canSchedule
      rw [hrunning]
      decide
    rw [hcan, hrunning] at hprev
    unfold enqueue at hprev
    rw [hslot] at hprev
    obtain ⟨-, rfl⟩ := Prod.mk.inj hprev
    obtain ⟨hpush, hin⟩ := Touches.makeReady h.runWf h.queueWf hcur hslot
    refine h.putAway hpush (placed_ready ?_ nofun hin ?_)
    · rw [pushReady_tcb]
      unfold setState
      rw [setTcb_tcb_self]
    · unfold InQueue
      rwa [pushReady_queues]
  · rw [hdying] at hprev
    obtain ⟨-, rfl⟩ := Prod.mk.inj hprev
    exact h.putAway hrefl (placed_dying hdying hrun nofun)

theorem preparePrevTask_of_waiting (h : s.Waiting cur) : s.preparePrevTask cur = (.ok (), s) := by
  unfold preparePrevTask
  rw [if_pos]
  rw [Bool.or_eq_true]
  exact .inl h

/-- The state is one between two calls: the running thread is `current`. -/
def Settled (s : Sched) : Prop := Inv none s.current s

/-- **`schedule`** of a running thread. -/
theorem Settled.schedule (h : s.Settled) {ignore : Bool}
    (hschedule : schedule ignore s = .ok s') : s'.Settled := by
  unfold Sched.schedule at hschedule
  cases hcurrent : s.current with
  | none =>
    rw [hcurrent] at hschedule
    cases hschedule
    exact h
  | some cur =>
    rw [hcurrent] at hschedule
    simp only at hschedule
    have hinv : Inv none (some cur) s := by
      rwa [← hcurrent]
    split at hschedule
    · cases hschedule
      exact h
    split at hschedule
    · cases hschedule
      exact h
    have hquiet := hinv.of_quiet (Touches.setTcb_quiet h.runWf h.queueWf (t := cur)
      (f := fun tcb => { tcb with needResched := false }) rfl rfl rfl rfl)
    split at hschedule
    · cases hschedule
    · rename_i v hprev
      obtain ⟨⟨next, w⟩, hnext, hw⟩ := Except.bind_eq_ok_iff.mp hschedule
      cases hw
      exact ((hquiet.preparePrevTask hprev).prepareNextTask hnext).1.setCurrent

/-- **`schedule`** of a thread that has put itself into a wait queue. -/
theorem schedule_of_waiting (h : Inv none none s) (hcurrent : s.current = some cur)
    (hwaiting : s.Waiting cur)
    (hschedule : schedule true (s.setNeedResched cur) = .ok s') : s'.Settled := by
  have hself : (s.setNeedResched cur).tcb cur = { s.tcb cur with needResched := true } :=
    setTcb_tcb_self _
  have hcurrent' : (s.setNeedResched cur).current = some cur := hcurrent
  unfold schedule at hschedule
  rw [hcurrent'] at hschedule
  simp only [hself] at hschedule
  have hquiet := h.of_quiet (Touches.setNeedResched h.runWf h.queueWf (t := cur))
  have hquiet' := hquiet.of_quiet (Touches.setTcb_quiet hquiet.runWf hquiet.queueWf (t := cur)
    (f := fun tcb => { tcb with needResched := false }) rfl rfl rfl rfl)
  rw [preparePrevTask_of_waiting] at hschedule
  · obtain ⟨⟨next, w⟩, hnext, hw⟩ := Except.bind_eq_ok_iff.mp hschedule
    cases hw
    exact (hquiet'.prepareNextTask hnext).1.setCurrent
  · unfold Waiting
    rwa [setTcb_tcb_self, hself]

end Sched

end Sustcore
