/-
# Where a thread is

A thread is in a ready list, in a wait queue, or in neither.  The functions of the scheduler
and of the wait queues are made of steps that move one thread; `Touches` says that such a
step moves no other thread and leaves the lists in order, and there is one lemma for each
step.
-/
import Sustcore.Wakeup

namespace Sustcore

open Function NodeList

namespace Sched

variable {s s' s₁ s₂ : Sched} {t u wd : ℕ} {slot : ReadySlot} {o : Option ℕ}

/-! ## Places -/

/-- The thread is in a ready list. -/
def InRun (s : Sched) (t : ℕ) : Prop := ∃ slot, t ∈ s.run slot

/-- The thread is in a wait queue. -/
def InQueue (s : Sched) (t : ℕ) : Prop := ∃ wd, t ∈ s.queues wd

/-- The ready lists hold threads of their own class. -/
structure RunWf (s : Sched) : Prop where
  slot_known : ∀ t < s.next, (s.tcb t).slot ≠ none
  pointer_unique : ∀ t u slot, t < s.next → u < s.next → (s.tcb t).slot = some slot →
    (s.tcb u).slot = some slot → slot.isList = false → t = u
  run_slot : ∀ t slot, t ∈ s.run slot → t < s.next ∧ (s.tcb t).slot = some slot

/-- The wait queues hold the threads that are linked, under their descriptors. -/
structure QueueWf (s : Sched) : Prop where
  queue_wd : ∀ t wd, t ∈ s.queues wd → t < s.next ∧ wd ≠ 0 ∧ (s.tcb t).waitWd = wd ∧
    (s.tcb t).waitLinked = true
  linked : ∀ t, (s.tcb t).waitLinked = true → t ∈ s.queues (s.tcb t).waitWd

theorem RunWf.congr (h : s.RunWf) (hnext : s'.next = s.next) (hrun : s'.run = s.run)
    (hslot : ∀ u, (s'.tcb u).slot = (s.tcb u).slot) : s'.RunWf := by
  refine ⟨?_, ?_, ?_⟩
  · intro t ht
    rw [hslot]
    exact h.slot_known t (hnext ▸ ht)
  · intro t u slot ht hu
    rw [hslot, hslot]
    exact h.pointer_unique t u slot (hnext ▸ ht) (hnext ▸ hu)
  · intro t slot ht
    rw [hrun] at ht
    rw [hslot, hnext]
    exact h.run_slot t slot ht

theorem QueueWf.congr (h : s.QueueWf) (hnext : s'.next = s.next) (hqueues : s'.queues = s.queues)
    (hwd : ∀ u, (s'.tcb u).waitWd = (s.tcb u).waitWd)
    (hlinked : ∀ u, (s'.tcb u).waitLinked = (s.tcb u).waitLinked) : s'.QueueWf := by
  refine ⟨?_, ?_⟩
  · intro t wd ht
    rw [hqueues] at ht
    rw [hwd, hlinked, hnext]
    exact h.queue_wd t wd ht
  · intro t ht
    rw [hlinked] at ht
    rw [hwd, hqueues]
    exact h.linked t ht

theorem QueueWf.not_linked (h : s.QueueWf) (hnot : ¬s.InQueue t) :
    (s.tcb t).waitLinked = false := by
  by_contra hlinked
  rw [Bool.not_eq_false] at hlinked
  exact hnot ⟨_, h.linked t hlinked⟩

/-! ## Operations that move one thread -/

/-- The thread is where it was. -/
structure Same (s s' : Sched) (u : ℕ) : Prop where
  state : (s'.tcb u).state = (s.tcb u).state
  inRun : s'.InRun u ↔ s.InRun u
  inQueue : s'.InQueue u ↔ s.InQueue u

theorem Same.refl (s : Sched) (u : ℕ) : Same s s u := ⟨rfl, Iff.rfl, Iff.rfl⟩

theorem Same.trans (h₁ : Same s s₁ u) (h₂ : Same s₁ s₂ u) : Same s s₂ u :=
  ⟨h₂.state.trans h₁.state, h₂.inRun.trans h₁.inRun, h₂.inQueue.trans h₁.inQueue⟩

/-- The operation keeps the lists in order and moves at most the thread `o`. -/
structure Touches (o : Option ℕ) (s s' : Sched) : Prop where
  runWf : s'.RunWf
  queueWf : s'.QueueWf
  next : s'.next = s.next
  current : s'.current = s.current
  same : ∀ u, o ≠ some u → Same s s' u

theorem Touches.refl (hrun : s.RunWf) (hqueue : s.QueueWf) : Touches o s s :=
  ⟨hrun, hqueue, rfl, rfl, fun _ _ => Same.refl ..⟩

theorem Touches.trans (h₁ : Touches o s s₁) (h₂ : Touches o s₁ s₂) : Touches o s s₂ :=
  ⟨h₂.runWf, h₂.queueWf, h₂.next.trans h₁.next, h₂.current.trans h₁.current,
    fun u hu => (h₁.same u hu).trans (h₂.same u hu)⟩

theorem Touches.weaken (h : Touches none s s') : Touches o s s' :=
  ⟨h.runWf, h.queueWf, h.next, h.current, fun u _ => h.same u nofun⟩

/-- A thread that an operation moves back to where it was. -/
theorem Touches.restore (h : Touches (some t) s s') (ht : Same s s' t) : Touches none s s' := by
  refine ⟨h.runWf, h.queueWf, h.next, h.current, ?_⟩
  intro u _
  by_cases hu : u = t
  · subst hu
    exact ht
  · exact h.same u fun heq => hu (Option.some.inj heq).symm

variable {f : Tcb → Tcb}

theorem setTcb_field {α : Type} (g : Tcb → α) (hg : g (f (s.tcb t)) = g (s.tcb t)) (u : ℕ) :
    g ((s.setTcb t f).tcb u) = g (s.tcb u) := by
  by_cases hu : u = t
  · subst hu
    rw [setTcb_tcb_self, hg]
  · rw [setTcb_tcb_of_ne f hu]

/-- Writing other fields of a thread. -/
theorem Touches.setTcb (hrun : s.RunWf) (hqueue : s.QueueWf)
    (hslot : (f (s.tcb t)).slot = (s.tcb t).slot) (hwd : (f (s.tcb t)).waitWd = (s.tcb t).waitWd)
    (hlinked : (f (s.tcb t)).waitLinked = (s.tcb t).waitLinked) :
    Touches (some t) s (s.setTcb t f) := by
  refine ⟨hrun.congr rfl rfl (setTcb_field Tcb.slot hslot),
    hqueue.congr rfl rfl (setTcb_field Tcb.waitWd hwd) (setTcb_field Tcb.waitLinked hlinked),
    rfl, rfl, ?_⟩
  intro u hu
  refine ⟨?_, Iff.rfl, Iff.rfl⟩
  rw [setTcb_tcb_of_ne f fun heq => hu (congrArg some heq.symm)]

theorem Touches.setState (hrun : s.RunWf) (hqueue : s.QueueWf) (state : ThreadState) :
    Touches (some t) s (s.setState t state) := .setTcb hrun hqueue rfl rfl rfl

/-- Writing fields that say nothing about the place. -/
theorem Touches.setTcb_quiet (hrun : s.RunWf) (hqueue : s.QueueWf)
    (hslot : (f (s.tcb t)).slot = (s.tcb t).slot) (hwd : (f (s.tcb t)).waitWd = (s.tcb t).waitWd)
    (hlinked : (f (s.tcb t)).waitLinked = (s.tcb t).waitLinked)
    (hstate : (f (s.tcb t)).state = (s.tcb t).state) : Touches none s (s.setTcb t f) := by
  refine (Touches.setTcb hrun hqueue hslot hwd hlinked).restore ⟨?_, Iff.rfl, Iff.rfl⟩
  rw [setTcb_tcb_self, hstate]

theorem Touches.setNeedResched (hrun : s.RunWf) (hqueue : s.QueueWf) :
    Touches none s (s.setNeedResched t) := .setTcb_quiet hrun hqueue rfl rfl rfl rfl

theorem Touches.checkPreemptCurr (hrun : s.RunWf) (hqueue : s.QueueWf) :
    Touches none s (s.checkPreemptCurr t) := by
  unfold Sched.checkPreemptCurr
  split
  · exact .refl hrun hqueue
  split
  · exact .refl hrun hqueue
  · split
    · exact .refl hrun hqueue
    · exact .setNeedResched hrun hqueue

/-! ## Ready lists -/

variable {l : NodeList ℕ}

theorem mem_run_update {slot' : ReadySlot} : u ∈ update s.run slot l slot' ↔
      slot' = slot ∧ u ∈ l ∨ slot' ≠ slot ∧ u ∈ s.run slot' := by
  by_cases h : slot' = slot
  · subst h
    simp
  · simp [h]

/-- A ready list is replaced by one whose threads belong there. -/
theorem RunWf.setRun (h : s.RunWf) (hl : ∀ u ∈ l, u < s.next ∧ (s.tcb u).slot = some slot) :
    ({ s with run := update s.run slot l } : Sched).RunWf := by
  refine ⟨h.slot_known, h.pointer_unique, ?_⟩
  intro u slot' hu
  rcases mem_run_update.mp hu with ⟨rfl, hmem⟩ | ⟨-, hmem⟩
  · exact hl u hmem
  · exact h.run_slot u slot' hmem

/-- A thread of another list is not touched. -/
theorem inRun_setRun (hu : u ∈ l ↔ u ∈ s.run slot) :
    ({ s with run := update s.run slot l } : Sched).InRun u ↔ s.InRun u := by
  refine exists_congr fun slot' => mem_run_update.trans ?_
  by_cases hslot : slot' = slot
  · subst hslot
    simp [hu]
  · simp [hslot]

theorem readyLinked_inRun (h : s.readyLinked t = true) : s.InRun t := by
  unfold readyLinked at h
  simp only [Bool.or_eq_true, decide_eq_true_eq] at h
  rcases h with (h | h) | h
  · exact ⟨_, h⟩
  · exact ⟨_, h⟩
  · exact ⟨_, h⟩

/-- **A thread enters its ready list.** -/
theorem Touches.pushReady (hrun : s.RunWf) (hqueue : s.QueueWf) (ht : t < s.next)
    (hslot : (s.tcb t).slot = some slot) :
    Touches (some t) s (s.pushReady slot t) ∧ (s.pushReady slot t).InRun t := by
  unfold Sched.pushReady
  split
  · split
    · exact ⟨.refl hrun hqueue, readyLinked_inRun ‹_›⟩
    refine ⟨⟨hrun.setRun ?_, hqueue.congr rfl rfl (fun _ => rfl) fun _ => rfl, rfl, rfl, ?_⟩,
      slot, ?_⟩
    · intro u hu
      rcases mem_pushBack.mp hu with hu | rfl
      · exact hrun.run_slot u slot hu
      · exact ⟨ht, hslot⟩
    · intro u hu
      refine ⟨rfl, inRun_setRun ?_, Iff.rfl⟩
      rw [mem_pushBack]
      exact or_iff_left fun heq => hu (congrArg some heq.symm)
    · exact mem_run_update.mpr (.inl ⟨rfl, mem_pushBack.mpr (.inr rfl)⟩)
  · rename_i hpointer
    rw [Bool.not_eq_true] at hpointer
    have hsingle : ∀ u, u ∈ single t ↔ u = t := fun u => List.mem_singleton
    refine ⟨⟨hrun.setRun ?_, hqueue.congr rfl rfl (fun _ => rfl) fun _ => rfl, rfl, rfl, ?_⟩,
      slot, ?_⟩
    · intro u hu
      rw [(hsingle u).mp hu]
      exact ⟨ht, hslot⟩
    · intro u hu
      have hut : u ≠ t := fun heq => hu (congrArg some heq.symm)
      refine ⟨rfl, inRun_setRun ?_, Iff.rfl⟩
      rw [hsingle]
      refine iff_of_false hut fun hmem => hut ?_
      -- no other thread has this pointer
      obtain ⟨hnext, huslot⟩ := hrun.run_slot u slot hmem
      exact hrun.pointer_unique u t slot hnext ht huslot hslot hpointer
    · exact mem_run_update.mpr (.inl ⟨rfl, (hsingle t).mpr rfl⟩)

theorem waitPredicate_setState (state : ThreadState) :
    ((s.setState t state).tcb u).waitPredicate = (s.tcb u).waitPredicate :=
  setTcb_field Tcb.waitPredicate rfl u

/-- **A thread becomes ready** and enters the ready list of its class. -/
theorem Touches.makeReady (hrun : s.RunWf) (hqueue : s.QueueWf) (ht : t < s.next)
    (hslot : (s.tcb t).slot = some slot) :
    Touches (some t) s ((s.setState t .ready).pushReady slot t) ∧
      ((s.setState t .ready).pushReady slot t).InRun t := by
  have hready : Touches (some t) s (s.setState t .ready) := .setState hrun hqueue _
  have hslot' : ((s.setState t .ready).tcb t).slot = some slot :=
    (setTcb_field Tcb.slot rfl t).trans hslot
  obtain ⟨hpush, hin⟩ := Touches.pushReady hready.runWf hready.queueWf ht hslot'
  exact ⟨hready.trans hpush, hin⟩

/-- **A thread of a known class is woken.** -/
theorem Touches.wakeup (hrun : s.RunWf) (hqueue : s.QueueWf) (ht : t < s.next) :
    ∃ s', s.wakeup t = (true, s') ∧ Touches (some t) s s' ∧ (s'.tcb t).state = .ready ∧
      s'.InRun t ∧ s'.queues = s.queues ∧
      ∀ u, (s'.tcb u).waitPredicate = (s.tcb u).waitPredicate := by
  obtain ⟨slot, hslot⟩ := Option.ne_none_iff_exists'.mp (hrun.slot_known t ht)
  obtain ⟨hpush, hin⟩ := Touches.makeReady hrun hqueue ht hslot
  have hcheck : Touches none _ (((s.setState t .ready).pushReady slot t).checkPreemptCurr t) :=
    .checkPreemptCurr hpush.runWf hpush.queueWf
  have hsame := hcheck.same t nofun
  obtain ⟨s', hwakeup, hqueues, -, hstate⟩ := wakeup_of_slot (hrun.slot_known t ht)
  have hs' : s' = ((s.setState t .ready).pushReady slot t).checkPreemptCurr t := by
    unfold Sched.wakeup Sched.enqueue at hwakeup
    rw [hslot] at hwakeup
    exact (Prod.mk.inj hwakeup).2.symm
  refine ⟨s', hwakeup, ?_, hstate, ?_, hqueues, ?_⟩
  · rw [hs']
    exact hpush.trans hcheck.weaken
  · rw [hs']
    exact hsame.inRun.mpr hin
  · intro u
    have hview := view_checkPreemptCurr ((s.setState t .ready).pushReady slot t) t u
    rw [hs', predicate_of_view hview, pushReady_tcb, waitPredicate_setState]

/-- A thread that does not wait is not woken. -/
theorem wakeupWaiting_of_not_waiting (h : ¬s.Waiting t) : s.wakeupWaiting t = (false, s) := by
  unfold wakeupWaiting
  split
  · rfl
  · rw [if_pos]
    simpa [Waiting] using h

theorem Waiting.not_dying (h : s.Waiting t) : ((s.tcb t).state == .dying) = false := by
  unfold Waiting at h
  cases hstate : (s.tcb t).state with
  | dying =>
    rw [hstate] at h
    cases h
  | _ => rfl

/-- **`wakeup_waiting`** moves a waiting thread to its ready list, and does not take it out of
its wait queue. -/
theorem Touches.wakeupWaiting (hrun : s.RunWf) (hqueue : s.QueueWf) (ht : t < s.next)
    (hwaiting : s.Waiting t) :
    ∃ s', s.wakeupWaiting t = (true, s') ∧ Touches (some t) s s' ∧ (s'.tcb t).state = .ready ∧
      s'.InRun t ∧ s'.queues = s.queues ∧
      ∀ u, (s'.tcb u).waitPredicate = (s.tcb u).waitPredicate := by
  have hempty : Touches (some t) s (s.setState t .empty) := Touches.setState hrun hqueue _
  obtain ⟨s', hwakeup, htouches, hready, hin, hqueues, hpredicates⟩ :=
    Touches.wakeup hempty.runWf hempty.queueWf (t := t) ht
  refine ⟨s', ?_, hempty.trans htouches, hready, hin, hqueues, ?_⟩
  · unfold Sched.wakeupWaiting
    rwa [hwaiting.not_dying, hwaiting]
  · intro u
    rw [hpredicates u, waitPredicate_setState]

/-- A thread that is taken out of the ready lists. -/
theorem Touches.dequeue (hrun : s.RunWf) (hqueue : s.QueueWf) :
    Touches (some t) s (s.dequeue t).2 ∧ ¬(s.dequeue t).2.InRun t ∧
      (s.dequeue t).2.queues = s.queues := by
  unfold Sched.dequeue
  split
  · rename_i hslot
    refine ⟨.refl hrun hqueue, ?_, rfl⟩
    rintro ⟨slot, hin⟩
    rw [(hrun.run_slot t slot hin).2] at hslot
    cases hslot
  · rename_i slot hslot
    split
    · let v : Sched := { s with run := update s.run slot ((s.run slot).remove t) }
      have hv : v.RunWf := hrun.setRun fun u hu => hrun.run_slot u slot (mem_remove.mp hu).2
      have hvqueue : v.QueueWf := hqueue.congr rfl rfl (fun _ => rfl) fun _ => rfl
      have htouches : Touches (some t) s v := by
        refine ⟨hv, hvqueue, rfl, rfl, ?_⟩
        intro u hu
        refine ⟨rfl, inRun_setRun ?_, Iff.rfl⟩
        rw [mem_remove]
        exact and_iff_right fun heq => hu (congrArg some heq.symm)
      refine ⟨htouches.trans (.setState hv hvqueue _), ?_, rfl⟩
      rintro ⟨slot', hin⟩
      rcases mem_run_update.mp hin with ⟨-, hin⟩ | ⟨hne, hin⟩
      · exact (mem_remove.mp hin).1 rfl
      · exact hne (Option.some.inj ((hrun.run_slot t slot' hin).2.symm.trans hslot))
    · rename_i hnot
      refine ⟨.refl hrun hqueue, ?_, rfl⟩
      rintro ⟨slot', hin⟩
      obtain rfl : slot' = slot := Option.some.inj ((hrun.run_slot t slot' hin).2.symm.trans hslot)
      exact hnot hin

/-! ## Wait queues -/

theorem mem_queues_update {wd' : ℕ} :
    u ∈ update s.queues wd l wd' ↔ wd' = wd ∧ u ∈ l ∨ wd' ≠ wd ∧ u ∈ s.queues wd' := by
  by_cases h : wd' = wd
  · subst h
    simp
  · simp [h]

/-- **A thread leaves its wait queue.** -/
theorem Touches.takeOut (hrun : s.RunWf) (hqueue : s.QueueWf)
    (hl : ∀ u, u ∈ l ↔ u ≠ t ∧ u ∈ s.queues wd) (ht : ∀ wd', t ∈ s.queues wd' → wd' = wd)
    (hslot : (f (s.tcb t)).slot = (s.tcb t).slot) (hlinked : (f (s.tcb t)).waitLinked = false) :
    Touches (some t) s ({ s with queues := update s.queues wd l }.setTcb t f) ∧
      ¬({ s with queues := update s.queues wd l }.setTcb t f).InQueue t := by
  have hmem : ∀ u wd', u ∈ update s.queues wd l wd' ↔ u ≠ t ∧ u ∈ s.queues wd' := by
    intro u wd'
    rw [mem_queues_update, hl]
    by_cases hwd : wd' = wd
    · subst hwd
      simp
    · simp only [hwd, false_and, ne_eq, not_false_eq_true, true_and, false_or]
      refine ⟨fun hu => ⟨?_, hu⟩, And.right⟩
      rintro rfl
      exact hwd (ht wd' hu)
  refine ⟨⟨hrun.congr rfl rfl ?_, ⟨?_, ?_⟩, rfl, rfl, ?_⟩, ?_⟩
  · exact setTcb_field Tcb.slot hslot
  · intro u wd' hu
    obtain ⟨hut, hu⟩ := (hmem u wd').mp hu
    rw [setTcb_tcb_of_ne f hut]
    exact hqueue.queue_wd u wd' hu
  · intro u hu
    by_cases hut : u = t
    · subst hut
      rw [setTcb_tcb_self, hlinked] at hu
      cases hu
    · rw [setTcb_tcb_of_ne f hut] at hu ⊢
      exact (hmem u _).mpr ⟨hut, hqueue.linked u hu⟩
  · intro u hu
    have hut : u ≠ t := fun heq => hu (congrArg some heq.symm)
    refine ⟨?_, Iff.rfl, exists_congr fun wd' => (hmem u wd').trans (and_iff_right hut)⟩
    rw [setTcb_tcb_of_ne f hut]
  · rintro ⟨wd', hin⟩
    exact ((hmem t wd').mp hin).1 rfl

/-- Writing the wait fields of a thread that is in no queue. -/
theorem Touches.setTcb_off (hrun : s.RunWf) (hqueue : s.QueueWf)
    (hslot : (f (s.tcb t)).slot = (s.tcb t).slot) (hnot : ¬s.InQueue t)
    (hlinked : (f (s.tcb t)).waitLinked = false) : Touches (some t) s (s.setTcb t f) := by
  have hl : ∀ u, u ∈ s.queues 0 ↔ u ≠ t ∧ u ∈ s.queues 0 := by
    refine fun u => ⟨fun hu => ⟨?_, hu⟩, And.right⟩
    rintro rfl
    exact hnot ⟨0, hu⟩
  obtain ⟨htouches, -⟩ := Touches.takeOut hrun hqueue hl (fun wd hin => absurd ⟨wd, hin⟩ hnot)
    hslot hlinked
  rwa [update_eq_self] at htouches

theorem Touches.popWaiter (hrun : s.RunWf) (hqueue : s.QueueWf) {rest : List ℕ}
    (hfirst : (s.queues wd).nodes = t :: rest) :
    Touches (some t) s (s.popWaiter wd t) ∧ ¬(s.popWaiter wd t).InQueue t := by
  have hin := mem_of_first hfirst
  refine Touches.takeOut hrun hqueue ?_ ?_ rfl rfl
  · intro u
    rw [mem_def, mem_def, popFront_nodes, hfirst, List.tail_cons, List.mem_cons]
    constructor
    · intro hu
      refine ⟨?_, .inr hu⟩
      rintro rfl
      exact notMem_rest hfirst hu
    · rintro ⟨hne, hu | hu⟩
      · exact absurd hu hne
      · exact hu
  · intro wd' hin'
    rw [← (hqueue.queue_wd t wd hin).2.2.1, (hqueue.queue_wd t wd' hin').2.2.1]

theorem Touches.waitRemove (hrun : s.RunWf) (hqueue : s.QueueWf) :
    Touches (some t) s (s.waitRemove t) ∧ ¬(s.waitRemove t).InQueue t := by
  unfold Sched.waitRemove
  simp only
  split
  · rename_i hzero
    refine ⟨.refl hrun hqueue, ?_⟩
    rintro ⟨wd, hin⟩
    obtain ⟨-, hwd, hwd', -⟩ := hqueue.queue_wd t wd hin
    exact hwd (hwd'.symm.trans hzero)
  · exact Touches.takeOut hrun hqueue (fun u => mem_remove)
      (fun wd' hin => (hqueue.queue_wd t wd' hin).2.2.1.symm) rfl rfl

/-- **A thread enters the wait queue of its descriptor.** -/
theorem Touches.pushWaiter (hrun : s.RunWf) (hqueue : s.QueueWf) (ht : t < s.next)
    (hzero : wd ≠ 0) (hwd : (s.tcb t).waitWd = wd) (hnot : ¬s.InQueue t) :
    Touches (some t) s (s.pushWaiter wd t) ∧ (s.pushWaiter wd t).InQueue t := by
  unfold Sched.pushWaiter
  rw [hqueue.not_linked hnot, if_neg (by decide)]
  have hmem : ∀ u wd', u ∈ update s.queues wd ((s.queues wd).pushBack t) wd' ↔
      u ∈ s.queues wd' ∨ u = t ∧ wd' = wd := by
    intro u wd'
    rw [mem_queues_update, mem_pushBack]
    by_cases h : wd' = wd
    · subst h
      simp
    · simp [h]
  refine ⟨⟨hrun.congr rfl rfl ?_, ⟨?_, ?_⟩, rfl, rfl, ?_⟩, wd, (hmem t wd).mpr (.inr ⟨rfl, rfl⟩)⟩
  · exact setTcb_field Tcb.slot rfl
  · intro u wd' hu
    by_cases hut : u = t
    · subst hut
      rw [setTcb_tcb_self]
      rcases (hmem u wd').mp hu with hu | ⟨-, rfl⟩
      · exact absurd ⟨wd', hu⟩ hnot
      · exact ⟨ht, hzero, hwd, rfl⟩
    · rw [setTcb_tcb_of_ne _ hut]
      rcases (hmem u wd').mp hu with hu | ⟨heq, -⟩
      · exact hqueue.queue_wd u wd' hu
      · exact absurd heq hut
  · intro u hu
    by_cases hut : u = t
    · subst hut
      rw [setTcb_tcb_self]
      exact (hmem u _).mpr (.inr ⟨rfl, hwd⟩)
    · rw [setTcb_tcb_of_ne _ hut] at hu ⊢
      exact (hmem u _).mpr (.inl (hqueue.linked u hu))
  · intro u hu
    have hut : u ≠ t := fun heq => hu (congrArg some heq.symm)
    refine ⟨?_, Iff.rfl, exists_congr fun wd' => (hmem u wd').trans (or_iff_left ?_)⟩
    · rw [setTcb_tcb_of_ne _ hut]
    · exact fun h => hut h.1

end Sched

end Sustcore
