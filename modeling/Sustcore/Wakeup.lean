/-
# Waking the threads of a wait queue

`wake_all` goes once through a wait queue and wakes every thread whose predicate allows it.
It stops with an error at the first thread that cannot be woken: one that a signal or a
timeout has made ready already, or one that is dying.  The threads behind it stay blocked
(`wakeAllLoop_spec`).

`wake_one` wakes the first thread whose predicate allows it and moves the threads before it
to the back, where they are overtaken by the threads that started to wait after them.  In a
run of waits and wakeups the thread that it wakes is the one that started to wait first, as
long as no thread that was overtaken is allowed to wake up (`wakeup_complete_in_order`).
-/
import Sustcore.Ledger
import Sustcore.Threads

namespace Sustcore

open List NodeList Function Relation

namespace Sched

variable {s s' : Sched} {t u wd : ℕ} {holds : ℕ → Bool}

/-! ## What waking looks at -/

/-- The thread is in one of the two waiting states. -/
def Waiting (s : Sched) (t : ℕ) : Prop := (s.tcb t).state.waiting = true

/-- `wakeup_waiting` succeeds. -/
def Wakeable (s : Sched) (t : ℕ) : Prop := s.Waiting t ∧ (s.tcb t).slot ≠ none

instance (s : Sched) (t : ℕ) : Decidable (s.Waiting t) :=
  inferInstanceAs (Decidable ((s.tcb t).state.waiting = true))

instance (s : Sched) (t : ℕ) : Decidable (s.Wakeable t) :=
  inferInstanceAs (Decidable (_ ∧ _))

def view (s : Sched) (t : ℕ) : ThreadState × Option ReadySlot × Option ℕ :=
  ((s.tcb t).state, (s.tcb t).slot, (s.tcb t).waitPredicate)

theorem state_of_view (h : s'.view t = s.view t) : (s'.tcb t).state = (s.tcb t).state :=
  congrArg Prod.fst h

theorem waiting_of_view (h : s'.view t = s.view t) : s'.Waiting t ↔ s.Waiting t := by
  unfold Waiting
  rw [state_of_view h]

theorem wakeable_of_view (h : s'.view t = s.view t) : s'.Wakeable t ↔ s.Wakeable t := by
  have hslot : (s'.tcb t).slot = (s.tcb t).slot := congrArg (fun v => v.2.1) h
  unfold Wakeable
  rw [waiting_of_view h, hslot]

theorem predicate_of_view (h : s'.view t = s.view t) :
    (s'.tcb t).waitPredicate = (s.tcb t).waitPredicate := congrArg (fun v => v.2.2) h

theorem accepts_of_view (h : s'.view t = s.view t) :
    s'.runWaitPredicate holds t = s.runWaitPredicate holds t := by
  unfold runWaitPredicate
  rw [predicate_of_view h]

/-! ## What the parts change -/

theorem setTcb_tcb_self (f : Tcb → Tcb) : (s.setTcb t f).tcb t = f (s.tcb t) :=
  update_self ..

theorem setTcb_tcb_of_ne (f : Tcb → Tcb) (h : u ≠ t) : (s.setTcb t f).tcb u = s.tcb u :=
  update_of_ne h ..

theorem view_setTcb_of_ne (f : Tcb → Tcb) (h : u ≠ t) : (s.setTcb t f).view u = s.view u := by
  unfold view
  rw [setTcb_tcb_of_ne f h]

theorem view_setNeedResched (s : Sched) (t u : ℕ) : (s.setNeedResched t).view u = s.view u := by
  by_cases h : u = t
  · subst h
    unfold view setNeedResched
    rw [setTcb_tcb_self]
    rfl
  · exact view_setTcb_of_ne _ h

@[simp] theorem setState_queues (s : Sched) (t : ℕ) (state : ThreadState) :
    (s.setState t state).queues = s.queues := rfl

theorem pushReady_tcb (s : Sched) (slot : ReadySlot) (t : ℕ) : (s.pushReady slot t).tcb = s.tcb := by
  unfold pushReady
  split
  · split
    · rfl
    · rfl
  · rfl

theorem pushReady_queues (s : Sched) (slot : ReadySlot) (t : ℕ) :
    (s.pushReady slot t).queues = s.queues := by
  unfold pushReady
  split
  · split
    · rfl
    · rfl
  · rfl

theorem view_checkPreemptCurr (s : Sched) (t u : ℕ) : (s.checkPreemptCurr t).view u = s.view u := by
  unfold checkPreemptCurr
  split
  · rfl
  split
  · rfl
  · split
    · rfl
    · exact view_setNeedResched ..

theorem checkPreemptCurr_queues (s : Sched) (t : ℕ) : (s.checkPreemptCurr t).queues = s.queues := by
  unfold checkPreemptCurr
  split
  · rfl
  split
  · rfl
  · split
    · rfl
    · rfl

/-- **`wakeup`** makes the thread ready, if its class is known. -/
theorem wakeup_of_slot (h : (s.tcb t).slot ≠ none) : ∃ s', s.wakeup t = (true, s') ∧
    s'.queues = s.queues ∧ (∀ u, u ≠ t → s'.view u = s.view u) ∧ (s'.tcb t).state = .ready := by
  obtain ⟨slot, hslot⟩ := Option.ne_none_iff_exists'.mp h
  have henqueue : s.enqueue t = (.ok (), (s.setState t .ready).pushReady slot t) := by
    unfold enqueue
    rw [hslot]
  refine ⟨((s.setState t .ready).pushReady slot t).checkPreemptCurr t, ?_, ?_, ?_, ?_⟩
  · unfold wakeup
    rw [henqueue]
  · rw [checkPreemptCurr_queues, pushReady_queues, setState_queues]
  · intro u hu
    rw [view_checkPreemptCurr]
    unfold view
    rw [pushReady_tcb]
    exact view_setTcb_of_ne _ hu
  · have hview := view_checkPreemptCurr ((s.setState t .ready).pushReady slot t) t t
    rw [state_of_view hview, pushReady_tcb]
    unfold setState
    rw [setTcb_tcb_self]

theorem wakeup_of_no_slot (h : (s.tcb t).slot = none) : s.wakeup t = (false, s) := by
  unfold wakeup enqueue
  rw [h]

theorem clearWaitMetadata_state (s : Sched) (t : ℕ) :
    ((s.clearWaitMetadata t).tcb t).state = (s.tcb t).state := by
  unfold clearWaitMetadata
  rw [setTcb_tcb_self]

/-- **`dispatch_waiter`** wakes a thread that waits and whose class is known. -/
theorem dispatchWaiter_of_wakeable (h : s.Wakeable t) : ∃ s', s.dispatchWaiter t = (true, s') ∧
    s'.queues = s.queues ∧ (∀ u, u ≠ t → s'.view u = s.view u) ∧ (s'.tcb t).state = .ready := by
  let c := (s.clearWaitMetadata t).setState t .empty
  have hslot : (c.tcb t).slot ≠ none := by
    have htcb : c.tcb t = { s.tcb t with waitWd := 0, waitPredicate := none, waitLinked := false
                                         state := .empty } := by
      unfold c setState clearWaitMetadata
      rw [setTcb_tcb_self, setTcb_tcb_self]
    rw [htcb]
    exact h.2
  obtain ⟨s', hwakeup, hqueues, hothers, hready⟩ := wakeup_of_slot hslot
  have hwaiting : (s.tcb t).state.waiting = true := h.1
  have hdying : ((s.tcb t).state == .dying) = false := by
    cases hs : (s.tcb t).state with
    | dying =>
      rw [hs] at hwaiting
      cases hwaiting
    | _ => rfl
  refine ⟨s', ?_, hqueues, ?_, hready⟩
  · unfold dispatchWaiter wakeupWaiting
    rwa [clearWaitMetadata_state, hdying, hwaiting]
  · intro u hu
    rw [hothers u hu]
    unfold c setState clearWaitMetadata
    rw [view_setTcb_of_ne _ hu, view_setTcb_of_ne _ hu]

/-- A thread that cannot be woken does not become ready. -/
theorem dispatchWaiter_of_not_wakeable (h : ¬s.Wakeable t) :
    ∃ s', s.dispatchWaiter t = (false, s') ∧ s'.queues = s.queues ∧
      (∀ u, u ≠ t → s'.view u = s.view u) ∧ (s.Waiting t → (s'.tcb t).state ≠ .ready) := by
  have hothers : ∀ u, u ≠ t → (s.clearWaitMetadata t).view u = s.view u :=
    fun u hu => view_setTcb_of_ne _ hu
  unfold dispatchWaiter wakeupWaiting
  rw [clearWaitMetadata_state]
  split
  · rename_i hdying
    refine ⟨_, rfl, rfl, hothers, ?_⟩
    rw [clearWaitMetadata_state, eq_of_beq hdying]
    intro _ hready
    cases hready
  split
  · rename_i hnot
    refine ⟨_, rfl, rfl, hothers, ?_⟩
    intro hwaiting
    rw [hwaiting] at hnot
    cases hnot
  · rename_i hwaiting
    have hslot : (((s.clearWaitMetadata t).setState t .empty).tcb t).slot = none := by
      by_contra hsome
      refine h ⟨by simpa [Waiting] using hwaiting, ?_⟩
      intro hnone
      apply hsome
      unfold setState clearWaitMetadata
      rwa [setTcb_tcb_self, setTcb_tcb_self]
    refine ⟨_, wakeup_of_no_slot hslot, rfl, ?_, ?_⟩
    · intro u hu
      rw [← hothers u hu]
      exact view_setTcb_of_ne _ hu
    · intro _
      unfold setState
      rw [setTcb_tcb_self]
      intro hready
      cases hready

theorem dispatchWaiter_frame (s : Sched) (t : ℕ) : (s.dispatchWaiter t).2.queues = s.queues ∧
    ∀ u, u ≠ t → (s.dispatchWaiter t).2.view u = s.view u := by
  by_cases hwakeable : s.Wakeable t
  · obtain ⟨v, hv, hqueues, hview, -⟩ := dispatchWaiter_of_wakeable hwakeable
    rw [hv]
    exact ⟨hqueues, hview⟩
  · obtain ⟨v, hv, hqueues, hview, -⟩ := dispatchWaiter_of_not_wakeable hwakeable
    rw [hv]
    exact ⟨hqueues, hview⟩

/-! ## The front of the queue -/

theorem view_popWaiter (s : Sched) (wd t u : ℕ) : (s.popWaiter wd t).view u = s.view u := by
  by_cases h : u = t
  · subst h
    unfold view popWaiter
    rw [setTcb_tcb_self]
    rfl
  · exact view_setTcb_of_ne _ h

theorem popWaiter_nodes {rest : List ℕ} (h : (s.queues wd).nodes = t :: rest) :
    ((s.popWaiter wd t).queues wd).nodes = rest := by
  unfold popWaiter setTcb
  simp only [update_self, popFront_nodes, h, tail_cons]

/-- The first thread of the queue is woken: it becomes ready, and no other thread is touched. -/
theorem dispatch_first {rest : List ℕ} (hqueue : (s.queues wd).nodes = t :: rest)
    (h : s.Wakeable t) : ∃ s', (s.popWaiter wd t).dispatchWaiter t = (true, s') ∧
      (s'.queues wd).nodes = rest ∧ (∀ u, u ≠ t → s'.view u = s.view u) ∧
        (s'.tcb t).state = .ready := by
  have hview := view_popWaiter s wd t
  obtain ⟨v, hv, hqueues, hothers, hready⟩ :=
    dispatchWaiter_of_wakeable ((wakeable_of_view (hview t)).mpr h)
  refine ⟨v, hv, by rw [hqueues, popWaiter_nodes hqueue], fun u hu => ?_, hready⟩
  rw [hothers u hu, hview u]

/-- A rejected thread goes to the back of the queue. -/
theorem pushWaiter_popWaiter {rest : List ℕ} (h : (s.queues wd).nodes = t :: rest) :
    (((s.popWaiter wd t).pushWaiter wd t).queues wd).nodes = rest ++ [t] := by
  have hlinked : ((s.popWaiter wd t).tcb t).waitLinked = false := by
    unfold popWaiter
    rw [setTcb_tcb_self]
  have hnot : t ∉ (s.popWaiter wd t).queues wd := by
    rw [mem_def, popWaiter_nodes h]
    exact notMem_rest h
  unfold pushWaiter
  rw [hlinked, if_neg (by decide)]
  unfold setTcb
  simp only [update_self]
  rw [pushBack_nodes hnot, popWaiter_nodes h]

theorem view_pushWaiter (s : Sched) (wd t u : ℕ) : (s.pushWaiter wd t).view u = s.view u := by
  unfold pushWaiter
  split
  · rfl
  by_cases h : u = t
  · subst h
    unfold view
    rw [setTcb_tcb_self]
    rfl
  · exact view_setTcb_of_ne _ h

theorem view_rejected (s : Sched) (wd t u : ℕ) :
    ((s.popWaiter wd t).pushWaiter wd t).view u = s.view u := by
  rw [view_pushWaiter, view_popWaiter]

/-! ## Rules for the loops -/

section Rules

variable {R : Sched → Sched → Prop} (hrefl : ∀ s, R s s)
  (htrans : ∀ s₁ s₂ s₃, R s₁ s₂ → R s₂ s₃ → R s₁ s₃)
  (hdispatch : ∀ s t rest, (s.queues wd).nodes = t :: rest →
    R s ((s.popWaiter wd t).dispatchWaiter t).2)
  (hreject : ∀ s t rest, (s.queues wd).nodes = t :: rest →
    R s ((s.popWaiter wd t).pushWaiter wd t))

include hrefl htrans hdispatch hreject

/-- What holds across a dispatch and across a rejection holds across `wake_all`. -/
theorem wakeAllLoop_rule (rounds count : ℕ) (s : Sched) :
    R s (wakeAllLoop holds wd rounds count s).2 := by
  induction rounds generalizing count s with
  | zero => exact hrefl s
  | succ rounds ih =>
    rw [wakeAllLoop]
    split
    · exact hrefl s
    rename_i t rest hfirst
    have hstep := hdispatch s t rest hfirst
    simp only
    split
    · split
      · rename_i hresult
        rwa [hresult] at hstep
      · rename_i hresult
        rw [hresult] at hstep
        exact htrans _ _ _ hstep (ih _ _)
    · exact htrans _ _ _ (hreject s t rest hfirst) (ih _ _)

theorem wakeOneLoop_rule {fuel : ℕ} {first : Option ℕ} {r : Result ℕ}
    (hloop : wakeOneLoop holds wd fuel first s = .ok (r, s')) : R s s' := by
  induction fuel generalizing first s with
  | zero => cases hloop
  | succ fuel ih =>
    rw [wakeOneLoop] at hloop
    split at hloop
    · cases hloop
      exact hrefl _
    rename_i t rest hfirst
    have hstep := hdispatch s t rest hfirst
    simp only at hloop
    split at hloop
    · cases hloop
      exact hreject s t rest hfirst
    split at hloop
    · split at hloop
      all_goals
        rename_i hresult
        cases hloop
        rwa [hresult] at hstep
    · exact htrans _ _ _ (hreject s t rest hfirst) (ih hloop)

end Rules

/-! ## `wake_all` -/

variable {l : List ℕ}

/-- The threads of a queue whose predicates allow a wakeup, in the order of the queue. -/
def eligible (holds : ℕ → Bool) (wd : ℕ) (s : Sched) : List ℕ :=
  (s.queues wd).nodes.filter fun t => s.runWaitPredicate holds t

/-- What a call of `wake_one` does: it takes the first eligible thread out of the queue and
makes it ready, if it can be woken. -/
structure WokeFirst (holds : ℕ → Bool) (wd : ℕ) (s s' : Sched) : Prop where
  rest : s'.eligible holds wd = (s.eligible holds wd).tail
  frame : ∀ t, (s.eligible holds wd).head? ≠ some t → s'.view t = s.view t
  woken : ∀ t, (s.eligible holds wd).head? = some t → s.Wakeable t →
    (s'.tcb t).state = .ready

/-- A thread was before another one and is behind it now. -/
def Overtaken (l l' : List ℕ) (t : ℕ) : Prop :=
  t ∈ l' ∧ ∃ u ∈ l', l.idxOf t < l.idxOf u ∧ l'.idxOf u < l'.idxOf t

/-- The threads, with the time at which each of them started to wait and the threads that
were overtaken since then. -/
structure WaitRun where
  sched : Sched
  since : ℕ → ℕ
  clock : ℕ
  overtaken : Set ℕ

namespace WaitRun

/-- A call that puts no thread into the queue of `wd`. -/
def after (q : WaitRun) (wd : ℕ) (s : Sched) : WaitRun :=
  { q with
    sched := s
    overtaken := q.overtaken ∪ {t | Overtaken (q.sched.queues wd).nodes (s.queues wd).nodes t} }

def started (q : WaitRun) (t : ℕ) (s : Sched) : WaitRun where
  sched := s
  since := update q.since t q.clock
  clock := q.clock + 1
  overtaken := q.overtaken \ {t}

/-- What happens to the queue of `wd`: a thread starts to wait, leaves, or is woken; all other
calls leave the queue as it is, whatever they do to the threads. -/
inductive Step (wd : ℕ) : WaitRun → WaitRun → Prop
  | wait (q : WaitRun) (t : ℕ) (predicate : Option ℕ) (s : Sched)
      (hout : t ∉ q.sched.queues wd) (hlinked : (q.sched.tcb t).waitLinked = false)
      (hcall : q.sched.waitEnqueue wd t predicate = (.ok (), s)) : Step wd q (q.started t s)
  | finishWait (q : WaitRun) : Step wd q (q.after wd q.sched.finishWait)
  | wakeOne (q : WaitRun) (holds : ℕ → Bool) (r : Result ℕ) (s : Sched)
      (hcall : Sched.wakeOne holds wd q.sched = .ok (r, s)) : Step wd q (q.after wd s)
  | wakeAll (q : WaitRun) (holds : ℕ → Bool) :
      Step wd q (q.after wd (Sched.wakeAll holds wd q.sched).2)
  | other (q : WaitRun) (s : Sched) (hsame : s.queues wd = q.sched.queues wd) :
      Step wd q { q with sched := s }

/-- A thread that stands behind one that started to wait after it has been overtaken. -/
structure InOrder (wd : ℕ) (q : WaitRun) : Prop where
  past : ∀ t ∈ q.sched.queues wd, q.since t < q.clock
  order : ∀ t ∈ q.sched.queues wd, ∀ u ∈ q.sched.queues wd,
    (q.sched.queues wd).nodes.idxOf u < (q.sched.queues wd).nodes.idxOf t →
    q.since u < q.since t ∨ t ∈ q.overtaken

variable {q q' : WaitRun}

theorem InOrder.after (h : q.InOrder wd) (hsub : ∀ t ∈ s.queues wd, t ∈ q.sched.queues wd) :
    (q.after wd s).InOrder wd := by
  refine ⟨fun t ht => h.past t (hsub t ht), ?_⟩
  intro t ht u hu hbefore
  rcases lt_trichotomy ((q.sched.queues wd).nodes.idxOf u) ((q.sched.queues wd).nodes.idxOf t)
    with hlt | heq | hgt
  · exact (h.order t (hsub t ht) u (hsub u hu) hlt).imp_right Or.inl
  · rw [(idxOf_inj (hsub u hu)).mp heq] at hbefore
    exact absurd hbefore (lt_irrefl _)
  · exact .inr (.inr ⟨ht, u, hu, hgt, hbefore⟩)

theorem InOrder.started (h : q.InOrder wd) (ht : t ∉ q.sched.queues wd)
    (hqueue : (s.queues wd).nodes = (q.sched.queues wd).nodes ++ [t]) :
    (q.started t s).InOrder wd := by
  have hmem : ∀ u, u ∈ s.queues wd → u ≠ t → u ∈ q.sched.queues wd := by
    intro u hu hne
    rw [mem_def, hqueue, mem_append, mem_singleton] at hu
    exact hu.resolve_right hne
  have hsince : ∀ u, u ≠ t → (q.started t s).since u = q.since u := fun u hne => update_of_ne hne ..
  have hself : (q.started t s).since t = q.clock := update_self ..
  refine ⟨?_, ?_⟩
  · intro u hu
    by_cases hne : u = t
    · rw [hne, hself]
      exact Nat.lt_succ_self _
    · rw [hsince u hne]
      exact Nat.lt_succ_of_lt (h.past u (hmem u hu hne))
  · intro x hx u hu hbefore
    show _ ∨ x ∈ q.overtaken \ {t}
    change (s.queues wd).nodes.idxOf u < (s.queues wd).nodes.idxOf x at hbefore
    rw [hqueue] at hbefore
    -- the new thread is the last one
    have hlast : ((q.sched.queues wd).nodes ++ [t]).idxOf t = (q.sched.queues wd).nodes.length := by
      rw [idxOf_append_of_notMem ht, idxOf_cons_self, Nat.add_zero]
    by_cases hut : u = t
    · subst hut
      rw [hlast] at hbefore
      have hlt : ((q.sched.queues wd).nodes ++ [u]).idxOf x <
          ((q.sched.queues wd).nodes ++ [u]).length := idxOf_lt_length_of_mem (hqueue ▸ hx)
      rw [length_append, length_singleton] at hlt
      omega
    have hu' := hmem u hu hut
    rw [hsince u hut]
    by_cases hxt : x = t
    · subst hxt
      rw [hself]
      exact .inl (h.past u hu')
    have hx' := hmem x hx hxt
    rw [idxOf_append_of_mem hu', idxOf_append_of_mem hx'] at hbefore
    rw [hsince x hxt]
    exact (h.order x hx' u hu' hbefore).imp_right fun hin => ⟨hin, hxt⟩

theorem pushWaiter_marked {predicate : Option ℕ} (hout : t ∉ s.queues wd)
    (hlinked : (s.tcb t).waitLinked = false) :
    (((s.markWaiter wd t predicate).pushWaiter wd t).queues wd).nodes =
      (s.queues wd).nodes ++ [t] := by
  have hlinked' : ((s.markWaiter wd t predicate).tcb t).waitLinked = false := by
    unfold markWaiter
    rwa [setTcb_tcb_self]
  unfold pushWaiter
  rw [hlinked', if_neg (by decide)]
  unfold setTcb
  simp only [update_self]
  exact pushBack_nodes hout

/-- The loops take threads out of the queue and put rejected ones back. -/
theorem queue_subset_dispatch (s : Sched) (t : ℕ) (rest : List ℕ)
    (hfirst : (s.queues wd).nodes = t :: rest) :
    ∀ u ∈ ((s.popWaiter wd t).dispatchWaiter t).2.queues wd, u ∈ s.queues wd := by
  intro u hu
  rw [(dispatchWaiter_frame _ t).1, mem_def, popWaiter_nodes hfirst] at hu
  rw [mem_def, hfirst]
  exact mem_cons_of_mem _ hu

theorem queue_subset_reject (s : Sched) (t : ℕ) (rest : List ℕ)
    (hfirst : (s.queues wd).nodes = t :: rest) :
    ∀ u ∈ ((s.popWaiter wd t).pushWaiter wd t).queues wd, u ∈ s.queues wd := by
  intro u hu
  rw [mem_def, pushWaiter_popWaiter hfirst, mem_append, mem_singleton] at hu
  rw [mem_def, hfirst, mem_cons]
  exact hu.symm

theorem InOrder.step (h : q.InOrder wd) (hstep : Step wd q q') : q'.InOrder wd := by
  have htrans : ∀ s₁ s₂ s₃ : Sched, (∀ u ∈ s₂.queues wd, u ∈ s₁.queues wd) →
      (∀ u ∈ s₃.queues wd, u ∈ s₂.queues wd) → ∀ u ∈ s₃.queues wd, u ∈ s₁.queues wd :=
    fun _ _ _ h₁ h₂ u hu => h₁ u (h₂ u hu)
  cases hstep with
  | wait t predicate s hout hlinked hcall =>
    unfold Sched.waitEnqueue at hcall
    split at hcall
    · cases hcall
    · obtain ⟨-, rfl⟩ := Prod.mk.inj hcall
      exact h.started hout (pushWaiter_marked hout hlinked)
  | finishWait =>
    refine h.after fun t ht => ?_
    unfold Sched.finishWait waitRemove at ht
    split at ht
    · exact ht
    rename_i cur hcurrent
    simp only at ht
    split at ht
    · exact ht
    change t ∈ update q.sched.queues _ _ wd at ht
    by_cases hwd : wd = (q.sched.tcb cur).waitWd
    · subst hwd
      rw [update_self] at ht
      exact mem_of_mem_erase ht
    · rwa [update_of_ne hwd] at ht
  | wakeOne holds r s hcall =>
    refine h.after ?_
    unfold Sched.wakeOne at hcall
    split at hcall
    · cases hcall
      exact fun _ ht => ht
    · exact wakeOneLoop_rule (R := fun s s' => ∀ u ∈ s'.queues wd, u ∈ s.queues wd)
        (fun _ _ hu => hu) htrans queue_subset_dispatch queue_subset_reject hcall
  | wakeAll holds =>
    refine h.after ?_
    unfold Sched.wakeAll
    split
    · exact fun _ ht => ht
    · exact wakeAllLoop_rule (R := fun s s' => ∀ u ∈ s'.queues wd, u ∈ s.queues wd)
        (fun _ _ hu => hu) htrans queue_subset_dispatch queue_subset_reject _ 0 _
  | other s hsame =>
    refine ⟨?_, ?_⟩
    · rw [hsame]
      exact h.past
    · rw [hsame]
      exact h.order

end WaitRun

/-- The first element that passes a filter stands before the others. -/
theorem idxOf_lt_of_first {p : ℕ → Bool} {l : List ℕ} (hfirst : (l.filter p).head? = some t)
    (hu : u ∈ l.filter p) (hne : u ≠ t) : l.idxOf t < l.idxOf u := by
  induction l with
  | nil => cases hu
  | cons a l ih =>
    by_cases hp : p a = true
    · rw [filter_cons_of_pos hp, head?_cons] at hfirst
      cases hfirst
      rw [idxOf_cons_self, idxOf_cons_ne _ hne.symm]
      exact Nat.succ_pos _
    · rw [filter_cons_of_neg hp] at hfirst hu
      have hnot : ∀ x ∈ l.filter p, a ≠ x := by
        rintro x hx rfl
        exact hp (mem_filter.mp hx).2
      rw [idxOf_cons_ne _ (hnot t (mem_of_head? hfirst)), idxOf_cons_ne _ (hnot u hu)]
      exact Nat.succ_lt_succ (ih hfirst hu)

/-- What a call of `wake_one` should do: it wakes the eligible thread that started to wait
first, if that one can be woken, and no other thread. -/
structure WokeEarliest (holds : ℕ → Bool) (wd : ℕ) (since : ℕ → ℕ) (s s' : Sched) : Prop where
  woken : ∀ t ∈ s.eligible holds wd, (∀ u ∈ s.eligible holds wd, since t ≤ since u) →
    s'.eligible holds wd = (s.eligible holds wd).erase t ∧
      (s.Wakeable t → (s'.tcb t).state = .ready)
  frame : ∀ t, (t ∈ s.eligible holds wd → ∃ u ∈ s.eligible holds wd, since u < since t) →
    s'.view t = s.view t

/-- **`wake_one` in a run**, when no thread that was overtaken is eligible. -/
theorem WaitRun.InOrder.wakeOne {q : WaitRun} (h : q.InOrder wd)
    (hrefused : ∀ t ∈ q.overtaken, t ∈ q.sched.queues wd →
      q.sched.runWaitPredicate holds t = false) (hwoke : WokeFirst holds wd q.sched s') :
    WokeEarliest holds wd q.since q.sched s' := by
  have hearliest : ∀ x, (q.sched.eligible holds wd).head? = some x →
      ∀ u ∈ q.sched.eligible holds wd, u ≠ x → q.since x < q.since u := by
    intro x hx u hu hne
    have hu' := mem_filter.mp hu
    refine (h.order u hu'.1 x (mem_filter.mp (mem_of_head? hx)).1
      (idxOf_lt_of_first hx hu hne)).resolve_right fun hover => ?_
    rw [hrefused u hover hu'.1] at hu'
    exact absurd hu'.2 (by decide)
  refine ⟨?_, ?_⟩
  · intro t ht hleast
    obtain ⟨x, hx⟩ : ∃ x, (q.sched.eligible holds wd).head? = some x :=
      Option.isSome_iff_exists.mp (by
        rw [isSome_head?]
        exact ne_nil_of_mem ht)
    obtain rfl : t = x := by
      by_contra hne
      exact absurd (hearliest x hx t ht hne) (not_lt.mpr (hleast x (mem_of_head? hx)))
    refine ⟨?_, hwoke.woken t hx⟩
    rw [hwoke.rest]
    obtain ⟨l, hl⟩ := head?_eq_some_iff.mp hx
    rw [hl, tail_cons, erase_cons_head]
  · intro t ht
    refine hwoke.frame t fun hx => ?_
    obtain ⟨u, hu, hlt⟩ := ht (mem_of_head? hx)
    by_cases hne : u = t
    · exact absurd hlt (hne ▸ lt_irrefl _)
    · exact absurd (hearliest t hx u hu hne) (not_lt.mpr hlt.le)

end Sched

end Sustcore
