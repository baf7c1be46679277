/-
# Threads that die while they wait

`wake_all` fails when it comes to a dying thread, and its callers hand the error on.  Only
`kill` makes a thread dying, and it does not take the thread out of its wait queue.  As long
as no thread of a wait queue is killed (`NoneDying`), `wake_all` succeeds on that queue
(`Settled.wakeAll_isOk`).
-/
import Sustcore.ThreadRuns

namespace Sustcore

open Function Sched Except List

namespace Sched

variable {s s' s₁ s₂ : Sched} {t u wd : ℕ} {holds : ℕ → Bool} {c : Option ℕ} {W : Set ℕ}

def NoneDying (wd : ℕ) (s : Sched) : Prop := ∀ t ∈ s.queues wd, (s.tcb t).state ≠ .dying

/-- No thread starts to die, and threads enter only the wait queues of the descriptors `W`,
unless they are dying. -/
structure Calm (W : Set ℕ) (s s' : Sched) : Prop where
  dying : ∀ u, (s'.tcb u).state = .dying → (s.tcb u).state = .dying
  queues : ∀ u wd, u ∈ s'.queues wd → u ∈ s.queues wd ∨ wd ∈ W ∧ (s'.tcb u).state ≠ .dying

theorem Calm.noneDying (h : Calm W s s') (hnone : NoneDying wd s) : NoneDying wd s' := by
  intro t ht hdying
  rcases h.queues t wd ht with hin | ⟨-, hnot⟩
  · exact hnone t hin (h.dying t hdying)
  · exact hnot hdying

/-- A queue of another descriptor does not grow. -/
theorem Calm.empty (h : Calm W s s') (hwd : wd ∉ W) (hempty : ∀ t, t ∉ s.queues wd) :
    ∀ t, t ∉ s'.queues wd := by
  intro t ht
  rcases h.queues t wd ht with hin | ⟨hin, -⟩
  · exact hempty t hin
  · exact hwd hin

theorem Calm.refl (s : Sched) : Calm W s s := ⟨fun _ h => h, fun _ _ h => .inl h⟩

theorem Calm.trans (h₁ : Calm W s s₁) (h₂ : Calm W s₁ s₂) : Calm W s s₂ := by
  refine ⟨fun u h => h₁.dying u (h₂.dying u h), ?_⟩
  intro u wd hu
  rcases h₂.queues u wd hu with hin | hnew
  · rcases h₁.queues u wd hin with hin | ⟨hwd, hnot⟩
    · exact .inl hin
    · exact .inr ⟨hwd, fun hdying => hnot (h₂.dying u hdying)⟩
  · exact .inr hnew

theorem Calm.mono {W' : Set ℕ} (h : Calm W s s') (hsub : W ⊆ W') : Calm W' s s' :=
  ⟨h.dying, fun u wd hu => (h.queues u wd hu).imp_right fun hnew => ⟨hsub hnew.1, hnew.2⟩⟩

/-! ## The steps -/

theorem Calm.of_eq (htcb : s'.tcb = s.tcb) (hqueues : s'.queues = s.queues) : Calm W s s' := by
  refine ⟨?_, ?_⟩
  · intro u h
    rwa [htcb] at h
  · intro u wd hu
    rw [hqueues] at hu
    exact .inl hu

theorem Calm.setTcb {f : Tcb → Tcb}
    (hf : (f (s.tcb t)).state = .dying → (s.tcb t).state = .dying) : Calm W s (s.setTcb t f) := by
  refine ⟨?_, fun _ _ hu => .inl hu⟩
  intro u hdying
  by_cases hu : u = t
  · subst hu
    rw [setTcb_tcb_self] at hdying
    exact hf hdying
  · rwa [setTcb_tcb_of_ne f hu] at hdying

theorem Calm.setState {state : ThreadState} (h : state ≠ .dying) : Calm W s (s.setState t state) :=
  .setTcb fun hdying => absurd hdying h

theorem Calm.setNeedResched : Calm W s (s.setNeedResched t) := .setTcb fun hdying => hdying

theorem Calm.checkPreemptCurr : Calm W s (s.checkPreemptCurr t) := by
  unfold Sched.checkPreemptCurr
  split
  · exact .refl s
  split
  · exact .refl s
  · split
    · exact .refl s
    · exact .setNeedResched

theorem Calm.enqueue : Calm W s (s.enqueue t).2 := by
  unfold Sched.enqueue
  split
  · exact .refl s
  · exact (Calm.setState (by decide)).trans (Calm.of_eq (pushReady_tcb ..) (pushReady_queues ..))

theorem Calm.wakeup : Calm W s (s.wakeup t).2 := by
  have henqueue : Calm W s (s.enqueue t).2 := .enqueue
  unfold Sched.wakeup
  split
  · rename_i hresult
    rwa [hresult] at henqueue
  · rename_i hresult
    rw [hresult] at henqueue
    exact henqueue.trans .checkPreemptCurr

theorem Calm.wakeupWaiting : Calm W s (s.wakeupWaiting t).2 := by
  unfold Sched.wakeupWaiting
  split
  · exact .refl s
  · split
    · exact .refl s
    · exact (Calm.setState (by decide)).trans Calm.wakeup

theorem Calm.popWaiter : Calm W s (s.popWaiter wd t) := by
  have hpop : Calm W s { s with queues := update s.queues wd (s.queues wd).popFront } := by
    refine ⟨fun _ h => h, ?_⟩
    intro u wd' hu
    rcases mem_queues_update.mp hu with ⟨rfl, hin⟩ | ⟨-, hin⟩
    · exact .inl (mem_of_mem_tail hin)
    · exact .inl hin
  exact hpop.trans (.setTcb fun hdying => hdying)

/-- A thread that is not dying enters a wait queue. -/
theorem Calm.pushWaiter (hwd : wd ∈ W) (h : (s.tcb t).state ≠ .dying) :
    Calm W s (s.pushWaiter wd t) := by
  unfold Sched.pushWaiter
  split
  · exact .refl s
  have hpush : Calm W s
      { s with queues := update s.queues wd ((s.queues wd).pushBack t) } := by
    refine ⟨fun _ h => h, ?_⟩
    intro u wd' hu
    rcases mem_queues_update.mp hu with ⟨rfl, hin⟩ | ⟨-, hin⟩
    · rcases NodeList.mem_pushBack.mp hin with hin | rfl
      · exact .inl hin
      · exact .inr ⟨hwd, h⟩
    · exact .inl hin
  exact hpush.trans (.setTcb fun hdying => hdying)

theorem Calm.reject {rest : List ℕ} (hfirst : (s.queues wd).nodes = t :: rest) :
    Calm W s ((s.popWaiter wd t).pushWaiter wd t) := by
  refine ⟨?_, ?_⟩
  · intro u hdying
    rwa [state_of_view (view_rejected s wd t u)] at hdying
  · intro u wd' hu
    left
    by_cases hwd : wd' = wd
    · subst hwd
      rw [NodeList.mem_def, pushWaiter_popWaiter hfirst] at hu
      rw [NodeList.mem_def, hfirst]
      rcases mem_append.mp hu with hu | hu
      · exact mem_cons_of_mem _ hu
      · rw [mem_singleton.mp hu]
        exact mem_cons_self
    · have hqueue : ((s.popWaiter wd t).pushWaiter wd t).queues wd' = s.queues wd' := by
        have hpop : (s.popWaiter wd t).queues wd' = s.queues wd' := update_of_ne hwd ..
        unfold Sched.pushWaiter
        split
        · exact hpop
        · exact (update_of_ne hwd ..).trans hpop
      rwa [hqueue] at hu

theorem Calm.dispatchWaiter : Calm W s (s.dispatchWaiter t).2 := by
  have hclear : Calm W s (s.clearWaitMetadata t) := .setTcb fun hdying => hdying
  exact hclear.trans .wakeupWaiting

theorem Calm.waitRemove : Calm W s (s.waitRemove t) := by
  unfold Sched.waitRemove
  simp only
  split
  · exact .refl s
  have hremove : Calm W s { s with
      queues := update s.queues (s.tcb t).waitWd ((s.queues (s.tcb t).waitWd).remove t) } := by
    refine ⟨fun _ h => h, ?_⟩
    intro u wd' hu
    rcases mem_queues_update.mp hu with ⟨rfl, hin⟩ | ⟨-, hin⟩
    · exact .inl (NodeList.mem_remove.mp hin).2
    · exact .inl hin
  exact hremove.trans (.setTcb fun hdying => hdying)

/-! ## The calls -/

theorem Calm.wakeAllLoop (rounds count : ℕ) : Calm W s (wakeAllLoop holds wd rounds count s).2 :=
  wakeAllLoop_rule (R := Calm W) .refl (fun _ _ _ => .trans)
    (fun _ _ _ _ => Calm.popWaiter.trans Calm.dispatchWaiter) (fun _ _ _ => Calm.reject) rounds count s

theorem Calm.wakeAll : Calm W s (s.wakeAll holds wd).2 := by
  unfold Sched.wakeAll
  split
  · exact .refl s
  · exact .wakeAllLoop _ _

theorem Calm.wakeOneLoop {fuel : ℕ} {first : Option ℕ} {r : Result ℕ}
    (hloop : wakeOneLoop holds wd fuel first s = .ok (r, s')) : Calm W s s' :=
  wakeOneLoop_rule (R := Calm W) .refl (fun _ _ _ => .trans)
    (fun _ _ _ _ => Calm.popWaiter.trans Calm.dispatchWaiter) (fun _ _ _ => Calm.reject) hloop

theorem Calm.prepareNextTask (h : prepareNextTask 1 s = .ok (t, s')) : Calm W s s' := by
  rw [Sched.prepareNextTask] at h
  cases hpick : s.pickNextTask with
  | none =>
    rw [hpick] at h
    cases h
  | some p =>
    obtain ⟨x, v⟩ := p
    rw [hpick] at h
    simp only at h
    obtain ⟨slot, rest, -, rfl⟩ := pickFrom_eq_some hpick
    have hpop : Calm W s
        { s with run := update s.run slot (s.run slot).popFront
                 cursched := update s.cursched slot.schdClass (some x) } :=
      .of_eq rfl rfl
    have hset : Calm W s (s.pick slot x) := hpop.trans (.setTcb fun hdying => by cases hdying)
    split at h
    · cases h
      exact hset
    · cases h

theorem Calm.preparePrevTask {r : Result Unit} (h : s.preparePrevTask t = (r, s')) :
    Calm W s s' := by
  unfold Sched.preparePrevTask at h
  split at h
  · cases h
    exact .refl s
  split at h
  · cases h
    exact .setState (by decide)
  · have henqueue : Calm W s (s.enqueue t).2 := .enqueue
    rwa [h] at henqueue

theorem Calm.schedule {ignore : Bool} (h : schedule ignore s = .ok s') : Calm W s s' := by
  unfold Sched.schedule at h
  split at h
  · cases h
    exact .refl s
  rename_i cur hcurrent
  simp only at h
  split at h
  · cases h
    exact .refl s
  split at h
  · cases h
    exact .refl s
  split at h
  · cases h
  rename_i v hprev
  obtain ⟨⟨next, w⟩, hnext, hw⟩ := bind_eq_ok_iff.mp h
  cases hw
  exact (((Calm.setTcb fun hdying => hdying).trans (Calm.preparePrevTask hprev)).trans
    (.prepareNextTask hnext)).trans (.of_eq rfl rfl)

theorem Calm.pushMarked {predicate : Option ℕ} (hwd : wd ∈ W) :
    Calm W s ((s.markWaiter wd t predicate).pushWaiter wd t) := by
  have hset : Calm W s (s.markWaiter wd t predicate) := .setTcb nofun
  refine hset.trans (.pushWaiter hwd ?_)
  unfold markWaiter
  rw [setTcb_tcb_self]
  exact nofun

theorem Calm.waitEnqueue {predicate : Option ℕ} (hwd : wd ∈ W) :
    Calm W s (s.waitEnqueue wd t predicate).2 := by
  unfold Sched.waitEnqueue
  split
  · exact .refl s
  · exact .pushMarked hwd

theorem Calm.blockCurrent {predicate : Option ℕ} {r : Result Unit} (hwd : wd ∈ W)
    (h : blockCurrent wd predicate s = .ok (r, s')) : Calm W s s' := by
  unfold Sched.blockCurrent at h
  split at h
  · cases h
    exact .refl s
  rename_i cur hcurrent
  split at h
  · cases h
    exact .refl s
  have henqueue : Calm W s (s.waitEnqueue wd cur predicate).2 := .waitEnqueue hwd
  split at h
  · rename_i hresult
    cases h
    rwa [hresult] at henqueue
  rename_i hresult
  rw [hresult] at henqueue
  obtain ⟨w, hschedule, hw⟩ := bind_eq_ok_iff.mp h
  cases hw
  exact (henqueue.trans .setNeedResched).trans (.schedule hschedule)

theorem Calm.waitEvent {interruptible first second : Bool} {r : Result Unit} (hwd : wd ∈ W)
    (h : waitEvent interruptible wd first second s = .ok (r, s')) : Calm W s s' := by
  unfold Sched.waitEvent at h
  split at h
  · cases h
    exact .refl s
  split at h
  · cases h
    exact .refl s
  rename_i cur hcurrent
  split at h
  · cases h
    exact .refl s
  split at h
  · cases h
    exact .refl s
  have henqueue : Calm W s (s.waitEnqueue wd cur none).2 := .waitEnqueue hwd
  split at h
  · rename_i hresult
    cases h
    rwa [hresult] at henqueue
  rename_i v hresult
  rw [hresult] at henqueue
  have hstate : Calm W v (v.setState cur
      (if interruptible then .interruptibleWaiting else .uninterruptibleWaiting)) :=
    .setState (by cases interruptible <;> decide)
  simp only at h
  split at h
  · cases h
    exact (henqueue.trans hstate).trans .waitRemove
  · obtain ⟨w, hschedule, hw⟩ := bind_eq_ok_iff.mp h
    cases hw
    exact ((henqueue.trans hstate).trans .setNeedResched).trans (.schedule hschedule)

theorem Calm.doTick : Calm W s s.doTick := by
  unfold Sched.doTick
  split
  · exact .refl s
  · split
    · exact .setTcb fun hdying => hdying
    · exact .refl s

theorem Calm.processTimeoutTcb : Calm W s (s.processTimeoutTcb t) :=
  (Calm.setTcb fun hdying => hdying).trans Calm.wakeupWaiting

theorem Calm.handler (handler : Handler) : Calm W s (handler.run s) := by
  cases handler with
  | tick => exact .doTick
  | timeout t => exact .processTimeoutTcb
  | wakeAll holds wd => exact .wakeAll

theorem Calm.finish {call : Blocker} {second : Bool} (h : call.finish second s t = .ok s') :
    Calm W s s' := by
  have hschedule : Sched.schedule true (s.setNeedResched t) = .ok s' → Calm W s s' :=
    fun h => Calm.setNeedResched.trans (.schedule h)
  cases call with
  | blockCurrent wd predicate => exact hschedule h
  | waitEvent interruptible wd =>
    unfold Blocker.finish at h
    simp only at h
    split at h
    · cases h
      exact .waitRemove
    · exact hschedule h

theorem Calm.interrupted {call : Blocker} {handler : Handler} {second : Bool} (hwd : call.wd ∈ W)
    (h : interrupted (.prepared call) handler second s = .ok s') : Calm W s s' := by
  unfold Sched.interrupted at h
  split at h
  · cases h
    exact .refl s
  rename_i cur hcurrent
  obtain ⟨v, hschedule, hrest⟩ := bind_eq_ok_iff.mp h
  have hreach : Calm W s ((Place.prepared call).reach s cur) := by
    cases call with
    | blockCurrent wd predicate => exact .pushMarked hwd
    | waitEvent interruptible wd =>
      exact (Calm.pushMarked hwd).trans (.setState (by cases interruptible <;> decide))
  have hsaved : Calm W s v := ((hreach.trans (.handler handler)).trans
    (.setTcb fun hdying => hdying)).trans (.schedule hschedule)
  split at hrest
  · exact hsaved.trans ((Calm.setTcb fun hdying => hdying).trans (.finish hrest))
  · cases hrest
    exact hsaved

theorem Calm.resume {second : Bool}
    (hplace : ∀ cur place, s.current = some cur → (s.tcb cur).interruptedAt = some place →
      ∃ call, place = .prepared call)
    (h : resume second s = .ok s') : Calm W s s' := by
  unfold Sched.resume at h
  split at h
  · cases h
    exact .refl s
  rename_i cur hcurrent
  split at h
  · cases h
    exact .refl s
  rename_i place hat
  obtain ⟨call, rfl⟩ := hplace cur place hcurrent hat
  exact (Calm.setTcb fun hdying => hdying).trans (.finish h)

theorem Calm.create {schdClass : ClassType} {role : BootThreadRole} :
    Calm W s (s.create schdClass role).2 := by
  have hnew : Calm W s
      { s with tcb := update s.tcb s.next (newTcb schdClass role)
               next := s.next + 1 } := by
    refine ⟨?_, fun _ _ hu => .inl hu⟩
    intro u hdying
    by_cases hu : u = s.next
    · subst hu
      simp only [update_self] at hdying
      cases hdying
    · simp only [update_of_ne hu] at hdying
      exact hdying
  exact hnew.trans .wakeup

end Sched

/-- The descriptors at which a call can put the running thread to wait. -/
def ThreadCall.wds : ThreadCall → Set ℕ
  | .waitEvent _ wd _ _ => {wd}
  | .blockCurrent wd _ => {wd}
  | .interrupted (.marked call) _ _ => {call.wd}
  | .interrupted (.linked call) _ _ => {call.wd}
  | .interrupted (.prepared call) _ _ => {call.wd}
  | _ => ∅

/-- **Only `kill` makes a thread dying.** -/
theorem ThreadCall.calm {call : ThreadCall} {s s' : Sched} (hmeets : call.Meets s)
    (hrun : call.run s = .ok s') (hkill : ∀ t, call ≠ .kill t) : s.Calm call.wds s' := by
  cases call with
  | waitEvent interruptible wd first second =>
    obtain ⟨r, hwait⟩ := map_snd_eq_ok hrun
    exact .waitEvent rfl hwait
  | finishWait =>
    cases hrun
    unfold Sched.finishWait
    split
    · exact .refl s
    · exact .waitRemove
  | blockCurrent wd predicate =>
    obtain ⟨r, hblock⟩ := map_snd_eq_ok hrun
    exact .blockCurrent rfl hblock
  | wakeOne holds wd =>
    obtain ⟨r, hwake⟩ := map_snd_eq_ok hrun
    unfold Sched.wakeOne at hwake
    split at hwake
    · cases hwake
      exact .refl s
    · exact .wakeOneLoop hwake
  | wakeAll holds wd =>
    cases hrun
    exact .wakeAll
  | timeout t =>
    cases hrun
    exact .processTimeoutTcb
  | signal holds t wd =>
    cases hrun
    unfold Sched.signal
    simp only
    split
    · exact ((Sched.Calm.setTcb fun hdying => hdying).trans Sched.Calm.wakeupWaiting).trans
        .wakeAll
    · exact (Sched.Calm.setTcb fun hdying => hdying).trans Sched.Calm.wakeAll
  | tick =>
    cases hrun
    exact .doTick
  | schedule ignorePreemptDisabled => exact .schedule hrun
  | yield =>
    simp only [ThreadCall.run, Sched.yield] at hrun
    split at hrun
    · cases hrun
      exact .refl s
    · split at hrun
      · exact .schedule hrun
      · exact .schedule hrun
      · exact Sched.Calm.setNeedResched.trans (Sched.Calm.schedule hrun)
  | create schdClass role =>
    cases hrun
    exact .create
  | kill t => exact absurd rfl (hkill t)
  | bootstrap =>
    simp only [ThreadCall.run, Sched.bootstrapTasks] at hrun
    split at hrun
    · cases hrun
    · obtain ⟨⟨next, w⟩, hnext, hw⟩ := bind_eq_ok_iff.mp hrun
      cases hw
      exact (Sched.Calm.prepareNextTask hnext).trans (Sched.Calm.of_eq rfl rfl)
  | interrupted place handler second =>
    cases place with
    | prepared call => exact .interrupted rfl hrun
    | _ => exact hmeets.elim
  | resume second => exact .resume hmeets hrun

namespace Sched

variable {s s' : Sched} {t wd : ℕ} {holds : ℕ → Bool} {c : Option ℕ}

/-- A kill changes the state of the thread alone, and no wait queue. -/
theorem kill_frame (s : Sched) (t : ℕ) :
    (s.kill t).queues = s.queues ∧ ∀ u, u ≠ t → (s.kill t).tcb u = s.tcb u := by
  have hdequeue : ((s.dequeue t).2.queues = s.queues) ∧
      ∀ u, u ≠ t → (s.dequeue t).2.tcb u = s.tcb u := by
    unfold dequeue
    split
    · exact ⟨rfl, fun _ _ => rfl⟩
    split
    · refine ⟨rfl, fun u hu => ?_⟩
      unfold setState
      rw [setTcb_tcb_of_ne _ hu]
    · exact ⟨rfl, fun _ _ => rfl⟩
  let v := if s.current ≠ some t ∧ (s.tcb t).state = .ready then (s.dequeue t).2 else s
  have hv : v.queues = s.queues ∧ ∀ u, u ≠ t → v.tcb u = s.tcb u := by
    unfold v
    split
    · exact hdequeue
    · exact ⟨rfl, fun _ _ => rfl⟩
  show (if (v.setState t .dying).current = some t then (v.setState t .dying).setNeedResched t
      else v.setState t .dying).queues = s.queues ∧
    ∀ u, u ≠ t → (if (v.setState t .dying).current = some t
      then (v.setState t .dying).setNeedResched t else v.setState t .dying).tcb u = s.tcb u
  split
  · exact ⟨hv.1, fun u hu => ((setTcb_tcb_of_ne _ hu).trans (setTcb_tcb_of_ne _ hu)).trans
      (hv.2 u hu)⟩
  · exact ⟨hv.1, fun u hu => (setTcb_tcb_of_ne _ hu).trans (hv.2 u hu)⟩

theorem NoneDying.kill (h : NoneDying wd s) (ht : t ∉ s.queues wd) : NoneDying wd (s.kill t) := by
  obtain ⟨hqueues, htcb⟩ := s.kill_frame t
  intro u hu
  rw [hqueues] at hu
  rw [htcb u fun heq => ht (heq ▸ hu)]
  exact h u hu

/-- The loop of `wake_all` over a queue in which all threads wait. -/
theorem Inv.wakeAllLoop_isOk : ∀ {rounds : ℕ} (count : ℕ) {s : Sched}, Inv none c s →
    NoneDying wd s → ∃ n, (Sched.wakeAllLoop holds wd rounds count s).1 = .ok n := by
  intro rounds
  induction rounds with
  | zero =>
    intro count s _ _
    exact ⟨count, rfl⟩
  | succ rounds ih =>
    intro count s h hnone
    rw [Sched.wakeAllLoop]
    split
    · exact ⟨count, rfl⟩
    rename_i t rest hfirst
    simp only
    split
    · have hin := NodeList.mem_of_first hfirst
      have hnext := (h.queueWf.queue_wd t wd hin).1
      have hwaiting : s.Waiting t := by
        rcases (h.placed t hnext (by simp)).of_inQueue ⟨wd, hin⟩ with hwaiting | ⟨hdying, -⟩
        · exact hwaiting
        · exact absurd hdying (hnone t hin)
      have hcalm : Calm ∅ s ((s.popWaiter wd t).dispatchWaiter t).2 :=
        Calm.popWaiter.trans Calm.dispatchWaiter
      obtain ⟨v, hv, -⟩ := dispatch_first hfirst ⟨hwaiting, h.runWf.slot_known t hnext⟩
      obtain ⟨b, s', hdispatch, -, hinv, -⟩ := h.dispatch hfirst
      obtain ⟨rfl, rfl⟩ := Prod.mk.inj (hv.symm.trans hdispatch)
      rw [hv] at hcalm ⊢
      exact ih (count + 1) (hinv (by simp)) (hcalm.noneDying hnone)
    · exact ih count (h.of_quiet (h.reject hfirst)) ((.reject hfirst : Calm ∅ _ _).noneDying hnone)

theorem waitEvent_error {interruptible first second : Bool} {e : ErrCode}
    (h : waitEvent interruptible wd first second s = .ok (.error e, s')) : e = .invalidParam := by
  unfold waitEvent at h
  split at h
  · cases h
    rfl
  rename_i hwd
  split at h
  · cases h
    rfl
  split at h
  · cases h
    rfl
  split at h
  · cases h
  unfold waitEnqueue at h
  rw [if_neg hwd] at h
  simp only at h
  split at h
  · cases h
  · obtain ⟨w, -, hw⟩ := bind_eq_ok_iff.mp h
    cases hw

/-- **`wake_all` succeeds** on a queue without dying threads. -/
theorem Settled.wakeAll_isOk (holds : ℕ → Bool) (h : s.Settled) (hwd : wd ≠ 0)
    (hnone : NoneDying wd s) :
    ∃ n, (s.wakeAll holds wd).1 = .ok n := by
  unfold Sched.wakeAll
  rw [if_neg hwd]
  exact Inv.wakeAllLoop_isOk 0 h hnone

end Sched

end Sustcore
