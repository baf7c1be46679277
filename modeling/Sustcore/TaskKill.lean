/-
# Killing threads and processes by capability

`tcb_kill` takes an index into the capability space of the caller.  If the thread is the main thread
of its process, the whole process is to end: the call compares `main_tcb_cap` of the process,
an index into the space of that process, with the index of the caller, and hands `pcb_cap` of the
process, again an index into its own space, to `pcb_kill`, which resolves it in the space of the
caller.

`tcb_kill_confined` says for every state which process is terminated: only that of the thread,
unless the two confusions of spaces together name another process that the caller may kill.

The second part is about waiting: `kill_pcb_impl` writes the exit code before it looks whether the
process is ending already, so `exit_status_stable` needs later requests to agree with the first.
-/
import Sustcore.Capability
import Sustcore.Ledger
import Sustcore.Signals

namespace Sustcore

open Kernel SignalWorld Function Relation

/-! ## The state -/

/-- The payloads that the task calls tell apart. -/
inductive TaskPayload where
  | pcb (pcb : Option ℕ)
  | tcb (tcb : Option ℕ)
  | other

/-- `payload_as<PCBPayload>()->pcb`. -/
def TaskPayload.asPcb : TaskPayload → Option ℕ
  | .pcb p => p
  | _ => none

/-- `payload_as<TCBPayload>()->tcb`. -/
def TaskPayload.asTcb : TaskPayload → Option ℕ
  | .tcb t => t
  | _ => none

/-- The fields of `PCB` that the capabilities of a process are found by. -/
structure TaskCaps where
  cholder : Option ℕ
  pcbCap : CapIdx
  mainTcbCap : CapIdx
  recycleQueued : Bool

/-- Processes, threads and payloads; `current` is the running thread. -/
structure Tasks where
  signals : SignalWorld
  payload : ℕ → TaskPayload
  caps : ℕ → TaskCaps
  recyclePcbs : List ℕ
  needResched : ℕ → Bool
  current : Option ℕ

namespace Tasks

/-- `tcb->task`. -/
def task (s : Tasks) (t : ℕ) : Option ℕ := (s.signals.tcbs t).task

def exiting (s : Tasks) (p : ℕ) : Bool := (s.signals.pcbs p).exiting

def exitCode (s : Tasks) (p : ℕ) : ℕ := (s.signals.pcbs p).exitCode

def dying (s : Tasks) (t : ℕ) : Bool := (s.signals.tcbs t).dying

def threads (s : Tasks) (p : ℕ) : List ℕ := (s.signals.pcbs p).threads

/-- `state = DYING` with `FLAGS_NEED_RESCHED`; the switch that follows is not part of the state. -/
def markDying (t : ℕ) (s : Tasks) : Tasks :=
  { s with
    signals := s.signals.setTcb t fun tcb => { tcb with dying := true }
    needResched := update s.needResched t true }

def enqueueRecycle (p : ℕ) (s : Tasks) : Tasks :=
  if !s.exiting p || (s.caps p).recycleQueued then s
  else
    { s with
      caps := update s.caps p { s.caps p with recycleQueued := true }
      recyclePcbs := s.recyclePcbs ++ [p] }

def killPcbImpl (p exitCode : ℕ) (s : Tasks) : Tasks :=
  let killed := { s with signals := Signal.killPcbImpl p exitCode s.signals }
  if s.exiting p then killed
  else
    let killed := killed.enqueueRecycle p
    match s.current with
    | none => killed
    | some t => if s.task t = some p then killed.markDying t else killed

end Tasks

abbrev TaskState := CapState Tasks

namespace TaskCall

/-- `perm::pcb::KILL`. -/
def KILL : Perm := 0x020000

/-! ## The calls -/

/-- `running_tcb`, with the process of the thread. -/
def runningTcb : Kernel TaskState (ℕ × ℕ) := do
  let s ← get
  match s.heap.current with
  | none => throw .invalidParam
  | some t =>
    match s.heap.task t with
    | none => throw .invalidParam
    | some p => pure (t, p)

def currentHolder : Kernel TaskState ℕ := do
  let (_, p) ← runningTcb
  let s ← get
  match (s.heap.caps p).cholder with
  | none => throw .invalidParam
  | some h => pure h

/-- Look up the caller's capability and the object behind its payload. -/
def lookupAs (view : TaskPayload → Option ℕ) (idx : CapIdx) :
    Kernel TaskState (Capability × ℕ) := do
  let h ← currentHolder
  let cap ← CHolder.lookup h idx
  let s ← get
  match view (s.heap.payload cap.payload) with
  | none => throw .typeNotMatched
  | some x => pure (cap, x)

def lookupPcb (idx : CapIdx) : Kernel TaskState (Capability × ℕ) := lookupAs TaskPayload.asPcb idx

def lookupTcb (idx : CapIdx) : Kernel TaskState (Capability × ℕ) := lookupAs TaskPayload.asTcb idx

/-- `PCBObject::kill`. -/
def pcbObjectKill (cap : Capability) (p exitCode : ℕ) : Kernel TaskState Unit := do
  if !cap.perm.imply KILL then throw .insufficientPermissions
  else modify fun s => { s with heap := s.heap.killPcbImpl p exitCode }

/-- `TCBObject::kill`; only the running thread may kill itself. -/
def tcbObjectKill (t : ℕ) : Kernel TaskState Unit := do
  let s ← get
  if s.heap.current ≠ some t then throw .insufficientPermissions
  else
    match s.heap.task t with
    | none => throw .nullptr
    | some _ => modify fun s => { s with heap := s.heap.markDying t }

def pcbKill (pcbCap : CapIdx) (exitCode : ℕ) : Kernel TaskState Bool := do
  let (cap, p) ← lookupPcb pcbCap
  pcbObjectKill cap p exitCode
  pure true

/-- The test of `tcb_kill` for a main thread. -/
def isMainThread (s : TaskState) (q : ℕ) (tcbCap : CapIdx) : Bool :=
  decide ((s.heap.caps q).mainTcbCap ≠ CapIdx.null ∧ (s.heap.caps q).mainTcbCap ≠ CapIdx.error ∧
    (s.heap.caps q).mainTcbCap = tcbCap)

def tcbKill (tcbCap : CapIdx) (exitCode : ℕ) : Kernel TaskState Bool := do
  let (_, t) ← lookupTcb tcbCap
  let s ← get
  match s.heap.task t with
  | none => throw .nullptr
  | some q =>
    if isMainThread s q tcbCap then pcbKill (s.heap.caps q).pcbCap exitCode
    else do
      tcbObjectKill t
      pure true

/-! ## Names -/

/-- The holder of the running thread's process. -/
def callerHolder (s : TaskState) : Option ℕ :=
  (s.heap.current.bind s.heap.task).bind fun p => (s.heap.caps p).cholder

def callerCap (s : TaskState) (idx : CapIdx) : Option Capability :=
  (callerHolder s).bind fun h => if idx.valid then (s.holders h).get idx else none

def NamesThread (s : TaskState) (idx : CapIdx) (t : ℕ) : Prop :=
  ∃ cap, callerCap s idx = some cap ∧ (s.heap.payload cap.payload).asTcb = some t

/-- The caller's capability names the process and allows to kill it. -/
def MayKill (s : TaskState) (idx : CapIdx) (p : ℕ) : Prop :=
  ∃ cap, callerCap s idx = some cap ∧ (s.heap.payload cap.payload).asPcb = some p ∧
    cap.perm.imply KILL = true

variable {idx : CapIdx}

theorem NamesThread.unique {s : TaskState} {t u : ℕ} (h : NamesThread s idx t)
    (h' : NamesThread s idx u) : t = u := by
  obtain ⟨cap, hcap, hp⟩ := h
  obtain ⟨cap', hcap', hp'⟩ := h'
  cases hcap.symm.trans hcap'
  exact Option.some.inj (hp.symm.trans hp')

theorem MayKill.unique {s : TaskState} {p q : ℕ} (h : MayKill s idx p)
    (h' : MayKill s idx q) : p = q := by
  obtain ⟨cap, hcap, hp, -⟩ := h
  obtain ⟨cap', hcap', hp', -⟩ := h'
  cases hcap.symm.trans hcap'
  exact Option.some.inj (hp.symm.trans hp')

theorem currentHolder_cases (s : TaskState) :
    (∃ h, callerHolder s = some h ∧ currentHolder s = .ok (.ok h, s)) ∨
      (callerHolder s = none ∧ ∃ e, currentHolder s = .ok (.error e, s)) := by
  unfold currentHolder callerHolder
  cases hcur : s.heap.current with
  | none =>
    have hrun : runningTcb s = .ok (.error .invalidParam, s) := by
      simp only [runningTcb, get_bind, hcur]
      rfl
    exact .inr ⟨rfl, _, bind_of_error hrun _⟩
  | some t =>
    rw [Option.bind_some]
    cases htask : s.heap.task t with
    | none =>
      have hrun : runningTcb s = .ok (.error .invalidParam, s) := by
        simp only [runningTcb, get_bind, hcur, htask]
        rfl
      exact .inr ⟨rfl, _, bind_of_error hrun _⟩
    | some p =>
      have hrun : runningTcb s = .ok (.ok (t, p), s) := by
        simp only [runningTcb, get_bind, hcur, htask]
        rfl
      rw [bind_of_ok hrun, Option.bind_some]
      simp only [get_bind]
      cases hh : (s.heap.caps p).cholder with
      | none => exact .inr ⟨rfl, _, rfl⟩
      | some h => exact .inl ⟨h, rfl, rfl⟩

/-- A lookup changes nothing and finds the object that the caller's capability names. -/
theorem lookupAs_cases (view : TaskPayload → Option ℕ) (s : TaskState) (idx : CapIdx) :
    (∃ cap x, callerCap s idx = some cap ∧ view (s.heap.payload cap.payload) = some x ∧
      lookupAs view idx s = .ok (.ok (cap, x), s)) ∨
    ((∀ cap, callerCap s idx = some cap → view (s.heap.payload cap.payload) = none) ∧
      ∃ e, lookupAs view idx s = .ok (.error e, s)) := by
  unfold lookupAs
  rcases currentHolder_cases s with ⟨h, hh, hholder⟩ | ⟨hh, e, hholder⟩
  · rw [bind_of_ok hholder]
    have hcap : callerCap s idx = if idx.valid then (s.holders h).get idx else none := by
      unfold callerCap
      rw [hh, Option.bind_some]
    rw [hcap]
    rcases CHolder.lookup_cases h idx s with ⟨cap, hvalid, hget, hlookup⟩ | ⟨hget, e, hlookup⟩
    · rw [bind_of_ok hlookup, get_bind, if_pos hvalid, hget]
      cases hview : view (s.heap.payload cap.payload) with
      | none =>
        refine .inr ⟨?_, _, rfl⟩
        intro cap' hcap'
        cases hcap'
        exact hview
      | some x => exact .inl ⟨cap, x, rfl, hview, rfl⟩
    · refine .inr ⟨?_, e, bind_of_error hlookup _⟩
      intro cap hcap
      split at hcap
      · rw [hget ‹_›] at hcap
        cases hcap
      · cases hcap
  · refine .inr ⟨?_, e, bind_of_error hholder _⟩
    intro cap hcap
    unfold callerCap at hcap
    rw [hh] at hcap
    cases hcap

/-! ## What `kill_pcb_impl` marks -/

def SameEnd (a b : Signal.Process) : Prop :=
  b.exiting = a.exiting ∧ b.exitCode = a.exitCode ∧ b.threads = a.threads

/-- Neither a process nor a thread has ended. -/
def SameMarks (w w' : SignalWorld) : Prop :=
  (∀ p, SameEnd (w.pcbs p) (w'.pcbs p)) ∧ ∀ t, (w'.tcbs t).dying = (w.tcbs t).dying

theorem SameMarks.refl (w : SignalWorld) : SameMarks w w :=
  ⟨fun _ => ⟨rfl, rfl, rfl⟩, fun _ => rfl⟩

/-- A signal ends no process and no thread. -/
theorem signal_marks (obj : Signal.PCBObject) (signo : ℕ) (w : SignalWorld) :
    SameMarks w (obj.signal signo w).2 := by
  have hraise : ∀ q p, SameEnd (w.pcbs p) ((w.raise q signo).pcbs p) := by
    intro q p
    unfold raise setSignals setPcb
    by_cases hp : p = q
    · subst hp
      simp [SameEnd]
    · simp [SameEnd, update_of_ne hp]
  unfold Signal.PCBObject.signal
  split
  · exact .refl w
  split
  · exact .refl w
  rename_i q _
  split
  · dsimp only
    split
    · exact ⟨hraise q, fun _ => rfl⟩
    rename_i u _
    refine ⟨hraise q, fun t => ?_⟩
    unfold Signal.markTcbSignalInterrupt setTcb
    by_cases ht : t = u
    · subst ht
      simp [raise, setSignals, setPcb]
    · simp [update_of_ne ht, raise, setSignals, setPcb]
  · exact .refl w

theorem notifyParentSigchld_marks (q : ℕ) (w : SignalWorld) :
    SameMarks w (Signal.notifyParentSigchld q w) := by
  unfold Signal.notifyParentSigchld
  split
  · exact .refl w
  split
  · exact .refl w
  · split
    · exact signal_marks _ _ w
    · exact .refl w

/-- The threads of a list are marked and nothing else. -/
theorem markAll (ts : List ℕ) : ∀ w : SignalWorld,
    (ts.foldl (fun w t => w.setTcb t fun tcb => { tcb with dying := true }) w).pcbs = w.pcbs ∧
    ∀ u, ((ts.foldl (fun w t => w.setTcb t fun tcb => { tcb with dying := true }) w).tcbs u).dying =
      (decide (u ∈ ts) || (w.tcbs u).dying) := by
  induction ts with
  | nil => intro w; exact ⟨rfl, fun u => by simp⟩
  | cons t ts ih =>
    intro w
    obtain ⟨hpcbs, hdying⟩ := ih (w.setTcb t fun tcb => { tcb with dying := true })
    refine ⟨hpcbs, fun u => ?_⟩
    rw [List.foldl_cons, hdying]
    unfold setTcb
    by_cases hu : u = t
    · subst hu
      simp
    · simp [hu]

/-- **What `kill_pcb_impl` marks**: the process, and its threads unless it was ending already.  The
exit code is overwritten in both cases. -/
theorem killPcbImpl_marks (p exitCode : ℕ) (w : SignalWorld) :
    (∀ q, ((Signal.killPcbImpl p exitCode w).pcbs q).exiting =
        (decide (q = p) || (w.pcbs q).exiting) ∧
      ((Signal.killPcbImpl p exitCode w).pcbs q).exitCode =
        if q = p then exitCode else (w.pcbs q).exitCode) ∧
    ∀ u, ((Signal.killPcbImpl p exitCode w).tcbs u).dying =
      (decide ((w.pcbs p).exiting = false ∧ u ∈ (w.pcbs p).threads) || (w.tcbs u).dying) := by
  unfold Signal.killPcbImpl
  dsimp only
  have hself : ((w.setPcb p fun pcb => { pcb with exitCode := exitCode }).pcbs p).exiting =
      (w.pcbs p).exiting := by
    simp [setPcb]
  rw [hself]
  cases hexit : (w.pcbs p).exiting with
  | true =>
    refine ⟨fun q => ?_, fun u => by simp [setPcb]⟩
    by_cases hq : q = p
    · subst hq
      simp [setPcb, hexit]
    · simp [setPcb, hq]
  | false =>
    rw [if_neg (by simp)]
    set v := ((w.setPcb p fun pcb => { pcb with exitCode := exitCode }).setPcb p
      fun pcb => { pcb with exiting := true }) with hv
    obtain ⟨hpcbs, hdying⟩ := markAll ((Signal.notifyParentSigchld p v).pcbs p).threads
      (Signal.notifyParentSigchld p v)
    obtain ⟨hnotify, hnotify'⟩ := notifyParentSigchld_marks p v
    refine ⟨fun q => ?_, fun u => ?_⟩
    · rw [hpcbs, (hnotify q).1, (hnotify q).2.1, hv]
      by_cases hq : q = p
      · subst hq
        simp [setPcb]
      · simp [setPcb, hq]
    · rw [hdying, hnotify' u, (hnotify p).2.2, hv]
      simp [setPcb]

def Belongs (s : TaskState) (u p : ℕ) : Prop := u ∈ s.heap.threads p ∨ s.heap.task u = some p

/-- After a call for the process `p` it is marked, and of the threads only its own. -/
def Marked (p exitCode : ℕ) (s : TaskState) (v : Tasks) : Prop :=
  (∀ q, v.exiting q = (decide (q = p) || s.heap.exiting q) ∧
    v.exitCode q = if q = p then exitCode else s.heap.exitCode q) ∧
  ∀ u, v.dying u = true → s.heap.dying u = true ∨ s.heap.exiting p = false ∧ Belongs s u p

theorem killed_marks (p exitCode : ℕ) (s : TaskState) :
    Marked p exitCode s (s.heap.killPcbImpl p exitCode) := by
  obtain ⟨hexit, hdying⟩ := killPcbImpl_marks p exitCode s.heap.signals
  have hmarked : ∀ v : Tasks, v.signals = Signal.killPcbImpl p exitCode s.heap.signals →
      Marked p exitCode s v := by
    intro v hv
    unfold Marked Tasks.exiting Tasks.exitCode Tasks.dying
    rw [hv]
    refine ⟨hexit, fun u hu => ?_⟩
    rcases Bool.or_eq_true_iff.mp ((hdying u).symm.trans hu) with h | h
    · have h' := of_decide_eq_true h
      exact .inr ⟨h'.1, .inl h'.2⟩
    · exact .inl h
  -- the recycle queue leaves the processes as they are
  have hqueue : Marked p exitCode s (Tasks.enqueueRecycle p
      { s.heap with signals := Signal.killPcbImpl p exitCode s.heap.signals }) := by
    refine hmarked _ ?_
    unfold Tasks.enqueueRecycle
    split
    · rfl
    · rfl
  unfold Tasks.killPcbImpl
  split
  · exact hmarked _ rfl
  rename_i hp
  split
  · exact hqueue
  rename_i t _
  split
  · rename_i htask
    -- the running thread belongs to the process
    refine ⟨hqueue.1, fun u hu => ?_⟩
    by_cases hut : u = t
    · subst hut
      exact .inr ⟨by simpa using hp, .inr htask⟩
    · refine hqueue.2 u ?_
      simpa [Tasks.dying, Tasks.markDying, setTcb, hut] using hu
  · exact hqueue

/-! ## Confinement -/

/-- What the call ends is the thread that the caller's capability names, or its process. -/
structure Confined (tcbCap : CapIdx) (s s' : TaskState) : Prop where
  processes : ∀ p, s.heap.exiting p = false → s'.heap.exiting p = true →
    ∃ t, NamesThread s tcbCap t ∧ s.heap.task t = some p
  threads : ∀ u, s.heap.dying u = false → s'.heap.dying u = true →
    ∃ t, NamesThread s tcbCap t ∧ (u = t ∨ ∃ p, s.heap.task t = some p ∧ Belongs s u p)

theorem Confined.refl (tcbCap : CapIdx) (s : TaskState) : Confined tcbCap s s where
  processes := fun p h h' => by rw [h] at h'; cases h'
  threads := fun u h h' => by rw [h] at h'; cases h'

/-- The index `pcb_cap` of the process of the named main thread, looked up in the space of the
caller, names another process that the caller may kill. -/
def Redirected (s : TaskState) (tcbCap : CapIdx) (p : ℕ) : Prop :=
  ∃ t q, NamesThread s tcbCap t ∧ s.heap.task t = some q ∧ isMainThread s q tcbCap = true ∧
    MayKill s (s.heap.caps q).pcbCap p ∧ p ≠ q

theorem pcbKill_cases (pcbCap : CapIdx) (exitCode : ℕ) (s : TaskState) : (∃ p, MayKill s pcbCap p ∧
      pcbKill pcbCap exitCode s = .ok (.ok true, { s with heap := s.heap.killPcbImpl p exitCode })) ∨
    ((∀ p, ¬MayKill s pcbCap p) ∧ ∃ e, pcbKill pcbCap exitCode s = .ok (.error e, s)) := by
  unfold pcbKill lookupPcb
  rcases lookupAs_cases TaskPayload.asPcb s pcbCap with ⟨cap, p, hcap, hp, hcall⟩ | ⟨hnone, e, hcall⟩
  · rw [bind_of_ok hcall]
    cases hperm : cap.perm.imply KILL with
    | true =>
      refine .inl ⟨p, ⟨cap, hcap, hp, hperm⟩, ?_⟩
      simp only [pcbObjectKill, hperm, Bool.not_true, Bool.false_eq_true, if_false, modify_bind]
      rfl
    | false =>
      refine .inr ⟨?_, .insufficientPermissions, ?_⟩
      · rintro p' ⟨cap', hcap', -, hperm'⟩
        cases hcap.symm.trans hcap'
        rw [hperm] at hperm'
        cases hperm'
      · simp only [pcbObjectKill, hperm]
        rfl
  · refine .inr ⟨?_, e, bind_of_error hcall _⟩
    rintro p ⟨cap, hcap, hp, -⟩
    rw [hnone cap hcap] at hp
    cases hp

/-- **Kill confinement.**  `tcb_kill` returns; what it ends is confined to the named thread and its
process exactly if no other process that has not ended yet is named by the redirected index. -/
theorem tcb_kill_confined (s : TaskState) (tcbCap : CapIdx) (exitCode : ℕ) :
    ∃ r s', tcbKill tcbCap exitCode s = .ok (r, s') ∧
      (Confined tcbCap s s' ↔ ∀ p, Redirected s tcbCap p → s.heap.exiting p = true) := by
  unfold tcbKill lookupTcb
  rcases lookupAs_cases TaskPayload.asTcb s tcbCap with ⟨cap, t, hcap, ht, hcall⟩ | ⟨hnone, e, hcall⟩
  · have hnames : NamesThread s tcbCap t := ⟨cap, hcap, ht⟩
    rw [bind_of_ok hcall]
    simp only [get_bind]
    cases htask : s.heap.task t with
    | none =>
      refine ⟨_, s, rfl, fun _ => ?_, fun _ => .refl tcbCap s⟩
      rintro p ⟨t', q, hnames', htask', -⟩
      rw [← hnames.unique hnames', htask] at htask'
      cases htask'
    | some q =>
      dsimp only
      split
      · -- the main thread: the process is killed through the caller's space
        rename_i hmain
        rcases pcbKill_cases (s.heap.caps q).pcbCap exitCode s with
          ⟨p, hmay, hkill⟩ | ⟨hnot, e, hkill⟩
        · refine ⟨_, _, hkill, ?_⟩
          obtain ⟨hexit, hdying⟩ := killed_marks p exitCode s
          constructor
          · rintro hconf p' ⟨t', q', hnames', htask', -, hmay', hne⟩
            rw [← hnames.unique hnames', htask] at htask'
            cases htask'
            obtain rfl := hmay.unique hmay'
            cases hp : s.heap.exiting p with
            | true => rfl
            | false =>
              obtain ⟨u, hu, hu'⟩ := hconf.processes p hp (by simp [(hexit p).1])
              rw [← hnames.unique hu, htask] at hu'
              exact absurd (Option.some.inj hu').symm hne
          · intro hcond
            have hother : p ≠ q → s.heap.exiting p = true := fun hne =>
              hcond p ⟨t, q, hnames, htask, hmain, hmay, hne⟩
            refine ⟨fun p' hp' hp'' => ?_, fun u hu hu' => ?_⟩
            · have hmark := (hexit p').1.symm.trans hp''
              rw [hp', Bool.or_false, decide_eq_true_iff] at hmark
              subst hmark
              by_cases hpq : p' = q
              · exact ⟨t, hnames, by rw [htask, hpq]⟩
              · rw [hother hpq] at hp'
                cases hp'
            · rcases hdying u hu' with h | ⟨hp, hbelongs⟩
              · rw [hu] at h
                cases h
              · by_cases hpq : p = q
                · exact ⟨t, hnames, .inr ⟨q, htask, hpq ▸ hbelongs⟩⟩
                · rw [hother hpq] at hp
                  cases hp
        · refine ⟨_, _, hkill, fun _ => ?_, fun _ => .refl tcbCap s⟩
          rintro p ⟨t', q', hnames', htask', -, hmay, -⟩
          rw [← hnames.unique hnames', htask] at htask'
          cases htask'
          exact absurd hmay (hnot p)
      · -- any other thread: only the running one, by itself
        rename_i hmain
        have hno : ∀ p, Redirected s tcbCap p → s.heap.exiting p = true := by
          rintro p ⟨t', q', hnames', htask', hmain', -⟩
          rw [← hnames.unique hnames', htask] at htask'
          cases htask'
          exact absurd hmain' hmain
        by_cases hcur : s.heap.current = some t
        · have hkill : tcbObjectKill t s = .ok (.ok (), { s with heap := s.heap.markDying t }) := by
            unfold tcbObjectKill
            rw [get_bind, if_neg (by simp [hcur])]
            simp only [htask]
            rfl
          refine ⟨_, _, bind_of_ok hkill _, fun _ => hno, fun _ => ⟨fun p hp hp' => ?_, ?_⟩⟩
          · have hp'' : s.heap.exiting p = true := hp'
            rw [hp] at hp''
            cases hp''
          · intro u hu hu'
            by_cases hut : u = t
            · exact ⟨t, hnames, .inl hut⟩
            · have hu'' : s.heap.dying u = true := by
                simpa [Tasks.dying, Tasks.markDying, setTcb, hut] using hu'
              rw [hu] at hu''
              cases hu''
        · have hkill : tcbObjectKill t s = .ok (.error .insufficientPermissions, s) := by
            unfold tcbObjectKill
            rw [get_bind, if_pos hcur]
            rfl
          exact ⟨_, _, bind_of_error hkill _, fun _ => hno, fun _ => .refl tcbCap s⟩
  · refine ⟨_, s, bind_of_error hcall _, fun _ => ?_, fun _ => .refl tcbCap s⟩
    rintro p ⟨t, q, ⟨cap, hcap, ht⟩, -⟩
    rw [hnone cap hcap] at ht
    cases ht

/-- Three processes with one thread each, all with their process at index 2 and their main thread at
index 1 of their own spaces.  Process 0 is running; at index 1 it holds the thread of process 1, at
index 2 a capability for process 2. -/
def threeProcesses : TaskState where
  holders := fun h => if h = 0 then
      (CSpace.empty.set (CapIdx.make 0 1) (some ⟨1, Perm.allperm⟩)).set (CapIdx.make 0 2)
        (some ⟨2, Perm.allperm⟩)
    else CSpace.empty
  heap :=
    { signals := ⟨fun p => ⟨false, none, none, [p], 0, false, Signal.SignalState.init⟩,
        fun t => ⟨some t, false, false, false, 0, false, 0, 0⟩⟩
      payload := fun x => if x = 1 then .tcb (some 1) else if x = 2 then .pcb (some 2) else .other
      caps := fun p => ⟨some p, CapIdx.make 0 2, CapIdx.make 0 1, false⟩
      recyclePcbs := []
      needResched := fun _ => false
      current := some 0 }

/-- **The wrong process.**  Killing the main thread of process 1 ends process 2, not process 1. -/
theorem tcb_kill_ends_other_process : ∃ s',
    tcbKill (CapIdx.make 0 1) 0 threeProcesses = .ok (.ok true, s') ∧
      NamesThread threeProcesses (CapIdx.make 0 1) 1 ∧ threeProcesses.heap.task 1 = some 1 ∧
      threeProcesses.heap.exiting 2 = false ∧ s'.heap.exiting 2 = true ∧
      s'.heap.exiting 1 = false := by
  have hcall := eq_ok_of_returned (x := tcbKill (CapIdx.make 0 1) 0 threeProcesses) (a := true)
    threeProcesses (by decide)
  exact ⟨_, hcall, ⟨⟨1, Perm.allperm⟩, by decide, by decide⟩, rfl, rfl, by decide, by decide⟩

/-! ## Waiting for the end of a process -/

/-- `encode_linux_wait_status`: the code is the second byte. -/
def encodeLinuxWaitStatus (exitCode : ℕ) : ℕ := exitCode % 256 * 256

/-- The loop of `find_exited_pcb_cap`. -/
def findExitedLoop : List CapIdx → Kernel TaskState CapIdx
  | [] => pure CapIdx.null
  | idx :: rest => do
      match ← attempt (lookupPcb idx) with
      | .error _ => findExitedLoop rest
      | .ok (_, p) => do
          let s ← get
          if s.heap.exiting p then pure idx else findExitedLoop rest

def findExitedPcbCap (pcbs : List CapIdx) : Kernel TaskState CapIdx :=
  if pcbs.isEmpty then throw .invalidParam else findExitedLoop pcbs

/-- What `tcb_wait` reports, before or after its wait: the index of a process that has ended, and
the status that is written to the user. -/
def reportExited (pcbs : List CapIdx) : Kernel TaskState (CapIdx × Option ℕ) := do
  let idx ← findExitedPcbCap pcbs
  if idx = CapIdx.null then pure (idx, none)
  else do
    let (_, p) ← lookupPcb idx
    let s ← get
    pure (idx, some (encodeLinuxWaitStatus (s.heap.exitCode p)))

def NamesProcess (s : TaskState) (idx : CapIdx) (p : ℕ) : Prop :=
  ∃ cap, callerCap s idx = some cap ∧ (s.heap.payload cap.payload).asPcb = some p

theorem findExitedLoop_eq_ok {s s' : TaskState} : ∀ {pcbs : List CapIdx},
    findExitedLoop pcbs s = .ok (.ok idx, s') → s' = s ∧
      (idx = CapIdx.null ∨ ∃ p, NamesProcess s idx p ∧ s.heap.exiting p = true) := by
  intro pcbs
  induction pcbs with
  | nil =>
    intro h
    obtain ⟨hidx, rfl⟩ := pure_eq_ok.mp h
    exact ⟨rfl, .inl (Except.ok.inj hidx)⟩
  | cons i rest ih =>
    intro h
    obtain ⟨res, t, hcall, h⟩ := attempt_bind_eq_ok.mp h
    rcases lookupAs_cases TaskPayload.asPcb s i with ⟨cap, p, hcap, hp, hfound⟩ | ⟨-, e, hnone⟩
    · obtain ⟨rfl, rfl⟩ := ok_inj (hfound.symm.trans hcall)
      dsimp only at h
      rw [get_bind] at h
      split at h
      · obtain ⟨hidx, rfl⟩ := pure_eq_ok.mp h
        cases hidx
        exact ⟨rfl, .inr ⟨p, ⟨cap, hcap, hp⟩, ‹_›⟩⟩
      · exact ih h
    · obtain ⟨rfl, rfl⟩ := ok_inj (hnone.symm.trans hcall)
      exact ih h

/-- **A wait** reports the exit code of a process that is ending. -/
theorem reportExited_eq_ok {s s' : TaskState} {pcbs : List CapIdx} {status : ℕ}
    (h : reportExited pcbs s = .ok (.ok (idx, some status), s')) :
    ∃ p, NamesProcess s idx p ∧ s.heap.exiting p = true ∧
      status = encodeLinuxWaitStatus (s.heap.exitCode p) := by
  obtain ⟨i, t, hfind, hrest⟩ := bind_returns h
  unfold findExitedPcbCap at hfind
  split at hfind
  · cases (throw_eq_ok.mp hfind).1
  obtain ⟨rfl, hi⟩ := findExitedLoop_eq_ok hfind
  split at hrest
  · cases (ok_inj hrest).1
  rename_i hnull
  obtain ⟨p, ⟨cap, hcap, hp⟩, hexit⟩ := hi.resolve_left hnull
  rcases lookupAs_cases TaskPayload.asPcb t i with ⟨cap', q, hcap', hq, hfound⟩ | ⟨hnone, -⟩
  · cases hcap.symm.trans hcap'
    cases hp.symm.trans hq
    rw [lookupPcb, bind_of_ok hfound] at hrest
    obtain ⟨hout, -⟩ := pure_eq_ok.mp hrest
    obtain ⟨rfl, hstatus⟩ := Prod.mk.inj (Except.ok.inj hout)
    exact ⟨p, ⟨cap, hcap, hp⟩, hexit, Option.some.inj hstatus⟩
  · rw [hnone cap hcap] at hp
    cases hp

/-- The tasks, and the code of the first request to end each process. -/
structure ExitRun where
  tasks : TaskState
  first : ℕ → Option ℕ

/-- One step.  Every way to end a process is `kill_pcb_impl`; no other step writes the two fields.
With `Guarded`, a process that is ending is only asked again with a code of the same status. -/
inductive ExitStep (Guarded : Prop) : ExitRun → ExitRun → Prop
  | kill (r : ExitRun) (p exitCode : ℕ)
      (hguard : Guarded → r.tasks.heap.exiting p = true →
        exitCode % 256 = r.tasks.heap.exitCode p % 256) :
      ExitStep Guarded r ⟨{ r.tasks with heap := r.tasks.heap.killPcbImpl p exitCode },
        update r.first p (some ((r.first p).getD exitCode))⟩
  | other (r : ExitRun) (s : TaskState)
      (hsame : ∀ p, s.heap.exiting p = r.tasks.heap.exiting p ∧
        (s.heap.exiting p = true → s.heap.exitCode p = r.tasks.heap.exitCode p)) :
      ExitStep Guarded r { r with tasks := s }

/-- The code of a process that is ending has the status of the first request. -/
def ExitRun.Inv (r : ExitRun) : Prop := ∀ p,
  if r.tasks.heap.exiting p then
    ∃ code, r.first p = some code ∧ r.tasks.heap.exitCode p % 256 = code % 256
  else r.first p = none

theorem ExitStep.inv (r r' : ExitRun) (h : r.Inv) (hstep : ExitStep True r r') : r'.Inv := by
  cases hstep with
  | kill p exitCode hguard =>
    intro q
    dsimp only
    rw [((killed_marks p exitCode r.tasks).1 q).1, ((killed_marks p exitCode r.tasks).1 q).2]
    have hq := h q
    by_cases hqp : q = p
    · subst hqp
      rw [decide_eq_true rfl, Bool.true_or, if_pos rfl, if_pos rfl, update_self]
      cases hexit : r.tasks.heap.exiting q with
      | true =>
        rw [hexit] at hq
        obtain ⟨code, hcode, hmod⟩ := hq
        exact ⟨code, by rw [hcode]; rfl, (hguard trivial hexit).trans hmod⟩
      | false =>
        rw [hexit] at hq
        exact ⟨exitCode, by rw [hq]; rfl, rfl⟩
    · rwa [decide_eq_false hqp, if_neg hqp, update_of_ne hqp]
  | other s hsame =>
    intro q
    have hq := h q
    rw [← (hsame q).1] at hq
    split at hq
    · rename_i hexit
      rwa [if_pos hexit, (hsame q).2 hexit]
    · rwa [if_neg ‹_›]

/-- **The exit status is stable**: in every run in which a process that is ending is only asked to
end with a code of the same status, a wait that reports a process returns the status of the first
request. -/
theorem exit_status_stable {s : TaskState} (hstart : ∀ p, s.heap.exiting p = false) {r : ExitRun}
    (hrun : ReflTransGen (ExitStep True) ⟨s, fun _ => none⟩ r) {pcbs : List CapIdx}
    {idx : CapIdx} {status : ℕ} {s' : TaskState}
    (hwait : reportExited pcbs r.tasks = .ok (.ok (idx, some status), s')) :
    ∃ p code, NamesProcess r.tasks idx p ∧ r.first p = some code ∧
      status = encodeLinuxWaitStatus code := by
  have hinv : r.Inv := Transition.invariant ExitStep.inv hrun fun p => by
    rw [if_neg (by simp [hstart p])]
  obtain ⟨p, hnames, hexit, rfl⟩ := reportExited_eq_ok hwait
  have hp := hinv p
  rw [if_pos hexit] at hp
  obtain ⟨code, hfirst, hmod⟩ := hp
  exact ⟨p, code, hnames, hfirst, congrArg (· * 256) hmod⟩

/-- Process 2 of `threeProcesses` asked to end with code `a` and then with code `b`. -/
def killedTwice (a b : ℕ) : ExitRun :=
  ⟨{ threeProcesses with heap := (threeProcesses.heap.killPcbImpl 2 a).killPcbImpl 2 b },
    update (update (fun _ => none) 2 (some a)) 2 (some a)⟩

theorem killedTwice_run (Guarded : Prop) (a b : ℕ) (h : Guarded → b % 256 = a % 256) :
    ReflTransGen (ExitStep Guarded) ⟨threeProcesses, fun _ => none⟩ (killedTwice a b) := by
  refine (ReflTransGen.single (.kill _ 2 a fun _ hexit => by cases hexit)).tail ?_
  exact .kill _ 2 b fun hguarded _ => h hguarded

theorem exit_status_stable_same :
    ∃ p code, NamesProcess (killedTwice 1 257).tasks (CapIdx.make 0 2) p ∧
      (killedTwice 1 257).first p = some code ∧ 256 = encodeLinuxWaitStatus code :=
  exit_status_stable (fun _ => rfl) (killedTwice_run True 1 257 fun _ => rfl)
    (eq_ok_of_returned (x := reportExited [CapIdx.make 0 2] (killedTwice 1 257).tasks)
      threeProcesses (by decide))

/-- **The last request wins.**  A process that ends with code 1 and is then killed with code 2 is
reported with the status of code 2. -/
theorem exit_status_overwritten : ∃ s',
    ReflTransGen (ExitStep False) ⟨threeProcesses, fun _ => none⟩ (killedTwice 1 2) ∧
      (killedTwice 1 2).first 2 = some 1 ∧
      reportExited [CapIdx.make 0 2] (killedTwice 1 2).tasks =
        .ok (.ok (CapIdx.make 0 2, some (encodeLinuxWaitStatus 2)), s') ∧
      encodeLinuxWaitStatus 2 ≠ encodeLinuxWaitStatus 1 :=
  ⟨_, killedTwice_run False 1 2 False.elim, rfl,
    eq_ok_of_returned (x := reportExited [CapIdx.make 0 2] (killedTwice 1 2).tasks)
      threeProcesses (by decide), by decide⟩

end TaskCall

end Sustcore
