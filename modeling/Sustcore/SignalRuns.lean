/-
# The signals that no process may block

`SIGKILL` and `SIGSTOP` are in force in a process when its blocked mask contains neither and
the action of both is the default.  `sigmask` filters both out of what the user asks for.  The
other places do not:

* `sigaction` records any action for any signal;
* a delivery blocks the mask of the action, which is the user's word;
* `rt_sigreturn` takes the mask out of the frame and filters `SIGKILL` only.

`unmaskable_in_force` says for every call when it keeps the two signals in force, and that they
are in force after every run of such calls.  `failed_delivery_harmless` is about a delivery that
cannot write its frame: the signal is no longer pending by then, and it is blocked.
-/
import Sustcore.Ledger
import Sustcore.Signals

namespace Sustcore

namespace Signal

open SignalWorld Function Option Except

/-! ## What a call does to masks and actions -/

/-- The blocked masks and the actions are the same. -/
def SameControl (w w' : SignalWorld) : Prop :=
  ∀ p, (w'.signals p).blockedMask = (w.signals p).blockedMask ∧
    (w'.signals p).actions = (w.signals p).actions

theorem SameControl.refl (w : SignalWorld) : SameControl w w := fun _ => ⟨rfl, rfl⟩

theorem SameControl.trans {w₁ w₂ w₃ : SignalWorld} (h : SameControl w₁ w₂)
    (h' : SameControl w₂ w₃) : SameControl w₁ w₃ :=
  fun p => ⟨(h' p).1.trans (h p).1, (h' p).2.trans (h p).2⟩

variable {w w' : SignalWorld}

theorem SameControl.of_signals (h : ∀ p, w'.signals p = w.signals p) : SameControl w w' := by
  intro p
  rw [h p]
  exact ⟨rfl, rfl⟩

theorem SameControl.setPending (w : SignalWorld) (p : ℕ) (f : SignalState → Word) :
    SameControl w (w.setSignals p fun s => { s with pendingMask := f s }) := by
  intro q
  by_cases hq : q = p
  · subst hq
    rw [signals_setSignals]
    exact ⟨rfl, rfl⟩
  · rw [signals_setSignals_of_ne w hq]
    exact ⟨rfl, rfl⟩

theorem SameControl.clear (w : SignalWorld) (p signo : ℕ) : SameControl w (w.clear p signo) :=
  .setPending w p _

theorem signal_sameControl (obj : PCBObject) (signo : ℕ) (w : SignalWorld) :
    SameControl w (obj.signal signo w).2 := by
  unfold PCBObject.signal
  split
  · exact .refl w
  split
  · exact .refl w
  rename_i p _
  split
  · have hraise : SameControl w (w.raise p signo) := .setPending w p _
    dsimp only
    split
    · exact hraise
    · exact hraise.trans (.of_signals fun _ => rfl)
  · exact .refl w

theorem takePending_sameControl (p : ℕ) (mask : Word) (w : SignalWorld) :
    SameControl w (takePending p mask w).2 := by
  unfold takePending
  dsimp only
  split
  · exact .refl w
  · exact SameControl.clear w p _

theorem waitsig_sameControl (obj : PCBObject) (mask : Word) (timeoutNs options : ℕ)
    (w : SignalWorld) : SameControl w (obj.waitsig mask timeoutNs options w).2 := by
  unfold PCBObject.waitsig
  split
  · exact .refl w
  split
  · exact .refl w
  rename_i p _
  have htake := takePending_sameControl p mask w
  split
  · exact .refl w
  split
  · rename_i heq
    rwa [heq] at htake
  rename_i heq
  rw [heq] at htake
  split
  · exact htake
  · exact htake

theorem waitsigResume_sameControl (p : ℕ) (mask : Word) (waitRes : Result Unit)
    (w : SignalWorld) : SameControl w (waitsigResume p mask waitRes w).2 := by
  have htake := takePending_sameControl p mask w
  unfold waitsigResume
  cases waitRes with
  | error e =>
    dsimp only
    split
    · exact .refl w
    split
    · rename_i heq
      rwa [heq] at htake
    · rename_i heq
      rwa [heq] at htake
  | ok _ =>
    dsimp only
    split
    · rename_i heq
      rwa [heq] at htake
    · rename_i heq
      rwa [heq] at htake

theorem notifyParentSigchld_sameControl (p : ℕ) (w : SignalWorld) :
    SameControl w (notifyParentSigchld p w) := by
  unfold notifyParentSigchld
  split
  · exact .refl w
  split
  · exact .refl w
  · split
    · exact signal_sameControl _ _ w
    · exact .refl w

theorem killPcbImpl_sameControl (p exitCode : ℕ) (w : SignalWorld) :
    SameControl w (killPcbImpl p exitCode w) := by
  have hexit : SameControl w (w.setPcb p fun pcb => { pcb with exitCode := exitCode }) := by
    refine .of_signals (signals_setPcb w p ?_)
    exact fun _ => rfl
  unfold killPcbImpl
  dsimp only
  split
  · exact hexit
  have hloop : ∀ (threads : List ℕ) (w : SignalWorld), SameControl w
      (threads.foldl (fun w t => w.setTcb t fun tcb => { tcb with dying := true }) w) := by
    intro threads
    induction threads with
    | nil => exact .refl
    | cons t rest ih =>
      intro w
      exact .trans (.of_signals fun _ => rfl) (ih _)
  refine hexit.trans (.trans ?_ (hloop _ _))
  refine .trans (.of_signals (signals_setPcb _ p ?_)) (notifyParentSigchld_sameControl p _)
  exact fun _ => rfl

/-- A delivery to `t` enters the user's handler for `signo`, a signal of the process `p`. -/
structure Enters (w : SignalWorld) (t p : ℕ) (signo : Fin MAX_SIGNALS) : Prop where
  task : (w.tcbs t).task = some p
  linux : (w.pcbs p).isLinuxProcess = true
  idle : (w.tcbs t).signalDeliveryActive = false
  chosen : chooseDeliverableSignal (w.signals p) = .ok signo.val
  handler : isUserHandler ((w.signals p).actions signo) = true
  restorer : hasRestorer ((w.signals p).actions signo) = true

theorem enterHandler_signals (commit : Word → Frame → Result Unit) (t p signo : ℕ)
    (action : SigAction) (ctx : Context) (w : SignalWorld) (q : ℕ) :
    ((enterHandler commit t p signo action ctx w).2).signals q = ((w.clear p signo).setBlocked p
        ((w.signals p).blockedMask ||| action.mask ||| bit signo)).signals q := by
  have hold : ((w.clear p signo).signals p).blockedMask = (w.signals p).blockedMask :=
    (SameControl.setPending w p _ p).1
  unfold enterHandler
  simp only [hold]
  split
  · rfl
  · split
    · rfl
    · rfl

/-- **A delivery** changes no mask and no action, or it enters a handler. -/
theorem deliver_cases (commit : Word → Frame → Result Unit) (t : ℕ) (ctx : Context)
    (w : SignalWorld) : ((deliverSignalIfNeeded commit t ctx w).1 = .ok ctx ∧
      SameControl w (deliverSignalIfNeeded commit t ctx w).2 ∧ ∀ p signo, ¬Enters w t p signo) ∨
    ∃ p signo, Enters w t p signo ∧ deliverSignalIfNeeded commit t ctx w =
      enterHandler commit t p signo ((w.signals p).actions signo) ctx w := by
  unfold deliverSignalIfNeeded
  cases htask : (w.tcbs t).task with
  | none =>
    refine .inl ⟨rfl, .refl w, fun p signo h => ?_⟩
    have htask' := h.task
    rw [htask] at htask'
    cases htask'
  | some p =>
  -- A handler can only be entered for this process.
  have htask' : ∀ {q signo}, Enters w t q signo → q = p := by
    intro q signo h
    exact some.inj (h.task.symm.trans htask)
  dsimp only
  by_cases hskip : (!(w.pcbs p).isLinuxProcess || (w.tcbs t).signalDeliveryActive) = true
  · rw [if_pos hskip]
    refine .inl ⟨rfl, .refl w, fun q signo h => ?_⟩
    obtain rfl := htask' h
    rw [h.linux, h.idle] at hskip
    cases hskip
  rw [if_neg hskip]
  simp only [Bool.or_eq_true, Bool.not_eq_true', not_or, Bool.not_eq_false,
    Bool.not_eq_true] at hskip
  cases hchoose : chooseDeliverableSignal (w.signals p) with
  | error e =>
    refine .inl ⟨rfl, .refl w, fun q signo h => ?_⟩
    obtain rfl := htask' h
    have hchosen := h.chosen
    rw [hchoose] at hchosen
    cases hchosen
  | ok signo =>
  have hsigno' : ∀ {q : ℕ} {s : Fin MAX_SIGNALS}, Enters w t q s → s.val = signo := by
    intro q s h
    obtain rfl := htask' h
    exact ok.inj (h.chosen.symm.trans hchoose)
  dsimp only
  by_cases hsigno : signo < MAX_SIGNALS
  swap
  · rw [dif_neg hsigno]
    refine .inl ⟨rfl, .refl w, fun q s h => ?_⟩
    have hlt := s.isLt
    rw [hsigno' h] at hlt
    exact hsigno hlt
  rw [dif_pos hsigno]
  set action := (w.signals p).actions ⟨signo, hsigno⟩ with haction
  have hentered : ∀ {q : ℕ} {s : Fin MAX_SIGNALS}, Enters w t q s →
      isUserHandler action = true ∧ hasRestorer action = true := by
    intro q s h
    obtain rfl := htask' h
    have hs : s = ⟨signo, hsigno⟩ := Fin.ext (hsigno' h)
    have hhandler := h.handler
    have hrestorer := h.restorer
    rw [hs] at hhandler hrestorer
    exact ⟨hhandler, hrestorer⟩
  have hclear : SameControl w (w.clear p signo) := .setPending w p _
  by_cases hign : action.handler = LINUX_SIG_IGN
  · rw [if_pos hign]
    refine .inl ⟨rfl, hclear, fun q s h => ?_⟩
    have hhandler := (hentered h).1
    simp [isUserHandler, hign] at hhandler
  rw [if_neg hign]
  by_cases hdfl : action.handler = LINUX_SIG_DFL
  · rw [if_pos hdfl]
    refine .inl ⟨?_, ?_, fun q s h => ?_⟩
    · split
      · rfl
      · split
        · rfl
        · rfl
    · split
      · exact hclear
      · split
        · exact hclear.trans (killPcbImpl_sameControl p _ _)
        · exact hclear
    · have hhandler := (hentered h).1
      simp [isUserHandler, hdfl] at hhandler
  rw [if_neg hdfl]
  by_cases huser : isUserHandler action = true
  swap
  · rw [if_pos (by simpa using huser)]
    exact .inl ⟨rfl, .refl w, fun q s h => huser (hentered h).1⟩
  rw [if_neg (by simpa using huser)]
  by_cases hrestorer : hasRestorer action = true
  swap
  · rw [if_pos (by simpa using hrestorer)]
    exact .inl ⟨rfl, .refl w, fun q s h => hrestorer (hentered h).2⟩
  rw [if_neg (by simpa using hrestorer)]
  exact .inr ⟨p, ⟨signo, hsigno⟩, ⟨htask, hskip.1, hskip.2, hchoose, huser, hrestorer⟩, rfl⟩

/-- `rt_sigreturn` of `t` restores the frame, in the process `p`. -/
structure Returns (sync : Word → Result Frame) (w : SignalWorld) (t : ℕ) (ctx : Context) (p : ℕ)
    (frame : Frame) : Prop where
  task : (w.tcbs t).task = some p
  linux : (w.pcbs p).isLinuxProcess = true
  active : (w.tcbs t).signalDeliveryActive = true
  userSp : (w.tcbs t).signalFrameUserSp ≠ 0
  aligned : ctx.regs .sp &&& 0xF = 0
  read : sync (ctx.regs .sp) = .ok frame

/-- **`rt_sigreturn`** changes no mask and no action, or it takes the mask of a frame. -/
theorem rtSigreturn_cases (sync : Word → Result Frame) (t : ℕ) (ctx : Context) (w : SignalWorld) :
    (SameControl w (rtSigreturnCurrent sync t ctx w).2 ∧ ∀ p frame, ¬Returns sync w t ctx p frame) ∨
    ∃ p frame, Returns sync w t ctx p frame ∧ (rtSigreturnCurrent sync t ctx w).2 =
      resetTcbSignalDelivery t (w.setBlocked p (userMaskToKernelMask frame.ucSigmask)) := by
  unfold rtSigreturnCurrent
  cases htask : (w.tcbs t).task with
  | none =>
    refine .inl ⟨.refl w, fun p frame h => ?_⟩
    have htask' := h.task
    rw [htask] at htask'
    cases htask'
  | some p =>
  have htask' : ∀ {q frame}, Returns sync w t ctx q frame → q = p := by
    intro q frame h
    exact some.inj (h.task.symm.trans htask)
  dsimp only
  by_cases hlinux : (w.pcbs p).isLinuxProcess = true
  swap
  · rw [if_pos (by simpa using hlinux)]
    refine .inl ⟨.refl w, fun q frame h => hlinux ?_⟩
    obtain rfl := htask' h
    exact h.linux
  rw [if_neg (by simpa using hlinux)]
  by_cases hactive : (!(w.tcbs t).signalDeliveryActive ||
      (w.tcbs t).signalFrameUserSp == 0) = true
  · rw [if_pos hactive]
    refine .inl ⟨.refl w, fun q frame h => ?_⟩
    rw [h.active, beq_eq_false_iff_ne.mpr h.userSp] at hactive
    cases hactive
  rw [if_neg hactive]
  by_cases haligned : ctx.regs .sp &&& 0xF = 0
  swap
  · rw [if_pos (by simpa using haligned)]
    exact .inl ⟨killPcbImpl_sameControl p _ w, fun q frame h => haligned h.aligned⟩
  rw [if_neg (by simpa using haligned)]
  cases hsync : sync (ctx.regs .sp) with
  | error e =>
    refine .inl ⟨killPcbImpl_sameControl p _ w, fun q frame h => ?_⟩
    have hread := h.read
    rw [hsync] at hread
    cases hread
  | ok frame =>
    simp only [Bool.or_eq_true, Bool.not_eq_true', beq_iff_eq, not_or, Bool.not_eq_false] at hactive
    exact .inr ⟨p, frame, ⟨htask, hlinux, hactive.1, hactive.2, haligned, hsync⟩, rfl⟩

/-! ## The signals in force -/

/-- The two signals that are never blocked. -/
def Unmaskable (signo : ℕ) : Prop := signo = LINUX_SIGKILL ∨ signo = LINUX_SIGSTOP

instance (signo : ℕ) : Decidable (Unmaskable signo) := inferInstanceAs (Decidable (_ ∨ _))

/-- `SIGKILL` and `SIGSTOP` are not blocked, and their action is the default. -/
def InForce (s : SignalState) : Prop :=
  ∀ signo : Fin MAX_SIGNALS, Unmaskable signo →
    s.blockedMask.getLsbD signo = false ∧ (s.actions signo).handler = LINUX_SIG_DFL

instance (s : SignalState) : Decidable (InForce s) :=
  inferInstanceAs (Decidable (∀ _ : Fin MAX_SIGNALS, _ → _ ∧ _))

theorem inForce_init : InForce SignalState.init := fun _ _ => ⟨BitVec.getLsbD_zero, rfl⟩

def AllInForce (w : SignalWorld) : Prop := ∀ p, InForce (w.signals p)

theorem AllInForce.of_sameControl (h : AllInForce w)
    (hsame : SameControl w w') : AllInForce w' := by
  intro p signo hsigno
  rw [(hsame p).1, (hsame p).2]
  exact h p signo hsigno

/-- A call that changes the signal state of one process. -/
theorem allInForce_setSignals (h : AllInForce w) (p : ℕ) (f : SignalState → SignalState) :
    AllInForce (w.setSignals p f) ↔ InForce (f (w.signals p)) := by
  constructor
  · intro h'
    have hp := h' p
    rwa [signals_setSignals] at hp
  · intro hp q
    by_cases hq : q = p
    · subst hq
      rwa [signals_setSignals]
    · rw [signals_setSignals_of_ne w hq]
      exact h q

theorem allInForce_setBlocked (h : AllInForce w) (p : ℕ) (mask : Word) :
    AllInForce (w.setBlocked p mask) ↔
      ∀ signo : Fin MAX_SIGNALS, Unmaskable signo → mask.getLsbD signo = false := by
  rw [setBlocked, allInForce_setSignals h]
  constructor
  · intro hf signo hsigno
    exact (hf signo hsigno).1
  · intro hmask signo hsigno
    exact ⟨hmask signo hsigno, (h p signo hsigno).2⟩

theorem getLsbD_of_filtered (set : Word) {signo : Fin MAX_SIGNALS} (hsigno : Unmaskable signo) :
    (set &&& ~~~unmaskableSignalMask).getLsbD signo = false := by
  have hin : unmaskableSignalMask.getLsbD signo = true := by
    rw [getLsbD_unmaskableSignalMask]
    simpa [Unmaskable] using hsigno
  rw [BitVec.getLsbD_and, BitVec.getLsbD_not, hin]
  simp

/-- **`sigmask`** keeps the signals in force. -/
theorem sigmask_allInForce (h : AllInForce w) (obj : PCBObject) (how : ℕ)
    (set : Option Word) : AllInForce (obj.sigmask how set w).2 := by
  unfold PCBObject.sigmask
  split
  · exact h
  split
  · exact h
  rename_i p _
  cases set with
  | none => exact h
  | some set =>
    dsimp only
    split
    · refine (allInForce_setBlocked h p _).mpr fun signo hsigno => ?_
      rw [BitVec.getLsbD_or, (h p signo hsigno).1, getLsbD_of_filtered set hsigno]
      rfl
    split
    · refine (allInForce_setBlocked h p _).mpr fun signo hsigno => ?_
      rw [BitVec.getLsbD_and, (h p signo hsigno).1]
      rfl
    · split
      · exact (allInForce_setBlocked h p _).mpr fun signo hsigno =>
          getLsbD_of_filtered set hsigno
      · exact h

/-- **`sigaction`** keeps the signals in force when it does not set a handler for them. -/
theorem sigaction_allInForce (h : AllInForce w) (obj : PCBObject) (signo : ℕ)
    (action : Option SigAction) :
    AllInForce (obj.sigaction signo action w).2 ↔ (obj.perm.imply SIGACTION = true →
      obj.pcb.isSome → Unmaskable signo → ∀ a, action = some a → a.handler = LINUX_SIG_DFL) := by
  unfold PCBObject.sigaction
  by_cases hperm : obj.perm.imply SIGACTION = true
  swap
  · rw [if_pos (by simpa using hperm)]
    exact ⟨fun _ hperm' => absurd hperm' hperm, fun _ => h⟩
  rw [if_neg (by simpa using hperm)]
  cases hpcb : obj.pcb with
  | none => exact ⟨fun _ _ => nofun, fun _ => h⟩
  | some p =>
  dsimp only
  by_cases hsigno : signo < MAX_SIGNALS
  swap
  · rw [dif_neg hsigno]
    refine ⟨fun _ _ _ hun => ?_, fun _ => h⟩
    rcases hun with rfl | rfl
    · exact absurd (by decide) hsigno
    · exact absurd (by decide) hsigno
  rw [dif_pos hsigno]
  cases action with
  | none => exact ⟨fun _ _ _ _ _ => nofun, fun _ => h⟩
  | some a =>
  rw [allInForce_setSignals h]
  constructor
  · intro hf _ _ hun a' ha
    cases ha
    have hact : (update (w.signals p).actions ⟨signo, hsigno⟩ a ⟨signo, hsigno⟩).handler =
        LINUX_SIG_DFL := (hf ⟨signo, hsigno⟩ hun).2
    rwa [update_self] at hact
  · intro hdfl i hi
    refine ⟨(h p i hi).1, ?_⟩
    show (update (w.signals p).actions ⟨signo, hsigno⟩ a i).handler = LINUX_SIG_DFL
    by_cases heq : i = ⟨signo, hsigno⟩
    · subst heq
      rw [update_self]
      exact hdfl hperm rfl hi a rfl
    · rw [update_of_ne heq]
      exact (h p i hi).2

/-- **A delivery** keeps the signals in force when the action that it enters does not mask
them. -/
theorem deliver_allInForce (h : AllInForce w)
    (commit : Word → Frame → Result Unit) (t : ℕ) (ctx : Context) :
    AllInForce (deliverSignalIfNeeded commit t ctx w).2 ↔ ∀ p signo, Enters w t p signo →
      ∀ i, Unmaskable i → ((w.signals p).actions signo).mask.getLsbD i = false := by
  rcases deliver_cases commit t ctx w with ⟨-, hsame, hnot⟩ | ⟨p, signo, henters, heq⟩
  · exact ⟨fun _ p signo henters => absurd henters (hnot p signo), fun _ => h.of_sameControl hsame⟩
  rw [heq]
  have hclear : AllInForce (w.clear p signo) := h.of_sameControl (.setPending w p _)
  -- The signal that is delivered has a handler, so it is neither of the two.
  have hother : ¬Unmaskable signo := by
    intro hun
    have hhandler := henters.handler
    simp [isUserHandler, (h p signo hun).2] at hhandler
  have hbits : ∀ i : Fin MAX_SIGNALS, Unmaskable i →
      ((w.signals p).blockedMask ||| ((w.signals p).actions signo).mask ||| bit signo).getLsbD i =
        ((w.signals p).actions signo).mask.getLsbD i := by
    intro i hi
    have hne : i.val ≠ signo.val := by
      intro hval
      rw [hval] at hi
      exact hother hi
    rw [BitVec.getLsbD_or, BitVec.getLsbD_or, (h p i hi).1, getLsbD_bit]
    simp [hne]
  have hiff : AllInForce (enterHandler commit t p signo ((w.signals p).actions signo) ctx w).2 ↔
      AllInForce ((w.clear p signo).setBlocked p
        ((w.signals p).blockedMask ||| ((w.signals p).actions signo).mask ||| bit signo)) := by
    unfold AllInForce
    simp only [enterHandler_signals]
  rw [hiff, allInForce_setBlocked hclear]
  constructor
  · intro hmask q s hq i hi
    obtain rfl : q = p := some.inj (hq.task.symm.trans henters.task)
    obtain rfl : s = signo := Fin.ext (ok.inj (hq.chosen.symm.trans henters.chosen))
    have hlt : i < MAX_SIGNALS := by
      rcases hi with rfl | rfl
      · decide
      · decide
    rw [← hbits ⟨i, hlt⟩ hi]
    exact hmask ⟨i, hlt⟩ hi
  · intro hmask i hi
    rw [hbits i hi]
    exact hmask p signo henters i hi

/-- The frame's mask has a bit for `SIGSTOP`, which the user numbers 18. -/
theorem userMaskToKernelMask_unmaskable (mask : Word) :
    (∀ signo : Fin MAX_SIGNALS, Unmaskable signo →
      (userMaskToKernelMask mask).getLsbD signo = false) ↔
      mask.getLsbD (LINUX_SIGSTOP - 1) = false := by
  have hkill : (userMaskToKernelMask mask).getLsbD LINUX_SIGKILL = false := by
    unfold userMaskToKernelMask
    simp
  have hstop : (userMaskToKernelMask mask).getLsbD LINUX_SIGSTOP =
      mask.getLsbD (LINUX_SIGSTOP - 1) := by
    unfold userMaskToKernelMask
    rw [BitVec.getLsbD_and, BitVec.getLsbD_not, getLsbD_bit]
    simp [LINUX_SIGSTOP, LINUX_SIGKILL]
  constructor
  · intro h
    rw [← hstop]
    exact h ⟨LINUX_SIGSTOP, by decide⟩ (.inr rfl)
  · intro h signo hsigno
    rcases hsigno with hs | hs
    · rw [hs, hkill]
    · rw [hs, hstop, h]

/-- **`rt_sigreturn`** keeps the signals in force when the frame does not block `SIGSTOP`. -/
theorem rtSigreturn_allInForce (h : AllInForce w)
    (sync : Word → Result Frame) (t : ℕ) (ctx : Context) :
    AllInForce (rtSigreturnCurrent sync t ctx w).2 ↔ ∀ p frame, Returns sync w t ctx p frame →
      frame.ucSigmask.getLsbD (LINUX_SIGSTOP - 1) = false := by
  rcases rtSigreturn_cases sync t ctx w with ⟨hsame, hnot⟩ | ⟨p, frame, hreturns, heq⟩
  · exact ⟨fun _ p frame hreturns => absurd hreturns (hnot p frame),
      fun _ => h.of_sameControl hsame⟩
  rw [heq]
  have hiff : AllInForce (resetTcbSignalDelivery t
      (w.setBlocked p (userMaskToKernelMask frame.ucSigmask))) ↔
      AllInForce (w.setBlocked p (userMaskToKernelMask frame.ucSigmask)) := Iff.rfl
  rw [hiff, allInForce_setBlocked h, userMaskToKernelMask_unmaskable]
  constructor
  · intro hmask q frame' hq
    obtain rfl : frame' = frame := ok.inj (hq.read.symm.trans hreturns.read)
    exact hmask
  · intro hmask
    exact hmask p frame hreturns

/-! ## Runs -/

/-- The calls, with everything that the user or the machine chooses. -/
inductive Call where
  | sigaction (obj : PCBObject) (signo : ℕ) (action : Option SigAction)
  | sigmask (obj : PCBObject) (how : ℕ) (set : Option Word)
  | signal (obj : PCBObject) (signo : ℕ)
  | waitsig (obj : PCBObject) (mask : Word) (timeoutNs options : ℕ)
  | waitsigResume (p : ℕ) (mask : Word) (waitRes : Result Unit)
  | deliver (commit : Word → Frame → Result Unit) (t : ℕ) (ctx : Context)
  | rtSigreturn (sync : Word → Result Frame) (t : ℕ) (ctx : Context)

def Call.run : Call → SignalWorld → SignalWorld
  | .sigaction obj signo action, w => (obj.sigaction signo action w).2
  | .sigmask obj how set, w => (obj.sigmask how set w).2
  | .signal obj signo, w => (obj.signal signo w).2
  | .waitsig obj mask timeoutNs options, w => (obj.waitsig mask timeoutNs options w).2
  | .waitsigResume p mask waitRes, w => (Signal.waitsigResume p mask waitRes w).2
  | .deliver commit t ctx, w => (deliverSignalIfNeeded commit t ctx w).2
  | .rtSigreturn sync t ctx, w => (rtSigreturnCurrent sync t ctx w).2

/-- The call does not set a handler for the two signals, does not enter a handler whose action
masks them, and does not return from a frame that blocks `SIGSTOP`. -/
def Call.Guarded : Call → SignalWorld → Prop
  | .sigaction obj signo action, _ => obj.perm.imply SIGACTION = true → obj.pcb.isSome →
      Unmaskable signo → ∀ a, action = some a → a.handler = LINUX_SIG_DFL
  | .deliver _ t _, w => ∀ p signo, Enters w t p signo →
      ∀ i, Unmaskable i → ((w.signals p).actions signo).mask.getLsbD i = false
  | .rtSigreturn sync t ctx, w => ∀ p frame, Returns sync w t ctx p frame →
      frame.ucSigmask.getLsbD (LINUX_SIGSTOP - 1) = false
  | _, _ => True

theorem call_allInForce (c : Call) (h : AllInForce w) : AllInForce (c.run w) ↔ c.Guarded w := by
  cases c with
  | sigaction obj signo action => exact sigaction_allInForce h obj signo action
  | sigmask obj how set => exact iff_true_intro (sigmask_allInForce h obj how set)
  | signal obj signo => exact iff_true_intro (h.of_sameControl (signal_sameControl obj signo w))
  | waitsig obj mask timeoutNs options =>
    exact iff_true_intro (h.of_sameControl (waitsig_sameControl obj mask timeoutNs options w))
  | waitsigResume p mask waitRes =>
    exact iff_true_intro (h.of_sameControl (waitsigResume_sameControl p mask waitRes w))
  | deliver commit t ctx => exact deliver_allInForce h commit t ctx
  | rtSigreturn sync t ctx => exact rtSigreturn_allInForce h sync t ctx

/-- One step of the system: a call that is guarded, a new process, or anything that leaves
masks and actions alone. -/
inductive Step : SignalWorld → SignalWorld → Prop
  | call (c : Call) (w : SignalWorld) (hguard : c.Guarded w) : Step w (c.run w)
  | initPcb (p : ℕ) (pcb : Process) (w : SignalWorld)
      (hinit : pcb.signalState = SignalState.init) : Step w (w.setPcb p fun _ => pcb)
  | other (w w' : SignalWorld) (hsame : SameControl w w') : Step w w'

theorem step_allInForce (w w' : SignalWorld) (h : AllInForce w) (hstep : Step w w') :
    AllInForce w' := by
  cases hstep with
  | call c _ hguard => exact (call_allInForce c h).mpr hguard
  | initPcb p pcb _ hinit =>
    intro q
    by_cases hq : q = p
    · subst hq
      have heq : (w.setPcb q fun _ => pcb).signals q = pcb.signalState := by
        simp [signals, setPcb]
      rw [heq, hinit]
      exact inForce_init
    · have heq : (w.setPcb p fun _ => pcb).signals q = w.signals q := by
        simp [signals, setPcb, update_of_ne hq]
      rw [heq]
      exact h q
  | other _ _ hsame => exact h.of_sameControl hsame

/-- **`SIGKILL` and `SIGSTOP` stay in force** over exactly the guarded calls, and therefore in
every run of guarded calls. -/
theorem unmaskable_in_force (w : SignalWorld) :
    (∀ c : Call, AllInForce w → (AllInForce (c.run w) ↔ c.Guarded w)) ∧
    ∀ w' : SignalWorld, (∀ p, w.signals p = SignalState.init) →
      Relation.ReflTransGen Step w w' → AllInForce w' := by
  refine ⟨fun c h => call_allInForce c h, ?_⟩
  intro w' hinit hrun
  refine Transition.invariant step_allInForce hrun ?_
  intro p
  rw [hinit p]
  exact inForce_init

/-! ## Three ways to block or catch the signals -/

section Sample

/-- Linux processes with one thread each, before any call. -/
def oneThread : SignalWorld :=
  ⟨fun p => ⟨true, none, none, [p], 0, false, SignalState.init⟩,
    fun t => ⟨some t, false, false, false, 0, false, 0, 0⟩⟩

/-- The process of its own capability. -/
def self : PCBObject := ⟨Perm.allperm, some 0⟩

def userContext : Context := ⟨0x1000, fun _ => 0x8000, 0⟩

def handlerOf (mask : Word) : SigAction := ⟨0x2000, mask, LINUX_SA_RESTORER, 0x3000⟩

def runCalls (calls : List Call) : SignalWorld := calls.foldl (fun w c => c.run w) oneThread

/-- `SIGUSR1` is sent to a process with a handler for it. -/
def handled (mask : Word) : List Call :=
  [.sigaction self LINUX_SIGUSR1 (some (handlerOf mask)), .signal self LINUX_SIGUSR1,
    .deliver (fun _ _ => .ok ()) 0 userContext]

/-- The theorem for a handler that masks nothing. -/
theorem unmaskable_in_force_handled : AllInForce (runCalls (handled 0)) := by
  have hstart : AllInForce oneThread := fun _ => inForce_init
  have hmask : ∀ i, Unmaskable i →
      ((runCalls (handled 0 |>.take 2)).signals 0 |>.actions ⟨10, by decide⟩).mask.getLsbD i =
        false := by
    intro i _
    exact BitVec.getLsbD_zero
  refine ((unmaskable_in_force (runCalls ((handled 0).take 2))).1
    (.deliver (fun _ _ => .ok ()) 0 userContext) ?_).mpr ?_
  · refine ((unmaskable_in_force (runCalls ((handled 0).take 1))).1
      (.signal self LINUX_SIGUSR1) ?_).mpr trivial
    refine ((unmaskable_in_force oneThread).1
      (.sigaction self LINUX_SIGUSR1 (some (handlerOf 0))) hstart).mpr ?_
    intro _ _ hun
    rcases hun with hun | hun
    · cases hun
    · cases hun
  · intro p signo henters i hi
    obtain rfl : 0 = p := some.inj henters.task
    have hchosen : signo.val = 10 :=
      (ok.inj (henters.chosen.symm.trans (by decide :
        chooseDeliverableSignal ((runCalls ((handled 0).take 2)).signals 0) = .ok 10)))
    obtain rfl : signo = ⟨10, by decide⟩ := Fin.ext hchosen
    exact hmask i hi

/-- **The two signals can be caught and blocked**: by an action for `SIGKILL`, by the delivery
of a signal whose action masks both, and by a frame that blocks `SIGSTOP`. -/
theorem unmaskable_not_in_force :
    ((runCalls [.sigaction self LINUX_SIGKILL (some (handlerOf 0))]).signals 0 |>.actions
      ⟨LINUX_SIGKILL, by decide⟩).handler ≠ LINUX_SIG_DFL ∧
    ((runCalls (handled (BitVec.allOnes 64))).signals 0).blockedMask.getLsbD LINUX_SIGKILL = true ∧
    ((runCalls (handled (BitVec.allOnes 64))).signals 0).blockedMask.getLsbD LINUX_SIGSTOP = true ∧
    ((runCalls (handled 0 ++ [.rtSigreturn (fun _ => .ok ⟨⟨10, 0, 0⟩, BitVec.allOnes 64, 0x1000,
      fun _ => 0, 0, 0⟩) 0 userContext])).signals 0).blockedMask.getLsbD LINUX_SIGSTOP = true := by
  decide

end Sample

/-! ## Deliveries that fail -/

theorem firstSignalIndexFrom_spec : ∀ (fuel : ℕ) (bits : Word) (index : ℕ),
    (∃ i < fuel, bits.getLsbD i = true) →
      ∃ j, firstSignalIndexFrom fuel bits index = index + j ∧ bits.getLsbD j = true := by
  intro fuel
  induction fuel with
  | zero => rintro bits index ⟨i, hi, -⟩; cases hi
  | succ fuel ih =>
    rintro bits index ⟨i, hi, hbit⟩
    have hlow : (bits &&& 1 == 0) = !bits.getLsbD 0 := by
      rw [show bits &&& 1 = _ from BitVec.and_one_eq_setWidth_ofBool_getLsbD]
      cases bits.getLsbD 0 <;> rfl
    unfold firstSignalIndexFrom
    rw [hlow]
    cases h0 : bits.getLsbD 0 with
    | true => exact ⟨0, rfl, h0⟩
    | false =>
      obtain ⟨k, rfl⟩ : ∃ k, i = k + 1 :=
        Nat.exists_eq_succ_of_ne_zero fun hi0 => by rw [hi0, h0] at hbit; cases hbit
      obtain ⟨j, hj, hset⟩ := ih (bits >>> 1) (index + 1)
        ⟨k, by omega, by rw [BitVec.getLsbD_ushiftRight, add_comm]; exact hbit⟩
      rw [BitVec.getLsbD_ushiftRight, add_comm] at hset
      exact ⟨j + 1, by rw [Bool.not_false, if_pos rfl]; omega, hset⟩

theorem Enters.unblocked {t p : ℕ} {signo : Fin MAX_SIGNALS} (h : Enters w t p signo) :
    (w.signals p).blockedMask.getLsbD signo = false := by
  have hchosen := h.chosen
  unfold chooseDeliverableSignal at hchosen
  dsimp only at hchosen
  split at hchosen
  · cases hchosen
  rename_i hne
  have hsome : ∃ i < 64, ((w.signals p).pendingMask &&& ~~~(w.signals p).blockedMask).getLsbD i =
      true := by
    by_contra hnone
    refine hne (beq_iff_eq.mpr (BitVec.eq_of_getLsbD_eq fun i hi => ?_))
    have hclear := Bool.eq_false_iff.mpr fun hbit => hnone ⟨i, hi, hbit⟩
    exact hclear.trans BitVec.getLsbD_zero.symm
  obtain ⟨j, hj, hbit⟩ := firstSignalIndexFrom_spec 64 _ 0 hsome
  rw [zero_add] at hj
  rw [← ok.inj hchosen, firstSignalIndex, hj]
  rw [BitVec.getLsbD_and, BitVec.getLsbD_not, Bool.and_eq_true, Bool.and_eq_true,
    Bool.not_eq_true'] at hbit
  exact hbit.2.2

theorem Enters.unique {t p q : ℕ} {signo s : Fin MAX_SIGNALS} (h : Enters w t p signo)
    (h' : Enters w t q s) : p = q ∧ signo = s := by
  cases h.task.symm.trans h'.task
  exact ⟨rfl, Fin.ext (ok.inj (h.chosen.symm.trans h'.chosen))⟩

/-- A delivery that fails leaves the signals of every process as they were; it returns no context,
so the registers stay what they were. -/
def Harmless (w : SignalWorld) : Result Context × SignalWorld → Prop
  | (.ok _, _) => True
  | (.error _, w') => ∀ p, w'.signals p = w.signals p

/-- **A delivery that fails is harmless** exactly if there is none: the frame of every handler that
is entered can be written. -/
theorem failed_delivery_harmless (commit : Word → Frame → Result Unit) (t : ℕ) (ctx : Context)
    (w : SignalWorld) : Harmless w (deliverSignalIfNeeded commit t ctx w) ↔
      ∀ p signo, Enters w t p signo → frameAddr ctx ≠ 0 ∧ commit (frameAddr ctx)
        (makeFrame signo ctx (w.signals p).blockedMask (w.tcbs t).inSyscall) = .ok () := by
  rcases deliver_cases commit t ctx w with ⟨hok, -, hnot⟩ | ⟨p, signo, henters, heq⟩
  · rw [← Prod.mk.eta (p := deliverSignalIfNeeded commit t ctx w), hok]
    exact iff_of_true trivial fun p signo henters => absurd henters (hnot p signo)
  rw [heq]
  have hframe : ((w.clear p signo).signals p).blockedMask = (w.signals p).blockedMask :=
    (SameControl.clear w p signo p).1
  -- an error comes after the signal was blocked
  have hlost : ∀ e, ¬Harmless w (.error e, (w.clear p signo).setBlocked p
      ((w.signals p).blockedMask ||| ((w.signals p).actions signo).mask ||| bit signo)) := by
    intro e h
    have hmask := congrArg SignalState.blockedMask (h p)
    rw [setBlocked, signals_setSignals] at hmask
    have hbit : BitVec.getLsbD _ signo = (w.signals p).blockedMask.getLsbD signo :=
      congrArg (BitVec.getLsbD · signo.val) hmask
    rw [henters.unblocked, BitVec.getLsbD_or, getLsbD_bit] at hbit
    simp [signo.isLt] at hbit
  unfold enterHandler
  simp only [hframe]
  by_cases haddr : frameAddr ctx = 0
  · rw [if_pos (beq_iff_eq.mpr haddr)]
    exact iff_of_false (hlost _) fun h => (h p signo henters).1 haddr
  rw [if_neg (by simpa using haddr)]
  have htcb : (((w.clear p signo).setBlocked p ((w.signals p).blockedMask |||
      ((w.signals p).actions signo).mask ||| bit signo)).tcbs t).inSyscall =
      (w.tcbs t).inSyscall := rfl
  rw [htcb]
  cases hcommit : commit (frameAddr ctx)
      (makeFrame signo ctx (w.signals p).blockedMask (w.tcbs t).inSyscall) with
  | error e =>
    refine iff_of_false (hlost e) fun h => ?_
    rw [(h p signo henters).2] at hcommit
    cases hcommit
  | ok _ =>
    refine iff_of_true trivial fun q s hq => ⟨haddr, ?_⟩
    obtain ⟨rfl, rfl⟩ := henters.unique hq
    exact hcommit

/-- The user's stack cannot be written: `SIGUSR1` is not pending any more, and it is blocked. -/
theorem failed_delivery_loses_signal :
    let w := runCalls ((handled 0).take 2)
    let out := deliverSignalIfNeeded (fun _ _ => .error .outOfBoundary) 0 userContext w
    out.1.isOk = false ∧ (w.signals 0).pendingMask = bit LINUX_SIGUSR1 ∧
      (out.2.signals 0).pendingMask = 0 ∧ (w.signals 0).blockedMask = 0 ∧
      (out.2.signals 0).blockedMask = bit LINUX_SIGUSR1 := by
  decide

end Signal

end Sustcore
