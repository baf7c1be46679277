/-
# Signals of Linux processes (`kernel/task/signal.cpp`, `kernel/object/task.cpp`)

A process has a mask of pending signals, a mask of blocked signals and an action for each of
the 64 signals.  Four places compute the blocked mask: `sigmask`, the delivery of a signal to
a user handler, `rt_sigreturn`, which takes it from a frame in user memory, and the creation of
the process.  The actions are written by `sigaction` only.

The registers and the signal frame are those of riscv64.  User memory is not modelled: what
becomes of a frame that is written is the parameter `commit`, and `rt_sigreturn` gets the frame
that it reads from the user, who may have put anything there.  Wakeups of the waiting threads
are those of `Sustcore.Wakeup`; here a thread only keeps the marks that signals leave on it.
-/
import Sustcore.Capability

namespace Sustcore

open Function

namespace Signal

/-! ## Signal numbers and masks -/

abbrev Word := BitVec 64

def LINUX_SIG_DFL : Word := 0
def LINUX_SIG_IGN : Word := 1
def LINUX_SA_SIGINFO : Word := 0x00000004
def LINUX_SA_RESTORER : Word := 0x04000000

def LINUX_SIGKILL : ℕ := 9
def LINUX_SIGUSR1 : ℕ := 10
def LINUX_SIGSEGV : ℕ := 11
def LINUX_SIGTERM : ℕ := 15
def LINUX_SIGCHLD : ℕ := 17
def LINUX_SIGSTOP : ℕ := 19

/-- `SignalState::MAX_SIGNALS`. -/
abbrev MAX_SIGNALS : ℕ := 64

/-- `uint64_t(1) << signo`. -/
def bit (signo : ℕ) : Word := 1#64 <<< signo

def unmaskableSignalMask : Word := bit LINUX_SIGKILL ||| bit LINUX_SIGSTOP

/-- `user_mask_to_kernel_mask`: the kernel numbers the bits from signal 0, the user from
signal 1. -/
def userMaskToKernelMask (mask : Word) : Word := (mask <<< 1) &&& ~~~bit LINUX_SIGKILL

def kernelMaskToUserMask (mask : Word) : Word := mask >>> 1

def isDefaultIgnoredSignal (signo : ℕ) : Bool := signo == LINUX_SIGCHLD

def isDefaultTerminatingSignal (signo : ℕ) : Bool :=
  signo == LINUX_SIGTERM || signo == LINUX_SIGKILL || signo == LINUX_SIGSEGV

def defaultExitCodeForSignal (signo : ℕ) : ℕ := 128 + signo

/-- The loop of `first_signal_index`, which is called with a word that is not zero only. -/
def firstSignalIndexFrom : ℕ → Word → ℕ → ℕ
  | 0, _, index => index
  | fuel + 1, bits, index =>
    if bits &&& 1 == 0 then firstSignalIndexFrom fuel (bits >>> 1) (index + 1) else index

def firstSignalIndex (bits : Word) : ℕ := firstSignalIndexFrom 64 bits 0

@[simp]
theorem getLsbD_bit (signo i : ℕ) :
    (bit signo).getLsbD i = (decide (i < 64) && decide (i = signo)) := by
  unfold bit
  rw [BitVec.getLsbD_shiftLeft]
  by_cases hi : i < 64
  · by_cases heq : i = signo
    · subst heq
      simp [hi]
    · by_cases hlt : i < signo
      · simp [hlt, heq]
      · have hsub : i - signo ≠ 0 := by omega
        simp [heq, BitVec.getLsbD_one, hsub]
  · simp [hi]

@[simp]
theorem getLsbD_unmaskableSignalMask (i : ℕ) : unmaskableSignalMask.getLsbD i =
    (decide (i = LINUX_SIGKILL) || decide (i = LINUX_SIGSTOP)) := by
  unfold unmaskableSignalMask
  rw [BitVec.getLsbD_or, getLsbD_bit, getLsbD_bit]
  by_cases hi : i < 64
  · simp [hi]
  have hkill : i ≠ LINUX_SIGKILL := by
    unfold LINUX_SIGKILL
    omega
  have hstop : i ≠ LINUX_SIGSTOP := by
    unfold LINUX_SIGSTOP
    omega
  simp [hkill, hstop]

/-! ## Processes and threads -/

structure SigAction where
  handler : Word
  mask : Word
  flags : Word
  restorer : Word
  deriving DecidableEq, Repr

/-- The value of a new `SigAction`. -/
def SigAction.init : SigAction := ⟨LINUX_SIG_DFL, 0, 0, 0⟩

structure SignalState where
  pendingMask : Word
  blockedMask : Word
  actions : Fin MAX_SIGNALS → SigAction

/-- The value that `init_pcb` leaves. -/
def SignalState.init : SignalState := ⟨0, 0, fun _ => SigAction.init⟩

/-- The fields of `PCB` that signals use; `pcbCap` are the permissions of the capability that
the process holds for itself, if it can be looked up. -/
structure Process where
  isLinuxProcess : Bool
  parent : Option ℕ
  pcbCap : Option Perm
  threads : List ℕ
  exitCode : ℕ
  exiting : Bool
  signalState : SignalState

/-- The fields of `TCB` that signals use; `inSyscall` says that a system call is executing or
completed. -/
structure Thread where
  task : Option ℕ
  dying : Bool
  inSyscall : Bool
  signalInterrupted : Bool
  interruptedSignal : ℕ
  signalDeliveryActive : Bool
  signalDeliverySigno : ℕ
  signalFrameUserSp : Word

end Signal

/-- All processes and threads. -/
structure SignalWorld where
  pcbs : ℕ → Signal.Process
  tcbs : ℕ → Signal.Thread

namespace SignalWorld

open Signal

def setPcb (p : ℕ) (f : Process → Process) (w : SignalWorld) : SignalWorld :=
  { w with pcbs := update w.pcbs p (f (w.pcbs p)) }

def setTcb (t : ℕ) (f : Thread → Thread) (w : SignalWorld) : SignalWorld :=
  { w with tcbs := update w.tcbs t (f (w.tcbs t)) }

def signals (w : SignalWorld) (p : ℕ) : SignalState := (w.pcbs p).signalState

def setSignals (p : ℕ) (f : SignalState → SignalState) (w : SignalWorld) : SignalWorld :=
  w.setPcb p fun pcb => { pcb with signalState := f pcb.signalState }

/-- `pending_mask |= bit`. -/
def raise (p signo : ℕ) (w : SignalWorld) : SignalWorld :=
  w.setSignals p fun s => { s with pendingMask := s.pendingMask ||| bit signo }

/-- `pending_mask &= ~bit`. -/
def clear (p signo : ℕ) (w : SignalWorld) : SignalWorld :=
  w.setSignals p fun s => { s with pendingMask := s.pendingMask &&& ~~~bit signo }

/-- `blocked_mask = mask`. -/
def setBlocked (p : ℕ) (mask : Word) (w : SignalWorld) : SignalWorld :=
  w.setSignals p fun s => { s with blockedMask := mask }

theorem signals_setPcb (w : SignalWorld) (p : ℕ) {f : Process → Process}
    (hf : ∀ pcb, (f pcb).signalState = pcb.signalState) (q : ℕ) :
    (w.setPcb p f).signals q = w.signals q := by
  unfold signals setPcb
  by_cases hq : q = p
  · subst hq
    simp only [update_self, hf]
  · simp only [update_of_ne hq]

@[simp]
theorem signals_setSignals (w : SignalWorld) (p : ℕ) (f : SignalState → SignalState) :
    (w.setSignals p f).signals p = f (w.signals p) := by
  simp [signals, setSignals, setPcb]

theorem signals_setSignals_of_ne (w : SignalWorld) {p q : ℕ} (hq : q ≠ p)
    (f : SignalState → SignalState) : (w.setSignals p f).signals q = w.signals q := by
  simp [signals, setSignals, setPcb, update_of_ne hq]

end SignalWorld

namespace Signal

open SignalWorld

/-! ## The calls of `PCBObject` -/

def SIGACTION : Perm := 0x800000
def SIGNAL : Perm := 0x1000000
def WAITSIG : Perm := 0x2000000

def LINUX_SIG_BLOCK : ℕ := 0
def LINUX_SIG_UNBLOCK : ℕ := 1
def LINUX_SIG_SETMASK : ℕ := 2

/-- `PCBObject`: the permissions of the capability and the process of its payload. -/
structure PCBObject where
  perm : Perm
  pcb : Option ℕ

/-- `PCBObject::sigaction`; the result is `*old_action`. -/
def PCBObject.sigaction (obj : PCBObject) (signo : ℕ) (action : Option SigAction)
    (w : SignalWorld) : Result SigAction × SignalWorld :=
  if !obj.perm.imply SIGACTION then (.error .insufficientPermissions, w)
  else
    match obj.pcb with
    | none => (.error .invalidParam, w)
    | some p =>
      if hsigno : signo < MAX_SIGNALS then
        let old := (w.signals p).actions ⟨signo, hsigno⟩
        match action with
        | none => (.ok old, w)
        | some a => (.ok old, w.setSignals p fun s =>
          { s with actions := update s.actions ⟨signo, hsigno⟩ a })
      else (.error .invalidParam, w)

/-- `PCBObject::sigmask`; the result is `*oldset`. -/
def PCBObject.sigmask (obj : PCBObject) (how : ℕ) (set : Option Word) (w : SignalWorld) :
    Result Word × SignalWorld :=
  if !obj.perm.imply SIGACTION then (.error .insufficientPermissions, w)
  else
    match obj.pcb with
    | none => (.error .nullptr, w)
    | some p =>
      let oldMask := (w.signals p).blockedMask
      match set with
      | none => (.ok oldMask, w)
      | some set =>
        let requestedMask := set &&& ~~~unmaskableSignalMask
        if how = LINUX_SIG_BLOCK then (.ok oldMask, w.setBlocked p (oldMask ||| requestedMask))
        else if how = LINUX_SIG_UNBLOCK then
          (.ok oldMask, w.setBlocked p (oldMask &&& ~~~requestedMask))
        else if how = LINUX_SIG_SETMASK then (.ok oldMask, w.setBlocked p requestedMask)
        else (.error .invalidParam, w)

def mainSignalTarget (p : ℕ) (w : SignalWorld) : Option ℕ :=
  (w.pcbs p).threads.find? fun t => !(w.tcbs t).dying

def markTcbSignalInterrupt (t signo : ℕ) (w : SignalWorld) : SignalWorld :=
  w.setTcb t fun tcb => { tcb with signalInterrupted := true, interruptedSignal := signo }

/-- `PCBObject::signal`. -/
def PCBObject.signal (obj : PCBObject) (signo : ℕ) (w : SignalWorld) : Result Unit × SignalWorld :=
  if !obj.perm.imply SIGNAL then (.error .insufficientPermissions, w)
  else
    match obj.pcb with
    | none => (.error .invalidParam, w)
    | some p =>
      if signo < MAX_SIGNALS then
        let w := w.raise p signo
        match mainSignalTarget p w with
        | none => (.ok (), w)
        | some t => (.ok (), markTcbSignalInterrupt t signo w)
      else (.error .invalidParam, w)

/-- The part of `waitsig` before and after its wait: take a pending signal of the mask. -/
def takePending (p : ℕ) (mask : Word) (w : SignalWorld) : Option ℕ × SignalWorld :=
  let pending := (w.signals p).pendingMask &&& mask
  if pending == 0 then (none, w)
  else
    let signo := firstSignalIndex pending
    (some signo, w.clear p signo)

/-- `PCBObject::waitsig` up to its wait, for which it returns `none`. -/
def PCBObject.waitsig (obj : PCBObject) (mask : Word) (timeoutNs options : ℕ) (w : SignalWorld) :
    Result (Option ℕ) × SignalWorld :=
  if !obj.perm.imply WAITSIG then (.error .insufficientPermissions, w)
  else
    match obj.pcb with
    | none => (.error .invalidParam, w)
    | some p =>
      if options ≠ 0 then (.error .invalidParam, w)
      else
        match takePending p mask w with
        | (some signo, w) => (.ok (some signo), w)
        | (none, w) => if timeoutNs = 0 then (.error .timeout, w) else (.ok none, w)

/-- The rest of `waitsig`, after the wait has returned. -/
def waitsigResume (p : ℕ) (mask : Word) (waitRes : Result Unit) (w : SignalWorld) :
    Result ℕ × SignalWorld :=
  match waitRes with
  | .error e =>
    if e ≠ .interrupted then (.error e, w)
    else
      match takePending p mask w with
      | (some signo, w) => (.ok signo, w)
      | (none, w) => (.error e, w)
  | .ok () =>
    match takePending p mask w with
    | (some signo, w) => (.ok signo, w)
    | (none, w) => (.error .failure, w)

/-! ## The end of a process -/

def notifyParentSigchld (p : ℕ) (w : SignalWorld) : SignalWorld :=
  if !(w.pcbs p).isLinuxProcess then w
  else
    match (w.pcbs p).parent with
    | none => w
    | some parent =>
      match (w.pcbs parent).isLinuxProcess, (w.pcbs parent).pcbCap with
      | true, some perm => ((PCBObject.mk perm (some parent)).signal LINUX_SIGCHLD w).2
      | _, _ => w

/-- `kill_pcb_impl`, without the run queues. -/
def killPcbImpl (p exitCode : ℕ) (w : SignalWorld) : SignalWorld :=
  let w := w.setPcb p fun pcb => { pcb with exitCode := exitCode }
  if (w.pcbs p).exiting then w
  else
    let w := notifyParentSigchld p (w.setPcb p fun pcb => { pcb with exiting := true })
    (w.pcbs p).threads.foldl (fun w t => w.setTcb t fun tcb => { tcb with dying := true }) w

/-! ## Signal frames -/

/-- The general registers of riscv64. -/
inductive Reg where
  | ra | sp | gp | tp
  | t0 | t1 | t2 | t3 | t4 | t5 | t6
  | s0 | s1 | s2 | s3 | s4 | s5 | s6 | s7 | s8 | s9 | s10 | s11
  | a0 | a1 | a2 | a3 | a4 | a5 | a6 | a7
  deriving DecidableEq, Repr

structure Context where
  pc : Word
  regs : Reg → Word
  sstatus : Word

/-- `linux_siginfo_t`. -/
structure Siginfo where
  siSigno : ℕ
  siErrno : ℕ
  siCode : ℕ
  deriving DecidableEq, Repr

/-- `linux_riscv64_frame`: `uc_sigmask` and `sc_regs` of its `ucontext`, and the two words
behind it. -/
structure Frame where
  info : Siginfo
  ucSigmask : Word
  pc : Word
  regs : Reg → Word
  flags : Word
  syscallPc : Word

def LINUX_FRAME_FROM_SYSCALL : Word := 1
def LINUX_USER_STATUS_BITS : Word := bit 18 ||| bit 13 ||| bit 5
def LINUX_SYSCALL_INS_LEN : Word := 4

/-- `sizeof(linux_riscv64_frame)`. -/
def FRAME_SIZE : Word := 1104

/-- `offsetof(linux_riscv64_frame, info)`. -/
def INFO_OFFSET : Word := 0

/-- `offsetof(linux_riscv64_frame, ucontext)`. -/
def UCONTEXT_OFFSET : Word := 128

def fillUserSiginfo (signo : ℕ) : Siginfo := ⟨signo, 0, 0⟩

/-- The frame for a signal, with `fill_ucontext`. -/
def makeFrame (signo : ℕ) (ctx : Context) (oldMask : Word) (fromSyscall : Bool) : Frame :=
  { info := fillUserSiginfo signo
    ucSigmask := kernelMaskToUserMask oldMask
    pc := ctx.pc
    regs := ctx.regs
    flags := if fromSyscall then LINUX_FRAME_FROM_SYSCALL else 0
    syscallPc := if fromSyscall then ctx.pc else 0 }

def restoreContext (frame : Frame) : Context := ⟨frame.pc, frame.regs, LINUX_USER_STATUS_BITS⟩

/-! ## Delivery -/

def isUserHandler (action : SigAction) : Bool :=
  action.handler != LINUX_SIG_DFL && action.handler != LINUX_SIG_IGN

def hasRestorer (action : SigAction) : Bool :=
  action.flags &&& LINUX_SA_RESTORER != 0 && action.restorer != 0

def chooseDeliverableSignal (s : SignalState) : Result ℕ :=
  let pending := s.pendingMask &&& ~~~s.blockedMask
  if pending == 0 then .error .entryNotFound else .ok (firstSignalIndex pending)

/-- The address of the frame below the stack pointer. -/
def frameAddr (ctx : Context) : Word := (ctx.regs .sp - FRAME_SIZE) &&& ~~~0xF

def handlerContext (signo : ℕ) (action : SigAction) (ctx : Context) : Context :=
  let addr := frameAddr ctx
  let siginfo := action.flags &&& LINUX_SA_SIGINFO != 0
  { pc := action.handler
    regs := fun
      | .sp => addr
      | .ra => action.restorer
      | .a0 => BitVec.ofNat 64 signo
      | .a1 => if siginfo then addr + INFO_OFFSET else 0
      | .a2 => if siginfo then addr + UCONTEXT_OFFSET else 0
      | r => ctx.regs r
    sstatus := LINUX_USER_STATUS_BITS }

/-- The last part of `deliver_signal_if_needed`: the signal is blocked with the mask of its
action, and the thread goes to the handler. -/
def enterHandler (commit : Word → Frame → Result Unit) (t p signo : ℕ) (action : SigAction)
    (ctx : Context) (w : SignalWorld) : Result Context × SignalWorld :=
  let w := w.clear p signo
  let oldMask := (w.signals p).blockedMask
  let newMask := oldMask ||| action.mask ||| bit signo
  let w := w.setBlocked p newMask
  let frame := makeFrame signo ctx oldMask (w.tcbs t).inSyscall
  let addr := frameAddr ctx
  if addr == 0 then (.error .outOfBoundary, w)
  else
    match commit addr frame with
    | .error e => (.error e, w)
    | .ok () =>
      (.ok (handlerContext signo action ctx), w.setTcb t fun tcb =>
        { tcb with
          signalDeliveryActive := true
          signalDeliverySigno := signo
          signalFrameUserSp := addr })

def deliverSignalIfNeeded (commit : Word → Frame → Result Unit) (t : ℕ) (ctx : Context)
    (w : SignalWorld) : Result Context × SignalWorld :=
  match (w.tcbs t).task with
  | none => (.ok ctx, w)
  | some p =>
    if !(w.pcbs p).isLinuxProcess || (w.tcbs t).signalDeliveryActive then (.ok ctx, w)
    else
      match chooseDeliverableSignal (w.signals p) with
      | .error _ => (.ok ctx, w)
      | .ok signo =>
        if hsigno : signo < MAX_SIGNALS then
          let action := (w.signals p).actions ⟨signo, hsigno⟩
          if action.handler = LINUX_SIG_IGN then (.ok ctx, w.clear p signo)
          else if action.handler = LINUX_SIG_DFL then
            let w := w.clear p signo
            if isDefaultIgnoredSignal signo then (.ok ctx, w)
            else if isDefaultTerminatingSignal signo then
              (.ok ctx, killPcbImpl p (defaultExitCodeForSignal signo) w)
            else (.ok ctx, w)
          else if !isUserHandler action then (.ok ctx, w)
          else if !hasRestorer action then (.ok ctx, w)
          else enterHandler commit t p signo action ctx w
        else (.ok ctx, w)

def resetTcbSignalDelivery (t : ℕ) (w : SignalWorld) : SignalWorld :=
  w.setTcb t fun tcb =>
    { tcb with signalDeliveryActive := false, signalDeliverySigno := 0, signalFrameUserSp := 0 }

/-- The context that `rt_sigreturn` restores: a system call that the signal interrupted is not
made again. -/
def returnContext (frame : Frame) : Context :=
  let ctx := restoreContext frame
  if frame.flags &&& LINUX_FRAME_FROM_SYSCALL != 0 && ctx.pc == frame.syscallPc then
    { ctx with pc := ctx.pc + LINUX_SYSCALL_INS_LEN }
  else ctx

/-- `rt_sigreturn_current`; `sync` is what `sync_from_user` reads at an address. -/
def rtSigreturnCurrent (sync : Word → Result Frame) (t : ℕ) (ctx : Context) (w : SignalWorld) :
    Result (Word × Context) × SignalWorld :=
  match (w.tcbs t).task with
  | none => (.error .invalidParam, w)
  | some p =>
    if !(w.pcbs p).isLinuxProcess then (.error .invalidParam, w)
    else if !(w.tcbs t).signalDeliveryActive || (w.tcbs t).signalFrameUserSp == 0 then
      (.error .invalidParam, w)
    else if ctx.regs .sp &&& 0xF != 0 then
      (.error .failure, killPcbImpl p (defaultExitCodeForSignal LINUX_SIGSEGV) w)
    else
      match sync (ctx.regs .sp) with
      | .error e => (.error e, killPcbImpl p (defaultExitCodeForSignal LINUX_SIGSEGV) w)
      | .ok frame =>
        let w := w.setBlocked p (userMaskToKernelMask frame.ucSigmask)
        (.ok (frame.regs .a0, returnContext frame), resetTcbSignalDelivery t w)

end Signal

end Sustcore
