/-
# A pipe is a byte stream

A call moves its bytes first and wakes the other side up afterwards, and an error of the
wakeup becomes the error of the call.  A wakeup fails on a thread of the queue that does not
wait, and a killed thread stays in its queue: a write that meets one reports a failure for
bytes that a later read returns (`pipe_unreliable`).

In the runs of reads, writes, openings and closings of ends in which no thread that waits at
the pipe is killed and no thread is lost, the wakeups do not fail.  There the bytes that the
reads return are a prefix of the bytes that the writes accept; a read reports the end of the
stream only when the buffer is empty and all write ends are closed, and a write is refused as
a broken pipe only when all read ends are closed (`pipe_reliable`).
-/
import Sustcore.Pipe

namespace Sustcore

open PipePayload PipeState List Except Relation

/-- A pipe with what its readers and writers have been told so far. -/
structure PipeRun where
  state : PipeState
  accepted : List UInt8
  returned : List UInt8

namespace PipeRun

/-- A pipe without ends, on a machine without threads; the next wait descriptor is `n + 1`. -/
def init (capacity : ℕ) (memory : ℕ → UInt8) (allocated : Bool) (n : ℕ) : PipeRun where
  state :=
    { pipe := ⟨RingBuffer.create (capacity + 1) memory allocated, 0, 0, n + 1, n + 2⟩
      ends := []
      sched := Sched.boot }
  accepted := []
  returned := []

def bytesRead : Result (Option (List UInt8)) → List UInt8
  | .ok (some bytes) => bytes
  | _ => []

/-- The bytes of the data that a write accepts. -/
def bytesWritten (data : List UInt8) : Result (Option ℕ) → List UInt8
  | .ok (some written) => data.take written
  | _ => []

/-- A thread call that meets the conditions under which no thread is lost, and does not kill a
thread that waits at the pipe. -/
def Meets (s : PipeRun) (call : ThreadCall) : Prop :=
  call.Meets s.state.sched ∧
    ∀ t, call = .kill t → t ∉ s.state.sched.queues s.state.pipe.readableWd ∧
      t ∉ s.state.sched.queues s.state.pipe.writableWd

/-- The steps of a run.  In a `guarded` run the thread calls meet the conditions. -/
inductive Step (guarded : Prop) : PipeRun → PipeRun → Prop
  | thread (s : PipeRun) (call : ThreadCall) (sched : Sched)
      (hpossible : call.Possible s.state.sched) (hmeets : guarded → s.Meets call)
      (hrun : call.run s.state.sched = .ok sched) :
      Step guarded s { s with state := { s.state with sched := sched } }
  | openEnd (s : PipeRun) (side : PipeSide) (nonblock : Bool) :
      Step guarded s { s with state := s.state.openEnd side nonblock }
  | destruct (s : PipeRun) (holds : ℕ → Bool) (e : ℕ) (r : Result Unit) (state : PipeState)
      (hcall : destruct holds e s.state = .ok (r, state)) :
      Step guarded s { s with state := state }
  | read (s : PipeRun) (holds : ℕ → Bool) (perm : Perm) (e : ℕ) (bufNull : Bool) (len : ℕ)
      (r : Result (Option (List UInt8))) (state : PipeState)
      (hcall : read holds perm e bufNull len s.state = .ok (r, state)) :
      Step guarded s { s with state := state, returned := s.returned ++ bytesRead r }
  | write (s : PipeRun) (holds : ℕ → Bool) (perm : Perm) (e : ℕ) (bufNull : Bool)
      (data : List UInt8) (r : Result (Option ℕ)) (state : PipeState)
      (hcall : write holds perm e bufNull data s.state = .ok (r, state)) :
      Step guarded s { s with state := state, accepted := s.accepted ++ bytesWritten data r }

end PipeRun

namespace PipeState

variable {s s' : PipeState} {holds : ℕ → Bool} {wd e : ℕ} {side : PipeSide}

def openEnds (s : PipeState) (side : PipeSide) : ℕ :=
  s.ends.countP fun p => decide (p.side = side ∧ p.closed = false)

/-- The threads are in their places, those that wait at the pipe are alive, and the pipe
counts its open ends. -/
structure Wf (s : PipeState) : Prop where
  settled : s.sched.Settled
  readable_ne : s.pipe.readableWd ≠ 0
  writable_ne : s.pipe.writableWd ≠ 0
  readers : Sched.NoneDying s.pipe.readableWd s.sched
  writers : Sched.NoneDying s.pipe.writableWd s.sched
  counts : ∀ side, s.pipe.endCount side = s.openEnds side

/-- The threads move, and the pipe stays as it is. -/
theorem Wf.sched (h : s.Wf) {sched : Sched} (hsettled : sched.Settled)
    (hcalm : s.sched.Calm Set.univ sched) : { s with sched := sched }.Wf :=
  ⟨hsettled, h.readable_ne, h.writable_ne, hcalm.noneDying h.readers, hcalm.noneDying h.writers,
    h.counts⟩

theorem Wf.buffer (h : s.Wf) (b : RingBuffer UInt8) :
    { s with pipe := { s.pipe with buffer := b } }.Wf :=
  ⟨h.settled, h.readable_ne, h.writable_ne, h.readers, h.writers, fun side => by
    cases side with
    | readEnd => exact h.counts .readEnd
    | writeEnd => exact h.counts .writeEnd⟩

/-- **The wakeups of a pipe succeed.** -/
theorem Wf.wakeAllIgnoringEmpty (holds : ℕ → Bool) (h : s.Wf) (hwd : wd ≠ 0)
    (hnone : Sched.NoneDying wd s.sched) :
    ∃ sched, wakeAllIgnoringEmpty holds wd s = (.ok (), { s with sched := sched }) ∧
      { s with sched := sched }.Wf := by
  obtain ⟨n, hok⟩ := h.settled.wakeAll_isOk holds hwd hnone
  have hcalm : s.sched.Calm Set.univ (s.sched.wakeAll holds wd).2 := Sched.Calm.wakeAll
  obtain ⟨hinv, hcurrent⟩ := Sched.Inv.wakeAll holds wd h.settled
  refine ⟨(s.sched.wakeAll holds wd).2, ?_, h.sched ?_ hcalm⟩
  · unfold PipeState.wakeAllIgnoringEmpty
    cases hwake : s.sched.wakeAll holds wd with
    | mk r sched =>
      rw [hwake] at hok
      obtain rfl : r = .ok n := hok
      rfl
  · unfold Sched.Settled
    rwa [hcurrent]

theorem Wf.finish {α : Type} {done : α} {r : Result (Option α)} (h : s.Wf) (hwd : wd ≠ 0)
    (hnone : Sched.NoneDying wd s.sched) (hcall : finish holds wd done s = .ok (r, s')) :
    s'.Wf ∧ s'.pipe = s.pipe ∧ r = .ok (some done) := by
  obtain ⟨sched, hwake, hwf⟩ := h.wakeAllIgnoringEmpty holds hwd hnone
  unfold PipeState.finish at hcall
  rw [hwake] at hcall
  cases hcall
  exact ⟨hwf, rfl, rfl⟩

theorem Wf.lockedWaitEvent {α : Type} {ready : Bool} {r : Result (Option α)} (h : s.Wf)
    (hcall : lockedWaitEvent wd ready s = .ok (r, s')) :
    s'.Wf ∧ s'.pipe = s.pipe ∧ (r = .ok none ∨ r = .error .invalidParam) := by
  obtain ⟨⟨r', sched⟩, hwait, hrest⟩ := bind_eq_ok_iff.mp hcall
  cases hrest
  have hsettled : sched.Settled := by
    refine h.settled.waitEvent ?_ hwait
    cases ready with
    | true => exact .inl rfl
    | false => exact .inr rfl
  refine ⟨h.sched hsettled (Sched.Calm.waitEvent trivial hwait), rfl, ?_⟩
  cases r' with
  | ok => exact .inl rfl
  | error e =>
    obtain rfl := Sched.waitEvent_error hwait
    exact .inr rfl

/-! ## The calls -/

theorem Wf.readRound {nonblock : Bool} {len : ℕ} {r : Result (Option (List UInt8))} (h : s.Wf)
    (hlen : len ≠ 0) (hcall : readRound holds nonblock len s = .ok (r, s')) :
    s'.Wf ∧ s.pipe.buffer.contents = PipeRun.bytesRead r ++ s'.pipe.buffer.contents ∧
      (r = .ok (some []) → s.pipe.buffer.contents = [] ∧ s.pipe.writeEnds = 0) := by
  have hwait : PipeState.lockedWaitEvent s.pipe.readableWd s.pipe.readableReady s = .ok (r, s') →
      s'.Wf ∧ s.pipe.buffer.contents = PipeRun.bytesRead r ++ s'.pipe.buffer.contents ∧
        (r = .ok (some []) → s.pipe.buffer.contents = [] ∧ s.pipe.writeEnds = 0) := by
    intro hcall
    obtain ⟨hwf, hpipe, hr⟩ := h.lockedWaitEvent hcall
    refine ⟨hwf, ?_, ?_⟩
    · rw [hpipe]
      rcases hr with rfl | rfl
      · rfl
      · rfl
    · rintro rfl
      rcases hr with hr | hr
      · cases hr
      · cases hr
  unfold PipeState.readRound at hcall
  by_cases hempty : s.pipe.buffer.empty = true
  · rw [hempty, if_neg (by decide)] at hcall
    split at hcall
    · rename_i hends
      cases hcall
      exact ⟨h, rfl, fun _ => ⟨RingBuffer.empty_iff.mp hempty, hends⟩⟩
    split at hcall
    · cases hcall
      exact ⟨h, rfl, nofun⟩
    · exact hwait hcall
  · -- the buffer holds bytes, so the loop takes some
    have hcontents : s.pipe.buffer.contents ≠ [] := fun hnil =>
      hempty (RingBuffer.empty_iff.mpr hnil)
    rw [Bool.not_eq_true] at hempty
    obtain ⟨bytes, b, hdrain, hsplit, htaken⟩ := drain_spec len s.pipe.buffer
    have hbytes : bytes ≠ [] := by
      intro hnil
      rcases htaken hnil with hzero | hnil
      · exact hlen hzero
      · exact hcontents hnil
    rw [hempty, if_pos (by decide), hdrain] at hcall
    simp only at hcall
    rw [if_pos hbytes] at hcall
    have hwf := h.buffer b
    obtain ⟨hwf', hpipe, rfl⟩ := hwf.finish hwf.writable_ne hwf.writers hcall
    refine ⟨hwf', ?_, ?_⟩
    · rwa [hpipe]
    · intro hr
      exact absurd (Option.some.inj (ok.inj hr)) hbytes

/-- **`read`** returns the first bytes of the buffer, and none only at the end. -/
theorem Wf.read {perm : Perm} {bufNull : Bool} {len : ℕ} {r : Result (Option (List UInt8))}
    (h : s.Wf) (hcall : read holds perm e bufNull len s = .ok (r, s')) :
    s'.Wf ∧ s.pipe.buffer.contents = PipeRun.bytesRead r ++ s'.pipe.buffer.contents ∧
      (len ≠ 0 → r = .ok (some []) → s.pipe.buffer.contents = [] ∧ s.pipe.writeEnds = 0) := by
  unfold PipeState.read at hcall
  split at hcall
  · cases hcall
    exact ⟨h, rfl, fun _ => nofun⟩
  split at hcall
  · cases hcall
    exact ⟨h, rfl, fun _ => nofun⟩
  split at hcall
  · rename_i hlen
    cases hcall
    exact ⟨h, rfl, fun hne => absurd hlen hne⟩
  rename_i hlen
  split at hcall
  · cases hcall
    exact ⟨h, rfl, fun _ => nofun⟩
  split at hcall
  · cases hcall
    exact ⟨h, rfl, fun _ => nofun⟩
  · obtain ⟨hwf, hcontents, hend⟩ := h.readRound hlen hcall
    exact ⟨hwf, hcontents, fun _ => hend⟩

theorem Wf.writeRound {nonblock : Bool} {byte : UInt8} {rest : List UInt8}
    {r : Result (Option ℕ)} (h : s.Wf)
    (hcall : writeRound holds nonblock (byte :: rest) s = .ok (r, s')) :
    s'.Wf ∧ s'.pipe.buffer.contents =
        s.pipe.buffer.contents ++ PipeRun.bytesWritten (byte :: rest) r ∧
      (r = .error .brokenPipe → s.pipe.readEnds = 0) := by
  unfold PipeState.writeRound at hcall
  split at hcall
  · rename_i hends
    cases hcall
    exact ⟨h, (append_nil _).symm, fun _ => hends⟩
  split at hcall
  · by_cases hcapacity : s.pipe.buffer.capacity = 0
    · rw [fill_of_no_memory hcapacity] at hcall
      cases hcall
      exact ⟨h.buffer _, (append_nil _).symm, nofun⟩
    obtain ⟨written, b, hfill, hcontents⟩ := fill_spec (byte :: rest) hcapacity
    rw [hfill] at hcall
    simp only at hcall
    have hwf := h.buffer b
    split at hcall
    · obtain ⟨hwf', hpipe, rfl⟩ := hwf.finish hwf.readable_ne hwf.readers hcall
      refine ⟨hwf', ?_, nofun⟩
      rwa [hpipe]
    rename_i hzero
    rw [not_not] at hzero
    obtain ⟨hwf', hpipe, hr⟩ := hwf.lockedWaitEvent hcall
    have hsame : b.contents = s.pipe.buffer.contents := by
      rw [hcontents, hzero, take_zero, append_nil]
    rw [hpipe]
    rcases hr with rfl | rfl
    · exact ⟨hwf', hsame.trans (append_nil _).symm, nofun⟩
    · exact ⟨hwf', hsame.trans (append_nil _).symm, nofun⟩
  split at hcall
  · cases hcall
    exact ⟨h, (append_nil _).symm, nofun⟩
  obtain ⟨hwf', hpipe, hr⟩ := h.lockedWaitEvent hcall
  rw [hpipe]
  rcases hr with rfl | rfl
  · exact ⟨hwf', (append_nil _).symm, nofun⟩
  · exact ⟨hwf', (append_nil _).symm, nofun⟩

/-- **`write`** appends what it accepts to the buffer. -/
theorem Wf.write {perm : Perm} {bufNull : Bool} {data : List UInt8} {r : Result (Option ℕ)}
    (h : s.Wf) (hcall : write holds perm e bufNull data s = .ok (r, s')) :
    s'.Wf ∧ s'.pipe.buffer.contents = s.pipe.buffer.contents ++ PipeRun.bytesWritten data r ∧
      (r = .error .brokenPipe → s.pipe.readEnds = 0) := by
  unfold PipeState.write at hcall
  split at hcall
  · cases hcall
    exact ⟨h, (append_nil _).symm, nofun⟩
  split at hcall
  · cases hcall
    exact ⟨h, (append_nil _).symm, nofun⟩
  split at hcall
  · cases hcall
    refine ⟨h, ?_, nofun⟩
    show _ = _ ++ data.take 0
    rw [take_zero, append_nil]
  rename_i hlen
  split at hcall
  · cases hcall
    exact ⟨h, (append_nil _).symm, nofun⟩
  split at hcall
  · cases hcall
    exact ⟨h, (append_nil _).symm, nofun⟩
  · cases data with
    | nil => exact absurd rfl hlen
    | cons byte rest => exact h.writeRound hcall

theorem endCount_setEndCount (p : PipePayload) (side other : PipeSide) (n : ℕ) :
    (p.setEndCount side n).endCount other = if other = side then n else p.endCount other := by
  cases side <;> cases other <;> rfl

theorem Wf.openEnd (h : s.Wf) (side : PipeSide) (nonblock : Bool) :
    (s.openEnd side nonblock).Wf ∧ (s.openEnd side nonblock).pipe.buffer = s.pipe.buffer := by
  have hpipe : (s.openEnd side nonblock).pipe.readableWd = s.pipe.readableWd ∧
      (s.openEnd side nonblock).pipe.writableWd = s.pipe.writableWd ∧
      (s.openEnd side nonblock).pipe.buffer = s.pipe.buffer := by
    cases side with
    | readEnd => exact ⟨rfl, rfl, rfl⟩
    | writeEnd => exact ⟨rfl, rfl, rfl⟩
  refine ⟨⟨h.settled, hpipe.1 ▸ h.readable_ne, hpipe.2.1 ▸ h.writable_ne, hpipe.1 ▸ h.readers,
    hpipe.2.1 ▸ h.writers, ?_⟩, hpipe.2.2⟩
  intro other
  have hcount := h.counts other
  show (s.pipe.setEndCount side _).endCount other = countP _ (s.ends ++ _)
  rw [endCount_setEndCount]
  unfold openEnds at hcount
  by_cases hside : other = side
  · subst hside
    rw [hcount]
    simp
  · have hside' : ¬side = other := fun heq => hside heq.symm
    rw [if_neg hside, hcount]
    simp [hside']

/-- **An end is closed.** -/
theorem Wf.closeEnd {payload : PipeEndPayload} {r : Result Unit} (h : s.Wf)
    (hend : s.ends[e]? = some payload) (hside : payload.side = side) (hwd : wd ≠ 0)
    (hnone : Sched.NoneDying wd s.sched) (hcall : closeEnd side wd holds e s = .ok (r, s')) :
    s'.Wf ∧ s'.pipe.buffer = s.pipe.buffer := by
  unfold PipeState.closeEnd at hcall
  rw [hend] at hcall
  simp only at hcall
  split at hcall
  · cases hcall
    exact ⟨h, rfl⟩
  rename_i hopen
  rw [Bool.not_eq_true] at hopen
  obtain ⟨⟨⟩, -, hrest⟩ := bind_eq_ok_iff.mp hcall
  let v : PipeState :=
    { s with pipe := s.pipe.setEndCount side (s.pipe.endCount side - 1)
             ends := s.ends.set e { payload with closed := true } }
  have hpipe : v.pipe.readableWd = s.pipe.readableWd ∧ v.pipe.writableWd = s.pipe.writableWd ∧
      v.pipe.buffer = s.pipe.buffer := by
    unfold v
    cases side with
    | readEnd => exact ⟨rfl, rfl, rfl⟩
    | writeEnd => exact ⟨rfl, rfl, rfl⟩
  have hv : v.Wf := by
    refine ⟨h.settled, hpipe.1 ▸ h.readable_ne, hpipe.2.1 ▸ h.writable_ne, hpipe.1 ▸ h.readers,
      hpipe.2.1 ▸ h.writers, ?_⟩
    intro other
    have hcount := h.counts other
    obtain ⟨hlt, hget⟩ := List.getElem?_eq_some_iff.mp hend
    show (s.pipe.setEndCount side _).endCount other = countP _ (s.ends.set e _)
    rw [endCount_setEndCount, countP_set hlt, hget]
    unfold openEnds at hcount
    by_cases heq : other = side
    · subst heq
      rw [if_pos rfl, hcount]
      simp [hside, hopen]
    · have hne : ¬payload.side = other := fun h => heq (h.symm.trans hside)
      rw [if_neg heq, hcount]
      simp [hne]
  obtain ⟨sched, hwake, hwf⟩ := hv.wakeAllIgnoringEmpty holds hwd hnone
  have hpair : (r, s') = PipeState.wakeAllIgnoringEmpty holds wd v := (ok.inj hrest).symm
  rw [hwake] at hpair
  obtain ⟨rfl, rfl⟩ := Prod.mk.inj hpair
  exact ⟨hwf, hpipe.2.2⟩

theorem Wf.destruct {r : Result Unit} (h : s.Wf)
    (hcall : destruct holds e s = .ok (r, s')) : s'.Wf ∧ s'.pipe.buffer = s.pipe.buffer := by
  unfold PipeState.destruct at hcall
  split at hcall
  · cases hcall
    exact ⟨h, rfl⟩
  · rename_i payload hend
    split at hcall
    · exact h.closeEnd hend ‹_› h.writable_ne h.writers hcall
    · exact h.closeEnd hend ‹_› h.readable_ne h.readers hcall

/-- All ends of one kind are closed. -/
def NoneLeft (s : PipeState) (side : PipeSide) : Prop :=
  ∀ p ∈ s.ends, p.side = side → p.closed = true

theorem Wf.noneLeft (h : s.Wf) (hzero : s.pipe.endCount side = 0) : s.NoneLeft side := by
  rw [h.counts side] at hzero
  intro p hp hside
  have hclosed := countP_eq_zero.mp hzero p hp
  simpa [hside] using hclosed

end PipeState

namespace PipeRun

variable {s s' : PipeRun}

/-- The bytes that were accepted are the returned ones and those in the buffer. -/
structure Inv (s : PipeRun) : Prop where
  wf : s.state.Wf
  stream : s.accepted = s.returned ++ s.state.pipe.buffer.contents

theorem Inv.step (h : s.Inv) (hstep : Step True s s') : s'.Inv := by
  cases hstep with
  | thread call sched hpossible hguard hrun =>
    obtain ⟨hmeets, hkill⟩ := hguard trivial
    have hsettled : sched.Settled := h.wf.settled.step ⟨call, hpossible, hmeets, hrun⟩
    refine ⟨?_, h.stream⟩
    by_cases hcall : ∃ t, call = .kill t
    · obtain ⟨t, rfl⟩ := hcall
      obtain ⟨hreadable, hwritable⟩ := hkill t rfl
      cases hrun
      exact ⟨hsettled, h.wf.readable_ne, h.wf.writable_ne, h.wf.readers.kill hreadable,
        h.wf.writers.kill hwritable, h.wf.counts⟩
    · have hcalm := ThreadCall.calm hmeets hrun fun t heq => hcall ⟨t, heq⟩
      exact h.wf.sched hsettled (hcalm.mono (Set.subset_univ _))
  | openEnd side nonblock =>
    obtain ⟨hwf, hbuffer⟩ := h.wf.openEnd side nonblock
    refine ⟨hwf, ?_⟩
    rw [hbuffer]
    exact h.stream
  | destruct holds e r state hcall =>
    obtain ⟨hwf, hbuffer⟩ := h.wf.destruct hcall
    refine ⟨hwf, ?_⟩
    rw [hbuffer]
    exact h.stream
  | read holds perm e bufNull len r state hcall =>
    obtain ⟨hwf, hcontents, -⟩ := h.wf.read hcall
    refine ⟨hwf, ?_⟩
    rw [append_assoc, ← hcontents]
    exact h.stream
  | write holds perm e bufNull data r state hcall =>
    obtain ⟨hwf, hcontents, -⟩ := h.wf.write hcall
    refine ⟨hwf, ?_⟩
    rw [hcontents, ← append_assoc, ← h.stream]

theorem init_inv (capacity : ℕ) (memory : ℕ → UInt8) (allocated : Bool) (n : ℕ) :
    (init capacity memory allocated n).Inv := by
  have hnone : ∀ wd, Sched.NoneDying wd Sched.boot := fun wd t ht => absurd ht not_mem_nil
  refine ⟨⟨Sched.boot_settled, Nat.succ_ne_zero _, Nat.succ_ne_zero _, hnone _, hnone _, ?_⟩, ?_⟩
  · intro side
    cases side with
    | readEnd => rfl
    | writeEnd => rfl
  · show [] = [] ++ (RingBuffer.create _ _ _).contents
    rw [RingBuffer.contents_create]
    rfl

/-- **A pipe is a reliable byte stream** in the guarded runs. -/
theorem pipe_reliable (capacity : ℕ) (memory : ℕ → UInt8) (allocated : Bool) (n : ℕ)
    (s : PipeRun) (hrun : ReflTransGen (Step True) (init capacity memory allocated n) s) :
    s.returned <+: s.accepted ∧
    (∀ holds perm e bufNull len state, len ≠ 0 →
      read holds perm e bufNull len s.state = .ok (.ok (some []), state) →
      s.state.pipe.buffer.contents = [] ∧ s.state.NoneLeft .writeEnd) ∧
    ∀ holds perm e bufNull data state,
      write holds perm e bufNull data s.state = .ok (.error .brokenPipe, state) →
      s.state.NoneLeft .readEnd := by
  have h : s.Inv := Transition.invariant (fun _ _ h hstep => h.step hstep) hrun
    (init_inv capacity memory allocated n)
  refine ⟨⟨_, h.stream.symm⟩, ?_, ?_⟩
  · intro holds perm e bufNull len state hlen hcall
    obtain ⟨hempty, hends⟩ := (h.wf.read hcall).2.2 hlen rfl
    exact ⟨hempty, h.wf.noneLeft hends⟩
  · intro holds perm e bufNull data state hcall
    exact h.wf.noneLeft ((h.wf.write hcall).2.2 rfl)

/-- A pipe of four bytes with one end of each kind. -/
def opened : PipeRun :=
  { init 4 (fun _ => 0) true 0 with
    state := ((init 4 (fun _ => 0) true 0).state.openEnd .readEnd false).openEnd .writeEnd false }

/-- The state that a call leaves behind. -/
def after {α : Type} (x : Except Halt (Result α × PipeState)) : PipeState :=
  (valueOr (.error .failure, opened.state) x).2

/-- The pipe after a write of six bytes, of which four fit. -/
def written : PipeState :=
  after (write (fun _ => true) WRITE 1 false [1, 2, 3, 4, 5, 6] opened.state)

/-- The theorem after a write and a read of three bytes. -/
theorem pipe_reliable_four : ∃ s : PipeRun,
    ReflTransGen (Step True) (init 4 (fun _ => 0) true 0) s ∧
    s.accepted = [1, 2, 3, 4] ∧ s.returned = [1, 2, 3] ∧ s.returned <+: s.accepted := by
  have hopen : ReflTransGen (Step True) (init 4 (fun _ => 0) true 0) opened :=
    (ReflTransGen.single (Step.openEnd _ .readEnd false)).tail
      (Step.openEnd _ .writeEnd false)
  have hwrite := hopen.tail (Step.write opened (fun _ => true) WRITE 1 false [1, 2, 3, 4, 5, 6]
    (.ok (some 4)) written (eq_ok_of_returned opened.state (by decide)))
  have hread := hwrite.tail (Step.read _ (fun _ => true) READ 0 false 3 (.ok (some [1, 2, 3]))
    (after (read (fun _ => true) READ 0 false 3 written))
    (eq_ok_of_returned opened.state (by decide)))
  exact ⟨_, hread, rfl, rfl, (pipe_reliable 4 (fun _ => 0) true 0 _ hread).1⟩

/-! ## A killed reader -/

/-- The open pipe on a machine with an idle thread and two others; the first of these, whose
`tid` is 1, runs. -/
def threads : PipeState :=
  { opened.state with
    sched := valueOr Sched.boot
      (((Sched.boot.create .idle .none).2.create .rr .none).2.create .rr .none).2.bootstrapTasks }

theorem threads_reached : ReflTransGen (Step False) (init 4 (fun _ => 0) true 0)
    { opened with state := threads } := by
  have hopen : ReflTransGen (Step False) (init 4 (fun _ => 0) true 0) opened :=
    (ReflTransGen.single (Step.openEnd _ .readEnd false)).tail
      (Step.openEnd _ .writeEnd false)
  have hidle := hopen.tail (Step.thread opened (.create .idle .none) _
    ⟨.idle, rfl, fun _ u hu => absurd hu (Nat.not_lt_zero u)⟩ False.elim rfl)
  have hreader := hidle.tail (Step.thread _ (.create .rr .none) _ ⟨.rr, rfl, nofun⟩ False.elim rfl)
  have hwriter := hreader.tail (Step.thread _ (.create .rr .none) _ ⟨.rr, rfl, nofun⟩ False.elim rfl)
  exact hwriter.tail (Step.thread _ .bootstrap _ trivial False.elim (eq_ok_valueOr (by decide)))

/-- The first thread waits for bytes and is killed; the second one runs. -/
def killed : PipeState :=
  let s := after (read (fun _ => true) READ 0 false 3 threads)
  { s with sched := s.sched.kill 1 }

/-- A write that meets a killed reader stores its bytes and fails; a read returns them. -/
theorem pipe_unreliable : ∃ s : PipeRun,
    ReflTransGen (Step False) (init 4 (fun _ => 0) true 0) s ∧
    s.accepted = [] ∧ s.returned = [1, 2, 3] ∧ ¬s.returned <+: s.accepted := by
  have hblocked := threads_reached.tail (Step.read _ (fun _ => true) READ 0 false 3 (.ok none)
    (after (read (fun _ => true) READ 0 false 3 threads))
    (eq_ok_of_returned opened.state (by decide)))
  have hkilled := hblocked.tail (Step.thread _ (.kill 1) _ trivial False.elim rfl)
  have hwrite := hkilled.tail (Step.write _ (fun _ => true) WRITE 1 false [1, 2, 3]
    (.error .failure) (after (write (fun _ => true) WRITE 1 false [1, 2, 3] killed))
    (eq_ok_of_failed opened.state (by decide)))
  have hread := hwrite.tail (Step.read _ (fun _ => true) READ 0 false 3 (.ok (some [1, 2, 3]))
    (after (read (fun _ => true) READ 0 false 3
      (after (write (fun _ => true) WRITE 1 false [1, 2, 3] killed))))
    (eq_ok_of_returned opened.state (by decide)))
  exact ⟨_, hread, rfl, rfl, by decide⟩

end PipeRun

end Sustcore
