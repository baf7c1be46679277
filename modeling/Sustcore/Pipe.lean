/-
# Pipes (`kernel/object/pipe.cpp`)

A pipe is a ring buffer of bytes with the numbers of its open read and write ends and two
wait descriptors.  A read takes what the buffer holds, up to the length that is asked for; a
write puts in what fits; both wake the other side up and return at once, and wait only when
they could do nothing.

A call that waits ends here with the switch to another thread and returns `none`: the thread
goes on with `finishWait` and another round of the same call.  A round and the wakeup that
follows it are one step of the machine, which has one hart.
-/
import Sustcore.Capability
import Sustcore.RingBuffer
import Sustcore.ThreadDeaths

namespace Sustcore

open List

/-- The two kinds of ends. -/
inductive PipeSide where
  | readEnd
  | writeEnd
  deriving DecidableEq, Repr

structure PipePayload where
  buffer : RingBuffer UInt8
  readEnds : ℕ
  writeEnds : ℕ
  readableWd : ℕ
  writableWd : ℕ

/-- `PipeReadEndPayload` and `PipeWriteEndPayload`. -/
structure PipeEndPayload where
  side : PipeSide
  nonblock : Bool
  closed : Bool
  deriving DecidableEq, Repr

/-- A pipe, all the ends that were made for it, and the threads. -/
structure PipeState where
  pipe : PipePayload
  ends : List PipeEndPayload
  sched : Sched

namespace PipePayload

def READ : Perm := 0x010000
def WRITE : Perm := 0x020000

def readableReady (p : PipePayload) : Bool := !p.buffer.empty || p.writeEnds == 0

def writableReady (p : PipePayload) : Bool := !p.buffer.full || p.readEnds == 0

/-- `read_ends` or `write_ends`. -/
def endCount (p : PipePayload) : PipeSide → ℕ
  | .readEnd => p.readEnds
  | .writeEnd => p.writeEnds

/-- Write `read_ends` or `write_ends`. -/
def setEndCount (p : PipePayload) : PipeSide → ℕ → PipePayload
  | .readEnd, n => { p with readEnds := n }
  | .writeEnd, n => { p with writeEnds := n }

end PipePayload

namespace PipeState

open PipePayload

def wakeAllIgnoringEmpty (holds : ℕ → Bool) (wd : ℕ) (s : PipeState) : Result Unit × PipeState :=
  match s.sched.wakeAll holds wd with
  | (.error e, sched) => (.error e, { s with sched := sched })
  | (.ok _, sched) => (.ok (), { s with sched := sched })

/-! ## Ends -/

/-- The constructors of the two kinds of ends. -/
def openEnd (side : PipeSide) (nonblock : Bool) (s : PipeState) : PipeState :=
  { s with
    pipe := s.pipe.setEndCount side (s.pipe.endCount side + 1)
    ends := s.ends ++ [⟨side, nonblock, false⟩] }

/-- `close_read_end` and `close_write_end`, of the end with the number `e`; `wd` is the
descriptor of the other side. -/
def closeEnd (side : PipeSide) (wd : ℕ) (holds : ℕ → Bool) (e : ℕ) : Kernel PipeState Unit :=
  fun s =>
    match s.ends[e]? with
    | none => .ok (.ok (), s)
    | some payload =>
      if payload.closed then .ok (.ok (), s)
      else do
        assertThat (decide (0 < s.pipe.endCount side))
        pure (wakeAllIgnoringEmpty holds wd
          { s with pipe := s.pipe.setEndCount side (s.pipe.endCount side - 1)
                   ends := s.ends.set e { payload with closed := true } })

def closeReadEnd (holds : ℕ → Bool) (e : ℕ) : Kernel PipeState Unit :=
  fun s => closeEnd .readEnd s.pipe.writableWd holds e s

def closeWriteEnd (holds : ℕ → Bool) (e : ℕ) : Kernel PipeState Unit :=
  fun s => closeEnd .writeEnd s.pipe.readableWd holds e s

/-- `destruct` of an end, whose destructor closes it. -/
def destruct (holds : ℕ → Bool) (e : ℕ) : Kernel PipeState Unit := fun s =>
  match s.ends[e]? with
  | none => .ok (.ok (), s)
  | some payload =>
    match payload.side with
    | .readEnd => closeReadEnd holds e s
    | .writeEnd => closeWriteEnd holds e s

/-! ## Reading and writing -/

/-- The loop of `read` over the buffer. -/
def drain : ℕ → RingBuffer UInt8 → Except RingError (List UInt8) × RingBuffer UInt8
  | 0, b => (.ok [], b)
  | len + 1, b =>
    if b.empty then (.ok [], b)
    else
      match b.pop with
      | .error e => (.error e, b)
      | .ok b' =>
        match drain len b' with
        | (.error e, b'') => (.error e, b'')
        | (.ok bytes, b'') => (.ok (b.front :: bytes), b'')

/-- The loop of `write` over the buffer. -/
def fill : List UInt8 → RingBuffer UInt8 → Except RingError ℕ × RingBuffer UInt8
  | [], b => (.ok 0, b)
  | byte :: rest, b =>
    if b.full then (.ok 0, b)
    else
      match b.push byte with
      | .error e => (.error e, b)
      | .ok b' =>
        match fill rest b' with
        | (.error e, b'') => (.error e, b'')
        | (.ok written, b'') => (.ok (written + 1), b'')

/-- `locked_wait_event`; both evaluations of the condition are under the lock. -/
def lockedWaitEvent {α : Type} (wd : ℕ) (ready : Bool) : Kernel PipeState (Option α) := fun s => do
  let (r, sched) ← Sched.waitEvent false wd ready ready s.sched
  pure (r.map fun _ => none, { s with sched := sched })

/-- A call has moved something and wakes the other side up. -/
def finish {α : Type} (holds : ℕ → Bool) (wd : ℕ) (done : α) : Kernel PipeState (Option α) :=
  fun s =>
    match wakeAllIgnoringEmpty holds wd s with
    | (.error e, s) => .ok (.error e, s)
    | (.ok (), s) => .ok (.ok (some done), s)

/-- A round of `read`, after the checks. -/
def readRound (holds : ℕ → Bool) (nonblock : Bool) (len : ℕ) :
    Kernel PipeState (Option (List UInt8)) := fun s =>
  if !s.pipe.buffer.empty then
    match drain len s.pipe.buffer with
    | (.error _, b) => .ok (.error .ioError, { s with pipe := { s.pipe with buffer := b } })
    | (.ok bytes, b) =>
      let s := { s with pipe := { s.pipe with buffer := b } }
      if bytes ≠ [] then finish holds s.pipe.writableWd bytes s
      else lockedWaitEvent s.pipe.readableWd s.pipe.readableReady s
  else if s.pipe.writeEnds = 0 then .ok (.ok (some []), s)
  else if nonblock then .ok (.error .wouldBlock, s)
  else lockedWaitEvent s.pipe.readableWd s.pipe.readableReady s

/-- `PipeReadEndObject::read` through a capability with the permissions `perm` on the end
`e`. -/
def read (holds : ℕ → Bool) (perm : Perm) (e : ℕ) (bufNull : Bool) (len : ℕ) :
    Kernel PipeState (Option (List UInt8)) := fun s =>
  if !perm.imply READ then .ok (.error .insufficientPermissions, s)
  else if bufNull && len != 0 then .ok (.error .nullptr, s)
  else if len = 0 then .ok (.ok (some []), s)
  else
    match s.ends[e]? with
    | none => .ok (.error .invalidParam, s)
    | some payload =>
      if payload.closed then .ok (.error .invalidParam, s)
      else readRound holds payload.nonblock len s

/-- A round of `write`, after the checks; `written` is zero at the start of every round. -/
def writeRound (holds : ℕ → Bool) (nonblock : Bool) (data : List UInt8) :
    Kernel PipeState (Option ℕ) := fun s =>
  if s.pipe.readEnds = 0 then .ok (.error .brokenPipe, s)
  else if !s.pipe.buffer.full then
    match fill data s.pipe.buffer with
    | (.error _, b) => .ok (.error .ioError, { s with pipe := { s.pipe with buffer := b } })
    | (.ok written, b) =>
      let s := { s with pipe := { s.pipe with buffer := b } }
      if written ≠ 0 then finish holds s.pipe.readableWd written s
      else lockedWaitEvent s.pipe.writableWd s.pipe.writableReady s
  else if nonblock then .ok (.error .wouldBlock, s)
  else lockedWaitEvent s.pipe.writableWd s.pipe.writableReady s

/-- `PipeWriteEndObject::write`. -/
def write (holds : ℕ → Bool) (perm : Perm) (e : ℕ) (bufNull : Bool) (data : List UInt8) :
    Kernel PipeState (Option ℕ) := fun s =>
  if !perm.imply WRITE then .ok (.error .insufficientPermissions, s)
  else if bufNull && data.length != 0 then .ok (.error .nullptr, s)
  else if data.length = 0 then .ok (.ok (some 0), s)
  else
    match s.ends[e]? with
    | none => .ok (.error .invalidParam, s)
    | some payload =>
      if payload.closed then .ok (.error .invalidParam, s)
      else writeRound holds payload.nonblock data s

/-! ## The loops -/

/-- **The loop of `read`** takes bytes off the front, and stops only when it has enough or the
buffer is empty. -/
theorem drain_spec : ∀ (len : ℕ) (b : RingBuffer UInt8), ∃ bytes b',
    drain len b = (.ok bytes, b') ∧ b.contents = bytes ++ b'.contents ∧
      (bytes = [] → len = 0 ∨ b.contents = []) := by
  intro len
  induction len with
  | zero =>
    intro b
    exact ⟨[], b, rfl, rfl, fun _ => Or.inl rfl⟩
  | succ len ih =>
    intro b
    rw [drain]
    by_cases hempty : b.empty = true
    · rw [if_pos hempty]
      exact ⟨[], b, rfl, rfl, fun _ => Or.inr (RingBuffer.empty_iff.mp hempty)⟩
    rw [if_neg hempty]
    rw [Bool.not_eq_true] at hempty
    obtain ⟨b', hpop⟩ := RingBuffer.pop_isOk hempty
    obtain ⟨hcontents, -⟩ := RingBuffer.contents_pop hpop
    obtain ⟨bytes, b'', hdrain, hrest, -⟩ := ih b'
    rw [hpop]
    simp only [hdrain]
    refine ⟨b.front :: bytes, b'', rfl, ?_, nofun⟩
    rw [hcontents, hrest, cons_append]

/-- **The loop of `write`** appends a part of the data. -/
theorem fill_spec : ∀ (data : List UInt8) {b : RingBuffer UInt8}, b.capacity ≠ 0 →
    ∃ written b', fill data b = (.ok written, b') ∧
      b'.contents = b.contents ++ data.take written := by
  intro data
  induction data with
  | nil =>
    intro b _
    exact ⟨0, b, rfl, by rw [take_zero, append_nil]⟩
  | cons byte rest ih =>
    intro b hcapacity
    rw [fill]
    by_cases hfull : b.full = true
    · rw [if_pos hfull]
      exact ⟨0, b, rfl, by rw [take_zero, append_nil]⟩
    rw [if_neg hfull]
    rw [Bool.not_eq_true] at hfull
    obtain ⟨b', hpush⟩ := RingBuffer.push_isOk (v := byte) hcapacity hfull
    obtain ⟨hcontents, hcapacity'⟩ := RingBuffer.contents_push hpush
    rw [← hcapacity'] at hcapacity
    obtain ⟨written, b'', hfill, hrest⟩ := ih hcapacity
    rw [hpush]
    simp only [hfill]
    refine ⟨written + 1, b'', rfl, ?_⟩
    rw [hrest, hcontents, take_succ_cons, append_assoc, singleton_append]

/-- A buffer whose allocation failed takes nothing. -/
theorem fill_of_no_memory {b : RingBuffer UInt8} {byte : UInt8} {rest : List UInt8}
    (hcapacity : b.capacity = 0) : fill (byte :: rest) b = (.error .nullptr, b) := by
  have hfull : b.full = false := by
    unfold RingBuffer.full
    rw [decide_eq_false_iff_not]
    exact fun h => h.1 hcapacity
  have hpush : b.push byte = .error .nullptr := by
    unfold RingBuffer.push
    rw [if_pos hcapacity]
  rw [fill, hfull, if_neg (by decide), hpush]

end PipeState

end Sustcore
