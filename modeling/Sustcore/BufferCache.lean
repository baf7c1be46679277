/-
# The buffer cache of a block device (`kernel/bio/buffer.cpp`)

A cache has a fixed number of slots.  A slot holds a buffer: the bytes of one block, whether
they were read (`valid`), whether they differ from the device (`dirty`), whether a request for
them is on its way (`inflight`) and the number of handlers that point to it.

Requests are carried out by a worker thread of the device, and a thread that made one sleeps
until it is done.  So a call is cut at its waits: `threads` says where each thread is, a step
of a thread runs from one wait to the next, and the device serves a request in a step of its
own.  The two loops of `sync_all` and `tidy` take one step for each slot.

The capacity `N`, the block size `n` and the number `T` of threads are parameters; the source
has `N = MAX_CACHE_SIZE`.
-/
import Sustcore.Outcome

namespace Sustcore

open Function

namespace Bio

/-! ## Blocks -/

/-- `BufferCache::MAX_CACHE_SIZE`. -/
def MAX_CACHE_SIZE : ℕ := 8192

abbrev Block (n : ℕ) := Fin n → UInt8

/-- `memcpy` of some bytes to an offset of a block, cut at the end of the block. -/
def Block.write {n : ℕ} (offset : ℕ) (bytes : List UInt8) (block : Block n) : Block n := fun k =>
  if offset ≤ k.val ∧ k.val < offset + bytes.length then bytes.getD (k.val - offset) 0
  else block k

/-! ## The state -/

structure Buffer (n : ℕ) where
  blkno : ℕ
  data : Block n
  dirty : Bool
  valid : Bool
  inflight : Bool
  refcnt : ℕ
  waitWd : ℕ

/-- No handler points to the buffer and no request is on its way: it may be evicted. -/
def Buffer.idle {n : ℕ} (b : Buffer n) : Bool := b.refcnt == 0 && !b.inflight

/-- `BlockOp`; a flush changes nothing here. -/
inductive BlockOp where
  | read
  | write
  deriving DecidableEq, Repr

/-- The request for a buffer, and whether the device has carried it out. -/
structure BlockRequest where
  op : BlockOp
  done : Bool
  deriving DecidableEq, Repr

/-- Who called `sync`: the user with a handler for a block, or one of the two loops. -/
inductive SyncCaller where
  | handler (blkno : ℕ)
  | syncAll
  | tidy
  deriving DecidableEq, Repr

/-- How a call returned. -/
inductive Outcome where
  | idle
  | obtained
  | synced
  | syncedAll
  | tidied
  | failed (e : ErrCode)
  deriving DecidableEq, Repr

/-- Where a thread is.  A thread that waits for another thread's request only has a pointer to
the buffer, whose identity is its wait descriptor. -/
inductive Activity (N : ℕ) where
  | returned (r : Outcome)
  | reading (i : Fin N) (blkno : ℕ)
  | waiting (i : Fin N) (blkno waitWd : ℕ)
  | writing (i : Fin N) (caller : SyncCaller)
  | flushing (i : Fin N) (caller : SyncCaller)
  | sweeping (k : ℕ) (caller : SyncCaller)
  | clearing (k : ℕ)
  deriving DecidableEq, Repr

end Bio

/-- The cache with its device, the requests, the threads in calls of the cache and the handlers
that users hold, each with the block that it was obtained for. -/
structure BioState (N n T : ℕ) where
  buffers : Fin N → Option (Bio.Buffer n)
  mapping : ℕ → Option (Fin N)
  device : ℕ → Bio.Block n
  requests : Fin N → Option Bio.BlockRequest
  threads : Fin T → Bio.Activity N
  handlers : List (Fin N × ℕ)
  nextWd : ℕ

namespace BioState

open Bio

variable {N n T : ℕ}

/-- A new cache. -/
def init (device : ℕ → Block n) : BioState N n T :=
  ⟨fun _ => none, fun _ => none, device, fun _ => none, fun _ => .returned .idle, [], 0⟩

def setBuffer (i : Fin N) (f : Buffer n → Buffer n) (s : BioState N n T) : BioState N n T :=
  { s with buffers := update s.buffers i ((s.buffers i).map f) }

def setThread (t : Fin T) (a : Activity N) (s : BioState N n T) : BioState N n T :=
  { s with threads := update s.threads t a }

def setRequest (i : Fin N) (r : Option Bio.BlockRequest) (s : BioState N n T) : BioState N n T :=
  { s with requests := update s.requests i r }

/-! ## Slots -/

def clearSlot (i : Fin N) (s : BioState N n T) : Result Unit × BioState N n T :=
  match s.buffers i with
  | none => (.ok (), s)
  | some b =>
    if b.idle then
      (.ok (), { s with
        mapping := if s.mapping b.blkno = some i then update s.mapping b.blkno none
          else s.mapping
        buffers := update s.buffers i none })
    else (.error .busy, s)

def emptySlot (s : BioState N n T) : Option (Fin N) := Fin.find? fun i => (s.buffers i).isNone

/-- The first slot with a clean buffer that may be evicted. -/
def cleanVictim (s : BioState N n T) : Option (Fin N) := Fin.find? fun i =>
  (s.buffers i).any fun b => b.idle && !b.dirty

/-- The first slot with any buffer that may be evicted. -/
def anyVictim (s : BioState N n T) : Option (Fin N) := Fin.find? fun i =>
  (s.buffers i).any Buffer.idle

/-- The slot whose buffer `find_free` evicts. -/
def victim (s : BioState N n T) : Option (Fin N) :=
  if s.emptySlot.isSome then none else s.cleanVictim.or s.anyVictim

def findFree (s : BioState N n T) : Result (Fin N) × BioState N n T :=
  match s.emptySlot with
  | some i => (.ok i, s)
  | none =>
    match s.victim with
    | none => (.error .busy, s)
    | some i =>
      match s.clearSlot i with
      | (.error e, s) => (.error e, s)
      | (.ok (), s) => (.ok i, s)

/-- A new buffer in a slot; its bytes are not read before the device has filled them. -/
def newBuffer (i : Fin N) (blkno : ℕ) (s : BioState N n T) : BioState N n T :=
  { s with
    buffers := update s.buffers i (some ⟨blkno, fun _ => 0, false, false, false, 0, s.nextWd⟩)
    mapping := update s.mapping blkno (some i)
    nextWd := s.nextWd + 1 }

def ensureBuffer (blkno : ℕ) (s : BioState N n T) : Result (Fin N) × BioState N n T :=
  match s.mapping blkno with
  | some i => (.ok i, s)
  | none =>
    match s.findFree with
    | (.error e, s) => (.error e, s)
    | (.ok i, s) => (.ok i, s.newBuffer i blkno)

/-! ## `get_buffer_async` -/

/-- The handler that the call returns. -/
def openHandler (t : Fin T) (i : Fin N) (blkno : ℕ) (s : BioState N n T) : BioState N n T :=
  let s := s.setBuffer i fun b => { b with refcnt := b.refcnt + 1 }
  { s.setThread t (.returned .obtained) with handlers := (i, blkno) :: s.handlers }

/-- A request for the buffer is submitted, and the thread waits for it. -/
def submit (t : Fin T) (i : Fin N) (op : Bio.BlockOp) (a : Activity N) (s : BioState N n T) :
    BioState N n T :=
  ((s.setBuffer i fun b => { b with inflight := true }).setRequest i (some ⟨op, false⟩)).setThread
    t a

/-- The part of `get_buffer_async` after the wait for another request. -/
def openBuffer (t : Fin T) (i : Fin N) (blkno : ℕ) (b : Buffer n) (s : BioState N n T) :
    BioState N n T :=
  if b.valid then s.openHandler t i blkno else s.submit t i .read (.reading i blkno)

/-- `get_buffer_async` up to its first wait. -/
def getBuffer (t : Fin T) (blkno : ℕ) (s : BioState N n T) : BioState N n T :=
  match s.ensureBuffer blkno with
  | (.error e, s) => s.setThread t (.returned (.failed e))
  | (.ok i, s) =>
    match s.buffers i with
    | none => s.setThread t (.returned (.failed .unknownError))
    | some b =>
      if b.inflight then s.setThread t (.waiting i blkno b.waitWd)
      else s.openBuffer t i blkno b

/-! ## `sync`, `sync_all` and `tidy` -/

/-- `sync` for a handler of the user, up to its first wait; the handler stays with the thread
until the call returns. -/
def sync (t : Fin T) (i : Fin N) (blkno : ℕ) (s : BioState N n T) : BioState N n T :=
  match s.buffers i with
  | none => s.setThread t (.returned (.failed .invalidParam))
  | some b =>
    if !b.valid || !b.dirty then s.setThread t (.returned .synced)
    else if b.inflight then s.setThread t (.returned (.failed .busy))
    else { s.submit t i .write (.writing i (.handler blkno)) with
      handlers := s.handlers.erase (i, blkno) }

/-- One round of the loop of `sync_all`, which holds a handler of its own. -/
def sweep (t : Fin T) (k : ℕ) (caller : SyncCaller) (s : BioState N n T) : BioState N n T :=
  if hk : k < N then
    match s.buffers ⟨k, hk⟩ with
    | none => s.setThread t (.sweeping (k + 1) caller)
    | some b =>
      if !b.valid || !b.dirty then s.setThread t (.sweeping (k + 1) caller)
      else if b.inflight then s.setThread t (.returned (.failed .busy))
      else
        (s.setBuffer ⟨k, hk⟩ fun b => { b with refcnt := b.refcnt + 1 }).submit t ⟨k, hk⟩ .write
          (.writing ⟨k, hk⟩ caller)
  else
    match caller with
    | .tidy => s.setThread t (.clearing 0)
    | _ => s.setThread t (.returned .syncedAll)

/-- One round of the second loop of `tidy`. -/
def clearRound (t : Fin T) (k : ℕ) (s : BioState N n T) : BioState N n T :=
  if hk : k < N then
    let s := if (s.buffers ⟨k, hk⟩).any Buffer.idle then (s.clearSlot ⟨k, hk⟩).2 else s
    s.setThread t (.clearing (k + 1))
  else s.setThread t (.returned .tidied)

/-- The end of `sync`: the handler goes back to the user, or the loop drops its own. -/
def endSync (t : Fin T) (i : Fin N) (caller : SyncCaller) (s : BioState N n T) :
    BioState N n T :=
  match caller with
  | .handler blkno =>
    { s.setThread t (.returned .synced) with handlers := (i, blkno) :: s.handlers }
  | caller =>
    (s.setBuffer i fun b => { b with refcnt := b.refcnt - 1 }).setThread t
      (.sweeping (i.val + 1) caller)

/-! ## Steps -/

/-- The request of the slot is carried out by the device. -/
def serve (i : Fin N) (s : BioState N n T) : BioState N n T :=
  match s.requests i, s.buffers i with
  | some ⟨.read, false⟩, some b =>
    (s.setBuffer i fun _ => { b with data := s.device b.blkno }).setRequest i
      (some ⟨.read, true⟩)
  | some ⟨.write, false⟩, some b =>
    { s.setRequest i (some ⟨.write, true⟩) with
      device := update s.device b.blkno b.data }
  | _, _ => s

/-- The thread goes on from its wait, or stays there. -/
def resume (t : Fin T) (s : BioState N n T) : Except Halt (BioState N n T) :=
  match s.threads t with
  | .returned _ => .ok s
  | .reading i blkno =>
    if s.requests i = some ⟨.read, true⟩ then
      .ok (((s.setRequest i none).setBuffer i fun b =>
        { b with inflight := false, valid := true }).openHandler t i blkno)
    else .ok s
  | .waiting i blkno waitWd =>
    match s.buffers i with
    | none => .error .undefined
    | some b =>
      if b.waitWd ≠ waitWd then .error .undefined
      else if b.inflight then .ok s
      else .ok (s.openBuffer t i blkno b)
  | .writing i caller =>
    if s.requests i = some ⟨.write, true⟩ then
      .ok (((s.setRequest i none).setBuffer i fun b =>
        { b with inflight := false, dirty := false }).setThread t (.flushing i caller))
    else .ok s
  | .flushing i caller => .ok (s.endSync t i caller)
  | .sweeping k caller => .ok (s.sweep t k caller)
  | .clearing k => .ok (s.clearRound t k)

/-- `BufferHandler::write`. -/
def write (i : Fin N) (offset : ℕ) (bytes : List UInt8) (s : BioState N n T) : BioState N n T :=
  if n ≤ offset then s
  else s.setBuffer i fun b => { b with data := b.data.write offset bytes, dirty := true }

/-- The end of a handler of the user. -/
def release (i : Fin N) (blkno : ℕ) (s : BioState N n T) : BioState N n T :=
  { s.setBuffer i fun b => { b with refcnt := b.refcnt - 1 } with
    handlers := s.handlers.erase (i, blkno) }

end BioState

end Sustcore
