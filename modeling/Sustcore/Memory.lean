/-
# Memory payloads (`kernel/object/memory.h`, `kernel/object/memory.cpp`)

`MemoryPayload` is a promised number of bytes whose pages are allocated on demand.  Each
allocated page is recorded with its physical address and a local reference count: after
a `clone_payload` both payloads hold the page with a count above one, and a write first
moves the page to a frame of its own (`fork`).

The functions run over one payload, the frame allocator and the physical memory
(`PayloadState`); `clone_payload`, which needs two payloads, is written over a heap of
payloads in `MemoryHeap.lean`.  The counters of committed and mapped pages are statistics
that no function reads, and are left out.
-/
import Sustcore.Frames

namespace Sustcore

open Kernel

/-! ## Words and pages -/

/-- The largest `size_t`. -/
abbrev SIZE_MAX : ℕ := 2 ^ 64 - 1

def pageAlignDown (x : ℕ) : ℕ := x / PAGESIZE * PAGESIZE

/-- `page_align_up`, on 64-bit words. -/
def pageAlignUp (x : ℕ) : ℕ := (x + 0xFFF) % 2 ^ 64 / PAGESIZE * PAGESIZE

def offsetToOffvpn (offset : ℕ) : ℕ := pageAlignDown offset / PAGESIZE

def offvpnToOffset (offvpn : ℕ) : ℕ := offvpn * PAGESIZE

def offsetInPage (offset : ℕ) : ℕ := offset % PAGESIZE

def pageChunkSize (offset remain : ℕ) : ℕ :=
  let capacity := PAGESIZE - offsetInPage offset
  if capacity < remain then capacity else remain

theorem offsetToOffvpn_eq (offset : ℕ) : offsetToOffvpn offset = offset / PAGESIZE := by
  unfold offsetToOffvpn pageAlignDown
  rw [Nat.mul_div_cancel _ (by decide)]

/-- Physical memory, byte by byte. -/
abbrev PhysMem := ℕ → UInt8

/-- `memset` of `n` bytes. -/
def memset (mem : PhysMem) (dst : ℕ) (b : UInt8) (n : ℕ) : PhysMem :=
  fun x => if dst ≤ x ∧ x < dst + n then b else mem x

/-- `memcpy` inside physical memory. -/
def memcpy (mem : PhysMem) (dst src n : ℕ) : PhysMem :=
  fun x => if dst ≤ x ∧ x < dst + n then mem (src + (x - dst)) else mem x

/-- `memcpy` of `n` bytes from a buffer. -/
def memcpyFrom (mem : PhysMem) (dst : ℕ) (src : ℕ → UInt8) (n : ℕ) : PhysMem :=
  fun x => if dst ≤ x ∧ x < dst + n then src (x - dst) else mem x

variable {mem : PhysMem} {dst n x src : ℕ}

theorem memset_outside {b : UInt8}
    (h : ¬(dst ≤ x ∧ x < dst + n)) : memset mem dst b n x = mem x := if_neg h

theorem memset_inside {b : UInt8} (h : dst ≤ x ∧ x < dst + n) : memset mem dst b n x = b := if_pos h

theorem memcpy_outside (h : ¬(dst ≤ x ∧ x < dst + n)) : memcpy mem dst src n x = mem x := if_neg h

theorem memcpy_inside (h : dst ≤ x ∧ x < dst + n) :
    memcpy mem dst src n x = mem (src + (x - dst)) := if_pos h

theorem memcpyFrom_outside {src : ℕ → UInt8}
    (h : ¬(dst ≤ x ∧ x < dst + n)) : memcpyFrom mem dst src n x = mem x := if_neg h

theorem memcpyFrom_inside {src : ℕ → UInt8}
    (h : dst ≤ x ∧ x < dst + n) : memcpyFrom mem dst src n x = src (x - dst) := if_pos h

/-! ## Payloads -/

structure PhyPage where
  addr : ℕ
  refcount : ℕ
  deriving DecidableEq, Repr

/-- `MemoryGrowth`, a set of bits. -/
abbrev MemoryGrowth := BitVec 64

namespace MemoryGrowth

def FIXED : MemoryGrowth := 0b0000
def GROW_UP : MemoryGrowth := 0b0001
def GROW_DOWN : MemoryGrowth := 0b0010
def SHRINK_UP : MemoryGrowth := 0b0100
def SHRINK_DOWN : MemoryGrowth := 0b1000

/-- `operator&`: the two sets have a common bit. -/
def meets (lhs rhs : MemoryGrowth) : Bool := lhs &&& rhs != 0

end MemoryGrowth

/-- `MemoryPayload`; a file is the number of its capability's object. -/
structure MemoryPayload where
  memsz : ℕ
  shared : Bool
  continuity : Bool
  growth : MemoryGrowth
  file : Option ℕ
  fileOffset : ℕ
  fileBackedLen : ℕ
  phyPages : AList fun _ : ℕ => PhyPage

/-- `file->read(offset, buffer, len)`: the bytes read, or an error. -/
abbrev FileRead := ℕ → ℕ → ℕ → Result (List UInt8)

namespace MemoryPayload

def lookupPage (m : MemoryPayload) (offset : ℕ) : Result ℕ :=
  if pageAlignDown offset ≥ m.memsz then .error .outOfBoundary
  else match m.phyPages.lookup (offsetToOffvpn offset) with
    | none => .error .pageNotPresent
    | some page => .ok page.addr

def pageRefcount (m : MemoryPayload) (offset : ℕ) : Result ℕ :=
  if pageAlignDown offset ≥ m.memsz then .error .outOfBoundary
  else match m.phyPages.lookup (offsetToOffvpn offset) with
    | none => .error .pageNotPresent
    | some page => .ok page.refcount

/-- The file part of `ensure_page`: the bytes the file provides for a page. -/
def fileBytes (fileRead : FileRead) (m : MemoryPayload) (offvpn : ℕ) : Result (List UInt8) :=
  match m.file with
  | none => .ok []
  | some file =>
    let pageFileOffset := offvpnToOffset offvpn
    if pageFileOffset > SIZE_MAX - m.fileOffset then .error .outOfBoundary
    else
      let readLen :=
        if m.fileBackedLen ≠ SIZE_MAX then
          if pageFileOffset ≥ m.fileBackedLen then 0
          else if m.fileBackedLen - pageFileOffset < PAGESIZE then
            m.fileBackedLen - pageFileOffset
          else PAGESIZE
        else PAGESIZE
      if readLen ≠ 0 then
        (fileRead file (m.fileOffset + pageFileOffset) readLen).map (·.take readLen)
      else .ok []

/-- Record a page (`phy_pages.insert_or_assign`). -/
def setPage (m : MemoryPayload) (offvpn : ℕ) (page : PhyPage) : MemoryPayload :=
  { m with phyPages := m.phyPages.insert offvpn page }

/-- Forget a page (`phy_pages.erase`). -/
def erasePage (m : MemoryPayload) (offvpn : ℕ) : MemoryPayload :=
  { m with phyPages := m.phyPages.erase offvpn }

def boundedLength (memsz offset buflen : ℕ) : Result ℕ :=
  if offset ≥ memsz then .error .outOfBoundary
  else .ok (if memsz - offset < buflen then memsz - offset else buflen)

theorem boundedLength_le {memsz offset buflen total : ℕ}
    (h : boundedLength memsz offset buflen = .ok total) :
    total ≤ buflen ∧ offset + total ≤ memsz := by
  unfold boundedLength at h
  split at h
  · cases h
  · cases h
    split <;> omega

/-- The pages of `continuity` memory: `n` pages from `base` on. -/
def contiguousPages (base : ℕ) : ℕ → AList fun _ : ℕ => PhyPage
  | 0 => ∅
  | n + 1 => (contiguousPages base n).insert n ⟨base + n * PAGESIZE, 1⟩

end MemoryPayload

/-! ## Functions of one payload -/

/-- A payload, the frame allocator and the physical memory. -/
structure PayloadState (F : Type) where
  payload : MemoryPayload
  frames : F
  mem : PhysMem

section Functions

variable {F : Type} (A : FrameAllocator F) (fileRead : FileRead)

/-- `GFP::get_free_page`. -/
def getFrames (n : ℕ) : Kernel (PayloadState F) ℕ := fun s => do
  let (res, frames) ← A.getFreePage s.frames n
  pure (res, { s with frames := frames })

/-- `GFP::put_page(addr, 1)`. -/
def putFrame (addr : ℕ) : Kernel (PayloadState F) Unit := fun s => do
  let frames ← A.putPage s.frames addr
  pure (.ok (), { s with frames := frames })

/-- A fresh page is cleared, filled from the file, and recorded. -/
def allocPage (offvpn : ℕ) : Kernel (PayloadState F) ℕ := do
  let paddr ← getFrames A 1
  modify fun s => { s with mem := memset s.mem paddr 0 PAGESIZE }
  let s ← get
  match s.payload.fileBytes fileRead offvpn with
  | .error e => do
      putFrame A paddr
      throw e
  | .ok bytes => do
      modify fun s =>
        { s with
          payload := s.payload.setPage offvpn ⟨paddr, 1⟩
          mem := memcpyFrom s.mem paddr (fun i => bytes.getD i 0) bytes.length }
      pure paddr

def ensurePage (offset : ℕ) : Kernel (PayloadState F) ℕ := do
  let s ← get
  match s.payload.lookupPage offset with
  | .ok paddr => pure paddr
  | .error e =>
    if e = .pageNotPresent then allocPage A fileRead (offsetToOffvpn offset)
    else throw e

/-- `fork`. -/
def forkPage (offset : ℕ) : Kernel (PayloadState F) Unit := do
  let s ← get
  if pageAlignDown offset ≥ s.payload.memsz then throw .outOfBoundary
  else
    let offvpn := offsetToOffvpn offset
    match s.payload.phyPages.lookup offvpn with
    | none => throw .pageNotPresent
    | some page =>
      if page.refcount ≤ 1 then
        modify fun s =>
          { s with payload := s.payload.setPage offvpn { page with refcount := 1 } }
      else do
        let newPaddr ← getFrames A 1
        modify fun s =>
          { s with
            payload := s.payload.setPage offvpn ⟨newPaddr, 1⟩
            mem := memcpy s.mem newPaddr page.addr PAGESIZE }
        putFrame A page.addr

/-- The loop of `read`; every round reads at least one byte, so `n` rounds are enough for
`n` bytes. -/
def readLoop (offset total : ℕ) : ℕ → ℕ → List UInt8 → Kernel (PayloadState F) (List UInt8)
  | 0, _, data => pure data
  | n + 1, consumed, data =>
    if consumed < total then do
      let curOffset := offset + consumed
      let chunk := pageChunkSize curOffset (total - consumed)
      let paddr ← ensurePage A fileRead curOffset
      let s ← get
      let bytes := (List.range chunk).map fun i => s.mem (paddr + offsetInPage curOffset + i)
      readLoop offset total n (consumed + chunk) (data ++ bytes)
    else pure data

/-- `read`: the bytes put into the buffer; `nonnull` tells whether there is a buffer. -/
def readPayload (offset : ℕ) (nonnull : Bool) (buflen : ℕ) :
    Kernel (PayloadState F) (List UInt8) :=
  if nonnull = false ∧ buflen ≠ 0 then throw .nullptr
  else if buflen = 0 then pure []
  else do
    let s ← get
    let total ← ofResult (MemoryPayload.boundedLength s.payload.memsz offset buflen)
    readLoop A fileRead offset total total 0 []

/-- The loop of `write`. -/
def writeLoop (offset : ℕ) (data : ℕ → UInt8) (total : ℕ) : ℕ → ℕ → Kernel (PayloadState F) ℕ
  | 0, _ => pure total
  | n + 1, consumed =>
    if consumed < total then do
      let curOffset := offset + consumed
      let chunk := pageChunkSize curOffset (total - consumed)
      let _ ← ensurePage A fileRead curOffset
      let s ← get
      let refcount ← ofResult (s.payload.pageRefcount curOffset)
      if refcount > 1 then forkPage A curOffset else pure ()
      let s ← get
      let paddr ← ofResult (s.payload.lookupPage curOffset)
      modify fun s =>
        { s with
          mem := memcpyFrom s.mem (paddr + offsetInPage curOffset)
            (fun i => data (consumed + i)) chunk }
      writeLoop offset data total n (consumed + chunk)
    else pure total

/-- `write` from a buffer; `none` is the null pointer. -/
def writePayload (offset : ℕ) (data : Option (ℕ → UInt8)) (buflen : ℕ) :
    Kernel (PayloadState F) ℕ :=
  if buflen = 0 then pure 0
  else match data with
    | none => throw .nullptr
    | some data => do
        let s ← get
        let total ← ofResult (MemoryPayload.boundedLength s.payload.memsz offset buflen)
        writeLoop A fileRead offset data total total 0

/-- The loop of `release_pages_from` over the recorded pages. -/
def releaseLoop (first : ℕ) : List (Sigma fun _ : ℕ => PhyPage) → Kernel (PayloadState F) Unit
  | [] => pure ()
  | ⟨offvpn, page⟩ :: rest =>
    if offvpn ≥ first then do
      putFrame A page.addr
      modify fun s => { s with payload := s.payload.erasePage offvpn }
      releaseLoop first rest
    else releaseLoop first rest

def releasePagesFrom (offset : ℕ) : Kernel (PayloadState F) Unit := do
  let s ← get
  releaseLoop A (pageAlignUp offset / PAGESIZE) s.payload.phyPages.entries

/-- `put_page` on every recorded page. -/
def putAll : List (Sigma fun _ : ℕ => PhyPage) → Kernel (PayloadState F) Unit
  | [] => pure ()
  | ⟨_, page⟩ :: rest => do
      putFrame A page.addr
      putAll rest

/-- The copy loop of a `continuity` resize. -/
def copyLoop (m : MemoryPayload) (base : ℕ) : ℕ → PhysMem → PhysMem
  | 0, mem => mem
  | n + 1, mem =>
    let mem := copyLoop m base n mem
    match m.lookupPage (offvpnToOffset n) with
    | .ok old => memcpy mem (base + n * PAGESIZE) old PAGESIZE
    | .error _ => mem

/-- The `continuity` part of `resize`: all pages move to a new contiguous range. -/
def relocate (newPages copyPages : ℕ) : Kernel (PayloadState F) Unit := do
  let base ← getFrames A newPages
  modify fun s =>
    { s with mem := copyLoop s.payload base copyPages (memset s.mem base 0 (newPages * PAGESIZE)) }
  let s ← get
  putAll A s.payload.phyPages.entries
  modify fun s =>
    { s with
      payload := { s.payload with phyPages := MemoryPayload.contiguousPages base newPages } }

/-- The last line of `resize`. -/
def setMemsz (newsz : ℕ) : Kernel (PayloadState F) Unit :=
  modify fun s => { s with payload := { s.payload with memsz := newsz } }

/-- `resize`. -/
def resizePayload (newsz : ℕ) : Kernel (PayloadState F) Unit := do
  let s ← get
  let m := s.payload
  if newsz = m.memsz then pure ()
  else if m.shared then throw .notSupported
  else
    let grow := decide (newsz > m.memsz) &&
      (m.growth.meets .GROW_UP || m.growth.meets .GROW_DOWN)
    let shrink := decide (newsz < m.memsz) &&
      (m.growth.meets .SHRINK_UP || m.growth.meets .SHRINK_DOWN)
    if !grow && !shrink then throw .notSupported
    else if m.continuity then
      let oldPages := pageAlignUp m.memsz / PAGESIZE
      let newPages := pageAlignUp newsz / PAGESIZE
      if newPages = 0 then do
        releasePagesFrom A 0
        setMemsz newsz
      else do
        relocate A newPages (if oldPages < newPages then oldPages else newPages)
        setMemsz newsz
    else do
      if newsz < m.memsz then releasePagesFrom A newsz else pure ()
      setMemsz newsz

end Functions

end Sustcore
