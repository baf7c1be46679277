/-
# Slabs (`kernel/mem/slub.h`)

A `Slub` hands out objects of one size.  It takes pages from the page allocator and divides each
into a header and objects; the objects that are not in use are linked through their first word,
and the header has the first of them and the number of those in use.  Slabs are in one of three
intrusive lists.

The class of a `Slub` is the size and alignment of its type, with what the language says about
them and with the limit above which the other template is chosen.  Headers are kept as records by
the address of their slab, and of the rest of the memory only the words that serve as links are
kept; the users of objects may write to them at will.  Addresses are those of the kernel's map of
physical memory.  Taking a slab out of a list that it is not in is `Halt.undefined`.
-/
import Sustcore.Chain
import Sustcore.Frames
import Sustcore.KernelRules

namespace Sustcore.Slab

open Function Kernel

/-! ## Classes -/

abbrev SLAB_BYTES : ℕ := PAGESIZE
abbrev SLAB_KMAX : ℕ := 2048
abbrev KPA_OFFSET : ℕ := 0xFFFFFFC000000000

/-- `sizeof(void *)` and `alignof(void *)`. -/
abbrev PTR_SIZE : ℕ := 8

/-- `sizeof(SlabHeader)`: the list head, three words and the state. -/
abbrev HEADER_SIZE : ℕ := 48

/-- `align_down`; `align` is a power of two. -/
def alignDown (addr align : ℕ) : ℕ := addr / align * align

/-- `align_up` and `round_up_pow2`. -/
def alignUp (addr align : ℕ) : ℕ := alignDown (addr + align - 1) align

/-- The size and alignment of a type for which there are slabs. -/
structure SlabClass where
  rawSize : ℕ
  rawAlign : ℕ
  align_pow : ∃ k, rawAlign = 2 ^ k
  size_dvd : rawAlign ∣ rawSize
  size_pos : 0 < rawSize
  size_lt : rawSize < SLAB_KMAX

namespace SlabClass

variable (c : SlabClass)

def objAlign : ℕ := max c.rawAlign PTR_SIZE

def objSize : ℕ := alignUp (max c.rawSize PTR_SIZE) c.objAlign

/-- `total` of `init_slab_headers`. -/
def total : ℕ := (SLAB_BYTES - alignUp HEADER_SIZE c.objAlign) / c.objSize

/-- `slab_start` of `init_slab_headers`. -/
def slabStart (slab : ℕ) : ℕ := alignUp (slab + HEADER_SIZE) c.objAlign

def object (slab i : ℕ) : ℕ := c.slabStart slab + i * c.objSize

def objects (slab : ℕ) : List ℕ := (List.range c.total).map (c.object slab)

end SlabClass

/-! ## The state -/

/-- `SlabHeader::SlabState`. -/
inductive SlabState where
  | EMPTY
  | PARTIAL
  | FULL
  deriving DecidableEq, Repr

/-- `SlabHeader`, without the links of the lists. -/
structure SlabHeader where
  freelist : ℕ
  inuse : ℕ
  total : ℕ
  state : SlabState

/-- `Slub`: the page allocator, the headers and the words of the memory, and the slabs of the
lists `empty`, `partial` and `full`, from the front to the back. -/
structure Slub (F : Type) where
  frames : F
  header : ℕ → SlabHeader
  word : ℕ → ℕ
  lists : SlabState → List ℕ

section Operations

variable {F : Type}

def slabOf (p : ℕ) : ℕ := alignDown p SLAB_BYTES

def Slub.linked (s : Slub F) (slab : ℕ) : Bool :=
  slab ∈ s.lists .EMPTY ∨ slab ∈ s.lists .PARTIAL ∨ slab ∈ s.lists .FULL

def Slub.setHeader (s : Slub F) (slab : ℕ) (header : SlabHeader) : Slub F :=
  { s with header := update s.header slab header }

def Slub.setList (s : Slub F) (state : SlabState) (slabs : List ℕ) : Slub F :=
  { s with lists := update s.lists state slabs }

/-- `push_back`; a node that is linked already is not inserted. -/
def pushBack (state : SlabState) (slab : ℕ) : Kernel (Slub F) Unit :=
  modify fun s => if s.linked slab then s else s.setList state (s.lists state ++ [slab])

def erase (state : SlabState) (slab : ℕ) : Kernel (Slub F) Unit := do
  let s ← get
  if slab ∈ s.lists state then
    modify fun s => s.setList state ((s.lists state).erase slab)
  else halt .undefined

/-- What `to_empty`, `to_partial` and `to_full` have in common. -/
def moveTo (state : SlabState) (slab : ℕ) : Kernel (Slub F) Unit := do
  let s ← get
  (if (s.header slab).state ≠ state then erase (s.header slab).state slab else pure ())
  modify fun s => s.setHeader slab { s.header slab with state := state }
  pushBack state slab

def toEmpty (slab : ℕ) : Kernel (Slub F) Unit := moveTo .EMPTY slab

def toPartial (slab : ℕ) : Kernel (Slub F) Unit := moveTo .PARTIAL slab

def toFull (slab : ℕ) : Kernel (Slub F) Unit := moveTo .FULL slab

variable (c : SlabClass)

/-- The loop of `init_slab_headers`: the objects below `i` get their links. -/
def linkLoop (slab : ℕ) : ℕ → ℕ → (ℕ → ℕ) → ℕ × (ℕ → ℕ)
  | 0, head, word => (head, word)
  | i + 1, head, word =>
    linkLoop slab i (c.object slab i) (update word (c.object slab i) head)

/-- `init_slab_headers`, on a header that was just constructed. -/
def Slub.initSlabHeaders (s : Slub F) (slab : ℕ) : Slub F :=
  let (head, word) := linkLoop c slab c.total 0 s.word
  { s with word := word }.setHeader slab ⟨head, 0, c.total, .EMPTY⟩

variable (P : FrameAllocator F)

/-- `new_slab`; `none` is `nullptr`. -/
def newSlab : Kernel (Slub F) (Option ℕ) := do
  let s ← get
  let (res, frames) ← ofHalt (P.getFreePage s.frames 1)
  modify fun s => { s with frames := frames }
  match res with
  | .error _ => pure none
  | .ok paddr => do
      modify fun s => s.initSlabHeaders c (paddr + KPA_OFFSET)
      pure (some (paddr + KPA_OFFSET))

/-- The first part of `alloc`: a slab with a free object. -/
def chooseSlab : Kernel (Slub F) (Option ℕ) := do
  let s ← get
  match (s.lists .PARTIAL).getLast? with
  | some slab => pure (some slab)
  | none =>
    match (s.lists .EMPTY).getLast? with
    | some slab => do
        toPartial slab
        pure (some slab)
    | none => do
        match ← newSlab c P with
        | none => pure none
        | some slab => do
            modify fun s => s.setHeader slab { s.header slab with state := .PARTIAL }
            pushBack .PARTIAL slab
            pure (some slab)

/-- The second part of `alloc`: the first free object of the slab. -/
def takeObject (slab : ℕ) : Kernel (Slub F) ℕ := do
  let s ← get
  let obj := (s.header slab).freelist
  if obj = 0 then halt .assertFailed
  else do
    modify fun s => s.setHeader slab
      { s.header slab with freelist := s.word obj, inuse := (s.header slab).inuse + 1 }
    (if (s.header slab).inuse + 1 = (s.header slab).total then toFull slab else pure ())
    pure obj

/-- `alloc`; `none` is `nullptr`. -/
def alloc : Kernel (Slub F) (Option ℕ) := do
  match ← chooseSlab c P with
  | none => pure none
  | some slab => do
      let obj ← takeObject slab
      pure (some obj)

/-- `free` and `inner_free`. -/
def free (ptr : ℕ) : Kernel (Slub F) Unit := do
  if ptr = 0 then pure ()
  else do
    let slab := slabOf ptr
    let s ← get
    let inuse := (s.header slab).inuse - 1
    modify fun s => { s with word := update s.word ptr (s.header slab).freelist }
    modify fun s => s.setHeader slab { s.header slab with freelist := ptr, inuse := inuse }
    if inuse = 0 then toEmpty slab
    else if inuse = (s.header slab).total - 1 then toPartial slab
    else pure ()

end Operations

end Sustcore.Slab
