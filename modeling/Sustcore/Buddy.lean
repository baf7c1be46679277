/-
# The buddy page allocator (`kernel/mem/buddy.h`, `kernel/mem/buddy.cpp`)

The state of `BuddyAllocator`: the sixteen `free_area` lists, the pools of `FreeBlock`
descriptors, and the counter `_free_pages`.

A `FreeBlock *` is a pool number and a slot number (the pools are disjoint arrays, so
the address search of `free_freeblock` finds the pool the pointer points into), and a
doubly linked `free_area` list is a `List` of blocks.

Freeing and splitting call each other through descriptor allocation:
`put_page_in_order` → `alloc_freeblock` → `add_new_pool` → `fetch_frame_order` →
`put_page_in_order`.  Each function is first written over the function it calls
(`allocFreeblockWith`, `addNewPoolWith`, …) and the knot is tied in `allocFreeblock`,
whose argument `fuel` bounds the depth of nested pool expansions.  The public operations
start with more fuel than there are free pages, which is always enough
(`BuddyDescriptors.lean`).
-/
import Sustcore.Outcome

namespace Sustcore

open Function

/-! ## Data -/

abbrev MAX_BUDDY_ORDER : ℕ := 15
/-- `FREEBLOCK_POOL_SIZE`: slots of a pool. -/
abbrev FREEBLOCK_POOL_SIZE : ℕ := 512
/-- `FREEBLOCK_HEADER_BLOCKS`: slots of a pool that hold its header. -/
abbrev FREEBLOCK_HEADER_BLOCKS : ℕ := 4
/-- `FREEBLOCK_EXPAND_PAGES`: pages of a pool. -/
abbrev FREEBLOCK_EXPAND_PAGES : ℕ := 4

/-- A `FreeBlock *`: slot `idx` of the pool number `pool`. -/
structure BlockRef where
  pool : ℕ
  idx : ℕ
  deriving DecidableEq, Repr

/-- A linked `FreeBlock`: its own address, and its fields `paddr` and `order`. -/
structure FreeBlock where
  ref : BlockRef
  paddr : ℕ
  order : ℕ
  deriving DecidableEq, Repr

/-- A `FreeBlockPool`: the address of its pages, the bitmap of used slots and their
number `used`. -/
structure FreeBlockPool where
  paddr : ℕ
  bitmap : ℕ → Bool
  used : ℕ

/-- The static members of `BuddyAllocator`. -/
structure Buddy where
  freeArea : ℕ → List FreeBlock
  pools : List FreeBlockPool
  freePages : ℕ

def blockSizeForOrder (order : ℕ) : ℕ := 2 ^ (order + 12)

/-- The search loop of `pages2order`, with `n` orders left to try. -/
def pages2orderFrom (count : ℕ) : ℕ → ℕ → ℕ
  | 0, order => order
  | n + 1, order => if count ≤ 2 ^ order then order else pages2orderFrom count n (order + 1)

def pages2order (count : ℕ) : ℕ :=
  if count = 1 then 0
  else if count = 2 then 1
  else if count = 3 ∨ count = 4 then 2
  else pages2orderFrom count (MAX_BUDDY_ORDER + 1 - 3) 3

/-! ## Descriptor pools -/

/-- `init_pool`: the header slots are in use. -/
def initPool (paddr : ℕ) : FreeBlockPool where
  paddr := paddr
  bitmap := fun i => decide (i < FREEBLOCK_HEADER_BLOCKS)
  used := FREEBLOCK_HEADER_BLOCKS

/-- `pre_init`; `pool0` is the address of the static array `_buddy_pool0`. -/
def Buddy.preInit (pool0 : ℕ) : Buddy where
  freeArea := fun _ => []
  pools := [initPool pool0]
  freePages := 0

/-- `pool_needs_expand`. -/
def FreeBlockPool.needsExpand (p : FreeBlockPool) : Bool :=
  decide (p.used * 4 > FREEBLOCK_POOL_SIZE * 3)

/-- The inner search of `alloc_freeblock`: the first slot whose bit is clear. -/
def FreeBlockPool.firstClear (p : FreeBlockPool) : Option ℕ :=
  (List.range' FREEBLOCK_HEADER_BLOCKS (FREEBLOCK_POOL_SIZE - FREEBLOCK_HEADER_BLOCKS)).find?
    (fun i => !p.bitmap i)

/-- Set the bit of a slot and count it. -/
def FreeBlockPool.take (p : FreeBlockPool) (idx : ℕ) : FreeBlockPool :=
  { p with bitmap := update p.bitmap idx true, used := p.used + 1 }

/-- Clear the bit of a slot and count it. -/
def FreeBlockPool.give (p : FreeBlockPool) (idx : ℕ) : FreeBlockPool :=
  { p with bitmap := update p.bitmap idx false, used := p.used - 1 }

/-- The pool loop of `alloc_freeblock`: the first pool that is not full and has a clear
bit, and that bit. -/
def findSlot : List FreeBlockPool → Option BlockRef
  | [] => none
  | p :: ps =>
    let later := (findSlot ps).map fun r => { r with pool := r.pool + 1 }
    if p.used ≥ FREEBLOCK_POOL_SIZE then later
    else match p.firstClear with
      | some idx => some ⟨0, idx⟩
      | none => later

/-- Take the slot `r`. -/
def Buddy.takeSlot (s : Buddy) (r : BlockRef) : Buddy :=
  { s with pools := s.pools.modify r.pool (·.take r.idx) }

def Buddy.freeFreeblock (s : Buddy) (r : BlockRef) : Except Halt Buddy :=
  match s.pools[r.pool]? with
  | none => .error .panic
  | some p => do
      assertThat (decide (FREEBLOCK_HEADER_BLOCKS ≤ r.idx))
      assertThat (p.bitmap r.idx)
      pure { s with pools := s.pools.modify r.pool (·.give r.idx) }

/-- `attach_pool` of a fresh pool. -/
def Buddy.attachPool (s : Buddy) (p : FreeBlockPool) : Buddy :=
  { s with pools := s.pools ++ [p] }

/-! ## Free lists -/

/-- The walk of `link_block` past the head: insert before the first block that does not
lie below `node`. -/
def linkAfter (node : FreeBlock) : List FreeBlock → List FreeBlock
  | [] => [node]
  | b :: bs => if b.paddr < node.paddr then b :: linkAfter node bs else node :: b :: bs

/-- `link_block` on one list. -/
def linkInto (node : FreeBlock) : List FreeBlock → List FreeBlock
  | [] => [node]
  | b :: bs => if node.paddr < b.paddr then node :: b :: bs else b :: linkAfter node bs

def Buddy.linkBlock (s : Buddy) (node : FreeBlock) : Buddy :=
  { s with
    freeArea := update s.freeArea node.order (linkInto node (s.freeArea node.order)) }

def Buddy.unlinkBlock (s : Buddy) (node : FreeBlock) : Buddy :=
  { s with
    freeArea := update s.freeArea node.order
      ((s.freeArea node.order).eraseP fun b => decide (b.ref = node.ref)) }

/-- `node->prev`. -/
def prevOf (r : BlockRef) : List FreeBlock → Option FreeBlock
  | a :: b :: bs => if b.ref = r then some a else prevOf r (b :: bs)
  | _ => none

/-- `node->next`. -/
def nextOf (r : BlockRef) : List FreeBlock → Option FreeBlock
  | a :: bs => if a.ref = r then bs.head? else nextOf r bs
  | [] => none

/-- `find_buddy_node`: only the two neighbours in the list are looked at. -/
def Buddy.findBuddyNode (s : Buddy) (node : FreeBlock) : Option FreeBlock :=
  if node.order > MAX_BUDDY_ORDER then none
  else
    let isBuddy := fun b : FreeBlock =>
      decide (b.paddr = node.paddr ^^^ blockSizeForOrder node.order ∧ b.order = node.order)
    ((prevOf node.ref (s.freeArea node.order)).filter isBuddy).or
      ((nextOf node.ref (s.freeArea node.order)).filter isBuddy)

/-! ## Putting blocks back -/

section Put

variable (alloc : Buddy → Except Halt (Result BlockRef × Buddy))

/-- The merge loop of `put_page_in_order`, with `n` orders left up to the largest. -/
def putLoop : ℕ → Buddy → ℕ → ℕ → Except Halt Buddy
  | 0, s, _, _ => .ok s
  | n + 1, s, paddr, order => do
      let (res, s) ← alloc s
      match res with
      | .error _ => .error .assertFailed
      | .ok ref =>
        let node : FreeBlock := { ref := ref, paddr := paddr, order := order }
        let s := s.linkBlock node
        if order = MAX_BUDDY_ORDER then pure s
        else match s.findBuddyNode node with
          | none => pure s
          | some buddy =>
            let merged := if buddy.paddr < paddr then buddy.paddr else paddr
            let s := (s.unlinkBlock node).unlinkBlock buddy
            let s ← s.freeFreeblock ref
            let s ← s.freeFreeblock buddy.ref
            putLoop n s merged (order + 1)

/-- `put_page_in_order`. -/
def putPageInOrderWith (s : Buddy) (paddr : ℕ) (order : ℕ) : Except Halt Buddy :=
  if paddr = 0 then pure s
  else do
    assertThat (decide (order ≤ MAX_BUDDY_ORDER))
    assertThat (decide (paddr % blockSizeForOrder order = 0))
    putLoop alloc (MAX_BUDDY_ORDER + 1 - order) s paddr order

end Put

section Split

variable (put : Buddy → ℕ → ℕ → Except Halt Buddy)

/-- The split loop of `fetch_frame_order`: put back the upper halves of the orders
`order + d - 1` down to `order`. -/
def splitLoop (paddr : ℕ) (order : ℕ) : ℕ → Buddy → Except Halt Buddy
  | 0, s => pure s
  | d + 1, s => do
      let s ← put s (paddr + blockSizeForOrder (order + d)) (order + d)
      splitLoop paddr order d s

/-- `fetch_frame_order`. -/
def fetchFrameOrderWith (s : Buddy) (order : ℕ) : Except Halt (Result ℕ × Buddy) :=
  match (List.range' order (MAX_BUDDY_ORDER + 1 - order)).find?
      (fun k => !(s.freeArea k).isEmpty) with
  | none => pure (.error .outOfMemory, s)
  | some current =>
    match s.freeArea current with
    | [] => .error .panic
    | node :: _ => do
        let s ← (s.unlinkBlock node).freeFreeblock node.ref
        let s ← splitLoop put node.paddr order (current - order) s
        pure (.ok node.paddr, s)

/-- The inner loop of `add_memory_range`: the largest order that fits the rest of the
range and the alignment of its address, with `n` orders left to try. -/
def fitOrder (remain : ℕ) (addr : ℕ) : ℕ → ℕ → ℕ
  | 0, order => order
  | n + 1, order =>
    if 2 ^ (order + 1) ≤ remain ∧ addr % (2 ^ (order + 1) * PAGESIZE) = 0 then
      fitOrder remain addr n (order + 1)
    else order

/-- The outer loop of `add_memory_range`; each round takes at least one page, so `n`
rounds are enough for `n` pages. -/
def addMemoryLoop : ℕ → ℕ → ℕ → Buddy → Except Halt Buddy
  | 0, _, _, s => pure s
  | n + 1, remain, addr, s =>
    if remain = 0 then pure s
    else do
      let order := fitOrder remain addr MAX_BUDDY_ORDER 0
      let s ← put s addr order
      addMemoryLoop n (remain - 2 ^ order) (addr + 2 ^ order * PAGESIZE) s

/-- `add_memory_range`. -/
def addMemoryRangeWith (s : Buddy) (paddr : ℕ) (pages : ℕ) : Except Halt Buddy :=
  addMemoryLoop put pages pages paddr s

end Split

/-- `add_new_pool`. -/
def addNewPoolWith (fetch : Buddy → ℕ → Except Halt (Result ℕ × Buddy)) (s : Buddy) :
    Except Halt (Result Unit × Buddy) := do
  let (res, s) ← fetch s (pages2order FREEBLOCK_EXPAND_PAGES)
  match res with
  | .error e => pure (.error e, s)
  | .ok paddr => pure (.ok (), s.attachPool (initPool paddr))

/-- `alloc_freeblock`: a free slot of an existing pool, or one of a new pool. -/
def allocFreeblockWith (addNewPool : Buddy → Except Halt (Result Unit × Buddy)) (s : Buddy) :
    Except Halt (Result BlockRef × Buddy) :=
  match findSlot s.pools with
  | some r => pure (.ok r, s.takeSlot r)
  | none => do
      let (res, s) ← addNewPool s
      match res with
      | .error e => pure (.error e, s)
      | .ok () =>
        match s.pools.getLast? with
        | none => .error .panic
        | some tail =>
          match tail.firstClear with
          | none => pure (.error .outOfMemory, s)
          | some idx =>
            let r : BlockRef := ⟨s.pools.length - 1, idx⟩
            pure (.ok r, s.takeSlot r)

/-! ## The knot -/

/-- `alloc_freeblock`, with at most `fuel` nested pool expansions. -/
def allocFreeblock : ℕ → Buddy → Except Halt (Result BlockRef × Buddy)
  | 0 => allocFreeblockWith fun _ => .error .outOfFuel
  | fuel + 1 => allocFreeblockWith
      (addNewPoolWith (fetchFrameOrderWith (putPageInOrderWith (allocFreeblock fuel))))

/-- `put_page_in_order`, with at most `fuel` nested pool expansions. -/
def putOrder (fuel : ℕ) : Buddy → ℕ → ℕ → Except Halt Buddy :=
  putPageInOrderWith (allocFreeblock fuel)

/-- `fetch_frame_order`, with at most `fuel` nested pool expansions. -/
def fetchOrder (fuel : ℕ) : Buddy → ℕ → Except Halt (Result ℕ × Buddy) :=
  fetchFrameOrderWith (putOrder fuel)

/-- `add_new_pool`, with at most `fuel` pool expansions, itself included. -/
def addPool : ℕ → Buddy → Except Halt (Result Unit × Buddy)
  | 0, _ => .error .outOfFuel
  | fuel + 1, s => addNewPoolWith (fetchOrder fuel) s

/-- `maybe_expand_pool`, with at most `fuel` pool expansions. -/
def expandPool (fuel : ℕ) (s : Buddy) : Except Halt (Result Unit × Buddy) :=
  match s.pools.getLast? with
  | none => pure (.ok (), s)
  | some tail => if tail.needsExpand then addPool fuel s else pure (.ok (), s)

/-- The end of `get_free_page`: the pages are counted and the pools looked after. -/
def finishGet (fuel : ℕ) (s : Buddy) (paddr frameCount : ℕ) :
    Except Halt (Result ℕ × Buddy) := do
  assertThat (decide (s.freePages ≥ frameCount))
  let s := { s with freePages := s.freePages - frameCount }
  let (res, s) ← expandPool fuel s
  match res with
  | .error e => pure (.error e, s)
  | .ok () => pure (.ok paddr, s)

/-- `get_free_page`, with at most `fuel` nested pool expansions in each of its steps. -/
def getPages (fuel : ℕ) (s : Buddy) (frameCount : ℕ) : Except Halt (Result ℕ × Buddy) :=
  if frameCount = 0 then pure (.error .invalidParam, s)
  else if frameCount > 2 ^ MAX_BUDDY_ORDER then pure (.error .invalidParam, s)
  else do
    let (res, s) ← fetchOrder fuel s (pages2order frameCount)
    match res with
    | .error e => pure (.error e, s)
    | .ok paddr => do
        let pages := 2 ^ pages2order frameCount
        let s ← if pages > frameCount then
            addMemoryRangeWith (putOrder fuel) s (paddr + frameCount * PAGESIZE)
              (pages - frameCount)
          else pure s
        finishGet fuel s paddr frameCount

/-- `get_free_pages_in_order`, with at most `fuel` nested pool expansions. -/
def getOrder (fuel : ℕ) (s : Buddy) (order : ℕ) : Except Halt (Result ℕ × Buddy) :=
  if order > MAX_BUDDY_ORDER then pure (.error .invalidParam, s)
  else fetchOrder fuel s order

/-- `put_page`, with at most `fuel` nested pool expansions in each block put. -/
def putPages (fuel : ℕ) (s : Buddy) (paddr : ℕ) (frameCount : ℕ) : Except Halt Buddy :=
  if paddr = 0 ∨ frameCount = 0 then pure s
  else do
    assertThat (decide (paddr % PAGESIZE = 0))
    addMemoryRangeWith (putOrder fuel) { s with freePages := s.freePages + frameCount } paddr
      frameCount

/-! ## Public operations -/

/-- The number of pages in the blocks on the `free_area` lists. -/
def Buddy.listedPages (s : Buddy) : ℕ :=
  ((List.range (MAX_BUDDY_ORDER + 1)).map fun k => (s.freeArea k).length * 2 ^ k).sum

def Buddy.getFreePage (s : Buddy) (frameCount : ℕ) : Except Halt (Result ℕ × Buddy) :=
  getPages (s.listedPages + 1) s frameCount

def Buddy.getFreePagesInOrder (s : Buddy) (order : ℕ) : Except Halt (Result ℕ × Buddy) :=
  getOrder (s.listedPages + 1) s order

def Buddy.putPage (s : Buddy) (paddr : ℕ) (frameCount : ℕ) : Except Halt Buddy :=
  putPages (s.listedPages + frameCount + 1) s paddr frameCount

def Buddy.putPageInOrder (s : Buddy) (paddr : ℕ) (order : ℕ) : Except Halt Buddy :=
  putOrder (s.listedPages + 1) s paddr order

def Buddy.addMemoryRange (s : Buddy) (paddr : ℕ) (pages : ℕ) : Except Halt Buddy :=
  addMemoryRangeWith (putOrder (s.listedPages + pages + 1)) s paddr pages

end Sustcore
