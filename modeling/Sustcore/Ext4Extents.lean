/-
# The ext4 driver: extent trees (`kernel/vfs/ext4.cpp`)

The blocks of an inode are found through its extent tree.  A node is a header of twelve bytes
and records of twelve bytes: in a leaf an extent, that is a run of logical blocks and the
physical block it starts at, and in an index node the first logical block of a child and the
block of the child.  The root lies in the inode, at offset 40 with room for four records; the
other nodes fill a block each.

Nodes are read where they lie in a buffer, at `base`.  A loop over the records of a node whose
counter is too large for the buffer leaves the vector, which is undefined.  A walk down a tree
visits every block at most once unless the tree has a cycle, on which the source does not
return; `walkBound` steps are enough for the others.
-/
import Sustcore.Ext4

namespace Sustcore.Ext4

open Kernel

/-! ## Nodes -/

def recordAt (base i : ℕ) : ℕ := base + 12 + 12 * i

def ehMagic (b : Buf) (base : ℕ) : ℕ := readLe b.byte 2 base

def ehEntries (b : Buf) (base : ℕ) : ℕ := readLe b.byte 2 (base + 2)

def ehMax (b : Buf) (base : ℕ) : ℕ := readLe b.byte 2 (base + 4)

def ehDepth (b : Buf) (base : ℕ) : ℕ := readLe b.byte 2 (base + 6)

/-- An extent: `len` logical blocks from `block` on lie at `phys`. -/
structure Extent where
  block : ℕ
  len : ℕ
  phys : ℕ
  deriving DecidableEq

/-- A record of an index node: the child for the logical blocks from `firstBlock` on. -/
structure IdxEntry where
  firstBlock : ℕ
  leafPhys : ℕ
  deriving DecidableEq

def extentLen (lenRaw : ℕ) : ℕ := if 0x8000 < lenRaw then lenRaw - 0x8000 else lenRaw

def extentUnwritten (lenRaw : ℕ) : Bool := 0x8000 < lenRaw

/-- `ee_len` of a record. -/
def eeLen (b : Buf) (base i : ℕ) : ℕ := readLe b.byte 2 (recordAt base i + 4)

def extentAt (b : Buf) (base i : ℕ) : Extent where
  block := readLe b.byte 4 (recordAt base i)
  len := extentLen (eeLen b base i)
  phys := joinU64 (readLe b.byte 4 (recordAt base i + 8)) (readLe b.byte 2 (recordAt base i + 6))

/-- A record as an index entry. -/
def idxAt (b : Buf) (base i : ℕ) : IdxEntry where
  firstBlock := readLe b.byte 4 (recordAt base i)
  leafPhys :=
    joinU64 (readLe b.byte 4 (recordAt base i + 4)) (readLe b.byte 2 (recordAt base i + 8))

def readExtents (b : Buf) (base entries : ℕ) : List Extent :=
  (List.range entries).map (extentAt b base)

/-- The entries of an index node. -/
def readIdxs (b : Buf) (base entries : ℕ) : List IdxEntry :=
  (List.range entries).map (idxAt b base)

/-- An extent is stored in a record. -/
def writeExtent (b : Buf) (base i : ℕ) (e : Extent) : Buf :=
  let b := b.writeLeAt 4 (recordAt base i) e.block
  let b := b.writeLeAt 2 (recordAt base i + 4) e.len
  let b := b.writeLeAt 2 (recordAt base i + 6) (e.phys / 2 ^ 32)
  b.writeLeAt 4 (recordAt base i + 8) e.phys

/-- An index entry is stored in a record. -/
def writeIdx (b : Buf) (base i : ℕ) (e : IdxEntry) : Buf :=
  let b := b.writeLeAt 4 (recordAt base i) e.firstBlock
  let b := b.writeLeAt 4 (recordAt base i + 4) e.leafPhys
  b.writeLeAt 2 (recordAt base i + 8) (e.leafPhys / 2 ^ 32)

/-- Extents are stored in the records from `i` on. -/
def writeExtents (base : ℕ) : ℕ → List Extent → Buf → Buf
  | _, [], b => b
  | i, e :: es, b => writeExtents base (i + 1) es (writeExtent b base i e)

/-- Index entries are stored in the records from `i` on. -/
def writeIdxs (base : ℕ) : ℕ → List IdxEntry → Buf → Buf
  | _, [], b => b
  | i, e :: es, b => writeIdxs base (i + 1) es (writeIdx b base i e)

/-- The `n` records from `pos` on move up by one, the last one first. -/
def shiftRecords (base pos : ℕ) : ℕ → Buf → Buf
  | 0, b => b
  | n + 1, b => shiftRecords base pos n
      (b.copy (recordAt base (pos + n + 1)) (b.sub (recordAt base (pos + n)) 12))

/-- The loop that looks for the place of a new record: behind the records whose first block is
at most `key`. -/
def insertPos (b : Buf) (base key : ℕ) : ℕ → ℕ → Except Halt ℕ
  | i, 0 => .ok i
  | i, count + 1 =>
    if b.size < recordAt base (i + 1) then .error .undefined
    else if key < readLe b.byte 4 (recordAt base i) then .ok i
    else insertPos b base key (i + 1) count

/-- Room is made for a record in front of the one at `pos`, and the counter of the node goes
up. -/
def makeRoom (b : Buf) (base entries pos : ℕ) : Except Halt Buf :=
  if pos < entries ∧ b.size < recordAt base (entries + 1) then .error .undefined
  else .ok ((shiftRecords base pos (entries - pos) b).writeLeAt 2 (base + 2) (entries + 1))

/-- A new extent in a leaf that is not full. -/
def insertExtentRecord (b : Buf) (base entries : ℕ) (e : Extent) : Except Halt Buf := do
  let pos ← insertPos b base e.block 0 entries
  let b ← makeRoom b base entries pos
  .ok (writeExtent b base pos e)

/-- A new entry in an index node that is not full. -/
def insertIdxRecord (b : Buf) (base entries : ℕ) (e : IdxEntry) : Except Halt Buf := do
  let pos ← insertPos b base e.firstBlock 0 entries
  let b ← makeRoom b base entries pos
  .ok (writeIdx b base pos e)

def insertExtentSorted (e : Extent) : List Extent → List Extent
  | [] => [e]
  | x :: xs => if e.block < x.block then e :: x :: xs else x :: insertExtentSorted e xs

def insertIdxSorted (e : IdxEntry) : List IdxEntry → List IdxEntry
  | [] => [e]
  | x :: xs => if e.firstBlock < x.firstBlock then e :: x :: xs else x :: insertIdxSorted e xs

/-- The block of a new leaf. -/
def leafNode (g : Super) (max : ℕ) (es : List Extent) : Buf :=
  let b := (Buf.zeros g.blockSize).writeLeAt 2 0 EXT4_EXT_MAGIC
  let b := b.writeLeAt 2 4 max
  (writeExtents 0 0 es b).writeLeAt 2 2 es.length

def indexNode (g : Super) (max : ℕ) (es : List IdxEntry) : Buf :=
  let b := (Buf.zeros g.blockSize).writeLeAt 2 0 EXT4_EXT_MAGIC
  let b := b.writeLeAt 2 2 es.length
  let b := b.writeLeAt 2 4 max
  let b := b.writeLeAt 2 6 1
  writeIdxs 0 0 es b

def blkMaxEntries (g : Super) : ℕ := u16 ((g.blockSize - 12) / 12)

/-! ## Lookup -/

/-- `Ext4ExtentMapping`. -/
structure Mapping where
  physicalBlock : ℕ
  mapped : Bool
  unwritten : Bool
  deriving DecidableEq

def Mapping.hole : Mapping := ⟨0, false, false⟩

/-- The loop over the extents of a leaf. -/
def findExtent (g : Super) (node : Buf) (logical : ℕ) : ℕ → ℕ → Result Mapping
  | _, 0 => .ok .hole
  | i, count + 1 =>
    let e := extentAt node 0 i
    if e.len = 0 then .error .invalidParam
    else if logical < e.block ∨ u32 (e.block + e.len) ≤ logical then
      findExtent g node logical (i + 1) count
    else if g.blockCount ≤ e.phys + (logical - e.block) then .error .outOfBoundary
    else .ok ⟨e.phys + (logical - e.block), true, extentUnwritten (eeLen node 0 i)⟩

/-- The loop over an index node: the child of the last entry that starts at or before
`logical`. -/
def chooseIdx (b : Buf) (base logical : ℕ) : ℕ → ℕ → Option ℕ → Except Halt (Option ℕ)
  | _, 0, chosen => .ok chosen
  | i, count + 1, chosen =>
    if b.size < recordAt base (i + 1) then .error .undefined
    else if logical < (idxAt b base i).firstBlock then .ok chosen
    else chooseIdx b base logical (i + 1) count (some (idxAt b base i).leafPhys)

/-- What a call of `extent_lookup_from_node` does with its node: it answers, or it goes on with
the block of a child. -/
def lookupStep (g : Super) (node : Buf) (logical : ℕ) : Except Halt (Result (Mapping ⊕ ℕ)) :=
  let entries := ehEntries node 0
  let depth := ehDepth node 0
  if node.size < 12 then .ok (.error .invalidParam)
  else if ehMagic node 0 ≠ EXT4_EXT_MAGIC then .ok (.error .invalidParam)
  else if ehMax node 0 < entries then .ok (.error .invalidParam)
  else if EXT4_MAX_EXTENT_DEPTH < depth then .ok (.error .invalidParam)
  else if entries = 0 then .ok (.ok (.inl .hole))
  else if node.size < 12 + entries * 12 then .ok (.error .invalidParam)
  else if depth = 0 then .ok ((findExtent g node logical 0 entries).map Sum.inl)
  else do
    match ← chooseIdx node 0 logical 0 entries none with
    | none => .ok (.ok (.inl .hole))
    | some leaf =>
      .ok (if g.blockCount ≤ leaf then .error .outOfBoundary else .ok (.inr leaf))

/-- The calls of `extent_lookup_from_node`, with a bound on their number. -/
def lookupWalk (g : Super) (s : State) (logical : ℕ) : ℕ → Buf → Except Halt (Result Mapping)
  | 0, _ => .error .outOfFuel
  | fuel + 1, node => do
      match ← lookupStep g node logical with
      | .error e => .ok (.error e)
      | .ok (.inl m) => .ok (.ok m)
      | .ok (.inr leaf) =>
        match readFsBlock g leaf g.blockSize s with
        | .error e => .ok (.error e)
        | .ok child => lookupWalk g s logical fuel child

/-- The root and every block of the volume. -/
def walkBound (g : Super) : ℕ := g.blockCount + 1

def extentLookupFromNode (g : Super) (node : Buf) (logical : ℕ) (s : State) :
    Except Halt (Result Mapping) :=
  lookupWalk g s logical (walkBound g) node

def extentLookup (g : Super) (inode logical : ℕ) : Kernel State Mapping := do
  let raw ← query (readInode g inode)
  if raw.size < 100 then throw .invalidParam
  else if iFlags raw &&& EXT4_EXTENTS_FL = 0 then throw .notSupported
  else queryHalt (extentLookupFromNode g (raw.sub 40 60) logical)

/-! ## Insertion -/

/-- The loop that tries to enlarge an extent of a leaf by the new one.  The new extent may end
where the old one starts; whether it follows the old one is tested by `follows`, for which root
and leaves have different code. -/
def mergeExtent (follows : Extent → Bool) (b : Buf) (base : ℕ) (e : Extent) :
    ℕ → ℕ → Except Halt (Option Buf)
  | _, 0 => .ok none
  | i, count + 1 =>
    let x := extentAt b base i
    if b.size < recordAt base (i + 1) then .error .undefined
    else if u32 (e.block + e.len) = x.block ∧ e.phys + e.len = x.phys then
      .ok (some ((b.writeLeAt 4 (recordAt base i) e.block).writeLeAt 2
        (recordAt base i + 4) (e.len + x.len)))
    else if follows x ∧ x.phys + x.len = e.phys then
      .ok (some (b.writeLeAt 2 (recordAt base i + 4) (x.len + e.len)))
    else mergeExtent follows b base e (i + 1) count

/-- The test of `insert_extent` at the root: `first == logical + elen`. -/
def followsRoot (e x : Extent) : Bool := x.block = u32 (e.block + x.len)

/-- The test of `insert_extent` in a leaf: `first + elen == logical`. -/
def followsLeaf (e x : Extent) : Bool := u32 (x.block + x.len) = e.block

/-- A second block is allocated, or the first one is given back. -/
def allocSecond (g : Super) (first : ℕ) : Kernel State ℕ := do
  match ← attempt (allocBlock g) with
  | .ok block => pure block
  | .error e =>
    let _ ← attempt (freeBlock g first)
    throw e

/-- A new node is written, or its block is given back. -/
def writeNewNode (g : Super) (block : ℕ) (node : Buf) : Kernel State Unit := do
  match ← attempt (writeFsBlock g block node) with
  | .ok () => pure ()
  | .error e =>
    let _ ← attempt (freeBlock g block)
    throw e

/-- The root is a full leaf: its extents and the new one go to two leaves, and the root becomes
an index node. -/
def splitRootLeaf (g : Super) (inode : ℕ) (raw : Buf) (e : Extent) : Kernel State Unit := do
  let total := u16 (ehEntries raw 40 + 1)
  let half := total / 2
  let sorted := insertExtentSorted e (readExtents raw 40 (ehEntries raw 40))
  let a ← allocBlock g
  let b ← allocSecond g a
  writeFsBlock g a (leafNode g (ehMax raw 40) (sorted.take half))
  writeNewNode g b (leafNode g (ehMax raw 40) ((sorted.take total).drop half))
  let raw := (raw.writeLeAt 2 42 2).writeLeAt 2 46 1
  let raw := writeIdx raw 40 0 ⟨(sorted.getD 0 e).block, a⟩
  let raw := writeIdx (raw.clear (recordAt 40 1) 12) 40 1 ⟨(sorted.getD half e).block, b⟩
  writeInodeRaw g inode raw

/-- The new entry for a node goes to the root. -/
def insertAtRoot (g : Super) (inode : ℕ) (raw : Buf) (e : IdxEntry) : Kernel State Unit := do
  let entries := ehEntries raw 40
  if ehMax raw 40 ≤ entries then
    -- root index full: promote
    if raw.size < recordAt 40 entries then halt .undefined
    else
      let all := insertIdxSorted e (readIdxs raw 40 entries)
      let half := (all.length + 1) / 2
      let a ← allocBlock g
      let b ← allocSecond g a
      writeFsBlock g a (indexNode g (blkMaxEntries g) (all.take half))
      writeNewNode g b (indexNode g (blkMaxEntries g) (all.drop half))
      let raw := (raw.writeLeAt 2 42 2).writeLeAt 2 46 2
      let raw := writeIdx raw 40 0 ⟨(all.getD 0 e).firstBlock, a⟩
      let raw := writeIdx raw 40 1 ⟨(all.getD half e).firstBlock, b⟩
      writeInodeRaw g inode raw
  else
    let raw ← ofHalt (insertIdxRecord raw 40 entries e)
    writeInodeRaw g inode raw

/-- The first entry that names the block `old` gets the block `new`. -/
def redirect (base old new : ℕ) : ℕ → ℕ → Buf → Buf
  | _, 0, b => b
  | i, count + 1, b =>
    if readLe b.byte 4 (recordAt base i + 4) = u32 old ∧
        readLe b.byte 2 (recordAt base i + 8) = u16 (old / 2 ^ 32) then
      (b.writeLeAt 4 (recordAt base i + 4) new).writeLeAt 2 (recordAt base i + 8)
        (new / 2 ^ 32)
    else redirect base old new (i + 1) count b

/-- The loop of `insert_extent` up the path from a split leaf to the root: `node` is the index
node that the new entry goes to, `path` the nodes above it.  A full node is replaced by two new
ones, and its parent's entry is redirected to the first of them. -/
def insertUpwards (g : Super) (inode : ℕ) (raw : Buf) (e : IdxEntry) (node : ℕ × Buf)
    (path : List (ℕ × Buf)) : Kernel State Unit := do
  let (block, buf) := node
  let entries := ehEntries buf 0
  if entries < ehMax buf 0 then
    let buf ← ofHalt (insertIdxRecord buf 0 entries e)
    writeFsBlock g block buf
  else if buf.size < recordAt 0 entries then halt .undefined
  else
    let all := insertIdxSorted e (readIdxs buf 0 entries)
    let half := (all.length + 1) / 2
    let a ← allocBlock g
    let b ← allocSecond g a
    let _ ← attempt (writeFsBlock g a (indexNode g (blkMaxEntries g) (all.take half)))
    let _ ← attempt (writeFsBlock g b (indexNode g (blkMaxEntries g) (all.drop half)))
    let e : IdxEntry := ⟨(all.getD half e).firstBlock, b⟩
    match path with
    | [] => insertAtRoot g inode (redirect 40 block a 0 (ehEntries raw 40) raw) e
    | parent :: path =>
      let parentBuf := redirect 0 block a 0 (ehEntries parent.2 0) parent.2
      insertUpwards g inode raw e (parent.1, parentBuf) path

/-- The walk of `insert_extent` to the leaf for a logical block, with the index nodes that it
passes, the lowest one first. -/
def descend (g : Super) (logical : ℕ) :
    ℕ → ℕ → Buf → List (ℕ × Buf) → Kernel State (ℕ × Buf × List (ℕ × Buf))
  | 0, _, _, _ => halt .outOfFuel
  | fuel + 1, block, node, path => do
      if ehDepth node 0 = 0 then pure (block, node, path)
      else
        match ← ofHalt (chooseIdx node 0 logical 0 (ehEntries node 0) none) with
        | none => throw .entryNotFound
        | some child =>
          let buf ← query (readFsBlock g child g.blockSize)
          let path := if 0 < ehDepth buf 0 then (child, buf) :: path else path
          descend g logical fuel child buf path

/-- The insertion into a leaf below the root. -/
def insertIntoLeaf (g : Super) (inode : ℕ) (raw : Buf) (e : Extent) (block : ℕ) (leaf : Buf)
    (path : List (ℕ × Buf)) : Kernel State Unit := do
  let entries := ehEntries leaf 0
  match ← ofHalt (mergeExtent (followsLeaf e) leaf 0 e 0 entries) with
  | some merged => writeFsBlock g block merged
  | none =>
    if entries < ehMax leaf 0 then
      let leaf ← ofHalt (insertExtentRecord leaf 0 entries e)
      writeFsBlock g block leaf
    else
      let total := u16 (entries + 1)
      let half := total / 2
      let sorted := insertExtentSorted e (readExtents leaf 0 entries)
      let new ← allocBlock g
      writeFsBlock g block ((writeExtents 0 0 (sorted.take half) leaf).writeLeAt 2 2 half)
      writeNewNode g new (leafNode g (ehMax leaf 0) ((sorted.take total).drop half))
      let entry : IdxEntry := ⟨(sorted.getD half e).block, new⟩
      match path with
      | [] => insertAtRoot g inode raw entry
      | node :: path => insertUpwards g inode raw entry node path

def insertExtent (g : Super) (inode logical physical len : ℕ) : Kernel State Unit := do
  let e : Extent := ⟨logical, len, physical⟩
  let raw ← query (readInodeRaw g inode)
  let entries := ehEntries raw 40
  if raw.size < 100 then throw .invalidParam
  else if ehMagic raw 40 ≠ EXT4_EXT_MAGIC then throw .invalidParam
  else if EXT4_MAX_EXTENT_DEPTH < ehDepth raw 40 then throw .invalidParam
  else if ehDepth raw 40 = 0 then
    match ← ofHalt (mergeExtent (followsRoot e) raw 40 e 0 entries) with
    | some merged => writeInodeRaw g inode merged
    | none =>
      if entries < ehMax raw 40 then
        let raw ← ofHalt (insertExtentRecord raw 40 entries e)
        writeInodeRaw g inode raw
      else splitRootLeaf g inode raw e
  else
    match ← ofHalt (chooseIdx raw 40 logical 0 entries none) with
    | none => throw .entryNotFound
    | some child =>
      let buf ← query (readFsBlock g child g.blockSize)
      let path := if 1 < ehDepth raw 40 then [(child, buf)] else []
      let (block, leaf, path) ← descend g logical (walkBound g) child buf path
      insertIntoLeaf g inode raw e block leaf path

end Sustcore.Ext4
