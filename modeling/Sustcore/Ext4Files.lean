/-
# The ext4 driver: directories and files (`kernel/vfs/ext4.cpp`)

A block of a directory is a chain of records: inode number, length of the record, length of the
name, type and name; a record with the inode number zero is free.  The loops over a chain end at
a record that does not fit, and a record has at least eight bytes, so the size of the block
bounds their number of rounds.

The operations of `Ext4File`, `Ext4Symlink` and `Ext4Directory` are the members of `Op`; `exec`
runs one of them.  `sync` writes the buffer cache back, which changes no byte that the driver
sees.
-/
import Sustcore.Ext4Extents

namespace Sustcore.Ext4

open Kernel List

/-! ## Names and records -/

/-- `"."`. -/
def dot : List UInt8 := [46]

/-- `".."`. -/
def dotDot : List UInt8 := [46, 46]

def validateEntryName (name : List UInt8) : Result Unit :=
  if name = [] ∨ 255 < name.length ∨ name = dot ∨ name = dotDot then .error .invalidParam
  else if 47 ∈ name then .error .invalidParam
  else .ok ()

def minDirRecLen (nameLen : ℕ) : ℕ := u16 ((8 + nameLen + 3) / 4 * 4)

/-- `inode` of a record. -/
def deInode (b : Buf) (off : ℕ) : ℕ := readLe b.byte 4 off

/-- `rec_len` of a record. -/
def deRecLen (b : Buf) (off : ℕ) : ℕ := readLe b.byte 2 (off + 4)

/-- `name_len` of a record. -/
def deNameLen (b : Buf) (off : ℕ) : ℕ := readLe b.byte 1 (off + 6)

def deName (b : Buf) (off : ℕ) : List UInt8 :=
  (range (deNameLen b off)).map fun k => b.byte (off + 8 + k)

/-- The test with which the loops over a chain go on: there is a record, and it fits. -/
def recordFits (b : Buf) (off : ℕ) : Bool :=
  off + 8 ≤ b.size ∧ 8 ≤ deRecLen b off ∧ off + deRecLen b off ≤ b.size ∧
    deNameLen b off ≤ deRecLen b off - 8

def putRecord (b : Buf) (off inode recLen fileType : ℕ) (name : List UInt8) : Buf :=
  let b := b.writeLeAt 4 off inode
  let b := b.writeLeAt 2 (off + 4) recLen
  let b := b.writeLeAt 1 (off + 6) name.length
  let b := b.writeLeAt 1 (off + 7) fileType
  b.copy (off + 8) (Buf.ofList name)

/-! ## Loops over a chain of records -/

/-- The entries of a block, without those for the directory itself and for its parent. -/
def blockEntries (b : Buf) : ℕ → ℕ → List DirEntry
  | 0, _ => []
  | fuel + 1, off =>
    if recordFits b off then
      let rest := blockEntries b fuel (off + deRecLen b off)
      if deInode b off ≠ 0 ∧ deNameLen b off ≠ 0 ∧ deName b off ≠ dot ∧ deName b off ≠ dotDot
      then ⟨deInode b off, deName b off⟩ :: rest
      else rest
    else []

/-- The block with a new record: in the first free record that is long enough, or behind the
first record with enough space left over. -/
def placeRecord (child fileType : ℕ) (name : List UInt8) (b : Buf) : ℕ → ℕ → Option Buf
  | 0, _ => none
  | fuel + 1, off =>
    let need := minDirRecLen name.length
    let recLen := deRecLen b off
    let actual := minDirRecLen (deNameLen b off)
    if recordFits b off then
      if deInode b off = 0 then
        if need ≤ recLen then some (putRecord b off child recLen fileType name)
        else placeRecord child fileType name b fuel (off + recLen)
      else if actual + need ≤ recLen then
        some (putRecord (b.writeLeAt 2 (off + 4) actual) (off + actual) child
          (recLen - actual) fileType name)
      else placeRecord child fileType name b fuel (off + recLen)
    else none

/-- The block without the record of a name, whose space goes to the record before it. -/
def dropRecord (name : List UInt8) (b : Buf) : ℕ → ℕ → Option ℕ → Option Buf
  | 0, _, _ => none
  | fuel + 1, off, prev =>
    if recordFits b off then
      if deInode b off ≠ 0 ∧ deName b off = name then
        let cleared := b.writeLeAt 4 off 0
        match prev with
        | none => some cleared
        | some p => some (cleared.writeLeAt 2 (p + 4) (deRecLen b p + deRecLen b off))
      else dropRecord name b fuel (off + deRecLen b off) (some off)
    else none

/-- The block with a record renamed in place. -/
def renameRecord (oldName newName : List UInt8) (b : Buf) : ℕ → ℕ → Option (Result Buf)
  | 0, _ => none
  | fuel + 1, off =>
    if recordFits b off then
      if deInode b off ≠ 0 ∧ deName b off = oldName then
        if deRecLen b off < minDirRecLen newName.length then some (.error .notSupported)
        else
          let b' := b.writeLeAt 1 (off + 6) newName.length
          let b' := b'.clear (off + 8) (deNameLen b off)
          some (.ok (b'.copy (off + 8) (Buf.ofList newName)))
      else renameRecord oldName newName b fuel (off + deRecLen b off)
    else none

/-! ## Directories -/

def blocksFor (g : Super) (size : ℕ) : ℕ := u64 (size + g.blockSize - 1) / g.blockSize

def readDirectory (g : Super) (inode : ℕ) : Kernel State (List DirEntry) := do
  let raw ← query (readInode g inode)
  if fileType (iMode raw) ≠ EXT4_S_IFDIR then throw .invalidParam
  else
    collect (fun logical => do
      let m ← extentLookup g inode (u32 logical)
      if !m.mapped ∨ m.unwritten then pure []
      else
        let block ← query (readFsBlock g m.physicalBlock g.blockSize)
        pure (blockEntries block block.size 0)) 0 (blocksFor g (iSize raw))

/-- `insert_dir_entry`.  After `insert_extent` has written the inode, a second write of it
succeeds, so that the rollback behind it is left out. -/
def insertDirEntry (g : Super) (parent child : ℕ) (name : List UInt8) (type : ℕ) :
    Kernel State Unit := do
  ofResult (validateEntryName name)
  let raw ← query (readInode g parent)
  if fileType (iMode raw) ≠ EXT4_S_IFDIR then throw .invalidParam
  else if iFlags raw &&& EXT4_INDEX_FL ≠ 0 then throw .notSupported
  else
    let size := iSize raw
    let placed ← search (fun logical => do
      let m ← extentLookup g parent (u32 logical)
      if !m.mapped ∨ m.unwritten then pure none
      else
        let block ← query (readFsBlock g m.physicalBlock g.blockSize)
        match placeRecord child type name block block.size 0 with
        | none => pure none
        | some block =>
          writeFsBlock g m.physicalBlock block
          pure (some ())) 0 (blocksFor g size)
    match placed with
    | some () => pure ()
    | none =>
      let new ← allocBlock g
      writeNewNode g new (putRecord (Buf.zeros g.blockSize) 0 child (u16 g.blockSize) type name)
      match ← attempt (insertExtent g parent (u32 (blocksFor g size)) new 1) with
      | .error e =>
        let _ ← attempt (freeBlock g new)
        throw e
      | .ok () => updateInodeSize g parent (size + g.blockSize)

def removeDirEntry (g : Super) (parent : ℕ) (name : List UInt8) : Kernel State Unit :=
  if g.readOnly then throw .notSupported
  else do
    let raw ← query (readInode g parent)
    if fileType (iMode raw) ≠ EXT4_S_IFDIR then throw .invalidParam
    else
      let removed ← search (fun logical => do
        let m ← extentLookup g parent (u32 logical)
        if !m.mapped then pure none
        else
          let block ← query (readFsBlock g m.physicalBlock g.blockSize)
          match dropRecord name block block.size 0 none with
          | none => pure none
          | some block =>
            writeFsBlock g m.physicalBlock block
            pure (some ())) 0 (blocksFor g (iSize raw))
      match removed with
      | some () => pure ()
      | none => throw .entryNotFound

/-- The checks with which the calls begin that make a new entry. -/
def checkNewName (g : Super) (parent : ℕ) (name : List UInt8) : Kernel State Unit := do
  ofResult (validateEntryName name)
  let entries ← readDirectory g parent
  if name ∈ entries.map DirEntry.name then throw .keyDuplicated else pure ()

/-- The last step of the calls that make a new inode: its entry is inserted, or `undo` runs and
the inode is released. -/
def enterOrRelease (g : Super) (parent inode : ℕ) (name : List UInt8) (type : ℕ)
    (undo : Kernel State Unit) : Kernel State ℕ := do
  match ← attempt (insertDirEntry g parent inode name type) with
  | .ok () => pure inode
  | .error e =>
    undo
    let _ ← attempt (releaseFileInode g inode)
    throw e

/-- A step of the calls that make a new inode: if it fails, `undo` runs and the inode is
released. -/
def orRelease {α : Type} (g : Super) (inode : ℕ) (undo : Kernel State Unit)
    (x : Kernel State α) : Kernel State α := do
  match ← attempt x with
  | .ok a => pure a
  | .error e =>
    undo
    let _ ← attempt (releaseFileInode g inode)
    throw e

/-- The block is given back, whatever `free_block` says. -/
def giveBack (g : Super) (block : ℕ) : Kernel State Unit := do
  let _ ← attempt (freeBlock g block)
  pure ()

def createFile (g : Super) (parent : ℕ) (name : List UInt8) : Kernel State ℕ :=
  if g.readOnly then throw .notSupported
  else do
    checkNewName g parent name
    let inode ← allocFileInode g
    enterOrRelease g parent inode name EXT4_FT_REG_FILE (pure ())

def createLink (g : Super) (parent : ℕ) (name : List UInt8) (target : ℕ) : Kernel State Unit :=
  if g.readOnly then throw .notSupported
  else do
    checkNewName g parent name
    let raw ← query (readInodeRaw g target)
    if fileType (iMode raw) ≠ EXT4_S_IFREG then throw .invalidParam
    else if iLinks raw = 0 ∨ EXT4_LINK_MAX ≤ iLinks raw then throw .invalidParam
    else
      let links := iLinks raw
      let now ← nextTime
      let raw := (raw.writeLeAt 2 26 (links + 1)).writeLeAt 4 12 now
      writeInodeRaw g target raw
      match ← attempt (insertDirEntry g parent target name EXT4_FT_REG_FILE) with
      | .ok () => pure ()
      | .error e =>
        let _ ← attempt (writeInodeRaw g target (raw.writeLeAt 2 26 links))
        throw e

def newDirBlock (g : Super) (inode parent : ℕ) : Buf :=
  let b := putRecord (Buf.zeros g.blockSize) 0 inode (minDirRecLen 1) EXT4_FT_DIR dot
  putRecord b (minDirRecLen 1) parent (u16 (u16 g.blockSize + 2 ^ 16 - minDirRecLen 1))
    EXT4_FT_DIR dotDot

def createDirectory (g : Super) (parent : ℕ) (name : List UInt8) : Kernel State ℕ :=
  if g.readOnly then throw .notSupported
  else do
    checkNewName g parent name
    let inode ← allocFileInode g
    let raw ← query (readInodeRaw g inode)
    -- `EXT4_S_IFDIR | 0755`
    let raw := (raw.writeLeAt 2 0 0x41ED).writeLeAt 2 26 2
    orRelease g inode (pure ()) (writeInodeRaw g inode raw)
    let block ← orRelease g inode (pure ()) (allocBlock g)
    orRelease g inode (giveBack g block) (insertExtent g inode 0 block 1)
    updateInodeSize g inode g.blockSize
    orRelease g inode (pure ()) (writeFsBlock g block (newDirBlock g inode parent))
    enterOrRelease g parent inode name EXT4_FT_DIR (pure ())

/-- The block of a long symbolic link that could not be entered is given back. -/
def undoSymlink (g : Super) (inode : ℕ) (target : List UInt8) : Kernel State Unit :=
  if 60 < target.length then do
    match ← attempt (extentLookup g inode 0) with
    | .ok m => if m.mapped then giveBack g m.physicalBlock else pure ()
    | .error _ => pure ()
  else pure ()

/-- The target of a new symbolic link is stored: in the inode if it has at most 60 bytes, and
otherwise in a block. -/
def storeTarget (g : Super) (inode : ℕ) (raw : Buf) (target : List UInt8) :
    Kernel State Unit :=
  if target.length ≤ 60 then
    orRelease g inode (pure ())
      (writeInodeRaw g inode ((raw.clear 40 60).copy 40 (Buf.ofList target)))
  else do
    orRelease g inode (pure ()) (writeInodeRaw g inode raw)
    let block ← orRelease g inode (pure ()) (allocBlock g)
    orRelease g inode (giveBack g block) (insertExtent g inode 0 block 1)
    orRelease g inode (giveBack g block)
      (writeFsBlock g block ((Buf.zeros g.blockSize).copy 0 (Buf.ofList target)))

def createSymlink (g : Super) (parent : ℕ) (name target : List UInt8) : Kernel State ℕ :=
  if g.readOnly then throw .notSupported
  else do
    ofResult (validateEntryName name)
    if target = [] ∨ 255 < target.length then throw .invalidParam
    else
      checkNewName g parent name
      let inode ← allocFileInode g
      let raw ← query (readInodeRaw g inode)
      -- `EXT4_S_IFLNK | 0777`
      let raw := (raw.writeLeAt 2 0 0xA1FF).writeLeAt 4 4 target.length
      storeTarget g inode raw target
      enterOrRelease g parent inode name EXT4_FT_SYMLINK (undoSymlink g inode target)

/-! ## Deletion -/

/-- The loop of `delete_file` over the entries of an index node, all of which are given back,
those for the block zero apart.  The counter comes from the node. -/
def freeChildren (g : Super) (b : Buf) (base : ℕ) (free : ℕ → Kernel State Unit) :
    ℕ → ℕ → Kernel State Unit
  | _, 0 => pure ()
  | i, count + 1 => do
      if b.size < recordAt base i + 10 then halt .undefined
      else
        let child := (idxAt b base i).leafPhys
        if child = 0 then pure () else free child
        freeChildren g b base free (i + 1) count

/-- The children of an index node are given back, if it can be read. -/
def freeLeaves (g : Super) (block : ℕ) : Kernel State Unit := do
  match ← attempt (query (readFsBlock g block g.blockSize)) with
  | .error _ => pure ()
  | .ok node => freeChildren g node 0 (giveBack g) 0 (ehEntries node 0)

/-- The blocks of the index nodes and leaves of a tree, as `delete_file` finds them: below a root
of depth two or more it looks at one more level. -/
def freeTree (g : Super) (raw : Buf) : Kernel State Unit :=
  if ehDepth raw 40 = 0 then pure ()
  else if 1 < ehDepth raw 40 then
    freeChildren g raw 40 (fun child => do
      freeLeaves g child
      giveBack g child) 0 (ehEntries raw 40)
  else freeChildren g raw 40 (giveBack g) 0 (ehEntries raw 40)

/-- One round of the loops that give back the block of a logical block. -/
def freeLogical (g : Super) (inode logical : ℕ) : Kernel State Unit := do
  match ← attempt (extentLookup g inode (u32 logical)) with
  | .error _ => pure ()
  | .ok m => if m.mapped then giveBack g m.physicalBlock else pure ()

/-- The test of `delete_file` for a directory that is not empty. -/
def isOccupied (g : Super) (inode mode : ℕ) : Kernel State Bool :=
  if fileType mode = EXT4_S_IFDIR then do
    let entries ← readDirectory g inode
    pure (!entries.isEmpty)
  else pure false

def deleteFile (g : Super) (inode : ℕ) : Kernel State Unit :=
  if g.readOnly then throw .notSupported
  else do
    let size ← query (inodeSize g inode)
    let mode ← query (inodeMode g inode)
    let occupied ← isOccupied g inode mode
    if occupied then throw .outOfBoundary
    else
      forEach (freeLogical g inode) (range (blocksFor g size))
      let raw ← query (readInodeRaw g inode)
      freeTree g raw
      let raw := (raw.clear 40 60).writeLeAt 2 40 EXT4_EXT_MAGIC
      let raw := (raw.writeLeAt 2 44 4).writeLeAt 4 4 0
      writeInodeRaw g inode (raw.writeLeAt 4 108 0)
      releaseFileInode g inode

/-! ## Contents -/

/-- The bytes of a part of a block; a hole reads as zeros. -/
def readChunk (g : Super) (m : Mapping) (blockOff chunk : ℕ) : Kernel State (List UInt8) :=
  if !m.mapped ∨ m.unwritten then pure (replicate chunk 0)
  else do
    let buf ← query (readDeviceBytes g (u64 (m.physicalBlock * g.blockSize + blockOff)) chunk)
    pure ((range chunk).map buf.byte)

def readInodeData (g : Super) (inode offset len : ℕ) : Kernel State (List UInt8) :=
  if len = 0 then pure []
  else do
    let size ← query (inodeSize g inode)
    if size ≤ offset then pure []
    else
      let raw ← query (readInodeRaw g inode)
      let readable := min len (size - offset)
      if fileType (iMode raw) = EXT4_S_IFLNK ∧ size ≤ 60 then
        pure ((range readable).map fun k => raw.byte (40 + offset + k))
      else readLoop readable readable 0
where
  /-- The loop over the blocks of the range; every round reads a byte at least. -/
  readLoop (readable : ℕ) : ℕ → ℕ → Kernel State (List UInt8)
    | 0, _ => pure []
    | fuel + 1, done => do
        if readable ≤ done then pure []
        else
          let abs := offset + done
          let chunk := min (readable - done) (g.blockSize - abs % g.blockSize)
          let m ← extentLookup g inode (u32 (abs / g.blockSize))
          let bytes ← readChunk g m (abs % g.blockSize) chunk
          let rest ← readLoop readable fuel (done + chunk)
          pure (bytes ++ rest)

/-- One round of the loop of `write_inode_data` that makes a file longer. -/
def growBlock (g : Super) (inode logical : ℕ) : Kernel State Unit := do
  let m ← extentLookup g inode (u32 logical)
  if m.mapped then pure ()
  else
    let block ← allocBlock g
    insertExtent g inode (u32 logical) block 1

/-- The part of `write_inode_data` for a range that ends behind the file: blocks for the new
part, gap included, and the new size. -/
def growFile (g : Super) (inode size endOffset : ℕ) : Kernel State Unit :=
  if size < endOffset then do
    let first := blocksFor g size
    forEach (growBlock g inode) (range' first (blocksFor g endOffset - first))
    updateInodeSize g inode endOffset
  else pure ()

/-- The loop of `write_inode_data` over the blocks of its range; every round writes a byte at
least. -/
def writeLoop (g : Super) (inode offset : ℕ) (data : List UInt8) : ℕ → ℕ → Kernel State Unit
  | 0, _ => pure ()
  | fuel + 1, done => do
      if data.length ≤ done then pure ()
      else
        let abs := offset + done
        let chunk := min (data.length - done) (g.blockSize - abs % g.blockSize)
        let m ← extentLookup g inode (u32 (abs / g.blockSize))
        if !m.mapped ∨ m.unwritten then throw .notSupported
        else
          writeDeviceBytes g (u64 (m.physicalBlock * g.blockSize + abs % g.blockSize))
            (Buf.ofList ((data.drop done).take chunk))
          writeLoop g inode offset data fuel (done + chunk)

def writeInodeData (g : Super) (inode offset : ℕ) (data : List UInt8) : Kernel State ℕ :=
  if data.length = 0 then pure 0
  else if g.readOnly then throw .notSupported
  else do
    let raw ← query (readInode g inode)
    let type := fileType (iMode raw)
    let size := iSize raw
    if type ≠ EXT4_S_IFREG ∧ type ≠ EXT4_S_IFLNK then throw .notSupported
    else if type = EXT4_S_IFLNK ∧ size ≤ 60 then
      let wlen := min data.length (subU64 60 offset)
      if raw.size < 40 + offset + wlen then halt .undefined
      else
        let raw := raw.copy (40 + offset) (Buf.ofList (data.take wlen))
        let raw := if size < offset + wlen then raw.writeLeAt 4 4 (offset + wlen) else raw
        writeInodeRaw g inode raw
        pure wlen
    else
      growFile g inode size (u64 (offset + data.length))
      writeLoop g inode offset data data.length 0
      pure data.length

/-- One round of the loop of `truncate` that makes a file longer. -/
def extendBlock (g : Super) (inode logical : ℕ) : Kernel State Unit := do
  match ← attempt (extentLookup g inode (u32 logical)) with
  | .ok ⟨_, true, _⟩ => pure ()
  | _ =>
    let block ← allocBlock g
    writeNewNode g block (Buf.zeros g.blockSize)
    match ← attempt (insertExtent g inode (u32 logical) block 1) with
    | .ok () => pure ()
    | .error e =>
      giveBack g block
      throw e

/-- The blocks of a file that is cut are given back, and a file that is extended gets new
ones. -/
def resizeBlocks (g : Super) (inode old new : ℕ) : Kernel State Unit :=
  if new < old then forEach (freeLogical g inode) (range' new (old - new))
  else forEach (extendBlock g inode) (range' old (new - old))

def truncate (g : Super) (inode newSize : ℕ) : Kernel State Unit := do
  let raw ← query (readInode g inode)
  let type := fileType (iMode raw)
  if type ≠ EXT4_S_IFREG ∧ type ≠ EXT4_S_IFLNK then throw .notSupported
  else
    let old := blocksFor g (iSize raw)
    let new := blocksFor g newSize
    resizeBlocks g inode old new
    updateInodeSize g inode newSize

/-! ## Renaming -/

/-- `Ext4Superblock::rename`. -/
def renameEntry (g : Super) (oldParent : ℕ) (oldName : List UInt8) (newParent : ℕ)
    (newName : List UInt8) : Kernel State Unit := do
  let entries ← readDirectory g oldParent
  match entries.find? fun e => e.name = oldName with
  | none => throw .entryNotFound
  | some entry =>
    if oldParent = newParent ∧ oldName = newName then pure ()
    else
      let mode ← query (inodeMode g entry.inodeId)
      if oldParent = newParent then
        let size ← query (inodeSize g oldParent)
        let renamed ← search (fun logical => do
          let m ← extentLookup g oldParent (u32 logical)
          if !m.mapped then pure none
          else
            let block ← query (readFsBlock g m.physicalBlock g.blockSize)
            match renameRecord oldName newName block g.blockSize 0 with
            | none => pure none
            | some (.error e) => throw e
            | some (.ok block) =>
              writeFsBlock g m.physicalBlock block
              pure (some ())) 0 (blocksFor g size)
        match renamed with
        | some () => pure ()
        | none => throw .entryNotFound
      else
        let type := if fileType mode ≠ EXT4_S_IFDIR then EXT4_FT_REG_FILE else EXT4_FT_DIR
        insertDirEntry g newParent entry.inodeId newName type
        removeDirEntry g oldParent oldName

/-! ## Directory objects -/

def dropEntries (dir : ℕ) : Kernel State Unit := modify fun s =>
  { s with entries := Function.update s.entries dir none }

def collectEntries (g : Super) (dir : ℕ) : Kernel State (List DirEntry) := do
  let s ← get
  match s.entries dir with
  | some entries => pure entries
  | none =>
    let entries ← readDirectory g dir
    modify fun s => { s with entries := Function.update s.entries dir (some entries) }
    pure entries

/-- `Ext4Directory::lookup`. -/
def lookup (g : Super) (dir : ℕ) (name : List UInt8) : Kernel State ℕ :=
  if name = [] ∨ name = dot then pure dir
  else do
    let entries ← collectEntries g dir
    match entries.find? fun e => e.name = name with
    | some e => pure e.inodeId
    | none => throw .entryNotFound

/-- A link to a file goes: the count goes down, or with the last link the file is deleted. -/
def dropLink (g : Super) (target : ℕ) (raw : Buf) : Kernel State Unit :=
  if 1 < iLinks raw then writeInodeRaw g target (raw.writeLeAt 2 26 (iLinks raw - 1))
  else deleteFile g target

/-- `Ext4Directory::unlink`. -/
def unlink (g : Super) (dir : ℕ) (name : List UInt8) : Kernel State Unit := do
  let target ← lookup g dir name
  let mode ← query (inodeMode g target)
  let type := fileType mode
  if type = EXT4_S_IFREG ∨ type = EXT4_S_IFLNK then
    let raw ← query (readInodeRaw g target)
    dropLink g target raw
    removeDirEntry g dir name
    dropEntries dir
  else if type = EXT4_S_IFDIR then throw .notSupported
  else throw .invalidParam

/-- `Ext4Directory::rmdir`. -/
def rmdir (g : Super) (dir : ℕ) (name : List UInt8) : Kernel State Unit := do
  let target ← lookup g dir name
  let mode ← query (inodeMode g target)
  if fileType mode ≠ EXT4_S_IFDIR then throw .notSupported
  else
    deleteFile g target
    removeDirEntry g dir name
    dropEntries dir

/-- `Ext4Directory::rename`. -/
def rename (g : Super) (dir : ℕ) (oldName : List UInt8) (newDir : ℕ) (newName : List UInt8) :
    Kernel State Unit := do
  let res ← attempt (renameEntry g dir oldName newDir newName)
  dropEntries dir
  dropEntries newDir
  ofResult res

/-! ## Operations -/

/-- The operations on files and directories. -/
inductive Op where
  | read (inode offset len : ℕ)
  | write (inode offset : ℕ) (data : List UInt8)
  | truncate (inode size : ℕ)
  | setattr (inode : ℕ) (attrs : AttrSet)
  | lookup (dir : ℕ) (name : List UInt8)
  | mkfile (dir : ℕ) (name : List UInt8)
  | mkdir (dir : ℕ) (name : List UInt8)
  | symlink (dir : ℕ) (name target : List UInt8)
  | link (dir : ℕ) (name : List UInt8) (target : ℕ)
  | unlink (dir : ℕ) (name : List UInt8)
  | rmdir (dir : ℕ) (name : List UInt8)
  | rename (dir : ℕ) (oldName : List UInt8) (newDir : ℕ) (newName : List UInt8)

/-- The value of a call is dropped. -/
def ignore {α : Type} (x : Kernel State α) : Kernel State Unit := do
  let _ ← x
  pure ()

/-- An operation runs.  The calls that make an entry drop the cached entries first. -/
def exec (g : Super) : Op → Kernel State Unit
  | .read inode offset len => ignore (readInodeData g inode offset len)
  | .write inode offset data => ignore (writeInodeData g inode offset data)
  | .truncate inode size => truncate g inode size
  | .setattr inode attrs => applyAttr g inode attrs
  | .lookup dir name => ignore (lookup g dir name)
  | .mkfile dir name => do
      dropEntries dir
      ignore (createFile g dir name)
  | .mkdir dir name => do
      dropEntries dir
      ignore (createDirectory g dir name)
  | .symlink dir name target => do
      dropEntries dir
      ignore (createSymlink g dir name target)
  | .link dir name target => do
      dropEntries dir
      createLink g dir name target
  | .unlink dir name => unlink g dir name
  | .rmdir dir name => rmdir g dir name
  | .rename dir oldName newDir newName => rename g dir oldName newDir newName

end Sustcore.Ext4
