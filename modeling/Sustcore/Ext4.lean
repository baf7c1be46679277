/-
# The ext4 driver: volume, bitmaps and inodes (`kernel/vfs/ext4.cpp`)

`Super` has the members of `Ext4Superblock` that `load` computes from the image and that stay
as they are; `State` has what changes: the bytes of the device, as the buffer cache shows them,
the requests for its blocks that fail, the copies of the superblock and of the group descriptors in
memory, the clock of the driver and the entries that the directory objects have cached.

The loops of `read_device_bytes` and `write_device_bytes` over the blocks of the cache end at the
first block whose request fails; what a write has put into the blocks before it stays there.
Numbers are natural numbers; `u16`, `u32` and `u64` stand where the arithmetic of the source can wrap
around.
-/
import Sustcore.KernelRules
import Sustcore.LittleEndian

namespace Sustcore.Ext4

open Kernel

/-! ## Machine arithmetic -/

/-- `uint16_t`. -/
def u16 (n : ℕ) : ℕ := n % 2 ^ 16

/-- `uint32_t`. -/
def u32 (n : ℕ) : ℕ := n % 2 ^ 32

/-- `uint64_t`. -/
def u64 (n : ℕ) : ℕ := n % 2 ^ 64

/-- A difference of two `uint64_t`. -/
def subU64 (m n : ℕ) : ℕ := u64 (m + (2 ^ 64 - u64 n))

def joinU64 (lo hi : ℕ) : ℕ := lo + hi * 2 ^ 32

/-! ## Constants -/

def EXT4_SUPER_MAGIC : ℕ := 0xEF53
def EXT4_EXT_MAGIC : ℕ := 0xF30A
def EXT4_S_IFMT : ℕ := 0xF000
def EXT4_S_IFREG : ℕ := 0x8000
def EXT4_S_IFDIR : ℕ := 0x4000
def EXT4_S_IFLNK : ℕ := 0xA000
def EXT4_EXTENTS_FL : ℕ := 0x00080000
def EXT4_INDEX_FL : ℕ := 0x00001000
def EXT4_LINK_MAX : ℕ := 65000
def EXT4_MAX_EXTENT_DEPTH : ℕ := 5
/-- `EXT4_S_IFREG | 0644`. -/
def EXT4_DEFAULT_FILE_MODE : ℕ := 0x81A4
def EXT4_FEATURE_INCOMPAT_RECOVER : ℕ := 0x0004
def EXT4_FEATURE_INCOMPAT_EXTENTS : ℕ := 0x0040
/-- `FILETYPE | EXTENTS | 64BIT | FLEX_BG`. -/
def EXT4_SUPPORTED_INCOMPAT : ℕ := 0x02C2
def EXT4_FEATURE_RO_COMPAT_DIR_NLINK : ℕ := 0x0020
def EXT4_FEATURE_RO_COMPAT_BIGALLOC : ℕ := 0x0200
def EXT4_FEATURE_RO_COMPAT_READONLY : ℕ := 0x1000
/-- `SPARSE_SUPER | LARGE_FILE | BTREE_DIR | HUGE_FILE | GDT_CSUM | DIR_NLINK | EXTRA_ISIZE |
METADATA_CSUM | READONLY | PROJECT | VERITY`. -/
def EXT4_SUPPORTED_RO_COMPAT : ℕ := 0xB47F
def EXT4_FT_REG_FILE : ℕ := 1
def EXT4_FT_DIR : ℕ := 2
def EXT4_FT_SYMLINK : ℕ := 7

/-! ## The volume -/

/-- What `load` finds out about the volume. -/
structure Super where
  devBlockSize : ℕ
  devBlockCount : ℕ
  blockSize : ℕ
  firstDataBlock : ℕ
  blocksPerGroup : ℕ
  inodesPerGroup : ℕ
  inodeCount : ℕ
  inodeSize : ℕ
  groupDescSize : ℕ
  featureRoCompat : ℕ
  blockCount : ℕ
  groupCount : ℕ
  groupDescOffset : ℕ
  readOnly : Bool

/-- `Ext4DirEntry`; a name is its bytes. -/
structure DirEntry where
  inodeId : ℕ
  name : List UInt8
  deriving DecidableEq

/-- The device, the error of the request for each of its blocks (`none` for one that succeeds),
the copies of its tables in memory, the driver's clock, and for every inode number the entries that
the `Ext4Directory` of this number has cached. -/
structure State where
  dev : ℕ → UInt8
  fault : ℕ → Option ErrCode
  superblock : Buf
  groupDesc : Buf
  timeCounter : ℕ
  entries : ℕ → Option (List DirEntry)

/-! ## Device access -/

/-- The loops over the blocks of a range: the first block whose request fails, with its error. -/
def firstFault (fault : ℕ → Option ErrCode) (devBlockSize offset len : ℕ) : Option (ℕ × ErrCode) :=
  (List.range' (offset / devBlockSize)
    ((offset + len - 1) / devBlockSize + 1 - offset / devBlockSize)).findSome?
      fun lba => (fault lba).map fun e => (lba, e)

/-- `read_device_bytes` on a device with the given geometry. -/
def readDevice (devBlockSize devBlockCount : ℕ) (dev : ℕ → UInt8) (fault : ℕ → Option ErrCode)
    (offset len : ℕ) : Result Buf :=
  if len = 0 then .ok (Buf.zeros 0)
  else if devBlockSize = 0 then .error .invalidParam
  else
    let total := u64 (devBlockSize * devBlockCount)
    if total < offset ∨ total - offset < len then .error .outOfBoundary
    else match firstFault fault devBlockSize offset len with
      | some (_, e) => .error e
      | none => .ok ⟨len, fun k => dev (offset + k)⟩

def readDeviceBytes (g : Super) (offset len : ℕ) (s : State) : Result Buf :=
  readDevice g.devBlockSize g.devBlockCount s.dev s.fault offset len

def putBytes (offset : ℕ) (buf : Buf) (dev : ℕ → UInt8) : ℕ → UInt8 := fun k =>
  if offset ≤ k ∧ k < offset + buf.size then buf.byte (k - offset) else dev k

def writeDeviceBytes (g : Super) (offset : ℕ) (buf : Buf) : Kernel State Unit := do
  if buf.size = 0 then pure ()
  else if g.devBlockSize = 0 then throw .invalidParam
  else
    let total := u64 (g.devBlockSize * g.devBlockCount)
    if total < offset ∨ total - offset < buf.size then throw .outOfBoundary
    else match firstFault (← get).fault g.devBlockSize offset buf.size with
      | some (lba, e) =>
        modify fun s => { s with
          dev := putBytes offset { buf with size := lba * g.devBlockSize - offset } s.dev }
        throw e
      | none => modify fun s => { s with dev := putBytes offset buf s.dev }

def readFsBlock (g : Super) (block len : ℕ) (s : State) : Result Buf :=
  if g.blockSize < len then .error .invalidParam
  else readDeviceBytes g (u64 (block * g.blockSize)) len s

def writeFsBlock (g : Super) (block : ℕ) (buf : Buf) : Kernel State Unit :=
  if g.blockSize < buf.size then throw .invalidParam
  else writeDeviceBytes g (u64 (block * g.blockSize)) buf

/-! ## Mounting -/

/-- The feature bits that `load` refuses: those it does not know, unless it is the request for a
journal recovery alone, and clusters. -/
def refusedFeatures (incompat roCompat : ℕ) : Bool :=
  let unsupported := incompat &&& (0xFFFFFFFF ^^^ EXT4_SUPPORTED_INCOMPAT)
  incompat &&& EXT4_FEATURE_INCOMPAT_EXTENTS = 0 ||
    (unsupported ≠ 0 && unsupported ≠ EXT4_FEATURE_INCOMPAT_RECOVER) ||
    roCompat &&& EXT4_FEATURE_RO_COMPAT_BIGALLOC ≠ 0

/-- The decision to mount a volume read-only. -/
def mountsReadOnly (roCompat : ℕ) : Bool :=
  roCompat &&& (0xFFFFFFFF ^^^ EXT4_SUPPORTED_RO_COMPAT) ≠ 0 ||
    roCompat &&& EXT4_FEATURE_RO_COMPAT_READONLY ≠ 0

/-- `Ext4Superblock::load`. -/
def load (devBlockSize devBlockCount : ℕ) (dev : ℕ → UInt8) (fault : ℕ → Option ErrCode) :
    Result (Super × State) := do
  let sb ← readDevice devBlockSize devBlockCount dev fault 1024 1024
  if sb.readLeAt 2 56 ≠ EXT4_SUPER_MAGIC then .error .invalidParam
  else if 16 < sb.readLeAt 4 24 then .error .invalidParam
  else
    let blockSize := 1024 * 2 ^ sb.readLeAt 4 24
    if blockSize % devBlockSize ≠ 0 then .error .notSupported
    else
      let firstDataBlock := sb.readLeAt 4 20
      let blocksPerGroup := sb.readLeAt 4 32
      let inodesPerGroup := sb.readLeAt 4 40
      let inodeCount := sb.readLeAt 4 0
      let inodeSize := if sb.readLeAt 2 88 = 0 then 128 else sb.readLeAt 2 88
      let groupDescSize := if sb.readLeAt 2 254 = 0 then 32 else sb.readLeAt 2 254
      let roCompat := sb.readLeAt 4 100
      if refusedFeatures (sb.readLeAt 4 96) roCompat then .error .notSupported
      else if blocksPerGroup = 0 ∨ inodesPerGroup = 0 ∨ inodeCount = 0 ∨ inodeSize < 128 ∨
          groupDescSize < 32 then .error .invalidParam
      else
        let blockCount := joinU64 (sb.readLeAt 4 4) (sb.readLeAt 4 336)
        if blockCount = 0 then .error .invalidParam
        else
          let groupCount :=
            u32 (u64 (subU64 blockCount firstDataBlock + blocksPerGroup - 1) / blocksPerGroup)
          let descTableBlock := if blockSize = 1024 then 2 else u32 (firstDataBlock + 1)
          let groupDescOffset := descTableBlock * blockSize
          let groupDesc ← readDevice devBlockSize devBlockCount dev fault groupDescOffset
            (groupCount * groupDescSize)
          .ok (⟨devBlockSize, devBlockCount, blockSize, firstDataBlock, blocksPerGroup,
              inodesPerGroup, inodeCount, inodeSize, groupDescSize, roCompat, blockCount,
              groupCount, groupDescOffset, mountsReadOnly roCompat⟩,
            ⟨dev, fault, sb, groupDesc, 0, fun _ => none⟩)

/-- A mount that does not happen. -/
def noMount : Super × State :=
  (⟨0, 0, 0, 0, 0, 0, 0, 0, 0, 0, 0, 0, 0, false⟩, ⟨fun _ => 0, fun _ => none,
    Buf.zeros 0, Buf.zeros 0, 0, fun _ => none⟩)

/-! ## Group descriptors -/

/-- What the bitmaps and counters are for. -/
inductive Resource where
  | block
  | inode
  deriving DecidableEq

namespace Resource

/-- The place of the low half of the counter in a group descriptor. -/
def countLo : Resource → ℕ
  | block => 12
  | inode => 14

/-- The place of the high half of the counter in a group descriptor of 64 bytes. -/
def countHi : Resource → ℕ
  | block => 44
  | inode => 46

/-- The place of the total in the superblock. -/
def total : Resource → ℕ
  | block => 12
  | inode => 16

end Resource

/-- A block number of a group descriptor, whose halves stand at `lo` and `hi`; the source checks
that the first `need` bytes of the descriptor are there. -/
def descBlock (g : Super) (lo hi need group : ℕ) (s : State) : Result ℕ :=
  let base := group * g.groupDescSize
  if g.groupCount ≤ group then .error .outOfBoundary
  else if s.groupDesc.size < base + need then .error .outOfBoundary
  else
    let high := if 64 ≤ g.groupDescSize then readLe s.groupDesc.byte 4 (base + hi) else 0
    .ok (joinU64 (readLe s.groupDesc.byte 4 (base + lo)) high)

def inodeTableBlock (g : Super) (group : ℕ) : State → Result ℕ := descBlock g 8 40 44 group

def inodeBitmapBlock (g : Super) (group : ℕ) : State → Result ℕ := descBlock g 4 36 40 group

def blockBitmapBlock (g : Super) (group : ℕ) : State → Result ℕ := descBlock g 0 32 36 group

/-- A counter of a group descriptor, which is stored in halves of 16 bits. -/
def descCount (g : Super) (r : Resource) (group : ℕ) (s : State) : Result ℕ :=
  let base := group * g.groupDescSize
  if g.groupCount ≤ group then .error .outOfBoundary
  else if s.groupDesc.size < base + r.countLo + 2 then .error .outOfBoundary
  else if 64 ≤ g.groupDescSize then
    if s.groupDesc.size < base + r.countHi + 2 then .error .outOfBoundary
    else .ok (readLe s.groupDesc.byte 2 (base + r.countLo) +
      readLe s.groupDesc.byte 2 (base + r.countHi) * 2 ^ 16)
  else .ok (readLe s.groupDesc.byte 2 (base + r.countLo))

def groupFreeBlocks (g : Super) (group : ℕ) : State → Result ℕ := descCount g .block group

def groupFreeInodes (g : Super) (group : ℕ) : State → Result ℕ := descCount g .inode group

/-- `set_group_free_blocks` and `set_group_free_inodes`. -/
def setDescCount (g : Super) (r : Resource) (group count : ℕ) : Kernel State Unit := do
  let s ← get
  let base := group * g.groupDescSize
  if g.groupCount ≤ group then throw .outOfBoundary
  else if s.groupDesc.size < base + r.countLo + 2 then throw .outOfBoundary
  else
    modify fun s => { s with groupDesc := s.groupDesc.writeLeAt 2 (base + r.countLo) count }
    if 64 ≤ g.groupDescSize then
      if s.groupDesc.size < base + r.countHi + 2 then throw .outOfBoundary
      else modify fun s =>
        { s with groupDesc := s.groupDesc.writeLeAt 2 (base + r.countHi) (count / 2 ^ 16) }
    else pure ()

def syncSuperblockMetadata (g : Super) : Kernel State Unit := do
  let s ← get
  if s.superblock.size = 0 then throw .invalidParam
  else writeDeviceBytes g 1024 s.superblock

def syncGroupDescriptors (g : Super) : Kernel State Unit := do
  let s ← get
  if s.groupDesc.size = 0 ∨ g.groupDescOffset = 0 then throw .invalidParam
  else writeDeviceBytes g g.groupDescOffset s.groupDesc

/-- A total of the superblock is counted down; the allocators give up when it is zero. -/
def takeFromTotal (r : Resource) : Kernel State Unit := do
  let s ← get
  let total := s.superblock.readLeAt 4 r.total
  if total = 0 then throw .invalidParam
  else modify fun s => { s with superblock := s.superblock.writeLeAt 4 r.total (total - 1) }

/-- A total of the superblock is counted up. -/
def addToTotal (r : Resource) : Kernel State Unit := modify fun s =>
  let total := u32 (s.superblock.readLeAt 4 r.total + 1)
  { s with superblock := s.superblock.writeLeAt 4 r.total total }

/-- The steps of the allocators behind the change of the bitmap; `free` is the counter of the
group that they have read before. -/
def countDown (g : Super) (r : Resource) (group free : ℕ) : Kernel State Unit := do
  setDescCount g r group (free - 1)
  takeFromTotal r
  syncGroupDescriptors g
  syncSuperblockMetadata g

/-- The last steps of `free_block` and `release_file_inode`. -/
def countUp (g : Super) (r : Resource) (group : ℕ) : Kernel State Unit := do
  let free ← query (descCount g r group)
  setDescCount g r group (u32 (free + 1))
  addToTotal r
  syncGroupDescriptors g
  syncSuperblockMetadata g

/-! ## Blocks -/

/-- The loop of the allocators over the bits of a bitmap: the first clear one of the `count`
bits from `idx` on. -/
def scanBitmap (bitmap : Buf) : ℕ → ℕ → Result (Option ℕ)
  | _, 0 => .ok none
  | idx, count + 1 =>
    if bitmap.size ≤ idx / 8 then .error .invalidParam
    else if bitAt bitmap.byte idx then scanBitmap bitmap (idx + 1) count
    else .ok (some idx)

/-- The number of blocks of a group, as `alloc_block` computes it. -/
def blocksInGroup (g : Super) (group : ℕ) : ℕ :=
  min g.blocksPerGroup (u32 (subU64 g.blockCount (group * g.blocksPerGroup)))

/-- One round of `alloc_block`. -/
def allocBlockIn (g : Super) (group : ℕ) : Kernel State (Option ℕ) := do
  let free ← query (groupFreeBlocks g group)
  if free = 0 then pure none
  else
    let bitmapBlock ← query (blockBitmapBlock g group)
    let bitmap ← query (readFsBlock g bitmapBlock g.blockSize)
    match ← ofResult (scanBitmap bitmap 0 (blocksInGroup g group)) with
    | none => pure none
    | some idx =>
      writeFsBlock g bitmapBlock { bitmap with byte := setBitAt idx bitmap.byte }
      countDown g .block group free
      pure (some (group * g.blocksPerGroup + idx + g.firstDataBlock))

def allocBlock (g : Super) : Kernel State ℕ :=
  if g.readOnly then throw .notSupported
  else do
    match ← search (allocBlockIn g) 0 g.groupCount with
    | some block => pure block
    | none => throw .outOfBoundary

def freeBlock (g : Super) (block : ℕ) : Kernel State Unit :=
  if block < g.firstDataBlock ∨ g.blockCount ≤ block then throw .outOfBoundary
  else do
    let group := u32 ((block - g.firstDataBlock) / g.blocksPerGroup)
    let idx := (block - g.firstDataBlock) % g.blocksPerGroup
    if g.groupCount ≤ group then throw .outOfBoundary
    else
      let bitmapBlock ← query (blockBitmapBlock g group)
      let bitmap ← query (readFsBlock g bitmapBlock g.blockSize)
      if bitmap.size ≤ idx / 8 then throw .invalidParam
      else if !bitAt bitmap.byte idx then pure ()
      else
        writeFsBlock g bitmapBlock { bitmap with byte := clearBitAt idx bitmap.byte }
        countUp g .block group

/-! ## Inodes -/

/-- The place of an inode in its table. -/
def inodeOffset (g : Super) (inode : ℕ) (s : State) : Result ℕ := do
  let table ← inodeTableBlock g (u32 ((inode - 1) / g.inodesPerGroup)) s
  .ok (u64 (table * g.blockSize + (inode - 1) % g.inodesPerGroup * g.inodeSize))

def readInodeRaw (g : Super) (inode : ℕ) (s : State) : Result Buf :=
  if inode = 0 then .error .invalidParam
  else if g.inodeCount < inode then .error .outOfBoundary
  else do
    let offset ← inodeOffset g inode s
    readDeviceBytes g offset g.inodeSize s

def writeInodeRaw (g : Super) (inode : ℕ) (raw : Buf) : Kernel State Unit :=
  if inode = 0 ∨ raw.size ≠ g.inodeSize then throw .invalidParam
  else if g.inodeCount < inode then throw .outOfBoundary
  else do
    let offset ← query (inodeOffset g inode)
    writeDeviceBytes g offset raw

def iMode (raw : Buf) : ℕ := raw.readLeAt 2 0

/-- The type bits of `i_mode`. -/
def fileType (mode : ℕ) : ℕ := mode &&& EXT4_S_IFMT

/-- `i_links_count`. -/
def iLinks (raw : Buf) : ℕ := raw.readLeAt 2 26

def iFlags (raw : Buf) : ℕ := raw.readLeAt 4 32

def validateInodeRaw (g : Super) (raw : Buf) : Result Unit :=
  if raw.size < 128 then .error .invalidParam
  else if iMode raw = 0 ∨ raw.readLeAt 4 20 ≠ 0 ∨ iLinks raw = 0 then .error .entryNotFound
  else if EXT4_LINK_MAX < iLinks raw ∧
      g.featureRoCompat &&& EXT4_FEATURE_RO_COMPAT_DIR_NLINK = 0 then .error .invalidParam
  else .ok ()

/-- The raw inode, checked. -/
def readInode (g : Super) (inode : ℕ) (s : State) : Result Buf := do
  let raw ← readInodeRaw g inode s
  validateInodeRaw g raw
  .ok raw

def inodeMode (g : Super) (inode : ℕ) (s : State) : Result ℕ := do
  let raw ← readInode g inode s
  .ok (iMode raw)

/-- The size in a raw inode; only files and symbolic links use the high half. -/
def iSize (raw : Buf) : ℕ :=
  raw.readLeAt 4 4 +
    (if fileType (iMode raw) = EXT4_S_IFREG ∨ fileType (iMode raw) = EXT4_S_IFLNK then
      raw.readLeAt 4 108 * 2 ^ 32 else 0)

def inodeSize (g : Super) (inode : ℕ) (s : State) : Result ℕ := do
  let raw ← readInode g inode s
  .ok (iSize raw)

def nextTime : Kernel State ℕ := fun s =>
  let now := u32 (s.timeCounter + 1)
  .ok (.ok now, { s with timeCounter := now })

/-- The attributes of `setattr` that its mask selects. -/
structure AttrSet where
  mode : Option ℕ
  uid : Option ℕ
  gid : Option ℕ
  atime : Option ℕ
  mtime : Option ℕ
  ctime : Option ℕ

/-- A field of the raw inode is set if the attribute is selected. -/
def applyField (w off : ℕ) (value : Option ℕ) (raw : Buf) : Buf :=
  match value with
  | none => raw
  | some v => raw.writeLeAt w off v

def applyAttr (g : Super) (inode : ℕ) (attrs : AttrSet) : Kernel State Unit :=
  if g.readOnly then throw .notSupported
  else do
    let raw ← query (readInode g inode)
    let raw := applyField 2 0 attrs.mode raw
    let raw := applyField 2 2 attrs.uid raw
    let raw := applyField 2 24 attrs.gid raw
    let raw := applyField 4 8 attrs.atime raw
    let raw := applyField 4 16 attrs.mtime raw
    let raw := applyField 4 12 attrs.ctime raw
    writeInodeRaw g inode raw

def newInodeRaw (g : Super) (now : ℕ) : Buf :=
  let raw := (Buf.zeros g.inodeSize).writeLeAt 2 0 EXT4_DEFAULT_FILE_MODE
  let raw := raw.writeLeAt 2 26 1
  let raw := raw.writeLeAt 4 32 EXT4_EXTENTS_FL
  let raw := raw.writeLeAt 2 40 EXT4_EXT_MAGIC
  let raw := raw.writeLeAt 2 42 0
  let raw := raw.writeLeAt 2 44 4
  let raw := raw.writeLeAt 2 46 0
  let raw := raw.writeLeAt 4 8 now
  let raw := raw.writeLeAt 4 12 now
  raw.writeLeAt 4 16 now

/-- One round of `alloc_file_inode`.  Behind the last inode the source leaves the loop, which
ends in the same error. -/
def allocFileInodeIn (g : Super) (group : ℕ) : Kernel State (Option ℕ) := do
  let free ← query (groupFreeInodes g group)
  if free = 0 then pure none
  else
    let bitmapBlock ← query (inodeBitmapBlock g group)
    let bitmap ← query (readFsBlock g bitmapBlock g.blockSize)
    let base := u32 (group * g.inodesPerGroup)
    if g.inodeCount ≤ base then throw .outOfBoundary
    else
      match ← ofResult (scanBitmap bitmap 0 (min g.inodesPerGroup (g.inodeCount - base))) with
      | none => pure none
      | some idx =>
        writeFsBlock g bitmapBlock { bitmap with byte := setBitAt idx bitmap.byte }
        countDown g .inode group free
        let inode := base + idx + 1
        let now ← nextTime
        writeInodeRaw g inode (newInodeRaw g now)
        pure (some inode)

def allocFileInode (g : Super) : Kernel State ℕ :=
  if g.readOnly then throw .notSupported
  else do
    match ← search (allocFileInodeIn g) 0 g.groupCount with
    | some inode => pure inode
    | none => throw .outOfBoundary

def releaseFileInode (g : Super) (inode : ℕ) : Kernel State Unit :=
  if inode = 0 ∨ g.inodeCount < inode then throw .invalidParam
  else do
    let group := u32 ((inode - 1) / g.inodesPerGroup)
    let idx := (inode - 1) % g.inodesPerGroup
    let bitmapBlock ← query (inodeBitmapBlock g group)
    let bitmap ← query (readFsBlock g bitmapBlock g.blockSize)
    if bitmap.size ≤ idx / 8 then throw .invalidParam
    else if !bitAt bitmap.byte idx then pure ()
    else
      writeFsBlock g bitmapBlock { bitmap with byte := clearBitAt idx bitmap.byte }
      writeInodeRaw g inode (Buf.zeros g.inodeSize)
      countUp g .inode group

def updateInodeSize (g : Super) (inode newSize : ℕ) : Kernel State Unit := do
  let raw ← query (readInodeRaw g inode)
  let raw := (raw.writeLeAt 4 4 newSize).writeLeAt 4 108 (newSize / 2 ^ 32)
  let now ← nextTime
  writeInodeRaw g inode ((raw.writeLeAt 4 12 now).writeLeAt 4 16 now)

end Sustcore.Ext4
