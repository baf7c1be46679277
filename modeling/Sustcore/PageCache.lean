/-
# The page cache of a regular file (`VINode` in `kernel/vfs/vfs.cpp`)

A `VINode` keeps pages of its file in memory.  A cached page has its bytes, the number of bytes
that are valid and a dirty bit; besides them the `VINode` keeps the size of the file, which the
dirty pages may have moved past the end of the backing file.

Which pages are evicted when the cache is full depends on all files of the system, so a call
gets the evictions that it causes as a parameter: `evict p` are the pages of this file that go
before its page `p` is loaded.  The pages are in an unordered map; the calls that go through
all of them get the order as a parameter.  The backing file is a `ByteFile`, and no call on it
fails.
-/
import Sustcore.ByteFile
import Sustcore.Outcome

namespace Sustcore

open Function

/-- `VINode::CachedFilePage`. -/
structure CachedFilePage where
  data : ℕ → UInt8
  valid : ℕ
  dirty : Bool

/-- The fields of `VINode` for the contents of its file, and the backing file. -/
structure FileCache where
  pages : ℕ → Option CachedFilePage
  cachedFileSize : Option ℕ
  file : ByteFile

namespace FileCache

/-- A `VINode` without pages. -/
def init (file : ByteFile) : FileCache := ⟨fun _ => none, none, file⟩

/-! ## Sizes -/

/-- The size that `merged_file_size` reports. -/
def size (c : FileCache) : ℕ := c.cachedFileSize.getD c.file.size

def ensureCachedFileSize (c : FileCache) : FileCache := { c with cachedFileSize := some c.size }

/-- `merged_file_size`, which is `VFS::size`. -/
def mergedFileSize (c : FileCache) : ℕ × FileCache := (c.size, c.ensureCachedFileSize)

/-! ## Pages -/

def pageBytes (page : CachedFilePage) : List UInt8 := slice page.data 0 page.valid

def writeBack (p : ℕ) (page : CachedFilePage) (c : FileCache) : FileCache :=
  if page.dirty then { c with file := c.file.write (p * PAGESIZE) (pageBytes page) } else c

/-- One round of `flush_file_pages`. -/
def flushPage (c : FileCache) (p : ℕ) : FileCache :=
  match c.pages p with
  | none => c
  | some page =>
    { c.writeBack p page with
      pages := update c.pages p (some { page with dirty := false }) }

def flushFilePages (order : List ℕ) (c : FileCache) : FileCache := order.foldl flushPage c

/-- `evict_file_page` for the page that it picks. -/
def evictFilePage (c : FileCache) (p : ℕ) : FileCache :=
  match c.pages p with
  | none => c
  | some page => { c.writeBack p page with pages := update c.pages p none }

def loadPage (file : ByteFile) (p : ℕ) : CachedFilePage :=
  let bytes := file.read (p * PAGESIZE) PAGESIZE
  ⟨fun k => bytes.getD k 0, bytes.length, false⟩

def cachedFilePage (evicted : List ℕ) (p : ℕ) (c : FileCache) : CachedFilePage × FileCache :=
  match c.pages p with
  | some page => (page, c)
  | none =>
    let c := evicted.foldl evictFilePage c
    let page := loadPage c.file p
    (page, { c with pages := update c.pages p (some page) })

def invalidateFilePages (c : FileCache) : FileCache := { c with pages := fun _ => none }

/-! ## Reads and writes -/

/-- The loop of `read_cached_file`; a round copies a byte at least. -/
def readLoop (evict : ℕ → List ℕ) : ℕ → ℕ → ℕ → FileCache → List UInt8 × FileCache
  | 0, _, _, c => ([], c)
  | fuel + 1, offset, len, c =>
    if len = 0 then ([], c)
    else
      let p := offset / PAGESIZE
      let inPage := offset % PAGESIZE
      let (page, c) := c.cachedFilePage (evict p) p
      if page.valid ≤ inPage then ([], c)
      else
        let chunk := min len (page.valid - inPage)
        let bytes := slice page.data inPage chunk
        if page.valid < PAGESIZE ∧ page.valid ≤ inPage + chunk then (bytes, c)
        else
          let (rest, c) := readLoop evict fuel (offset + chunk) (len - chunk) c
          (bytes ++ rest, c)

/-- `read_cached_file`, which is `VFS::read`. -/
def readCachedFile (evict : ℕ → List ℕ) (offset len : ℕ) (c : FileCache) :
    List UInt8 × FileCache := readLoop evict len offset len c

/-- The bytes of one round of `write_cached_file`. -/
def writePage (inPage : ℕ) (bytes : List UInt8) (page : CachedFilePage) : CachedFilePage :=
  ⟨overlay inPage bytes page.data, max page.valid (inPage + bytes.length), true⟩

/-- The loop of `write_cached_file`; a round writes a byte at least. -/
def writeLoop (evict : ℕ → List ℕ) : ℕ → ℕ → List UInt8 → FileCache → FileCache
  | 0, _, _, c => c
  | fuel + 1, offset, bytes, c =>
    if bytes.isEmpty then c
    else
      let p := offset / PAGESIZE
      let inPage := offset % PAGESIZE
      let chunk := min bytes.length (PAGESIZE - inPage)
      let (page, c) := c.cachedFilePage (evict p) p
      let page := writePage inPage (bytes.take chunk) page
      writeLoop evict fuel (offset + chunk) (bytes.drop chunk)
        { c with pages := update c.pages p (some page) }

/-- `write_cached_file`, which is `VFS::write`; it always writes all bytes. -/
def writeCachedFile (evict : ℕ → List ℕ) (offset : ℕ) (bytes : List UInt8) (c : FileCache) :
    ℕ × FileCache :=
  let c := writeLoop evict bytes.length offset bytes c.ensureCachedFileSize
  (bytes.length, { c with cachedFileSize := some (max c.size (offset + bytes.length)) })

/-- `VFS::truncate`. -/
def truncate (order : List ℕ) (newSize : ℕ) (c : FileCache) : FileCache :=
  let c := c.flushFilePages order
  invalidateFilePages { c with file := c.file.truncate newSize, cachedFileSize := some newSize }

def Covers (order : List ℕ) (c : FileCache) : Prop := ∀ p, c.pages p ≠ none → p ∈ order

end FileCache

end Sustcore
