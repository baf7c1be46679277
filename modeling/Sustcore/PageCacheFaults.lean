/-
# Write-backs that fail

The backing file of a page cache may refuse a write, or take a part of the bytes only.  A flush
leaves the page dirty then, so that nothing is lost.  `evict_file_page` has marked the page as
`evicting` before it writes, and the mark stays: `cached_file_page` no longer finds the page and
loads the old bytes of the file over it.

A call on the file is a sequence of the steps below: a read or a write accesses one page after
the other, each with the evictions that it causes, and ends early when one of them fails.
`FaultyRun.write_back_failure` says that failed flushes and truncations lose no byte that was
written, and `FaultyRun.failed_eviction_loses` that a failed eviction does.
-/
import Sustcore.PageCacheRuns

namespace Sustcore

open Function FileCache Relation

namespace FileCache

/-- The write-back of a dirty page fails after `k` bytes. -/
def failedWrite (p k : ℕ) (c : FileCache) : Option FileCache :=
  match c.pages p with
  | none => none
  | some page =>
    if page.dirty then
      some { c with file := if k = 0 then c.file
        else c.file.write (p * PAGESIZE) ((pageBytes page).take k) }
    else none

end FileCache

/-- The page cache of a file with all entries of `_file_pages`, and which are marked. -/
structure FaultyCache where
  cache : FileCache
  evicting : ℕ → Bool

namespace FaultyCache

/-- What `cached_file_page` finds. -/
def view (c : FaultyCache) : FileCache :=
  { c.cache with pages := fun p => if c.evicting p then none else c.cache.pages p }

/-- One round of `flush_file_pages`.  The write of the page succeeds, or fails after the given
number of bytes. -/
def flushPage (fate : Option ℕ) (p : ℕ) (c : FaultyCache) : Result Unit × FaultyCache :=
  match fate.bind fun k => c.cache.failedWrite p k with
  | some cache => (.error .ioError, { c with cache := cache })
  | none => (.ok (), { c with cache := c.cache.flushPage p })

/-- `flush_file_pages`, which ends with the first failure. -/
def flushFilePages (fates : ℕ → Option ℕ) : List ℕ → FaultyCache → Result Unit × FaultyCache
  | [], c => (.ok (), c)
  | p :: order, c =>
    match c.flushPage (fates p) p with
    | (.error e, c) => (.error e, c)
    | (.ok (), c) => flushFilePages fates order c

/-- `evict_file_page` for the page that it picks. -/
def evictFilePage (fate : Option ℕ) (p : ℕ) (c : FaultyCache) : Result Bool × FaultyCache :=
  if c.evicting p then (.ok false, c)
  else
    match fate.bind fun k => c.cache.failedWrite p k with
    | some cache => (.error .ioError, ⟨cache, update c.evicting p true⟩)
    | none => (.ok true, { c with cache := c.cache.evictFilePage p })

/-- `cached_file_page` after its evictions: a marked entry is loaded again. -/
def cachedFilePage (p : ℕ) (c : FaultyCache) : FaultyCache :=
  match c.view.pages p with
  | some _ => c
  | none => ⟨c.cache.setPage p (loadPage c.cache.file p), update c.evicting p false⟩

/-- The bytes of one round of `write_cached_file` go to a page that was found. -/
def writePage (offset : ℕ) (bytes : List UInt8) (page : CachedFilePage) (c : FaultyCache) :
    FaultyCache :=
  { c with
    cache := c.cache.setPage (offset / PAGESIZE)
      (FileCache.writePage (offset % PAGESIZE) bytes page) }

/-- `VFS::truncate`; `invalidate_file_pages` leaves marked entries alone. -/
def truncate (fates : ℕ → Option ℕ) (order : List ℕ) (refused : Bool) (newSize : ℕ)
    (c : FaultyCache) : Result Unit × FaultyCache :=
  match c.flushFilePages fates order with
  | (.error e, c) => (.error e, c)
  | (.ok (), c) =>
    if refused then (.error .ioError, c)
    else (.ok (), { c with cache := {
      pages := fun p => if c.evicting p then c.cache.pages p else none
      cachedFileSize := some newSize
      file := c.cache.file.truncate newSize } })

end FaultyCache

namespace FileCache

variable {c : FileCache} {a : ByteFile} {p : ℕ}

/-- **A write-back that fails** only touches bytes that a dirty page covers. -/
theorem Holds.failedWrite (h : c.Holds a) {k : ℕ} {c' : FileCache}
    (hfail : c.failedWrite p k = some c') : c'.Holds a ∧ Longer c c' := by
  unfold FileCache.failedWrite at hfail
  cases hp : c.pages p with
  | none =>
    rw [hp] at hfail
    cases hfail
  | some page =>
    rw [hp] at hfail
    cases hdirty : page.dirty with
    | false => simp [hdirty] at hfail
    | true =>
      simp only [hdirty] at hfail
      cases hfail
      by_cases hk : k = 0
      · simp only [if_pos hk]
        exact ⟨h, .refl c⟩
      simp only [if_neg hk]
      have hok := h.cached p page hp
      have hfile := h.file_le
      have hle := hok.le
      have hpos := hok.dirty hdirty
      have hlen : ((pageBytes page).take k).length ≤ page.valid := by
        rw [List.length_take]
        exact (min_le_right ..).trans (length_slice ..).le
      have hgrow : c.file.size ≤ (c.file.write (p * PAGESIZE) ((pageBytes page).take k)).size :=
        le_max_left ..
      refine ⟨h.change (p := p) (update_eq_self ..).symm ?_ hgrow le_rfl ?_ ?_, hgrow, ?_⟩
      · show max c.file.size (p * PAGESIZE + _) ≤ a.size
        omega
      · intro q hq j hj
        exact ⟨overlay_other_page le_rfl (by omega) hq hj, rfl⟩
      · rw [hp]
        refine .of_page hok (fun hclean => ?_) fun j hv hj => ?_
        · rw [hdirty] at hclean
          cases hclean
        · show overlay _ _ _ _ = 0
          rw [overlay_of_le (by omega)]
          exact h.tail p page hp j hv hj
      · exact fun q => validAt_mono rfl hgrow

theorem Longer.setPage {page : CachedFilePage} (page' : CachedFilePage) (hp : c.pages p = some page)
    (hle : page.valid ≤ page'.valid) : Longer c (c.setPage p page') := by
  refine ⟨le_rfl, fun q => ?_⟩
  by_cases hq : q = p
  · subst hq
    rwa [validAt_cached hp, validAt_cached (update_self ..)]
  · exact validAt_mono (update_of_ne hq ..) le_rfl

end FileCache

namespace FaultyCache

variable {c : FaultyCache} {a : ByteFile}

theorem view_eq (h : ∀ p, c.evicting p = false) : c.view = c.cache := by
  unfold view
  simp only [h, Bool.false_eq_true, if_false]

/-- **A flush** keeps the contents wherever it fails; one that succeeds has written all pages. -/
theorem flushFilePages_holds (fates : ℕ → Option ℕ) : ∀ (order : List ℕ) (c : FaultyCache),
    c.cache.Holds a → (c.flushFilePages fates order).2.cache.Holds a ∧
      Longer c.cache (c.flushFilePages fates order).2.cache ∧
      (c.flushFilePages fates order).2.evicting = c.evicting ∧
      ((c.flushFilePages fates order).1 = .ok () →
        (c.flushFilePages fates order).2.cache = c.cache.flushFilePages order) ∧
      ((∀ p, fates p = none) → (c.flushFilePages fates order).1 = .ok ()) := by
  intro order
  induction order with
  | nil => exact fun c h => ⟨h, .refl _, rfl, fun _ => rfl, fun _ => rfl⟩
  | cons p order ih =>
    intro c h
    unfold flushFilePages flushPage
    cases hfate : (fates p).bind fun k => c.cache.failedWrite p k with
    | some cache =>
      obtain ⟨k, hk, hfail⟩ := Option.bind_eq_some_iff.mp hfate
      obtain ⟨hholds, hlonger⟩ := h.failedWrite hfail
      refine ⟨hholds, hlonger, rfl, nofun, fun hnone => ?_⟩
      rw [hnone p] at hk
      cases hk
    | none =>
      obtain ⟨hholds, hlonger, -⟩ := h.flushPage p
      obtain ⟨hholds', hlonger', hevicting, hok, hnone⟩ :=
        ih { c with cache := c.cache.flushPage p } hholds
      exact ⟨hholds', hlonger.trans hlonger', hevicting, hok, hnone⟩

end FaultyCache

/-- A file whose backing writes may fail, with the array that follows it and the offsets that
were written and not cut off since. -/
structure FaultyRun where
  cache : FaultyCache
  array : ByteFile
  written : Set ℕ

namespace FaultyRun

/-- A file whose `VINode` is new. -/
def start (file : ByteFile) : FaultyRun := ⟨⟨init file, fun _ => false⟩, file, ∅⟩

/-- `VFS::truncate`, which the array follows when it succeeds. -/
def truncate (fates : ℕ → Option ℕ) (order : List ℕ) (refused : Bool) (newSize : ℕ)
    (r : FaultyRun) : FaultyRun :=
  match r.cache.truncate fates order refused newSize with
  | (.error _, c) => { r with cache := c }
  | (.ok (), c) => ⟨c, r.array.truncate newSize, { k ∈ r.written | k < newSize }⟩

/-- One step of a call.  With `Guarded`, no write of a dirty page that is evicted fails. -/
inductive Step (Guarded : Prop) : FaultyRun → FaultyRun → Prop
  | evict (r : FaultyRun) (fate : Option ℕ) (p : ℕ)
      (hguard : Guarded → fate = none ∨
        ∀ page, r.cache.cache.pages p = some page → page.dirty = false) :
      Step Guarded r { r with cache := (r.cache.evictFilePage fate p).2 }
  | access (r : FaultyRun) (p : ℕ) :
      Step Guarded r { r with cache := r.cache.cachedFilePage p }
  | write (r : FaultyRun) (offset : ℕ) (bytes : List UInt8) (page : CachedFilePage)
      (hpage : r.cache.view.pages (offset / PAGESIZE) = some page) (hne : 0 < bytes.length)
      (hfit : offset % PAGESIZE + bytes.length ≤ PAGESIZE) :
      Step Guarded r ⟨r.cache.writePage offset bytes page, r.array.write offset bytes,
        r.written ∪ Set.Ico offset (offset + bytes.length)⟩
  | flush (r : FaultyRun) (fates : ℕ → Option ℕ) (order : List ℕ) :
      Step Guarded r { r with cache := (r.cache.flushFilePages fates order).2 }
  | truncate (r : FaultyRun) (fates : ℕ → Option ℕ) (order : List ℕ) (refused : Bool)
      (newSize : ℕ) (hcovers : r.cache.cache.Covers order) :
      Step Guarded r (r.truncate fates order refused newSize)

/-- No entry is marked, and the pages reach all bytes that were written. -/
structure Inv (r : FaultyRun) : Prop where
  unmarked : ∀ p, r.cache.evicting p = false
  holds : r.cache.cache.Holds r.array
  reaches : ∀ k ∈ r.written, k % PAGESIZE < r.cache.cache.validAt (k / PAGESIZE)

/-- A step that makes no page shorter. -/
theorem Inv.longer {r : FaultyRun} (h : r.Inv) {c : FaultyCache} (hc : c.evicting = r.cache.evicting)
    (hholds : c.cache.Holds r.array) (hlonger : Longer r.cache.cache c.cache) :
    Inv { r with cache := c } :=
  ⟨fun p => (congrFun hc p).trans (h.unmarked p), hholds,
    fun k hk => lt_of_lt_of_le (h.reaches k hk) (hlonger.page _)⟩

theorem Inv.flush {r : FaultyRun} (h : r.Inv) (fates : ℕ → Option ℕ) (order : List ℕ) :
    Inv { r with cache := (r.cache.flushFilePages fates order).2 } := by
  obtain ⟨hholds, hlonger, hevicting, -, -⟩ :=
    FaultyCache.flushFilePages_holds fates order r.cache h.holds
  exact h.longer hevicting hholds hlonger

theorem inv_step (r r' : FaultyRun) (h : r.Inv) (hstep : Step True r r') : r'.Inv := by
  have hview := FaultyCache.view_eq h.unmarked
  cases hstep with
  | evict fate p hguard =>
    have hwritten : (fate.bind fun k => r.cache.cache.failedWrite p k) = none := by
      rcases hguard trivial with rfl | hclean
      · rfl
      rw [Option.bind_eq_none_iff]
      intro k _
      unfold failedWrite
      split
      · rfl
      · rename_i page hpage
        simp [hclean page hpage]
    unfold FaultyCache.evictFilePage
    simp only [h.unmarked p, Bool.false_eq_true, if_false, hwritten]
    obtain ⟨hholds, hlonger, -⟩ := h.holds.evictFilePage p
    exact h.longer rfl hholds hlonger
  | access p =>
    obtain ⟨hholds, hlonger, -, -⟩ := h.holds.cachedFilePage [] p
    unfold FileCache.cachedFilePage at hholds hlonger
    unfold FaultyCache.cachedFilePage
    rw [hview]
    cases hp : r.cache.cache.pages p with
    | some page => exact h
    | none =>
      rw [hp] at hholds hlonger
      refine h.longer ?_ hholds hlonger
      exact update_eq_self_iff.mpr (h.unmarked p).symm
  | write offset bytes page hpage hne hfit =>
    rw [hview] at hpage
    have hlonger := Longer.setPage (writePage (offset % PAGESIZE) bytes page) hpage
      (le_max_left ..)
    refine ⟨h.unmarked, h.holds.writePage hpage hne hfit, ?_⟩
    rintro k (hk | ⟨hlo, hhi⟩)
    · exact lt_of_lt_of_le (h.reaches k hk) (hlonger.page _)
    · have hpos : offset / PAGESIZE * PAGESIZE + offset % PAGESIZE = offset :=
        Nat.div_add_mod' offset PAGESIZE
      obtain ⟨hdiv, hmod⟩ := div_mod_of_lt_page hlo (by omega)
      rw [hdiv, validAt_cached (update_self ..)]
      exact lt_of_lt_of_le (by omega) (le_max_right ..)
  | flush fates order => exact h.flush fates order
  | truncate fates order refused newSize hcovers =>
    have hflush := h.flush fates order
    have hall := (FaultyCache.flushFilePages_holds fates order r.cache h.holds).2.2.2.1
    unfold FaultyRun.truncate FaultyCache.truncate
    cases hres : r.cache.flushFilePages fates order with
    | mk res c =>
      rw [hres] at hflush hall
      cases res with
      | error e => exact hflush
      | ok u =>
        cases refused with
        | true => exact hflush
        | false =>
          have hbyte : c.cache.file.byte = r.array.byte := by
            rw [hall rfl]
            exact h.holds.flush hcovers
          have hfile : c.cache.file.truncate newSize = r.array.truncate newSize := by
            unfold ByteFile.truncate
            simp only [hbyte]
          have hmarks : ∀ p, c.evicting p = false := hflush.unmarked
          simp only [hmarks, hfile]
          refine ⟨hmarks, (Coherent.init _).holds.setSize _, ?_⟩
          rintro k ⟨-, hk⟩
          show k % PAGESIZE < min PAGESIZE (newSize - k / PAGESIZE * PAGESIZE)
          unfold PAGESIZE
          omega

/-- **Failed flushes and truncations lose no data.**  In every state of a run in which no
eviction fails, a read of bytes that were written returns them, and a flush that succeeds brings
them to the backing file, whatever failed before. -/
theorem write_back_failure (file : ByteFile) (r : FaultyRun)
    (hrun : ReflTransGen (Step True) (start file) r) :
    (∀ evict offset len, (∀ k, offset ≤ k → k < offset + len → k ∈ r.written) →
      (r.cache.view.readCachedFile evict offset len).1 = r.array.read offset len) ∧
    ∀ order, r.cache.cache.Covers order → ∀ k ∈ r.written,
      (r.cache.flushFilePages (fun _ => none) order).1 = .ok () ∧
      (r.cache.flushFilePages (fun _ => none) order).2.cache.file.byte k = r.array.byte k := by
  have hstart : (start file).Inv := ⟨fun _ => rfl, (Coherent.init file).holds, nofun⟩
  have h : r.Inv := Transition.invariant inv_step hrun hstart
  refine ⟨?_, ?_⟩
  · intro evict offset len hwritten
    rw [FaultyCache.view_eq h.unmarked]
    apply FileRun.read_of_reaches h.holds
    intro k hlo hhi
    exact h.reaches k (hwritten k hlo (by omega))
  · intro order hcovers k _
    obtain ⟨-, -, -, hall, hok⟩ :=
      FaultyCache.flushFilePages_holds (fun _ => none) order r.cache h.holds
    refine ⟨hok fun _ => rfl, ?_⟩
    rw [hall (hok fun _ => rfl), h.holds.flush hcovers]

section Sample

def byteWritten : FaultyRun :=
  ⟨((start .empty).cache.cachedFilePage 0).writePage 0 [7] (loadPage .empty 0),
    ByteFile.empty.write 0 [7], ∅ ∪ Set.Ico 0 1⟩

theorem byteWritten_run (G : Prop) : ReflTransGen (Step G) (start .empty) byteWritten :=
  .tail (.single (Step.access (start .empty) 0))
    (Step.write { start .empty with cache := (start .empty).cache.cachedFilePage 0 } 0 [7]
      (loadPage .empty 0) rfl (by decide) (by decide))

/-- The theorem after a flush that has failed. -/
theorem write_back_failure_once : ∃ r, ReflTransGen (Step True) (start .empty) r ∧
    (r.cache.view.readCachedFile (fun _ => []) 0 1).1 = [7] := by
  have hrun := (byteWritten_run True).tail (Step.flush byteWritten (fun _ => some 0) [0])
  refine ⟨_, hrun, ?_⟩
  rw [(write_back_failure .empty _ hrun).1 (fun _ => []) 0 1]
  · decide
  · intro k _ hk
    exact .inr ⟨Nat.zero_le k, hk⟩

/-- **A failed eviction loses data.**  The byte that was written is not read again, and a flush
does not bring it to the backing file. -/
theorem failed_eviction_loses : ∃ r, ReflTransGen (Step False) (start .empty) r ∧
    0 ∈ r.written ∧ r.array.read 0 1 = [7] ∧
    (r.cache.view.readCachedFile (fun _ => []) 0 1).1 = [] ∧
    (r.cache.flushFilePages (fun _ => none) [0]).2.cache.file.byte 0 = 0 := by
  refine ⟨_, ((byteWritten_run False).tail (Step.evict byteWritten (some 0) 0 nofun)).tail
    (Step.access _ 0), .inr ⟨le_rfl, by decide⟩, ?_, ?_, ?_⟩
  · decide
  · decide
  · decide

end Sample

end FaultyRun

end Sustcore
