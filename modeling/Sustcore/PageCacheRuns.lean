/-
# Reading and writing through the page cache

A byte array `a` follows the calls on a file.  In every state of every run the cache agrees
with it on every byte (`Holds`): a cached page shows the bytes of `a`, zeros from its valid
length on, and what is not cached or not dirty is in the backing file.

The valid lengths are another matter.  A page that was loaded when the file ended in it keeps
its length when a later write moves the end of the file into another page, and a page in the gap
that such a write leaves has the length that the backing file gives it.  A read ends at the first
such page.  `page_cache_transparent` says that this is all that can go wrong, and that it does
not go wrong while no write starts behind the page in which the file ends.
-/
import Sustcore.Ledger
import Sustcore.PageCache

namespace Sustcore

open Function FileCache Relation List

namespace FileCache

variable {c : FileCache} {a : ByteFile}

/-! ## Agreement with a byte array -/

/-- The valid length of a page, which a page that is not cached gets from the backing file. -/
def validAt (c : FileCache) (p : ℕ) : ℕ :=
  match c.pages p with
  | some page => page.valid
  | none => min PAGESIZE (c.file.size - p * PAGESIZE)

structure PageOk (a : ByteFile) (p : ℕ) (page : CachedFilePage) : Prop where
  le : page.valid ≤ min PAGESIZE (a.size - p * PAGESIZE)
  data : ∀ k, k < PAGESIZE → page.data k = a.byte (p * PAGESIZE + k)
  zero : ∀ k, page.valid ≤ k → k < PAGESIZE → page.data k = 0
  dirty : page.dirty = true → 0 < page.valid

/-- The backing file has the page, with the given valid length at least. -/
structure Backed (file a : ByteFile) (p valid : ℕ) : Prop where
  data : ∀ k, k < PAGESIZE → file.byte (p * PAGESIZE + k) = a.byte (p * PAGESIZE + k)
  le : valid ≤ file.size - p * PAGESIZE

/-- The cache and the backing file agree with the array. -/
structure Holds (c : FileCache) (a : ByteFile) : Prop where
  file_le : c.file.size ≤ a.size
  cached : ∀ p page, c.pages p = some page → PageOk a p page
  clean : ∀ p page, c.pages p = some page → page.dirty = false → Backed c.file a p page.valid
  uncached : ∀ p, c.pages p = none → Backed c.file a p 0
  tail : ∀ p page, c.pages p = some page → ∀ k, page.valid ≤ k → k < PAGESIZE →
    c.file.byte (p * PAGESIZE + k) = 0

/-- Neither the backing file nor a page is shorter afterwards. -/
structure Longer (c c' : FileCache) : Prop where
  file : c.file.size ≤ c'.file.size
  page : ∀ p, c.validAt p ≤ c'.validAt p

theorem Longer.refl (c : FileCache) : Longer c c := ⟨le_rfl, fun _ => le_rfl⟩

theorem Longer.trans {c₁ c₂ c₃ : FileCache} (h : Longer c₁ c₂) (h' : Longer c₂ c₃) :
    Longer c₁ c₃ := ⟨h.file.trans h'.file, fun p => (h.page p).trans (h'.page p)⟩

variable {p offset k : ℕ} {page : CachedFilePage}

theorem validAt_cached (h : c.pages p = some page) : c.validAt p = page.valid := by
  unfold validAt
  rw [h]

theorem validAt_uncached (h : c.pages p = none) :
    c.validAt p = min PAGESIZE (c.file.size - p * PAGESIZE) := by
  unfold validAt
  rw [h]

variable {c' : FileCache}

/-- The length of a page whose entry stays. -/
theorem validAt_congr (hpages : c'.pages p = c.pages p) (hfile : c'.file = c.file) :
    c'.validAt p = c.validAt p := by
  unfold validAt
  rw [hpages, hfile]

theorem validAt_mono (hpages : c'.pages p = c.pages p)
    (hfile : c.file.size ≤ c'.file.size) : c.validAt p ≤ c'.validAt p := by
  unfold validAt
  rw [hpages]
  split
  · exact le_rfl
  · omega

/-- What `Holds` says about one page. -/
structure EntryOk (file a : ByteFile) (p : ℕ) (entry : Option CachedFilePage) : Prop where
  cached : ∀ page, entry = some page → PageOk a p page
  clean : ∀ page, entry = some page → page.dirty = false → Backed file a p page.valid
  uncached : entry = none → Backed file a p 0
  tail : ∀ page, entry = some page → ∀ k, page.valid ≤ k → k < PAGESIZE →
    file.byte (p * PAGESIZE + k) = 0

theorem EntryOk.of_page {file : ByteFile} (hok : PageOk a p page)
    (hclean : page.dirty = false → Backed file a p page.valid)
    (htail : ∀ k, page.valid ≤ k → k < PAGESIZE → file.byte (p * PAGESIZE + k) = 0) :
    EntryOk file a p (some page) := by
  refine ⟨?_, ?_, nofun, ?_⟩
  · rintro _ ⟨⟩
    exact hok
  · rintro _ ⟨⟩
    exact hclean
  · rintro _ ⟨⟩
    exact htail

/-- Neither the file nor the array changes in the page. -/
theorem EntryOk.congr {file file' a' : ByteFile} {entry : Option CachedFilePage}
    (h : EntryOk file a p entry) (hfile : file.size ≤ file'.size) (hsize : a.size ≤ a'.size)
    (hbytes : ∀ k, k < PAGESIZE → file'.byte (p * PAGESIZE + k) = file.byte (p * PAGESIZE + k) ∧
      a'.byte (p * PAGESIZE + k) = a.byte (p * PAGESIZE + k)) : EntryOk file' a' p entry := by
  have hbacked : ∀ valid, Backed file a p valid → Backed file' a' p valid := by
    intro valid hb
    refine ⟨?_, hb.le.trans (Nat.sub_le_sub_right hfile _)⟩
    intro k hk
    rw [(hbytes k hk).1, (hbytes k hk).2]
    exact hb.data k hk
  refine ⟨?_, fun page hp hclean => hbacked _ (h.clean page hp hclean),
    fun hp => hbacked 0 (h.uncached hp), ?_⟩
  · intro page hp
    have hok := h.cached page hp
    have hle := hok.le
    refine ⟨by omega, ?_, hok.zero, hok.dirty⟩
    intro k hk
    rw [(hbytes k hk).2]
    exact hok.data k hk
  · intro page hp k hv hk
    rw [(hbytes k hk).1]
    exact h.tail page hp k hv hk

theorem Holds.entry (h : c.Holds a) (p : ℕ) : EntryOk c.file a p (c.pages p) :=
  ⟨h.cached p, h.clean p, h.uncached p, h.tail p⟩

theorem Holds.of_entries (hle : c.file.size ≤ a.size)
    (h : ∀ p, EntryOk c.file a p (c.pages p)) : c.Holds a :=
  ⟨hle, fun p => (h p).cached, fun p => (h p).clean, fun p => (h p).uncached, fun p => (h p).tail⟩

/-- **One entry changes**; in the other pages the file and the array stay as they are. -/
theorem Holds.change (h : c.Holds a) {a' : ByteFile}
    {entry : Option CachedFilePage} (hpages : c'.pages = update c.pages p entry)
    (hle : c'.file.size ≤ a'.size) (hfile : c.file.size ≤ c'.file.size) (hsize : a.size ≤ a'.size)
    (hbytes : ∀ q, q ≠ p → ∀ k, k < PAGESIZE →
      c'.file.byte (q * PAGESIZE + k) = c.file.byte (q * PAGESIZE + k) ∧
      a'.byte (q * PAGESIZE + k) = a.byte (q * PAGESIZE + k))
    (hentry : EntryOk c'.file a' p entry) : c'.Holds a' := by
  refine .of_entries hle fun q => ?_
  rw [hpages]
  by_cases hqp : q = p
  · subst hqp
    rwa [update_self]
  · rw [update_of_ne hqp]
    exact (h.entry q).congr hfile hsize (hbytes q hqp)

theorem overlay_other_page {bytes : List UInt8} {f : ℕ → UInt8} {q : ℕ} (hlo : p * PAGESIZE ≤ offset)
    (hhi : offset + bytes.length ≤ p * PAGESIZE + PAGESIZE) (hq : q ≠ p) (hk : k < PAGESIZE) :
    overlay offset bytes f (q * PAGESIZE + k) = f (q * PAGESIZE + k) := by
  rcases lt_or_gt_of_ne hq with hlt | hgt
  · have hnext := Nat.mul_le_mul_right PAGESIZE (Nat.succ_le_of_lt hlt)
    rw [Nat.succ_mul] at hnext
    exact overlay_of_lt (Nat.lt_of_lt_of_le (Nat.add_lt_add_left hk _) (hnext.trans hlo))
  · have hnext := Nat.mul_le_mul_right PAGESIZE (Nat.succ_le_of_lt hgt)
    rw [Nat.succ_mul] at hnext
    exact overlay_of_le (hhi.trans (hnext.trans (Nat.le_add_right _ _)))

/-- The stored size does not matter for the contents. -/
theorem Holds.setSize (h : c.Holds a) (size : Option ℕ) :
    FileCache.Holds { c with cachedFileSize := size } a :=
  ⟨h.file_le, h.cached, h.clean, h.uncached, h.tail⟩

/-! ## Write-backs and evictions -/

theorem writeBack_size (p : ℕ) (page : CachedFilePage) (c : FileCache) :
    (c.writeBack p page).cachedFileSize = c.cachedFileSize := by
  unfold writeBack
  split
  · rfl
  · rfl

/-- **A write-back** brings its page to the backing file and takes no other page from it. -/
theorem Holds.writeBack (h : c.Holds a) (hp : c.pages p = some page) :
    c.file.size ≤ (c.writeBack p page).file.size ∧ (c.writeBack p page).file.size ≤ a.size ∧
    Backed (c.writeBack p page).file a p page.valid ∧ (∀ q, q ≠ p → ∀ k, k < PAGESIZE →
      (c.writeBack p page).file.byte (q * PAGESIZE + k) = c.file.byte (q * PAGESIZE + k)) ∧
    ∀ k, page.valid ≤ k → k < PAGESIZE → (c.writeBack p page).file.byte (p * PAGESIZE + k) = 0 := by
  have hok := h.cached p page hp
  have hfile := h.file_le
  cases hdirty : page.dirty with
  | false =>
    have hsame : c.writeBack p page = c := by
      unfold FileCache.writeBack
      rw [hdirty]
      rfl
    rw [hsame]
    exact ⟨le_rfl, hfile, h.clean p page hp hdirty, fun _ _ _ _ => rfl, h.tail p page hp⟩
  | true =>
    have hwrite : (c.writeBack p page).file = c.file.write (p * PAGESIZE) (pageBytes page) := by
      unfold FileCache.writeBack
      rw [hdirty]
      rfl
    have hlen : (pageBytes page).length = page.valid := length_slice ..
    have hsize : (c.file.write (p * PAGESIZE) (pageBytes page)).size =
        max c.file.size (p * PAGESIZE + page.valid) := by
      rw [← hlen]
      rfl
    have hpos := hok.dirty hdirty
    have hle := hok.le
    have htail : ∀ k, page.valid ≤ k → k < PAGESIZE →
        overlay (p * PAGESIZE) (pageBytes page) c.file.byte (p * PAGESIZE + k) = 0 := by
      intro k hv hk
      rw [overlay_of_le (by omega)]
      exact h.tail p page hp k hv hk
    rw [hwrite]
    refine ⟨?_, ?_, ⟨?_, ?_⟩, ?_, htail⟩
    · omega
    · omega
    · intro k hk
      show overlay (p * PAGESIZE) (pageBytes page) c.file.byte (p * PAGESIZE + k) = _
      by_cases hv : k < page.valid
      · rw [overlay_add (by omega)]
        unfold pageBytes
        rw [getD_slice hv, zero_add]
        exact hok.data k hk
      · -- Behind the valid bytes both the array and the backing file are zero.
        rw [htail k (by omega) hk, ← hok.data k hk, hok.zero k (by omega) hk]
    · omega
    · intro q hq k hk
      exact overlay_other_page le_rfl (by omega) hq hk

/-- The state after a write-back, in which the page was marked clean or dropped. -/
theorem Holds.setWritten (h : c.Holds a)
    (hp : c.pages p = some page) {entry : Option CachedFilePage}
    (hentry : entry = none ∨ entry = some { page with dirty := false }) {c' : FileCache}
    (hfile : c'.file = (c.writeBack p page).file)
    (hpages : c'.pages = update c.pages p entry) : c'.Holds a ∧ Longer c c' := by
  obtain ⟨hgrow, hle, hbacked, hother, htail⟩ := h.writeBack hp
  have hok := h.cached p page hp
  refine ⟨?_, ?_⟩
  · refine h.change hpages (by rwa [hfile]) (by rwa [hfile]) le_rfl ?_ ?_
    · intro q hq k hk
      rw [hfile]
      exact ⟨hother q hq k hk, rfl⟩
    · rw [hfile]
      rcases hentry with rfl | rfl
      · exact ⟨nofun, nofun, fun _ => ⟨hbacked.data, Nat.zero_le _⟩, nofun⟩
      · exact .of_page ⟨hok.le, hok.data, hok.zero, nofun⟩ (fun _ => hbacked) htail
  · refine ⟨by rw [hfile]; exact hgrow, ?_⟩
    intro q
    by_cases hqp : q = p
    · subst hqp
      rw [validAt_cached hp]
      rcases hentry with rfl | rfl
      · have hnone : c'.pages q = none := by rw [hpages, update_self]
        have hlen := hbacked.le
        have hpage := hok.le
        rw [validAt_uncached hnone, hfile]
        omega
      · have hsome : c'.pages q = some { page with dirty := false } := by
          rw [hpages, update_self]
        rw [validAt_cached hsome]
    · exact validAt_mono (by rw [hpages, update_of_ne hqp]) (by rwa [hfile])

/-- **An eviction** keeps the contents and makes no page shorter. -/
theorem Holds.evictFilePage (h : c.Holds a) (p : ℕ) :
    (c.evictFilePage p).Holds a ∧ Longer c (c.evictFilePage p) ∧
      (c.evictFilePage p).cachedFileSize = c.cachedFileSize := by
  unfold FileCache.evictFilePage
  cases hp : c.pages p with
  | none => exact ⟨h, .refl c, rfl⟩
  | some page =>
    have hwritten : FileCache.Holds { c.writeBack p page with
        pages := update c.pages p none } a ∧ Longer c { c.writeBack p page with
        pages := update c.pages p none } := h.setWritten hp (Or.inl rfl) rfl rfl
    exact ⟨hwritten.1, hwritten.2, writeBack_size p page c⟩

/-- **A flush of one page** keeps the contents and makes no page shorter. -/
theorem Holds.flushPage (h : c.Holds a) (p : ℕ) :
    (c.flushPage p).Holds a ∧ Longer c (c.flushPage p) ∧
      (c.flushPage p).cachedFileSize = c.cachedFileSize := by
  unfold FileCache.flushPage
  cases hp : c.pages p with
  | none => exact ⟨h, .refl c, rfl⟩
  | some page =>
    have hwritten : FileCache.Holds { c.writeBack p page with
        pages := update c.pages p (some { page with dirty := false }) } a ∧
        Longer c { c.writeBack p page with
          pages := update c.pages p (some { page with dirty := false }) } :=
      h.setWritten hp (Or.inr rfl) rfl rfl
    exact ⟨hwritten.1, hwritten.2, writeBack_size p page c⟩

theorem Holds.foldl {step : FileCache → ℕ → FileCache}
    (hstep : ∀ c, c.Holds a → ∀ p, (step c p).Holds a ∧ Longer c (step c p) ∧
      (step c p).cachedFileSize = c.cachedFileSize) :
    ∀ (order : List ℕ) (c : FileCache), c.Holds a → (order.foldl step c).Holds a ∧
      Longer c (order.foldl step c) ∧ (order.foldl step c).cachedFileSize = c.cachedFileSize := by
  intro order
  induction order with
  | nil =>
    intro c h
    exact ⟨h, .refl c, rfl⟩
  | cons p order ih =>
    intro c h
    obtain ⟨h₁, hlonger₁, hsize₁⟩ := hstep c h p
    obtain ⟨h₂, hlonger₂, hsize₂⟩ := ih (step c p) h₁
    exact ⟨h₂, hlonger₁.trans hlonger₂, hsize₂.trans hsize₁⟩

theorem flushFilePages_clean : ∀ (order : List ℕ) (c : FileCache) (p : ℕ) (page : CachedFilePage),
    (c.flushFilePages order).pages p = some page → page.dirty = true →
    p ∉ order ∧ c.pages p = some page := by
  intro order
  induction order with
  | nil =>
    intro c p page hp _
    exact ⟨not_mem_nil, hp⟩
  | cons q order ih =>
    intro c p page hp hd
    obtain ⟨hnot, hbefore⟩ := ih (c.flushPage q) p page hp hd
    unfold flushPage at hbefore
    cases hq : c.pages q with
    | none =>
      rw [hq] at hbefore
      refine ⟨?_, hbefore⟩
      rw [mem_cons, not_or]
      refine ⟨?_, hnot⟩
      rintro rfl
      rw [hq] at hbefore
      cases hbefore
    | some page' =>
      rw [hq] at hbefore
      have hentry : update c.pages q (some { page' with dirty := false }) p =
          some page := hbefore
      have hne : p ≠ q := by
        rintro rfl
        rw [update_self] at hentry
        rw [← Option.some.inj hentry] at hd
        cases hd
      rw [update_of_ne hne] at hentry
      exact ⟨by rw [mem_cons, not_or]; exact ⟨hne, hnot⟩, hentry⟩

/-- After a flush the backing file has all bytes of the array. -/
theorem Holds.file_byte_eq (h : c.Holds a)
    (hclean : ∀ p page, c.pages p = some page → page.dirty = false) : c.file.byte = a.byte := by
  funext k
  have hk : k / PAGESIZE * PAGESIZE + k % PAGESIZE = k := Nat.div_add_mod' k PAGESIZE
  have hlt : k % PAGESIZE < PAGESIZE := Nat.mod_lt k (by decide)
  have hbacked : ∃ valid, Backed c.file a (k / PAGESIZE) valid := by
    cases hp : c.pages (k / PAGESIZE) with
    | none => exact ⟨0, h.uncached _ hp⟩
    | some page => exact ⟨_, h.clean _ page hp (hclean _ page hp)⟩
  obtain ⟨valid, hb⟩ := hbacked
  rw [← hk]
  exact hb.data _ hlt

/-! ## Loading a page -/

theorem loadPage_valid (file : ByteFile) (p : ℕ) :
    (loadPage file p).valid = min PAGESIZE (file.size - p * PAGESIZE) := length_slice ..

theorem loadPage_data (file : ByteFile) (p : ℕ) (hk : k < PAGESIZE) :
    (loadPage file p).data k = file.byte (p * PAGESIZE + k) := by
  show (slice file.byte (p * PAGESIZE) (min PAGESIZE (file.size - p * PAGESIZE))).getD k 0 = _
  by_cases hv : k < min PAGESIZE (file.size - p * PAGESIZE)
  · exact getD_slice hv
  · rw [getD_eq_default _ _ (by rw [length_slice]; omega), file.zero _ (by omega)]

/-- **`cached_file_page`** returns a page of the cache. -/
theorem Holds.cachedFilePage (h : c.Holds a) (evicted : List ℕ) (p : ℕ) :
    (c.cachedFilePage evicted p).2.Holds a ∧ Longer c (c.cachedFilePage evicted p).2 ∧
    (c.cachedFilePage evicted p).2.cachedFileSize = c.cachedFileSize ∧
    (c.cachedFilePage evicted p).2.pages p = some (c.cachedFilePage evicted p).1 := by
  unfold FileCache.cachedFilePage
  cases hp : c.pages p with
  | some page => exact ⟨h, .refl c, rfl, hp⟩
  | none =>
    obtain ⟨h', hlonger, hsize⟩ := Holds.foldl (fun c hc q => hc.evictFilePage q) evicted c h
    set d := evicted.foldl FileCache.evictFilePage c with hd
    -- An eviction brings no page back.
    have hnone : d.pages p = none := by
      have hgone : ∀ (evicted : List ℕ) (c : FileCache), c.pages p = none →
          (evicted.foldl FileCache.evictFilePage c).pages p = none := by
        intro evicted
        induction evicted with
        | nil => exact fun c hc => hc
        | cons q evicted ih =>
          intro c hc
          apply ih
          unfold FileCache.evictFilePage
          cases hq : c.pages q with
          | none => exact hc
          | some page =>
            show update c.pages q none p = none
            by_cases hpq : p = q
            · rw [hpq, update_self]
            · rw [update_of_ne hpq, hc]
      exact hgone evicted c hp
    have hbacked := h'.uncached p hnone
    have hfile := h'.file_le
    refine ⟨?_, ?_, hsize, update_self ..⟩
    · have hload : PageOk a p (loadPage d.file p) := by
        refine ⟨?_, ?_, ?_, nofun⟩
        · rw [loadPage_valid]
          omega
        · intro k hk
          rw [loadPage_data _ _ hk]
          exact hbacked.data k hk
        · intro k hv hk
          rw [loadPage_valid] at hv
          rw [loadPage_data _ _ hk]
          exact d.file.zero _ (by omega)
      refine h'.change rfl hfile le_rfl le_rfl (fun _ _ _ _ => ⟨rfl, rfl⟩) (.of_page hload ?_ ?_)
      · intro _
        refine ⟨hbacked.data, ?_⟩
        rw [loadPage_valid]
        exact min_le_right ..
      · intro k hv hk
        rw [← loadPage_data _ _ hk]
        exact hload.zero k hv hk
    · refine hlonger.trans ⟨le_rfl, fun q => ?_⟩
      by_cases hqp : q = p
      · subst hqp
        rw [validAt_uncached hnone, validAt_cached (update_self ..), loadPage_valid]
      · exact validAt_mono (update_of_ne hqp ..) le_rfl

/-- A load without evictions gives every page the length that it had. -/
theorem cachedFilePage_validAt (c : FileCache) (p q : ℕ) :
    (c.cachedFilePage [] p).2.validAt q = c.validAt q := by
  unfold cachedFilePage
  cases hp : c.pages p with
  | some page => rfl
  | none =>
    show validAt { c with
      pages := update c.pages p (some (loadPage c.file p)) } q = c.validAt q
    by_cases hqp : q = p
    · subst hqp
      rw [validAt_uncached hp, validAt_cached (update_self ..), loadPage_valid]
    · exact validAt_congr (update_of_ne hqp ..) rfl

/-! ## Reads -/

/-- The bytes of a range of the file are below the valid lengths of their pages. -/
def Reaches (c : FileCache) (lo hi : ℕ) : Prop :=
  ∀ k, lo ≤ k → k < hi → k % PAGESIZE < c.validAt (k / PAGESIZE)

theorem div_mod_of_lt_page (hlo : offset ≤ k) (hhi : k < offset / PAGESIZE * PAGESIZE + PAGESIZE) :
    k / PAGESIZE = offset / PAGESIZE ∧ k % PAGESIZE = offset % PAGESIZE + (k - offset) := by
  unfold PAGESIZE at *
  omega

/-- **The loop of `read_cached_file`** returns the bytes of the array up to a byte that its
page does not reach. -/
theorem Holds.readLoop (evict : ℕ → List ℕ) : ∀ (fuel offset len : ℕ) (c : FileCache),
    len ≤ fuel → c.Holds a → ∃ m, m ≤ min len (a.size - offset) ∧
      (readLoop evict fuel offset len c).1 = slice a.byte offset m ∧
      (readLoop evict fuel offset len c).2.Holds a ∧ Longer c (readLoop evict fuel offset len c).2 ∧
      (readLoop evict fuel offset len c).2.cachedFileSize = c.cachedFileSize ∧
      (c.Reaches offset (min (offset + len) a.size) → m = min len (a.size - offset)) ∧
      ((∀ p, evict p = []) → c.Reaches offset (offset + m)) := by
  intro fuel
  induction fuel with
  | zero =>
    intro offset len c hlen h
    obtain rfl : len = 0 := by omega
    refine ⟨0, Nat.zero_le _, rfl, h, .refl c, rfl, fun _ => by omega, fun _ k _ _ => by omega⟩
  | succ fuel ih =>
    intro offset len c hlen h
    by_cases hzero : len = 0
    · subst hzero
      exact ⟨0, Nat.zero_le _, rfl, h, .refl c, rfl, fun _ => by omega, fun _ k _ _ => by omega⟩
    obtain ⟨h', hlonger, hsize, hpage⟩ := h.cachedFilePage (evict (offset / PAGESIZE))
      (offset / PAGESIZE)
    set page := (c.cachedFilePage (evict (offset / PAGESIZE)) (offset / PAGESIZE)).1 with hpg
    set d := (c.cachedFilePage (evict (offset / PAGESIZE)) (offset / PAGESIZE)).2 with hd
    have hok := h'.cached _ page hpage
    have hvalid := validAt_cached hpage
    have hgrow := hlonger.page (offset / PAGESIZE)
    have hpos : offset / PAGESIZE * PAGESIZE + offset % PAGESIZE = offset :=
      Nat.div_add_mod' offset PAGESIZE
    have hin : offset % PAGESIZE < PAGESIZE := Nat.mod_lt offset (by decide)
    have hle := hok.le
    -- Without evictions the lengths are those from before.
    have hsame : (∀ p, evict p = []) → ∀ q, d.validAt q = c.validAt q := by
      intro hnone q
      rw [hd, hnone]
      exact cachedFilePage_validAt c _ q
    have hunfold : FileCache.readLoop evict (fuel + 1) offset len c =
        if page.valid ≤ offset % PAGESIZE then ([], d)
        else
          if page.valid < PAGESIZE ∧ page.valid ≤ offset % PAGESIZE +
              min len (page.valid - offset % PAGESIZE) then
            (slice page.data (offset % PAGESIZE) (min len (page.valid - offset % PAGESIZE)), d)
          else
            (slice page.data (offset % PAGESIZE) (min len (page.valid - offset % PAGESIZE)) ++
              (FileCache.readLoop evict fuel (offset + min len (page.valid - offset % PAGESIZE))
                (len - min len (page.valid - offset % PAGESIZE)) d).1,
              (FileCache.readLoop evict fuel (offset + min len (page.valid - offset % PAGESIZE))
                (len - min len (page.valid - offset % PAGESIZE)) d).2) := by
      rw [FileCache.readLoop, if_neg hzero]
    rw [hunfold]
    by_cases hshort : page.valid ≤ offset % PAGESIZE
    · rw [if_pos hshort]
      refine ⟨0, Nat.zero_le _, rfl, h', hlonger, hsize, ?_, fun _ k _ _ => by omega⟩
      intro hreach
      by_contra hne
      have hbyte := hreach offset le_rfl (by omega)
      omega
    rw [if_neg hshort]
    set chunk := min len (page.valid - offset % PAGESIZE) with hchunk
    have hbytes : slice page.data (offset % PAGESIZE) chunk = slice a.byte offset chunk := by
      apply slice_congr
      intro k hk
      rw [hok.data _ (by omega), ← add_assoc, hpos]
    have hreached : (∀ p, evict p = []) → c.Reaches offset (offset + chunk) := by
      intro hnone k hlo hhi
      obtain ⟨hdiv, hmod⟩ := div_mod_of_lt_page hlo (by omega)
      rw [hdiv, hmod, ← hsame hnone, hvalid]
      omega
    by_cases hend : page.valid < PAGESIZE ∧ page.valid ≤ offset % PAGESIZE + chunk
    · rw [if_pos hend]
      refine ⟨chunk, by omega, hbytes, h', hlonger, hsize, ?_, hreached⟩
      intro hreach
      by_contra hne
      have hbyte := hreach (offset + chunk) (by omega) (by omega)
      obtain ⟨hdiv, hmod⟩ := div_mod_of_lt_page (Nat.le_add_right offset chunk) (by omega)
      rw [hdiv, hmod] at hbyte
      omega
    rw [if_neg hend]
    obtain ⟨m, hm, hres, hholds, hlonger', hsize', hfull, hback⟩ :=
      ih (offset + chunk) (len - chunk) d (by omega) h'
    refine ⟨chunk + m, by omega, ?_, hholds, hlonger.trans hlonger', hsize'.trans hsize, ?_, ?_⟩
    · dsimp only
      rw [hbytes, hres, slice_add]
    · intro hreach
      have hrest : d.Reaches (offset + chunk) (min (offset + chunk + (len - chunk)) a.size) := by
        intro k hlo hhi
        exact lt_of_lt_of_le (hreach k (by omega) (by omega)) (hlonger.page _)
      have hm' := hfull hrest
      omega
    · intro hnone k hlo hhi
      by_cases hk : k < offset + chunk
      · exact hreached hnone k hlo hk
      · rw [← hsame hnone]
        exact hback hnone k (by omega) (by omega)

/-! ## Writes -/

/-- Every page is as long as the file makes it. -/
def Full (c : FileCache) (a : ByteFile) : Prop :=
  ∀ p, min PAGESIZE (a.size - p * PAGESIZE) ≤ c.validAt p

theorem Full.longer (h : c.Full a) (hlonger : Longer c c') : c'.Full a :=
  fun p => (h p).trans (hlonger.page p)

/-- A full cache reaches every byte of the file. -/
theorem Full.reaches (h : c.Full a) {lo hi : ℕ} (hhi : hi ≤ a.size) : c.Reaches lo hi := by
  intro k _ hk
  have hfull := h (k / PAGESIZE)
  unfold PAGESIZE at *
  omega

/-- Some bytes are written to a cached page. -/
def setPage (p : ℕ) (page : CachedFilePage) (c : FileCache) : FileCache :=
  { c with pages := update c.pages p (some page) }

variable {bytes : List UInt8}

/-- **One round of `write_cached_file`** is a write to the array. -/
theorem Holds.writePage (h : c.Holds a)
    (hp : c.pages (offset / PAGESIZE) = some page) (hne : 0 < bytes.length)
    (hfit : offset % PAGESIZE + bytes.length ≤ PAGESIZE) :
    (c.setPage (offset / PAGESIZE) (writePage (offset % PAGESIZE) bytes page)).Holds
      (a.write offset bytes) := by
  have hpos : offset / PAGESIZE * PAGESIZE + offset % PAGESIZE = offset :=
    Nat.div_add_mod' offset PAGESIZE
  have hok := h.cached _ page hp
  have hle := hok.le
  have hsize : (a.write offset bytes).size = max a.size (offset + bytes.length) := rfl
  have hfile := h.file_le
  refine h.change rfl (show c.file.size ≤ _ by omega) le_rfl (by omega) ?_ (.of_page ?_ nofun ?_)
  · intro q hq k hk
    exact ⟨rfl, overlay_other_page (by omega) (by omega) hq hk⟩
  · refine ⟨?_, ?_, ?_, ?_⟩
    · show max page.valid (offset % PAGESIZE + bytes.length) ≤ _
      omega
    · intro k hk
      show overlay (offset % PAGESIZE) bytes page.data k =
        overlay offset bytes a.byte (offset / PAGESIZE * PAGESIZE + k)
      by_cases hlow : k < offset % PAGESIZE
      · rw [overlay_of_lt hlow, overlay_of_lt (by omega)]
        exact hok.data k hk
      by_cases hhigh : offset % PAGESIZE + bytes.length ≤ k
      · rw [overlay_of_le hhigh, overlay_of_le (by omega)]
        exact hok.data k hk
      · obtain ⟨j, rfl⟩ := Nat.exists_eq_add_of_le (Nat.not_lt.mp hlow)
        rw [overlay_add (by omega), ← add_assoc, hpos, overlay_add (by omega)]
    · intro k hv hk
      have hv' : max page.valid (offset % PAGESIZE + bytes.length) ≤ k := hv
      show overlay (offset % PAGESIZE) bytes page.data k = 0
      rw [overlay_of_le (by omega)]
      exact hok.zero k (by omega) hk
    · intro _
      show 0 < max page.valid (offset % PAGESIZE + bytes.length)
      omega
  · intro k hv hk
    have hv' : max page.valid (offset % PAGESIZE + bytes.length) ≤ k := hv
    exact h.tail _ page hp k (by omega) hk

/-- A round of a write that starts in a page of the file, or right behind the last one, leaves
no page short. -/
theorem Full.writePage (h : c.Full a) (hp : c.pages (offset / PAGESIZE) = some page)
    (hfit : offset % PAGESIZE + bytes.length ≤ PAGESIZE)
    (hguard : offset / PAGESIZE * PAGESIZE ≤ a.size) :
    (c.setPage (offset / PAGESIZE) (writePage (offset % PAGESIZE) bytes page)).Full
      (a.write offset bytes) := by
  intro q
  have hpos : offset / PAGESIZE * PAGESIZE + offset % PAGESIZE = offset :=
    Nat.div_add_mod' offset PAGESIZE
  have hsize : (a.write offset bytes).size = max a.size (offset + bytes.length) := rfl
  have hold := h q
  by_cases hqp : q = offset / PAGESIZE
  · subst hqp
    rw [validAt_cached hp] at hold
    rw [validAt_cached (update_self ..), hsize]
    show _ ≤ max page.valid (offset % PAGESIZE + bytes.length)
    omega
  · refine le_trans ?_ (hold.trans (validAt_mono (update_of_ne hqp ..) le_rfl))
    rw [hsize]
    unfold PAGESIZE at *
    omega

/-- **The loop of `write_cached_file`.** -/
theorem Holds.writeLoop (evict : ℕ → List ℕ) : ∀ (fuel offset : ℕ) (bytes : List UInt8)
    (c : FileCache) (a : ByteFile), bytes.length ≤ fuel → 0 < bytes.length → c.Holds a →
      (writeLoop evict fuel offset bytes c).Holds (a.write offset bytes) ∧
      (writeLoop evict fuel offset bytes c).cachedFileSize = c.cachedFileSize ∧
      (c.Full a → offset / PAGESIZE * PAGESIZE ≤ a.size →
        (writeLoop evict fuel offset bytes c).Full (a.write offset bytes)) := by
  intro fuel
  induction fuel with
  | zero =>
    intro offset bytes c a hlen hne
    omega
  | succ fuel ih =>
    intro offset bytes c a hlen hne h
    obtain ⟨h', hlonger, hsize, hpage⟩ := h.cachedFilePage (evict (offset / PAGESIZE))
      (offset / PAGESIZE)
    set page := (c.cachedFilePage (evict (offset / PAGESIZE)) (offset / PAGESIZE)).1 with hpg
    set d := (c.cachedFilePage (evict (offset / PAGESIZE)) (offset / PAGESIZE)).2 with hd
    have hin : offset % PAGESIZE < PAGESIZE := Nat.mod_lt offset (by decide)
    set chunk := min bytes.length (PAGESIZE - offset % PAGESIZE) with hchunk
    have htake : (bytes.take chunk).length = chunk := by
      rw [length_take]
      omega
    have hunfold : FileCache.writeLoop evict (fuel + 1) offset bytes c =
        FileCache.writeLoop evict fuel (offset + chunk) (bytes.drop chunk)
          (d.setPage (offset / PAGESIZE)
            (FileCache.writePage (offset % PAGESIZE) (bytes.take chunk) page)) := by
      have hempty : bytes.isEmpty = false := by
        rwa [isEmpty_eq_false_iff, ← length_pos_iff]
      rw [FileCache.writeLoop, hempty]
      rfl
    rw [hunfold]
    have hholds := h'.writePage hpage (by omega : 0 < (bytes.take chunk).length) (by omega)
    have hfull : c.Full a → offset / PAGESIZE * PAGESIZE ≤ a.size → (d.setPage
        (offset / PAGESIZE) (FileCache.writePage (offset % PAGESIZE) (bytes.take chunk)
          page)).Full (a.write offset (bytes.take chunk)) :=
      fun hc hguard => (hc.longer hlonger).writePage hpage (by omega) hguard
    have hwrite : (a.write offset (bytes.take chunk)).write (offset + chunk)
        (bytes.drop chunk) = a.write offset bytes := by
      have happend := ByteFile.write_append offset (bytes.take chunk) (bytes.drop chunk) a
      rwa [htake, take_append_drop] at happend
    by_cases hdone : bytes.length = chunk
    · -- This was the last round.
      have hnil : bytes.drop chunk = [] := by
        rw [← hdone]
        exact drop_length
      have hstop : ∀ (fuel offset : ℕ) (c : FileCache),
          FileCache.writeLoop evict fuel offset [] c = c := by
        intro fuel offset c
        cases fuel with
        | zero => rfl
        | succ fuel => rfl
      have hall : bytes.take chunk = bytes := by
        rw [← hdone]
        exact take_length
      rw [hnil, hstop]
      rw [hall] at hholds hfull ⊢
      exact ⟨hholds, hsize, hfull⟩
    · have hlen' : (bytes.drop chunk).length = bytes.length - chunk := length_drop
      obtain ⟨hres, hsize', hfull'⟩ := ih (offset + chunk) (bytes.drop chunk) _ _ (by omega)
        (by omega) hholds
      rw [hwrite] at hres hfull'
      refine ⟨hres, hsize'.trans hsize, ?_⟩
      intro hc hguard
      apply hfull' (hfull hc hguard)
      show _ ≤ max a.size (offset + (bytes.take chunk).length)
      rw [htake]
      exact (Nat.div_mul_le_self _ _).trans (Nat.le_max_right _ _)

/-! ## Runs -/

/-- A cache and the array that follows it. -/
structure Coherent (c : FileCache) (a : ByteFile) : Prop where
  size : c.size = a.size
  holds : c.Holds a

theorem Coherent.init (file : ByteFile) : (init file).Coherent file :=
  ⟨rfl, le_rfl, nofun, nofun, fun _ _ => ⟨fun _ _ => rfl, Nat.zero_le _⟩, nofun⟩

theorem Full.init (file : ByteFile) : (init file).Full file := fun _ => le_rfl

/-- A step that keeps the stored size and the array. -/
theorem Coherent.of_holds (h : c.Coherent a) (hholds : c'.Holds a)
    (hlonger : Longer c c') (hsize : c'.cachedFileSize = c.cachedFileSize) : c'.Coherent a := by
  refine ⟨?_, hholds⟩
  have hold := h.size
  unfold FileCache.size at hold ⊢
  rw [hsize]
  cases hstored : c.cachedFileSize with
  | some n =>
    rwa [hstored] at hold
  | none =>
    -- The backing file is as long as the array, and does not become shorter.
    rw [hstored] at hold
    have hold' : c.file.size = a.size := hold
    have hle := hholds.file_le
    have hgrow := hlonger.file
    show c'.file.size = a.size
    omega

/-- **`write_cached_file`** is a write to the array. -/
theorem Coherent.write (h : c.Coherent a) (evict : ℕ → List ℕ) (offset : ℕ) (bytes : List UInt8) :
    (c.writeCachedFile evict offset bytes).2.Coherent (a.write offset bytes) := by
  have hensure : c.ensureCachedFileSize.Holds a := h.holds.setSize _
  by_cases hne : 0 < bytes.length
  · obtain ⟨hholds, hsize, -⟩ :=
      Holds.writeLoop evict bytes.length offset bytes c.ensureCachedFileSize a le_rfl hne hensure
    refine ⟨?_, hholds.setSize _⟩
    show max (writeLoop evict bytes.length offset bytes c.ensureCachedFileSize).size
      (offset + bytes.length) = max a.size (offset + bytes.length)
    have hold : (writeLoop evict bytes.length offset bytes
        c.ensureCachedFileSize).size = a.size := by
      unfold FileCache.size
      rw [hsize]
      exact h.size
    rw [hold]
  · obtain rfl : bytes = [] := length_eq_zero_iff.mp (by omega)
    have hbyte : (a.write offset []).byte = a.byte := overlay_nil offset a.byte
    have hsize : a.size ≤ (a.write offset []).size := le_max_left ..
    refine ⟨?_, .of_entries (h.holds.file_le.trans hsize) fun p => ?_⟩
    · show max c.ensureCachedFileSize.size (offset + 0) = max a.size (offset + 0)
      have hold : c.ensureCachedFileSize.size = a.size := h.size
      rw [hold]
    · exact (h.holds.entry p).congr le_rfl hsize fun k _ => ⟨rfl, by rw [hbyte]⟩

/-- The writes that leave no page short: they start in a page of the file or right behind the
last one, and one without bytes starts in the file. -/
def MayWrite (a : ByteFile) (offset : ℕ) (bytes : List UInt8) : Prop :=
  if bytes = [] then offset ≤ a.size else offset / PAGESIZE * PAGESIZE ≤ a.size

theorem Full.write (h : c.Coherent a) (hfull : c.Full a) (evict : ℕ → List ℕ)
    (hguard : MayWrite a offset bytes) :
    (c.writeCachedFile evict offset bytes).2.Full (a.write offset bytes) := by
  unfold MayWrite at hguard
  by_cases hnil : bytes = []
  · subst hnil
    rw [if_pos rfl] at hguard
    intro p
    have hsize : (a.write offset []).size = a.size := by
      show max a.size (offset + 0) = a.size
      omega
    rw [hsize]
    exact hfull p
  · rw [if_neg hnil] at hguard
    exact (Holds.writeLoop evict bytes.length offset bytes c.ensureCachedFileSize a le_rfl
      (length_pos_iff.mpr hnil) (h.holds.setSize _)).2.2 hfull hguard

theorem Holds.flush (h : c.Holds a) {order : List ℕ} (hcovers : c.Covers order) :
    (c.flushFilePages order).file.byte = a.byte := by
  refine (Holds.foldl (fun c hc q => hc.flushPage q) order c h).1.file_byte_eq ?_
  intro p page hp
  cases hdirty : page.dirty with
  | false => rfl
  | true =>
    obtain ⟨hnot, hbefore⟩ := flushFilePages_clean order c p page hp hdirty
    refine absurd (hcovers p ?_) hnot
    rw [hbefore]
    exact Option.some_ne_none page

theorem Coherent.flush (h : c.Coherent a) (order : List ℕ) :
    (c.flushFilePages order).Coherent a ∧ Longer c (c.flushFilePages order) := by
  obtain ⟨hholds, hlonger, hsize⟩ := Holds.foldl (fun c hc q => hc.flushPage q) order c h.holds
  exact ⟨h.of_holds hholds hlonger hsize, hlonger⟩

/-- **`VFS::truncate`** truncates the array. -/
theorem Coherent.truncate (h : c.Coherent a) {order : List ℕ} (hcovers : c.Covers order)
    (newSize : ℕ) : (c.truncate order newSize).Coherent (a.truncate newSize) ∧
      (c.truncate order newSize).Full (a.truncate newSize) := by
  have hbyte := h.holds.flush hcovers
  have hfile : (c.flushFilePages order).file.truncate newSize = a.truncate newSize := by
    unfold ByteFile.truncate
    simp only [hbyte]
  have heq : c.truncate order newSize =
      { FileCache.init (a.truncate newSize) with cachedFileSize := some newSize } := by
    rw [← hfile]
    rfl
  rw [heq]
  exact ⟨⟨rfl, (Coherent.init _).holds.setSize _⟩, fun _ => le_rfl⟩

end FileCache

/-- A file that is used through the page cache, with the array that follows it. -/
structure FileRun where
  cache : FileCache
  array : ByteFile

namespace FileRun

open FileCache

/-- A file whose `VINode` is new. -/
def start (file : ByteFile) : FileRun := ⟨init file, file⟩

/-- One call.  With `Guarded`, no write starts behind the page in which the file ends. -/
inductive Step (Guarded : Prop) : FileRun → FileRun → Prop
  | read (r : FileRun) (evict : ℕ → List ℕ) (offset len : ℕ) :
      Step Guarded r { r with cache := (r.cache.readCachedFile evict offset len).2 }
  | write (r : FileRun) (evict : ℕ → List ℕ) (offset : ℕ) (bytes : List UInt8)
      (hguard : Guarded → MayWrite r.array offset bytes) :
      Step Guarded r ⟨(r.cache.writeCachedFile evict offset bytes).2, r.array.write offset bytes⟩
  | truncate (r : FileRun) (order : List ℕ) (newSize : ℕ) (hcovers : r.cache.Covers order) :
      Step Guarded r ⟨r.cache.truncate order newSize, r.array.truncate newSize⟩
  | sync (r : FileRun) (order : List ℕ) (hcovers : r.cache.Covers order) :
      Step Guarded r { r with cache := r.cache.flushFilePages order }
  | evict (r : FileRun) (p : ℕ) : Step Guarded r { r with cache := r.cache.evictFilePage p }
  | size (r : FileRun) : Step Guarded r { r with cache := r.cache.mergedFileSize.2 }

def Inv (r : FileRun) : Prop := r.cache.Coherent r.array

theorem coherent_step {G : Prop} (r r' : FileRun) (h : r.Inv) (hstep : Step G r r') : r'.Inv := by
  cases hstep with
  | read evict offset len =>
    obtain ⟨m, -, -, hholds, hlonger, hsize, -, -⟩ :=
      Holds.readLoop evict len offset len r.cache le_rfl h.holds
    exact h.of_holds hholds hlonger hsize
  | write evict offset bytes _ => exact h.write evict offset bytes
  | truncate order newSize hcovers => exact (h.truncate hcovers newSize).1
  | sync order hcovers => exact (h.flush order).1
  | evict p =>
    obtain ⟨hholds, hlonger, hsize⟩ := h.holds.evictFilePage p
    exact h.of_holds hholds hlonger hsize
  | size => exact ⟨h.size, h.holds.setSize _⟩

theorem full_step (r r' : FileRun) (h : r.Inv ∧ r.cache.Full r.array)
    (hstep : Step True r r') : r'.Inv ∧ r'.cache.Full r'.array := by
  refine ⟨coherent_step r r' h.1 hstep, ?_⟩
  cases hstep with
  | read evict offset len =>
    obtain ⟨m, -, -, -, hlonger, -, -, -⟩ :=
      Holds.readLoop evict len offset len r.cache le_rfl h.1.holds
    exact h.2.longer hlonger
  | write evict offset bytes hguard => exact Full.write h.1 h.2 evict (hguard trivial)
  | truncate order newSize hcovers => exact (h.1.truncate hcovers newSize).2
  | sync order hcovers => exact h.2.longer (h.1.flush order).2
  | evict p => exact h.2.longer (h.1.holds.evictFilePage p).2.1
  | size => exact h.2

theorem read_of_reaches {c : FileCache} {a : ByteFile} (h : c.Holds a) (evict : ℕ → List ℕ)
    {offset len : ℕ} (hreach : c.Reaches offset (min (offset + len) a.size)) :
    (c.readCachedFile evict offset len).1 = a.read offset len := by
  obtain ⟨m, -, hres, -, -, -, hfull, -⟩ := Holds.readLoop evict len offset len c le_rfl h
  unfold readCachedFile ByteFile.read
  rw [hres, hfull hreach]

/-- **The page cache is transparent up to short pages.**  In every state of every run
`VFS::size` is the size of the array, and a read is right, whatever it evicts, exactly when no
byte of it lies behind the valid length of its page.  In a run of writes that do not start
behind the page in which the file ends, every read is right. -/
theorem page_cache_transparent (file : ByteFile) :
    (∀ r, ReflTransGen (Step False) (start file) r →
      r.cache.mergedFileSize.1 = r.array.size ∧
      ∀ offset len, (∀ evict, (r.cache.readCachedFile evict offset len).1 =
        r.array.read offset len) ↔
        ∀ k, offset ≤ k → k < min (offset + len) r.array.size →
          k % PAGESIZE < r.cache.validAt (k / PAGESIZE)) ∧
    ∀ r, ReflTransGen (Step True) (start file) r → ∀ evict offset len,
      (r.cache.readCachedFile evict offset len).1 = r.array.read offset len := by
  refine ⟨?_, ?_⟩
  · intro r hrun
    have h : r.Inv := Transition.invariant coherent_step hrun (Coherent.init file)
    refine ⟨h.size, ?_⟩
    intro offset len
    constructor
    · intro hright k hlo hhi
      obtain ⟨m, hm, hres, -, -, -, -, hback⟩ :=
        Holds.readLoop (fun _ => []) len offset len r.cache le_rfl h.holds
      have hlen : m = min len (r.array.size - offset) := by
        have hsame := hright fun _ => []
        unfold readCachedFile ByteFile.read at hsame
        rw [hres] at hsame
        simpa using congrArg length hsame
      exact hback (fun _ => rfl) k hlo (by omega)
    · intro hreach evict
      exact read_of_reaches h.holds evict hreach
  · intro r hrun evict offset len
    have h := Transition.invariant full_step hrun ⟨Coherent.init file, Full.init file⟩
    exact read_of_reaches h.1.holds evict (h.2.reaches (min_le_right ..))

section Sample

/-- A byte is written behind the first page of an empty file. -/
def gapWritten : FileRun :=
  ⟨((init .empty).writeCachedFile (fun _ => []) PAGESIZE [7]).2, ByteFile.empty.write PAGESIZE [7]⟩

/-- The theorem for two bytes at the start of an empty file, of which the second is written
again. -/
theorem page_cache_transparent_two : ∃ r, ReflTransGen (Step True) (start .empty) r ∧
    ∀ evict, (r.cache.readCachedFile evict 0 4).1 = [7, 9] := by
  have hfirst : Step True (start .empty) _ := Step.write (start .empty) (fun _ => []) 0 [7, 8]
    fun _ => Nat.zero_le _
  have hrun := (ReflTransGen.single hfirst).tail (Step.write _ (fun _ => []) 1 [9]
    fun _ => Nat.zero_le _)
  refine ⟨_, hrun, ?_⟩
  intro evict
  rw [(page_cache_transparent .empty).2 _ hrun evict 0 4]
  decide

/-- **A gap cannot be read.**  The file has `PAGESIZE + 1` bytes, and a read of the first one
returns nothing. -/
theorem gap_not_read :
    ReflTransGen (Step False) (start .empty) gapWritten ∧
    gapWritten.cache.mergedFileSize.1 = PAGESIZE + 1 ∧
    gapWritten.array.read 0 1 = [0] ∧
    (gapWritten.cache.readCachedFile (fun _ => []) 0 1).1 = [] := by
  refine ⟨.single (Step.write (start .empty) (fun _ => []) PAGESIZE [7] nofun), ?_, ?_, ?_⟩
  · decide
  · decide
  · decide

end Sample

end FileRun

end Sustcore
