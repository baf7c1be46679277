/-
# Reference-counted page frames (`kernel/mem/gfp.h`)

`GFP` puts a table of reference counts over a raw page allocator.  The raw allocator is
any type that meets the concept `RawGFP` of `gfp_def.h`; its contract is a structure of
operations with their laws, and `buddyRaw` shows that `BuddyAllocator` meets it.

The table has `MAX_TRACKED_PAGES` entries.  A range that does not lie below that limit as
a whole is *untracked*: `keep_page` ignores it and `put_page` hands it straight to the
raw allocator.
-/
import Sustcore.BuddyOwned

namespace Sustcore

open Function Except Set

/-! ## Raw allocators -/

/-- The page frame of a byte. -/
def pageOf (x : ℕ) : ℕ := x / PAGESIZE

/-- `n` page frames from `p` on. -/
abbrev InFrames (p n q : ℕ) : Prop := p ≤ q ∧ q < p + n

theorem mem_pageRange_iff_pageOf {a n x : ℕ} (ha : PAGESIZE ∣ a) :
    x ∈ pageRange a n ↔ pageOf a ≤ pageOf x ∧ pageOf x < pageOf a + n := by
  obtain ⟨p, rfl⟩ := ha
  unfold pageOf
  rw [mem_pageRange]
  simp only [PAGESIZE]
  omega

/-- A type that meets the concept `RawGFP`, with the laws of a page allocator: `owned` is
the set of bytes it holds, a successful `getFreePage` takes whole pages out of it and
`putPage` adds the pages it is given. -/
structure RawGfp (S : Type) where
  getFreePage : S → ℕ → Except Halt (Result ℕ × S)
  putPage : S → ℕ → ℕ → Except Halt S
  owned : S → Set ℕ
  WF : S → Prop
  get_ok : ∀ s n a s', WF s → getFreePage s n = .ok (.ok a, s') → WF s' ∧ a ≠ 0 ∧
    PAGESIZE ∣ a ∧ owned s = owned s' ∪ pageRange a n ∧ Disjoint (owned s') (pageRange a n)
  get_error : ∀ s n e s', WF s → getFreePage s n = .ok (.error e, s') → WF s' ∧
    owned s' ⊆ owned s
  put_ok : ∀ s a n s', WF s → a ≠ 0 → Disjoint (pageRange a n) (owned s) →
    putPage s a n = .ok s' → WF s' ∧ owned s' = owned s ∪ pageRange a n
  put_aligned : ∀ s a n s', a ≠ 0 → n ≠ 0 → putPage s a n = .ok s' → PAGESIZE ∣ a

/-- **`BuddyAllocator` is a raw allocator.** -/
def buddyRaw : RawGfp Buddy where
  getFreePage := Buddy.getFreePage
  putPage := Buddy.putPage
  owned := Buddy.owned
  WF := Buddy.WF
  get_ok := by
    intro s n a s' hwf h
    obtain ⟨hwf', ⟨⟨e, he⟩, -⟩ | ⟨b, hb | ⟨e, he⟩, hne, hal, hsum, hdis⟩⟩ := getFreePage_owned hwf h
    · cases he
    · cases hb
      exact ⟨hwf', hne, hal, hsum, hdis⟩
    · cases he
  get_error := by
    intro s n e s' hwf h
    obtain ⟨hwf', ⟨-, heq⟩ | ⟨b, -, -, -, hsum, -⟩⟩ := getFreePage_owned hwf h
    · exact ⟨hwf', heq.le⟩
    · exact ⟨hwf', by rw [hsum]; exact subset_union_left⟩
  put_ok := fun _ _ _ _ hwf hne hdis h => putPage_owned hwf hne hdis h
  put_aligned := by
    intro s a n s' hne hn h
    rcases putPages_eq_ok h with ⟨h0, -⟩ | ⟨-, hal, -⟩
    · exact absurd h0 (by omega)
    · exact hal

/-! ## The table of reference counts -/

/-- `MAX_TRACKED_PAGES`: 4 GB of pages. -/
abbrev MAX_TRACKED_PAGES : ℕ := 4 * 1024 * 1024 * 1024 / PAGESIZE

/-- The static members of `GFP`. -/
structure Gfp (S : Type) where
  raw : S
  refcounts : ℕ → ℕ

def topfn (addr : ℕ) : ℕ := addr / PAGESIZE * PAGESIZE / PAGESIZE

def tracked (addr pageCount : ℕ) : Bool :=
  decide (topfn addr < MAX_TRACKED_PAGES ∧ pageCount ≤ MAX_TRACKED_PAGES - topfn addr)

theorem topfn_eq_pageOf (addr : ℕ) : topfn addr = pageOf addr := by
  unfold topfn pageOf
  rw [Nat.mul_div_cancel _ (by decide)]

theorem tracked_iff {addr n : ℕ} (hn : n ≠ 0) :
    tracked addr n = true ↔ topfn addr + n ≤ MAX_TRACKED_PAGES := by
  unfold tracked
  rw [decide_eq_true_iff]
  omega

/-- The loop of `get_free_page`: the counts of `n` pages from `pfn + i` on become one. -/
def setLoop (pfn : ℕ) : ℕ → ℕ → (ℕ → ℕ) → ℕ → ℕ
  | 0, _, rc => rc
  | n + 1, i, rc => setLoop pfn n (i + 1) (update rc (pfn + i) 1)

/-- The loop of `keep_page`. -/
def keepLoop (pfn : ℕ) : ℕ → ℕ → (ℕ → ℕ) → ℕ → ℕ
  | 0, _, rc => rc
  | n + 1, i, rc => keepLoop pfn n (i + 1) (update rc (pfn + i) (rc (pfn + i) + 1))

section Operations

variable {S : Type} (R : RawGfp S)

def Gfp.getFreePage (g : Gfp S) (pageCount : ℕ) : Except Halt (Result ℕ × Gfp S) := do
  let (res, raw) ← R.getFreePage g.raw pageCount
  match res with
  | .error e => pure (.error e, { g with raw := raw })
  | .ok paddr =>
    if tracked paddr pageCount then
      pure (.ok paddr, ⟨raw, setLoop (topfn paddr) pageCount 0 g.refcounts⟩)
    else pure (.ok paddr, { g with raw := raw })

/-- The pending run of freed pages goes back to the raw allocator. -/
def Gfp.flush (g : Gfp S) (addr runStart runLen : ℕ) : Except Halt (Gfp S) :=
  if runLen ≠ 0 then do
    let raw ← R.putPage g.raw (addr + runStart * PAGESIZE) runLen
    pure { g with raw := raw }
  else pure g

def dropRef (rc : ℕ → ℕ) (q : ℕ) : ℕ → ℕ :=
  if rc q > 0 then update rc q (rc q - 1) else rc

/-- The loop of `put_page` with `n` pages left, at index `i`: consecutive pages whose count
is zero are collected in a run. -/
def Gfp.putLoop (addr : ℕ) : ℕ → ℕ → ℕ → ℕ → Gfp S → Except Halt (Gfp S)
  | 0, _, runStart, runLen, g => g.flush R addr runStart runLen
  | n + 1, i, runStart, runLen, g =>
    let q := topfn addr + i
    let g := { g with refcounts := dropRef g.refcounts q }
    if g.refcounts q = 0 then
      Gfp.putLoop addr n (i + 1) (if runLen = 0 then i else runStart) (runLen + 1) g
    else do
      let g ← g.flush R addr runStart runLen
      Gfp.putLoop addr n (i + 1) runStart 0 g

def Gfp.putPage (g : Gfp S) (addr pageCount : ℕ) : Except Halt (Gfp S) :=
  if addr = 0 then pure g
  else if !tracked addr pageCount then do
    let raw ← R.putPage g.raw addr pageCount
    pure { g with raw := raw }
  else Gfp.putLoop R addr pageCount 0 0 0 g

def Gfp.keepPage (g : Gfp S) (addr pageCount : ℕ) : Gfp S :=
  if !tracked addr pageCount then g
  else { g with refcounts := keepLoop (topfn addr) pageCount 0 g.refcounts }

def Gfp.refCount (g : Gfp S) (addr : ℕ) : ℕ :=
  if !tracked addr 1 then 1 else g.refcounts (topfn addr)

end Operations

/-! ## What the loops do -/

theorem setLoop_eq (pfn : ℕ) : ∀ n i rc q,
    setLoop pfn n i rc q = if pfn + i ≤ q ∧ q < pfn + i + n then 1 else rc q := by
  intro n
  induction n with
  | zero =>
    intro i rc q
    rw [setLoop, if_neg (by omega)]
  | succ n ih =>
    intro i rc q
    rw [setLoop, ih]
    by_cases hq : q = pfn + i
    · subst hq
      rw [if_neg (by omega), if_pos (by omega), update_self]
    · rw [update_of_ne hq]
      split_ifs <;> omega

theorem keepLoop_eq (pfn : ℕ) : ∀ n i rc q,
    keepLoop pfn n i rc q = if pfn + i ≤ q ∧ q < pfn + i + n then rc q + 1 else rc q := by
  intro n
  induction n with
  | zero =>
    intro i rc q
    rw [keepLoop, if_neg (by omega)]
  | succ n ih =>
    intro i rc q
    rw [keepLoop, ih]
    by_cases hq : q = pfn + i
    · subst hq
      rw [if_neg (by omega), if_pos (by omega), update_self]
    · rw [update_of_ne hq]
      split_ifs <;> omega

theorem dropRef_apply (rc : ℕ → ℕ) (q p : ℕ) :
    dropRef rc q p = if p = q then rc p - 1 else rc p := by
  unfold dropRef
  split
  · rw [update_apply]
    split
    · rename_i h
      rw [h]
    · rfl
  · split
    · rename_i h0 h
      rw [h]
      omega
    · rfl

section Loops

variable {S : Type} {R : RawGfp S} {g g' : Gfp S}

theorem Gfp.flush_spec {addr rs rl : ℕ} (hwf : R.WF g.raw) (hne : addr ≠ 0)
    (hdis : ∀ x ∈ R.owned g.raw, ¬(pageOf addr + rs ≤ pageOf x ∧ pageOf x < pageOf addr + rs + rl))
    (h : g.flush R addr rs rl = .ok g') :
    R.WF g'.raw ∧ g'.refcounts = g.refcounts ∧ ∀ x, x ∈ R.owned g'.raw ↔
      x ∈ R.owned g.raw ∨ (pageOf addr + rs ≤ pageOf x ∧ pageOf x < pageOf addr + rs + rl) := by
  unfold Gfp.flush at h
  split at h
  · rename_i hrl
    obtain ⟨raw, hput, h⟩ := bind_eq_ok_iff.mp h
    cases h
    have hne' : addr + rs * PAGESIZE ≠ 0 := by omega
    have hal : PAGESIZE ∣ addr + rs * PAGESIZE := R.put_aligned _ _ _ _ hne' hrl hput
    have hpage : pageOf (addr + rs * PAGESIZE) = pageOf addr + rs := by
      unfold pageOf
      rw [Nat.add_mul_div_right _ _ (by decide)]
    have hmem : ∀ x, x ∈ pageRange (addr + rs * PAGESIZE) rl ↔
        pageOf addr + rs ≤ pageOf x ∧ pageOf x < pageOf addr + rs + rl := by
      intro x
      rw [mem_pageRange_iff_pageOf hal, hpage]
    obtain ⟨hwf', howned⟩ := R.put_ok _ _ _ _ hwf hne'
      (disjoint_left.mpr fun x hx hx' => hdis x hx' ((hmem x).mp hx)) hput
    refine ⟨hwf', rfl, ?_⟩
    intro x
    rw [show R.owned raw = _ from howned, mem_union, hmem]
  · cases h
    refine ⟨hwf, rfl, ?_⟩
    intro x
    constructor
    · exact Or.inl
    · rintro (hx | hx)
      · exact hx
      · omega

/-- The pending run of the loop, counted from its end. -/
theorem pending_run_iff {p i rs rl y : ℕ} (hrs : rl ≠ 0 → rs + rl = i) :
    (p + rs ≤ y ∧ y < p + rs + rl) ↔ (p + i ≤ y + rl ∧ y < p + i) := by
  by_cases h0 : rl = 0
  · omega
  · omega

/-- **The put loop.** The pending run `[i - rl, i)` and every page from index `i` on whose
count was at most one go to the raw allocator; all counts from `i` on drop by one. -/
theorem Gfp.putLoop_spec {addr : ℕ} (hne : addr ≠ 0) : ∀ n i rs rl (g g' : Gfp S), R.WF g.raw →
    (rl ≠ 0 → rs + rl = i) → rl ≤ i →
    (∀ x ∈ R.owned g.raw, ¬(pageOf addr + i ≤ pageOf x + rl ∧ pageOf x < pageOf addr + i + n)) →
    Gfp.putLoop R addr n i rs rl g = .ok g' → R.WF g'.raw ∧
      (∀ x, x ∈ R.owned g'.raw ↔ x ∈ R.owned g.raw ∨
        (pageOf addr + i ≤ pageOf x + rl ∧ pageOf x < pageOf addr + i) ∨
        (pageOf addr + i ≤ pageOf x ∧ pageOf x < pageOf addr + i + n ∧ g.refcounts (pageOf x) ≤ 1)) ∧
      ∀ q, g'.refcounts q =
        if pageOf addr + i ≤ q ∧ q < pageOf addr + i + n then g.refcounts q - 1 else g.refcounts q := by
  intro n
  induction n with
  | zero =>
    intro i rs rl g g' hwf hrs hle hdis h
    obtain ⟨hwf', hrc, howned⟩ := Gfp.flush_spec hwf hne
      (fun x hx hx' => hdis x hx (by have := (pending_run_iff hrs).mp hx'; omega)) h
    refine ⟨hwf', ?_, ?_⟩
    · intro x
      rw [howned]
      apply or_congr_right
      omega
    · intro q
      rw [hrc, if_neg (by omega)]
  | succ n ih =>
    intro i rs rl g g' hwf hrs hle hdis h
    rw [Gfp.putLoop, topfn_eq_pageOf] at h
    have hdrop : ∀ q, dropRef g.refcounts (pageOf addr + i) q =
        if q = pageOf addr + i then g.refcounts q - 1 else g.refcounts q := dropRef_apply _ _
    simp only at h
    split at h
    · -- the page dies: it joins the run
      rename_i hzero
      rw [hdrop, if_pos rfl] at hzero
      have hstart : rl + 1 ≠ 0 → (if rl = 0 then i else rs) + (rl + 1) = i + 1 := by
        split <;> omega
      obtain ⟨hwf', howned, hrc⟩ := ih (i + 1) _ (rl + 1)
        ⟨g.raw, dropRef g.refcounts (pageOf addr + i)⟩ g' hwf hstart (by omega)
        (fun x hx hx' => hdis x hx (by omega)) h
      refine ⟨hwf', ?_, ?_⟩
      · intro x
        rw [howned x]
        apply or_congr_right
        simp only [hdrop]
        by_cases hx : pageOf x = pageOf addr + i
        · rw [hx]
          omega
        · rw [if_neg hx]
          omega
      · intro q
        rw [hrc q]
        simp only [hdrop]
        split_ifs <;> omega
    · -- the page lives on: the run before it is flushed
      rename_i hpos
      rw [hdrop, if_pos rfl] at hpos
      obtain ⟨t, ht, h⟩ := bind_eq_ok_iff.mp h
      obtain ⟨hwft, hrct, hownedt⟩ := Gfp.flush_spec
        (g := ⟨g.raw, dropRef g.refcounts (pageOf addr + i)⟩) hwf hne
        (fun x hx hx' => hdis x hx (by have := (pending_run_iff hrs).mp hx'; omega)) ht
      have hdist : ∀ x ∈ R.owned t.raw, ¬(pageOf addr + (i + 1) ≤ pageOf x + 0 ∧
          pageOf x < pageOf addr + (i + 1) + n) := by
        intro x hx hx'
        rw [hownedt] at hx
        rcases hx with hx | hx
        · exact hdis x hx (by omega)
        · omega
      obtain ⟨hwf', howned, hrc⟩ := ih (i + 1) rs 0 t g' hwft (by omega) (by omega) hdist h
      refine ⟨hwf', ?_, ?_⟩
      · intro x
        rw [howned x, hownedt x, hrct, or_assoc]
        apply or_congr_right
        simp only [hdrop]
        by_cases hx : pageOf x = pageOf addr + i
        · rw [hx]
          omega
        · rw [if_neg hx]
          omega
      · intro q
        rw [hrc q, hrct]
        simp only [hdrop]
        split_ifs <;> omega

/-! ## What one call does -/

theorem Gfp.getFreePage_spec {n a : ℕ} (hwf : R.WF g.raw)
    (h : g.getFreePage R n = .ok (.ok a, g')) : R.WF g'.raw ∧ PAGESIZE ∣ a ∧ topfn a ≠ 0 ∧
      (∀ x, x ∈ R.owned g.raw ↔ x ∈ R.owned g'.raw ∨ InFrames (topfn a) n (pageOf x)) ∧
      (∀ x ∈ R.owned g'.raw, ¬InFrames (topfn a) n (pageOf x)) ∧
      (∀ q, ¬InFrames (topfn a) n q → g'.refcounts q = g.refcounts q) ∧
      (topfn a + n ≤ MAX_TRACKED_PAGES → ∀ q, InFrames (topfn a) n q → g'.refcounts q = 1) := by
  obtain ⟨⟨res, raw⟩, hget, h⟩ := bind_eq_ok_iff.mp h
  cases res with
  | error e => cases (ok_inj h).1
  | ok b =>
    simp only at h
    have hb : b = a ∧ g'.raw = raw ∧
        g'.refcounts = if tracked b n then setLoop (topfn b) n 0 g.refcounts else g.refcounts := by
      split at h
      · rename_i ht
        obtain ⟨h1, rfl⟩ := ok_inj h
        exact ⟨ok.inj h1, rfl, by rw [if_pos ht]⟩
      · rename_i ht
        obtain ⟨h1, rfl⟩ := ok_inj h
        exact ⟨ok.inj h1, rfl, by rw [if_neg ht]⟩
    obtain ⟨rfl, hraw, hrc⟩ := hb
    obtain ⟨hwf', hne, hal, hsum, hdis⟩ := R.get_ok _ _ _ _ hwf hget
    rw [hraw]
    have hmem : ∀ x, x ∈ pageRange b n ↔ InFrames (topfn b) n (pageOf x) := by
      intro x
      rw [mem_pageRange_iff_pageOf hal, topfn_eq_pageOf]
    refine ⟨hwf', hal, ?_, ?_, ?_, ?_, ?_⟩
    · rw [topfn_eq_pageOf]
      obtain ⟨p, rfl⟩ := hal
      unfold pageOf
      rw [Nat.mul_div_cancel_left p (by decide)]
      rintro rfl
      exact hne (mul_zero _)
    · intro x
      rw [hsum, mem_union, hmem]
    · intro x hx hx'
      exact disjoint_left.mp hdis hx ((hmem x).mpr hx')
    · intro q hq
      rw [hrc]
      split
      · rw [setLoop_eq, if_neg (by omega)]
      · rfl
    · intro hlow q hq
      have ht : tracked b n = true := (tracked_iff (by omega)).mpr hlow
      rw [hrc, if_pos ht, setLoop_eq, if_pos (by omega)]

/-- A request that fails leaves the table alone. -/
theorem Gfp.getFreePage_error {n : ℕ} {e : ErrCode} (h : g.getFreePage R n = .ok (.error e, g')) :
    ∃ raw, R.getFreePage g.raw n = .ok (.error e, raw) ∧ g' = { g with raw := raw } := by
  obtain ⟨⟨res, raw⟩, hget, h⟩ := bind_eq_ok_iff.mp h
  cases res with
  | ok b =>
    simp only at h
    split at h <;> cases (ok_inj h).1
  | error e' =>
    obtain ⟨h1, rfl⟩ := ok_inj h
    obtain rfl := error.inj h1
    exact ⟨raw, hget, rfl⟩

/-- `put_page` of frames below the limit that the raw allocator does not hold gives back
the frames whose count is at most one. -/
theorem Gfp.putPage_spec {a n : ℕ} (hwf : R.WF g.raw) (hne : n ≠ 0 → a ≠ 0)
    (hlow : n ≠ 0 → topfn a + n ≤ MAX_TRACKED_PAGES)
    (hdis : ∀ x ∈ R.owned g.raw, ¬InFrames (topfn a) n (pageOf x)) (h : g.putPage R a n = .ok g') :
    R.WF g'.raw ∧ (∀ x, x ∈ R.owned g'.raw ↔ x ∈ R.owned g.raw ∨
        (InFrames (topfn a) n (pageOf x) ∧ g.refcounts (pageOf x) ≤ 1)) ∧
      ∀ q, g'.refcounts q = if InFrames (topfn a) n q then g.refcounts q - 1 else g.refcounts q := by
  have hnone : ∀ t : Gfp S, n = 0 → R.WF t.raw → R.owned t.raw = R.owned g.raw →
      t.refcounts = g.refcounts → R.WF t.raw ∧
      (∀ x, x ∈ R.owned t.raw ↔ x ∈ R.owned g.raw ∨
        (InFrames (topfn a) n (pageOf x) ∧ g.refcounts (pageOf x) ≤ 1)) ∧
      ∀ q, t.refcounts q = if InFrames (topfn a) n q then g.refcounts q - 1 else g.refcounts q := by
    intro t hn hwft howned hrc
    refine ⟨hwft, ?_, ?_⟩
    · intro x
      rw [howned]
      exact ⟨Or.inl, fun hx => hx.resolve_right (by omega)⟩
    · intro q
      rw [hrc, if_neg (by omega)]
  unfold Gfp.putPage at h
  split at h
  · rename_i ha
    cases h
    exact hnone g (by by_contra hn; exact hne hn ha) hwf rfl rfl
  rename_i ha
  split at h
  · rename_i ht
    have hn : n = 0 := by
      by_contra hn
      rw [(tracked_iff hn).mpr (hlow hn)] at ht
      cases ht
    obtain ⟨raw, hput, h⟩ := bind_eq_ok_iff.mp h
    cases h
    have hempty : pageRange a n = ∅ := by rw [hn, pageRange_zero]
    obtain ⟨hwf', howned⟩ := R.put_ok _ _ _ _ hwf ha (by rw [hempty]; exact empty_disjoint _) hput
    exact hnone _ hn hwf' (by rw [howned, hempty, union_empty]) rfl
  · rw [topfn_eq_pageOf] at hdis ⊢
    obtain ⟨hwf', howned, hrc⟩ := Gfp.putLoop_spec ha n 0 0 0 g g' hwf (by omega) le_rfl
      (fun x hx hx' => hdis x hx (by omega)) h
    refine ⟨hwf', ?_, ?_⟩
    · intro x
      rw [howned x]
      apply or_congr_right
      omega
    · intro q
      rw [hrc q]
      rfl

theorem Gfp.putPage_untracked {a n : ℕ} (hwf : R.WF g.raw) (hne : a ≠ 0) (hn : n ≠ 0)
    (ht : tracked a n = false)
    (hdis : ∀ x ∈ R.owned g.raw, ¬InFrames (topfn a) n (pageOf x)) (h : g.putPage R a n = .ok g') :
    R.WF g'.raw ∧ g'.refcounts = g.refcounts ∧
      ∀ x, x ∈ R.owned g'.raw ↔ x ∈ R.owned g.raw ∨ InFrames (topfn a) n (pageOf x) := by
  unfold Gfp.putPage at h
  rw [if_neg hne, ht] at h
  obtain ⟨raw, hput, h⟩ := bind_eq_ok_iff.mp h
  cases h
  have hmem : ∀ x, x ∈ pageRange a n ↔ InFrames (topfn a) n (pageOf x) := by
    intro x
    rw [mem_pageRange_iff_pageOf (R.put_aligned _ _ _ _ hne hn hput), topfn_eq_pageOf]
  obtain ⟨hwf', howned⟩ := R.put_ok _ _ _ _ hwf hne
    (disjoint_left.mpr fun x hx hx' => hdis x hx' ((hmem x).mp hx)) hput
  refine ⟨hwf', rfl, ?_⟩
  intro x
  rw [show R.owned raw = _ from howned, mem_union, hmem]

end Loops

end Sustcore
