/-
# The heap of memory payloads (`kernel/object/memory.cpp`)

All live payloads share one frame allocator and one physical memory.  `clone_payload`
and `destruct` are functions of this heap; every other function of a payload runs on its
own payload and leaves the others as they are.

The pages of all payloads form one table of shared frames (`Sharing.Table`, the slots
are the pairs of a payload and a page number), and the heap is *sound* when this table
is: a frame held by two payloads has a count of at least two in both.  Every event of a
payload keeps the heap sound and changes no byte of another payload.
-/
import Sustcore.MemoryEvents
import Sustcore.Sharing

namespace Sustcore

open Relation Function List

/-- The live payloads, the frame allocator and the physical memory. -/
structure MemoryHeap (F : Type) where
  payloads : ℕ → Option MemoryPayload
  frames : F
  mem : PhysMem

namespace MemoryHeap

variable {F : Type} (A : FrameAllocator F)

/-- What a function of the payload `m` works on. -/
def select (h : MemoryHeap F) (m : MemoryPayload) : PayloadState F := ⟨m, h.frames, h.mem⟩

/-- The heap after a function of payload `p`. -/
def put (h : MemoryHeap F) (p : ℕ) (s : PayloadState F) : MemoryHeap F :=
  ⟨update h.payloads p (some s.payload), s.frames, s.mem⟩

/-- The loop of `clone_payload` over the pages of the source; the state is the source, the
clone and the frames. -/
def cloneLoop : List (Sigma fun _ : ℕ => PhyPage) → MemoryPayload × MemoryPayload × F →
    MemoryPayload × MemoryPayload × F
  | [], s => s
  | ⟨offvpn, page⟩ :: rest, (m, cloned, frames) =>
    let frames := A.keepPage frames page.addr
    let page := { page with refcount := page.refcount + 1 }
    cloneLoop rest (m.setPage offvpn page, cloned.setPage offvpn page, frames)

/-- `clone_payload` of the payload `m` at `p`; `fresh` is where `new` puts the clone. -/
def clonePayload (h : MemoryHeap F) (p : ℕ) (m : MemoryPayload) (fresh : ℕ) :
    ℕ × MemoryHeap F :=
  if m.shared then (p, h)
  else
    let (m', cloned, frames) :=
      cloneLoop A m.phyPages.entries (m, { m with phyPages := ∅ }, h.frames)
    (fresh, ⟨update (update h.payloads p (some m')) fresh (some cloned), frames, h.mem⟩)

/-- `destruct` of the payload `m` at `p`. -/
def destruct (h : MemoryHeap F) (p : ℕ) (m : MemoryPayload) : Except Halt (MemoryHeap F) := do
  let (_, s) ← putAll A m.phyPages.entries (h.select m)
  pure ⟨update h.payloads p none, s.frames, s.mem⟩

end MemoryHeap

/-! ## The table of pages -/

/-- The frame of a page and the count recorded for it. -/
def PhyPage.cell (page : PhyPage) : ℕ × ℕ := (pageOf page.addr, page.refcount)

def pageTable (P : ℕ → Option MemoryPayload) : Sharing.Table (ℕ × ℕ) ℕ :=
  fun i => (P i.1).bind fun m => (m.phyPages.lookup i.2).map PhyPage.cell

theorem pageTable_of {P : ℕ → Option MemoryPayload} {p v : ℕ} {m : MemoryPayload}
    {page : PhyPage} (hp : P p = some m) (hpage : m.phyPages.lookup v = some page) :
    pageTable P (p, v) = some (pageOf page.addr, page.refcount) := by
  simp [pageTable, hp, hpage, PhyPage.cell]

section Table

variable (P : ℕ → Option MemoryPayload) (p : ℕ) (m : MemoryPayload)

theorem pageTable_update_self (v : ℕ) : pageTable (update P p (some m)) (p, v) =
    (m.phyPages.lookup v).map PhyPage.cell := by
  simp [pageTable]

theorem pageTable_update_of_ne {i : ℕ × ℕ} (hi : i.1 ≠ p) (x : Option MemoryPayload) :
    pageTable (update P p x) i = pageTable P i := by
  simp [pageTable, update_of_ne hi]

theorem pageTable_setPage (v : ℕ) (page : PhyPage) :
    pageTable (update P p (some (m.setPage v page))) =
      update (pageTable (update P p (some m))) (p, v) (some page.cell) := by
  funext ⟨q, w⟩
  by_cases hq : q = p
  · subst hq
    rw [pageTable_update_self]
    by_cases hw : w = v
    · subst hw
      simp [MemoryPayload.setPage]
    · rw [update_of_ne (by simp [hw]), pageTable_update_self]
      simp [MemoryPayload.setPage, AList.lookup_insert_ne hw]
  · rw [update_of_ne (by simp [hq]), pageTable_update_of_ne P p hq,
      pageTable_update_of_ne P p hq]

theorem pageTable_erasePage (v : ℕ) : pageTable (update P p (some (m.erasePage v))) =
      update (pageTable (update P p (some m))) (p, v) none := by
  funext ⟨q, w⟩
  by_cases hq : q = p
  · subst hq
    rw [pageTable_update_self]
    by_cases hw : w = v
    · subst hw
      simp [MemoryPayload.erasePage]
    · rw [update_of_ne (by simp [hw]), pageTable_update_self]
      simp [MemoryPayload.erasePage, AList.lookup_erase_ne hw]
  · rw [update_of_ne (by simp [hq]), pageTable_update_of_ne P p hq,
      pageTable_update_of_ne P p hq]

variable {m}

theorem pageTable_congr {m' : MemoryPayload} (h : m'.phyPages = m.phyPages) :
    pageTable (update P p (some m')) = pageTable (update P p (some m)) := by
  funext ⟨q, w⟩
  by_cases hq : q = p
  · subst hq
    rw [pageTable_update_self, pageTable_update_self, h]
  · rw [pageTable_update_of_ne P p hq, pageTable_update_of_ne P p hq]

/-- A payload without pages is like no payload at all. -/
theorem pageTable_empty (h : m.phyPages = ∅) :
    pageTable (update P p (some m)) = pageTable (update P p none) := by
  funext ⟨q, w⟩
  by_cases hq : q = p
  · subst hq
    rw [pageTable_update_self, h]
    simp [pageTable]
  · rw [pageTable_update_of_ne P p hq, pageTable_update_of_ne P p hq]

end Table

/-! ## Sound heaps -/

section Sound

variable {F : Type} {A : FrameAllocator F} {fileRead : FileRead}

variable (A) in
/-- The table of pages is sound, and pages lie on page frames. -/
structure MemoryHeap.Sound (h : MemoryHeap F) : Prop where
  wf : A.WF h.frames
  shared : Sharing.Sound (pageTable h.payloads) (A.refs h.frames)
  aligned : ∀ p m v page, h.payloads p = some m → m.phyPages.lookup v = some page →
    PAGESIZE ∣ page.addr

@[simp] theorem MemoryHeap.put_payloads (h : MemoryHeap F) (p : ℕ) (s : PayloadState F) :
    (h.put p s).payloads = update h.payloads p (some s.payload) := rfl

theorem MemoryHeap.put_payloads_self (h : MemoryHeap F) (p : ℕ) (s : PayloadState F) :
    (h.put p s).payloads p = some s.payload := update_self ..

theorem MemoryHeap.put_select {h : MemoryHeap F} {p : ℕ} {m : MemoryPayload}
    (hp : h.payloads p = some m) : h.put p (h.select m) = h := by
  show (⟨update h.payloads p (some m), h.frames, h.mem⟩ : MemoryHeap F) = h
  rw [← hp, update_eq_self]

variable {h : MemoryHeap F} {p : ℕ} {s s' : PayloadState F}

variable (hs : (h.put p s).Sound A)

include hs

theorem MemoryHeap.Sound.of_table (hwf : A.WF s'.frames)
    (hshared : Sharing.Sound (pageTable (h.put p s').payloads) (A.refs s'.frames))
    (haligned : ∀ v page, s'.payload.phyPages.lookup v = some page → PAGESIZE ∣ page.addr) :
    (h.put p s').Sound A := by
  refine ⟨hwf, hshared, ?_⟩
  intro q m v page hq hpage
  by_cases hqp : q = p
  · subst hqp
    rw [MemoryHeap.put_payloads_self] at hq
    cases hq
    exact haligned v page hpage
  · rw [MemoryHeap.put_payloads, update_of_ne hqp] at hq
    refine hs.aligned q m v page ?_ hpage
    rwa [MemoryHeap.put_payloads, update_of_ne hqp]

variable {v a n base : ℕ} {page : PhyPage}

theorem MemoryHeap.Sound.aligned_self
    (hpage : s.payload.phyPages.lookup v = some page) : PAGESIZE ∣ page.addr :=
  hs.aligned p s.payload v page (h.put_payloads_self p s) hpage

theorem MemoryHeap.Sound.aligned_setPage (ha : PAGESIZE ∣ page.addr) : ∀ w page',
      (s.payload.setPage v page).phyPages.lookup w = some page' → PAGESIZE ∣ page'.addr := by
  intro w page' hpage'
  by_cases hw : w = v
  · subst hw
    obtain rfl := Option.some.inj ((AList.lookup_insert _).symm.trans hpage')
    exact ha
  · exact hs.aligned_self ((AList.lookup_insert_ne hw).symm.trans hpage')

omit hs in
theorem table_self (h : MemoryHeap F) (p : ℕ) {s : PayloadState F}
    (hpage : s.payload.phyPages.lookup v = some page) :
    pageTable (h.put p s).payloads (p, v) = some (pageOf page.addr, page.refcount) :=
  pageTable_of (h.put_payloads_self p s) hpage

variable {f f' : F}

omit hs in
theorem FrameAllocator.get_one (hwf : A.WF f)
    (hget : A.getFreePage f 1 = .ok (.ok a, f')) : A.WF f' ∧ PAGESIZE ∣ a ∧
      A.refs f (pageOf a) = 0 ∧ A.refs f' (pageOf a) = 1 ∧
      ∀ q, q ≠ pageOf a → A.refs f' q = A.refs f q := by
  obtain ⟨hwf', hal, hrefs⟩ := A.get_ok _ _ _ _ hwf hget
  have hself := hrefs (pageOf a)
  rw [if_pos (by omega)] at hself
  refine ⟨hwf', hal, hself.1, hself.2, ?_⟩
  intro q hq
  have hother := hrefs q
  rwa [if_neg (by omega)] at hother

theorem MemoryHeap.Sound.getFails {e : ErrCode}
    (hget : A.getFreePage s.frames n = .ok (.error e, f)) :
    (h.put p { s with frames := f }).Sound A := by
  obtain ⟨hwf, hrefs⟩ := A.get_error _ _ _ _ hs.wf hget
  refine hs.of_table hwf ?_ fun v page => hs.aligned_self
  exact hs.shared.mono fun _ q _ _ => (hrefs q).ge

variable {mem : PhysMem}

theorem MemoryHeap.Sound.alloc (hget : A.getFreePage s.frames 1 = .ok (.ok a, f)) :
    (h.put p ⟨s.payload.setPage v ⟨a, 1⟩, f, mem⟩).Sound A := by
  obtain ⟨hwf, hal, hzero, hone, hrest⟩ := FrameAllocator.get_one hs.wf hget
  refine hs.of_table hwf ?_ (hs.aligned_setPage hal)
  have hmono : Sharing.Sound (pageTable (h.put p s).payloads) (A.refs f) := by
    refine hs.shared.mono fun i q n hi => ?_
    by_cases hq : q = pageOf a
    · rw [hq, hzero]
      exact Nat.zero_le _
    · rw [hrest q hq]
  rw [MemoryHeap.put_payloads, pageTable_setPage]
  exact hmono.adopt (fun j n => hs.shared.unheld hzero) (hone ▸ Nat.one_pos)

theorem MemoryHeap.Sound.scratch
    (hget : A.getFreePage s.frames 1 = .ok (.ok a, f)) (hput : A.putPage f a = .ok f') :
    (h.put p ⟨s.payload, f', mem⟩).Sound A := by
  obtain ⟨hwf, hal, hzero, hone, hrest⟩ := FrameAllocator.get_one hs.wf hget
  obtain ⟨hwf', hrefs⟩ := A.put_ok _ _ _ hwf (by omega) hput
  refine hs.of_table hwf' ?_ fun v page => hs.aligned_self
  refine hs.shared.mono fun i q n hi => ?_
  rw [hrefs]
  split
  · rename_i hq
    rw [hq, hzero]
    exact Nat.zero_le _
  · rename_i hq
    rw [hrest q hq]

/-- A count of at most one is a count of one. -/
theorem MemoryHeap.Sound.settled
    (hpage : s.payload.phyPages.lookup v = some page) (hle : page.refcount ≤ 1) :
    { page with refcount := 1 } = page := by
  have hpos := hs.shared.pos _ _ _ (table_self h p hpage)
  obtain ⟨addr, refcount⟩ := page
  have hone : refcount = 1 := le_antisymm hle hpos
  rw [hone]

theorem MemoryHeap.Sound.settle
    (hpage : s.payload.phyPages.lookup v = some page) (hle : page.refcount ≤ 1) :
    (h.put p { s with payload := s.payload.setPage v { page with refcount := 1 } }).Sound A := by
  rw [hs.settled hpage hle]
  refine hs.of_table hs.wf ?_ (hs.aligned_setPage (hs.aligned_self hpage))
  rw [MemoryHeap.put_payloads, pageTable_setPage]
  have hself : pageTable (update h.payloads p (some s.payload)) (p, v) =
      some page.cell := table_self h p hpage
  rw [← hself, update_eq_self]
  exact hs.shared

theorem MemoryHeap.Sound.release (hpage : s.payload.phyPages.lookup v = some page)
    (hput : A.putPage s.frames page.addr = .ok f) :
    (h.put p ⟨s.payload.erasePage v, f, s.mem⟩).Sound A := by
  have hself := table_self h p hpage
  obtain ⟨hwf, hrefs⟩ := A.put_ok _ _ _ hs.wf (hs.shared.refs_pos hself) hput
  refine hs.of_table hwf ?_ ?_
  · rw [MemoryHeap.put_payloads, pageTable_erasePage]
    exact hs.shared.release hself hrefs
  · intro w page' hpage'
    by_cases hw : w = v
    · subst hw
      rw [MemoryPayload.erasePage, AList.lookup_erase] at hpage'
      cases hpage'
    · exact hs.aligned_self ((AList.lookup_erase_ne hw).symm.trans hpage')

theorem MemoryHeap.Sound.split (hpage : s.payload.phyPages.lookup v = some page)
    (hget : A.getFreePage s.frames 1 = .ok (.ok a, f)) (hput : A.putPage f page.addr = .ok f') :
    (h.put p ⟨s.payload.setPage v ⟨a, 1⟩, f', mem⟩).Sound A := by
  obtain ⟨hwf, hal, hzero, hone, hrest⟩ := FrameAllocator.get_one hs.wf hget
  have hself := table_self h p hpage
  have hheld := hs.shared.refs_pos hself
  have hne : pageOf page.addr ≠ pageOf a := by
    intro heq
    rw [heq, hzero] at hheld
    exact absurd hheld (lt_irrefl 0)
  obtain ⟨hwf', hrefs⟩ := A.put_ok _ _ _ hwf (by rw [hrest _ hne]; exact hheld) hput
  refine hs.of_table hwf' ?_ (hs.aligned_setPage hal)
  -- the slot drops its old frame, and then takes the fresh one
  have hdropped : Sharing.Sound
      (update (pageTable (h.put p s).payloads) (p, v) none)
      (fun q => if q = pageOf page.addr then A.refs (h.put p s).frames q - 1
        else A.refs (h.put p s).frames q) :=
    hs.shared.release hself fun _ => rfl
  have hmono : Sharing.Sound
      (update (pageTable (h.put p s).payloads) (p, v) none) (A.refs f') := by
    refine hdropped.mono fun i q n hi => ?_
    rw [hrefs]
    by_cases hq : q = pageOf a
    · rw [hq, if_neg hne.symm, hzero]
      exact Nat.zero_le _
    · rw [hrest q hq]
  have htaken := hmono.adopt (i := (p, v)) (q := pageOf a) ?_ ?_
  · rw [update_idem] at htaken
    rwa [MemoryHeap.put_payloads, pageTable_setPage]
  · intro j n hj
    obtain ⟨-, ⟨⟩⟩ | ⟨-, hj⟩ := update_eq_cases hj
    exact hs.shared.unheld hzero hj
  · rw [hrefs, if_neg hne.symm, hone]
    exact one_pos

omit hs in
theorem putAll_sound : ∀ (entries : List (Sigma fun _ : ℕ => PhyPage))
    (T : Sharing.Table (ℕ × ℕ) ℕ) (s t : PayloadState F), A.WF s.frames →
    Sharing.Sound T (A.refs s.frames) → entries.NodupKeys →
    (∀ entry ∈ entries, T (p, entry.1) = some entry.2.cell) → putAll A entries s = .ok (.ok (), t) →
      t.payload = s.payload ∧ t.mem = s.mem ∧ A.WF t.frames ∧
      (∀ q, (∀ entry ∈ entries, pageOf entry.2.addr ≠ q) → A.refs t.frames q = A.refs s.frames q) ∧
      Sharing.Sound (fun i => if i.1 = p ∧ i.2 ∈ entries.keys then none else T i)
        (A.refs t.frames) := by
  intro entries
  induction entries with
  | nil =>
    intro T s t hwf hT _ _ h
    obtain ⟨-, rfl⟩ := Kernel.pure_eq_ok.mp h
    refine ⟨rfl, rfl, hwf, fun _ _ => rfl, ?_⟩
    have hsame : (fun i : ℕ × ℕ => if i.1 = p ∧ i.2 ∈ keys
        ([] : List (Sigma fun _ : ℕ => PhyPage)) then none else T i) = T := by
      simp
    rwa [hsame]
  | cons entry rest ih =>
    intro T s t hwf hT hnodup hlook h
    obtain ⟨hfresh, hrest⟩ := nodupKeys_cons.mp hnodup
    have hself := hlook entry mem_cons_self
    rcases Kernel.bind_eq_ok.mp h with ⟨e, hput, -⟩ | ⟨_, u, hput, h⟩
    · obtain ⟨-, -, hr, -⟩ := putFrame_eq_ok hput
      cases hr
    obtain ⟨f, hf, -, rfl⟩ := putFrame_eq_ok hput
    obtain ⟨hwf', hrefs⟩ := A.put_ok _ _ _ hwf (hT.refs_pos hself) hf
    have hlook' : ∀ e ∈ rest,
        update T (p, entry.1) none (p, e.1) = some e.2.cell := by
      intro e he
      have hne : (p, e.1) ≠ (p, entry.1) := by
        intro heq
        have hv : e.1 = entry.1 := (Prod.mk.inj heq).2
        exact hfresh (hv ▸ mem_keys_of_mem he)
      rw [update_of_ne hne]
      exact hlook e (mem_cons_of_mem _ he)
    obtain ⟨hpayload, hmem, hwft, hkept, hsound⟩ :=
      ih _ { s with frames := f } t hwf' (hT.release hself hrefs) hrest hlook' h
    refine ⟨hpayload, hmem, hwft, ?_, ?_⟩
    · intro q hq
      rw [hkept q fun e he => hq e (mem_cons_of_mem _ he)]
      rw [hrefs, if_neg (hq entry mem_cons_self).symm]
    · have hsame : (fun i : ℕ × ℕ => if i.1 = p ∧ i.2 ∈ keys (entry :: rest) then none
          else T i) = fun i => if i.1 = p ∧ i.2 ∈ keys rest then none
            else update T (p, entry.1) none i := by
        funext i
        by_cases hi : i = (p, entry.1)
        · subst hi
          simp
        rw [update_of_ne hi]
        have hkey : i.1 = p ∧ i.2 ∈ keys (entry :: rest) ↔
            i.1 = p ∧ i.2 ∈ keys rest := by
          rw [keys_cons, mem_cons]
          refine and_congr_right fun hp => or_iff_right ?_
          intro hv
          exact hi (Prod.ext hp hv)
        simp only [hkey]
      rwa [hsame]

omit hs in
theorem pageTable_clear (P : ℕ → Option MemoryPayload) (p : ℕ) (m : MemoryPayload) :
    (fun i : ℕ × ℕ => if i.1 = p ∧ i.2 ∈ m.phyPages.entries.keys then none
      else pageTable (update P p (some m)) i) = pageTable (update P p none) := by
  funext ⟨q, v⟩
  by_cases hq : q = p
  · subst hq
    have hnone : pageTable (update P q none) (q, v) = none := by simp [pageTable]
    rw [hnone]
    split
    · rfl
    rename_i hv
    have hlook : m.phyPages.lookup v = none := by
      rw [AList.lookup_eq_none]
      intro hmem
      exact hv ⟨rfl, hmem⟩
    rw [pageTable_update_self, hlook]
    rfl
  · rw [if_neg fun hp => hq hp.1, pageTable_update_of_ne P p hq, pageTable_update_of_ne P p hq]

theorem MemoryHeap.Sound.putAll {t : PayloadState F}
    (hput : putAll A s.payload.phyPages.entries s = .ok (.ok (), t)) :
    t.payload = s.payload ∧ t.mem = s.mem ∧ A.WF t.frames ∧
      (∀ q, A.refs s.frames q = 0 ∨ (∀ i n, pageTable (h.put p s).payloads i ≠ some (q, n)) →
        A.refs t.frames q = A.refs s.frames q) ∧
      Sharing.Sound (pageTable (update h.payloads p none)) (A.refs t.frames) := by
  have hlook : ∀ entry ∈ s.payload.phyPages.entries,
      pageTable (h.put p s).payloads (p, entry.1) = some entry.2.cell :=
    fun entry he => table_self h p (AList.lookup_of_mem_entries he)
  obtain ⟨hpayload, hmem, hwf, hkept, hsound⟩ := putAll_sound _ _ _ _ hs.wf hs.shared
    s.payload.phyPages.nodupKeys hlook hput
  refine ⟨hpayload, hmem, hwf, ?_, ?_⟩
  · intro q hq
    apply hkept
    rintro entry he rfl
    rcases hq with hzero | hfree
    · exact hs.shared.unheld hzero (hlook entry he)
    · exact hfree _ _ (hlook entry he)
  · rwa [MemoryHeap.put_payloads, pageTable_clear] at hsound

omit hs

/-! ## A `continuity` resize -/

theorem contiguousPages_lookup (base : ℕ) : ∀ n v, (MemoryPayload.contiguousPages base n).lookup v =
      if v < n then some ⟨base + v * PAGESIZE, 1⟩ else none := by
  intro n
  induction n with
  | zero =>
    intro v
    exact AList.lookup_empty v
  | succ n ih =>
    intro v
    by_cases hv : v = n
    · subst hv
      rw [if_pos (Nat.lt_succ_self v)]
      exact AList.lookup_insert _
    · rw [MemoryPayload.contiguousPages, AList.lookup_insert_ne hv, ih]
      have hiff : v < n ↔ v < n + 1 := by omega
      simp only [hiff]

theorem pageOf_add_mul (base k : ℕ) : pageOf (base + k * PAGESIZE) = pageOf base + k :=
  Nat.add_mul_div_right base k (by decide)

theorem contiguousPages_sound {P : ℕ → Option MemoryPayload} {m : MemoryPayload} {refs : ℕ → ℕ}
    (hT : Sharing.Sound (pageTable (update P p none)) refs)
    (hfree : ∀ q, InFrames (pageOf base) n q →
      (∀ i k, pageTable (update P p none) i ≠ some (q, k)) ∧ 0 < refs q) :
    ∀ k ≤ n, Sharing.Sound (pageTable (update P p
      (some { m with phyPages := MemoryPayload.contiguousPages base k }))) refs := by
  intro k
  induction k with
  | zero =>
    intro _
    rwa [pageTable_empty P p rfl]
  | succ k ih =>
    intro hk
    have hprev := ih (Nat.le_of_succ_le hk)
    have hnew : ({ m with phyPages := MemoryPayload.contiguousPages base (k + 1) } :
        MemoryPayload) = { m with phyPages := MemoryPayload.contiguousPages base k }.setPage k
          ⟨base + k * PAGESIZE, 1⟩ := rfl
    rw [hnew, pageTable_setPage]
    obtain ⟨hunheld, hpos⟩ := hfree (pageOf base + k) (by omega)
    have hcell : PhyPage.cell ⟨base + k * PAGESIZE, 1⟩ = (pageOf base + k, 1) :=
      Prod.ext (pageOf_add_mul base k) rfl
    rw [hcell]
    refine hprev.adopt ?_ hpos
    rintro ⟨q, v⟩ c hc
    by_cases hq : q = p
    · -- the pages taken so far lie below
      subst hq
      rw [pageTable_update_self, contiguousPages_lookup] at hc
      split at hc
      · have hpage := (Prod.mk.inj (Option.some.inj hc)).1
        rw [pageOf_add_mul] at hpage
        omega
      · cases hc
    · rw [pageTable_update_of_ne P p hq] at hc
      refine hunheld (q, v) c ?_
      rwa [pageTable_update_of_ne P p hq]

theorem MemoryHeap.Sound.relocate (hs : (h.put p s).Sound A) {t : PayloadState F}
    (hget : A.getFreePage s.frames n = .ok (.ok base, f))
    (hput : Sustcore.putAll A s.payload.phyPages.entries ⟨s.payload, f, mem⟩ = .ok (.ok (), t)) :
    (h.put p { t with payload := { t.payload with
      phyPages := MemoryPayload.contiguousPages base n } }).Sound A ∧ t.mem = mem := by
  obtain ⟨hwf, hal, hrefs⟩ := A.get_ok _ _ _ _ hs.wf hget
  have hmono : (h.put p ⟨s.payload, f, mem⟩).Sound A := by
    refine hs.of_table hwf ?_ fun v page => hs.aligned_self
    refine hs.shared.mono fun i q c hi => ?_
    have hq := hrefs q
    split at hq
    · rw [hq.1]
      exact Nat.zero_le _
    · rw [hq]
  have hunheld : ∀ q, InFrames (pageOf base) n q →
      ∀ i c, pageTable (h.put p s).payloads i ≠ some (q, c) := by
    intro q hq i c
    have hzero := hrefs q
    rw [if_pos hq] at hzero
    exact hs.shared.unheld hzero.1
  obtain ⟨hpayload, hmem, hwft, hkept, hsound⟩ := hmono.putAll hput
  refine ⟨hs.of_table hwft (contiguousPages_sound hsound ?_ n le_rfl) ?_, hmem⟩
  · intro q hq
    constructor
    · rintro ⟨r, v⟩ c hc
      by_cases hr : r = p
      · subst hr
        simp [pageTable] at hc
      · rw [pageTable_update_of_ne h.payloads p hr] at hc
        refine hunheld q hq (r, v) c ?_
        rwa [MemoryHeap.put_payloads, pageTable_update_of_ne h.payloads p hr]
    · rw [hkept q (Or.inr (hunheld q hq))]
      have hone := hrefs q
      rw [if_pos hq] at hone
      show 0 < A.refs f q
      omega
  · intro v page hpage
    have hpage' : (MemoryPayload.contiguousPages base n).lookup v = some page := hpage
    rw [contiguousPages_lookup] at hpage'
    split at hpage'
    · cases hpage'
      exact Dvd.dvd.add hal (dvd_mul_left ..)
    · cases hpage'

/-- **Every event of a payload keeps the heap sound.** -/
theorem PayloadEvent.sound {W : Set ℕ} (hevent : PayloadEvent A fileRead W s s')
    (hs : (h.put p s).Sound A) : (h.put p s').Sound A := by
  cases hevent with
  | quiet _ hquiet =>
    cases hquiet with
    | getFails hget => exact hs.getFails hget
    | alloc hnone hget hbytes => exact hs.alloc hget
    | scratch hget hput => exact hs.scratch hget hput
    | settle hpage hle => exact hs.settle hpage hle
    | split hpage hlt hget hput => exact hs.split hpage hget hput
  | store data hpage hle hend hW => exact hs.of_table hs.wf hs.shared fun v page => hs.aligned_self
  | release hW hpage hput => exact hs.release hpage hput
  | relocate t hW hget hmem hput => exact (hs.relocate hget hput).1
  | setMemsz newsz hW =>
    refine hs.of_table hs.wf ?_ fun v page => hs.aligned_self
    have hsame : pageTable (h.put p { s with payload := { s.payload with memsz := newsz } }).payloads
        = pageTable (h.put p s).payloads := pageTable_congr h.payloads p rfl
    rw [hsame]
    exact hs.shared

end Sound

end Sustcore
