/-
# Runs of the buddy allocator

A run starts after `pre_init` and consists of calls of the public operations under the
usage discipline of the allocator: fresh page-aligned ranges are donated, and a range is
put back only while it is handed out.  The ghost state next to the allocator records the
donated bytes, the live ranges and the bytes taken by failed requests.

* every run refines a run of the ledger (`PageStep.ledger`), so each donated page is in
  exactly one place (`pages_partitioned`);
* the free lists are determined by the set of free bytes (`free_lists_canonical`).
-/
import Sustcore.Ledger
import Sustcore.BuddyOwned

namespace Sustcore

open Dyadic Relation List Set

/-! ## Worlds and steps -/

/-- The allocator, the ranges handed out (address and number of pages), the bytes taken by
requests that returned an error, and all bytes ever donated. -/
structure PageWorld where
  st : Buddy
  live : List (ℕ × ℕ)
  lost : Set ℕ
  donated : Set ℕ

/-- After `pre_init`. -/
def PageWorld.init (pool0 : ℕ) : PageWorld := ⟨Buddy.preInit pool0, [], ∅, ∅⟩

/-- One call of a public operation. -/
inductive PageStep : PageWorld → PageWorld → Prop
  | get (w : PageWorld) {n a : ℕ} {s : Buddy} (h : w.st.getFreePage n = .ok (.ok a, s)) :
      PageStep w { w with st := s, live := (a, n) :: w.live }
  | getFails (w : PageWorld) {n : ℕ} {e : ErrCode} {s : Buddy}
      (h : w.st.getFreePage n = .ok (.error e, s)) :
      PageStep w { w with st := s, lost := w.lost ∪ (w.st.owned \ s.owned) }
  | getOrder (w : PageWorld) {k a : ℕ} {s : Buddy}
      (h : w.st.getFreePagesInOrder k = .ok (.ok a, s)) :
      PageStep w { w with st := s, live := (a, 2 ^ k) :: w.live }
  | getOrderFails (w : PageWorld) {k : ℕ} {e : ErrCode} {s : Buddy}
      (h : w.st.getFreePagesInOrder k = .ok (.error e, s)) :
      PageStep w { w with st := s, lost := w.lost ∪ (w.st.owned \ s.owned) }
  | put (w : PageWorld) {a n : ℕ} {s : Buddy} (hr : (a, n) ∈ w.live)
      (h : w.st.putPage a n = .ok s) :
      PageStep w { w with st := s, live := w.live.erase (a, n) }
  | putOrder (w : PageWorld) {a k : ℕ} {s : Buddy} (hr : (a, 2 ^ k) ∈ w.live)
      (h : w.st.putPageInOrder a k = .ok s) :
      PageStep w { w with st := s, live := w.live.erase (a, 2 ^ k) }
  | donate (w : PageWorld) {a n : ℕ} {s : Buddy} (hne : a ≠ 0) (hal : PAGESIZE ∣ a)
      (hfresh : Disjoint (pageRange a n) w.donated) (h : w.st.putPage a n = .ok s) :
      PageStep w { w with st := s, donated := w.donated ∪ pageRange a n }
  | addRange (w : PageWorld) {a n : ℕ} {s : Buddy} (hne : a ≠ 0) (hal : PAGESIZE ∣ a)
      (hfresh : Disjoint (pageRange a n) w.donated) (h : w.st.addMemoryRange a n = .ok s) :
      PageStep w { w with st := s, donated := w.donated ∪ pageRange a n }

/-! ## Refinement of the ledger -/

def rangeBytes (r : ℕ × ℕ) : Set ℕ := pageRange r.1 r.2

def PageWorld.ledger (w : PageWorld) : Ledger ℕ (ℕ × ℕ) := ⟨w.st.owned, w.live, w.lost, w.donated⟩

/-- What holds in every world of a run. -/
structure PageWorld.Inv (w : PageWorld) : Prop where
  wf : w.st.WF
  balanced : w.ledger.Balanced rangeBytes
  nonnull : ∀ r ∈ w.live, r.1 ≠ 0

theorem PageWorld.inv_init (pool0 : ℕ) : (PageWorld.init pool0).Inv where
  wf := Buddy.wf_preInit pool0
  balanced := by
    show (⟨(Buddy.preInit pool0).owned, [], ∅, ∅⟩ : Ledger ℕ (ℕ × ℕ)).Balanced rangeBytes
    rw [Buddy.owned_preInit]
    exact Ledger.balanced_empty
  nonnull := fun _ hr => absurd hr not_mem_nil

variable {w : PageWorld} {x a n i k : ℕ}

theorem PageWorld.Inv.live_disjoint (h : w.Inv) (hr : (a, n) ∈ w.live) :
    Disjoint (pageRange a n) w.st.owned :=
  (h.balanced.held_lent (a, n) hr).symm

theorem PageWorld.Inv.fresh_disjoint (h : w.Inv)
    (hfresh : Disjoint (pageRange a n) w.donated) : Disjoint (pageRange a n) w.st.owned :=
  hfresh.mono_right h.balanced.held_subset

/-- **Every call is a step of the ledger** and keeps the allocator well formed. -/
theorem PageStep.ledger {w' : PageWorld} (hstep : PageStep w w') (hinv : w.Inv) :
    Ledger.Step rangeBytes w.ledger w'.ledger ∧ w'.st.WF ∧ ∀ r ∈ w'.live, r.1 ≠ 0 := by
  have hlend : ∀ {a n : ℕ} {s : Buddy}, a ≠ 0 → ∀ r ∈ (a, n) :: w.live, r.1 ≠ 0 := by
    intro a n s ha r hr
    rcases mem_cons.mp hr with rfl | hr
    · exact ha
    · exact hinv.nonnull r hr
  have herase : ∀ r', ∀ r ∈ w.live.erase r', r.1 ≠ 0 :=
    fun r' r hr => hinv.nonnull r (mem_of_mem_erase hr)
  cases hstep with
  | @get n a s h =>
    obtain ⟨hwf, hcase⟩ := getFreePage_owned hinv.wf h
    rcases hcase with ⟨⟨e, he⟩, -⟩ | ⟨b, hb, hne, -, hsum, hdis⟩
    · cases he
    · rcases hb with hb | ⟨e, he⟩
      · cases hb
        exact ⟨.lend w.ledger (a, n) s.owned hsum hdis, hwf, hlend (s := s) hne⟩
      · cases he
  | @getFails n e s h =>
    obtain ⟨hwf, hcase⟩ := getFreePage_owned hinv.wf h
    refine ⟨.lose w.ledger s.owned ?_, hwf, hinv.nonnull⟩
    rcases hcase with ⟨-, heq⟩ | ⟨b, -, -, -, hsum, -⟩
    · exact heq.le
    · show s.owned ⊆ w.st.owned
      rw [hsum]
      exact subset_union_left
  | @getOrder k a s h =>
    obtain ⟨hwf, -, hok⟩ := getFreePagesInOrder_owned hinv.wf h
    obtain ⟨hne, -, hsum, hdis⟩ := hok a rfl
    exact ⟨.lend w.ledger (a, 2 ^ k) s.owned hsum hdis, hwf, hlend (s := s) hne⟩
  | @getOrderFails k e s h =>
    obtain ⟨hwf, herr, -⟩ := getFreePagesInOrder_owned hinv.wf h
    refine ⟨.lose w.ledger s.owned ?_, hwf, hinv.nonnull⟩
    rw [herr e rfl]
    exact subset_rfl
  | @put a n s hr h =>
    obtain ⟨hwf, howned⟩ := putPage_owned hinv.wf (hinv.nonnull _ hr) (hinv.live_disjoint hr) h
    refine ⟨?_, hwf, herase (a, n)⟩
    show Ledger.Step _ _ ⟨s.owned, w.live.erase (a, n), w.lost, w.donated⟩
    rw [howned]
    exact .takeBack w.ledger (a, n) hr
  | @putOrder a k s hr h =>
    obtain ⟨hwf, howned⟩ :=
      putPageInOrder_owned hinv.wf (hinv.nonnull _ hr) (hinv.live_disjoint hr) h
    refine ⟨?_, hwf, herase (a, 2 ^ k)⟩
    show Ledger.Step _ _ ⟨s.owned, w.live.erase (a, 2 ^ k), w.lost, w.donated⟩
    rw [howned]
    exact .takeBack w.ledger (a, 2 ^ k) hr
  | @donate a n s hne hal hfresh h =>
    obtain ⟨hwf, howned⟩ := putPage_owned hinv.wf hne (hinv.fresh_disjoint hfresh) h
    refine ⟨?_, hwf, hinv.nonnull⟩
    show Ledger.Step _ _ ⟨s.owned, w.live, w.lost, w.donated ∪ pageRange a n⟩
    rw [howned]
    exact .donate w.ledger (pageRange a n) hfresh
  | @addRange a n s hne hal hfresh h =>
    obtain ⟨hwf, howned⟩ := addMemoryRange_owned hinv.wf hne (hinv.fresh_disjoint hfresh) h
    refine ⟨?_, hwf, hinv.nonnull⟩
    show Ledger.Step _ _ ⟨s.owned, w.live, w.lost, w.donated ∪ pageRange a n⟩
    rw [howned]
    exact .donate w.ledger (pageRange a n) hfresh

theorem PageWorld.Inv.step (w w' : PageWorld) (h : w.Inv) (hstep : PageStep w w') : w'.Inv := by
  obtain ⟨hledger, hwf, hnonnull⟩ := hstep.ledger h
  exact ⟨hwf, h.balanced.step hledger, hnonnull⟩

theorem PageWorld.inv_of_run {pool0 : ℕ}
    (hrun : ReflTransGen PageStep (PageWorld.init pool0) w) : w.Inv :=
  Transition.invariant PageWorld.Inv.step hrun (PageWorld.inv_init pool0)

/-! ## The place of a page -/

/-- Where a byte can be: in the `i`-th block of the list of order `k`, in the `i`-th live
range, in the `i`-th expansion pool, or taken by a request that returned an error. -/
inductive PagePlace where
  | free (k i : ℕ)
  | live (i : ℕ)
  | pool (i : ℕ)
  | lost
  deriving DecidableEq

/-- The byte `x` is at this place. -/
def PageWorld.At (w : PageWorld) (x : ℕ) : PagePlace → Prop
  | .free k i => ∃ b, (w.st.freeArea k)[i]? = some b ∧ x ∈ pageRange b.paddr (2 ^ k)
  | .live i => ∃ r, w.live[i]? = some r ∧ x ∈ pageRange r.1 r.2
  | .pool i => ∃ a, w.st.poolAddrs[i]? = some a ∧ x ∈ pageRange a FREEBLOCK_EXPAND_PAGES
  | .lost => x ∈ w.lost

theorem index_unique {α β : Type*} {f : α → Set β} {l : List α}
    (hl : l.Pairwise fun a b => Disjoint (f a) (f b)) {j : ℕ} {a b : α} {x : β}
    (hi : l[i]? = some a) (hj : l[j]? = some b) (ha : x ∈ f a) (hb : x ∈ f b) : i = j := by
  obtain ⟨hi', rfl⟩ := List.getElem?_eq_some_iff.mp hi
  obtain ⟨hj', rfl⟩ := List.getElem?_eq_some_iff.mp hj
  rw [pairwise_iff_getElem] at hl
  rcases Nat.lt_trichotomy i j with hlt | heq | hgt
  · exact absurd hb (disjoint_left.mp (hl i j hi' hj' hlt) ha)
  · exact heq
  · exact absurd ha (disjoint_left.mp (hl j i hj' hi' hgt) hb)

variable {s : Buddy}

theorem Buddy.WF.freeArea_disjoint (h : s.WF) (k : ℕ) : (s.freeArea k).Pairwise fun b b' =>
      Disjoint (pageRange b.paddr (2 ^ k)) (pageRange b'.paddr (2 ^ k)) := by
  refine (h.desc.nodup k).pairwise_of_forall_ne ?_
  intro b hb b' hb' hne
  rw [pageRange_two_pow, pageRange_two_pow]
  exact h.pages.disjoint k k b hb b' hb' hne

/-- Two blocks that share a byte are the same entry of the same list. -/
theorem Buddy.WF.free_unique (h : s.WF) {k' i' : ℕ} {b b' : FreeBlock}
    (hb : (s.freeArea k)[i]? = some b) (hb' : (s.freeArea k')[i']? = some b')
    (hx : x ∈ pageRange b.paddr (2 ^ k)) (hx' : x ∈ pageRange b'.paddr (2 ^ k')) :
    k = k' ∧ i = i' := by
  have hmem : b ∈ s.freeArea k := mem_of_getElem? hb
  have hmem' : b' ∈ s.freeArea k' := mem_of_getElem? hb'
  by_cases hne : b = b'
  · subst hne
    have hk : k = k' := (h.desc.order_eq k b hmem).symm.trans (h.desc.order_eq k' b hmem')
    subst hk
    exact ⟨rfl, index_unique (h.freeArea_disjoint k) hb hb' hx hx'⟩
  · rw [pageRange_two_pow] at hx hx'
    exact absurd hx' (disjoint_left.mp (h.pages.disjoint k k' b hmem b' hmem' hne) hx)

theorem mem_freeBytes_iff : x ∈ s.freeBytes ↔
      ∃ k i : ℕ, ∃ b : FreeBlock, (s.freeArea k)[i]? = some b ∧ x ∈ pageRange b.paddr (2 ^ k) := by
  constructor
  · rintro ⟨k, b, hb, hx⟩
    obtain ⟨i, hi⟩ := mem_iff_getElem?.mp hb
    exact ⟨k, i, b, hi, by rw [pageRange_two_pow]; exact hx⟩
  · rintro ⟨k, i, b, hi, hx⟩
    rw [pageRange_two_pow] at hx
    exact ⟨k, b, mem_of_getElem? hi, hx⟩

/-- The kind of place, as a set of bytes. -/
def PageWorld.region (w : PageWorld) : PagePlace → Set ℕ
  | .free _ _ => w.st.freeBytes
  | .live _ => w.ledger.lentUnits rangeBytes
  | .pool _ => w.st.poolBytes
  | .lost => w.lost

theorem PageWorld.At.mem_region {p : PagePlace} (h : w.At x p) : x ∈ w.region p := by
  cases p with
  | free k i =>
    obtain ⟨b, hb, hx⟩ := h
    exact mem_freeBytes_iff.mpr ⟨k, i, b, hb, hx⟩
  | live i =>
    obtain ⟨r, hr, hx⟩ := h
    exact ⟨r, mem_of_getElem? hr, hx⟩
  | pool i =>
    obtain ⟨a, ha, hx⟩ := h
    exact ⟨a, mem_of_getElem? ha, hx⟩
  | lost => exact h

/-- The four regions are pairwise disjoint. -/
theorem PageWorld.Inv.regions (h : w.Inv) : (x ∈ w.st.freeBytes → x ∉ w.st.poolBytes) ∧
      (x ∈ w.st.owned → x ∉ w.ledger.lentUnits rangeBytes ∧ x ∉ w.lost) ∧
      (x ∈ w.ledger.lentUnits rangeBytes → x ∉ w.lost) := by
  refine ⟨fun hx => disjoint_left.mp h.wf.pages.free_pool hx, ?_, ?_⟩
  · intro hx
    refine ⟨?_, disjoint_left.mp h.balanced.held_lost hx⟩
    rintro ⟨r, hr, hxr⟩
    exact disjoint_left.mp (h.balanced.held_lent r hr) hx hxr
  · rintro ⟨r, hr, hxr⟩
    exact fun hx => disjoint_left.mp (h.balanced.lent_lost r hr) hxr hx

theorem PageWorld.Inv.place_unique (h : w.Inv) {p q : PagePlace}
    (hp : w.At x p) (hq : w.At x q) : p = q := by
  obtain ⟨hpool, howned, hlost⟩ := h.regions (x := x)
  have hpool' : x ∈ w.st.poolBytes → x ∈ w.st.owned := fun hx => .inr hx
  have hpr := hp.mem_region
  have hqr := hq.mem_region
  cases p <;> cases q <;> simp only [PageWorld.region] at hpr hqr
  -- the same kind of place: the index is determined by the byte
  case free.free k i k' i' =>
      obtain ⟨b, hb, hx⟩ := hp
      obtain ⟨b', hb', hx'⟩ := hq
      obtain ⟨rfl, rfl⟩ := h.wf.free_unique hb hb' hx hx'
      rfl
  case live.live i j =>
      obtain ⟨r, hr, hx⟩ := hp
      obtain ⟨r', hr', hx'⟩ := hq
      rw [index_unique h.balanced.lent_disjoint hr hr' hx hx']
  case pool.pool i j =>
      obtain ⟨a, ha, hx⟩ := hp
      obtain ⟨a', ha', hx'⟩ := hq
      rw [index_unique h.wf.pages.pools_disjoint ha ha' hx hx']
  case lost.lost => rfl
  -- different kinds: the regions are disjoint
  all_goals tauto

theorem PageWorld.Inv.place_exists (h : w.Inv) (hx : x ∈ w.donated) : ∃ p, w.At x p := by
  have hcover : x ∈ w.st.owned ∪ w.ledger.lentUnits rangeBytes ∪ w.lost := by
    have hcov : w.donated = w.st.owned ∪ w.ledger.lentUnits rangeBytes ∪ w.lost := h.balanced.cover
    rwa [← hcov]
  rcases hcover with ((hfree | hpool) | hlive) | hlost
  · obtain ⟨k, i, b, hb, hxb⟩ := mem_freeBytes_iff.mp hfree
    exact ⟨.free k i, b, hb, hxb⟩
  · obtain ⟨a, ha, hxa⟩ := hpool
    obtain ⟨i, hi⟩ := mem_iff_getElem?.mp ha
    exact ⟨.pool i, a, hi, hxa⟩
  · obtain ⟨r, hr, hxr⟩ := hlive
    obtain ⟨i, hi⟩ := mem_iff_getElem?.mp hr
    exact ⟨.live i, r, hi, hxr⟩
  · exact ⟨.lost, hlost⟩

/-- **Page partition.** In every world of a run: the free blocks are aligned and pairwise
disjoint, a successful `get_free_page(n)` returns `n` contiguous donated pages, a failed
one takes nothing or `n` contiguous pages, and every donated byte is in exactly one
place. -/
theorem pages_partitioned {pool0 : ℕ} {w : PageWorld}
    (hrun : ReflTransGen PageStep (PageWorld.init pool0) w) :
    (∀ k, ∀ b ∈ w.st.freeArea k, 2 ^ k * PAGESIZE ∣ b.paddr) ∧
    (∀ k i k' i' : ℕ, ∀ b b' : FreeBlock, (w.st.freeArea k)[i]? = some b →
      (w.st.freeArea k')[i']? = some b' →
      (k, i) ≠ (k', i') → Disjoint (pageRange b.paddr (2 ^ k)) (pageRange b'.paddr (2 ^ k'))) ∧
    (∀ n a s, w.st.getFreePage n = .ok (.ok a, s) → PAGESIZE ∣ a ∧ pageRange a n ⊆ w.donated) ∧
    (∀ n e s, w.st.getFreePage n = .ok (.error e, s) →
      s.owned = w.st.owned ∨ ∃ a, w.st.owned \ s.owned = pageRange a n) ∧
    ∀ x ∈ w.donated, ∃! p, w.At x p := by
  have hinv := PageWorld.inv_of_run hrun
  refine ⟨?_, ?_, ?_, ?_, ?_⟩
  · intro k b hb
    have hal := hinv.wf.pages.aligned k b hb
    rwa [Nat.pow_add] at hal
  · intro k i k' i' b b' hb hb' hne
    rw [Set.disjoint_left]
    intro x hx hx'
    obtain ⟨rfl, rfl⟩ := hinv.wf.free_unique hb hb' hx hx'
    exact hne rfl
  · intro n a s h
    obtain ⟨-, ⟨⟨e, he⟩, -⟩ | ⟨b, hb | ⟨e, he⟩, -, hal, hsum, -⟩⟩ := getFreePage_owned hinv.wf h
    · cases he
    · cases hb
      refine ⟨hal, Set.Subset.trans ?_ hinv.balanced.held_subset⟩
      show pageRange a n ⊆ w.st.owned
      rw [hsum]
      exact subset_union_right
    · cases he
  · intro n e s h
    obtain ⟨-, ⟨-, heq⟩ | ⟨a, -, -, -, hsum, hdis⟩⟩ := getFreePage_owned hinv.wf h
    · exact .inl heq
    · refine .inr ⟨a, ?_⟩
      rw [hsum, union_sdiff_cancel_left hdis.le_bot]
  · intro x hx
    obtain ⟨p, hp⟩ := hinv.place_exists hx
    exact ⟨p, hp, fun q hq => hinv.place_unique hq hp⟩

/-- The world after a donation by `put_page`. -/
def PageWorld.afterDonation (w : PageWorld) (a n : ℕ) : PageWorld :=
  { w with
    st := Except.valueOr w.st (w.st.putPage a n)
    donated := w.donated ∪ pageRange a n }

theorem PageStep.afterDonation (hne : a ≠ 0) (hal : PAGESIZE ∣ a)
    (hfresh : Disjoint (pageRange a n) w.donated) (h : (w.st.putPage a n).isOk = true) :
    PageStep w (w.afterDonation a n) :=
  PageStep.donate w hne hal hfresh (Except.eq_ok_valueOr h)

theorem afterDonation_run :
    ReflTransGen PageStep (PageWorld.init 0) ((PageWorld.init 0).afterDonation 8192 3) :=
  ReflTransGen.single
    (PageStep.afterDonation (by decide) (by decide) (disjoint_empty _) (by decide))

/-- The world after a request for `n` pages that returned `a`. -/
def PageWorld.afterGet (w : PageWorld) (a n : ℕ) : PageWorld :=
  { w with
    st := (Except.valueOr (.ok a, w.st) (w.st.getFreePage n)).2
    live := (a, n) :: w.live }

theorem afterGet_run : ReflTransGen PageStep (PageWorld.init 0)
    (((PageWorld.init 0).afterDonation 8192 3).afterGet 8192 2) :=
  afterDonation_run.tail (PageStep.get _ (eq_ok_of_returned _ (by decide)))

/-- Of three pages two are handed out; each of them is in one place. -/
theorem pages_partitioned_donated :
    let w := ((PageWorld.init 0).afterDonation 8192 3).afterGet 8192 2
    (∃! p, w.At 8192 p) ∧ ∃! p, w.At 16384 p := by
  have h := (pages_partitioned afterGet_run).2.2.2.2
  exact ⟨h 8192 (.inr ⟨by decide, by decide⟩), h 16384 (.inr ⟨by decide, by decide⟩)⟩

/-! ## Canonical form -/

def Buddy.blocks (s : Buddy) (m : ℕ) : Set ℕ := {a | ∃ k, m = k + 12 ∧ ∃ b ∈ s.freeArea k, b.paddr = a}

theorem cover_blocks (s : Buddy) : cover s.blocks = s.freeBytes := by
  ext x
  constructor
  · rintro ⟨m, a, ⟨k, rfl, b, hb, rfl⟩, hx⟩
    exact ⟨k, b, hb, hx⟩
  · rintro ⟨k, b, hb, hx⟩
    exact ⟨k + 12, b.paddr, ⟨k, rfl, b, hb, rfl⟩, hx⟩

theorem Buddy.WF.canonical (h : s.WF) : Canonical (MAX_BUDDY_ORDER + 12) s.blocks := by
  constructor
  · rintro m a ⟨k, rfl, b, hb, rfl⟩
    have hle := h.pages.order_le k b hb
    omega
  · rintro m a ⟨k, rfl, b, hb, rfl⟩
    exact h.pages.aligned k b hb
  · rintro m n a a' ⟨k, rfl, b, hb, rfl⟩ ⟨k', rfl, b', hb', rfl⟩ hne
    apply h.pages.disjoint k k' b hb b' hb'
    rintro rfl
    have hk : k = k' := (h.desc.order_eq k b hb).symm.trans (h.desc.order_eq k' b hb')
    exact hne (by rw [hk])
  · rintro m a hlt ⟨k, rfl, b, hb, rfl⟩ ⟨k', hk', b', hb', heq⟩
    obtain rfl : k = k' := by omega
    exact h.pages.no_buddy k (by omega) b hb b' hb' heq

/-- The addresses on the list of order `k`, read off the family. -/
theorem mem_map_paddr_iff : a ∈ (s.freeArea k).map (·.paddr) ↔ a ∈ s.blocks (k + 12) := by
  rw [mem_map]
  constructor
  · rintro ⟨b, hb, rfl⟩
    exact ⟨k, rfl, b, hb, rfl⟩
  · rintro ⟨k', hk', b, hb, rfl⟩
    obtain rfl : k = k' := by omega
    exact ⟨b, hb, rfl⟩

/-- Well-formed allocators with the same free bytes have the same free lists. -/
theorem Buddy.WF.freeArea_eq {s' : Buddy} (h : s.WF) (h' : s'.WF)
    (hfree : s.freeBytes = s'.freeBytes) (k : ℕ) :
    (s.freeArea k).map (·.paddr) = (s'.freeArea k).map (·.paddr) := by
  have hblocks : s.blocks = s'.blocks := by
    apply h.canonical.eq_of_cover_eq h'.canonical
    rw [cover_blocks, cover_blocks, hfree]
  have hsorted : ∀ t : Buddy, t.WF → ((t.freeArea k).map (·.paddr)).Pairwise (· < ·) :=
    fun t ht => pairwise_map.mpr (ht.pages.sorted k)
  apply (hsorted s h).eq_of_mem_iff (hsorted s' h')
  intro a
  rw [mem_map_paddr_iff, mem_map_paddr_iff, hblocks]

/-- **Canonical form.** In every world of a run each list is strictly sorted by address
and holds no two buddies below the largest order; two runs that leave the same bytes free
leave the same lists. -/
theorem free_lists_canonical {pool0 pool0' : ℕ} {w w' : PageWorld}
    (hrun : ReflTransGen PageStep (PageWorld.init pool0) w)
    (hrun' : ReflTransGen PageStep (PageWorld.init pool0') w') :
    (∀ k, (w.st.freeArea k).Pairwise fun b b' => b.paddr < b'.paddr) ∧
    (∀ k < MAX_BUDDY_ORDER, ∀ b ∈ w.st.freeArea k, ∀ b' ∈ w.st.freeArea k,
      b'.paddr ≠ b.paddr ^^^ blockSizeForOrder k) ∧
    (w.st.freeBytes = w'.st.freeBytes → ∀ k, (w.st.freeArea k).map (fun b => (b.paddr, b.order)) =
        (w'.st.freeArea k).map fun b => (b.paddr, b.order)) := by
  have hinv := PageWorld.inv_of_run hrun
  have hinv' := PageWorld.inv_of_run hrun'
  refine ⟨hinv.wf.pages.sorted, hinv.wf.pages.no_buddy, ?_⟩
  intro hfree k
  -- every block on the list of order `k` has order `k`, so the addresses decide
  have horder : ∀ t : Buddy, t.WF → (t.freeArea k).map (fun b => (b.paddr, b.order)) =
      ((t.freeArea k).map (·.paddr)).map fun a => (a, k) := by
    intro t ht
    rw [List.map_map]
    apply map_congr_left
    intro b hb
    show (b.paddr, b.order) = (b.paddr, k)
    rw [ht.desc.order_eq k b hb]
  rw [horder w.st hinv.wf, horder w'.st hinv'.wf, hinv.wf.freeArea_eq hinv'.wf hfree k]

/-- When everything has been put back and there are no pools, all that was donated is free. -/
theorem PageWorld.Inv.freeBytes_eq (h : w.Inv) (hlive : w.live = []) (hlost : w.lost = ∅)
    (hpools : w.st.poolAddrs = []) : w.st.freeBytes = w.donated := by
  have hcover : w.donated = w.st.freeBytes ∪ w.st.poolBytes ∪ w.ledger.lentUnits rangeBytes ∪ w.lost :=
    h.balanced.cover
  have hlent : w.ledger.lentUnits rangeBytes = ∅ := by
    simp [Ledger.lentUnits, PageWorld.ledger, hlive]
  have hpool : w.st.poolBytes = ∅ := by
    simp [Buddy.poolBytes, hpools]
  rw [hcover, hlent, hpool, hlost, union_empty, union_empty, union_empty]

def PageWorld.afterPut (w : PageWorld) (a n : ℕ) : PageWorld :=
  { w with
    st := Except.valueOr w.st (w.st.putPage a n)
    live := w.live.erase (a, n) }

/-- Three pages are free again after two of them were handed out and put back. -/
theorem free_lists_canonical_donated :
    let w := (PageWorld.init 0).afterDonation 8192 3
    ∀ k, (w.st.freeArea k).map (fun b => (b.paddr, b.order)) =
      (((w.afterGet 8192 2).afterPut 8192 2).st.freeArea k).map fun b => (b.paddr, b.order) := by
  have hrun : ReflTransGen PageStep (PageWorld.init 0)
      ((((PageWorld.init 0).afterDonation 8192 3).afterGet 8192 2).afterPut 8192 2) :=
    afterGet_run.tail (PageStep.put _ mem_cons_self (Except.eq_ok_valueOr (by decide +kernel)))
  refine (free_lists_canonical afterDonation_run hrun).2.2 ?_
  rw [(PageWorld.inv_of_run afterDonation_run).freeBytes_eq rfl rfl (by decide)]
  exact ((PageWorld.inv_of_run hrun).freeBytes_eq (by decide) rfl (by decide +kernel)).symm

end Sustcore
