/-
# What the operations of the buddy allocator do to its pages

The contracts of `Buddy.owned`, from the merge loop up to `get_free_page` and `put_page`:
putting a block adds exactly its bytes, fetching one removes exactly its bytes, and a
descriptor allocation changes nothing, although it may turn free pages into pool pages.
The recursive knot is closed by induction on the fuel in `allocFreeblock_owned`.
-/
import Sustcore.BuddyPages
import Sustcore.BuddyOperations

namespace Sustcore

open Dyadic Set

/-! ## Contracts over the callee -/

/-- The descriptor and the page invariant together. -/
structure Buddy.WF (s : Buddy) : Prop where
  desc : s.Desc
  pages : s.Pages

theorem Buddy.wf_preInit (pool0 : ℕ) : (Buddy.preInit pool0).WF :=
  ⟨Buddy.desc_preInit pool0, Buddy.pages_preInit pool0⟩

/-- A slot request keeps the owned bytes. -/
def AllocOwned (alloc : Buddy → Except Halt (Result BlockRef × Buddy)) : Prop :=
  ∀ s r s', s.WF → alloc s = .ok (r, s') → s'.WF ∧ s'.owned = s.owned

/-- Putting a block that is not owned adds it. -/
def PutOwned (put : Buddy → ℕ → ℕ → Except Halt Buddy) : Prop :=
  ∀ s a k s', s.WF → a ≠ 0 → Disjoint (block (k + 12) a) s.owned → put s a k = .ok s' →
    s'.WF ∧ s'.owned = s.owned ∪ block (k + 12) a

/-- Fetching a block removes it. -/
def FetchOwned (fetch : Buddy → ℕ → Except Halt (Result ℕ × Buddy)) : Prop :=
  ∀ s k r s', s.WF → fetch s k = .ok (r, s') → s'.WF ∧ (∀ e, r = .error e → s' = s) ∧
    ∀ a, r = .ok a → a ≠ 0 ∧ 2 ^ (k + 12) ∣ a ∧ s.owned = s'.owned ∪ block (k + 12) a ∧
      Disjoint s'.owned (block (k + 12) a)

section Contracts

variable {grow : Prop} {alloc : Buddy → Except Halt (Result BlockRef × Buddy)}
  {put : Buddy → ℕ → ℕ → Except Halt Buddy}
  {fetch : Buddy → ℕ → Except Halt (Result ℕ × Buddy)}

/-- The merged block of the source is the doubled block. -/
theorem merged_paddr (b a : ℕ) : (if b < a then b else a) = min b a := by
  split <;> omega

/-- A merge round: the buddy leaves the owned bytes, and the doubled block lies outside
what remains. -/
theorem Merged.owned {s s' : Buddy} {ref : BlockRef} {b : FreeBlock} {k a : ℕ}
    (h : Merged s ref b s') (hwf : s.WF) (hn : s.Unlinked ref) (hmem : b ∈ s.freeArea k)
    (hal : 2 ^ (k + 12) ∣ a) (hb : b.paddr = buddy (k + 12) a)
    (hdis : Disjoint (block (k + 12) a) s.owned) :
    s'.WF ∧ Disjoint (block (k + 1 + 12) (min b.paddr a)) s'.owned ∧
      s'.owned ∪ block (k + 1 + 12) (min b.paddr a) = s.owned ∪ block (k + 12) a := by
  obtain ⟨hkeep, harea, -⟩ := h.spec False hwf.desc hn hmem
  obtain ⟨t, ht, hs'⟩ := h.freed
  have hpool : s'.pools.map (·.paddr) = (s.unlinkBlock b).pools.map (·.paddr) := by
    rw [map_paddr_freeFreeblock hs', map_paddr_freeFreeblock ht]
  have howned : s'.owned = (s.unlinkBlock b).owned := owned_congr harea hpool
  obtain ⟨hsum, hdisb⟩ := owned_unlinkBlock hwf.desc hwf.pages hmem
  have hunion : block (k + 1 + 12) (min b.paddr a) =
      block (k + 12) a ∪ block (k + 12) b.paddr := by
    rw [hb, block_union_buddy hal]
  refine ⟨⟨hkeep.desc, (hwf.pages.unlinkBlock hwf.desc hmem).congr harea hpool⟩, ?_, ?_⟩
  · rw [hunion, howned]
    refine disjoint_union_left.mpr ⟨hdis.mono_right ?_, hdisb.symm⟩
    rw [hsum]
    exact subset_union_left
  · rw [hunion, howned, hsum, union_right_comm, union_assoc]

theorem putLoop_owned (hk : AllocKeeps grow alloc) (ha : AllocOwned alloc) :
    ∀ n s a k s', n + k = MAX_BUDDY_ORDER + 1 → 0 < n → s.WF → a ≠ 0 → 2 ^ (k + 12) ∣ a →
      Disjoint (block (k + 12) a) s.owned → putLoop alloc n s a k = .ok s' →
        s'.WF ∧ s'.owned = s.owned ∪ block (k + 12) a := by
  intro n
  induction n with
  | zero => intro s a k s' _ hn; omega
  | succ n ih =>
    intro s a k s' hnk _ hwf hne hal hdis h
    have hmax : k ≤ MAX_BUDDY_ORDER := by omega
    obtain ⟨ref, s₁, halloc, hcase⟩ := putLoop_succ_eq_ok h
    obtain ⟨-, -, hslot⟩ := hk s _ s₁ hwf.desc halloc
    obtain ⟨huse, hfree⟩ := hslot ref rfl
    obtain ⟨hwf₁, howned₁⟩ := ha s _ s₁ hwf halloc
    rw [← howned₁] at hdis ⊢
    rcases hcase with ⟨hstop, rfl⟩ | ⟨b, s₂, hkne, hfind, hmerge, hrest⟩
    · refine ⟨⟨hwf₁.desc.linkBlock huse hfree, ?_⟩, owned_linkBlock s₁ ⟨ref, a, k⟩⟩
      refine hwf₁.pages.linkBlock hmax hal hne hdis ?_
      intro hlt
      rcases hstop with hstop | hstop
      · exact absurd hstop (ne_of_lt hlt)
      · exact findBuddyNode_eq_none hwf₁.desc hwf₁.pages hfree hmax hal hdis hstop
    · rw [unlinkBlock_linkBlock hfree] at hmerge
      obtain ⟨hmem, hb⟩ := findBuddyNode_eq_some hfree hmax hfind
      obtain ⟨hwf₂, hdis₂, hsum⟩ := hmerge.owned hwf₁ hfree hmem hal hb hdis
      rw [merged_paddr] at hrest
      have hne₂ : min b.paddr a ≠ 0 := by
        have hb0 := hwf₁.pages.nonnull _ b hmem
        omega
      have hal₂ : 2 ^ (k + 1 + 12) ∣ min b.paddr a := by
        have hdvd := min_buddy_dvd hal
        rwa [show b.paddr = buddy (k + 12) a from hb]
      obtain ⟨hwf₃, howned₃⟩ := ih s₂ _ (k + 1) s' (by omega) (by omega) hwf₂ hne₂ hal₂ hdis₂ hrest
      exact ⟨hwf₃, howned₃.trans hsum⟩

theorem putPageInOrderWith_owned (hk : AllocKeeps grow alloc) (ha : AllocOwned alloc) :
    PutOwned (putPageInOrderWith alloc) := by
  intro s a k s' hwf hne hdis h
  rcases putPageInOrderWith_eq_ok h with ⟨h0, -⟩ | ⟨-, hmax, hal, hloop⟩
  · exact absurd h0 hne
  · exact putLoop_owned hk ha _ s a k s' (by omega) (by omega) hwf hne hal hdis hloop

/-- The split loop gives back all of the block of order `k + d` but its first `2 ^ k`
pages. -/
theorem splitLoop_owned (hp : PutOwned put) (a k : ℕ) : ∀ d s s', s.WF →
    Disjoint (block (k + d + 12) a) s.owned → splitLoop put a k d s = .ok s' →
      s'.WF ∧ s'.owned ∪ block (k + 12) a = s.owned ∪ block (k + d + 12) a ∧
        Disjoint s'.owned (block (k + 12) a) := by
  intro d
  induction d with
  | zero =>
    intro s s' hwf hdis h
    cases h
    exact ⟨hwf, rfl, hdis.symm⟩
  | succ d ih =>
    intro s s' hwf hdis h
    have hsplit : block (k + (d + 1) + 12) a =
        block (k + d + 12) a ∪ block (k + d + 12) (a + blockSizeForOrder (k + d)) := by
      rw [block_succ]
      rfl
    rw [hsplit, disjoint_union_left] at hdis
    obtain ⟨t, ht, h⟩ := Except.bind_eq_ok_iff.mp h
    obtain ⟨hwft, howned⟩ := hp s _ _ t hwf (add_blockSize_ne_zero a (k + d)) hdis.2 ht
    have hlow : Disjoint (block (k + d + 12) a) t.owned := by
      rw [howned]
      exact disjoint_union_right.mpr ⟨hdis.1, block_halves_disjoint _ _⟩
    obtain ⟨hwf', hsum, hdis'⟩ := ih t s' hwft hlow h
    refine ⟨hwf', ?_, hdis'⟩
    rw [hsum, howned, hsplit, union_assoc, union_comm (block (k + d + 12) a)]

theorem fetchFrameOrderWith_owned (hp : PutOwned put) : FetchOwned (fetchFrameOrderWith put) := by
  intro s k r s' hwf h
  rcases fetchFrameOrderWith_eq_ok h with ⟨rfl, rfl⟩ | ⟨j, node, t, hkj, hj, hmem, rfl, ht, hsplit⟩
  · refine ⟨hwf, fun _ _ => rfl, ?_⟩
    intro a ha
    cases ha
  obtain ⟨hkeep, -, -⟩ := fetch_unlink_keeps False hwf.desc hmem hj ht
  have harea := freeFreeblock_freeArea ht
  have hpool := map_paddr_freeFreeblock ht
  have hwft : t.WF := ⟨hkeep.desc, (hwf.pages.unlinkBlock hwf.desc hmem).congr harea hpool⟩
  obtain ⟨hsum, hdis⟩ := owned_unlinkBlock hwf.desc hwf.pages hmem
  rw [← owned_congr harea hpool] at hsum hdis
  have hne : node.paddr ≠ 0 := hwf.pages.nonnull j node hmem
  have hkd : k + (j - k) = j := Nat.add_sub_cancel' hkj
  obtain ⟨hwf', hsum', hdis'⟩ := splitLoop_owned hp node.paddr k (j - k) t s' hwft
    (by rw [hkd]; exact hdis.symm) hsplit
  refine ⟨hwf', ?_, ?_⟩
  · intro e he
    cases he
  · intro a ha
    cases ha
    refine ⟨hne, ?_, ?_, hdis'⟩
    · exact (pow_dvd_pow 2 (by omega)).trans (hwf.pages.aligned j node hmem)
    · rw [hsum', hkd, hsum]

theorem addNewPoolWith_owned (hf : FetchOwned fetch) {s s' : Buddy} {r : Result Unit}
    (hwf : s.WF) (h : addNewPoolWith fetch s = .ok (r, s')) : s'.WF ∧ s'.owned = s.owned := by
  rcases addNewPoolWith_eq_ok h with ⟨e, rfl, hfetch⟩ | ⟨a, t, rfl, hfetch, rfl⟩
  · obtain ⟨hwf', herr, -⟩ := hf s _ _ s' hwf hfetch
    exact ⟨hwf', by rw [herr e rfl]⟩
  obtain ⟨hwft, -, hok⟩ := hf s _ _ t hwf hfetch
  obtain ⟨-, -, hsum, hdis⟩ := hok a rfl
  have haddrs : (t.attachPool (initPool a)).poolAddrs = t.poolAddrs ++ [a] := by
    obtain ⟨p, ps, hps⟩ := List.exists_cons_of_ne_nil hwft.pages.pools_ne
    simp [Buddy.poolAddrs, Buddy.attachPool, hps, initPool]
  have hpool : (t.attachPool (initPool a)).poolBytes =
      t.poolBytes ∪ pageRange a FREEBLOCK_EXPAND_PAGES := by
    ext x
    unfold Buddy.poolBytes
    rw [haddrs]
    simp only [List.mem_append, List.mem_singleton]
    constructor
    · rintro ⟨b, hb | rfl, hx⟩
      · exact .inl ⟨b, hb, hx⟩
      · exact .inr hx
    · rintro (⟨b, hb, hx⟩ | hx)
      · exact ⟨b, .inl hb, hx⟩
      · exact ⟨a, .inr rfl, hx⟩
  refine ⟨⟨hwft.desc.attachPool _, ?_⟩, ?_⟩
  · constructor
    · exact hwft.pages.order_le
    · exact hwft.pages.aligned
    · exact hwft.pages.nonnull
    · exact hwft.pages.sorted
    · exact hwft.pages.disjoint
    · exact hwft.pages.no_buddy
    · rw [hpool]
      refine disjoint_union_right.mpr ⟨hwft.pages.free_pool, ?_⟩
      exact hdis.mono_left subset_union_left
    · rw [haddrs, List.pairwise_append]
      refine ⟨hwft.pages.pools_disjoint, List.pairwise_singleton _ _, ?_⟩
      intro b hb c hc
      obtain rfl := List.mem_singleton.mp hc
      refine hdis.mono_left ?_
      exact fun x hx => .inr ⟨b, hb, hx⟩
    · simp [Buddy.attachPool]
  · show t.freeBytes ∪ (t.attachPool (initPool a)).poolBytes = s.owned
    rw [hpool, ← union_assoc, hsum]
    rfl

theorem allocFreeblockWith_owned {add : Buddy → Except Halt (Result Unit × Buddy)}
    (ha : ∀ s r s', s.WF → add s = .ok (r, s') → s'.WF ∧ s'.owned = s.owned) :
    AllocOwned (allocFreeblockWith add) := by
  have htake : ∀ (t : Buddy) (ref : BlockRef), t.WF →
      (t.takeSlot ref).WF ∧ (t.takeSlot ref).owned = t.owned := by
    intro t ref hwf
    have hpool := map_paddr_takeSlot t ref
    exact ⟨⟨hwf.desc.takeSlot ref, hwf.pages.congr rfl hpool⟩, owned_congr rfl hpool⟩
  intro s r s' hwf h
  rcases allocFreeblockWith_eq_ok h with
    ⟨ref, p, rfl, hp, hbit, rfl⟩ | ⟨res, t, hadd, ⟨e, rfl, rfl⟩ | ⟨ref, p, rfl, hp, hbit, rfl⟩⟩
  · exact htake s ref hwf
  · exact ha s res s' hwf hadd
  · obtain ⟨hwft, howned⟩ := ha s res t hwf hadd
    obtain ⟨hwf', howned'⟩ := htake t ref hwft
    exact ⟨hwf', howned'.trans howned⟩

end Contracts

/-! ## The recursive functions -/

/-- **A descriptor allocation owns what it owned**, nested pool expansions included. -/
theorem allocFreeblock_owned : ∀ fuel, AllocOwned (allocFreeblock fuel) := by
  intro fuel
  induction fuel with
  | zero =>
    apply allocFreeblockWith_owned
    intro s r s' _ h
    cases h
  | succ fuel ih =>
    apply allocFreeblockWith_owned
    intro s r s' hwf h
    exact addNewPoolWith_owned
      (fetchFrameOrderWith_owned (putPageInOrderWith_owned (allocFreeblock_keeps fuel) ih)) hwf h

theorem putOrder_owned (fuel : ℕ) : PutOwned (putOrder fuel) :=
  putPageInOrderWith_owned (allocFreeblock_keeps fuel) (allocFreeblock_owned fuel)

theorem fetchOrder_owned (fuel : ℕ) : FetchOwned (fetchOrder fuel) :=
  fetchFrameOrderWith_owned (putOrder_owned fuel)

/-! ## Page ranges -/

theorem pageRange_append (a m n : ℕ) :
    pageRange a (m + n) = pageRange a m ∪ pageRange (a + m * PAGESIZE) n := by
  ext x
  rw [mem_union, mem_pageRange, mem_pageRange, mem_pageRange, Nat.add_mul]
  omega

theorem pageRange_zero (a : ℕ) : pageRange a 0 = ∅ := by
  unfold pageRange
  rw [zero_mul, add_zero, Set.Ico_self]

theorem pageRange_append_disjoint (a m n : ℕ) :
    Disjoint (pageRange a m) (pageRange (a + m * PAGESIZE) n) := by
  rw [disjoint_left]
  intro x hx hx'
  rw [mem_pageRange] at hx hx'
  omega

theorem addMemoryLoop_owned {put : Buddy → ℕ → ℕ → Except Halt Buddy} (hp : PutOwned put) :
    ∀ n remain addr s s', remain ≤ n → s.WF → addr ≠ 0 →
      Disjoint (pageRange addr remain) s.owned → addMemoryLoop put n remain addr s = .ok s' →
        s'.WF ∧ s'.owned = s.owned ∪ pageRange addr remain := by
  intro n
  induction n with
  | zero =>
    intro remain addr s s' hle hwf _ _ h
    cases h
    obtain rfl : remain = 0 := by omega
    exact ⟨hwf, by rw [pageRange_zero, union_empty]⟩
  | succ n ih =>
    intro remain addr s s' hle hwf hne hdis h
    rcases addMemoryLoop_succ_eq_ok h with ⟨rfl, rfl⟩ | ⟨order, t, hfit, ht, hrest⟩
    · exact ⟨hwf, by rw [pageRange_zero, union_empty]⟩
    -- the range is the block put now and the pages left for the later rounds
    have hsplit : pageRange addr remain =
        block (order + 12) addr ∪ pageRange (addr + 2 ^ order * PAGESIZE) (remain - 2 ^ order) := by
      rw [← pageRange_two_pow, ← pageRange_append, Nat.add_sub_cancel' hfit]
    rw [hsplit, disjoint_union_left] at hdis
    obtain ⟨hwft, howned⟩ := hp s addr order t hwf hne hdis.1 ht
    have hpow : 0 < 2 ^ order := Nat.two_pow_pos order
    have hdist : Disjoint (pageRange (addr + 2 ^ order * PAGESIZE) (remain - 2 ^ order)) t.owned := by
      rw [howned, ← pageRange_two_pow]
      exact disjoint_union_right.mpr ⟨hdis.2, (pageRange_append_disjoint _ _ _).symm⟩
    obtain ⟨hwf', howned'⟩ := ih _ _ t s' (by omega) hwft (by omega) hdist hrest
    refine ⟨hwf', ?_⟩
    rw [howned', howned, hsplit, union_assoc]

/-! ## The public operations -/

variable {s s' : Buddy}

/-- **`add_memory_range`** of a range that is not owned adds exactly that range. -/
theorem addMemoryRange_owned {a n : ℕ} (hwf : s.WF) (hne : a ≠ 0)
    (hdis : Disjoint (pageRange a n) s.owned) (h : s.addMemoryRange a n = .ok s') :
    s'.WF ∧ s'.owned = s.owned ∪ pageRange a n :=
  addMemoryLoop_owned (putOrder_owned _) n n a s s' le_rfl hwf hne hdis h

/-- The counter is no part of the invariant. -/
theorem Buddy.WF.setFreePages (h : s.WF) (n : ℕ) : ({ s with freePages := n } : Buddy).WF :=
  ⟨h.desc.setFreePages n, h.pages.congr rfl rfl⟩

/-- **`put_page`** of a page range that is not owned adds exactly that range. -/
theorem putPage_owned {a n : ℕ} (hwf : s.WF) (hne : a ≠ 0)
    (hdis : Disjoint (pageRange a n) s.owned) (h : s.putPage a n = .ok s') :
    s'.WF ∧ s'.owned = s.owned ∪ pageRange a n := by
  rcases putPages_eq_ok h with ⟨h0, rfl⟩ | ⟨-, -, hadd⟩
  · obtain rfl : n = 0 := h0.resolve_left hne
    exact ⟨hwf, by rw [pageRange_zero, union_empty]⟩
  · exact addMemoryLoop_owned (putOrder_owned _) n n a { s with freePages := s.freePages + n } s'
      le_rfl (hwf.setFreePages _) hne hdis hadd

theorem preInit_putPage_owned {a n : ℕ} (hne : a ≠ 0)
    (h : (Buddy.preInit 0).putPage a n = .ok s) : s.WF ∧ s.owned = pageRange a n := by
  have hput := putPage_owned (Buddy.wf_preInit 0) hne
    (by rw [Buddy.owned_preInit]; exact disjoint_empty _) h
  rwa [Buddy.owned_preInit, empty_union] at hput

/-- **`put_page_in_order`** of a block that is not owned adds exactly that block. -/
theorem putPageInOrder_owned {a k : ℕ} (hwf : s.WF) (hne : a ≠ 0)
    (hdis : Disjoint (pageRange a (2 ^ k)) s.owned) (h : s.putPageInOrder a k = .ok s') :
    s'.WF ∧ s'.owned = s.owned ∪ pageRange a (2 ^ k) := by
  rw [pageRange_two_pow] at hdis ⊢
  exact putOrder_owned _ s a k s' hwf hne hdis h

theorem expandPool_owned {fuel : ℕ} {r : Result Unit} (hwf : s.WF)
    (h : expandPool fuel s = .ok (r, s')) : s'.WF ∧ s'.owned = s.owned := by
  rcases expandPool_eq_ok h with ⟨-, rfl⟩ | ⟨m, -, hadd⟩
  · exact ⟨hwf, rfl⟩
  · exact addNewPoolWith_owned (fetchOrder_owned m) hwf hadd

/-- **`get_free_page`.** A refused request keeps the owned bytes; any other one takes `n`
contiguous pages out of them, also if it ends with an error. -/
theorem getFreePage_owned {n : ℕ} {r : Result ℕ} (hwf : s.WF) (h : s.getFreePage n = .ok (r, s')) :
    s'.WF ∧ ((∃ e, r = .error e) ∧ s'.owned = s.owned ∨
      ∃ a, (r = .ok a ∨ ∃ e, r = .error e) ∧ a ≠ 0 ∧ PAGESIZE ∣ a ∧
        s.owned = s'.owned ∪ pageRange a n ∧ Disjoint s'.owned (pageRange a n)) := by
  rcases getPages_eq_ok h with
    ⟨e, rfl, ⟨rfl, -⟩ | hfetch⟩ | ⟨a, t, u, res, hn, hmax, hfetch, hrest, -, hexp, hr⟩
  · exact ⟨hwf, .inl ⟨⟨e, rfl⟩, rfl⟩⟩
  · obtain ⟨hwf', herr, -⟩ := fetchOrder_owned _ s _ _ s' hwf hfetch
    exact ⟨hwf', .inl ⟨⟨e, rfl⟩, by rw [herr e rfl]⟩⟩
  · obtain ⟨hwft, -, hok⟩ := fetchOrder_owned _ s _ _ t hwf hfetch
    obtain ⟨hne, hal, hsum, hdis⟩ := hok a rfl
    have hcut : block (pages2order n + 12) a =
        pageRange a n ∪ pageRange (a + n * PAGESIZE) (2 ^ pages2order n - n) := by
      rw [← pageRange_two_pow, ← pageRange_append,
        Nat.add_sub_cancel' (le_two_pow_pages2order hmax)]
    rw [hcut] at hsum hdis
    -- once the rest of the block went back, exactly the requested pages are missing
    have hu : u.WF ∧ s.owned = u.owned ∪ pageRange a n ∧ Disjoint u.owned (pageRange a n) := by
      rcases hrest with ⟨-, hadd⟩ | ⟨hge, rfl⟩
      · have hdisr := disjoint_union_right.mp hdis
        obtain ⟨hwfu, howned⟩ := addMemoryLoop_owned (putOrder_owned _) _ _ _ t u le_rfl hwft
          (by omega) hdisr.2.symm hadd
        refine ⟨hwfu, ?_, ?_⟩
        · rw [hsum, howned, union_assoc, union_comm (pageRange a n)]
        · rw [howned]
          exact disjoint_union_left.mpr ⟨hdisr.1, (pageRange_append_disjoint _ _ _).symm⟩
      · rw [Nat.sub_eq_zero_of_le hge, pageRange_zero, union_empty] at hsum hdis
        exact ⟨hwft, hsum, hdis⟩
    obtain ⟨hwfu, hsumu, hdisu⟩ := hu
    obtain ⟨hwf', howned⟩ := expandPool_owned (hwfu.setFreePages _) hexp
    have hsame : s'.owned = u.owned := howned
    refine ⟨hwf', .inr ⟨a, hr, hne, ?_, ?_, ?_⟩⟩
    · exact (pow_dvd_pow 2 (Nat.le_add_left 12 _)).trans hal
    · rwa [hsame]
    · rwa [hsame]

/-- **`get_free_pages_in_order`** hands out one aligned block or changes nothing. -/
theorem getFreePagesInOrder_owned {k : ℕ} {r : Result ℕ} (hwf : s.WF)
    (h : s.getFreePagesInOrder k = .ok (r, s')) : s'.WF ∧ (∀ e, r = .error e → s' = s) ∧
      ∀ a, r = .ok a → a ≠ 0 ∧ PAGESIZE ∣ a ∧ s.owned = s'.owned ∪ pageRange a (2 ^ k) ∧
        Disjoint s'.owned (pageRange a (2 ^ k)) := by
  rcases getOrder_eq_ok h with ⟨rfl, rfl⟩ | hfetch
  · refine ⟨hwf, fun _ _ => rfl, ?_⟩
    intro a ha
    cases ha
  obtain ⟨hwf', herr, hok⟩ := fetchOrder_owned _ s k r s' hwf hfetch
  refine ⟨hwf', herr, ?_⟩
  intro a ha
  obtain ⟨hne, hal, hsum, hdis⟩ := hok a ha
  rw [pageRange_two_pow]
  exact ⟨hne, (pow_dvd_pow 2 (Nat.le_add_left 12 k)).trans hal, hsum, hdis⟩

end Sustcore
