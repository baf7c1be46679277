/-
# Pages of the buddy allocator

The page-level invariant `Buddy.Pages` of the free lists (aligned, sorted, pairwise
disjoint, no two buddies of one order) and what each function of the allocator does to
the set of bytes it owns: the free blocks together with the pages of its descriptor
pools.  The contracts are stated for the set `Buddy.owned` only, so that a pool expansion
in the middle of a split or a merge is invisible to the caller.
-/
import Sustcore.Dyadic
import Sustcore.BuddyDescriptors

namespace Sustcore

open Dyadic Buddy List Option Function

/-! ## Owned bytes -/

def Buddy.freeBytes (s : Buddy) : Set ℕ :=
  {x | ∃ k, ∃ b ∈ s.freeArea k, x ∈ block (k + 12) b.paddr}

/-- The addresses of the expansion pools: every pool but the static first one. -/
def Buddy.poolAddrs (s : Buddy) : List ℕ := (s.pools.map (·.paddr)).tail

def Buddy.poolBytes (s : Buddy) : Set ℕ :=
  {x | ∃ a ∈ s.poolAddrs, x ∈ pageRange a FREEBLOCK_EXPAND_PAGES}

/-- Everything the allocator holds. -/
def Buddy.owned (s : Buddy) : Set ℕ := s.freeBytes ∪ s.poolBytes

/-- **The page invariant.** -/
structure Buddy.Pages (s : Buddy) : Prop where
  order_le : ∀ k, ∀ b ∈ s.freeArea k, k ≤ MAX_BUDDY_ORDER
  aligned : ∀ k, ∀ b ∈ s.freeArea k, 2 ^ (k + 12) ∣ b.paddr
  nonnull : ∀ k, ∀ b ∈ s.freeArea k, b.paddr ≠ 0
  sorted : ∀ k, (s.freeArea k).Pairwise fun b b' => b.paddr < b'.paddr
  disjoint : ∀ k k', ∀ b ∈ s.freeArea k, ∀ b' ∈ s.freeArea k', b ≠ b' →
    Disjoint (block (k + 12) b.paddr) (block (k' + 12) b'.paddr)
  no_buddy : ∀ k < MAX_BUDDY_ORDER, ∀ b ∈ s.freeArea k, ∀ b' ∈ s.freeArea k,
    b'.paddr ≠ buddy (k + 12) b.paddr
  free_pool : Disjoint s.freeBytes s.poolBytes
  pools_disjoint : s.poolAddrs.Pairwise fun a b =>
    Disjoint (pageRange a FREEBLOCK_EXPAND_PAGES) (pageRange b FREEBLOCK_EXPAND_PAGES)
  pools_ne : s.pools ≠ []

theorem Buddy.pages_preInit (pool0 : ℕ) : (preInit pool0).Pages := by
  constructor <;> simp [preInit, freeBytes, poolAddrs]

theorem Buddy.owned_preInit (pool0 : ℕ) : (preInit pool0).owned = ∅ := by
  simp [owned, preInit, freeBytes, poolBytes, poolAddrs]

variable {s s' : Buddy} {node b : FreeBlock}

theorem block_subset_freeBytes {k : ℕ} (hb : b ∈ s.freeArea k) :
    block (k + 12) b.paddr ⊆ s.freeBytes := fun _ hx => ⟨k, b, hb, hx⟩

theorem block_subset_owned {k : ℕ} (hb : b ∈ s.freeArea k) : block (k + 12) b.paddr ⊆ s.owned :=
  (block_subset_freeBytes hb).trans Set.subset_union_left

theorem pageRange_two_pow (a k : ℕ) : pageRange a (2 ^ k) = block (k + 12) a := by
  ext x
  rw [mem_pageRange, mem_block, Nat.pow_add]

theorem pageRange_pool (a : ℕ) : pageRange a FREEBLOCK_EXPAND_PAGES = block (2 + 12) a :=
  pageRange_two_pow a 2

/-- The page invariant and the owned bytes only depend on the lists and on the addresses
of the pools. -/
theorem poolBytes_congr (h : s'.pools.map (·.paddr) = s.pools.map (·.paddr)) :
    s'.poolBytes = s.poolBytes := by
  unfold poolBytes poolAddrs
  rw [h]

theorem freeBytes_congr (h : s'.freeArea = s.freeArea) : s'.freeBytes = s.freeBytes := by
  unfold freeBytes
  rw [h]

theorem owned_congr (hf : s'.freeArea = s.freeArea)
    (hp : s'.pools.map (·.paddr) = s.pools.map (·.paddr)) : s'.owned = s.owned := by
  unfold owned
  rw [freeBytes_congr hf, poolBytes_congr hp]

theorem Buddy.Pages.congr (h : s.Pages) (hf : s'.freeArea = s.freeArea)
    (hp : s'.pools.map (·.paddr) = s.pools.map (·.paddr)) : s'.Pages := by
  constructor
  · rw [hf]; exact h.order_le
  · rw [hf]; exact h.aligned
  · rw [hf]; exact h.nonnull
  · rw [hf]; exact h.sorted
  · rw [hf]; exact h.disjoint
  · rw [hf]; exact h.no_buddy
  · rw [freeBytes_congr hf, poolBytes_congr hp]; exact h.free_pool
  · unfold poolAddrs; rw [hp]; exact h.pools_disjoint
  · intro hnil
    rw [hnil] at hp
    exact h.pools_ne (map_eq_nil_iff.mp hp.symm)

theorem map_paddr_modify (ps : List FreeBlockPool) (i : ℕ) (f : FreeBlockPool → FreeBlockPool)
    (hf : ∀ p, (f p).paddr = p.paddr) : (ps.modify i f).map (·.paddr) = ps.map (·.paddr) := by
  induction ps generalizing i with
  | nil => simp
  | cons p ps ih =>
    cases i with
    | zero => simp [hf]
    | succ i => simp [ih]

theorem map_paddr_takeSlot (s : Buddy) (r : BlockRef) :
    (s.takeSlot r).pools.map (·.paddr) = s.pools.map (·.paddr) :=
  map_paddr_modify _ _ _ fun _ => rfl

theorem map_paddr_freeFreeblock {r : BlockRef} (h : s.freeFreeblock r = .ok s') :
    s'.pools.map (·.paddr) = s.pools.map (·.paddr) := by
  rw [freeFreeblock_eq_ok h]
  exact map_paddr_modify _ _ _ fun _ => rfl

/-! ## Taking a block off its list -/

theorem freeBytes_unlinkBlock (hd : s.Desc) (hs : s.Pages) {j : ℕ} (hmem : node ∈ s.freeArea j) :
    s.freeBytes = (s.unlinkBlock node).freeBytes ∪ block (j + 12) node.paddr ∧
      Disjoint (s.unlinkBlock node).freeBytes (block (j + 12) node.paddr) := by
  constructor
  · ext x
    constructor
    · rintro ⟨k, b, hb, hx⟩
      by_cases hbn : b = node
      · subst hbn
        have hkj : k = j := (hd.order_eq k b hb).symm.trans (hd.order_eq j b hmem)
        subst hkj
        exact .inr hx
      · exact .inl ⟨k, b, (hd.mem_unlinkBlock hmem).mpr ⟨hb, hbn⟩, hx⟩
    · rintro (⟨k, b, hb, hx⟩ | hx)
      · exact ⟨k, b, ((hd.mem_unlinkBlock hmem).mp hb).1, hx⟩
      · exact ⟨j, node, hmem, hx⟩
  · rw [Set.disjoint_left]
    rintro x ⟨k, b, hb, hx⟩ hx'
    obtain ⟨hb, hne⟩ := (hd.mem_unlinkBlock hmem).mp hb
    exact Set.disjoint_left.mp (hs.disjoint k j b hb node hmem hne) hx hx'

theorem Buddy.Pages.unlinkBlock (hd : s.Desc) (hs : s.Pages)
    {j : ℕ} (hmem : node ∈ s.freeArea j) : (s.unlinkBlock node).Pages := by
  have hin : ∀ {k : ℕ} {b : FreeBlock}, b ∈ (s.unlinkBlock node).freeArea k → b ∈ s.freeArea k :=
    fun hb => ((hd.mem_unlinkBlock hmem).mp hb).1
  constructor
  · exact fun k b hb => hs.order_le k b (hin hb)
  · exact fun k b hb => hs.aligned k b (hin hb)
  · exact fun k b hb => hs.nonnull k b (hin hb)
  · intro k
    rw [hd.unlinkBlock_freeArea hmem]
    by_cases hk : k = j
    · subst hk
      rw [update_self]
      exact (hs.sorted k).sublist erase_sublist
    · rw [update_of_ne hk]
      exact hs.sorted k
  · exact fun k k' b hb b' hb' => hs.disjoint k k' b (hin hb) b' (hin hb')
  · exact fun k hk b hb b' hb' => hs.no_buddy k hk b (hin hb) b' (hin hb')
  · refine hs.free_pool.mono_left ?_
    rw [(freeBytes_unlinkBlock hd hs hmem).1]
    exact Set.subset_union_left
  · exact hs.pools_disjoint
  · exact hs.pools_ne

/-- Taking a block off its list takes exactly its bytes out of the owned ones. -/
theorem owned_unlinkBlock (hd : s.Desc) (hs : s.Pages) {j : ℕ} (hmem : node ∈ s.freeArea j) :
    s.owned = (s.unlinkBlock node).owned ∪ block (j + 12) node.paddr ∧
      Disjoint (s.unlinkBlock node).owned (block (j + 12) node.paddr) := by
  obtain ⟨hfree, hdis⟩ := freeBytes_unlinkBlock hd hs hmem
  constructor
  · show s.freeBytes ∪ s.poolBytes = ((s.unlinkBlock node).freeBytes ∪ s.poolBytes) ∪ _
    rw [hfree, Set.union_right_comm]
  · refine Set.disjoint_union_left.mpr ⟨hdis, ?_⟩
    exact (hs.free_pool.mono_left (block_subset_freeBytes hmem)).symm

/-! ## Putting a block on its list -/

theorem freeBytes_linkBlock (s : Buddy) (node : FreeBlock) :
    (s.linkBlock node).freeBytes = s.freeBytes ∪ block (node.order + 12) node.paddr := by
  ext x
  constructor
  · rintro ⟨k, b, hb, hx⟩
    rcases mem_linkBlock.mp hb with ⟨rfl, rfl⟩ | hb
    · exact .inr hx
    · exact .inl ⟨k, b, hb, hx⟩
  · rintro (⟨k, b, hb, hx⟩ | hx)
    · exact ⟨k, b, mem_linkBlock.mpr (.inr hb), hx⟩
    · exact ⟨node.order, node, mem_linkBlock.mpr (.inl ⟨rfl, rfl⟩), hx⟩

theorem owned_linkBlock (s : Buddy) (node : FreeBlock) :
    (s.linkBlock node).owned = s.owned ∪ block (node.order + 12) node.paddr := by
  show (s.linkBlock node).freeBytes ∪ s.poolBytes = (s.freeBytes ∪ s.poolBytes) ∪ _
  rw [freeBytes_linkBlock, Set.union_right_comm]

/-- A block outside the owned bytes shares its address with no listed block. -/
theorem paddr_ne_of_disjoint {k m : ℕ} {a : ℕ}
    (hdis : Disjoint (block m a) s.owned) (hb : b ∈ s.freeArea k) : b.paddr ≠ a := by
  rintro rfl
  exact Set.disjoint_left.mp hdis (base_mem_block _ _) (block_subset_owned hb (base_mem_block _ _))

theorem sorted_linkInto {l : List FreeBlock}
    (hl : l.Pairwise fun b b' => b.paddr < b'.paddr) (hne : ∀ b ∈ l, b.paddr ≠ node.paddr) :
    (linkInto node l).Pairwise fun b b' => b.paddr < b'.paddr := by
  obtain ⟨l₁, l₂, rfl, hlink, hsorted⟩ := linkInto_split node l
  obtain ⟨h₁, h₂⟩ := hsorted hl hne
  rw [hlink]
  obtain ⟨hl₁, hl₂, hcross⟩ := pairwise_append.mp hl
  refine pairwise_append.mpr ⟨hl₁, pairwise_cons.mpr ⟨h₂, hl₂⟩, ?_⟩
  intro b hb c hc
  rcases mem_cons.mp hc with rfl | hc
  · exact h₁ b hb
  · exact hcross b hb c hc

theorem Buddy.Pages.linkBlock (hs : s.Pages)
    (hk : node.order ≤ MAX_BUDDY_ORDER) (hal : 2 ^ (node.order + 12) ∣ node.paddr)
    (hnn : node.paddr ≠ 0) (hdis : Disjoint (block (node.order + 12) node.paddr) s.owned)
    (hbud : node.order < MAX_BUDDY_ORDER →
      ∀ b ∈ s.freeArea node.order, b.paddr ≠ buddy (node.order + 12) node.paddr) :
    (s.linkBlock node).Pages := by
  have hdis' : ∀ k, ∀ b ∈ s.freeArea k,
      Disjoint (block (node.order + 12) node.paddr) (block (k + 12) b.paddr) :=
    fun k b hb => hdis.mono_right (block_subset_owned hb)
  constructor
  · intro k b hb
    rcases mem_linkBlock.mp hb with ⟨rfl, rfl⟩ | hb
    · exact hk
    · exact hs.order_le k b hb
  · intro k b hb
    rcases mem_linkBlock.mp hb with ⟨rfl, rfl⟩ | hb
    · exact hal
    · exact hs.aligned k b hb
  · intro k b hb
    rcases mem_linkBlock.mp hb with ⟨rfl, rfl⟩ | hb
    · exact hnn
    · exact hs.nonnull k b hb
  · intro k
    by_cases hkn : k = node.order
    · subst hkn
      simpa [Buddy.linkBlock] using
        sorted_linkInto (hs.sorted _) fun b hb => paddr_ne_of_disjoint hdis hb
    · simpa [Buddy.linkBlock, update_of_ne hkn] using hs.sorted k
  · intro k k' b hb b' hb' hne
    rcases mem_linkBlock.mp hb with ⟨rfl, rfl⟩ | hb₁
    · rcases mem_linkBlock.mp hb' with ⟨rfl, -⟩ | hb₂
      · exact absurd rfl hne
      · exact hdis' k' b' hb₂
    · rcases mem_linkBlock.mp hb' with ⟨rfl, rfl⟩ | hb₂
      · exact (hdis' k b hb₁).symm
      · exact hs.disjoint k k' b hb₁ b' hb₂ hne
  · intro k hkm b hb b' hb'
    rcases mem_linkBlock.mp hb with ⟨rfl, rfl⟩ | hb₁
    · rcases mem_linkBlock.mp hb' with ⟨rfl, -⟩ | hb₂
      · exact (buddy_ne hal).symm
      · exact hbud hkm b' hb₂
    rcases mem_linkBlock.mp hb' with ⟨rfl, rfl⟩ | hb₂
    · -- being buddies is symmetric
      intro heq
      apply hbud hkm b hb₁
      rw [heq, buddy_buddy]
    · exact hs.no_buddy k hkm b hb₁ b' hb₂
  · rw [freeBytes_linkBlock]
    exact Set.disjoint_union_left.mpr ⟨hs.free_pool, hdis.mono_right Set.subset_union_right⟩
  · exact hs.pools_disjoint
  · exact hs.pools_ne

/-- **Only the neighbours matter.** In a sorted list of aligned, disjoint blocks the buddy
of a block, if it is listed, is the block before it or the block after it. -/
theorem findBuddyNode_eq_none (hd : s.Desc) (hs : s.Pages)
    (hn : s.Unlinked node.ref) (hk : node.order ≤ MAX_BUDDY_ORDER)
    (hal : 2 ^ (node.order + 12) ∣ node.paddr)
    (hdis : Disjoint (block (node.order + 12) node.paddr) s.owned)
    (h : (s.linkBlock node).findBuddyNode node = none) :
    ∀ b ∈ s.freeArea node.order, b.paddr ≠ buddy (node.order + 12) node.paddr := by
  intro b hb hbud
  obtain ⟨l₁, l₂, hl, hlink, hsplit⟩ := linkInto_split node (s.freeArea node.order)
  obtain ⟨h₁, h₂⟩ := hsplit (hs.sorted _) fun c hc => paddr_ne_of_disjoint hdis hc
  have hsorted := hs.sorted node.order
  rw [hl, pairwise_append] at hsorted
  rw [findBuddyNode_linkBlock hn hl hlink hk, or_eq_none_iff] at h
  have hmatch : b.paddr = node.paddr ^^^ blockSizeForOrder node.order ∧ b.order = node.order :=
    ⟨hbud, hd.order_eq _ b hb⟩
  -- a listed block strictly between the two would be aligned, and there is no room for one
  have hroom : ∀ c ∈ s.freeArea node.order,
      ¬ (min b.paddr node.paddr < c.paddr ∧ c.paddr < max b.paddr node.paddr) := by
    intro c hc
    rw [hbud]
    exact not_between_buddy hal (hs.aligned _ c hc)
  have hb' := hb
  rw [hl, mem_append] at hb'
  rcases hb' with hb₁ | hb₂
  · obtain ⟨c, hc⟩ : ∃ c, l₁.getLast? = some c :=
      isSome_iff_exists.mp (by rw [getLast?_isSome]; exact ne_nil_of_mem hb₁)
    have hcmem : c ∈ s.freeArea node.order := by
      rw [hl]
      exact mem_append_left _ (mem_of_getLast? hc)
    obtain ⟨ys, hys⟩ := getLast?_eq_some_iff.mp hc
    have hcb : c = b := by
      rw [hys, mem_append, mem_singleton] at hb₁
      rcases hb₁ with hb₁ | hb₁
      · exfalso
        have hlt : b.paddr < c.paddr := by
          have := hsorted.1
          rw [hys, pairwise_append] at this
          exact this.2.2 b hb₁ c mem_cons_self
        have hca := h₁ c (mem_of_getLast? hc)
        exact hroom c hcmem ⟨by omega, by omega⟩
      · exact hb₁.symm
    subst hcb
    have hnone := h.1
    rw [hc, filter_eq_none_iff] at hnone
    exact hnone c rfl (decide_eq_true hmatch)
  · cases l₂ with
    | nil => cases hb₂
    | cons c cs =>
      have hcmem : c ∈ s.freeArea node.order := by rw [hl]; simp
      have hcb : c = b := by
        rcases mem_cons.mp hb₂ with hb₂ | hb₂
        · exact hb₂.symm
        · exfalso
          have hlt : c.paddr < b.paddr := rel_of_pairwise_cons hsorted.2.1 hb₂
          have hca := h₂ c mem_cons_self
          exact hroom c hcmem ⟨by omega, by omega⟩
      subst hcb
      have hnone := h.2
      rw [filter_eq_none_iff] at hnone
      exact hnone c rfl (decide_eq_true hmatch)

end Sustcore
