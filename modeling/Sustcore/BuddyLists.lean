/-
# Free lists and descriptor slots of the buddy allocator

What one `link_block`, `unlink_block`, `find_buddy_node`, `alloc_freeblock` slot search
and `free_freeblock` do to the lists and to the bitmaps.  The invariant `Buddy.Desc`
says that the list model is adequate: every linked block sits in a slot of its own that
the bitmaps mark as used, so that linking and unlinking one block never touches another.
-/
import Sustcore.Buddy

namespace Sustcore

open Function Buddy List Option Except

/-! ## Slots -/

/-- The slot `r` is marked as used. -/
def Buddy.InUse (s : Buddy) (r : BlockRef) : Prop :=
  ∃ p, s.pools[r.pool]? = some p ∧ p.bitmap r.idx = true

/-- No linked block sits in the slot `r`. -/
def Buddy.Unlinked (s : Buddy) (r : BlockRef) : Prop :=
  ∀ k, ∀ b ∈ s.freeArea k, b.ref ≠ r

/-- Every linked block is on the list of its order and in a used slot of its own. -/
structure Buddy.Desc (s : Buddy) : Prop where
  order_eq : ∀ k, ∀ b ∈ s.freeArea k, b.order = k
  live : ∀ k, ∀ b ∈ s.freeArea k, s.InUse b.ref
  inj : ∀ k k', ∀ b ∈ s.freeArea k, ∀ b' ∈ s.freeArea k', b.ref = b'.ref → b = b'
  nodup : ∀ k, (s.freeArea k).Nodup

theorem Buddy.desc_preInit (pool0 : ℕ) : (preInit pool0).Desc := by
  constructor <;> simp [preInit]

variable {p : FreeBlockPool}

theorem firstClear_eq_some {i : ℕ} (h : p.firstClear = some i) : p.bitmap i = false := by
  simpa using find?_some h

/-- The slot search returns a clear slot of an existing pool. -/
theorem findSlot_eq_some : ∀ {ps : List FreeBlockPool} {r : BlockRef}, findSlot ps = some r →
    ∃ p, ps[r.pool]? = some p ∧ p.bitmap r.idx = false := by
  intro ps
  induction ps with
  | nil => intro r h; simp [findSlot] at h
  | cons p ps ih =>
    intro r h
    have hlater : ∀ r', (findSlot ps).map (fun r => { r with pool := r.pool + 1 }) = some r' →
        ∃ q, (p :: ps)[r'.pool]? = some q ∧ q.bitmap r'.idx = false := by
      intro r' hr'
      obtain ⟨r0, hr0, rfl⟩ := map_eq_some_iff.mp hr'
      simpa using ih hr0
    unfold findSlot at h
    split at h
    · exact hlater r h
    split at h
    · rename_i idx hidx
      cases h
      exact ⟨p, rfl, firstClear_eq_some hidx⟩
    · exact hlater r h

@[simp] theorem takeSlot_freeArea (s : Buddy) (r : BlockRef) :
    (s.takeSlot r).freeArea = s.freeArea := rfl

@[simp] theorem takeSlot_pools_length (s : Buddy) (r : BlockRef) :
    (s.takeSlot r).pools.length = s.pools.length := by
  simp [takeSlot]

variable {s s' : Buddy} {r r' : BlockRef}

theorem Buddy.InUse.takeSlot (h : s.InUse r') : (s.takeSlot r).InUse r' := by
  obtain ⟨p, hp, hbit⟩ := h
  by_cases hpool : r.pool = r'.pool
  · refine ⟨p.take r.idx, ?_, ?_⟩
    · simp [Buddy.takeSlot, hpool, hp]
    · by_cases hidx : r'.idx = r.idx
      · simp [FreeBlockPool.take, hidx]
      · simp [FreeBlockPool.take, update_of_ne hidx, hbit]
  · exact ⟨p, by simp [Buddy.takeSlot, hpool, hp], hbit⟩

theorem inUse_takeSlot_self (hp : s.pools[r.pool]? = some p) : (s.takeSlot r).InUse r :=
  ⟨p.take r.idx, by simp [takeSlot, hp], by simp [FreeBlockPool.take]⟩

/-- A clear slot holds no linked block. -/
theorem Buddy.Desc.unlinked_of_clear (h : s.Desc)
    (hp : s.pools[r.pool]? = some p) (hbit : p.bitmap r.idx = false) : s.Unlinked r := by
  rintro k b hb rfl
  obtain ⟨q, hq, hq'⟩ := h.live k b hb
  rw [hp] at hq
  cases hq
  rw [hbit] at hq'
  cases hq'

theorem Buddy.Desc.takeSlot (h : s.Desc) (r : BlockRef) : (s.takeSlot r).Desc where
  order_eq := h.order_eq
  live := fun k b hb => (h.live k b hb).takeSlot
  inj := h.inj
  nodup := h.nodup

variable (h : s.freeFreeblock r = .ok s')

include h

theorem freeFreeblock_eq_ok :
    s' = { s with pools := s.pools.modify r.pool (·.give r.idx) } := by
  unfold freeFreeblock at h
  split at h
  · cases h
  · simp only [bind_eq_ok_iff] at h
    obtain ⟨_, _, _, _, h⟩ := h
    exact (ok.inj h).symm

theorem freeFreeblock_freeArea : s'.freeArea = s.freeArea := by
  rw [freeFreeblock_eq_ok h]

theorem freeFreeblock_freePages : s'.freePages = s.freePages := by
  rw [freeFreeblock_eq_ok h]

theorem freeFreeblock_pools_length : s'.pools.length = s.pools.length := by
  rw [freeFreeblock_eq_ok h]
  simp

/-- Freeing a slot keeps every other slot in use. -/
theorem Buddy.InUse.freeFreeblock (hu : s.InUse r') (hne : r' ≠ r) : s'.InUse r' := by
  obtain ⟨p, hp, hbit⟩ := hu
  rw [freeFreeblock_eq_ok h]
  by_cases hpool : r.pool = r'.pool
  · have hidx : r'.idx ≠ r.idx := by
      cases r
      cases r'
      simp_all
    refine ⟨p.give r.idx, by simp [hpool, hp], ?_⟩
    simp [FreeBlockPool.give, update_of_ne hidx, hbit]
  · exact ⟨p, by simp [hpool, hp], hbit⟩

omit h

/-- Freeing a slot without a linked block keeps the invariant. -/
theorem Buddy.Desc.freeFreeblock (h : s.Desc)
    (hr : s.Unlinked r) (hf : s.freeFreeblock r = .ok s') : s'.Desc := by
  have harea : s'.freeArea = s.freeArea := freeFreeblock_freeArea hf
  constructor
  · rw [harea]; exact h.order_eq
  · intro k b hb
    rw [harea] at hb
    exact (h.live k b hb).freeFreeblock hf (hr k b hb)
  · rw [harea]; exact h.inj
  · rw [harea]; exact h.nodup

theorem freeFreeblock_ne_outOfFuel (s : Buddy) (r : BlockRef) :
    s.freeFreeblock r ≠ .error .outOfFuel := by
  unfold freeFreeblock
  split
  · simp
  intro h
  simp only [bind_eq_error_iff] at h
  rcases h with h | ⟨_, _, h | ⟨_, _, h⟩⟩
  · exact assertThat_ne_outOfFuel _ h
  · exact assertThat_ne_outOfFuel _ h
  · cases h

/-! ## Linking -/

theorem linkAfter_split (node : FreeBlock) : ∀ l : List FreeBlock, ∃ l₁ l₂,
    l = l₁ ++ l₂ ∧ linkAfter node l = l₁ ++ node :: l₂ ∧
      (∀ b ∈ l₁, b.paddr < node.paddr) ∧ ∀ b ∈ l₂.head?, node.paddr ≤ b.paddr := by
  intro l
  induction l with
  | nil => exact ⟨[], [], rfl, rfl, by simp, by simp⟩
  | cons b bs ih =>
    unfold linkAfter
    split
    · rename_i hlt
      obtain ⟨l₁, l₂, rfl, hl, h₁, h₂⟩ := ih
      refine ⟨b :: l₁, l₂, rfl, by rw [hl]; rfl, ?_, h₂⟩
      intro c hc
      rcases mem_cons.mp hc with rfl | hc
      · exact hlt
      · exact h₁ c hc
    · rename_i hge
      exact ⟨[], b :: bs, rfl, rfl, by simp, by simpa using hge⟩

/-- **Where `link_block` puts a block**: the list is cut in two and the block stands
between the parts.  In a strictly sorted list that does not hold its address yet, it
stands between the smaller and the larger addresses. -/
theorem linkInto_split (node : FreeBlock) (l : List FreeBlock) : ∃ l₁ l₂,
    l = l₁ ++ l₂ ∧ linkInto node l = l₁ ++ node :: l₂ ∧
      (l.Pairwise (fun a b => a.paddr < b.paddr) → (∀ b ∈ l, b.paddr ≠ node.paddr) →
        (∀ b ∈ l₁, b.paddr < node.paddr) ∧ ∀ b ∈ l₂, node.paddr < b.paddr) := by
  have hhead : ∀ l₂ : List FreeBlock, l₂.Pairwise (fun a b => a.paddr < b.paddr) →
      (∀ b ∈ l₂, b.paddr ≠ node.paddr) → (∀ b ∈ l₂.head?, node.paddr ≤ b.paddr) →
      ∀ b ∈ l₂, node.paddr < b.paddr := by
    intro l₂ hs hne hle b hb
    cases l₂ with
    | nil => cases hb
    | cons c cs =>
      have hc : node.paddr < c.paddr := lt_of_le_of_ne (hle c rfl) (hne c mem_cons_self).symm
      rcases mem_cons.mp hb with rfl | hb
      · exact hc
      · exact hc.trans (rel_of_pairwise_cons hs hb)
  cases l with
  | nil => exact ⟨[], [], rfl, rfl, by simp⟩
  | cons b bs =>
    by_cases hlt : node.paddr < b.paddr
    · refine ⟨[], b :: bs, rfl, by simp [linkInto, hlt], fun hs hne => ⟨by simp, ?_⟩⟩
      exact hhead _ hs hne (by simpa using hlt.le)
    obtain ⟨l₁, l₂, rfl, hl, h₁, h₂⟩ := linkAfter_split node bs
    refine ⟨b :: l₁, l₂, rfl, by simp [linkInto, hlt, hl], fun hs hne => ⟨?_, ?_⟩⟩
    · intro c hc
      rcases mem_cons.mp hc with rfl | hc
      · exact lt_of_le_of_ne (Nat.le_of_not_lt hlt) (hne c mem_cons_self)
      · exact h₁ c hc
    · refine hhead l₂ ?_ (fun c hc => hne c (by simp [hc])) h₂
      exact (pairwise_append.mp (pairwise_cons.mp hs).2).2.1

variable {node b : FreeBlock} {l : List FreeBlock}

theorem mem_linkInto : b ∈ linkInto node l ↔ b = node ∨ b ∈ l := by
  obtain ⟨l₁, l₂, rfl, hl, -⟩ := linkInto_split node l
  rw [hl]
  simp only [mem_append, mem_cons]
  tauto

theorem length_linkInto (node : FreeBlock) (l : List FreeBlock) :
    (linkInto node l).length = l.length + 1 := by
  obtain ⟨l₁, l₂, rfl, hl, -⟩ := linkInto_split node l
  rw [hl]
  simp
  omega

theorem nodup_linkInto (hl : l.Nodup) (hn : node ∉ l) : (linkInto node l).Nodup := by
  obtain ⟨l₁, l₂, rfl, h, -⟩ := linkInto_split node l
  rw [h, nodup_middle]
  exact nodup_cons.mpr ⟨hn, hl⟩

variable {j k : ℕ}

theorem mem_linkBlock :
    b ∈ (s.linkBlock node).freeArea k ↔ (b = node ∧ k = node.order) ∨ b ∈ s.freeArea k := by
  unfold linkBlock
  by_cases hk : k = node.order
  · subst hk
    simp [mem_linkInto]
  · simp [hk]

@[simp] theorem linkBlock_pools (s : Buddy) (node : FreeBlock) :
    (s.linkBlock node).pools = s.pools := rfl

theorem Buddy.Desc.linkBlock (h : s.Desc)
    (hu : s.InUse node.ref) (hn : s.Unlinked node.ref) : (s.linkBlock node).Desc := by
  constructor
  · intro k b hb
    rcases mem_linkBlock.mp hb with ⟨rfl, rfl⟩ | hb
    · rfl
    · exact h.order_eq k b hb
  · intro k b hb
    rcases mem_linkBlock.mp hb with ⟨rfl, -⟩ | hb
    · exact hu
    · exact h.live k b hb
  · intro k k' b hb b' hb' heq
    rcases mem_linkBlock.mp hb with ⟨rfl, -⟩ | hb₁
    · rcases mem_linkBlock.mp hb' with ⟨rfl, -⟩ | hb₂
      · rfl
      · exact absurd heq.symm (hn k' b' hb₂)
    · rcases mem_linkBlock.mp hb' with ⟨rfl, -⟩ | hb₂
      · exact absurd heq (hn k b hb₁)
      · exact h.inj k k' b hb₁ b' hb₂ heq
  · intro k
    by_cases hk : k = node.order
    · subst hk
      have hnot : node ∉ s.freeArea node.order := fun hmem => hn _ node hmem rfl
      simpa [Buddy.linkBlock] using nodup_linkInto (h.nodup _) hnot
    · simpa [Buddy.linkBlock, update_of_ne hk] using h.nodup k

/-! ## Unlinking -/

theorem eraseP_eq_erase (h : ∀ b ∈ l, b.ref = node.ref → b = node) :
    l.eraseP (fun b => decide (b.ref = node.ref)) = l.erase node := by
  induction l with
  | nil => rfl
  | cons b bs ih =>
    have hbs := ih fun c hc => h c (mem_cons_of_mem b hc)
    by_cases hb : b = node
    · subst hb
      simp
    · have href : b.ref ≠ node.ref := fun heq => hb (h b mem_cons_self heq)
      rw [eraseP_cons_of_neg (by simpa using href), hbs,
        erase_cons_tail (by simpa using hb)]

theorem Buddy.Desc.unlinkBlock_freeArea (h : s.Desc) (hmem : node ∈ s.freeArea j) :
    (s.unlinkBlock node).freeArea = update s.freeArea j ((s.freeArea j).erase node) := by
  have hj : node.order = j := h.order_eq j node hmem
  unfold unlinkBlock
  rw [hj, eraseP_eq_erase fun b hb heq => h.inj j j b hb node hmem heq]

theorem Buddy.Desc.mem_unlinkBlock (h : s.Desc) (hmem : node ∈ s.freeArea j) :
    b ∈ (s.unlinkBlock node).freeArea k ↔ b ∈ s.freeArea k ∧ b ≠ node := by
  rw [h.unlinkBlock_freeArea hmem]
  by_cases hk : k = j
  · subst hk
    rw [update_self, (h.nodup k).mem_erase_iff]
    exact and_comm
  rw [update_of_ne hk]
  constructor
  · intro hb
    refine ⟨hb, ?_⟩
    rintro rfl
    exact hk ((h.order_eq k b hb).symm.trans (h.order_eq j b hmem))
  · exact And.left

@[simp] theorem unlinkBlock_pools (s : Buddy) (node : FreeBlock) :
    (s.unlinkBlock node).pools = s.pools := rfl

@[simp] theorem unlinkBlock_freePages (s : Buddy) (node : FreeBlock) :
    (s.unlinkBlock node).freePages = s.freePages := rfl

theorem Buddy.Desc.unlinkBlock (h : s.Desc)
    (hmem : node ∈ s.freeArea j) : (s.unlinkBlock node).Desc := by
  constructor
  · intro k b hb
    exact h.order_eq k b ((h.mem_unlinkBlock hmem).mp hb).1
  · intro k b hb
    exact h.live k b ((h.mem_unlinkBlock hmem).mp hb).1
  · intro k k' b hb b' hb' heq
    exact h.inj k k' b ((h.mem_unlinkBlock hmem).mp hb).1 b' ((h.mem_unlinkBlock hmem).mp hb').1 heq
  · intro k
    rw [h.unlinkBlock_freeArea hmem]
    by_cases hk : k = j
    · subst hk
      rw [update_self]
      exact (h.nodup k).erase node
    · rw [update_of_ne hk]
      exact h.nodup k

theorem Buddy.Desc.unlinked_unlinkBlock (h : s.Desc)
    (hmem : node ∈ s.freeArea j) : (s.unlinkBlock node).Unlinked node.ref := by
  intro k b hb heq
  obtain ⟨hb, hne⟩ := (h.mem_unlinkBlock hmem).mp hb
  exact hne (h.inj k j b hb node hmem heq)

/-- Unlinking a block that was just linked gives the old lists back. -/
theorem unlinkBlock_linkBlock (hn : s.Unlinked node.ref) :
    (s.linkBlock node).unlinkBlock node = s := by
  obtain ⟨l₁, l₂, hl, hlink, -⟩ := linkInto_split node (s.freeArea node.order)
  have hne : ∀ b ∈ l₁, ¬ decide (b.ref = node.ref) = true := by
    intro b hb
    have hb' : b ∈ s.freeArea node.order := by rw [hl]; exact mem_append_left _ hb
    simpa using hn node.order b hb'
  have herase : (l₁ ++ node :: l₂).eraseP (fun b => decide (b.ref = node.ref)) = l₁ ++ l₂ := by
    rw [eraseP_append_right _ hne, eraseP_cons_of_pos (by simp)]
  unfold unlinkBlock linkBlock
  simp only [update_self, update_idem]
  rw [hlink, herase, ← hl, update_eq_self]

/-! ## The neighbours of a block -/

theorem prevOf_middle : ∀ {l₁ l₂ : List FreeBlock},
    (∀ b ∈ l₁, b.ref ≠ node.ref) → (∀ b ∈ l₂, b.ref ≠ node.ref) →
      prevOf node.ref (l₁ ++ node :: l₂) = l₁.getLast? := by
  have hnone : ∀ (a : FreeBlock) (l : List FreeBlock), (∀ b ∈ l, b.ref ≠ node.ref) →
      prevOf node.ref (a :: l) = none := by
    intro a l
    induction l generalizing a with
    | nil => intro _; rfl
    | cons b bs ih =>
      intro h
      rw [prevOf, if_neg (h b mem_cons_self)]
      exact ih b fun c hc => h c (mem_cons_of_mem b hc)
  intro l₁
  induction l₁ with
  | nil =>
    intro l₂ _ h₂
    exact hnone node l₂ h₂
  | cons a as ih =>
    intro l₂ h₁ h₂
    cases as with
    | nil => simp [prevOf]
    | cons b bs =>
      have hb : b.ref ≠ node.ref := h₁ b (by simp)
      rw [cons_append, cons_append, prevOf, if_neg hb, ← cons_append,
        ih (fun c hc => h₁ c (mem_cons_of_mem a hc)) h₂]
      simp

theorem nextOf_middle : ∀ {l₁ l₂ : List FreeBlock},
    (∀ b ∈ l₁, b.ref ≠ node.ref) → nextOf node.ref (l₁ ++ node :: l₂) = l₂.head? := by
  intro l₁
  induction l₁ with
  | nil => intro l₂ _; simp [nextOf]
  | cons a as ih =>
    intro l₂ h₁
    rw [cons_append, nextOf, if_neg (h₁ a mem_cons_self)]
    exact ih fun c hc => h₁ c (mem_cons_of_mem a hc)

/-- `find_buddy_node` of a block that was just linked between `l₁` and `l₂` looks at the
last block of `l₁` and at the first block of `l₂`. -/
theorem findBuddyNode_linkBlock {l₁ l₂ : List FreeBlock}
    (hn : s.Unlinked node.ref) (hl : s.freeArea node.order = l₁ ++ l₂)
    (hlink : linkInto node (s.freeArea node.order) = l₁ ++ node :: l₂)
    (hmax : node.order ≤ MAX_BUDDY_ORDER) : (s.linkBlock node).findBuddyNode node =
      (l₁.getLast?.filter fun b => decide
          (b.paddr = node.paddr ^^^ blockSizeForOrder node.order ∧ b.order = node.order)).or
        (l₂.head?.filter fun b => decide
          (b.paddr = node.paddr ^^^ blockSizeForOrder node.order ∧ b.order = node.order)) := by
  have h₁ : ∀ b ∈ l₁, b.ref ≠ node.ref := fun b hb =>
    hn node.order b (by rw [hl]; exact mem_append_left _ hb)
  have h₂ : ∀ b ∈ l₂, b.ref ≠ node.ref := fun b hb =>
    hn node.order b (by rw [hl]; exact mem_append_right _ hb)
  unfold findBuddyNode
  rw [if_neg (not_lt.mpr hmax)]
  have harea : (s.linkBlock node).freeArea node.order = l₁ ++ node :: l₂ := by
    simp [linkBlock, hlink]
  simp only [harea, prevOf_middle h₁ h₂, nextOf_middle h₁]

theorem findBuddyNode_eq_some (hn : s.Unlinked node.ref) (hmax : node.order ≤ MAX_BUDDY_ORDER)
    (h : (s.linkBlock node).findBuddyNode node = some b) :
    b ∈ s.freeArea node.order ∧ b.paddr = node.paddr ^^^ blockSizeForOrder node.order := by
  obtain ⟨l₁, l₂, hl, hlink, -⟩ := linkInto_split node (s.freeArea node.order)
  rw [findBuddyNode_linkBlock hn hl hlink hmax, or_eq_some_iff] at h
  rcases h with h | ⟨-, h⟩
  · obtain ⟨hlast, hp⟩ := filter_eq_some_iff.mp h
    refine ⟨?_, (of_decide_eq_true hp).1⟩
    rw [hl]
    exact mem_append_left _ (mem_of_getLast? hlast)
  · obtain ⟨hhead, hp⟩ := filter_eq_some_iff.mp h
    refine ⟨?_, (of_decide_eq_true hp).1⟩
    rw [hl]
    exact mem_append_right _ (mem_of_head? hhead)

/-! ## Counting the listed pages -/

theorem listedPages_eq_sum (s : Buddy) :
    s.listedPages = ∑ k ∈ Finset.range (MAX_BUDDY_ORDER + 1), (s.freeArea k).length * 2 ^ k := by
  unfold listedPages
  rw [Finset.sum_eq_multiset_sum, Finset.range_val, ← Multiset.coe_range, Multiset.map_coe,
    Multiset.sum_coe]

/-- Replacing one list changes the count by the difference of the two lists. -/
theorem listedPages_update (s s' : Buddy)
    (hk : k ≤ MAX_BUDDY_ORDER) (h : s'.freeArea = update s.freeArea k l) :
    s'.listedPages + (s.freeArea k).length * 2 ^ k = s.listedPages + l.length * 2 ^ k := by
  have hmem : k ∈ Finset.range (MAX_BUDDY_ORDER + 1) := Finset.mem_range.mpr (by omega)
  rw [listedPages_eq_sum, listedPages_eq_sum, ← Finset.add_sum_erase _ _ hmem,
    ← Finset.add_sum_erase _ (fun k => (s.freeArea k).length * 2 ^ k) hmem, h,
    update_self]
  have hrest : ∑ x ∈ (Finset.range (MAX_BUDDY_ORDER + 1)).erase k,
        (update s.freeArea k l x).length * 2 ^ x =
      ∑ x ∈ (Finset.range (MAX_BUDDY_ORDER + 1)).erase k, (s.freeArea x).length * 2 ^ x := by
    apply Finset.sum_congr rfl
    intro x hx
    rw [update_of_ne (Finset.ne_of_mem_erase hx)]
  rw [hrest]
  ring

theorem listedPages_linkBlock (hk : node.order ≤ MAX_BUDDY_ORDER) :
    (s.linkBlock node).listedPages = s.listedPages + 2 ^ node.order := by
  have h := listedPages_update s (s.linkBlock node) hk rfl
  rw [length_linkInto, add_mul] at h
  omega

theorem listedPages_unlinkBlock (h : s.Desc)
    (hmem : node ∈ s.freeArea j) (hj : j ≤ MAX_BUDDY_ORDER) :
    (s.unlinkBlock node).listedPages + 2 ^ j = s.listedPages := by
  have hupd := listedPages_update s (s.unlinkBlock node) hj (h.unlinkBlock_freeArea hmem)
  have hpos : 0 < (s.freeArea j).length := length_pos_of_mem hmem
  rw [length_erase_of_mem hmem] at hupd
  obtain ⟨n, hn⟩ : ∃ n, (s.freeArea j).length = n + 1 := ⟨_, (Nat.succ_pred_eq_of_pos hpos).symm⟩
  rw [hn, Nat.add_sub_cancel, Nat.add_mul] at hupd
  omega

theorem listedPages_congr (h : s'.freeArea = s.freeArea) : s'.listedPages = s.listedPages := by
  unfold listedPages
  rw [h]

end Sustcore
