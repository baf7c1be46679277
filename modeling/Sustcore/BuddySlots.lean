/-
# The descriptor slots of the buddy allocator

Every block on a list sits in a descriptor slot of a pool.  The counters of the pools are right:
`used` and the clear bits of a pool add up to its 512 slots (`Buddy.Slots`), whatever the
operations do.  `Buddy.freeSlots` sums up the clear bits of all pools; it is zero exactly if
`alloc_freeblock` finds no slot (`findSlot_eq_none_iff`).
-/
import Sustcore.BuddyRuns

namespace Sustcore

open Dyadic Relation FreeBlockPool List Option Except

/-! ## Clear bits -/

/-- The clear bits of a pool behind its header. -/
def FreeBlockPool.clear (p : FreeBlockPool) : Finset ℕ :=
  (Finset.Ico FREEBLOCK_HEADER_BLOCKS FREEBLOCK_POOL_SIZE).filter fun i => p.bitmap i = false

variable {p : FreeBlockPool} {i n : ℕ}

theorem FreeBlockPool.mem_clear :
    i ∈ p.clear ↔ (FREEBLOCK_HEADER_BLOCKS ≤ i ∧ i < FREEBLOCK_POOL_SIZE) ∧ p.bitmap i = false := by
  unfold clear
  rw [Finset.mem_filter, Finset.mem_Ico]

theorem FreeBlockPool.clear_take (p : FreeBlockPool) (i : ℕ) :
    (p.take i).clear = p.clear.erase i := by
  ext j
  rw [Finset.mem_erase, mem_clear, mem_clear]
  by_cases hj : j = i
  · subst hj
    simp [take]
  · simp [take, hj]

theorem FreeBlockPool.clear_give (h₁ : FREEBLOCK_HEADER_BLOCKS ≤ i)
    (h₂ : i < FREEBLOCK_POOL_SIZE) : (p.give i).clear = insert i p.clear := by
  ext j
  rw [Finset.mem_insert, mem_clear, mem_clear]
  by_cases hj : j = i
  · subst hj
    simp [give, h₁, h₂]
  · simp [give, hj]

def FreeBlockPool.Counted (p : FreeBlockPool) : Prop := p.used + p.clear.card = FREEBLOCK_POOL_SIZE

theorem FreeBlockPool.Counted.take (h : p.Counted) (hi : i ∈ p.clear) : (p.take i).Counted := by
  have hpos := Finset.card_pos.mpr ⟨i, hi⟩
  unfold FreeBlockPool.Counted at h ⊢
  rw [p.clear_take, Finset.card_erase_of_mem hi]
  show p.used + 1 + _ = _
  omega

theorem FreeBlockPool.Counted.give (h : p.Counted)
    (h₁ : FREEBLOCK_HEADER_BLOCKS ≤ i) (h₂ : i < FREEBLOCK_POOL_SIZE) (hbit : p.bitmap i = true) :
    (p.give i).Counted := by
  have hi : i ∉ p.clear := by
    rw [mem_clear, hbit]
    simp
  have hlt : p.clear.card < (Finset.Ico FREEBLOCK_HEADER_BLOCKS FREEBLOCK_POOL_SIZE).card := by
    refine Finset.card_lt_card (Finset.ssubset_iff_subset_ne.mpr ⟨Finset.filter_subset _ _, ?_⟩)
    intro heq
    apply hi
    rw [show p.clear = Finset.Ico FREEBLOCK_HEADER_BLOCKS FREEBLOCK_POOL_SIZE from heq]
    exact Finset.mem_Ico.mpr ⟨h₁, h₂⟩
  rw [Nat.card_Ico] at hlt
  unfold FreeBlockPool.Counted at h ⊢
  rw [clear_give h₁ h₂, Finset.card_insert_of_notMem hi]
  show p.used - 1 + _ = _
  omega

theorem card_clear_initPool (paddr : ℕ) : (initPool paddr).clear.card = 508 := by
  have hall : (initPool paddr).clear = Finset.Ico FREEBLOCK_HEADER_BLOCKS FREEBLOCK_POOL_SIZE := by
    refine Finset.filter_true_of_mem ?_
    intro i hi
    rw [Finset.mem_Ico] at hi
    simp only [initPool, decide_eq_false_iff_not, not_lt]
    exact hi.1
  rw [hall, Nat.card_Ico]
  rfl

theorem counted_initPool (paddr : ℕ) : (initPool paddr).Counted := by
  unfold FreeBlockPool.Counted
  rw [card_clear_initPool]
  rfl

/-! ## The search for a slot -/

theorem firstClear_mem (h : p.firstClear = some i) : i ∈ p.clear := by
  have hrange := mem_range'_1.mp (mem_of_find?_eq_some h)
  rw [mem_clear]
  refine ⟨⟨hrange.1, ?_⟩, firstClear_eq_some h⟩
  omega

theorem firstClear_eq_none (h : p.firstClear = none) : p.clear = ∅ := by
  rw [Finset.eq_empty_iff_forall_notMem]
  intro i hi
  rw [mem_clear] at hi
  have hmem : i ∈ range' FREEBLOCK_HEADER_BLOCKS
      (FREEBLOCK_POOL_SIZE - FREEBLOCK_HEADER_BLOCKS) := by
    rw [mem_range'_1]
    omega
  have hno := find?_eq_none.mp h i hmem
  simp [hi.2] at hno

def clearSlots (ps : List FreeBlockPool) : ℕ := (ps.map fun p => p.clear.card).sum

/-- The slots that can still be taken. -/
def Buddy.freeSlots (s : Buddy) : ℕ := clearSlots s.pools

theorem findSlot_mem : ∀ {ps : List FreeBlockPool} {r : BlockRef}, findSlot ps = some r →
    ∃ p, ps[r.pool]? = some p ∧ r.idx ∈ p.clear := by
  intro ps
  induction ps with
  | nil => intro r h; cases h
  | cons p ps ih =>
    intro r h
    have hlater : (findSlot ps).map (fun r => { r with pool := r.pool + 1 }) = some r →
        ∃ q, (p :: ps)[r.pool]? = some q ∧ r.idx ∈ q.clear := by
      intro hr
      obtain ⟨r', hr', rfl⟩ := map_eq_some_iff.mp hr
      exact ih hr'
    unfold findSlot at h
    split at h
    · exact hlater h
    split at h
    · rename_i idx hidx
      cases h
      exact ⟨p, rfl, firstClear_mem hidx⟩
    · exact hlater h

/-- **The search fails exactly if all slots are taken.** -/
theorem findSlot_eq_none_iff : ∀ {ps : List FreeBlockPool}, (∀ p ∈ ps, p.Counted) →
    (findSlot ps = none ↔ clearSlots ps = 0) := by
  intro ps
  induction ps with
  | nil => intro _; simp [findSlot, clearSlots]
  | cons p ps ih =>
    intro hcount
    have hp := hcount p mem_cons_self
    have ih := ih fun q hq => hcount q (mem_cons_of_mem _ hq)
    have hsum : clearSlots (p :: ps) = p.clear.card + clearSlots ps := rfl
    unfold FreeBlockPool.Counted at hp
    rw [findSlot]
    split
    · rw [map_eq_none_iff, ih]
      omega
    cases hclear : p.firstClear with
    | some idx =>
      simp only [reduceCtorEq, false_iff]
      omega
    | none =>
      rw [firstClear_eq_none hclear, Finset.card_empty] at hp
      omega

/-- Changing one pool changes its own contribution. -/
theorem clearSlots_modify {f : FreeBlockPool → FreeBlockPool} : ∀ {ps : List FreeBlockPool} {i : ℕ}
    {p : FreeBlockPool}, ps[i]? = some p →
      clearSlots (ps.modify i f) + p.clear.card = clearSlots ps + (f p).clear.card := by
  intro ps
  induction ps with
  | nil => intro i p h; cases h
  | cons q ps ih =>
    intro i p h
    cases i with
    | zero =>
      cases h
      simp only [modify_zero_cons, clearSlots, map_cons, sum_cons]
      omega
    | succ i =>
      have hrest := ih (i := i) (p := p) h
      simp only [modify_succ_cons, clearSlots, map_cons, sum_cons] at hrest ⊢
      omega

/-! ## The invariant -/

/-- Every linked block has a slot behind a pool header, and the counters are right. -/
structure Buddy.Slots (s : Buddy) : Prop where
  index : ∀ k, ∀ b ∈ s.freeArea k,
    FREEBLOCK_HEADER_BLOCKS ≤ b.ref.idx ∧ b.ref.idx < FREEBLOCK_POOL_SIZE
  count : ∀ p ∈ s.pools, p.Counted

theorem Buddy.slots_preInit (pool0 : ℕ) : (Buddy.preInit pool0).Slots where
  index := fun _ _ hb => absurd hb not_mem_nil
  count := by
    intro p hp
    obtain rfl := mem_singleton.mp hp
    exact counted_initPool pool0

section Slots

variable {s s' : Buddy}

theorem Buddy.Slots.findSlot_ne_none (h : s.Slots) : findSlot s.pools ≠ none ↔ 0 < s.freeSlots := by
  rw [Ne, findSlot_eq_none_iff h.count, pos_iff_ne_zero]
  rfl

theorem Buddy.Slots.setFreePages (h : s.Slots) (n : ℕ) : ({ s with freePages := n } : Buddy).Slots :=
  ⟨h.index, h.count⟩

theorem Buddy.Slots.modify (h : s.Slots) {i : ℕ} {f : FreeBlockPool → FreeBlockPool}
    (hf : ∀ p, s.pools[i]? = some p → (f p).Counted) : ∀ p ∈ s.pools.modify i f, p.Counted := by
  intro p hp
  obtain ⟨j, hj⟩ := mem_iff_getElem?.mp hp
  rw [getElem?_modify] at hj
  obtain ⟨q, hq, hqp⟩ := map_eq_some_iff.mp hj
  split at hqp
  · rename_i hij
    subst hij
    rw [← hqp]
    exact hf q hq
  · rw [← hqp]
    exact h.count q (mem_of_getElem? hq)

theorem Buddy.Slots.takeSlot (h : s.Slots) {r : BlockRef} {p : FreeBlockPool}
    (hp : s.pools[r.pool]? = some p) (hr : r.idx ∈ p.clear) :
    (s.takeSlot r).Slots ∧ (s.takeSlot r).freeSlots + 1 = s.freeSlots := by
  refine ⟨⟨h.index, h.modify ?_⟩, ?_⟩
  · intro q hq
    cases hp.symm.trans hq
    exact (h.count p (mem_of_getElem? hp)).take hr
  · have hsum := clearSlots_modify (f := fun q => q.take r.idx) hp
    have hpos := Finset.card_pos.mpr ⟨r.idx, hr⟩
    rw [clear_take, Finset.card_erase_of_mem hr] at hsum
    show clearSlots (s.pools.modify r.pool _) + 1 = clearSlots s.pools
    omega

theorem Buddy.Slots.freeFreeblock (h : s.Slots) {r : BlockRef} (hr : r.idx < FREEBLOCK_POOL_SIZE)
    (hcall : s.freeFreeblock r = .ok s') : s'.Slots ∧ s'.freeSlots = s.freeSlots + 1 := by
  unfold Buddy.freeFreeblock at hcall
  split at hcall
  · cases hcall
  rename_i p hp
  obtain ⟨_, hidx, hcall⟩ := bind_eq_ok_iff.mp hcall
  obtain ⟨_, hbit, hcall⟩ := bind_eq_ok_iff.mp hcall
  rw [assertThat_eq_ok_iff] at hidx hbit
  cases hcall
  have hidx' : FREEBLOCK_HEADER_BLOCKS ≤ r.idx := of_decide_eq_true hidx
  refine ⟨⟨h.index, h.modify ?_⟩, ?_⟩
  · intro q hq
    cases hp.symm.trans hq
    exact (h.count p (mem_of_getElem? hp)).give hidx' hr hbit
  · have hsum := clearSlots_modify (f := fun q => q.give r.idx) hp
    have hnot : r.idx ∉ p.clear := by
      rw [mem_clear, hbit]
      simp
    rw [clear_give hidx' hr, Finset.card_insert_of_notMem hnot] at hsum
    show clearSlots (s.pools.modify r.pool _) = clearSlots s.pools + 1
    omega

theorem Buddy.Slots.unlinkBlock (h : s.Slots) (node : FreeBlock) : (s.unlinkBlock node).Slots := by
  refine ⟨?_, h.count⟩
  intro k b hb
  unfold Buddy.unlinkBlock at hb
  simp only at hb
  by_cases hk : k = node.order
  · subst hk
    rw [Function.update_self] at hb
    exact h.index _ b (mem_of_mem_eraseP hb)
  · rw [Function.update_of_ne hk] at hb
    exact h.index k b hb

theorem Buddy.Slots.linkBlock (h : s.Slots) {node : FreeBlock}
    (hn : FREEBLOCK_HEADER_BLOCKS ≤ node.ref.idx ∧ node.ref.idx < FREEBLOCK_POOL_SIZE) :
    (s.linkBlock node).Slots := by
  refine ⟨?_, h.count⟩
  intro k b hb
  rcases mem_linkBlock.mp hb with ⟨rfl, -⟩ | hb
  · exact hn
  · exact h.index k b hb

theorem Buddy.Slots.attachPool (h : s.Slots) (a : ℕ) : (s.attachPool (initPool a)).Slots ∧
      (s.attachPool (initPool a)).freeSlots = s.freeSlots + 508 := by
  refine ⟨⟨h.index, ?_⟩, ?_⟩
  · intro p hp
    rcases mem_append.mp hp with hp | hp
    · exact h.count p hp
    · obtain rfl := mem_singleton.mp hp
      exact counted_initPool a
  · show clearSlots (s.pools ++ [initPool a]) = clearSlots s.pools + 508
    simp [clearSlots, card_clear_initPool]

end Slots

/-! ## The contracts, each over its callee -/

/-- The index of a slot that a block may sit in. -/
def BlockRef.Valid (r : BlockRef) : Prop :=
  FREEBLOCK_HEADER_BLOCKS ≤ r.idx ∧ r.idx < FREEBLOCK_POOL_SIZE

/-- A slot request keeps the counters right. -/
def AllocSlots (alloc : Buddy → Except Halt (Result BlockRef × Buddy)) : Prop :=
  ∀ s r s', s.Desc → s.Slots → alloc s = .ok (r, s') →
    s'.Slots ∧ ∀ ref, r = .ok ref → ref.Valid

/-- The same for `put_page_in_order`. -/
def PutSlots (put : Buddy → ℕ → ℕ → Except Halt Buddy) : Prop :=
  ∀ s a k s', s.Desc → s.Slots → put s a k = .ok s' → s'.Slots

/-- The same for `fetch_frame_order`. -/
def FetchSlots (fetch : Buddy → ℕ → Except Halt (Result ℕ × Buddy)) : Prop :=
  ∀ s k r s', s.Desc → s.Slots → fetch s k = .ok (r, s') → s'.Slots

section Contracts

variable {grow : Prop} {alloc : Buddy → Except Halt (Result BlockRef × Buddy)}
  {put : Buddy → ℕ → ℕ → Except Halt Buddy}
  {fetch : Buddy → ℕ → Except Halt (Result ℕ × Buddy)}

variable {s s' : Buddy}

theorem Merged.slots {ref : BlockRef} {b : FreeBlock} (h : Merged s ref b s')
    (hs : s.Slots) (href : ref.Valid) (hb : b.ref.Valid) :
    s'.Slots ∧ s'.freeSlots = s.freeSlots + 2 := by
  obtain ⟨t, ht, hs'⟩ := h.freed
  obtain ⟨hst, hfree⟩ := (hs.unlinkBlock b).freeFreeblock href.2 ht
  obtain ⟨hslots, hfree'⟩ := hst.freeFreeblock hb.2 hs'
  refine ⟨hslots, ?_⟩
  have hsame : (s.unlinkBlock b).freeSlots = s.freeSlots := rfl
  omega

theorem putLoop_slots (hk : AllocKeeps grow alloc) (ha : AllocSlots alloc) : ∀ n s a k s',
    n + k = MAX_BUDDY_ORDER + 1 → s.Desc → s.Slots → putLoop alloc n s a k = .ok s' → s'.Slots := by
  intro n
  induction n with
  | zero =>
    intro s a k s' _ _ hs h
    cases h
    exact hs
  | succ n ih =>
    intro s a k s' hnk hd hs h
    obtain ⟨ref, s₁, halloc, hcase⟩ := putLoop_succ_eq_ok h
    obtain ⟨hs₁, hvalid⟩ := ha s _ s₁ hd hs halloc
    obtain ⟨hkeep, -, hslot⟩ := hk s _ s₁ hd halloc
    obtain ⟨-, hfree⟩ := hslot ref rfl
    rcases hcase with ⟨-, rfl⟩ | ⟨b, s₂, -, hfind, hmerge, hrest⟩
    · exact hs₁.linkBlock (hvalid ref rfl)
    rw [unlinkBlock_linkBlock hfree] at hmerge
    obtain ⟨hmem, -⟩ := findBuddyNode_eq_some hfree (show k ≤ _ by omega) hfind
    obtain ⟨hkeep₂, -, -⟩ := hmerge.spec grow hkeep.desc hfree hmem
    obtain ⟨hs₂, -⟩ := hmerge.slots hs₁ (hvalid ref rfl) (hs₁.index _ b hmem)
    exact ih s₂ _ (k + 1) s' (by omega) hkeep₂.desc hs₂ hrest

theorem putPageInOrderWith_slots (hk : AllocKeeps grow alloc) (ha : AllocSlots alloc) :
    PutSlots (putPageInOrderWith alloc) := by
  intro s a k s' hd hs h
  rcases putPageInOrderWith_eq_ok h with ⟨-, rfl⟩ | ⟨-, hmax, -, hloop⟩
  · exact hs
  · exact putLoop_slots hk ha _ s a k s' (by omega) hd hs hloop

theorem splitLoop_slots (hk : PutKeeps grow put) (hp : PutSlots put) (a k : ℕ) : ∀ d s s',
    s.Desc → s.Slots → splitLoop put a k d s = .ok s' → s'.Slots := by
  intro d
  induction d with
  | zero =>
    intro s s' _ hs h
    cases h
    exact hs
  | succ d ih =>
    intro s s' hd hs h
    obtain ⟨t, ht, h⟩ := bind_eq_ok_iff.mp h
    exact ih t s' (hk s _ _ t hd ht).1.desc (hp s _ _ t hd hs ht) h

theorem fetchFrameOrderWith_slots (hk : PutKeeps grow put) (hp : PutSlots put) :
    FetchSlots (fetchFrameOrderWith put) := by
  intro s k r s' hd hs h
  rcases fetchFrameOrderWith_eq_ok h with ⟨-, rfl⟩ | ⟨j, node, t, -, hj, hmem, -, ht, hsplit⟩
  · exact hs
  · obtain ⟨hst, -⟩ := (hs.unlinkBlock node).freeFreeblock (hs.index j node hmem).2 ht
    obtain ⟨hkeep, -, -⟩ := fetch_unlink_keeps grow hd hmem hj ht
    exact splitLoop_slots hk hp node.paddr k (j - k) t s' hkeep.desc hst hsplit

theorem addNewPoolWith_slots (hf : FetchSlots fetch) {r : Result Unit}
    (hd : s.Desc) (hs : s.Slots) (h : addNewPoolWith fetch s = .ok (r, s')) : s'.Slots := by
  rcases addNewPoolWith_eq_ok h with ⟨e, -, hfetch⟩ | ⟨a, t, -, hfetch, rfl⟩
  · exact hf s _ _ s' hd hs hfetch
  · exact ((hf s _ _ t hd hs hfetch).attachPool a).1

variable {add : Buddy → Except Halt (Result Unit × Buddy)}

theorem allocFreeblockWith_takes
    {r : Result BlockRef} (h : allocFreeblockWith add s = .ok (r, s')) :
    ∃ t, (t = s ∨ ∃ res, add s = .ok (res, t)) ∧ ((∃ e, r = .error e ∧ s' = t) ∨
      ∃ ref p, r = .ok ref ∧ t.pools[ref.pool]? = some p ∧ ref.idx ∈ p.clear ∧
        s' = t.takeSlot ref) := by
  unfold allocFreeblockWith at h
  split at h
  · rename_i ref hslot
    obtain ⟨p, hp, hidx⟩ := findSlot_mem hslot
    cases h
    exact ⟨s, .inl rfl, .inr ⟨ref, p, rfl, hp, hidx, rfl⟩⟩
  obtain ⟨⟨res, t⟩, hadd, h⟩ := bind_eq_ok_iff.mp h
  refine ⟨t, .inr ⟨res, hadd⟩, ?_⟩
  cases res with
  | error e =>
    cases h
    exact .inl ⟨e, rfl, rfl⟩
  | ok u =>
    simp only at h
    split at h
    · cases h
    rename_i tail htail
    split at h
    · cases h
      exact .inl ⟨_, rfl, rfl⟩
    · rename_i idx hidx
      cases h
      refine .inr ⟨⟨t.pools.length - 1, idx⟩, tail, rfl, ?_, firstClear_mem hidx, rfl⟩
      rw [← htail, getLast?_eq_getElem?]

theorem allocFreeblockWith_slots
    (ha : ∀ s r s', s.Desc → s.Slots → add s = .ok (r, s') → s'.Slots) :
    AllocSlots (allocFreeblockWith add) := by
  intro s r s' hd hs h
  obtain ⟨t, hadd, hcase⟩ := allocFreeblockWith_takes h
  have ht : t.Slots := by
    rcases hadd with rfl | ⟨res, hadd⟩
    · exact hs
    · exact ha s res t hd hs hadd
  rcases hcase with ⟨e, rfl, rfl⟩ | ⟨ref, p, rfl, hp, hidx, rfl⟩
  · refine ⟨ht, ?_⟩
    intro ref href
    cases href
  · refine ⟨(ht.takeSlot hp hidx).1, ?_⟩
    intro ref' href
    cases href
    exact (mem_clear.mp hidx).1

end Contracts

/-! ## The recursive functions and the entry points -/

theorem allocFreeblock_slots : ∀ fuel, AllocSlots (allocFreeblock fuel) := by
  intro fuel
  induction fuel with
  | zero =>
    apply allocFreeblockWith_slots
    intro s r s' _ _ h
    cases h
  | succ fuel ih =>
    apply allocFreeblockWith_slots
    intro s r s' hd hs h
    exact addNewPoolWith_slots (fetchFrameOrderWith_slots (putOrder_keeps fuel)
      (putPageInOrderWith_slots (allocFreeblock_keeps fuel) ih)) hd hs h

theorem putOrder_slots (fuel : ℕ) : PutSlots (putOrder fuel) :=
  putPageInOrderWith_slots (allocFreeblock_keeps fuel) (allocFreeblock_slots fuel)

theorem fetchOrder_slots (fuel : ℕ) : FetchSlots (fetchOrder fuel) :=
  fetchFrameOrderWith_slots (putOrder_keeps fuel) (putOrder_slots fuel)

theorem addMemoryLoop_slots (fuel : ℕ) : ∀ n remain addr s s', s.Desc → s.Slots →
    addMemoryLoop (putOrder fuel) n remain addr s = .ok s' → s'.Desc ∧ s'.Slots := by
  intro n
  induction n with
  | zero =>
    intro remain addr s s' hd hs h
    cases h
    exact ⟨hd, hs⟩
  | succ n ih =>
    intro remain addr s s' hd hs h
    rcases addMemoryLoop_succ_eq_ok h with ⟨-, rfl⟩ | ⟨order, t, -, ht, hrest⟩
    · exact ⟨hd, hs⟩
    · exact ih _ _ t s' (putOrder_keeps fuel s _ _ t hd ht).1.desc
        (putOrder_slots fuel s _ _ t hd hs ht) hrest

theorem putPage_slots {s s' : Buddy} {a : ℕ} (hd : s.Desc) (hs : s.Slots)
    (h : s.putPage a n = .ok s') : s'.Slots := by
  rcases putPages_eq_ok h with ⟨-, rfl⟩ | ⟨-, -, hadd⟩
  · exact hs
  · exact (addMemoryLoop_slots _ n n a _ s' (hd.setFreePages _) (hs.setFreePages _) hadd).2

theorem getFreePage_slots {s s' : Buddy} {r : Result ℕ} (hd : s.Desc) (hs : s.Slots)
    (h : s.getFreePage n = .ok (r, s')) : s'.Slots := by
  rcases getPages_eq_ok h with ⟨e, -, ⟨rfl, -⟩ | hfetch⟩ |
    ⟨a, t, u, res, hn, hmax, hfetch, hrest, -, hexp, -⟩
  · exact hs
  · exact fetchOrder_slots _ s _ _ s' hd hs hfetch
  · have hdt := (fetchOrder_keeps _ s _ _ t hd hfetch).1.desc
    have hst := fetchOrder_slots _ s _ _ t hd hs hfetch
    have hu : u.Desc ∧ u.Slots := by
      rcases hrest with ⟨-, hadd⟩ | ⟨-, rfl⟩
      · exact addMemoryLoop_slots _ _ _ _ t u hdt hst hadd
      · exact ⟨hdt, hst⟩
    rcases expandPool_eq_ok hexp with ⟨-, rfl⟩ | ⟨m, -, hadd⟩
    · exact hu.2.setFreePages _
    · exact addNewPoolWith_slots (fetchOrder_slots m) (hu.1.setFreePages _)
        (hu.2.setFreePages _) hadd

theorem getFreePagesInOrder_slots {s s' : Buddy} {k : ℕ} {r : Result ℕ} (hd : s.Desc)
    (hs : s.Slots) (h : s.getFreePagesInOrder k = .ok (r, s')) : s'.Slots := by
  rcases getOrder_eq_ok h with ⟨-, rfl⟩ | hfetch
  · exact hs
  · exact fetchOrder_slots _ s k r s' hd hs hfetch

/-! ## Runs -/

/-- What holds of the slots and of the ranges handed out in every world of a run. -/
structure PageWorld.Kept (w : PageWorld) : Prop where
  slots : w.st.Slots
  aligned : ∀ r ∈ w.live, PAGESIZE ∣ r.1

theorem PageStep.kept {w w' : PageWorld} (hstep : PageStep w w') (hinv : w.Inv) (hk : w.Kept) :
    w'.Kept := by
  have hd := hinv.wf.desc
  have herase : ∀ r, ∀ x ∈ w.live.erase r, PAGESIZE ∣ x.1 := fun r x hx =>
    hk.aligned x (mem_of_mem_erase hx)
  cases hstep with
  | get h =>
    refine ⟨getFreePage_slots hd hk.slots h, ?_⟩
    rintro x (_ | ⟨_, hx⟩)
    · rcases (getFreePage_owned hinv.wf h).2 with ⟨⟨e, he⟩, -⟩ | ⟨a, ha | ⟨e, he⟩, -, hal, -⟩
      · cases he
      · cases ha
        exact hal
      · cases he
    · exact hk.aligned x hx
  | getFails h => exact ⟨getFreePage_slots hd hk.slots h, hk.aligned⟩
  | getOrder h =>
    refine ⟨getFreePagesInOrder_slots hd hk.slots h, ?_⟩
    rintro x (_ | ⟨_, hx⟩)
    · exact ((getFreePagesInOrder_owned hinv.wf h).2.2 _ rfl).2.1
    · exact hk.aligned x hx
  | getOrderFails h => exact ⟨getFreePagesInOrder_slots hd hk.slots h, hk.aligned⟩
  | put hr h => exact ⟨putPage_slots hd hk.slots h, herase _⟩
  | putOrder hr h => exact ⟨putOrder_slots _ _ _ _ _ hd hk.slots h, herase _⟩
  | donate hne hal hfresh h => exact ⟨putPage_slots hd hk.slots h, hk.aligned⟩
  | addRange hne hal hfresh h =>
    exact ⟨(addMemoryLoop_slots _ _ _ _ _ _ hd hk.slots h).2, hk.aligned⟩

/-- **The counters of the pools are right in every run.** -/
theorem PageWorld.kept_of_run {pool0 : ℕ} {w : PageWorld}
    (hrun : ReflTransGen PageStep (PageWorld.init pool0) w) : w.Inv ∧ w.Kept := by
  induction hrun with
  | refl =>
    exact ⟨PageWorld.inv_init pool0, Buddy.slots_preInit pool0, fun _ hr => absurd hr not_mem_nil⟩
  | tail _ hstep ih => exact ⟨PageWorld.Inv.step _ _ ih.1 hstep, hstep.kept ih.1 ih.2⟩

end Sustcore
