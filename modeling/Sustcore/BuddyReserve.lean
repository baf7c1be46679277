/-
# Putting pages back needs descriptors

`put_page_in_order` takes a descriptor slot for the block it puts.  If there is none, a new pool is
made of four free pages, and splitting the block these come from takes slots again.  This module
says what such an expansion does (`allocFreeblock_expands`): the pages it takes are `poolPages`,
and afterwards there are slots enough for everything that is still to be put.

From this follows when `put_page` returns a range to the free lists
(`put_page_returns_range`): block by block there must be a slot, or a free block of four pages
whose pages are not those of the range.
-/
import Sustcore.BuddySlots
import Sustcore.BuddyFailures

namespace Sustcore

open Dyadic Relation Function Set Option Except

/-! ## Putting a block while there are slots -/

variable {s : Buddy}

theorem Buddy.InUse.freeFreeblock_ok {r : BlockRef} (h : s.InUse r) (hr : r.Valid) :
    ∃ s', s.freeFreeblock r = .ok s' := by
  obtain ⟨p, hp, hbit⟩ := h
  unfold Buddy.freeFreeblock
  rw [hp]
  simp only [hbit, decide_eq_true hr.1]
  exact ⟨_, rfl⟩

/-- What a put leaves behind: no new pool, at most one slot less, and a block of at least the
order of the one put. -/
structure PutPlain (s : Buddy) (k : ℕ) (t : Buddy) : Prop where
  pools : t.pools.map (·.paddr) = s.pools.map (·.paddr)
  slots : s.freeSlots ≤ t.freeSlots + 1
  listed : ∃ j, k ≤ j ∧ j ≤ MAX_BUDDY_ORDER ∧ t.freeArea j ≠ []

variable {k a remain addr : ℕ} {s t : Buddy}

theorem PutPlain.poolBytes (h : PutPlain s k t) :
    t.poolBytes = s.poolBytes := poolBytes_congr h.pools

variable {fuel : ℕ}

/-- Once the first slot is there, the merge loop comes to its end: every merge frees two slots and
needs one. -/
theorem putLoop_returns : ∀ n s u ref p a k, n + k = MAX_BUDDY_ORDER →
    allocFreeblock fuel s = .ok (.ok ref, u.takeSlot ref) → u.Desc → u.Slots →
    u.pools[ref.pool]? = some p → ref.idx ∈ p.clear →
      ∃ t, putLoop (allocFreeblock fuel) (n + 1) s a k = .ok t ∧ PutPlain u k t := by
  intro n
  induction n with
  | zero =>
    intro s u ref p a k hk halloc _ hs hp hidx
    rw [zero_add] at hk
    refine ⟨(u.takeSlot ref).linkBlock ⟨ref, a, k⟩, ?_, map_paddr_takeSlot u ref, ?_, k, le_rfl,
      hk.le, List.ne_nil_of_mem (mem_linkBlock.mpr (.inl ⟨rfl, rfl⟩))⟩
    · rw [putLoop, halloc]
      show (if k = MAX_BUDDY_ORDER then _ else _) = _
      rw [if_pos hk]
      rfl
    · exact (hs.takeSlot hp hidx).2.ge
  | succ n ih =>
    intro s u ref p a k hk halloc hd hs hp hidx
    have hbit := (FreeBlockPool.mem_clear.mp hidx).2
    have hvalid : ref.Valid := (FreeBlockPool.mem_clear.mp hidx).1
    have huse : (u.takeSlot ref).InUse ref := inUse_takeSlot_self hp
    have hfree : (u.takeSlot ref).Unlinked ref := hd.unlinked_of_clear hp hbit
    obtain ⟨hs₁, hcount⟩ := hs.takeSlot hp hidx
    rw [putLoop, halloc]
    show ∃ t, (if k = MAX_BUDDY_ORDER then _ else _) = _ ∧ _
    rw [if_neg (show k ≠ MAX_BUDDY_ORDER by omega)]
    cases hfind : ((u.takeSlot ref).linkBlock ⟨ref, a, k⟩).findBuddyNode ⟨ref, a, k⟩ with
    | none =>
      exact ⟨_, rfl, map_paddr_takeSlot u ref, hcount.ge, k, le_rfl, by omega,
        List.ne_nil_of_mem (mem_linkBlock.mpr (.inl ⟨rfl, rfl⟩))⟩
    | some b =>
      obtain ⟨hmem, -⟩ := findBuddyNode_eq_some hfree (show k ≤ _ by omega) hfind
      have hne : b.ref ≠ ref := hfree _ b hmem
      have hbvalid : b.ref.Valid := hs.index _ b hmem
      -- both halves give their slots back
      obtain ⟨t₁, ht₁⟩ : ∃ t, ((u.takeSlot ref).unlinkBlock b).freeFreeblock ref = .ok t :=
        Buddy.InUse.freeFreeblock_ok huse hvalid
      have huse' : t₁.InUse b.ref :=
        Buddy.InUse.freeFreeblock ht₁ ((hd.takeSlot ref).live _ b hmem) hne
      obtain ⟨t₂, ht₂⟩ := huse'.freeFreeblock_ok hbvalid
      have hmerge : Merged (u.takeSlot ref) ref b t₂ := ⟨t₁, ht₁, ht₂⟩
      obtain ⟨hkeep, -, -⟩ := hmerge.spec False (hd.takeSlot ref) hfree hmem
      obtain ⟨hs₂, hcount₂⟩ := hmerge.slots hs₁ hvalid hbvalid
      obtain ⟨ref₂, hslot⟩ := ne_none_iff_exists'.mp
        (hs₂.findSlot_ne_none.mpr (by omega))
      obtain ⟨p₂, hp₂, hidx₂⟩ := findSlot_mem hslot
      obtain ⟨t, ht, hplain⟩ := ih t₂ t₂ ref₂ p₂ (if b.paddr < a then b.paddr else a) (k + 1)
        (by omega) (allocFreeblock_of_slot fuel hslot) hkeep.desc hs₂ hp₂ hidx₂
      refine ⟨t, ?_, ?_, ?_, ?_⟩
      · have hun : ((u.takeSlot ref).linkBlock ⟨ref, a, k⟩).unlinkBlock ⟨ref, a, k⟩ =
            u.takeSlot ref := unlinkBlock_linkBlock hfree
        simp only [hun]
        exact bind_eq_ok_iff.mpr ⟨t₁, ht₁, bind_eq_ok_iff.mpr ⟨t₂, ht₂, ht⟩⟩
      · rw [hplain.pools, map_paddr_freeFreeblock ht₂, map_paddr_freeFreeblock ht₁]
        exact map_paddr_takeSlot u ref
      · have := hplain.slots
        omega
      · obtain ⟨j, hj, hmax, hne⟩ := hplain.listed
        exact ⟨j, by omega, hmax, hne⟩

theorem putOrder_eq_putLoop (ha : a ≠ 0)
    (hk : k ≤ MAX_BUDDY_ORDER) (hal : blockSizeForOrder k ∣ a) :
    putOrder fuel s a k = putLoop (allocFreeblock fuel) (MAX_BUDDY_ORDER - k + 1) s a k := by
  unfold putOrder putPageInOrderWith
  rw [if_neg ha, decide_eq_true hk, decide_eq_true (Nat.mod_eq_zero_of_dvd hal),
    show MAX_BUDDY_ORDER + 1 - k = MAX_BUDDY_ORDER - k + 1 by omega]
  rfl

/-- **While there is a slot, a put returns** and attaches no pool. -/
theorem putOrder_of_slots (fuel : ℕ) (hd : s.Desc) (hs : s.Slots)
    (hfree : 0 < s.freeSlots) (ha : a ≠ 0) (hk : k ≤ MAX_BUDDY_ORDER) (hal : 2 ^ (k + 12) ∣ a) :
    ∃ t, putOrder fuel s a k = .ok t ∧ PutPlain s k t := by
  obtain ⟨ref, hslot⟩ := ne_none_iff_exists'.mp (hs.findSlot_ne_none.mpr hfree)
  obtain ⟨p, hp, hidx⟩ := findSlot_mem hslot
  rw [putOrder_eq_putLoop ha hk hal]
  exact putLoop_returns _ s s ref p a k (by omega) (allocFreeblock_of_slot fuel hslot) hd hs hp hidx

/-! ## The pages of a new pool -/

/-- The pages that an expansion makes into pools when it takes the block of order `j` at `a`: the
first four and, if the second half of the block has to be split as well, those of the expansion
that takes this half. -/
def poolPages : ℕ → ℕ → Set ℕ
  | 0, a => pageRange a FREEBLOCK_EXPAND_PAGES
  | j + 1, a => pageRange a FREEBLOCK_EXPAND_PAGES ∪
      if 3 ≤ j then poolPages j (a + blockSizeForOrder j) else ∅

variable {j : ℕ}

theorem poolPages_small (h : j ≤ 3) (a : ℕ) :
    poolPages j a = pageRange a FREEBLOCK_EXPAND_PAGES := by
  cases j with
  | zero => rfl
  | succ j => rw [poolPages, if_neg (by omega), union_empty]

theorem poolPages_succ (h : 3 ≤ j) (a : ℕ) : poolPages (j + 1) a =
    pageRange a FREEBLOCK_EXPAND_PAGES ∪ poolPages j (a + blockSizeForOrder j) := by
  rw [poolPages, if_pos h]

theorem poolPages_subset : ∀ {j : ℕ} (a : ℕ), 2 ≤ j → poolPages j a ⊆ block (j + 12) a := by
  intro j
  induction j with
  | zero => intro a h; omega
  | succ j ih =>
    intro a h
    have hfirst : pageRange a FREEBLOCK_EXPAND_PAGES ⊆ block (j + 1 + 12) a := by
      rw [pageRange_pool]
      intro x hx
      have hpow : 2 ^ (2 + 12) ≤ 2 ^ (j + 1 + 12) := Nat.pow_le_pow_right (by omega) (by omega)
      rw [mem_block] at hx ⊢
      omega
    by_cases hj : 3 ≤ j
    · rw [poolPages_succ hj]
      refine union_subset hfirst ((ih _ (by omega)).trans ?_)
      rw [block_succ (j + 12)]
      exact subset_union_right
    · rwa [poolPages_small (by omega)]

/-- The first block of the lowest non-empty list of order at least `k`. -/
structure Buddy.Lowest (s : Buddy) (k j : ℕ) (node : FreeBlock) : Prop where
  le : k ≤ j
  le_max : j ≤ MAX_BUDDY_ORDER
  below : ∀ i, k ≤ i → i < j → s.freeArea i = []
  head : ∃ rest, s.freeArea j = node :: rest

theorem Buddy.Lowest.mem {node : FreeBlock} (h : s.Lowest k j node) : node ∈ s.freeArea j := by
  obtain ⟨rest, hrest⟩ := h.head
  rw [hrest]
  exact List.mem_cons_self

theorem Buddy.Lowest.unique {j j' : ℕ} {node node' : FreeBlock} (h : s.Lowest 2 j node)
    (h' : s.Lowest 2 j' node') : j = j' ∧ node = node' := by
  obtain ⟨rest, hrest⟩ := h.head
  obtain ⟨rest', hrest'⟩ := h'.head
  rcases lt_trichotomy j j' with hlt | rfl | hlt
  · rw [h'.below j h.le hlt] at hrest
    cases hrest
  · rw [hrest] at hrest'
    exact ⟨rfl, (List.cons.inj hrest').1⟩
  · rw [h.below j' h'.le hlt] at hrest'
    cases hrest'

/-- The list that `fetch_frame_order` takes four pages from. -/
theorem Buddy.Lowest.find {node : FreeBlock} (h : s.Lowest 2 j node) :
    (List.range' 2 (MAX_BUDDY_ORDER + 1 - 2)).find? (fun k => !(s.freeArea k).isEmpty) =
      some j := by
  rw [List.find?_range'_eq_some]
  have hmax := h.le_max
  refine ⟨?_, List.mem_range'_1.mpr ⟨h.le, by omega⟩, ?_⟩
  · simpa using List.ne_nil_of_mem h.mem
  · intro i hi hij
    simp [h.below i hi hij]

/-- There is such a block, or no block of four pages at all. -/
theorem Buddy.lowest_or (s : Buddy) : (∃ j node, s.Lowest 2 j node) ∨ s.NoBlock 2 := by
  by_cases hnone : s.NoBlock 2
  · exact .inr hnone
  have hex : ∃ k, 2 ≤ k ∧ k ≤ MAX_BUDDY_ORDER ∧ s.freeArea k ≠ [] := by
    unfold Buddy.NoBlock at hnone
    push Not at hnone
    exact hnone
  obtain ⟨h2, hmax, hne⟩ := Nat.find_spec hex
  obtain ⟨node, rest, hrest⟩ := List.exists_cons_of_ne_nil hne
  refine .inl ⟨Nat.find hex, node, h2, hmax, ?_, rest, hrest⟩
  intro i hi hlt
  by_contra hi'
  exact Nat.find_min hex hlt ⟨hi, by omega, hi'⟩

/-! ## What an expansion does -/

theorem poolBytes_attachPool (h : s.pools ≠ []) (a : ℕ) :
    (s.attachPool (initPool a)).poolBytes = s.poolBytes ∪ pageRange a FREEBLOCK_EXPAND_PAGES := by
  have haddrs : (s.attachPool (initPool a)).poolAddrs = s.poolAddrs ++ [a] := by
    obtain ⟨p, ps, hps⟩ := List.exists_cons_of_ne_nil h
    simp [Buddy.poolAddrs, Buddy.attachPool, hps, initPool]
  ext x
  unfold Buddy.poolBytes
  rw [haddrs]
  simp only [List.mem_append, List.mem_singleton]
  constructor
  · rintro ⟨b, hb | rfl, hx⟩
    · exact .inl ⟨b, hb, hx⟩
    · exact .inr hx
  · rintro (⟨b, hb, hx⟩ | hx)
    · exact ⟨b, .inl hb, hx⟩
    · exact ⟨a, .inr rfl, hx⟩

theorem splitLoop_succ {put : Buddy → ℕ → ℕ → Except Halt Buddy} {d : ℕ}
    (h : put s (a + blockSizeForOrder (k + d)) (k + d) = .ok t) :
    splitLoop put a k (d + 1) s = splitLoop put a k d t := by
  rw [splitLoop, h]
  rfl

theorem putOrder_half (hwf : s.WF) (hs : s.Slots) (hdis : Disjoint (block (k + 1 + 12) a) s.owned)
    (ht : putOrder fuel s (a + blockSizeForOrder k) k = .ok t) :
    t.WF ∧ t.Slots ∧ Disjoint (block (k + 12) a) t.owned := by
  rw [block_succ, disjoint_union_left] at hdis
  obtain ⟨hwft, howned⟩ := putOrder_owned fuel s _ _ t hwf (add_blockSize_ne_zero _ _) hdis.2 ht
  refine ⟨hwft, putOrder_slots fuel s _ _ t hwf.desc hs ht, ?_⟩
  rw [howned]
  exact disjoint_union_right.mpr ⟨hdis.1, block_halves_disjoint _ _⟩

theorem splitLoop_of_slots (fuel : ℕ) : ∀ d s, s.WF → s.Slots → d ≤ s.freeSlots →
    2 + d ≤ MAX_BUDDY_ORDER → 2 ^ (2 + d + 12) ∣ a → Disjoint (block (2 + d + 12) a) s.owned →
      ∃ t, splitLoop (putOrder fuel) a 2 d s = .ok t ∧ t.poolBytes = s.poolBytes ∧
        s.freeSlots ≤ t.freeSlots + d := by
  intro d
  induction d with
  | zero => intro s _ _ _ _ _ _; exact ⟨s, rfl, rfl, le_rfl⟩
  | succ d ih =>
    intro s hwf hs hle hmax hal hdis
    have hhalf : 2 ^ (2 + d + 12) ∣ a := (pow_dvd_pow 2 (by omega)).trans hal
    obtain ⟨t, ht, hplain⟩ := putOrder_of_slots fuel (a := a + blockSizeForOrder (2 + d))
      (k := 2 + d) hwf.desc hs (by omega) (add_blockSize_ne_zero _ _) (by omega)
      (dvd_add hhalf (dvd_refl _))
    obtain ⟨hwft, hst, hdist⟩ := putOrder_half hwf hs hdis ht
    have hslots := hplain.slots
    obtain ⟨t', ht', hpool, hcount⟩ := ih t hwft hst (by omega) (by omega) hhalf hdist
    exact ⟨t', (splitLoop_succ ht).trans ht', hpool.trans hplain.poolBytes, by omega⟩

/-- The state in which `alloc_freeblock` takes a slot of the pool it has made. -/
structure Expanded (s : Buddy) (j : ℕ) (a : ℕ) (u : Buddy) (ref : BlockRef) : Prop where
  wf : u.WF
  slots : u.Slots
  clear : ∃ p, u.pools[ref.pool]? = some p ∧ ref.idx ∈ p.clear
  pages : u.poolBytes = s.poolBytes ∪ poolPages j a
  enough : 508 ≤ u.freeSlots

/-- An expansion returns, unless the fuel runs out. -/
def Expands (fuel : ℕ) : Prop :=
  ∀ s j node, s.WF → s.Slots → s.freeSlots = 0 → s.Lowest 2 j node →
    allocFreeblock fuel s = .error .outOfFuel ∨ ∃ ref u,
      allocFreeblock fuel s = .ok (.ok ref, u.takeSlot ref) ∧ Expanded s j node.paddr u ref

section Expand

variable {fuel : ℕ} {s : Buddy} {j : ℕ} {node : FreeBlock}

theorem putOrder_expands (hexp : Expands fuel) (hwf : s.WF) (hs : s.Slots) (h0 : s.freeSlots = 0)
    (hlow : s.Lowest 2 j node) {a k : ℕ} (ha : a ≠ 0) (hk : k ≤ MAX_BUDDY_ORDER)
    (hal : blockSizeForOrder k ∣ a) :
    putOrder fuel s a k = .error .outOfFuel ∨ ∃ t, putOrder fuel s a k = .ok t ∧
      t.poolBytes = s.poolBytes ∪ poolPages j node.paddr ∧ 507 ≤ t.freeSlots := by
  rw [putOrder_eq_putLoop ha hk hal]
  rcases hexp s j node hwf hs h0 hlow with hfuel | ⟨ref, u, halloc, hu⟩
  · left
    rw [putLoop, hfuel]
    rfl
  right
  obtain ⟨p, hp, hidx⟩ := hu.clear
  obtain ⟨t, ht, hplain⟩ := putLoop_returns (MAX_BUDDY_ORDER - k) s u ref p a k (by omega) halloc
    hu.wf.desc hu.slots hp hidx
  have hslots := hplain.slots
  have henough := hu.enough
  exact ⟨t, ht, hplain.poolBytes.trans hu.pages, by omega⟩

/-- The first half put back by a split takes the slot that the block had. -/
theorem putOrder_upper (fuel : ℕ) {a i : ℕ} (hd : s.Desc) (hs : s.Slots) (h1 : s.freeSlots = 1)
    (hempty : ∀ k, 2 ≤ k → k ≤ i → s.freeArea k = []) (h2 : 2 ≤ i) (hi : i ≤ MAX_BUDDY_ORDER)
    (hal : blockSizeForOrder i ∣ a) :
    ∃ t ref, putOrder fuel s (a + blockSizeForOrder i) i = .ok t ∧ t.freeSlots = 0 ∧
      t.Lowest 2 i ⟨ref, a + blockSizeForOrder i, i⟩ ∧ t.poolBytes = s.poolBytes := by
  obtain ⟨ref, hslot⟩ := ne_none_iff_exists'.mp (hs.findSlot_ne_none.mpr (by omega))
  obtain ⟨p, hp, hidx⟩ := findSlot_mem hslot
  have hfree : (s.takeSlot ref).Unlinked ref :=
    hd.unlinked_of_clear hp (FreeBlockPool.mem_clear.mp hidx).2
  have hnone : ((s.takeSlot ref).linkBlock ⟨ref, a + blockSizeForOrder i, i⟩).findBuddyNode
      ⟨ref, a + blockSizeForOrder i, i⟩ = none := by
    rw [eq_none_iff_forall_ne_some]
    intro b hb
    obtain ⟨hmem, -⟩ := findBuddyNode_eq_some hfree hi hb
    have hmem' : b ∈ s.freeArea i := hmem
    rw [hempty i h2 le_rfl] at hmem'
    cases hmem'
  have hcount := (hs.takeSlot hp hidx).2
  refine ⟨_, ref, putOrder_plain hslot (add_blockSize_ne_zero _ _) hi
    (dvd_add hal (dvd_refl _)) (.inr hnone), ?_, ⟨h2, hi, ?_, [], ?_⟩, ?_⟩
  · show (s.takeSlot ref).freeSlots = 0
    omega
  · intro k hk hlt
    show update s.freeArea i _ k = []
    rw [update_of_ne (by omega)]
    exact hempty k hk hlt.le
  · show update s.freeArea i (linkInto _ (s.freeArea i)) i = _
    rw [update_self, hempty i h2 le_rfl]
    rfl
  · exact poolBytes_congr (map_paddr_takeSlot s ref)

/-- The split of an expansion: at most one more expansion takes place. -/
theorem splitLoop_expands (hexp : Expands fuel) {a : ℕ} (hwf : s.WF) (hs : s.Slots)
    (h1 : s.freeSlots = 1) (h2 : 2 ≤ j) (hmax : j ≤ MAX_BUDDY_ORDER)
    (hempty : ∀ k, 2 ≤ k → k < j → s.freeArea k = []) (hal : blockSizeForOrder j ∣ a)
    (hdis : Disjoint (block (j + 12) a) s.owned) :
    splitLoop (putOrder fuel) a 2 (j - 2) s = .error .outOfFuel ∨ ∃ t,
      splitLoop (putOrder fuel) a 2 (j - 2) s = .ok t ∧
        t.poolBytes ∪ pageRange a FREEBLOCK_EXPAND_PAGES = s.poolBytes ∪ poolPages j a := by
  by_cases hj : j ≤ 3
  · obtain ⟨t, ht, hpool, -⟩ := splitLoop_of_slots fuel (a := a) (j - 2) s hwf hs (by omega)
      (by omega) (by rwa [Nat.add_sub_cancel' h2]) (by rwa [Nat.add_sub_cancel' h2])
    exact .inr ⟨t, ht, by rw [hpool, poolPages_small hj]⟩
  obtain ⟨d, rfl⟩ : ∃ d, j = d + 4 := ⟨j - 4, by omega⟩
  have hhalf : 2 ^ (d + 3 + 12) ∣ a := (pow_dvd_pow 2 (by omega)).trans hal
  have hquarter : 2 ^ (d + 2 + 12) ∣ a := (pow_dvd_pow 2 (by omega)).trans hal
  -- the upper half goes into the slot that is left
  have hempty' : ∀ k, 2 ≤ k → k ≤ d + 3 → s.freeArea k = [] := fun k hk hle =>
    hempty k hk (by omega)
  obtain ⟨t, ref, ht, h0, hlow, hpool⟩ :=
    putOrder_upper fuel hwf.desc hs h1 hempty' (by omega) (by omega) hhalf
  obtain ⟨hwft, hst, hdist⟩ := putOrder_half hwf hs hdis ht
  have hloop : splitLoop (putOrder fuel) a 2 (d + 4 - 2) s =
      splitLoop (putOrder fuel) a 2 (d + 1) t := by
    rw [show d + 3 = 2 + (d + 1) by omega] at ht
    rw [show d + 4 - 2 = d + 1 + 1 by omega, splitLoop_succ ht]
  rw [hloop]
  -- the next put needs a pool of its own, made of the upper half
  rcases putOrder_expands hexp hwft hst h0 hlow (add_blockSize_ne_zero a (d + 2))
    (show d + 2 ≤ MAX_BUDDY_ORDER by omega) (dvd_add hquarter (dvd_refl _)) with
    hfuel | ⟨u, hu, hupool, hcount⟩
  · left
    rw [splitLoop, Nat.add_comm 2 d, hfuel]
    rfl
  obtain ⟨hwfu, hsu, hdisu⟩ := putOrder_half hwft hst hdist hu
  have hmax' : d + 4 ≤ 15 := hmax
  obtain ⟨v, hv, hvpool, -⟩ := splitLoop_of_slots fuel (a := a) d u hwfu hsu (by omega)
    (by omega) (by rwa [Nat.add_comm 2 d]) (by rwa [Nat.add_comm 2 d])
  rw [show d + 2 = 2 + d by omega] at hu
  refine .inr ⟨v, (splitLoop_succ hu).trans hv, ?_⟩
  have hpages : poolPages (d + 4) a = pageRange a FREEBLOCK_EXPAND_PAGES ∪
      poolPages (d + 3) (a + blockSizeForOrder (d + 3)) := poolPages_succ (by omega) a
  rw [hvpool, hupool, hpool, hpages, union_assoc, union_comm (poolPages _ _)]

theorem addNewPool_expands (hexp : Expands fuel) (hwf : s.WF) (hs : s.Slots)
    (h0 : s.freeSlots = 0) (hlow : s.Lowest 2 j node) :
    addNewPoolWith (fetchOrder fuel) s = .error .outOfFuel ∨ ∃ t : Buddy,
      addNewPoolWith (fetchOrder fuel) s = .ok (.ok (), t.attachPool (initPool node.paddr)) ∧
        t.WF ∧ t.Slots ∧ t.poolBytes ∪ pageRange node.paddr FREEBLOCK_EXPAND_PAGES =
          s.poolBytes ∪ poolPages j node.paddr := by
  obtain ⟨rest, hrest⟩ := hlow.head
  have hmem := hlow.mem
  have hvalid : node.ref.Valid := hs.index j node hmem
  -- the block leaves its list and gives its slot back
  have huse : (s.unlinkBlock node).InUse node.ref := hwf.desc.live j node hmem
  obtain ⟨t, ht⟩ := huse.freeFreeblock_ok hvalid
  obtain ⟨hst, hcount⟩ := (hs.unlinkBlock node).freeFreeblock hvalid.2 ht
  have hcount' : t.freeSlots = s.freeSlots + 1 := hcount
  obtain ⟨hkeep, -, -⟩ := fetch_unlink_keeps False hwf.desc hmem hlow.le_max ht
  have harea := freeFreeblock_freeArea ht
  have hpool := map_paddr_freeFreeblock ht
  have hwft : t.WF := ⟨hkeep.desc, (hwf.pages.unlinkBlock hwf.desc hmem).congr harea hpool⟩
  obtain ⟨-, hdis⟩ := owned_unlinkBlock hwf.desc hwf.pages hmem
  rw [← owned_congr harea hpool] at hdis
  have hempty : ∀ k, 2 ≤ k → k < j → t.freeArea k = [] := by
    intro k hk hlt
    rw [harea]
    show update s.freeArea node.order _ k = []
    rw [hwf.desc.order_eq j node hmem, update_of_ne (by omega)]
    exact hlow.below k hk hlt
  have hfetch : fetchOrder fuel s 2 = (do
      let u ← splitLoop (putOrder fuel) node.paddr 2 (j - 2) t
      pure (.ok node.paddr, u)) := by
    unfold fetchOrder fetchFrameOrderWith
    rw [hlow.find]
    simp only [hrest, ht]
    rfl
  have hadd : addNewPoolWith (fetchOrder fuel) s = (do
      let u ← splitLoop (putOrder fuel) node.paddr 2 (j - 2) t
      pure (.ok (), u.attachPool (initPool node.paddr))) := by
    unfold addNewPoolWith
    rw [show pages2order FREEBLOCK_EXPAND_PAGES = 2 from rfl, hfetch]
    cases splitLoop (putOrder fuel) node.paddr 2 (j - 2) t with
    | error e => rfl
    | ok u => rfl
  rw [hadd]
  rcases splitLoop_expands hexp hwft hst (by omega) hlow.le hlow.le_max hempty
    (hwf.pages.aligned j node hmem) hdis.symm with hfuel | ⟨u, hu, hpages⟩
  · left
    rw [hfuel]
    rfl
  right
  have hfetch' : fetchOrder fuel s 2 = .ok (.ok node.paddr, u) := by
    rw [hfetch, hu]
    rfl
  refine ⟨u, ?_, (fetchOrder_owned fuel s 2 _ u hwf hfetch').1,
    fetchOrder_slots fuel s 2 _ u hwf.desc hs hfetch', ?_⟩
  · rw [hu]
    rfl
  · rw [hpages, poolBytes_congr hpool]
    rfl

end Expand

/-- **Expansions return**, unless the fuel runs out. -/
theorem allocFreeblock_expands : ∀ fuel, Expands fuel := by
  intro fuel
  induction fuel with
  | zero =>
    intro s j node _ hs h0 _
    left
    rw [allocFreeblock, allocFreeblockWith, (findSlot_eq_none_iff hs.count).mpr h0]
    rfl
  | succ fuel ih =>
    intro s j node hwf hs h0 hlow
    have hcall : allocFreeblock (fuel + 1) s =
        allocFreeblockWith (addNewPoolWith (fetchOrder fuel)) s := rfl
    rw [hcall, allocFreeblockWith, (findSlot_eq_none_iff hs.count).mpr h0]
    rcases addNewPool_expands ih hwf hs h0 hlow with hfuel | ⟨t, hadd, hwft, hst, hpages⟩
    · left
      simp only [hfuel]
      rfl
    right
    have hwfu := (addNewPoolWith_owned (fetchOrder_owned fuel) hwf hadd).1
    obtain ⟨hsu, hcount⟩ := hst.attachPool node.paddr
    have hlast : (t.attachPool (initPool node.paddr)).pools.getLast? =
        some (initPool node.paddr) := by
      simp [Buddy.attachPool]
    have hclear : (initPool node.paddr).firstClear = some 4 := rfl
    refine ⟨⟨(t.attachPool (initPool node.paddr)).pools.length - 1, 4⟩,
      t.attachPool (initPool node.paddr), ?_, hwfu, hsu, ⟨initPool node.paddr, ?_,
      firstClear_mem hclear⟩, ?_, by omega⟩
    · simp only [hadd]
      simp only [bind, Except.bind, hlast]
      rfl
    · rw [← hlast, List.getLast?_eq_getElem?]
    · rw [poolBytes_attachPool hwft.pages.pools_ne, hpages]

/-- Without a slot and without four free pages a put hits its assertion. -/
theorem putOrder_asserts (hs : s.Slots) (h0 : s.freeSlots = 0)
    (hnone : s.NoBlock 2) (ha : a ≠ 0) (hk : k ≤ MAX_BUDDY_ORDER) (hal : blockSizeForOrder k ∣ a) :
    ∃ e, putOrder fuel s a k = .error e := by
  have hslot := (findSlot_eq_none_iff hs.count).mpr h0
  rw [putOrder_eq_putLoop ha hk hal, putLoop]
  cases fuel with
  | zero =>
    refine ⟨.outOfFuel, ?_⟩
    rw [allocFreeblock, allocFreeblockWith, hslot]
    rfl
  | succ fuel =>
    have hfetch : fetchOrder fuel s 2 = .ok (.error .outOfMemory, s) := by
      have hfind : (List.range' 2 (MAX_BUDDY_ORDER + 1 - 2)).find?
          (fun k => !(s.freeArea k).isEmpty) = none := by
        rw [List.find?_eq_none]
        intro i hi
        rw [List.mem_range'_1] at hi
        simp [hnone i hi.1 (by omega)]
      unfold fetchOrder fetchFrameOrderWith
      rw [hfind]
      rfl
    have hadd : addNewPoolWith (fetchOrder fuel) s = .ok (.error .outOfMemory, s) := by
      unfold addNewPoolWith
      rw [show pages2order FREEBLOCK_EXPAND_PAGES = 2 from rfl, hfetch]
      rfl
    have halloc : allocFreeblock (fuel + 1) s = .ok (.error .outOfMemory, s) := by
      have hcall : allocFreeblock (fuel + 1) s =
          allocFreeblockWith (addNewPoolWith (fetchOrder fuel)) s := rfl
      rw [hcall, allocFreeblockWith, hslot]
      simp only [hadd]
      rfl
    refine ⟨.assertFailed, ?_⟩
    rw [halloc]
    rfl

/-! ## Putting a range -/

/-- Where the descriptor of the next block comes from, with the pages `done` put before it: an
unused slot, or a new pool made of pages not in `done`. -/
def Buddy.SlotFor (s : Buddy) (done : Set ℕ) : Prop :=
  findSlot s.pools ≠ none ∨ ∃ j node, s.Lowest 2 j node ∧ Disjoint (poolPages j node.paddr) done

/-- There is a descriptor for every block that `add_memory_range` cuts the range into. -/
def BlocksFit (put : Buddy → ℕ → ℕ → Except Halt Buddy) : ℕ → ℕ → ℕ → Set ℕ → Buddy → Prop
  | 0, _, _, _, _ => True
  | n + 1, remain, addr, done, s => remain = 0 ∨
      s.SlotFor done ∧ ∀ t, put s addr (fitOrder remain addr MAX_BUDDY_ORDER 0) = .ok t →
        BlocksFit put n (remain - 2 ^ fitOrder remain addr MAX_BUDDY_ORDER 0)
          (addr + 2 ^ fitOrder remain addr MAX_BUDDY_ORDER 0 * PAGESIZE)
          (done ∪ pageRange addr (2 ^ fitOrder remain addr MAX_BUDDY_ORDER 0)) t

/-- `put_page` has a descriptor for every block of the range. -/
def Buddy.RangeFits (s : Buddy) (a n : ℕ) : Prop :=
  BlocksFit (putOrder (s.listedPages + n + 1)) n n a ∅ { s with freePages := s.freePages + n }

theorem fitOrder_aligned : ∀ n order, blockSizeForOrder order ∣ addr →
    blockSizeForOrder (fitOrder remain addr n order) ∣ addr ∧
      fitOrder remain addr n order ≤ order + n := by
  intro n
  induction n with
  | zero => intro order h; exact ⟨h, le_rfl⟩
  | succ n ih =>
    intro order h
    unfold fitOrder
    split
    · rename_i hnext
      have hsize : 2 ^ (order + 1) * PAGESIZE = blockSizeForOrder (order + 1) := by
        unfold blockSizeForOrder
        rw [Nat.pow_add 2 (order + 1) 12]
      obtain ⟨hal, hle⟩ := ih (order + 1) (Nat.dvd_of_mod_eq_zero (hsize ▸ hnext.2))
      exact ⟨hal, by omega⟩
    · exact ⟨h, by omega⟩

/-- **What one put does to the pools.**  It returns exactly if there is a slot or a block of four
pages, and it takes no pages for pools in the first case. -/
theorem putOrder_pools (hwf : s.WF) (hs : s.Slots) (ha : a ≠ 0)
    (hk : k ≤ MAX_BUDDY_ORDER) (hal : blockSizeForOrder k ∣ a)
    (hfuel : putOrder fuel s a k ≠ .error .outOfFuel) :
    (findSlot s.pools ≠ none ∧ ∃ t, putOrder fuel s a k = .ok t ∧ t.poolBytes = s.poolBytes) ∨
    (findSlot s.pools = none ∧ ∃ j node t, s.Lowest 2 j node ∧ putOrder fuel s a k = .ok t ∧
      t.poolBytes = s.poolBytes ∪ poolPages j node.paddr) ∨
    (findSlot s.pools = none ∧ s.NoBlock 2 ∧ ∃ e, putOrder fuel s a k = .error e) := by
  by_cases hslot : findSlot s.pools = none
  · have h0 : s.freeSlots = 0 := (findSlot_eq_none_iff hs.count).mp hslot
    rcases s.lowest_or with ⟨j, node, hlow⟩ | hnone
    · rcases putOrder_expands (allocFreeblock_expands fuel) hwf hs h0 hlow ha hk hal with
        hout | ⟨t, ht, hpool, -⟩
      · exact absurd hout hfuel
      · exact .inr (.inl ⟨hslot, j, node, t, hlow, ht, hpool⟩)
    · exact .inr (.inr ⟨hslot, hnone, putOrder_asserts hs h0 hnone ha hk hal⟩)
  · obtain ⟨t, ht, hplain⟩ := putOrder_of_slots fuel hwf.desc hs (hs.findSlot_ne_none.mp hslot) ha hk
      hal
    exact .inl ⟨hslot, t, ht, hplain.poolBytes⟩

theorem round_facts (h : remain ≠ 0) (hal : PAGESIZE ∣ addr)
    (hdis : Disjoint (pageRange addr remain) s.owned)
    (hk : fitOrder remain addr MAX_BUDDY_ORDER 0 = k) :
    2 ^ k ≤ remain ∧ k ≤ MAX_BUDDY_ORDER ∧ blockSizeForOrder k ∣ addr ∧ pageRange addr remain =
        pageRange addr (2 ^ k) ∪ pageRange (addr + 2 ^ k * PAGESIZE) (remain - 2 ^ k) ∧
      PAGESIZE ∣ addr + 2 ^ k * PAGESIZE ∧ Disjoint (block (k + 12) addr) s.owned ∧
      Disjoint (pageRange (addr + 2 ^ k * PAGESIZE) (remain - 2 ^ k)) s.owned := by
  have hfit : 2 ^ k ≤ remain := by
    rw [← hk]
    apply fitOrder_spec
    omega
  have hfits : blockSizeForOrder (fitOrder remain addr MAX_BUDDY_ORDER 0) ∣ addr ∧
      fitOrder remain addr MAX_BUDDY_ORDER 0 ≤ 0 + MAX_BUDDY_ORDER :=
    fitOrder_aligned MAX_BUDDY_ORDER 0 hal
  obtain ⟨halk, hmax⟩ := hfits
  rw [hk] at halk hmax
  have hsplit : pageRange addr remain =
      pageRange addr (2 ^ k) ∪ pageRange (addr + 2 ^ k * PAGESIZE) (remain - 2 ^ k) := by
    rw [← pageRange_append, Nat.add_sub_cancel' hfit]
  rw [hsplit, disjoint_union_left, pageRange_two_pow] at hdis
  exact ⟨hfit, by omega, halk, hsplit, dvd_add hal (dvd_mul_left _ _), hdis.1, hdis.2⟩

theorem rest_disjoint (hwf : s.WF) (hs : s.Slots)
    (hne : addr ≠ 0) (hblock : Disjoint (block (k + 12) addr) s.owned)
    (hrest : Disjoint (pageRange (addr + 2 ^ k * PAGESIZE) (remain - 2 ^ k)) s.owned)
    (ht : putOrder fuel s addr k = .ok t) : t.WF ∧ t.Slots ∧
      Disjoint (pageRange (addr + 2 ^ k * PAGESIZE) (remain - 2 ^ k)) t.owned := by
  obtain ⟨hwft, howned⟩ := putOrder_owned fuel s addr k t hwf hne hblock ht
  refine ⟨hwft, putOrder_slots fuel s addr k t hwf.desc hs ht, ?_⟩
  rw [howned, ← pageRange_two_pow]
  exact disjoint_union_right.mpr ⟨hrest, (pageRange_append_disjoint _ _ _).symm⟩

/-- Pools are never given back. -/
theorem addMemoryLoop_poolBytes : ∀ n remain addr s s', s.WF → s.Slots →
    addr ≠ 0 → PAGESIZE ∣ addr → Disjoint (pageRange addr remain) s.owned →
    addMemoryLoop (putOrder fuel) n remain addr s = .ok s' → s.poolBytes ⊆ s'.poolBytes := by
  intro n
  induction n with
  | zero =>
    intro remain addr s s' _ _ _ _ _ h
    cases h
    exact subset_rfl
  | succ n ih =>
    intro remain addr s s' hwf hs hne hal hdis h
    rw [addMemoryLoop] at h
    by_cases h0 : remain = 0
    · rw [if_pos h0] at h
      cases h
      exact subset_rfl
    rw [if_neg h0] at h
    obtain ⟨t, ht, h⟩ := bind_eq_ok_iff.mp h
    generalize hk : fitOrder remain addr MAX_BUDDY_ORDER 0 = k at ht h
    obtain ⟨-, hmax, halk, -, hal', hblock, hrest⟩ := round_facts h0 hal hdis hk
    obtain ⟨hwft, hst, hdist⟩ := rest_disjoint hwf hs hne hblock hrest ht
    refine subset_trans ?_ (ih _ _ t s' hwft hst (by omega) hal' hdist h)
    rcases putOrder_pools hwf hs hne hmax halk (by rw [ht]; simp) with
      ⟨-, t', ht', hpool⟩ | ⟨-, j, node, t', -, ht', hpool⟩ | ⟨-, -, e, he⟩
    · cases ht.symm.trans ht'
      exact hpool.ge
    · cases ht.symm.trans ht'
      rw [hpool]
      exact subset_union_left
    · rw [ht] at he
      cases he

/-- **A range is put back exactly if its blocks find descriptors**, round by round. -/
theorem addMemoryLoop_fits : ∀ n remain addr done s, remain ≤ n → s.WF → s.Slots →
    addr ≠ 0 → PAGESIZE ∣ addr → Disjoint (pageRange addr remain) s.owned →
    Disjoint done s.poolBytes → addMemoryLoop (putOrder fuel) n remain addr s ≠ .error .outOfFuel →
      ((∃ s', addMemoryLoop (putOrder fuel) n remain addr s = .ok s' ∧
        Disjoint (done ∪ pageRange addr remain) s'.poolBytes) ↔
          BlocksFit (putOrder fuel) n remain addr done s) := by
  intro n
  induction n with
  | zero =>
    intro remain addr done s hle _ _ _ _ _ hdone _
    obtain rfl : remain = 0 := by omega
    refine ⟨fun _ => trivial, fun _ => ⟨s, rfl, ?_⟩⟩
    rwa [pageRange_zero, union_empty]
  | succ n ih =>
    intro remain addr done s hle hwf hs hne hal hdis hdone hfuel
    rw [addMemoryLoop] at hfuel ⊢
    by_cases h0 : remain = 0
    · rw [if_pos h0]
      refine ⟨fun _ => .inl h0, fun _ => ⟨s, rfl, ?_⟩⟩
      rwa [h0, pageRange_zero, union_empty]
    rw [if_neg h0] at hfuel ⊢
    rw [BlocksFit, or_iff_right h0]
    dsimp only at hfuel ⊢
    generalize hk : fitOrder remain addr MAX_BUDDY_ORDER 0 = k at hfuel ⊢
    obtain ⟨hfit, hmax, halk, hsplit, hal', hblock, hrest⟩ := round_facts h0 hal hdis hk
    have hpos : 0 < 2 ^ k := Nat.two_pow_pos k
    have hput : putOrder fuel s addr k ≠ .error .outOfFuel := by
      intro hout
      rw [hout] at hfuel
      exact hfuel rfl
    -- what the later rounds do, once this block is put and the pages put so far are in no pool
    have hlater : ∀ t, putOrder fuel s addr k = .ok t →
        Disjoint (done ∪ pageRange addr (2 ^ k)) t.poolBytes →
        ((∃ s', (do
            let t ← putOrder fuel s addr k
            addMemoryLoop (putOrder fuel) n (remain - 2 ^ k) (addr + 2 ^ k * PAGESIZE) t) =
              .ok s' ∧ Disjoint (done ∪ pageRange addr remain) s'.poolBytes) ↔
          ∀ t, putOrder fuel s addr k = .ok t → BlocksFit (putOrder fuel) n (remain - 2 ^ k)
            (addr + 2 ^ k * PAGESIZE) (done ∪ pageRange addr (2 ^ k)) t) := by
      intro t ht hdone'
      obtain ⟨hwft, hst, hdist⟩ := rest_disjoint hwf hs hne hblock hrest ht
      rw [ht] at hfuel
      have hiff := ih (remain - 2 ^ k) (addr + 2 ^ k * PAGESIZE) (done ∪ pageRange addr (2 ^ k)) t
        (by omega) hwft hst (by omega) hal' hdist hdone' hfuel
      rw [union_assoc, ← hsplit] at hiff
      rw [ht]
      refine hiff.trans ⟨?_, fun h => h t rfl⟩
      intro h t' ht'
      cases ht'
      exact h
    have hpools : Disjoint (pageRange addr (2 ^ k)) s.poolBytes := by
      rw [pageRange_two_pow]
      exact hblock.mono_right subset_union_right
    rcases putOrder_pools hwf hs hne hmax halk hput with
      ⟨hslot, t, ht, hpool⟩ | ⟨hslot, j, node, t, hlow, ht, hpool⟩ | ⟨hslot, hnone, e, he⟩
    · have hslotFor : s.SlotFor done := .inl hslot
      rw [hlater t ht (by
        rw [hpool]
        exact disjoint_union_left.mpr ⟨hdone, hpools⟩)]
      exact ⟨fun h => ⟨hslotFor, h⟩, fun h => h.2⟩
    · have hsub : poolPages j node.paddr ⊆ s.owned :=
        (poolPages_subset node.paddr hlow.le).trans (block_subset_owned hlow.mem)
      by_cases hclash : Disjoint (poolPages j node.paddr) done
      · have hslotFor : s.SlotFor done := .inr ⟨j, node, hlow, hclash⟩
        rw [hlater t ht (by
          rw [hpool]
          refine disjoint_union_right.mpr ⟨disjoint_union_left.mpr ⟨hdone, hpools⟩,
            disjoint_union_left.mpr ⟨hclash.symm, ?_⟩⟩
          rw [pageRange_two_pow]
          exact hblock.mono_right hsub)]
        exact ⟨fun h => ⟨hslotFor, h⟩, fun h => h.2⟩
      · -- the new pool has taken pages of the range
        constructor
        · rintro ⟨s', hs', hdis'⟩
          rw [ht] at hs'
          obtain ⟨hwft, hst, hdist⟩ := rest_disjoint hwf hs hne hblock hrest ht
          have hmono := addMemoryLoop_poolBytes n _ _ t s' hwft hst (by omega) hal' hdist hs'
          refine absurd ?_ hclash
          refine (hdis'.mono subset_union_left (Set.Subset.trans ?_ hmono)).symm
          rw [hpool]
          exact subset_union_right
        · rintro ⟨hslot' | ⟨j', node', hlow', hdis'⟩, -⟩
          · exact absurd hslot hslot'
          · obtain ⟨rfl, rfl⟩ := hlow.unique hlow'
            exact absurd hdis' hclash
    · constructor
      · rintro ⟨s', hs', -⟩
        rw [he] at hs'
        cases hs'
      · rintro ⟨hslot' | ⟨j', node', hlow', -⟩, -⟩
        · exact absurd hslot hslot'
        · have hmem := hlow'.mem
          rw [hnone j' hlow'.le hlow'.le_max] at hmem
          cases hmem

/-- **When `put_page` puts a live range back.**  In every reachable state the call returns with
all pages of the range on the free lists exactly if each block of the range finds an unused
descriptor slot, or four free pages for a new pool that are not pages of the range. -/
theorem put_page_returns_range {pool0 : ℕ} {w : PageWorld}
    (hrun : ReflTransGen PageStep (PageWorld.init pool0) w) {a n : ℕ} (hr : (a, n) ∈ w.live) :
    (∃ s', w.st.putPage a n = .ok s' ∧ pageRange a n ⊆ s'.freeBytes) ↔ w.st.RangeFits a n := by
  obtain ⟨hinv, hkept⟩ := PageWorld.kept_of_run hrun
  have hne : a ≠ 0 := hinv.nonnull _ hr
  have hal : PAGESIZE ∣ a := hkept.aligned _ hr
  have hdis := hinv.live_disjoint hr
  by_cases h0 : n = 0
  · subst h0
    refine ⟨fun _ => trivial, fun _ => ⟨w.st, ?_, ?_⟩⟩
    · unfold Buddy.putPage putPages
      rw [if_pos (.inr rfl)]
      rfl
    · rw [pageRange_zero]
      exact empty_subset _
  have hcall : w.st.putPage a n = addMemoryLoop (putOrder (w.st.listedPages + n + 1)) n n a
      { w.st with freePages := w.st.freePages + n } := by
    unfold Buddy.putPage putPages
    rw [if_neg (by simp [hne, h0]), decide_eq_true (Nat.mod_eq_zero_of_dvd hal)]
    rfl
  have hiff := addMemoryLoop_fits n n a ∅ { w.st with freePages := w.st.freePages + n } le_rfl
    (hinv.wf.setFreePages _) (hkept.slots.setFreePages _) hne hal hdis
    (empty_disjoint _) (hcall ▸ putPage_ne_outOfFuel hinv.wf.desc a n)
  rw [← hcall, empty_union] at hiff
  refine Iff.trans ⟨?_, ?_⟩ hiff
  · rintro ⟨s', hs', hsub⟩
    have hpages := (putPage_owned hinv.wf hne hdis hs').1.pages
    exact ⟨s', hs', hpages.free_pool.mono_left hsub⟩
  · rintro ⟨s', hs', hdis'⟩
    obtain ⟨hwf', howned⟩ := putPage_owned hinv.wf hne hdis hs'
    refine ⟨s', hs', ?_⟩
    intro x hx
    have hx' : x ∈ s'.owned := by
      rw [howned]
      exact .inr hx
    rcases hx' with hfree | hpool
    · exact hfree
    · exact absurd hpool (disjoint_left.mp hdis' hx)

/-! ## A range that cannot be put back -/

theorem getFreePage_single (pool0 base base' : ℕ) : (scattered pool0 base 1 1).getFreePage 1 =
    .ok (.ok base, scattered pool0 base' 0 0) := by
  have hstate : (⟨update (scattered pool0 base 1 1).freeArea 0 [],
      [FreeBlockPool.give ⟨pool0, fun i => decide (i < 4 + 1), 4 + 1⟩ 4], 0⟩ : Buddy) =
        scattered pool0 base' 0 0 := by
    unfold scattered FreeBlockPool.give
    simp only [Buddy.mk.injEq, List.cons.injEq, FreeBlockPool.mk.injEq, true_and, and_true]
    refine ⟨?_, ?_⟩
    · funext k
      by_cases hk : k = 0
      · subst hk
        rfl
      · rw [update_of_ne hk, if_neg hk, if_neg hk]
    · funext i
      by_cases hi : i = 4
      · subst hi
        rfl
      · rw [update_of_ne hi, decide_eq_decide]
        omega
  rw [← hstate]
  rfl

theorem crowded_run (m : ℕ) (hm : m ≤ 508) : ∃ donated : Set ℕ,
    ReflTransGen PageStep (PageWorld.init 0x80000000)
      ⟨scattered 0x80000000 0x3000 m m, [(0x1000, 1)], ∅, donated⟩ := by
  have hst : (PageWorld.init 0x80000000).st = scattered 0x80000000 0x1000 0 0 :=
    (scattered_zero _ _).symm
  obtain ⟨donated, hbelow, hrun⟩ := scattered_run _ hst rfl
    (fun x hx => absurd hx (notMem_empty x)) 1 (by decide)
  have hget := PageStep.get ⟨scattered 0x80000000 0x1000 1 1, [], ∅, donated⟩
    (getFreePage_single 0x80000000 0x1000 0x3000)
  obtain ⟨donated', -, hrun'⟩ := scattered_run
    ⟨scattered 0x80000000 0x3000 0 0, [(0x1000, 1)], ∅, donated⟩ rfl rfl hbelow m hm
  rw [zero_add] at hrun'
  exact ⟨donated', (hrun.tail hget).trans hrun'⟩

/-- Three of four pages are handed out; they come back as two blocks. -/
theorem put_page_returns_range_three :
    let w := ((PageWorld.init 0).afterDonation 0x4000 4).afterGet 0x4000 3
    (0x4000, 3) ∈ w.live ∧ w.st.RangeFits 0x4000 3 ∧
      ∃ s', w.st.putPage 0x4000 3 = .ok s' ∧ pageRange 0x4000 3 ⊆ s'.freeBytes := by
  have hdonated : ReflTransGen PageStep (PageWorld.init 0)
      ((PageWorld.init 0).afterDonation 0x4000 4) := .single
    (PageStep.afterDonation (by decide) (by decide) (disjoint_empty _) (by decide))
  have hrun : ReflTransGen PageStep (PageWorld.init 0)
      (((PageWorld.init 0).afterDonation 0x4000 4).afterGet 0x4000 3) :=
    hdonated.tail (PageStep.get _ (eq_ok_of_returned _ (by decide +kernel)))
  have hfits : (((PageWorld.init 0).afterDonation 0x4000 4).afterGet 0x4000 3).st.RangeFits
      0x4000 3 := by
    refine .inr ⟨.inl (by decide +kernel), fun t ht => .inr ⟨.inl ?_, fun u _ => .inl rfl⟩⟩
    have hslot : _ = findSlot t.pools :=
      congrArg (fun r => findSlot (Except.valueOr (Buddy.preInit 0) r).pools) ht
    rw [← hslot]
    decide +kernel
  exact ⟨List.mem_cons_self, hfits, (put_page_returns_range hrun List.mem_cons_self).mpr hfits⟩

/-- **A page that cannot be put back.**  All descriptor slots are in use and no four free pages
are adjacent: putting the page at 0x1000 back hits the assertion. -/
theorem put_page_asserts : ∃ w, ReflTransGen PageStep (PageWorld.init 0x80000000) w ∧
    (0x1000, 1) ∈ w.live ∧ w.st.putPage 0x1000 1 = .error .assertFailed := by
  obtain ⟨donated, hrun⟩ := crowded_run 508 le_rfl
  refine ⟨_, hrun, List.mem_singleton.mpr rfl, ?_⟩
  have hstop : stopped ((scattered 0x80000000 0x3000 508 508).putPage 0x1000 1) =
      some .assertFailed := by decide +kernel
  exact eq_error_of_stopped hstop

end Sustcore
