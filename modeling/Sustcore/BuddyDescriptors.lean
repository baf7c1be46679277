/-
# Descriptors, page counts and termination of the buddy allocator

Three facts about the mutually recursive core, for arbitrary arguments (no usage
discipline is assumed):

* the descriptor invariant `Buddy.Desc` is kept (`allocFreeblock_keeps`,
  `putOrder_keeps`, `fetchOrder_keeps`);
* the pages on the lists plus the pages of the pools change by exactly the pages put or
  fetched, whatever pool expansions happen on the way (`Buddy.weight`);
* the fuel of the public operations is never used up, since every nested pool expansion
  starts with fewer listed pages (`allocFreeblock_total`).

Each is proved once for the functions written over their callee, then for all of them
by induction on the fuel.
-/
import Sustcore.BuddyLists

namespace Sustcore

open Except List

def Buddy.weight (s : Buddy) : ℕ := s.listedPages + FREEBLOCK_EXPAND_PAGES * s.pools.length

theorem weight_eq (s : Buddy) : s.weight = s.listedPages + 4 * s.pools.length := rfl

/-- What internal work of the allocator never disturbs; pools are attached only if `grow`
holds. -/
structure Buddy.Keeps (grow : Prop) (s s' : Buddy) : Prop where
  desc : s'.Desc
  freePages_eq : s'.freePages = s.freePages
  pools_le : s.pools.length ≤ s'.pools.length
  pools_eq : ¬grow → s'.pools.length = s.pools.length

section Keeps

variable {grow : Prop} {s t : Buddy}

theorem Buddy.Keeps.refl (h : s.Desc) : s.Keeps grow s :=
  ⟨h, rfl, le_rfl, fun _ => rfl⟩

theorem Buddy.Keeps.trans {u : Buddy} (h₁ : s.Keeps grow t) (h₂ : t.Keeps grow u) :
    s.Keeps grow u :=
  ⟨h₂.desc, h₂.freePages_eq.trans h₁.freePages_eq, h₁.pools_le.trans h₂.pools_le,
    fun hg => (h₂.pools_eq hg).trans (h₁.pools_eq hg)⟩

theorem Buddy.Keeps.grows (h : s.Keeps grow t) : s.Keeps True t :=
  ⟨h.desc, h.freePages_eq, h.pools_le, fun hg => absurd trivial hg⟩

/-- The contract of `alloc_freeblock`: the slot it returns is used and holds no block. -/
def AllocKeeps (grow : Prop) (alloc : Buddy → Except Halt (Result BlockRef × Buddy)) : Prop :=
  ∀ s r s', s.Desc → alloc s = .ok (r, s') →
    s.Keeps grow s' ∧ s'.weight = s.weight ∧ ∀ ref, r = .ok ref → s'.InUse ref ∧ s'.Unlinked ref

/-- The contract of `put_page_in_order`. -/
def PutKeeps (grow : Prop) (put : Buddy → ℕ → ℕ → Except Halt Buddy) : Prop :=
  ∀ s a k s', s.Desc → put s a k = .ok s' →
    s.Keeps grow s' ∧ s'.weight = s.weight + if a = 0 then 0 else 2 ^ k

/-- The contract of `fetch_frame_order`. -/
def FetchKeeps (grow : Prop) (fetch : Buddy → ℕ → Except Halt (Result ℕ × Buddy)) : Prop :=
  ∀ s k r s', s.Desc → fetch s k = .ok (r, s') →
    s.Keeps grow s' ∧ (∀ a, r = .ok a → s'.weight + 2 ^ k = s.weight) ∧ ∀ e, r = .error e → s' = s

/-- Pool expansions only ever move pages off the lists. -/
theorem Buddy.Keeps.listedPages_le {s' : Buddy} (h : s.Keeps grow s') {n : ℕ}
    (hw : s'.weight = s.weight + n) : s'.listedPages ≤ s.listedPages + n := by
  have hpools := h.pools_le
  rw [weight_eq, weight_eq] at hw
  omega

end Keeps

/-! ## Inversion of one round of the merge loop -/

/-- Both halves of a merge leave the lists and give their slots back. -/
structure Merged (s : Buddy) (ref : BlockRef) (buddy : FreeBlock) (s' : Buddy) : Prop where
  freed : ∃ t, (s.unlinkBlock buddy).freeFreeblock ref = .ok t ∧
    t.freeFreeblock buddy.ref = .ok s'

variable {s s' : Buddy}

/-- **What one round of the merge loop can do**: link the block and stop, or take the
buddy off its list and go on with the doubled block. -/
theorem putLoop_succ_eq_ok {alloc : Buddy → Except Halt (Result BlockRef × Buddy)} {n k : ℕ}
    {a : ℕ} (h : putLoop alloc (n + 1) s a k = .ok s') : ∃ ref s₁, alloc s = .ok (.ok ref, s₁) ∧
      (((k = MAX_BUDDY_ORDER ∨ (s₁.linkBlock ⟨ref, a, k⟩).findBuddyNode ⟨ref, a, k⟩ = none) ∧
          s' = s₁.linkBlock ⟨ref, a, k⟩) ∨ ∃ buddy s₂, k ≠ MAX_BUDDY_ORDER ∧
          (s₁.linkBlock ⟨ref, a, k⟩).findBuddyNode ⟨ref, a, k⟩ = some buddy ∧
          Merged ((s₁.linkBlock ⟨ref, a, k⟩).unlinkBlock ⟨ref, a, k⟩) ref buddy s₂ ∧
          putLoop alloc n s₂ (if buddy.paddr < a then buddy.paddr else a) (k + 1) = .ok s') := by
  obtain ⟨⟨res, s₁⟩, halloc, h⟩ := bind_eq_ok_iff.mp h
  cases res with
  | error e => cases h
  | ok ref =>
    refine ⟨ref, s₁, halloc, ?_⟩
    simp only at h
    split at h
    · rename_i hk
      exact .inl ⟨.inl hk, (ok.inj h).symm⟩
    rename_i hk
    split at h
    · rename_i hnone
      exact .inl ⟨.inr hnone, (ok.inj h).symm⟩
    · rename_i buddy hsome
      obtain ⟨t, ht, h⟩ := bind_eq_ok_iff.mp h
      obtain ⟨s₂, hs₂, h⟩ := bind_eq_ok_iff.mp h
      exact .inr ⟨buddy, s₂, hk, hsome, ⟨t, ht, hs₂⟩, h⟩

/-- The lists after a merge: the buddy is gone and nothing else changed. -/
theorem Merged.spec (grow : Prop) {ref : BlockRef} {buddy : FreeBlock} {k : ℕ}
    (h : Merged s ref buddy s') (hd : s.Desc) (hn : s.Unlinked ref) (hmem : buddy ∈ s.freeArea k) :
    s.Keeps grow s' ∧ s'.freeArea = (s.unlinkBlock buddy).freeArea ∧
      s'.pools.length = s.pools.length := by
  obtain ⟨t, ht, hs'⟩ := h.freed
  have hn' : (s.unlinkBlock buddy).Unlinked ref := fun j b hb =>
    hn j b ((hd.mem_unlinkBlock hmem).mp hb).1
  have hdt : t.Desc := (hd.unlinkBlock hmem).freeFreeblock hn' ht
  have hnt : t.Unlinked buddy.ref := by
    unfold Buddy.Unlinked
    rw [freeFreeblock_freeArea ht]
    exact hd.unlinked_unlinkBlock hmem
  have hlen : s'.pools.length = s.pools.length := by
    rw [freeFreeblock_pools_length hs', freeFreeblock_pools_length ht, unlinkBlock_pools]
  refine ⟨⟨hdt.freeFreeblock hnt hs', ?_, hlen.ge, fun _ => hlen⟩, ?_, hlen⟩
  · rw [freeFreeblock_freePages hs', freeFreeblock_freePages ht, unlinkBlock_freePages]
  · rw [freeFreeblock_freeArea hs', freeFreeblock_freeArea ht]

theorem Merged.weight {ref : BlockRef} {buddy : FreeBlock} {k : ℕ}
    (h : Merged s ref buddy s') (hd : s.Desc) (hn : s.Unlinked ref)
    (hmem : buddy ∈ s.freeArea k) (hk : k ≤ MAX_BUDDY_ORDER) : s'.weight + 2 ^ k = s.weight := by
  obtain ⟨-, harea, hlen⟩ := h.spec False hd hn hmem
  have hcount := listedPages_unlinkBlock hd hmem hk
  rw [← listedPages_congr harea] at hcount
  rw [weight_eq, weight_eq]
  omega

theorem weight_linkBlock {node : FreeBlock} (hk : node.order ≤ MAX_BUDDY_ORDER) :
    (s.linkBlock node).weight = s.weight + 2 ^ node.order := by
  rw [weight_eq, weight_eq, listedPages_linkBlock hk, linkBlock_pools]
  omega

/-! ## The contracts, each over its callee -/

section Contracts

variable {grow : Prop} {alloc : Buddy → Except Halt (Result BlockRef × Buddy)}
  {put : Buddy → ℕ → ℕ → Except Halt Buddy}
  {fetch : Buddy → ℕ → Except Halt (Result ℕ × Buddy)}

theorem putLoop_keeps (ha : AllocKeeps grow alloc) : ∀ n s a k s', n + k = MAX_BUDDY_ORDER + 1 →
    0 < n → s.Desc → putLoop alloc n s a k = .ok s' →
      s.Keeps grow s' ∧ s'.weight = s.weight + 2 ^ k := by
  intro n
  induction n with
  | zero => intro s a k s' _ hn; omega
  | succ n ih =>
    intro s a k s' hnk _ hd h
    have hk : k ≤ MAX_BUDDY_ORDER := by omega
    obtain ⟨ref, s₁, halloc, hcase⟩ := putLoop_succ_eq_ok h
    obtain ⟨hkeep, hw, hslot⟩ := ha s _ s₁ hd halloc
    obtain ⟨huse, hfree⟩ := hslot ref rfl
    rcases hcase with ⟨-, rfl⟩ | ⟨buddy, s₂, hne, hfind, hmerge, hrest⟩
    · refine ⟨⟨hkeep.desc.linkBlock huse hfree, hkeep.freePages_eq, hkeep.pools_le,
        hkeep.pools_eq⟩, ?_⟩
      rw [weight_linkBlock hk, hw]
    rw [unlinkBlock_linkBlock hfree] at hmerge
    obtain ⟨hmem, -⟩ := findBuddyNode_eq_some hfree hk hfind
    obtain ⟨hkeep₂, -, -⟩ := hmerge.spec grow hkeep.desc hfree hmem
    have hw₂ : s₂.weight + 2 ^ k = s₁.weight := hmerge.weight hkeep.desc hfree hmem hk
    obtain ⟨hkeep₃, hw₃⟩ := ih s₂ _ (k + 1) s' (by omega) (by omega) hkeep₂.desc hrest
    refine ⟨hkeep.trans (hkeep₂.trans hkeep₃), ?_⟩
    omega

variable {s s' : Buddy}

theorem putPageInOrderWith_eq_ok {a : ℕ} {k : ℕ} (h : putPageInOrderWith alloc s a k = .ok s') :
    (a = 0 ∧ s' = s) ∨ (a ≠ 0 ∧ k ≤ MAX_BUDDY_ORDER ∧ blockSizeForOrder k ∣ a ∧
      putLoop alloc (MAX_BUDDY_ORDER + 1 - k) s a k = .ok s') := by
  unfold putPageInOrderWith at h
  split at h
  · rename_i ha
    exact .inl ⟨ha, (ok.inj h).symm⟩
  rename_i ha
  obtain ⟨_, hk, h⟩ := bind_eq_ok_iff.mp h
  obtain ⟨_, hal, h⟩ := bind_eq_ok_iff.mp h
  rw [assertThat_eq_ok_iff, decide_eq_true_iff] at hk hal
  exact .inr ⟨ha, hk, Nat.dvd_of_mod_eq_zero hal, h⟩

theorem putPageInOrderWith_keeps (ha : AllocKeeps grow alloc) :
    PutKeeps grow (putPageInOrderWith alloc) := by
  intro s a k s' hd h
  rcases putPageInOrderWith_eq_ok h with ⟨rfl, rfl⟩ | ⟨hne, hk, -, hloop⟩
  · exact ⟨Buddy.Keeps.refl hd, by simp⟩
  · rw [if_neg hne]
    exact putLoop_keeps ha _ s a k s' (by omega) (by omega) hd hloop

theorem add_blockSize_ne_zero (a k : ℕ) : a + blockSizeForOrder k ≠ 0 := by
  have hpos : 0 < blockSizeForOrder k := Nat.two_pow_pos _
  omega

theorem splitLoop_keeps (hp : PutKeeps grow put) (a : ℕ) (k : ℕ) : ∀ d s s', s.Desc →
    splitLoop put a k d s = .ok s' → s.Keeps grow s' ∧ s'.weight + 2 ^ k = s.weight + 2 ^ (k + d) := by
  intro d
  induction d with
  | zero =>
    intro s s' hd h
    cases h
    exact ⟨Buddy.Keeps.refl hd, rfl⟩
  | succ d ih =>
    intro s s' hd h
    obtain ⟨t, ht, h⟩ := bind_eq_ok_iff.mp h
    obtain ⟨hkeep, hw⟩ := hp s _ _ t hd ht
    rw [if_neg (add_blockSize_ne_zero a (k + d))] at hw
    obtain ⟨hkeep', hw'⟩ := ih t s' hkeep.desc h
    refine ⟨hkeep.trans hkeep', ?_⟩
    have hpow : 2 ^ (k + (d + 1)) = 2 ^ (k + d) + 2 ^ (k + d) := by
      rw [← add_assoc]; ring
    omega

/-- What a `fetch_frame_order` that returns has done: nothing, or take the first block of
the lowest non-empty list of order at least `k`, free its slot and split it. -/
theorem fetchFrameOrderWith_eq_ok {k : ℕ} {r : Result ℕ}
    (h : fetchFrameOrderWith put s k = .ok (r, s')) : (r = .error .outOfMemory ∧ s' = s) ∨
      ∃ j node t, k ≤ j ∧ j ≤ MAX_BUDDY_ORDER ∧ node ∈ s.freeArea j ∧ r = .ok node.paddr ∧
        (s.unlinkBlock node).freeFreeblock node.ref = .ok t ∧
        splitLoop put node.paddr k (j - k) t = .ok s' := by
  unfold fetchFrameOrderWith at h
  split at h
  · cases h
    exact .inl ⟨rfl, rfl⟩
  rename_i j hj
  have hrange := mem_of_find?_eq_some hj
  rw [mem_range'_1] at hrange
  split at h
  · cases h
  rename_i node rest harea
  obtain ⟨t, ht, h⟩ := bind_eq_ok_iff.mp h
  obtain ⟨u, hu, h⟩ := bind_eq_ok_iff.mp h
  cases h
  refine .inr ⟨j, node, t, by omega, by omega, ?_, rfl, ht, hu⟩
  rw [harea]
  exact mem_cons_self

theorem fetch_unlink_keeps (grow : Prop) {t : Buddy} {node : FreeBlock} {j : ℕ} (hd : s.Desc)
    (hmem : node ∈ s.freeArea j) (hj : j ≤ MAX_BUDDY_ORDER)
    (ht : (s.unlinkBlock node).freeFreeblock node.ref = .ok t) :
    s.Keeps grow t ∧ t.weight + 2 ^ j = s.weight ∧ t.listedPages + 2 ^ j = s.listedPages := by
  have hlen : t.pools.length = s.pools.length := by
    rw [freeFreeblock_pools_length ht, unlinkBlock_pools]
  have hcount := listedPages_unlinkBlock hd hmem hj
  rw [← listedPages_congr (freeFreeblock_freeArea ht)] at hcount
  refine ⟨⟨(hd.unlinkBlock hmem).freeFreeblock (hd.unlinked_unlinkBlock hmem) ht, ?_, hlen.ge,
    fun _ => hlen⟩, ?_, hcount⟩
  · rw [freeFreeblock_freePages ht, unlinkBlock_freePages]
  · rw [weight_eq, weight_eq]
    omega

theorem fetchFrameOrderWith_keeps (hp : PutKeeps grow put) :
    FetchKeeps grow (fetchFrameOrderWith put) := by
  intro s k r s' hd h
  rcases fetchFrameOrderWith_eq_ok h with ⟨rfl, rfl⟩ | ⟨j, node, t, hkj, hj, hmem, rfl, ht, hsplit⟩
  · refine ⟨Buddy.Keeps.refl hd, ?_, fun _ _ => rfl⟩
    intro a ha
    cases ha
  obtain ⟨hkeep, hw, -⟩ := fetch_unlink_keeps grow hd hmem hj ht
  obtain ⟨hkeep', hw'⟩ := splitLoop_keeps hp node.paddr k (j - k) t s' hkeep.desc hsplit
  refine ⟨hkeep.trans hkeep', ?_, ?_⟩
  · rw [Nat.add_sub_cancel' hkj] at hw'
    omega
  · intro e he
    cases he

/-- A fresh pool marks no slot of a linked block as free. -/
theorem Buddy.Desc.attachPool (h : s.Desc) (p : FreeBlockPool) : (s.attachPool p).Desc where
  order_eq := h.order_eq
  live := by
    intro k b hb
    obtain ⟨q, hq, hbit⟩ := h.live k b hb
    refine ⟨q, ?_, hbit⟩
    have hlt := (List.getElem?_eq_some_iff.mp hq).1
    simpa [Buddy.attachPool, List.getElem?_append_left hlt] using hq
  inj := h.inj
  nodup := h.nodup

theorem addNewPoolWith_eq_ok {r : Result Unit} (h : addNewPoolWith fetch s = .ok (r, s')) :
    (∃ e, r = .error e ∧ fetch s (pages2order FREEBLOCK_EXPAND_PAGES) = .ok (.error e, s')) ∨
      ∃ a t, r = .ok () ∧ fetch s (pages2order FREEBLOCK_EXPAND_PAGES) = .ok (.ok a, t) ∧
        s' = t.attachPool (initPool a) := by
  obtain ⟨⟨res, t⟩, hfetch, h⟩ := bind_eq_ok_iff.mp h
  cases res with
  | error e =>
    cases h
    exact .inl ⟨e, rfl, hfetch⟩
  | ok a =>
    cases h
    exact .inr ⟨a, t, rfl, hfetch, rfl⟩

theorem addNewPoolWith_keeps (hf : FetchKeeps grow fetch) {r : Result Unit}
    (hd : s.Desc) (h : addNewPoolWith fetch s = .ok (r, s')) :
    s.Keeps True s' ∧ s'.weight = s.weight := by
  rcases addNewPoolWith_eq_ok h with ⟨e, rfl, hfetch⟩ | ⟨a, t, rfl, hfetch, rfl⟩
  · obtain ⟨hkeep, -, herr⟩ := hf s _ _ s' hd hfetch
    exact ⟨hkeep.grows, by rw [herr e rfl]⟩
  obtain ⟨hkeep, hok, -⟩ := hf s _ _ t hd hfetch
  have hw : t.weight + 4 = s.weight := hok a rfl
  have hlen : (t.attachPool (initPool a)).pools.length = t.pools.length + 1 := by
    simp [Buddy.attachPool]
  refine ⟨⟨hkeep.desc.attachPool _, hkeep.freePages_eq, ?_, fun hg => absurd trivial hg⟩, ?_⟩
  · have := hkeep.pools_le
    omega
  · have hlist : (t.attachPool (initPool a)).listedPages = t.listedPages :=
      listedPages_congr rfl
    rw [weight_eq, weight_eq] at hw
    rw [weight_eq, weight_eq]
    omega

variable {add : Buddy → Except Halt (Result Unit × Buddy)}

theorem allocFreeblockWith_eq_ok
    {r : Result BlockRef} (h : allocFreeblockWith add s = .ok (r, s')) :
    (∃ ref p, r = .ok ref ∧ s.pools[ref.pool]? = some p ∧ p.bitmap ref.idx = false ∧
        s' = s.takeSlot ref) ∨ ∃ res t, add s = .ok (res, t) ∧ ((∃ e, r = .error e ∧ s' = t) ∨
          ∃ ref p, r = .ok ref ∧ t.pools[ref.pool]? = some p ∧ p.bitmap ref.idx = false ∧
            s' = t.takeSlot ref) := by
  unfold allocFreeblockWith at h
  split at h
  · rename_i ref hslot
    obtain ⟨p, hp, hbit⟩ := findSlot_eq_some hslot
    cases h
    exact .inl ⟨ref, p, rfl, hp, hbit, rfl⟩
  obtain ⟨⟨res, t⟩, hadd, h⟩ := bind_eq_ok_iff.mp h
  refine .inr ⟨res, t, hadd, ?_⟩
  cases res with
  | error e =>
    cases h
    exact .inl ⟨e, rfl, rfl⟩
  | ok u =>
    simp only at h
    split at h
    · cases h
    rename_i tail htail
    split at h
    · cases h
      exact .inl ⟨_, rfl, rfl⟩
    · rename_i idx hidx
      cases h
      refine .inr ⟨⟨t.pools.length - 1, idx⟩, tail, rfl, ?_, firstClear_eq_some hidx, rfl⟩
      rw [← htail, getLast?_eq_getElem?]

theorem allocFreeblockWith_keeps
    (ha : ∀ s r s', s.Desc → add s = .ok (r, s') → s.Keeps grow s' ∧ s'.weight = s.weight) :
    AllocKeeps grow (allocFreeblockWith add) := by
  have htake : ∀ (t : Buddy) (ref : BlockRef) (p : FreeBlockPool), t.Desc →
      t.pools[ref.pool]? = some p → p.bitmap ref.idx = false →
      t.Keeps grow (t.takeSlot ref) ∧ (t.takeSlot ref).weight = t.weight ∧
        (t.takeSlot ref).InUse ref ∧ (t.takeSlot ref).Unlinked ref := by
    intro t ref p hd hp hbit
    refine ⟨⟨hd.takeSlot ref, rfl, by simp, by simp⟩, ?_, inUse_takeSlot_self hp,
      hd.unlinked_of_clear hp hbit⟩
    rw [weight_eq, weight_eq, takeSlot_pools_length, listedPages_congr (takeSlot_freeArea t ref)]
  intro s r s' hd h
  rcases allocFreeblockWith_eq_ok h with
    ⟨ref, p, rfl, hp, hbit, rfl⟩ | ⟨res, t, hadd, ⟨e, rfl, rfl⟩ | ⟨ref, p, rfl, hp, hbit, rfl⟩⟩
  · obtain ⟨hkeep, hw, huse, hfree⟩ := htake s ref p hd hp hbit
    refine ⟨hkeep, hw, ?_⟩
    intro ref' href
    cases href
    exact ⟨huse, hfree⟩
  · obtain ⟨hkeep, hw⟩ := ha s res s' hd hadd
    refine ⟨hkeep, hw, ?_⟩
    intro ref' href
    cases href
  · obtain ⟨hkeep, hw⟩ := ha s res t hd hadd
    obtain ⟨hkeep', hw', huse, hfree⟩ := htake t ref p hkeep.desc hp hbit
    refine ⟨hkeep.trans hkeep', hw'.trans hw, ?_⟩
    intro ref' href
    cases href
    exact ⟨huse, hfree⟩

end Contracts

/-! ## The contracts of the recursive functions -/

theorem allocFreeblock_keeps : ∀ fuel, AllocKeeps (0 < fuel) (allocFreeblock fuel) := by
  intro fuel
  induction fuel with
  | zero =>
    apply allocFreeblockWith_keeps
    intro s r s' _ h
    cases h
  | succ fuel ih =>
    apply allocFreeblockWith_keeps
    intro s r s' hd h
    obtain ⟨hkeep, hw⟩ := addNewPoolWith_keeps
      (fetchFrameOrderWith_keeps (putPageInOrderWith_keeps ih)) hd h
    exact ⟨⟨hkeep.desc, hkeep.freePages_eq, hkeep.pools_le, by omega⟩, hw⟩

theorem putOrder_keeps (fuel : ℕ) : PutKeeps (0 < fuel) (putOrder fuel) :=
  putPageInOrderWith_keeps (allocFreeblock_keeps fuel)

theorem fetchOrder_keeps (fuel : ℕ) : FetchKeeps (0 < fuel) (fetchOrder fuel) :=
  fetchFrameOrderWith_keeps (putOrder_keeps fuel)

/-! ## Termination: the fuel is never used up -/

/-- `alloc` does not run out of fuel when fewer than `bound` pages are listed. -/
def AllocTotal (alloc : Buddy → Except Halt (Result BlockRef × Buddy)) (bound : ℕ) : Prop :=
  ∀ s, s.Desc → s.listedPages < bound → alloc s ≠ .error .outOfFuel

/-- The same for `put_page_in_order`. -/
def PutTotal (put : Buddy → ℕ → ℕ → Except Halt Buddy) (bound : ℕ) : Prop :=
  ∀ s a k, s.Desc → s.listedPages < bound → put s a k ≠ .error .outOfFuel

section Total

variable {grow : Prop} {alloc : Buddy → Except Halt (Result BlockRef × Buddy)}
  {put : Buddy → ℕ → ℕ → Except Halt Buddy} {bound : ℕ}

theorem putLoop_total (ha : AllocKeeps grow alloc) (ht : AllocTotal alloc bound) :
    ∀ n s a k, n + k = MAX_BUDDY_ORDER + 1 → s.Desc → s.listedPages < bound →
      putLoop alloc n s a k ≠ .error .outOfFuel := by
  intro n
  induction n with
  | zero => intro s a k _ _ _ h; cases h
  | succ n ih =>
    intro s a k hnk hd hlt h
    have hk : k ≤ MAX_BUDDY_ORDER := by omega
    rcases bind_eq_error_iff.mp h with h | ⟨⟨res, s₁⟩, halloc, h⟩
    · exact ht s hd hlt h
    obtain ⟨hkeep, hw, hslot⟩ := ha s res s₁ hd halloc
    cases res with
    | error e => cases h
    | ok ref =>
      obtain ⟨huse, hfree⟩ := hslot ref rfl
      simp only at h
      split at h
      · cases h
      split at h
      · cases h
      rename_i hne buddy hfind
      rcases bind_eq_error_iff.mp h with h | ⟨t, ht₁, h⟩
      · exact freeFreeblock_ne_outOfFuel _ _ h
      rcases bind_eq_error_iff.mp h with h | ⟨s₂, ht₂, h⟩
      · exact freeFreeblock_ne_outOfFuel _ _ h
      -- a merge takes pages off the lists, so the bound still holds
      rw [unlinkBlock_linkBlock hfree] at ht₁
      obtain ⟨hmem, -⟩ := findBuddyNode_eq_some hfree hk hfind
      have hmerge : Merged s₁ ref buddy s₂ := ⟨t, ht₁, ht₂⟩
      obtain ⟨hkeep₂, -, -⟩ := hmerge.spec grow hkeep.desc hfree hmem
      have hw₂ : s₂.weight + 2 ^ k = s₁.weight := hmerge.weight hkeep.desc hfree hmem hk
      have hpos : 0 < 2 ^ k := Nat.two_pow_pos k
      have hle₁ : s₁.listedPages ≤ s.listedPages := by
        have h0 := hkeep.listedPages_le (n := 0) (by rw [hw, add_zero])
        omega
      have hle₂ : s₂.listedPages ≤ s₁.listedPages := by
        have hpools := hkeep₂.pools_le
        rw [weight_eq, weight_eq] at hw₂
        omega
      exact ih s₂ _ (k + 1) (by omega) hkeep₂.desc (by omega) h

theorem putPageInOrderWith_total (ha : AllocKeeps grow alloc) (ht : AllocTotal alloc bound) :
    PutTotal (putPageInOrderWith alloc) bound := by
  intro s a k hd hlt h
  unfold putPageInOrderWith at h
  split at h
  · cases h
  rcases bind_eq_error_iff.mp h with h | ⟨_, hk, h⟩
  · exact assertThat_ne_outOfFuel _ h
  rw [assertThat_eq_ok_iff, decide_eq_true_iff] at hk
  rcases bind_eq_error_iff.mp h with h | ⟨_, _, h⟩
  · exact assertThat_ne_outOfFuel _ h
  exact putLoop_total ha ht _ s a k (by omega) hd hlt h

/-- Before each put of a split, the pages still to be put back are missing from the
lists. -/
theorem splitLoop_total (hp : PutKeeps grow put) (ht : PutTotal put bound) (a : ℕ) (k : ℕ) :
    ∀ d s, s.Desc → s.listedPages + 2 ^ (k + d) ≤ bound →
      splitLoop put a k d s ≠ .error .outOfFuel := by
  intro d
  induction d with
  | zero => intro s _ _ h; cases h
  | succ d ih =>
    intro s hd hle h
    have hpow : 2 ^ (k + (d + 1)) = 2 ^ (k + d) + 2 ^ (k + d) := by
      rw [← add_assoc]; ring
    have hpos : 0 < 2 ^ (k + d) := Nat.two_pow_pos _
    rcases bind_eq_error_iff.mp h with h | ⟨t, hput, h⟩
    · exact ht s _ _ hd (by omega) h
    obtain ⟨hkeep, hw⟩ := hp s _ _ t hd hput
    rw [if_neg (add_blockSize_ne_zero a (k + d))] at hw
    have hle' := hkeep.listedPages_le hw
    exact ih t hkeep.desc (by omega) h

theorem fetchFrameOrderWith_total (hp : PutKeeps grow put) (ht : PutTotal put bound) (s : Buddy)
    (k : ℕ) (hd : s.Desc) (hle : s.listedPages ≤ bound) :
    fetchFrameOrderWith put s k ≠ .error .outOfFuel := by
  intro h
  unfold fetchFrameOrderWith at h
  split at h
  · cases h
  rename_i j hj
  have hrange := mem_of_find?_eq_some hj
  rw [mem_range'_1] at hrange
  split at h
  · cases h
  rename_i node rest harea
  have hmem : node ∈ s.freeArea j := by rw [harea]; exact mem_cons_self
  rcases bind_eq_error_iff.mp h with h | ⟨t, hfree, h⟩
  · exact freeFreeblock_ne_outOfFuel _ _ h
  obtain ⟨hkeep, -, hcount⟩ := fetch_unlink_keeps grow hd hmem (by omega) hfree
  rcases bind_eq_error_iff.mp h with h | ⟨u, _, h⟩
  · refine splitLoop_total hp ht node.paddr k (j - k) t hkeep.desc ?_ h
    rw [Nat.add_sub_cancel' hrange.1]
    omega
  · cases h

end Total

/-- **Enough fuel.** A slot request that starts with fewer listed pages than fuel never
runs out of it: a nested expansion first takes a block off the lists. -/
theorem allocFreeblock_total : ∀ fuel, AllocTotal (allocFreeblock fuel) fuel := by
  intro fuel
  induction fuel with
  | zero =>
    intro s _ hlt
    omega
  | succ fuel ih =>
    intro s hd hlt h
    rw [allocFreeblock] at h
    unfold allocFreeblockWith at h
    split at h
    · cases h
    rcases bind_eq_error_iff.mp h with h | ⟨⟨res, t⟩, _, h⟩
    · rcases bind_eq_error_iff.mp h with h | ⟨⟨res, t⟩, _, h⟩
      · exact fetchFrameOrderWith_total (putOrder_keeps fuel)
          (putPageInOrderWith_total (allocFreeblock_keeps fuel) ih) s _ hd (by omega) h
      · cases res <;> cases h
    · cases res with
      | error e => cases h
      | ok u =>
        simp only at h
        split at h
        · cases h
        · split at h <;> cases h

theorem putOrder_total (fuel : ℕ) : PutTotal (putOrder fuel) fuel :=
  putPageInOrderWith_total (allocFreeblock_keeps fuel) (allocFreeblock_total fuel)

end Sustcore
