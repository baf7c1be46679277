/-
# The counter of free pages

`_free_pages` is what the kernel reports as free memory.  `get_free_page` and `put_page`
adjust it, but `get_free_pages_in_order` and `put_page_in_order` move pages on and off
the lists without touching it, and so does every pool expansion.

A step is *counted* when none of these happens: an in-order call finds nothing to do, and
before any other call there are descriptor slots enough for the blocks that it puts, or no
four pages for a new pool.  The counter is right along every run of counted steps
(`free_pages_counted`); one in-order allocation breaks it (`free_pages_miscounted`).
-/
import Sustcore.BuddyReserve

namespace Sustcore

open Relation Except Buddy List

/-- A call of one of the four allocation entry points, with arbitrary arguments. -/
inductive BuddyOp where
  | getFreePage (n : ℕ)
  | getFreePagesInOrder (k : ℕ)
  | putPage (a n : ℕ)
  | putPageInOrder (a k : ℕ)
  deriving DecidableEq, Repr

/-- The state after a call that returns. -/
def BuddyOp.run (s : Buddy) : BuddyOp → Except Halt Buddy
  | .getFreePage n => (s.getFreePage n).map Prod.snd
  | .getFreePagesInOrder k => (s.getFreePagesInOrder k).map Prod.snd
  | .putPage a n => s.putPage a n
  | .putPageInOrder a k => s.putPageInOrder a k

/-- The number of blocks that `add_memory_range` cuts a range into. -/
def blockCount : ℕ → ℕ → ℕ → ℕ
  | 0, _, _ => 0
  | n + 1, remain, addr =>
    if remain = 0 then 0
    else
      blockCount n (remain - 2 ^ fitOrder remain addr MAX_BUDDY_ORDER 0)
        (addr + 2 ^ fitOrder remain addr MAX_BUDDY_ORDER 0 * PAGESIZE) + 1

/-- The number of blocks that `get_free_page` puts back when it takes `n` pages from the block
`node` of order `j`. -/
def putBack (n j : ℕ) (node : FreeBlock) : ℕ :=
  j - pages2order n + blockCount (2 ^ pages2order n - n) (2 ^ pages2order n - n)
    (node.paddr + n * PAGESIZE)

/-- `maybe_expand_pool` makes a new pool when fewer slots than this are left in the last one. -/
def RESERVED_SLOTS : ℕ := 128

/-- The call does not enter an uncounted path.  `get_free_page` finds no block, or there are
slots for the blocks that it puts back and a quarter of the pool is left, or it takes a whole
block and there are no four pages for a pool.  `put_page` has a slot for every block of the
range.  An in-order request finds no block, and an in-order put is given the null address. -/
def BuddyOp.Counted (s : Buddy) : BuddyOp → Prop
  | .getFreePage n => s.NoBlock (pages2order n) ∨
      (s.NoBlock 2 ∧ s.freeArea (pages2order n) ≠ []) ∨
      ∀ j node, s.Lowest (pages2order n) j node →
        putBack n j node + RESERVED_SLOTS ≤ s.freeSlots + 1
  | .getFreePagesInOrder k => s.NoBlock k
  | .putPage a n => blockCount n n a ≤ s.freeSlots
  | .putPageInOrder a _ => a = 0

def CallStep (s s' : Buddy) : Prop := ∃ op : BuddyOp, op.run s = .ok s'

def CountedStep (s s' : Buddy) : Prop := ∃ op : BuddyOp, op.Counted s ∧ op.run s = .ok s'

/-! ## Calls without a new pool -/

variable {s s' t : Buddy} {fuel a k n : ℕ}

theorem putOrder_plain_of_slots (hd : s.Desc) (hs : s.Slots) (hfree : 0 < s.freeSlots)
    (ha : a ≠ 0) (h : putOrder fuel s a k = .ok t) :
    t.Desc ∧ t.Slots ∧ t.pools.length = s.pools.length ∧ s.freeSlots ≤ t.freeSlots + 1 := by
  rcases putPageInOrderWith_eq_ok h with ⟨h0, -⟩ | ⟨-, hk, hal, -⟩
  · exact absurd h0 ha
  obtain ⟨t', ht', hplain⟩ := putOrder_of_slots fuel hd hs hfree ha hk hal
  cases h.symm.trans ht'
  refine ⟨(putOrder_keeps fuel s a k t hd h).1.desc, putOrder_slots fuel s a k t hd hs h, ?_,
    hplain.slots⟩
  have hlength := congrArg length hplain.pools
  rwa [length_map, length_map] at hlength

/-- Neither does a split with a slot for every half. -/
theorem splitLoop_plain : ∀ d s, s.Desc → s.Slots → d ≤ s.freeSlots →
    splitLoop (putOrder fuel) a k d s = .ok t →
    t.Desc ∧ t.Slots ∧ t.pools.length = s.pools.length ∧ s.freeSlots ≤ t.freeSlots + d := by
  intro d
  induction d with
  | zero =>
    intro s hd hs _ h
    cases h
    exact ⟨hd, hs, rfl, le_rfl⟩
  | succ d ih =>
    intro s hd hs hle h
    obtain ⟨u, hu, h⟩ := bind_eq_ok_iff.mp h
    obtain ⟨hdu, hsu, hpools, hslots⟩ :=
      putOrder_plain_of_slots hd hs (by omega) (add_blockSize_ne_zero _ _) hu
    obtain ⟨hdt, hst, hpools', hslots'⟩ := ih u hdu hsu (by omega) h
    exact ⟨hdt, hst, hpools'.trans hpools, by omega⟩

theorem addMemoryLoop_plain : ∀ n remain addr s, s.Desc → s.Slots → addr ≠ 0 →
    blockCount n remain addr ≤ s.freeSlots →
    addMemoryLoop (putOrder fuel) n remain addr s = .ok t → t.Desc ∧ t.Slots ∧
      t.pools.length = s.pools.length ∧ s.freeSlots ≤ t.freeSlots + blockCount n remain addr := by
  intro n
  induction n with
  | zero =>
    intro remain addr s hd hs _ _ h
    cases h
    exact ⟨hd, hs, rfl, le_rfl⟩
  | succ n ih =>
    intro remain addr s hd hs hne hle h
    rw [blockCount] at hle ⊢
    rw [addMemoryLoop] at h
    split at h
    · rename_i h0
      cases h
      rw [if_pos h0]
      exact ⟨hd, hs, rfl, le_rfl⟩
    rename_i h0
    rw [if_neg h0] at hle ⊢
    obtain ⟨u, hu, h⟩ := bind_eq_ok_iff.mp h
    obtain ⟨hdu, hsu, hpools, hslots⟩ := putOrder_plain_of_slots hd hs (by omega) hne hu
    obtain ⟨hdt, hst, hpools', hslots'⟩ := ih _ _ u hdu hsu (by omega) (by omega) h
    exact ⟨hdt, hst, hpools'.trans hpools, by omega⟩

theorem fetchOrder_lowest (h : fetchOrder fuel s k = .ok (.ok a, s')) : ∃ j node t,
    s.Lowest k j node ∧ a = node.paddr ∧ (s.unlinkBlock node).freeFreeblock node.ref = .ok t ∧
      splitLoop (putOrder fuel) a k (j - k) t = .ok s' := by
  unfold fetchOrder fetchFrameOrderWith at h
  split at h
  · cases h
  rename_i j hj
  rw [find?_range'_eq_some] at hj
  obtain ⟨-, hrange, hbelow⟩ := hj
  rw [mem_range'_1] at hrange
  split at h
  · cases h
  rename_i node rest harea
  obtain ⟨t, ht, h⟩ := bind_eq_ok_iff.mp h
  obtain ⟨u, hu, h⟩ := bind_eq_ok_iff.mp h
  cases h
  refine ⟨j, node, t, ⟨hrange.1, by omega, ?_, rest, harea⟩, rfl, ht, hu⟩
  intro i hi hij
  simpa using hbelow i hi hij

/-- The last pool is not looked after while a quarter of it is left. -/
theorem expandPool_plain {r : Result Unit} (hs : s.Slots) (hone : s.pools.length = 1)
    (hfree : RESERVED_SLOTS ≤ s.freeSlots) (h : expandPool fuel s = .ok (r, s')) : s' = s := by
  obtain ⟨p, hp⟩ := length_eq_one_iff.mp hone
  have hcount : p.used + p.clear.card = FREEBLOCK_POOL_SIZE :=
    hs.count p (by rw [hp]; exact mem_singleton.mpr rfl)
  have hsum : s.freeSlots = p.clear.card := by
    unfold Buddy.freeSlots clearSlots
    rw [hp, map_singleton, sum_singleton]
  have hnot : p.needsExpand = false := by
    unfold FreeBlockPool.needsExpand
    unfold RESERVED_SLOTS at hfree
    simp only [FREEBLOCK_POOL_SIZE] at hcount ⊢
    exact decide_eq_false (by omega)
  unfold expandPool at h
  rw [hp] at h
  simp only [getLast?_singleton, hnot, Bool.false_eq_true, if_false] at h
  exact (Prod.mk.inj (ok.inj h)).2.symm

/-- Without four pages there is no new pool. -/
theorem expandPool_of_noBlock {r : Result Unit} (hnone : s.NoBlock 2)
    (h : expandPool fuel s = .ok (r, s')) : s' = s := by
  rcases expandPool_eq_ok h with ⟨-, hs⟩ | ⟨m, -, hadd⟩
  · exact hs
  rcases addNewPoolWith_eq_ok hadd with ⟨e, -, hfetch⟩ | ⟨a, t, -, hfetch, -⟩
  · rcases fetchOrder_noBlock hfetch with ⟨-, -, hs⟩ | ⟨hblock, -⟩
    · exact hs
    · exact absurd hnone hblock
  · rcases fetchOrder_noBlock hfetch with ⟨-, herr, -⟩ | ⟨hblock, -⟩
    · cases herr
    · exact absurd hnone hblock

theorem unlink_plain {j : ℕ} {node : FreeBlock} (hd : s.Desc) (hs : s.Slots)
    (hlow : s.Lowest k j node) (ht : (s.unlinkBlock node).freeFreeblock node.ref = .ok t) :
    t.Desc ∧ t.Slots ∧ t.pools.length = s.pools.length ∧ t.freeSlots = s.freeSlots + 1 := by
  have hmem := hlow.mem
  obtain ⟨hst, hfree⟩ := (hs.unlinkBlock node).freeFreeblock (hs.index j node hmem).2 ht
  refine ⟨(fetch_unlink_keeps True hd hmem hlow.le_max ht).1.desc, hst, ?_, hfree⟩
  rw [freeFreeblock_pools_length ht, unlinkBlock_pools]

/-- **`get_free_page` without a new pool.** -/
theorem getFreePage_plain {r : Result ℕ} (hd : s.Desc) (hs : s.Slots) (hone : s.pools.length = 1)
    (hcounted : (BuddyOp.getFreePage n).Counted s) (h : s.getFreePage n = .ok (r, s')) :
    s'.pools.length = s.pools.length := by
  rcases getPages_eq_ok h with ⟨e, -, ⟨rfl, -⟩ | hfetch⟩ |
    ⟨a, t, u, res, hn, hmax, hfetch, hrest, -, hexp, -⟩
  · rfl
  · rw [(fetchOrder_keeps _ s _ _ s' hd hfetch).2.2 e rfl]
  obtain ⟨j, node, v, hlow, rfl, hv, hsplit⟩ := fetchOrder_lowest hfetch
  obtain ⟨hdv, hsv, hpoolsv, hslotsv⟩ := unlink_plain hd hs hlow hv
  rcases hcounted with hnone | ⟨hnone, hblock⟩ | henough
  · have hmem := hlow.mem
    rw [hnone j hlow.le hlow.le_max] at hmem
    cases hmem
  · -- the block is taken as a whole, and nothing is left for a pool
    obtain rfl : j = pages2order n := by
      by_contra hne
      exact hblock (hlow.below _ le_rfl (lt_of_le_of_ne hlow.le (Ne.symm hne)))
    have hsmall : pages2order n < 2 := by
      by_contra hge
      exact hblock (hnone _ (by omega) hlow.le_max)
    have hleft : v.NoBlock 2 := by
      intro i hi hi'
      rw [freeFreeblock_freeArea hv]
      show Function.update s.freeArea node.order _ i = []
      rw [hd.order_eq _ node hlow.mem, Function.update_of_ne (by omega)]
      exact hnone i hi hi'
    rw [Nat.sub_self] at hsplit
    cases hsplit
    have hwhole : ¬n < 2 ^ pages2order n := by
      intro hlt
      interval_cases hk : pages2order n
      · omega
      · obtain rfl : n = 1 := by omega
        cases hk
    rcases hrest with ⟨hlt, -⟩ | ⟨-, rfl⟩
    · exact absurd hlt hwhole
    have hleft' : ({ u with freePages := u.freePages - n } : Buddy).NoBlock 2 := hleft
    rw [expandPool_of_noBlock hleft' hexp]
    exact hpoolsv
  · have hslots := henough j node hlow
    unfold putBack at hslots
    have hpos : 0 < RESERVED_SLOTS := by decide
    obtain ⟨hdt, hst, hpoolst, hslotst⟩ := splitLoop_plain _ v hdv hsv (by omega) hsplit
    have hu : u.Slots ∧ u.pools.length = t.pools.length ∧ RESERVED_SLOTS ≤ u.freeSlots := by
      rcases hrest with ⟨-, hadd⟩ | ⟨-, rfl⟩
      · have hbytes : 0 < n * PAGESIZE := mul_pos hn (by decide)
        obtain ⟨-, hsu, hpoolsu, hslotsu⟩ :=
          addMemoryLoop_plain _ _ _ t hdt hst (by omega) (by omega) hadd
        exact ⟨hsu, hpoolsu, by omega⟩
      · exact ⟨hst, rfl, by omega⟩
    have hu' : ({ u with freePages := u.freePages - n } : Buddy).pools.length = 1 := by
      show u.pools.length = 1
      omega
    rw [expandPool_plain (hu.1.setFreePages (u.freePages - n)) hu' hu.2.2 hexp, hu', hone]

/-- **`put_page` without a new pool.** -/
theorem putPage_plain (hd : s.Desc) (hs : s.Slots) (hcounted : blockCount n n a ≤ s.freeSlots)
    (h : s.putPage a n = .ok s') :
    s'.pools.length = s.pools.length ∧ s.freeSlots ≤ s'.freeSlots + blockCount n n a := by
  rcases putPages_eq_ok h with ⟨-, rfl⟩ | ⟨hne, -, hadd⟩
  · exact ⟨rfl, Nat.le_add_right _ _⟩
  · obtain ⟨-, -, hpools, hslots⟩ := addMemoryLoop_plain n n a _
      (hd.setFreePages (s.freePages + n)) (hs.setFreePages (s.freePages + n)) hne hcounted hadd
    exact ⟨hpools, hslots⟩

/-! ## Runs -/

/-- The counter is the number of listed pages, and there is one descriptor pool. -/
structure Buddy.CounterRight (s : Buddy) : Prop where
  desc : s.Desc
  slots : s.Slots
  pool : s.pools.length = 1
  counter : s.freePages = s.listedPages

theorem Buddy.CounterRight.step (s s' : Buddy) (h : s.CounterRight) (hstep : CountedStep s s') :
    s'.CounterRight := by
  obtain ⟨op, hcounted, hrun⟩ := hstep
  have hcount := h.counter
  cases op with
  | getFreePage n =>
    obtain ⟨r, hget⟩ := map_snd_eq_ok hrun
    have hpools := getFreePage_plain h.desc h.slots h.pool hcounted hget
    obtain ⟨hd, -, -, hcase⟩ := getPages_keeps h.desc hget
    refine ⟨hd, getFreePage_slots h.desc h.slots hget, hpools.trans h.pool, ?_⟩
    rcases hcase with rfl | ⟨hfree, hw⟩
    · exact hcount
    · rw [weight_eq, weight_eq] at hw
      omega
  | getFreePagesInOrder k =>
    obtain ⟨r, hget⟩ := map_snd_eq_ok hrun
    rcases getOrder_eq_ok hget with ⟨-, rfl⟩ | hfetch
    · exact h
    · rcases fetchOrder_noBlock hfetch with ⟨-, -, rfl⟩ | ⟨hblock, -⟩
      · exact h
      · exact absurd hcounted hblock
  | putPage a n =>
    have hpools := (putPage_plain h.desc h.slots hcounted hrun).1
    obtain ⟨hd, -, -, m, hfree, hw⟩ := putPages_keeps h.desc hrun
    refine ⟨hd, putPage_slots h.desc h.slots hrun, hpools.trans h.pool, ?_⟩
    rw [weight_eq, weight_eq] at hw
    omega
  | putPageInOrder a k =>
    rcases putPageInOrderWith_eq_ok (show putOrder _ s a k = .ok s' from hrun) with
      ⟨-, rfl⟩ | ⟨hne, -⟩
    · exact h
    · exact absurd hcounted hne

/-- **The counter is right in every state of a run of counted calls.** -/
theorem free_pages_counted {pool0 : ℕ} {s : Buddy}
    (hrun : ReflTransGen CountedStep (preInit pool0) s) : s.freePages = s.listedPages := by
  have hinit : (preInit pool0).CounterRight :=
    ⟨desc_preInit pool0, slots_preInit pool0, rfl, by simp [preInit, listedPages]⟩
  exact (Transition.invariant Buddy.CounterRight.step hrun hinit).counter

def BuddyOp.after (op : BuddyOp) (s : Buddy) : Buddy := valueOr s (op.run s)

theorem CallStep.after {op : BuddyOp} {s : Buddy} (h : (op.run s).isOk = true) :
    CallStep s (op.after s) :=
  ⟨op, eq_ok_valueOr h⟩

theorem CountedStep.after {op : BuddyOp} {s : Buddy} (hc : op.Counted s)
    (h : (op.run s).isOk = true) : CountedStep s (op.after s) :=
  ⟨op, hc, eq_ok_valueOr h⟩

theorem freeSlots_preInit (pool0 : ℕ) : (preInit pool0).freeSlots = 508 := by
  unfold freeSlots clearSlots preInit
  rw [map_singleton, sum_singleton, card_clear_initPool]

/-- Three pages are put and two of them taken. -/
theorem free_pages_counted_get :
    let s := (BuddyOp.getFreePage 2).after ((BuddyOp.putPage 16384 3).after (preInit 0))
    s.freePages = s.listedPages := by
  have hcount : blockCount 3 3 16384 = 2 := by decide
  have hput : (BuddyOp.putPage 16384 3).Counted (preInit 0) := by
    show blockCount 3 3 16384 ≤ _
    rw [hcount, freeSlots_preInit]
    decide
  have hrun : ((BuddyOp.putPage 16384 3).run (preInit 0)).isOk = true := by decide
  have hslots := (putPage_plain (desc_preInit 0) (slots_preInit 0) hput
    (eq_ok_valueOr (d := preInit 0) hrun)).2
  rw [hcount, freeSlots_preInit] at hslots
  have hget : (BuddyOp.getFreePage 2).Counted ((BuddyOp.putPage 16384 3).after (preInit 0)) := by
    refine .inr (.inr fun j node hlow => ?_)
    have hmax : j ≤ 15 := hlow.le_max
    show j - 1 + 0 + 128 ≤ (valueOr (preInit 0) ((preInit 0).putPage 16384 3)).freeSlots + 1
    omega
  exact free_pages_counted ((ReflTransGen.single (CountedStep.after hput hrun)).tail
    (CountedStep.after hget (by decide)))

/-- **The counter after an in-order allocation**: one page is put and taken with
`get_free_pages_in_order(0)`; the lists are empty and the counter still says one. -/
theorem free_pages_miscounted : ∃ s, ReflTransGen CallStep (preInit 0) s ∧
    s.freePages = 1 ∧ s.listedPages = 0 := by
  have hput : ((BuddyOp.putPage 4096 1).run (preInit 0)).isOk = true := by decide
  have hget : ((BuddyOp.getFreePagesInOrder 0).run
      ((BuddyOp.putPage 4096 1).after (preInit 0))).isOk = true := by decide
  exact ⟨_, (ReflTransGen.single (CallStep.after hput)).tail (CallStep.after hget),
    by decide, by decide⟩

end Sustcore
