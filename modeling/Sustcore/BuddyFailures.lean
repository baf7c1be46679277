/-
# Requests that the buddy allocator refuses

`get_free_page` takes its block, counts the pages and only then looks after the descriptor pools.
If the last step fails, the request returns an error and keeps the pages: `get_failure_harmless`
says that an error leaves the free lists and the counter alone exactly if there was no block for
the request in the first place.

The allocator whose free pages have no neighbours (`scattered`) has as many descriptors in use as
free pages; a run of the allocator reaches it (`scattered_run`).
-/
import Sustcore.BuddyRuns

namespace Sustcore

open Dyadic Relation List Buddy Except Function

/-! ## The counter -/

/-- A slot request leaves the counter alone. -/
def AllocFrame (alloc : Buddy → Except Halt (Result BlockRef × Buddy)) : Prop :=
  ∀ s r s', alloc s = .ok (r, s') → s'.freePages = s.freePages

/-- Putting a block leaves the counter alone. -/
def PutFrame (put : Buddy → ℕ → ℕ → Except Halt Buddy) : Prop :=
  ∀ s a k s', put s a k = .ok s' → s'.freePages = s.freePages

section Frame

variable {alloc : Buddy → Except Halt (Result BlockRef × Buddy)}
  {put : Buddy → ℕ → ℕ → Except Halt Buddy} {s s' : Buddy}

theorem Merged.freePages {ref : BlockRef} {buddy : FreeBlock} (h : Merged s ref buddy s') :
    s'.freePages = s.freePages := by
  obtain ⟨t, ht, hs'⟩ := h.freed
  rw [freeFreeblock_freePages hs', freeFreeblock_freePages ht, unlinkBlock_freePages]

theorem putLoop_frame (ha : AllocFrame alloc) : ∀ n s a k s',
    putLoop alloc n s a k = .ok s' → s'.freePages = s.freePages := by
  intro n
  induction n with
  | zero =>
    intro s a k s' h
    rw [← ok.inj h]
  | succ n ih =>
    intro s a k s' h
    obtain ⟨ref, s₁, halloc, ⟨-, rfl⟩ | ⟨buddy, s₂, -, -, hmerge, hrest⟩⟩ := putLoop_succ_eq_ok h
    · exact ha s _ s₁ halloc
    · rw [ih _ _ _ _ hrest, hmerge.freePages]
      exact ha s _ s₁ halloc

theorem putPageInOrderWith_frame (ha : AllocFrame alloc) : PutFrame (putPageInOrderWith alloc) := by
  intro s a k s' h
  rcases putPageInOrderWith_eq_ok h with ⟨-, rfl⟩ | ⟨-, -, -, hloop⟩
  · rfl
  · exact putLoop_frame ha _ s a k s' hloop

theorem splitLoop_frame (hp : PutFrame put) (a k : ℕ) : ∀ d s s',
    splitLoop put a k d s = .ok s' → s'.freePages = s.freePages := by
  intro d
  induction d with
  | zero =>
    intro s s' h
    rw [← ok.inj h]
  | succ d ih =>
    intro s s' h
    obtain ⟨t, ht, h⟩ := bind_eq_ok_iff.mp h
    exact (ih t s' h).trans (hp s _ _ t ht)

theorem fetchFrameOrderWith_frame (hp : PutFrame put) {k : ℕ} {r : Result ℕ}
    (h : fetchFrameOrderWith put s k = .ok (r, s')) : s'.freePages = s.freePages := by
  rcases fetchFrameOrderWith_eq_ok h with ⟨-, rfl⟩ | ⟨j, node, t, -, -, -, -, ht, hsplit⟩
  · rfl
  · rw [splitLoop_frame hp _ _ _ t s' hsplit, freeFreeblock_freePages ht, unlinkBlock_freePages]

theorem addNewPoolWith_frame (hp : PutFrame put) {r : Result Unit}
    (h : addNewPoolWith (fetchFrameOrderWith put) s = .ok (r, s')) :
    s'.freePages = s.freePages := by
  rcases addNewPoolWith_eq_ok h with ⟨e, -, hfetch⟩ | ⟨a, t, -, hfetch, rfl⟩
  · exact fetchFrameOrderWith_frame hp hfetch
  · have hframe := fetchFrameOrderWith_frame hp hfetch
    exact hframe

theorem addMemoryLoop_frame (hp : PutFrame put) : ∀ n remain addr s s',
    addMemoryLoop put n remain addr s = .ok s' → s'.freePages = s.freePages := by
  intro n
  induction n with
  | zero =>
    intro remain addr s s' h
    rw [← ok.inj h]
  | succ n ih =>
    intro remain addr s s' h
    rcases addMemoryLoop_succ_eq_ok h with ⟨-, rfl⟩ | ⟨order, t, -, ht, hrest⟩
    · rfl
    · exact (ih _ _ t s' hrest).trans (hp s _ _ t ht)

theorem allocFreeblockWith_frame {add : Buddy → Except Halt (Result Unit × Buddy)}
    (ha : ∀ s r s', add s = .ok (r, s') → s'.freePages = s.freePages) :
    AllocFrame (allocFreeblockWith add) := by
  intro s r s' h
  rcases allocFreeblockWith_eq_ok h with
    ⟨ref, p, -, -, -, rfl⟩ | ⟨res, t, hadd, ⟨e, -, rfl⟩ | ⟨ref, p, -, -, -, rfl⟩⟩
  · rfl
  · exact ha s res s' hadd
  · exact ha s res t hadd

end Frame

theorem allocFreeblock_frame : ∀ fuel, AllocFrame (allocFreeblock fuel) := by
  intro fuel
  induction fuel with
  | zero =>
    apply allocFreeblockWith_frame
    intro s r s' h
    cases h
  | succ fuel ih =>
    apply allocFreeblockWith_frame
    intro s r s' h
    exact addNewPoolWith_frame (putPageInOrderWith_frame ih) h

theorem putOrder_frame (fuel : ℕ) : PutFrame (putOrder fuel) :=
  putPageInOrderWith_frame (allocFreeblock_frame fuel)

/-! ## Errors of `get_free_page` -/

/-- No block is large enough for a request of this order. -/
def Buddy.NoBlock (s : Buddy) (order : ℕ) : Prop :=
  ∀ k, order ≤ k → k ≤ MAX_BUDDY_ORDER → s.freeArea k = []

theorem fetchOrder_noBlock {fuel k : ℕ} {s s' : Buddy} {r : Result ℕ}
    (h : fetchOrder fuel s k = .ok (r, s')) :
    (s.NoBlock k ∧ r = .error .outOfMemory ∧ s' = s) ∨ (¬s.NoBlock k ∧ ∃ a, r = .ok a) := by
  unfold fetchOrder fetchFrameOrderWith at h
  split at h
  · rename_i hnone
    cases h
    refine .inl ⟨fun j hkj hj => ?_, rfl, rfl⟩
    have hj' := find?_eq_none.mp hnone j (mem_range'_1.mpr (by omega))
    simpa using hj'
  · rename_i j hj
    have hrange := mem_range'_1.mp (mem_of_find?_eq_some hj)
    split at h
    · cases h
    rename_i node rest harea
    obtain ⟨t, -, h⟩ := bind_eq_ok_iff.mp h
    obtain ⟨u, -, h⟩ := bind_eq_ok_iff.mp h
    cases h
    refine .inr ⟨fun hnone => ?_, _, rfl⟩
    rw [hnone j hrange.1 (by omega)] at harea
    cases harea

/-- **What an error of `get_free_page` leaves behind.**  The pages on the free lists and the
counter are as before exactly if the request was out of range or there was no block for it. -/
theorem get_failure_harmless {s s' : Buddy} {n : ℕ} {e : ErrCode}
    (h : s.getFreePage n = .ok (.error e, s')) :
    (s'.freeBytes = s.freeBytes ∧ s'.freePages = s.freePages) ↔
      n = 0 ∨ 2 ^ MAX_BUDDY_ORDER < n ∨ s.NoBlock (pages2order n) := by
  rcases getPages_eq_ok h with ⟨_, -, ⟨hs, hrange⟩ | hfetch⟩ |
    ⟨a, t, u, res, hn, hmax, hfetch, hrest, hle, hexp, -⟩
  · rw [hs]
    exact ⟨fun _ => hrange.imp_right .inl, fun _ => ⟨rfl, rfl⟩⟩
  · rcases fetchOrder_noBlock hfetch with ⟨hnone, -, hs⟩ | ⟨-, a, ha⟩
    · rw [hs]
      exact ⟨fun _ => .inr (.inr hnone), fun _ => ⟨rfl, rfl⟩⟩
    · cases ha
  · -- a block was found, so that the counter has changed
    have hcount : s'.freePages + n = s.freePages := by
      have ht : t.freePages = s.freePages := fetchFrameOrderWith_frame (putOrder_frame _) hfetch
      have hu : u.freePages = t.freePages := by
        rcases hrest with ⟨-, hadd⟩ | ⟨-, rfl⟩
        · exact addMemoryLoop_frame (putOrder_frame _) _ _ _ t u hadd
        · rfl
      have hs' : s'.freePages = u.freePages - n := by
        rcases expandPool_eq_ok hexp with ⟨-, rfl⟩ | ⟨m, -, hadd⟩
        · rfl
        · have hframe := addNewPoolWith_frame (putOrder_frame m) hadd
          exact hframe
      omega
    constructor
    · omega
    · rintro (h0 | hbig | hnone)
      · omega
      · omega
      · rcases fetchOrder_noBlock hfetch with ⟨-, herr, -⟩ | ⟨hblock, -⟩
        · cases herr
        · exact absurd hnone hblock

/-! ## Pages without neighbours -/

/-- The allocator that holds `m` free pages, every second one from `base` on, and counts `count`
pages. -/
def scattered (pool0 base count m : ℕ) : Buddy where
  freeArea := fun k =>
    if k = 0 then (range m).map fun i => ⟨⟨0, 4 + i⟩, base + 0x2000 * i, 0⟩ else []
  pools := [⟨pool0, fun i => decide (i < 4 + m), 4 + m⟩]
  freePages := count

/-- Three pages without neighbours are free and two together are asked for. -/
theorem get_failure_harmless_scattered : ∃ s',
    (scattered 0x80000000 0x1000 3 3).getFreePage 2 = .ok (.error .outOfMemory, s') ∧
      s'.freeBytes = (scattered 0x80000000 0x1000 3 3).freeBytes ∧ s'.freePages = 3 := by
  have hfail : failed ((scattered 0x80000000 0x1000 3 3).getFreePage 2) = some .outOfMemory := by
    decide +kernel
  have hcall := eq_ok_of_failed (preInit 0) hfail
  refine ⟨_, hcall, (get_failure_harmless hcall).mpr (.inr (.inr fun k hk _ => if_neg ?_))⟩
  have hk : 1 ≤ k := hk
  omega

theorem scattered_zero (pool0 base : ℕ) : scattered pool0 base 0 0 = preInit pool0 := by
  unfold scattered preInit initPool
  simp

theorem linkInto_last {node : FreeBlock} {l : List FreeBlock}
    (h : ∀ b ∈ l, b.paddr < node.paddr) : linkInto node l = l ++ [node] := by
  have hafter : ∀ l : List FreeBlock, (∀ b ∈ l, b.paddr < node.paddr) →
      linkAfter node l = l ++ [node] := by
    intro l
    induction l with
    | nil => intro _; rfl
    | cons b bs ih =>
      intro hl
      rw [linkAfter, if_pos (hl b mem_cons_self),
        ih fun c hc => hl c (mem_cons_of_mem b hc), cons_append]
  cases l with
  | nil => rfl
  | cons b bs =>
    have hb := h b mem_cons_self
    rw [linkInto, if_neg (by omega), hafter bs fun c hc => h c (mem_cons_of_mem b hc),
      cons_append]

theorem allocFreeblock_of_slot (fuel : ℕ) {s : Buddy} {ref : BlockRef}
    (h : findSlot s.pools = some ref) : allocFreeblock fuel s = .ok (.ok ref, s.takeSlot ref) := by
  cases fuel with
  | zero =>
    rw [allocFreeblock, allocFreeblockWith, h]
    rfl
  | succ fuel =>
    rw [allocFreeblock, allocFreeblockWith, h]
    rfl

theorem putOrder_plain {fuel : ℕ} {s : Buddy} {ref : BlockRef} {a k : ℕ}
    (hslot : findSlot s.pools = some ref) (ha : a ≠ 0) (hk : k ≤ MAX_BUDDY_ORDER)
    (hal : blockSizeForOrder k ∣ a) (hbuddy : k = MAX_BUDDY_ORDER ∨
      ((s.takeSlot ref).linkBlock ⟨ref, a, k⟩).findBuddyNode ⟨ref, a, k⟩ = none) :
    putOrder fuel s a k = .ok ((s.takeSlot ref).linkBlock ⟨ref, a, k⟩) := by
  have hloop : ∀ n, putLoop (allocFreeblock fuel) (n + 1) s a k =
      .ok ((s.takeSlot ref).linkBlock ⟨ref, a, k⟩) := by
    intro n
    rw [putLoop, allocFreeblock_of_slot fuel hslot]
    show (if k = MAX_BUDDY_ORDER then _ else _) = _
    rcases hbuddy with hmax | hnone
    · rw [if_pos hmax]
      rfl
    by_cases hmax : k = MAX_BUDDY_ORDER
    · rw [if_pos hmax]
      rfl
    · rw [if_neg hmax]
      simp only [hnone]
      rfl
  unfold putOrder putPageInOrderWith
  rw [if_neg ha, decide_eq_true hk, decide_eq_true (Nat.mod_eq_zero_of_dvd hal)]
  obtain ⟨n, hn⟩ : ∃ n, MAX_BUDDY_ORDER + 1 - k = n + 1 := ⟨MAX_BUDDY_ORDER - k, by omega⟩
  rw [hn]
  exact hloop n

section Scattered

variable {pool0 base count m : ℕ}

/-- The next descriptor. -/
theorem findSlot_scattered (hm : m < 508) :
    findSlot (scattered pool0 base count m).pools = some ⟨0, 4 + m⟩ := by
  have hclear : FreeBlockPool.firstClear ⟨pool0, fun i => decide (i < 4 + m), 4 + m⟩ =
      some (4 + m) := by
    unfold FreeBlockPool.firstClear
    rw [find?_range'_eq_some]
    refine ⟨by simp, mem_range'_1.mpr (by simp; omega), ?_⟩
    simp
  unfold scattered findSlot
  simp only [hclear]
  rw [if_neg (by simp only [FREEBLOCK_POOL_SIZE]; omega)]

/-- The list of free pages grows at its end. -/
theorem scattered_succ : ((scattered pool0 base count m).takeSlot ⟨0, 4 + m⟩).linkBlock
    ⟨⟨0, 4 + m⟩, base + 0x2000 * m, 0⟩ = scattered pool0 base count (m + 1) := by
  unfold linkBlock takeSlot scattered
  simp only [mk.injEq, and_true]
  refine ⟨?_, ?_⟩
  · funext k
    by_cases hk : k = 0
    · subst hk
      rw [linkInto_last]
      · simp [range_succ]
      · simp only [if_pos, mem_map, mem_range]
        rintro b ⟨i, hi, rfl⟩
        simp only
        omega
    · rw [update_of_ne hk, if_neg hk, if_neg hk]
  · show [FreeBlockPool.take _ (4 + m)] = _
    simp only [FreeBlockPool.take, cons.injEq, FreeBlockPool.mk.injEq, true_and, and_true]
    refine ⟨?_, by omega⟩
    funext i
    by_cases hi : i = 4 + m
    · subst hi
      simp
    · rw [update_of_ne hi]
      simp only [decide_eq_decide]
      omega

/-- Pages that are not next to each other are no buddies. -/
theorem findBuddyNode_scattered (hbase : base % 0x2000 = 0x1000) :
    (((scattered pool0 base count m).takeSlot ⟨0, 4 + m⟩).linkBlock
      ⟨⟨0, 4 + m⟩, base + 0x2000 * m, 0⟩).findBuddyNode
        ⟨⟨0, 4 + m⟩, base + 0x2000 * m, 0⟩ = none := by
  have hmem : ∀ k, ∀ b ∈ (scattered pool0 base count m).freeArea k,
      ∃ i < m, b = ⟨⟨0, 4 + i⟩, base + 0x2000 * i, 0⟩ := by
    intro k b hb
    unfold scattered at hb
    simp only at hb
    split at hb
    · obtain ⟨i, hi, rfl⟩ := mem_map.mp hb
      exact ⟨i, mem_range.mp hi, rfl⟩
    · cases hb
  rw [Option.eq_none_iff_forall_ne_some]
  intro b hfind
  obtain ⟨hb, hpaddr⟩ := findBuddyNode_eq_some (fun k b hb heq => by
    obtain ⟨i, hi, rfl⟩ := hmem k b hb
    have hidx := congrArg BlockRef.idx heq
    simp only at hidx
    omega) (Nat.zero_le _) hfind
  obtain ⟨i, -, rfl⟩ := hmem 0 b hb
  have hdvd : 2 ^ 12 ∣ base + 0x2000 * m := by omega
  have hcases := buddy_cases hdvd
  have hbuddy : buddy 12 (base + 0x2000 * m) = base + 0x2000 * i := hpaddr.symm
  omega

theorem putPage_scattered (hbase : base % 0x2000 = 0x1000) (hm : m < 508) :
    (scattered pool0 base count m).putPage (base + 0x2000 * m) 1 =
      .ok (scattered pool0 base (count + 1) (m + 1)) := by
  have hput : ∀ fuel, putOrder fuel (scattered pool0 base (count + 1) m)
      (base + 0x2000 * m) 0 = .ok (scattered pool0 base (count + 1) (m + 1)) := by
    intro fuel
    rw [putOrder_plain (findSlot_scattered hm) (by omega) (Nat.zero_le _)
      (by unfold blockSizeForOrder; omega) (.inr (findBuddyNode_scattered hbase)),
      scattered_succ]
  unfold putPage putPages
  rw [if_neg (by omega)]
  have hal : (base + 0x2000 * m) % PAGESIZE = 0 := by
    show (base + 0x2000 * m) % 4096 = 0
    omega
  rw [hal]
  show (do
    let s ← putOrder _ (scattered pool0 base (count + 1) m) (base + 0x2000 * m)
      (fitOrder 1 (base + 0x2000 * m) MAX_BUDDY_ORDER 0)
    addMemoryLoop _ 0 _ _ s) = _
  have hfit : fitOrder 1 (base + 0x2000 * m) MAX_BUDDY_ORDER 0 = 0 := by
    rw [fitOrder, if_neg (by omega)]
  rw [hfit, hput]
  rfl

/-- Single pages, each next to no other, can be donated until the descriptors of pool 0 run
out. -/
theorem scattered_run (w : PageWorld) (hst : w.st = scattered pool0 base count 0)
    (hbase : base % 0x2000 = 0x1000) (hfresh : ∀ x ∈ w.donated, x < base) (m : ℕ) (hm : m ≤ 508) :
    ∃ donated : Set ℕ, (∀ x ∈ donated, x < base + 0x2000 * m) ∧ Relation.ReflTransGen PageStep w
        ⟨scattered pool0 base (count + m) m, w.live, w.lost, donated⟩ := by
  induction m with
  | zero =>
    refine ⟨w.donated, hfresh, ?_⟩
    rw [add_zero, ← hst]
  | succ m ih =>
    obtain ⟨donated, hbelow, hrun⟩ := ih (by omega)
    refine ⟨donated ∪ pageRange (base + 0x2000 * m) 1, ?_, hrun.tail ?_⟩
    · rintro x (hx | hx)
      · have := hbelow x hx
        omega
      · have hx' : base + 0x2000 * m ≤ x ∧ x < base + 0x2000 * m + 1 * PAGESIZE := hx
        simp only [PAGESIZE] at hx'
        omega
    · refine PageStep.donate ⟨scattered pool0 base (count + m) m, w.live, w.lost, donated⟩
        (by omega) (by simp only [PAGESIZE]; omega) ?_ (putPage_scattered hbase (by omega))
      rw [Set.disjoint_left]
      intro x hx hx'
      have hx'' : base + 0x2000 * m ≤ x ∧ x < base + 0x2000 * m + 1 * PAGESIZE := hx
      have := hbelow x hx'
      omega

end Scattered

/-- After 382 single pages were donated, a request for one page fails: the page is taken, more than
three quarters of pool 0 are in use, and the new pool finds no four pages.  The page is on no list
any more and is no longer counted. -/
theorem get_failure_loses_page : ∃ w s', Relation.ReflTransGen PageStep
    (PageWorld.init 0x80000000) w ∧
    w.st.getFreePage 1 = .ok (.error .outOfMemory, s') ∧
    (w.st.freePages = 382 ∧ (w.st.freeArea 0).length = 382) ∧
    s'.freePages = 381 ∧ (s'.freeArea 0).length = 381 := by
  have hst : (PageWorld.init 0x80000000).st = scattered 0x80000000 0x1000 0 0 :=
    (scattered_zero _ _).symm
  have hfail : failed ((scattered 0x80000000 0x1000 382 382).getFreePage 1) =
      some .outOfMemory := by decide +kernel
  obtain ⟨donated, -, hrun⟩ := scattered_run _ hst rfl
    (fun x hx => absurd hx (Set.notMem_empty x)) 382 (by decide)
  have hcall := eq_ok_of_failed (scattered 0x80000000 0x1000 382 382) hfail
  exact ⟨_, _, hrun, hcall, ⟨rfl, by simp only [scattered]; simp⟩, by decide +kernel,
    by decide +kernel⟩

end Sustcore
