/-
# The memory of the kernel's heap

The slabs of the different sizes and the runs of pages lie in different pages, each held with a
reference, so what one of them does is confined to its own.  `MemInv` says this of a heap with given
records and blocks; every operation that takes or returns memory keeps it, for the records and
blocks afterwards.
-/
import Sustcore.SlubMalloc

namespace Sustcore

open Function Kernel SlubMalloc Set

/-! ## Another slab allocator over the same memory -/

namespace Slab

variable {F : Type} {c : SlabClass} {P : FrameAllocator F} {s : Slub F} {live : Set ℕ}

theorem slabOf_of_aligned {slab : ℕ} (h : PAGESIZE ∣ slab) : slabOf slab = slab := by
  replace h : 4096 ∣ slab := h
  show slab / 4096 * 4096 = slab
  omega

theorem Inv.elsewhere (h : Inv c P s live) {lists : SlabState → List ℕ} {t : Slub F}
    (hconf : Confined P ⟨s.frames, s.header, s.word, lists⟩ t) (hwf : P.WF t.frames)
    (hapart : ∀ state state' slab, slab ∈ s.lists state → slab ∉ lists state') :
    Inv c P ⟨t.frames, t.header, t.word, s.lists⟩ live := by
  have hforeign : ∀ state, ∀ slab ∈ s.lists state, ∀ a, slabOf a = slab → KPA_OFFSET ≤ a →
      Foreign P ⟨s.frames, s.header, s.word, lists⟩ a := by
    intro state slab hslab a ha hkernel
    refine ⟨hkernel, ?_, ?_⟩
    · rw [← pageAt_slabOf, ha]
      exact (h.slab state slab hslab).1.held
    · intro state'
      rw [ha]
      exact hapart state state' slab hslab
  have hself : ∀ state, ∀ slab ∈ s.lists state, t.header slab = s.header slab := by
    intro state slab hslab
    have hok := (h.slab state slab hslab).1
    exact hconf.header slab (hforeign state slab hslab slab (slabOf_of_aligned hok.aligned) hok.kernel)
  refine ⟨hwf, h.nodup, h.apart, ?_, ?_, h.live⟩
  · intro state slab hslab
    rw [hself state slab hslab]
    exact h.state state slab hslab
  · intro state slab hslab
    obtain ⟨hok, hmatch⟩ := h.slab state slab hslab
    refine ⟨hok.congr (hconf.refs _ hok.held) (hself state slab hslab) ?_ fun _ _ => Iff.rfl, ?_⟩
    · intro o ho
      have hslabof := slabOf_object hok.aligned ho
      obtain ⟨i, hi, heq⟩ := c.mem_objects.mp ho
      have hlow := (c.object_bounds hok.aligned hi).1
      have hkernel := hok.kernel
      exact hconf.word o (hforeign state slab hslab o hslabof (by omega))
    · rwa [hself state slab hslab]

end Slab

namespace SlubMalloc

open Slab

variable {F : Type}

/-! ## The invariant -/

/-- The objects of a cache that are handed out: the records, or the blocks of its size. -/
def objectsOf (addrs : Set ℕ) (blocks : Set (ℕ × ℕ)) (k : Cache) : Set ℕ :=
  if k = .records then addrs else {p | (p, k.size) ∈ blocks}

/-- The pages of a large block. -/
abbrev InRun (b : ℕ × ℕ) (q : ℕ) : Prop := InFrames (pageAt b.1) (getPages b.2) q

/-- A block has the size of a cache, or it is large. -/
def SizeOk (size : ℕ) : Prop := (∃ k, cacheOfSize size = some k) ∨ (KMAX ≤ size ∧ size ≤ 2 ^ 63)

/-- **The memory of the heap**, with records at `addrs` and with `blocks` handed out. -/
structure MemInv (P : PageAllocator F) (h : Heap F) (addrs : Set ℕ) (blocks : Set (ℕ × ℕ)) :
    Prop where
  size : ∀ b ∈ blocks, SizeOk b.2
  cache : ∀ k, Inv k.cls P.toFrameAllocator (h.slub k) (objectsOf addrs blocks k)
  apart : ∀ k k' state state' slab, slab ∈ h.caches k state → slab ∈ h.caches k' state' → k = k'
  run : ∀ b ∈ blocks, KMAX ≤ b.2 → PAGESIZE ∣ b.1 ∧ KPA_OFFSET ≤ b.1 ∧
    ∀ q, InRun b q → P.refs h.frames q = 1 ∧ ∀ k state, ∀ slab ∈ h.caches k state, pageAt slab ≠ q
  runs : ∀ b ∈ blocks, ∀ b' ∈ blocks, KMAX ≤ b.2 → KMAX ≤ b'.2 → b ≠ b' → ∀ q, InRun b q →
    ¬InRun b' q

variable {P : PageAllocator F} {h h' : Heap F} {addrs : Set ℕ} {blocks : Set (ℕ × ℕ)}

theorem Cache.size_lt (k : Cache) : k.size < KMAX := k.cls.size_lt

theorem Cache.size_pos (k : Cache) : 0 < k.size := k.cls.size_pos

variable {n ptr size rsz a p : ℕ}

theorem SizeOk.pos (hs : SizeOk size) : 0 < size := by
  rcases hs with ⟨k, hk⟩ | ⟨hk, -⟩
  · rw [← (cacheOfSize_eq_some hk).2]
    exact k.size_pos
  · have hmax : KMAX = 2048 := rfl
    omega

theorem mem_objectsOf_records : a ∈ objectsOf addrs blocks .records ↔ a ∈ addrs := Iff.rfl

variable {k k' : Cache}

theorem mem_objectsOf (hk : k ≠ .records) :
    p ∈ objectsOf addrs blocks k ↔ (p, k.size) ∈ blocks := by
  unfold objectsOf
  rw [if_neg hk]
  rfl

theorem Cache.eq_of_size (hk : k ≠ .records) (hk' : k' ≠ .records)
    (h : k.size = k'.size) : k = k' := by
  have hfind := cacheOfSize_size hk
  rw [h, cacheOfSize_size hk'] at hfind
  exact (Option.some.inj hfind).symm

/-! ## Code of one cache -/

theorem slub_setSlub_self (h : Heap F) (k : Cache) (s : Slub F) : (h.setSlub k s).slub k = s := by
  show Slub.mk s.frames s.header s.word (update h.caches k s.lists k) = s
  rw [update_self]

theorem slub_setSlub_of_ne (h : Heap F) (hne : k' ≠ k) (s : Slub F) :
    (h.setSlub k s).slub k' = ⟨s.frames, s.header, s.word, h.caches k'⟩ := by
  show Slub.mk s.frames s.header s.word (update h.caches k s.lists k') = _
  rw [update_of_ne hne]

theorem onCache_eq_ok {α : Type} {x : Kernel (Slub F) α} {r : Result α} :
    onCache k x h = .ok (r, h') ↔ ∃ s, x (h.slub k) = .ok (r, s) ∧ h' = h.setSlub k s :=
  Except.bind_part_eq_ok (h.setSlub k)

variable {e : Halt}

theorem onCache_eq_halt {α : Type} {x : Kernel (Slub F) α} :
    onCache k x h = .error e ↔ x (h.slub k) = .error e := by
  unfold onCache
  rw [Except.bind_eq_error_iff]
  constructor
  · rintro (hx | ⟨a, -, hx⟩)
    · exact hx
    · cases hx
  · exact .inl

/-- **A step of one cache**, which changes its own objects only. -/
theorem MemInv.setSlub (hm : MemInv P h addrs blocks) {s : Slub F} {addrs' : Set ℕ}
    {blocks' : Set (ℕ × ℕ)} (hconf : Confined P.toFrameAllocator (h.slub k) s)
    (hinv : Inv k.cls P.toFrameAllocator s (objectsOf addrs' blocks' k))
    (hother : ∀ k', k' ≠ k → objectsOf addrs' blocks' k' = objectsOf addrs blocks k')
    (hsize : ∀ b ∈ blocks', SizeOk b.2) (hlarge : ∀ b ∈ blocks', KMAX ≤ b.2 → b ∈ blocks) :
    MemInv P (h.setSlub k s) addrs' blocks' := by
  -- a slab of the cache is an old one, or its page was free
  have hslabs : ∀ k' state slab, slab ∈ (h.setSlub k s).caches k' state →
      (∃ state', slab ∈ h.caches k' state') ∨
        (k' = k ∧ P.refs h.frames (pageAt slab) = 0) := by
    intro k' state slab hslab
    by_cases hk : k' = k
    · subst hk
      replace hslab : slab ∈ update h.caches k' s.lists k' state := hslab
      rw [update_self] at hslab
      rcases hconf.slabs state slab hslab with hold | hnew
      · exact .inl hold
      · exact .inr ⟨rfl, hnew⟩
    · replace hslab : slab ∈ update h.caches k s.lists k' state := hslab
      rw [update_of_ne hk] at hslab
      exact .inl ⟨state, hslab⟩
  have hheld : ∀ k' state slab, slab ∈ h.caches k' state → 0 < P.refs h.frames (pageAt slab) :=
    fun k' state slab hslab => ((hm.cache k').slab state slab hslab).1.held
  refine ⟨hsize, ?_, ?_, ?_, ?_⟩
  · intro k'
    by_cases hk : k' = k
    · rwa [hk, slub_setSlub_self]
    · rw [slub_setSlub_of_ne h hk, hother k' hk]
      refine (hm.cache k').elsewhere hconf hinv.frames ?_
      intro state state' slab hslab hslab'
      exact hk (hm.apart k' k state state' slab hslab hslab')
  · intro k₁ k₂ state₁ state₂ slab h₁ h₂
    rcases hslabs k₁ state₁ slab h₁ with ⟨st₁, ho₁⟩ | ⟨hk₁, hz₁⟩
    · rcases hslabs k₂ state₂ slab h₂ with ⟨st₂, ho₂⟩ | ⟨hk₂, hz₂⟩
      · exact hm.apart k₁ k₂ st₁ st₂ slab ho₁ ho₂
      · have := hheld k₁ st₁ slab ho₁
        omega
    · rcases hslabs k₂ state₂ slab h₂ with ⟨st₂, ho₂⟩ | ⟨hk₂, -⟩
      · have := hheld k₂ st₂ slab ho₂
        omega
      · rw [hk₁, hk₂]
  · intro b hb hbig
    obtain ⟨haligned, hkernel, hrun⟩ := hm.run b (hlarge b hb hbig) hbig
    refine ⟨haligned, hkernel, ?_⟩
    intro q hq
    obtain ⟨hone, hnone⟩ := hrun q hq
    have hrefs : P.refs s.frames q = P.refs h.frames q := hconf.refs q (by
      show 0 < P.refs h.frames q
      omega)
    refine ⟨hrefs.trans hone, ?_⟩
    intro k' state slab hslab heq
    rcases hslabs k' state slab hslab with ⟨state', hold⟩ | ⟨-, hzero⟩
    · exact hnone k' state' slab hold heq
    · rw [heq] at hzero
      omega
  · intro b hb b' hb' hbig hbig'
    exact hm.runs b (hlarge b hb hbig) b' (hlarge b' hb' hbig') hbig hbig'

theorem objectsOf_insert (hk : k ≠ .records) (p : ℕ) (k' : Cache) :
    objectsOf addrs (insert (p, k.size) blocks) k' =
      if k' = k then insert p (objectsOf addrs blocks k) else objectsOf addrs blocks k' := by
  by_cases heq : k' = k
  · subst heq
    rw [if_pos rfl]
    ext x
    rw [mem_objectsOf hk, mem_insert_iff, mem_insert_iff, mem_objectsOf hk]
    simp
  · rw [if_neg heq]
    by_cases hrec : k' = .records
    · rw [hrec]
      rfl
    · ext x
      have hsize : k'.size ≠ k.size := fun h => heq (Cache.eq_of_size hrec hk h)
      rw [mem_objectsOf hrec, mem_objectsOf hrec]
      simp [hsize]

theorem objectsOf_diff (hk : k ≠ .records) (p : ℕ) (k' : Cache) :
    objectsOf addrs (blocks \ {(p, k.size)}) k' =
      if k' = k then objectsOf addrs blocks k \ {p} else objectsOf addrs blocks k' := by
  by_cases heq : k' = k
  · subst heq
    rw [if_pos rfl]
    ext x
    rw [mem_objectsOf hk, mem_sdiff, mem_sdiff, mem_objectsOf hk, mem_singleton_iff,
      mem_singleton_iff, Prod.mk.injEq]
    simp
  · rw [if_neg heq]
    by_cases hrec : k' = .records
    · rw [hrec]
      rfl
    ext x
    have hsize : k'.size ≠ k.size := fun h => heq (Cache.eq_of_size hrec hk h)
    rw [mem_objectsOf hrec, mem_objectsOf hrec, mem_sdiff, mem_singleton_iff, Prod.mk.injEq]
    simp [hsize]

/-! ## Pages -/

/-- **A change of the page allocator** that leaves the pages of the slabs alone. -/
theorem MemInv.setFrames (hm : MemInv P h addrs blocks) {frames : F} {blocks' : Set (ℕ × ℕ)}
    (hwf : P.WF frames) (hslabs : ∀ k state, ∀ slab ∈ h.caches k state,
      P.refs frames (pageAt slab) = P.refs h.frames (pageAt slab))
    (hsize : ∀ b ∈ blocks', SizeOk b.2) (hsmall : ∀ b, b.2 < KMAX → (b ∈ blocks' ↔ b ∈ blocks))
    (hrun : ∀ b ∈ blocks', KMAX ≤ b.2 → PAGESIZE ∣ b.1 ∧ KPA_OFFSET ≤ b.1 ∧ ∀ q, InRun b q →
      P.refs frames q = 1 ∧ ∀ k state, ∀ slab ∈ h.caches k state, pageAt slab ≠ q)
    (hruns : ∀ b ∈ blocks', ∀ b' ∈ blocks', KMAX ≤ b.2 → KMAX ≤ b'.2 → b ≠ b' → ∀ q, InRun b q →
      ¬InRun b' q) : MemInv P { h with frames := frames } addrs blocks' := by
  refine ⟨hsize, ?_, hm.apart, hrun, hruns⟩
  intro k
  have hlive : objectsOf addrs blocks' k = objectsOf addrs blocks k := by
    by_cases hk : k = .records
    · rw [hk]
      rfl
    · ext p
      rw [mem_objectsOf hk, mem_objectsOf hk]
      exact hsmall _ k.size_lt
  rw [hlive]
  exact (hm.cache k).other (w := ⟨h.slub k, objectsOf addrs blocks k⟩) hwf
    (fun state slab hslab => hslabs k state slab hslab) (fun _ _ _ => rfl)
    (fun a ha => absurd rfl ha)

variable {r : Result (Option ℕ)}

theorem takePages_eq_ok (hcall : takePages P n h = .ok (r, h')) :
    ∃ frames, h' = { h with frames := frames } ∧
      ((∃ e, P.getFreePage h.frames n = .ok (.error e, frames) ∧ r = .ok none) ∨
        ∃ paddr, P.getFreePage h.frames n = .ok (.ok paddr, frames) ∧
          r = .ok (some (paddr + KPA_OFFSET))) := by
  unfold takePages at hcall
  rw [get_bind] at hcall
  rcases bind_eq_ok.mp hcall with ⟨e, hget, -⟩ | ⟨⟨res, frames⟩, t, hget, hrest⟩
  · obtain ⟨a, -, hr, -⟩ := ofHalt_eq_ok.mp hget
    cases hr
  obtain ⟨a, hget', hr, rfl⟩ := ofHalt_eq_ok.mp hget
  cases hr
  refine ⟨frames, ?_⟩
  cases res with
  | error e =>
    obtain ⟨rfl, rfl⟩ := pure_eq_ok.mp hrest
    exact ⟨rfl, .inl ⟨e, hget', rfl⟩⟩
  | ok paddr =>
    obtain ⟨rfl, rfl⟩ := pure_eq_ok.mp hrest
    exact ⟨rfl, .inr ⟨paddr, hget', rfl⟩⟩

theorem takePages_eq_halt (hcall : takePages P n h = .error e) :
    P.getFreePage h.frames n = .error e := by
  unfold takePages at hcall
  rw [get_bind] at hcall
  rcases bind_eq_halt.mp hcall with hget | ⟨⟨res, frames⟩, t, -, hrest⟩
  · exact ofHalt_eq_halt.mp hget
  · cases res with
    | error e' => cases hrest
    | ok paddr => cases hrest

/-- **A large block.** -/
theorem MemInv.takePages (hm : MemInv P h addrs blocks) (hsize : KMAX ≤ rsz) (hmax : rsz ≤ 2 ^ 63)
    (hcall : takePages P (getPages rsz) h = .ok (r, h')) :
    h'.records = h.records ∧ ((r = .ok none ∧ MemInv P h' addrs blocks) ∨
      ∃ ptr, r = .ok (some ptr) ∧ (ptr, rsz) ∉ blocks ∧
        MemInv P h' addrs (insert (ptr, rsz) blocks)) := by
  have hwf : P.WF h.frames := (hm.cache .records).frames
  have hheld : ∀ k state, ∀ slab ∈ h.caches k state, 0 < P.refs h.frames (pageAt slab) :=
    fun k state slab hslab => ((hm.cache k).slab state slab hslab).1.held
  obtain ⟨frames, rfl, ⟨e, hget, rfl⟩ | ⟨paddr, hget, rfl⟩⟩ := takePages_eq_ok hcall
  · obtain ⟨hwf', hrefs⟩ := P.get_error _ _ _ _ hwf hget
    refine ⟨rfl, .inl ⟨rfl, hm.setFrames hwf' (fun _ _ _ _ => hrefs _) hm.size
      (fun _ _ => Iff.rfl) ?_ hm.runs⟩⟩
    intro b hb hbig
    obtain ⟨haligned, hkernel, hrun⟩ := hm.run b hb hbig
    refine ⟨haligned, hkernel, fun q hq => ⟨?_, (hrun q hq).2⟩⟩
    rw [hrefs]
    exact (hrun q hq).1
  · obtain ⟨hwf', haligned, hrefs⟩ := P.get_ok _ _ _ _ hwf hget
    set ptr := paddr + KPA_OFFSET with hptr
    have hpage : pageAt ptr = pageOf paddr := by
      unfold pageAt
      rw [hptr, Nat.add_sub_cancel]
    -- the pages of the run were free
    have hnew : ∀ q, InRun (ptr, rsz) q → P.refs h.frames q = 0 ∧ P.refs frames q = 1 := by
      intro q hq
      have hq' := hrefs q
      rwa [if_pos (by rwa [← hpage])] at hq'
    have hold : ∀ q, 0 < P.refs h.frames q → P.refs frames q = P.refs h.frames q := by
      intro q hpos
      have hq' := hrefs q
      rwa [if_neg] at hq'
      intro hin
      have := (hnew q (by show InFrames (pageAt ptr) _ q; rwa [hpage])).1
      omega
    have hfirst : InRun (ptr, rsz) (pageAt ptr) := by
      have := getPages_pos rsz
      exact ⟨le_rfl, by dsimp only; omega⟩
    have hfresh : ∀ b ∈ blocks, KMAX ≤ b.2 → ∀ q, InRun b q → ¬InRun (ptr, rsz) q := by
      intro b hb hbig q hq hq'
      have h1 := ((hm.run b hb hbig).2.2 q hq).1
      have h0 := (hnew q hq').1
      omega
    have hnot : (ptr, rsz) ∉ blocks := fun hin => hfresh _ hin hsize _ hfirst hfirst
    refine ⟨rfl, .inr ⟨ptr, rfl, hnot, hm.setFrames hwf' ?_ ?_ ?_ ?_ ?_⟩⟩
    · intro k state slab hslab
      exact hold _ (hheld k state slab hslab)
    · rintro b (rfl | hb)
      · exact .inr ⟨hsize, hmax⟩
      · exact hm.size b hb
    · intro b hb
      rw [mem_insert_iff]
      constructor
      · rintro (rfl | hin)
        · exact absurd hb (not_lt.mpr hsize)
        · exact hin
      · exact .inr
    · rintro b (rfl | hb) hbig
      · refine ⟨?_, Nat.le_add_left _ _, ?_⟩
        · exact (Nat.dvd_add_right haligned).mpr (by decide)
        · intro q hq
          refine ⟨(hnew q hq).2, ?_⟩
          intro k state slab hslab heq
          have hpos := hheld k state slab hslab
          rw [heq, (hnew q hq).1] at hpos
          exact absurd hpos (lt_irrefl 0)
      · obtain ⟨haligned', hkernel, hrun⟩ := hm.run b hb hbig
        refine ⟨haligned', hkernel, fun q hq => ⟨?_, (hrun q hq).2⟩⟩
        have hone := (hrun q hq).1
        rwa [hold q (by omega)]
    · rintro b (rfl | hb) b' (rfl | hb') hbig hbig' hne q hq hq'
      · exact hne rfl
      · exact hfresh b' hb' hbig' q hq' hq
      · exact hfresh b hb hbig q hq hq'
      · exact hm.runs b hb b' hb' hbig hbig' hne q hq hq'

theorem givePages_eq_ok {r : Result Unit} (hcall : givePages P ptr n h = .ok (r, h')) :
    r = .ok () ∧ ∃ frames, P.putPages h.frames (ptr - KPA_OFFSET) n = .ok frames ∧
      h' = { h with frames := frames } := by
  unfold givePages at hcall
  rw [get_bind] at hcall
  rcases bind_eq_ok.mp hcall with ⟨e, hput, -⟩ | ⟨frames, t, hput, hrest⟩
  · obtain ⟨a, -, hr, -⟩ := ofHalt_eq_ok.mp hput
    cases hr
  obtain ⟨a, hput', hr, rfl⟩ := ofHalt_eq_ok.mp hput
  cases hr
  obtain ⟨rfl, rfl⟩ := modify_eq_ok.mp hrest
  exact ⟨rfl, frames, hput', rfl⟩

theorem givePages_eq_halt (hcall : givePages P ptr n h = .error e) :
    P.putPages h.frames (ptr - KPA_OFFSET) n = .error e := by
  unfold givePages at hcall
  rw [get_bind] at hcall
  rcases bind_eq_halt.mp hcall with hput | ⟨frames, t, -, hrest⟩
  · exact ofHalt_eq_halt.mp hput
  · cases hrest

theorem MemInv.givePages (hm : MemInv P h addrs blocks) (hb : (ptr, rsz) ∈ blocks)
    (hsize : KMAX ≤ rsz) {r : Result Unit}
    (hcall : givePages P ptr (getPages rsz) h = .ok (r, h')) : r = .ok () ∧ h'.records = h.records ∧
      (∀ q, P.refs h'.frames q = if InRun (ptr, rsz) q then 0 else P.refs h.frames q) ∧
      MemInv P h' addrs (blocks \ {(ptr, rsz)}) := by
  have hwf : P.WF h.frames := (hm.cache .records).frames
  obtain ⟨-, -, hrun⟩ := hm.run _ hb hsize
  obtain ⟨rfl, frames, hput, rfl⟩ := givePages_eq_ok hcall
  obtain ⟨hwf', hrefs⟩ := P.puts_ok _ _ _ _ hwf (getPages_pos rsz).ne'
    (fun q hq => by rw [(hrun q hq).1]; exact one_pos) hput
  have hzero : ∀ q, P.refs frames q = if InRun (ptr, rsz) q then 0 else P.refs h.frames q := by
    intro q
    rw [hrefs q]
    by_cases hq : InRun (ptr, rsz) q
    · rw [if_pos hq, if_pos (show InFrames (pageOf (ptr - KPA_OFFSET)) _ q from hq), (hrun q hq).1]
    · rw [if_neg hq, if_neg (show ¬InFrames (pageOf (ptr - KPA_OFFSET)) _ q from hq)]
  refine ⟨rfl, rfl, hzero, hm.setFrames hwf' ?_ (fun b hb' => hm.size b hb'.1) ?_ ?_ ?_⟩
  · intro k state slab hslab
    rw [hzero, if_neg]
    intro hin
    exact (hrun _ hin).2 k state slab hslab rfl
  · intro b hsmall
    rw [mem_sdiff, mem_singleton_iff]
    constructor
    · exact And.left
    · intro hin
      refine ⟨hin, ?_⟩
      rintro rfl
      exact absurd hsmall (not_lt.mpr hsize)
  · rintro b ⟨hb', hne⟩ hbig
    obtain ⟨haligned, hkernel, hrun'⟩ := hm.run b hb' hbig
    refine ⟨haligned, hkernel, fun q hq => ⟨?_, (hrun' q hq).2⟩⟩
    rw [hzero, if_neg (hm.runs b hb' _ hb hbig hsize hne q hq)]
    exact (hrun' q hq).1
  · rintro b ⟨hb₁, -⟩ b' ⟨hb₂, -⟩
    exact hm.runs b hb₁ b' hb₂

/-! ## Blocks -/

theorem MemInv.byte_small (hm : MemInv P h addrs blocks)
    (hb : (p, size) ∈ blocks) (hk : cacheOfSize size = some k) (hle : p ≤ a) (hlt : a < p + size) :
    p ∈ objectsOf addrs blocks k ∧ KPA_OFFSET ≤ a ∧ ∃ state, slabOf a ∈ h.caches k state := by
  obtain ⟨hrec, rfl⟩ := cacheOfSize_eq_some hk
  have hmem : p ∈ objectsOf addrs blocks k := (mem_objectsOf hrec).mpr hb
  obtain ⟨state, hslab, hobj⟩ := (hm.cache k).live p hmem
  have hok := ((hm.cache k).slab state _ hslab).1
  have hsize : k.size ≤ k.cls.objSize := k.cls.rawSize_le_objSize
  have hsame := slabOf_inside hok.aligned hobj hle (by omega)
  obtain ⟨i, hi, heq⟩ := k.cls.mem_objects.mp hobj
  have hlow := (k.cls.object_bounds hok.aligned hi).1
  have hkernel := hok.kernel
  exact ⟨hmem, by omega, state, by rwa [hsame]⟩

theorem MemInv.byte_large (hm : MemInv P h addrs blocks) (hb : (p, size) ∈ blocks)
    (hbig : KMAX ≤ size) (hle : p ≤ a) (hlt : a < p + size) : InRun (p, size) (pageAt a) := by
  obtain ⟨haligned, hkernel, -⟩ := hm.run _ hb hbig
  have hmax : size ≤ 2 ^ 63 := by
    rcases hm.size _ hb with ⟨k, hk⟩ | ⟨-, hmax⟩
    · have hsize := (cacheOfSize_eq_some hk).2
      have := k.size_lt
      omega
    · exact hmax
  have hroom := le_getPages hmax
  show InFrames (pageAt p) (getPages size) (pageAt a)
  generalize getPages size = n at hroom ⊢
  replace haligned : 4096 ∣ p := haligned
  replace hroom : size ≤ n * 4096 := hroom
  show (p - 0xFFFFFFC000000000) / 4096 ≤ (a - 0xFFFFFFC000000000) / 4096 ∧
    (a - 0xFFFFFFC000000000) / 4096 < (p - 0xFFFFFFC000000000) / 4096 + n
  omega

/-- **Blocks do not overlap.** -/
theorem MemInv.disjoint (hm : MemInv P h addrs blocks) {b b' : ℕ × ℕ} (hb : b ∈ blocks)
    (hb' : b' ∈ blocks) (hne : b ≠ b') : b.1 + b.2 ≤ b'.1 ∨ b'.1 + b'.2 ≤ b.1 := by
  obtain ⟨p, size⟩ := b
  obtain ⟨p', size'⟩ := b'
  by_contra hover
  have hpos := (hm.size _ hb).pos
  have hpos' := (hm.size _ hb').pos
  -- a byte that both have
  obtain ⟨a, ha, ha', ha₂, ha₂'⟩ : ∃ a, p ≤ a ∧ a < p + size ∧ p' ≤ a ∧ a < p' + size' :=
    ⟨max p p', le_max_left _ _, by omega, le_max_right _ _, by omega⟩
  rcases hm.size _ hb with ⟨k, hk⟩ | ⟨hbig, -⟩
  · obtain ⟨hmem, hkernel, state, hslab⟩ := hm.byte_small hb hk ha ha'
    rcases hm.size _ hb' with ⟨k', hk'⟩ | ⟨hbig', -⟩
    · obtain ⟨hmem', -, state', hslab'⟩ := hm.byte_small hb' hk' ha₂ ha₂'
      obtain rfl := hm.apart k k' state state' _ hslab hslab'
      have hsize : k.size = size := (cacheOfSize_eq_some hk).2
      have hsize' : k.size = size' := (cacheOfSize_eq_some hk').2
      have hle : k.size ≤ k.cls.objSize := k.cls.rawSize_le_objSize
      have hp : p ≠ p' := by
        rintro rfl
        exact hne (by rw [← hsize, ← hsize'])
      rcases (hm.cache k).disjoint hmem hmem' hp with hd | hd
      · omega
      · omega
    · have hrun := hm.byte_large hb' hbig' ha₂ ha₂'
      exact ((hm.run _ hb' hbig').2.2 _ hrun).2 k state _ hslab (pageAt_slabOf _)
  · have hrun := hm.byte_large hb hbig ha ha'
    rcases hm.size _ hb' with ⟨k', hk'⟩ | ⟨hbig', -⟩
    · obtain ⟨-, hkernel, state', hslab'⟩ := hm.byte_small hb' hk' ha₂ ha₂'
      exact ((hm.run _ hb hbig).2.2 _ hrun).2 k' state' _ hslab' (pageAt_slabOf _)
    · exact hm.runs _ hb _ hb' hbig hbig' hne _ hrun (hm.byte_large hb' hbig' ha₂ ha₂')

theorem smallMalloc_eq (hk : cacheOfSize rsz = some k) :
    allocBlock P rsz = onCache k (alloc k.cls P.toFrameAllocator) := by
  have hlt : rsz < KMAX := (cacheOfSize_eq_some hk).2 ▸ k.size_lt
  have hcontains : containsSmallSize rsz = true := by
    unfold containsSmallSize
    rw [hk]
    rfl
  unfold allocBlock smallMalloc
  rw [if_neg (not_le.mpr hlt), hcontains, if_neg (by decide), hk]

theorem freeInner_small (hk : cacheOfSize rsz = some k) :
    freeInner P ptr rsz = onCache k (Slab.free ptr) := by
  have hlt : rsz < KMAX := (cacheOfSize_eq_some hk).2 ▸ k.size_lt
  have hcontains : containsSmallSize rsz = true := by
    unfold containsSmallSize
    rw [hk]
    rfl
  unfold freeInner
  rw [if_neg (not_le.mpr hlt), hcontains, if_neg (by decide), hk]

theorem largeMalloc_eq (hbig : KMAX ≤ 2 ^ n) :
    allocBlock P (2 ^ n) = takePages P (getPages (2 ^ n)) := by
  unfold allocBlock largeMalloc
  rw [if_pos hbig, isPow2_two_pow, if_neg (by decide)]

/-- The pages that the page allocator is asked for when there is to be a block of a size. -/
def Heap.blockPages (h : Heap F) (rsz : ℕ) : ℕ :=
  match cacheOfSize rsz with
  | some k => (h.slub k).pages
  | none => getPages rsz

theorem Heap.blockPages_small (h : Heap F) (hk : cacheOfSize rsz = some k) :
    h.blockPages rsz = (h.slub k).pages := by
  unfold Heap.blockPages
  rw [hk]

theorem Heap.blockPages_large (h : Heap F) (hbig : KMAX ≤ rsz) : h.blockPages rsz = getPages rsz := by
  unfold Heap.blockPages
  cases hk : cacheOfSize rsz with
  | none => rfl
  | some k => exact absurd ((cacheOfSize_eq_some hk).2 ▸ k.size_lt) (not_lt.mpr hbig)

def Heap.recordPages (h : Heap F) : ℕ := (h.slub .records).pages

/-- **The block of `malloc`.** -/
theorem MemInv.allocBlock (hm : MemInv P h addrs blocks) (hsize : SizeOk (2 ^ n))
    (hcall : allocBlock P (2 ^ n) h = .ok (r, h')) :
    h'.records = h.records ∧
    ((r = .ok none ∧ MemInv P h' addrs blocks ∧ P.Refuses h.frames (h.blockPages (2 ^ n))) ∨
      ∃ ptr, r = .ok (some ptr) ∧ (ptr, 2 ^ n) ∉ blocks ∧
        MemInv P h' addrs (insert (ptr, 2 ^ n) blocks) ∧
        P.Serves h.frames (h.blockPages (2 ^ n)) h'.frames ∧ h'.recordPages = h.recordPages) := by
  rcases hsize with ⟨k, hk⟩ | ⟨hbig, hmax⟩
  · obtain ⟨hrec, hks⟩ := cacheOfSize_eq_some hk
    rw [smallMalloc_eq hk] at hcall
    obtain ⟨s, halloc, rfl⟩ := onCache_eq_ok.mp hcall
    obtain ⟨hconf, hcases⟩ := (hm.cache k).alloc halloc
    rw [h.blockPages_small hk]
    refine ⟨rfl, ?_⟩
    rcases hcases with ⟨rfl, hinv, hrefused⟩ | ⟨ptr, rfl, hnot, hinv, hserved⟩
    · exact .inl ⟨rfl, hm.setSlub hconf hinv (fun _ _ => rfl) hm.size (fun _ hb _ => hb), hrefused⟩
    have hpages : (h.setSlub k s).recordPages = h.recordPages := by
      unfold Heap.recordPages
      rw [slub_setSlub_of_ne h (Ne.symm hrec)]
      rfl
    rw [← hks]
    rw [mem_objectsOf hrec] at hnot
    refine .inr ⟨ptr, rfl, hnot, hm.setSlub hconf ?_ ?_ ?_ ?_, hserved, hpages⟩
    · rwa [objectsOf_insert hrec, if_pos rfl]
    · intro k' hk'
      rw [objectsOf_insert hrec, if_neg hk']
    · rintro b (rfl | hb)
      · exact .inl ⟨k, by rw [hks]; exact hk⟩
      · exact hm.size b hb
    · rintro b (rfl | hb) hbig
      · exact absurd k.size_lt (not_lt.mpr hbig)
      · exact hb
  · rw [largeMalloc_eq hbig] at hcall
    rw [h.blockPages_large hbig]
    obtain ⟨hrec, hcases⟩ := hm.takePages hbig hmax hcall
    have hasked : getPages (2 ^ n) ≠ 0 := (getPages_pos _).ne'
    obtain ⟨frames, rfl, ⟨e, hget, rfl⟩ | ⟨paddr, hget, rfl⟩⟩ := takePages_eq_ok hcall
    · rcases hcases with ⟨-, hm'⟩ | ⟨ptr, hr, -⟩
      · exact ⟨hrec, .inl ⟨rfl, hm', hasked, e, frames, hget⟩⟩
      · cases hr
    · rcases hcases with ⟨hr, -⟩ | ⟨ptr, hr, hnot, hm'⟩
      · cases hr
      · exact ⟨hrec, .inr ⟨ptr, hr, hnot, hm', .inr ⟨hasked, paddr, hget⟩, rfl⟩⟩

theorem MemInv.allocBlock_stops (hm : MemInv P h addrs blocks) (hsize : SizeOk (2 ^ n))
    (hcall : SlubMalloc.allocBlock P (2 ^ n) h = .error e) :
    h.blockPages (2 ^ n) ≠ 0 ∧ P.getFreePage h.frames (h.blockPages (2 ^ n)) = .error e := by
  rcases hsize with ⟨k, hk⟩ | ⟨hbig, -⟩
  · rw [smallMalloc_eq hk] at hcall
    obtain ⟨hone, hstop⟩ := (hm.cache k).alloc_stops (onCache_eq_halt.mp hcall)
    rw [h.blockPages_small hk, hone]
    exact ⟨one_ne_zero, hstop⟩
  · rw [largeMalloc_eq hbig] at hcall
    rw [h.blockPages_large hbig]
    exact ⟨(getPages_pos _).ne', takePages_eq_halt hcall⟩

/-- **The record of `malloc`.** -/
theorem MemInv.newRecord (hm : MemInv P h addrs blocks) (hcall : newRecord P h = .ok (r, h')) :
    h'.records = h.records ∧
    ((r = .ok none ∧ MemInv P h' addrs blocks ∧ P.Refuses h.frames h.recordPages) ∨
      ∃ addr, r = .ok (some addr) ∧ addr ∉ addrs ∧ MemInv P h' (insert addr addrs) blocks ∧
        P.Serves h.frames h.recordPages h'.frames) := by
  obtain ⟨s, halloc, rfl⟩ := onCache_eq_ok.mp hcall
  obtain ⟨hconf, hcases⟩ := (hm.cache .records).alloc halloc
  refine ⟨rfl, ?_⟩
  rcases hcases with ⟨rfl, hinv, hrefused⟩ | ⟨addr, rfl, hnot, hinv, hserved⟩
  · exact .inl ⟨rfl, hm.setSlub hconf hinv (fun _ _ => rfl) hm.size (fun _ hb _ => hb), hrefused⟩
  · refine .inr ⟨addr, rfl, hnot, hm.setSlub hconf hinv ?_ hm.size (fun _ hb _ => hb), hserved⟩
    intro k hk
    unfold objectsOf
    rw [if_neg hk, if_neg hk]

theorem MemInv.newRecord_stops (hm : MemInv P h addrs blocks)
    (hcall : SlubMalloc.newRecord P h = .error e) :
    h.recordPages = 1 ∧ P.getFreePage h.frames 1 = .error e :=
  (hm.cache .records).alloc_stops (onCache_eq_halt.mp hcall)

/-- **`free_inner`** of a block: the slab of an object stays where it is, and the pages of a run, and
no others, have no reference any more. -/
theorem MemInv.freeInner (hm : MemInv P h addrs blocks) (hb : (ptr, size) ∈ blocks)
    {r : Result Unit} (hcall : freeInner P ptr size h = .ok (r, h')) :
    r = .ok () ∧ h'.records = h.records ∧ (∀ k, cacheOfSize size = some k → h'.frames = h.frames ∧
        ptr ∈ k.cls.objects (slabOf ptr) ∧ ∃ state, slabOf ptr ∈ h'.caches k state) ∧ (KMAX ≤ size →
        ∀ q, P.refs h'.frames q = if InRun (ptr, size) q then 0 else P.refs h.frames q) ∧
      MemInv P h' addrs (blocks \ {(ptr, size)}) := by
  rcases hm.size _ hb with ⟨k, hk⟩ | ⟨hbig, -⟩
  · obtain ⟨hrec, hks⟩ := cacheOfSize_eq_some hk
    dsimp only at hk hks
    rw [freeInner_small hk] at hcall
    obtain ⟨s, hfree, rfl⟩ := onCache_eq_ok.mp hcall
    have hmem : ptr ∈ objectsOf addrs blocks k := (mem_objectsOf hrec).mpr (by rwa [hks])
    obtain ⟨s', hfree', hconf, hinv, state, hslab⟩ := (hm.cache k).free hmem
    obtain ⟨rfl, rfl⟩ := ok_inj (hfree.symm.trans hfree')
    have hnew : MemInv P (h.setSlub k s) addrs (blocks \ {(ptr, size)}) := by
      rw [← hks]
      refine hm.setSlub hconf ?_ ?_ (fun b hb' => hm.size b hb'.1) fun b hb' _ => hb'.1
      · rwa [objectsOf_diff hrec, if_pos rfl]
      · intro k' hk'
        rw [objectsOf_diff hrec, if_neg hk']
    refine ⟨rfl, rfl, ?_, ?_, hnew⟩
    · intro k' hk'
      cases hk.symm.trans hk'
      obtain ⟨-, -, hobj⟩ := (hm.cache k).live ptr hmem
      refine ⟨(free_frames ptr _ _ _ hfree).symm, hobj, state, ?_⟩
      show slabOf ptr ∈ update h.caches k s.lists k state
      rwa [update_self]
    · intro hbig
      have := k.size_lt
      omega
  · unfold SlubMalloc.freeInner at hcall
    rw [if_pos hbig] at hcall
    obtain ⟨hr, hrec, hrefs, hnew⟩ := hm.givePages hb hbig hcall
    refine ⟨hr, hrec, ?_, fun _ => hrefs, hnew⟩
    intro k hk
    have hsize : k.size = size := (cacheOfSize_eq_some hk).2
    have hlt := k.size_lt
    dsimp only at hbig
    omega

theorem MemInv.freeInner_stops (hm : MemInv P h addrs blocks) (hb : (ptr, size) ∈ blocks)
    (hcall : SlubMalloc.freeInner P ptr size h = .error e) :
    P.putPages h.frames (ptr - KPA_OFFSET) (getPages size) = .error e := by
  rcases hm.size _ hb with ⟨k, hk⟩ | ⟨hbig, -⟩
  · obtain ⟨hrec, hks⟩ := cacheOfSize_eq_some hk
    rw [freeInner_small hk] at hcall
    have hmem : ptr ∈ objectsOf addrs blocks k := (mem_objectsOf hrec).mpr (by rwa [hks])
    obtain ⟨s', hfree, -⟩ := (hm.cache k).free hmem
    rw [onCache_eq_halt, hfree] at hcall
    cases hcall
  · unfold SlubMalloc.freeInner at hcall
    rw [if_pos hbig] at hcall
    exact givePages_eq_halt hcall

/-- **`operator delete`** of a record. -/
theorem MemInv.deleteRecord (hm : MemInv P h addrs blocks) {addr : ℕ} (ha : addr ∈ addrs) :
    ∃ s, onCache .records (Slab.free addr) h = .ok (.ok (), h.setSlub .records s) ∧
      s.frames = h.frames ∧ MemInv P (h.setSlub .records s) (addrs \ {addr}) blocks := by
  obtain ⟨s, hfree, hconf, hinv, -⟩ := (hm.cache .records).free (mem_objectsOf_records.mpr ha)
  refine ⟨s, onCache_eq_ok.mpr ⟨s, hfree, rfl⟩, (free_frames addr _ _ _ hfree).symm, ?_⟩
  refine hm.setSlub hconf hinv ?_ hm.size fun _ hb _ => hb
  intro k hk
  unfold objectsOf
  rw [if_neg hk, if_neg hk]

theorem MemInv.setRecords (hm : MemInv P h addrs blocks) (records : List AllocRecord) :
    MemInv P { h with records := records } addrs blocks :=
  ⟨hm.size, hm.cache, hm.apart, hm.run, hm.runs⟩

end SlubMalloc

end Sustcore
