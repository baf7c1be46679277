/-
# MMIO resources in the kernel page table (`kernel/device/resource.cpp`)

`map_to_kernel` maps the pages of a resource at addresses that depend on the physical page only,
and `unmap_from_kernel` takes the entries of its pages away.  Nothing counts the resources of a
page, so two resources on one page share its entry.

The page table is the one of `Sv39`, seen through the partial map it refines at the addresses of
the resources; elsewhere it may have large pages.
-/
import Sustcore.Sv39
import Sustcore.Vma

namespace Sustcore

open Function Relation Sv39

abbrev KVA_OFFSET : ℕ := 0xFFFFFFFF00000000

/-- `MMIOResource`: the aligned base, and the area relative to it. -/
structure MmioResource where
  alignedBase : ℕ
  areaBegin : ℕ
  areaEnd : ℕ
  aligned : PAGESIZE ∣ alignedBase

namespace MmioResource

/-- `MMIOResource(region)`. -/
def make (start stop : ℕ) : MmioResource :=
  ⟨pageAlignDown start, start - pageAlignDown start, wordSub stop (pageAlignDown start),
    Nat.dvd_mul_left _ _⟩

/-- `region().nullable()`. -/
def nullable (r : MmioResource) : Bool :=
  wordAdd r.alignedBase r.areaBegin ≥ wordAdd r.alignedBase r.areaEnd

/-- The pages that `map_range` and `unmap_range` go through. -/
def pages (r : MmioResource) : List ℕ :=
  (List.range (pageAlignUp r.areaEnd / PAGESIZE)).map fun i => wordAdd r.alignedBase (i * PAGESIZE)

theorem aligned_of_mem_pages {r : MmioResource} {p : ℕ} (hp : p ∈ r.pages) : PAGESIZE ∣ p := by
  obtain ⟨i, -, rfl⟩ := List.mem_map.mp hp
  have hbase := r.aligned
  unfold wordAdd
  simp only [PAGESIZE] at hbase ⊢
  omega

end MmioResource

def fromMmioAddr (p : ℕ) : ℕ := wordAdd KVA_OFFSET p

def mmioFlags : PageFlags := ⟨PageRWX.RW, false, false, true⟩

/-- The main kernel page table, and `_mapped` of the resources. -/
structure MmioState (F ι : Type) where
  table : Sv39 F
  mapped : ι → Bool

section

variable {F ι : Type} [DecidableEq ι] (A : FrameAllocator F) (res : ι → MmioResource)

/-- `map_range<false>`. -/
def mapPages : List ℕ → Sv39 F → Except Halt (Sv39 F)
  | [], s => .ok s
  | p :: rest, s => do
      let s ← mapPage A (fromMmioAddr p) p mmioFlags s
      mapPages rest s

/-- `unmap_range`. -/
def unmapPages : List ℕ → Sv39 F → Sv39 F
  | [], s => s
  | p :: rest, s => unmapPages rest (s.unmapPage (fromMmioAddr p))

def mapToKernel (i : ι) : Kernel (MmioState F ι) ℕ := fun s =>
  if (res i).nullable then .ok (.error .invalidParam, s)
  else do
    let table ← mapPages A (res i).pages s.table
    pure (.ok (wordAdd (fromMmioAddr (res i).alignedBase) (res i).areaBegin),
      ⟨table, update s.mapped i true⟩)

def unmapFromKernel (i : ι) : Kernel (MmioState F ι) Unit := fun s =>
  if (res i).nullable then .ok (.error .invalidParam, s)
  else .ok (.ok (), ⟨unmapPages (res i).pages s.table, update s.mapped i false⟩)

/-- Every resource that says so is mapped. -/
def AllMapped (s : MmioState F ι) : Prop :=
  ∀ i, s.mapped i = true → ∀ p ∈ (res i).pages,
    s.table.translate (fromMmioAddr p) = some (p, mmioFlags, ._4K)

/-- No other resource that is mapped has a page of `i`. -/
def Unshared (s : MmioState F ι) (i : ι) : Prop :=
  ∀ j, j ≠ i → s.mapped j = true → ∀ p ∈ (res i).pages, p ∉ (res j).pages

/-- The call for the page `p` of a resource that is mapped or unmapped. -/
def pageOp (b : Bool) (p : ℕ) : Op :=
  if b then .map (fromMmioAddr p) p mmioFlags else .unmap (fromMmioAddr p)

/-- A call: `map_to_kernel` has memory for the tables, and `unmap_from_kernel` shares no page. -/
inductive MmioStep : MmioState F ι → MmioState F ι → Prop
  | map {s s' : MmioState F ι} {i : ι} {r : Result ℕ} (table : Sv39 F)
      (hmemory : Run A ((res i).pages.map (pageOp true)) s.table table)
      (hcall : mapToKernel A res i s = .ok (r, s')) : MmioStep s s'
  | unmap {s s' : MmioState F ι} {i : ι} {r : Result Unit} (hunshared : Unshared res s i)
      (hcall : unmapFromKernel res i s = .ok (r, s')) : MmioStep s s'

variable {A res}

theorem mapPages_of_run : ∀ {l : List ℕ} {s t : Sv39 F}, Run A (l.map (pageOp true)) s t →
    mapPages A l s = .ok t := by
  intro l
  induction l with
  | nil =>
    intro s t h
    cases h
    rfl
  | cons p rest ih =>
    intro s t h
    cases h with
    | cons hstep hrun =>
      cases hstep with
      | map _ _ hmap =>
        rw [mapPages, hmap]
        exact ih hrun

theorem run_unmapPages : ∀ (l : List ℕ) (s : Sv39 F),
    Run A (l.map (pageOp false)) s (unmapPages l s) := by
  intro l
  induction l with
  | nil => exact fun _ => Run.nil
  | cons p rest ih => exact fun s => Run.cons Step.unmap (ih _)

/-! ## The partial map -/

/-- The ways to the pages of the resources through the tables. -/
def MmioPath (res : ι → MmioResource) (path : List ℕ) : Prop :=
  ∃ i, ∃ p ∈ (res i).pages, path = [vpn0 (fromMmioAddr p)] ∨
    path = [vpn0 (fromMmioAddr p), vpn1 (fromMmioAddr p)]

omit [DecidableEq ι] in
theorem paged_of_mem_pages {i : ι} {p : ℕ} (hp : p ∈ (res i).pages) :
    Paged (MmioPath res) (fromMmioAddr p) :=
  ⟨⟨i, p, hp, .inl rfl⟩, ⟨i, p, hp, .inr rfl⟩⟩

/-- A page that has a place of its own in the table. -/
structure Placed (p : ℕ) : Prop where
  aligned : PAGESIZE ∣ p
  physical : p < 2 ^ 56
  canonical : Canonical (fromMmioAddr p)

theorem Placed.aligned_kva {p : ℕ} (h : Placed p) : PAGESIZE ∣ fromMmioAddr p := by
  have := h.aligned
  unfold fromMmioAddr wordAdd KVA_OFFSET PAGESIZE at *
  omega

theorem Placed.injective {p q : ℕ} (hp : Placed p) (hq : Placed q)
    (h : fromMmioAddr p = fromMmioAddr q) : p = q := by
  have := hp.physical
  have := hq.physical
  unfold fromMmioAddr wordAdd KVA_OFFSET at h
  omega

theorem Placed.legal {p : ℕ} (h : Placed p) (b : Bool) : (pageOp b p).Legal := by
  cases b with
  | false => exact ⟨h.aligned_kva, h.canonical⟩
  | true =>
    exact ⟨h.aligned_kva, h.canonical, h.aligned, h.physical, by decide, by decide⟩

variable {m : ℕ → Option (ℕ × PageFlags)}

/-- The entry of a page is free, or its own. -/
def Own (m : ℕ → Option (ℕ × PageFlags)) (p : ℕ) : Prop :=
  m (fromMmioAddr p) = none ∨ m (fromMmioAddr p) = some (p, mmioFlags)

theorem pageOp_apply {b : Bool} {p q : ℕ} (hp : Placed p) (hq : Placed q) (hown : Own m q) :
    (pageOp b p).apply m (fromMmioAddr q) =
      if q = p then (if b then some (q, mmioFlags) else none) else m (fromMmioAddr q) := by
  by_cases hqp : q = p
  · subst hqp
    cases b with
    | false => simp [pageOp, Op.apply]
    | true => rcases hown with hown | hown <;> simp [pageOp, Op.apply, hown]
  · have hne : fromMmioAddr q ≠ fromMmioAddr p := fun h => hqp (hq.injective hp h)
    rw [if_neg hqp]
    cases b with
    | false => exact update_of_ne hne _ _
    | true =>
      simp only [pageOp, if_true, Op.apply]
      split
      · exact update_of_ne hne _ _
      · rfl

/-- **What the calls for a resource do**: the entries of its pages are entered or taken away. -/
theorem foldl_pageOp {b : Bool} : ∀ {l : List ℕ} {m : ℕ → Option (ℕ × PageFlags)} {q : ℕ},
    (∀ p ∈ l, Placed p) → Placed q → Own m q →
    (l.map (pageOp b)).foldl (fun m op => op.apply m) m (fromMmioAddr q) =
      if q ∈ l then (if b then some (q, mmioFlags) else none) else m (fromMmioAddr q) := by
  intro l
  induction l with
  | nil =>
    intro m q _ _ _
    rfl
  | cons p rest ih =>
    intro m q hl hq hown
    have happly := pageOp_apply (b := b) (hl p List.mem_cons_self) hq hown
    have hown' : Own ((pageOp b p).apply m) q := by
      unfold Own
      rw [happly]
      cases b with
      | false => split <;> [exact .inl rfl; exact hown]
      | true => split <;> [exact .inr rfl; exact hown]
    rw [List.map_cons, List.foldl_cons, ih (fun p hp => hl p (List.mem_cons_of_mem _ hp)) hq hown',
      happly]
    by_cases hqp : q = p
    · simp [hqp]
    · simp [hqp]

/-! ## Runs -/

variable (A res) in
/-- The table refines a map in which the pages of the resources have no other entry, and those of
the mapped ones have theirs. -/
structure MmioInv (s : MmioState F ι) (m : ℕ → Option (ℕ × PageFlags)) : Prop where
  refines : Refines A (MmioPath res) s.table m
  own : ∀ i, ∀ p ∈ (res i).pages, Own m p
  mapped : ∀ i, s.mapped i = true → ∀ p ∈ (res i).pages,
    m (fromMmioAddr p) = some (p, mmioFlags)

variable {s s' : MmioState F ι}
  (hplaced : ∀ i, ∀ p ∈ (res i).pages, p < 2 ^ 56 ∧ Canonical (fromMmioAddr p))

include hplaced

omit [DecidableEq ι] in
theorem placed_of_mem_pages {i : ι} {p : ℕ} (hp : p ∈ (res i).pages) : Placed p :=
  ⟨MmioResource.aligned_of_mem_pages hp, (hplaced i p hp).1, (hplaced i p hp).2⟩

omit [DecidableEq ι] in
theorem MmioInv.allMapped (h : MmioInv A res s m) : AllMapped res s := by
  intro i hi p hp
  have hplace := placed_of_mem_pages hplaced hp
  rw [h.refines.translate hplace.aligned_kva hplace.canonical (paged_of_mem_pages hp),
    h.mapped i hi p hp]
  rfl

variable (hphys : ∀ f a f', A.WF f → A.getFreePage f 1 = .ok (.ok a, f') → a < 2 ^ 56)

include hphys

/-- **A resource is mapped, or unmapped** while no other one shares its pages. -/
theorem MmioInv.change (h : MmioInv A res s m) {i : ι} {b : Bool} {table : Sv39 F}
    (hrun : Run A ((res i).pages.map (pageOp b)) s.table table)
    (hunshared : b = false → Unshared res s i) :
    ∃ m', MmioInv A res ⟨table, update s.mapped i b⟩ m' := by
  have hplace : ∀ j, ∀ p ∈ (res j).pages, Placed p := fun j p hp => placed_of_mem_pages hplaced hp
  have hentry : ∀ j, ∀ p ∈ (res j).pages, _ :=
    fun j p hp => foldl_pageOp (b := b) (hplace i) (hplace j p hp) (h.own j p hp)
  refine ⟨_, h.refines.run hphys hrun ?_, ?_, ?_⟩
  · intro op hop
    obtain ⟨p, hp, rfl⟩ := List.mem_map.mp hop
    refine ⟨(hplace i p hp).legal b, ?_⟩
    cases b with
    | false => exact paged_of_mem_pages hp
    | true => exact paged_of_mem_pages hp
  · intro j p hp
    unfold Own
    rw [hentry j p hp]
    cases b with
    | false => split <;> [exact .inl rfl; exact h.own j p hp]
    | true => split <;> [exact .inr rfl; exact h.own j p hp]
  · intro j hj p hp
    rw [hentry j p hp]
    by_cases hji : j = i
    · subst hji
      have hb : b = true := by simpa using hj
      rw [if_pos hp, hb]
      rfl
    · have hj' : s.mapped j = true := by simpa [hji] using hj
      cases b with
      | false =>
        rw [if_neg fun hin => hunshared rfl j hji hj' p hin hp]
        exact h.mapped j hj' p hp
      | true =>
        split
        · rfl
        · exact h.mapped j hj' p hp

theorem MmioInv.step (h : MmioInv A res s m) (hstep : MmioStep A res s s') :
    ∃ m', MmioInv A res s' m' := by
  cases hstep with
  | map table hmemory hcall =>
    unfold mapToKernel at hcall
    split at hcall
    · cases hcall
      exact ⟨m, h⟩
    · rw [mapPages_of_run hmemory] at hcall
      cases hcall
      exact h.change hplaced hphys hmemory nofun
  | unmap hunshared hcall =>
    unfold unmapFromKernel at hcall
    split at hcall
    · cases hcall
      exact ⟨m, h⟩
    · cases hcall
      exact h.change hplaced hphys (run_unmapPages _ _) fun _ => hunshared

/-- **Resources that are mapped stay mapped**, if every page has a place of its own, where the page
table has no large pages and no entries at the start, the tables have memory and no resource is
unmapped that shares a page with another one. -/
theorem mmio_stays_mapped {t : Sv39 F} (htable : t.WellFormed A (MmioPath res))
    (hclean : ∀ i, ∀ p ∈ (res i).pages, t.translate (fromMmioAddr p) = none)
    (hrun : ReflTransGen (MmioStep A res) ⟨t, fun _ => false⟩ s) : AllMapped res s := by
  have hinv : ∃ m, MmioInv A res s m := by
    induction hrun with
    | refl =>
      refine ⟨_, ⟨htable, fun _ _ _ _ => rfl⟩, fun i p hp => .inl ?_, nofun⟩
      have hnone := hclean i p hp
      rw [htable.translate_eq (paged_of_mem_pages hp), Option.map_eq_none_iff] at hnone
      dsimp only
      rw [hnone]
      rfl
    | tail _ hstep ih =>
      obtain ⟨m, h⟩ := ih
      exact h.step hplaced hphys hstep
  obtain ⟨m, h⟩ := hinv
  exact h.allMapped hplaced

end

/-! ## Resources with and without pages of their own -/

/-- The state after `map_to_kernel`. -/
def afterMap (res : Fin 2 → MmioResource) (i : Fin 2) (s : MmioState (Gfp Buddy) (Fin 2)) :
    MmioState (Gfp Buddy) (Fin 2) :=
  (Except.valueOr (.ok 0, s) (mapToKernel (gfpFrames buddyRaw) res i s)).2

theorem mapToKernel_eq_afterMap {res : Fin 2 → MmioResource} {i : Fin 2}
    {s : MmioState (Gfp Buddy) (Fin 2)}
    (h : (mapToKernel (gfpFrames buddyRaw) res i s).isOk = true) :
    ∃ r, mapToKernel (gfpFrames buddyRaw) res i s = .ok (r, afterMap res i s) :=
  ⟨_, Except.eq_ok_valueOr h⟩

/-- Two pages at 0x10000000, and the page behind them. -/
def ports (i : Fin 2) : MmioResource :=
  .make (0x10000000 + i.val * 0x2000) (0x10001800 + i.val * 0x1800)

/-- A kernel table with a page of 1 GiB. -/
def kernelTable : Sv39 (Gfp Buddy) :=
  oneRoot.write 0x10000 2 (Sv39Pte.zero.toLeaf 0x80000000 userPage)

/-- Both are mapped and the second one is unmapped again. -/
theorem mmio_stays_mapped_ports :
    ∃ s, unmapFromKernel ports 1 (afterMap ports 1 (afterMap ports 0 ⟨kernelTable, fun _ => false⟩))
      = .ok (.ok (), s) ∧ s.mapped 0 = true ∧ (ports 0).pages = [0x10000000, 0x10001000] ∧
      s.table.translate (fromMmioAddr 0x10002000) = none ∧ AllMapped ports s := by
  have hpages : (ports 0).pages = [0x10000000, 0x10001000] ∧ (ports 1).pages = [0x10002000] := by
    decide
  have hplaces : ∀ i, ∀ p ∈ (ports i).pages, p < 2 ^ 56 ∧
      (2 ^ 64 - 2 ^ 38 ≤ fromMmioAddr p ∧ fromMmioAddr p < 2 ^ 64) ∧ vpn0 (fromMmioAddr p) ≠ 2 := by
    decide
  have htable : kernelTable.WellFormed (gfpFrames buddyRaw) (MmioPath ports) := by
    obtain ⟨hwf, hal, hroot⟩ := oneRoot_held
    refine (refines_root (s := kernelTable) hwf hal hroot ?_ ?_).wellFormed
    · intro i
      by_cases hi : i = 2
      · subst hi
        rfl
      · exact congrArg Sv39Pte.next (write_of_ne fun h => hi h.2)
    · rintro i ⟨j, p, hp, h | h⟩
      · exact write_of_ne fun hi => (hplaces j p hp).2.2 ((List.cons.inj h).1.symm.trans hi.2)
      · cases h
  obtain ⟨t₁, hfirst⟩ : ∃ t, Run (gfpFrames buddyRaw) ((ports 0).pages.map (pageOp true))
      kernelTable t := by
    rw [hpages.1]
    exact ⟨_, .cons (withPage_step (by decide) (by decide) (by decide))
      (.cons (withPage_step (by decide +kernel) (by decide +kernel) (by decide +kernel)) .nil)⟩
  obtain ⟨t₂, hsecond⟩ : ∃ t, Run (gfpFrames buddyRaw) ((ports 1).pages.map (pageOp true))
      (afterMap ports 0 ⟨kernelTable, fun _ => false⟩).table t := by
    rw [hpages.2]
    exact ⟨_, .cons (withPage_step (by decide +kernel) (by decide +kernel) (by decide +kernel)) .nil⟩
  have hunshared : ∀ j : Fin 2, j ≠ 1 → ∀ p ∈ (ports 1).pages, p ∉ (ports j).pages := by
    decide
  obtain ⟨_, hcall₁⟩ := @mapToKernel_eq_afterMap ports 0
    ⟨kernelTable, fun _ => false⟩ (by decide +kernel)
  obtain ⟨_, hcall₂⟩ := @mapToKernel_eq_afterMap ports 1
    (afterMap ports 0 ⟨kernelTable, fun _ => false⟩) (by decide +kernel)
  refine ⟨_, if_neg (by decide), by decide +kernel, hpages.1, by decide +kernel, ?_⟩
  refine mmio_stays_mapped (fun i p hp => ⟨(hplaces i p hp).1, .inr (hplaces i p hp).2.1⟩)
    gfpFrames_physical htable (by decide +kernel) ?_
  exact ((ReflTransGen.single (.map t₁ hfirst hcall₁)).tail (.map t₂ hsecond hcall₂)).tail
    (.unmap (fun j hj _ => hunshared j hj) (if_neg (by decide)))

/-- The halves of the page at 0x10000000. -/
def halves (i : Fin 2) : MmioResource :=
  .make (0x10000000 + i.val * 0x800) (0x10000800 + i.val * 0x800)

/-- **One half is unmapped, and the other one goes with it.** -/
theorem mmio_shared_page_lost :
    (afterMap halves 1 (afterMap halves 0 ⟨oneRoot, fun _ => false⟩)).mapped 0 = true ∧
    ∃ s', unmapFromKernel halves 1 (afterMap halves 1 (afterMap halves 0 ⟨oneRoot, fun _ => false⟩)) =
      .ok (.ok (), s') ∧ s'.mapped 0 = true ∧ s'.table.translate (fromMmioAddr 0x10000000) = none :=
  ⟨by decide +kernel, _, if_neg (by decide), by decide +kernel, by decide +kernel⟩

end Sustcore
