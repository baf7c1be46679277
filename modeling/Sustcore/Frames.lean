/-
# Page frames with references

What the memory objects of the kernel ask of their frame allocator: a frame is handed out
with one reference, `keep_page` takes one more, `put_page` drops one, and a frame is
handed out again only when no reference is left.  `gfpFrames` shows that `GFP` over any
raw allocator does this on a machine below the tracking limit.
-/
import Sustcore.Gfp

namespace Sustcore

/-- A frame allocator; `refs` counts the outstanding references of a page frame. -/
structure FrameAllocator (F : Type) where
  getFreePage : F → ℕ → Except Halt (Result ℕ × F)
  keepPage : F → ℕ → F
  putPage : F → ℕ → Except Halt F
  refs : F → ℕ → ℕ
  WF : F → Prop
  get_ok : ∀ f n a f', WF f → getFreePage f n = .ok (.ok a, f') → WF f' ∧ PAGESIZE ∣ a ∧
    ∀ q, if InFrames (pageOf a) n q then refs f q = 0 ∧ refs f' q = 1 else refs f' q = refs f q
  get_error : ∀ f n e f', WF f → getFreePage f n = .ok (.error e, f') → WF f' ∧
    ∀ q, refs f' q = refs f q
  keep_ok : ∀ f a, WF f → 0 < refs f (pageOf a) → WF (keepPage f a) ∧
    ∀ q, refs (keepPage f a) q = if q = pageOf a then refs f q + 1 else refs f q
  put_ok : ∀ f a f', WF f → 0 < refs f (pageOf a) → putPage f a = .ok f' → WF f' ∧
    ∀ q, refs f' q = if q = pageOf a then refs f q - 1 else refs f q

/-- A request is served, and the allocator is in `f'` then; for no page it is not asked. -/
def FrameAllocator.Serves {F : Type} (P : FrameAllocator F) (f : F) (n : ℕ) (f' : F) : Prop :=
  (n = 0 ∧ f' = f) ∨ (n ≠ 0 ∧ ∃ paddr, P.getFreePage f n = .ok (.ok paddr, f'))

def FrameAllocator.Refuses {F : Type} (P : FrameAllocator F) (f : F) (n : ℕ) : Prop :=
  n ≠ 0 ∧ ∃ e f', P.getFreePage f n = .ok (.error e, f')

/-- A request ends in one way. -/
theorem FrameAllocator.Serves.unique {F : Type} {P : FrameAllocator F} {f f₁ f₂ : F} {n : ℕ}
    (h₁ : P.Serves f n f₁) (h₂ : P.Serves f n f₂) : f₁ = f₂ := by
  rcases h₁ with ⟨hzero, rfl⟩ | ⟨hne, a₁, hget₁⟩
  · rcases h₂ with ⟨-, rfl⟩ | ⟨hne, -⟩
    · rfl
    · exact absurd hzero hne
  · rcases h₂ with ⟨hzero, -⟩ | ⟨-, a₂, hget₂⟩
    · exact absurd hzero hne
    · cases hget₁.symm.trans hget₂
      rfl

theorem FrameAllocator.Serves.not_refuses {F : Type} {P : FrameAllocator F} {f f' : F} {n : ℕ}
    (h : P.Serves f n f') : ¬P.Refuses f n := by
  rintro ⟨hne, e, f₂, hrefused⟩
  rcases h with ⟨hzero, -⟩ | ⟨-, a, hget⟩
  · exact hne hzero
  · cases hget.symm.trans hrefused

section Gfp

variable {S : Type} (R : RawGfp S)

/-- What `GFP` keeps on a machine below the tracking limit: the raw allocator holds no
page with a reference. -/
structure Gfp.WF (g : Gfp S) : Prop where
  raw : R.WF g.raw
  owned : ∀ x ∈ R.owned g.raw, pageOf x < MAX_TRACKED_PAGES ∧ g.refcounts (pageOf x) = 0
  tracked : ∀ q, 0 < g.refcounts q → q < MAX_TRACKED_PAGES
  nonnull : g.refcounts 0 = 0

variable {R}

/-- Before the first allocation no frame has a reference. -/
theorem Gfp.wf_fresh {s : S} (hwf : R.WF s)
    (hlow : ∀ x ∈ R.owned s, pageOf x < MAX_TRACKED_PAGES) : Gfp.WF R ⟨s, fun _ => 0⟩ where
  raw := hwf
  owned := fun x hx => ⟨hlow x hx, rfl⟩
  tracked := fun _ hq => absurd hq (lt_irrefl 0)
  nonnull := rfl

theorem Gfp.WF.get {g g' : Gfp S} {n a : ℕ} (hwf : g.WF R)
    (h : g.getFreePage R n = .ok (.ok a, g')) : g'.WF R ∧ PAGESIZE ∣ a ∧
      ∀ q, if InFrames (pageOf a) n q then g.refcounts q = 0 ∧ g'.refcounts q = 1
        else g'.refcounts q = g.refcounts q := by
  obtain ⟨hraw, hal, hne, hsum, hdis, hrest, hone⟩ := Gfp.getFreePage_spec hwf.raw h
  rw [topfn_eq_pageOf] at hne hsum hdis hrest hone
  have hfree : ∀ q, InFrames (pageOf a) n q → q < MAX_TRACKED_PAGES ∧ g.refcounts q = 0 := by
    intro q hq
    have hpage : pageOf (q * PAGESIZE) = q := Nat.mul_div_cancel q (by decide)
    have hx := hwf.owned (q * PAGESIZE) ((hsum _).mpr (Or.inr (by rwa [hpage])))
    rwa [hpage] at hx
  have hset : ∀ q, InFrames (pageOf a) n q → g'.refcounts q = 1 := by
    intro q hq
    have hlast := (hfree (pageOf a + n - 1) (by omega)).1
    exact hone (by omega) q hq
  refine ⟨⟨hraw, ?_, ?_, ?_⟩, hal, ?_⟩
  · intro x hx
    rw [hrest _ (hdis x hx)]
    exact hwf.owned x ((hsum x).mpr (Or.inl hx))
  · intro q hq
    by_cases hin : InFrames (pageOf a) n q
    · exact (hfree q hin).1
    · rw [hrest q hin] at hq
      exact hwf.tracked q hq
  · rw [hrest 0 (by omega)]
    exact hwf.nonnull
  · intro q
    split
    · rename_i hin
      exact ⟨(hfree q hin).2, hset q hin⟩
    · rename_i hin
      exact hrest q hin

theorem Gfp.WF.keep {g : Gfp S} {a : ℕ} (hwf : g.WF R) (hpos : 0 < g.refcounts (pageOf a)) :
    (g.keepPage a 1).WF R ∧ ∀ q, (g.keepPage a 1).refcounts q =
      if q = pageOf a then g.refcounts q + 1 else g.refcounts q := by
  have hlow := hwf.tracked _ hpos
  have ht : Sustcore.tracked a 1 = true :=
    (tracked_iff (by decide)).mpr (by rw [topfn_eq_pageOf]; omega)
  have hkeep : g.keepPage a 1 = ⟨g.raw, keepLoop (pageOf a) 1 0 g.refcounts⟩ := by
    unfold Gfp.keepPage
    rw [ht, if_neg (by decide), topfn_eq_pageOf]
  have hrc : ∀ q, (g.keepPage a 1).refcounts q =
      if q = pageOf a then g.refcounts q + 1 else g.refcounts q := by
    intro q
    rw [hkeep]
    show keepLoop (pageOf a) 1 0 g.refcounts q = _
    rw [keepLoop_eq]
    split_ifs <;> omega
  refine ⟨⟨?_, ?_, ?_, ?_⟩, hrc⟩
  · rw [hkeep]
    exact hwf.raw
  · intro x hx
    rw [hkeep] at hx
    have hx' := hwf.owned x hx
    rwa [hrc, if_neg (by rintro heq; rw [heq] at hx'; omega)]
  · intro q hq
    rw [hrc] at hq
    by_cases heq : q = pageOf a
    · rwa [heq]
    · rw [if_neg heq] at hq
      exact hwf.tracked q hq
  · have h0 : (0 : ℕ) ≠ pageOf a := by
      intro heq
      rw [← heq, hwf.nonnull] at hpos
      omega
    rw [hrc, if_neg h0]
    exact hwf.nonnull

theorem Gfp.WF.puts {g g' : Gfp S} {a n : ℕ} (hwf : g.WF R) (hn : n ≠ 0)
    (hpos : ∀ q, InFrames (pageOf a) n q → 0 < g.refcounts q) (h : g.putPage R a n = .ok g') :
    g'.WF R ∧ ∀ q, g'.refcounts q =
      if InFrames (pageOf a) n q then g.refcounts q - 1 else g.refcounts q := by
  have hlow : ∀ q, InFrames (pageOf a) n q → q < MAX_TRACKED_PAGES :=
    fun q hq => hwf.tracked q (hpos q hq)
  have hne : a ≠ 0 := by
    rintro rfl
    have hfirst := hpos (pageOf 0) (by omega)
    rw [show pageOf 0 = 0 from rfl, hwf.nonnull] at hfirst
    omega
  have hlast := hlow (pageOf a + n - 1) (by omega)
  obtain ⟨hraw, howned, hrc⟩ := Gfp.putPage_spec hwf.raw (fun _ => hne)
    (fun _ => by rw [topfn_eq_pageOf]; omega)
    (fun x hx hin => by
      rw [topfn_eq_pageOf] at hin
      have hzero := (hwf.owned x hx).2
      have hheld := hpos _ hin
      omega) h
  rw [topfn_eq_pageOf] at howned hrc
  refine ⟨⟨hraw, ?_, ?_, ?_⟩, hrc⟩
  · intro x hx
    rw [hrc]
    rcases (howned x).mp hx with hx | ⟨hin, hle⟩
    · obtain ⟨hlt, hzero⟩ := hwf.owned x hx
      exact ⟨hlt, by split <;> omega⟩
    · rw [if_pos hin]
      exact ⟨hlow _ hin, by omega⟩
  · intro q hq
    rw [hrc] at hq
    apply hwf.tracked q
    split at hq <;> omega
  · rw [hrc]
    have := hwf.nonnull
    split <;> omega

theorem Gfp.WF.put {g g' : Gfp S} {a : ℕ} (hwf : g.WF R) (hpos : 0 < g.refcounts (pageOf a))
    (h : g.putPage R a 1 = .ok g') : g'.WF R ∧ ∀ q, g'.refcounts q =
      if q = pageOf a then g.refcounts q - 1 else g.refcounts q := by
  have hone : ∀ q, InFrames (pageOf a) 1 q ↔ q = pageOf a := fun q => by omega
  obtain ⟨hwf', hrc⟩ := hwf.puts one_ne_zero
    (fun q hq => by rw [(hone q).mp hq]; exact hpos) h
  simp only [hone] at hrc
  exact ⟨hwf', hrc⟩

variable (R)

/-- **`GFP` is such a frame allocator.** -/
def gfpFrames : FrameAllocator (Gfp S) where
  getFreePage := Gfp.getFreePage R
  keepPage g a := g.keepPage a 1
  putPage g a := g.putPage R a 1
  refs g q := g.refcounts q
  WF := Gfp.WF R
  get_ok := fun _ _ _ _ hwf h => hwf.get h
  get_error := by
    intro g n e g' hwf h
    obtain ⟨raw, hget, rfl⟩ := Gfp.getFreePage_error h
    obtain ⟨hraw, hsub⟩ := R.get_error _ _ _ _ hwf.raw hget
    exact ⟨⟨hraw, fun x hx => hwf.owned x (hsub hx), hwf.tracked, hwf.nonnull⟩, fun _ => rfl⟩
  keep_ok := fun _ _ hwf hpos => hwf.keep hpos
  put_ok := fun _ _ _ hwf hpos h => hwf.put hpos h

end Gfp

/-! ## A small machine -/

def fourPages : Buddy :=
  Except.valueOr (Buddy.preInit 0) ((Buddy.preInit 0).putPage 0x10000 4)

theorem fourPages_wf : (gfpFrames buddyRaw).WF ⟨fourPages, fun _ => 0⟩ := by
  have hput : (Buddy.preInit 0).putPage 0x10000 4 = .ok fourPages :=
    Except.eq_ok_valueOr (by decide)
  obtain ⟨hwf, howned⟩ := preInit_putPage_owned (by decide) hput
  refine Gfp.wf_fresh (R := buddyRaw) hwf ?_
  intro x hx
  have hx' : x ∈ fourPages.owned := hx
  rw [howned, mem_pageRange_iff_pageOf (by decide)] at hx'
  exact lt_of_lt_of_le hx'.2 (by decide)

end Sustcore
