/-
# Runs of the reference-counted page allocator

A run of `get_free_page`, `keep_page` and `put_page` over a raw allocator.  The ghost state
counts, for every page that is handed out, the calls of `keep_page` and `put_page` on it
since then; a page whose references count leaves the ghost state with the put that follows as
many puts as there were keeps, any other page with the first put.

* Below the tracking limit a page goes back to the raw allocator exactly with that put, and
  the first put of an untracked range gives its pages back (`references_counted`).
* So a page at or above the limit that was kept is handed out again after one put
  (`untracked_page_reused`).
-/
import Sustcore.Ledger
import Sustcore.Gfp

namespace Sustcore

open Relation Option Except Set

/-! ## Worlds and steps -/

/-- Calls on a page since it was handed out. -/
structure PageUse where
  keeps : ℕ
  puts : ℕ
  deriving DecidableEq, Repr

/-- The allocator and, for each page frame that is handed out, the calls on it. -/
structure GfpWorld (S : Type) where
  gfp : Gfp S
  uses : ℕ → Option PageUse

/-- Change the entries of some frames. -/
def onFrames (p n : ℕ) (f : ℕ → Option PageUse → Option PageUse) (uses : ℕ → Option PageUse) :
    ℕ → Option PageUse :=
  fun q => if InFrames p n q then f q (uses q) else uses q

def PageUse.kept (u : PageUse) : PageUse := { u with keeps := u.keeps + 1 }

/-- One more put; the put after as many puts as keeps is the last one. -/
def PageUse.put (u : PageUse) : Option PageUse :=
  if u.puts < u.keeps then some { u with puts := u.puts + 1 } else none

/-- A range on one side of the tracking limit. -/
def OneSided (a n : ℕ) : Prop := topfn a + n ≤ MAX_TRACKED_PAGES ∨ MAX_TRACKED_PAGES ≤ topfn a

/-- The frames whose references the table counts. -/
def belowLimit (q : ℕ) : Bool := decide (q < MAX_TRACKED_PAGES)

section Runs

variable {S : Type} (R : RawGfp S) (counts : ℕ → Bool)

/-- A put of the frame `q`. -/
def putUse (q : ℕ) (use : Option PageUse) : Option PageUse :=
  if counts q then use.bind PageUse.put else none

/-- One call; `counts` are the frames whose references count. -/
inductive GfpStep : GfpWorld S → GfpWorld S → Prop
  | get (w : GfpWorld S) {n a : ℕ} {g : Gfp S} (hside : OneSided a n)
      (h : w.gfp.getFreePage R n = .ok (.ok a, g)) :
      GfpStep w ⟨g, onFrames (topfn a) n (fun _ _ => some ⟨0, 0⟩) w.uses⟩
  | getFails (w : GfpWorld S) {n : ℕ} {e : ErrCode} {g : Gfp S}
      (h : w.gfp.getFreePage R n = .ok (.error e, g)) : GfpStep w { w with gfp := g }
  | keep (w : GfpWorld S) (a n : ℕ) (hside : OneSided a n) :
      GfpStep w ⟨w.gfp.keepPage a n, onFrames (topfn a) n (fun _ => Option.map .kept) w.uses⟩
  | put (w : GfpWorld S) {a n : ℕ} {g : Gfp S} (hside : OneSided a n)
      (hout : ∀ q, InFrames (topfn a) n q → (w.uses q).isSome = true)
      (h : w.gfp.putPage R a n = .ok g) :
      GfpStep w ⟨g, onFrames (topfn a) n (putUse counts) w.uses⟩

/-- A machine before its first allocation: nothing is handed out, the table is arbitrary. -/
def GfpWorld.fresh (s : S) (refcounts : ℕ → ℕ) : GfpWorld S := ⟨⟨s, refcounts⟩, fun _ => none⟩

/-- What holds in every world of a run. -/
structure GfpWorld.Inv (w : GfpWorld S) : Prop where
  wf : R.WF w.gfp.raw
  out_owned : ∀ x u, w.uses (pageOf x) = some u → x ∉ R.owned w.gfp.raw
  count : ∀ q u, q < MAX_TRACKED_PAGES → w.uses q = some u → u.puts ≤ u.keeps ∧
    w.gfp.refcounts q + u.puts = u.keeps + 1
  nonnull : w.uses 0 = none

variable {R}

/-! ## The invariant -/

variable {n a p q : ℕ} {f : ℕ → Option PageUse → Option PageUse}

theorem onFrames_eq_some
    {uses : ℕ → Option PageUse} {u : PageUse} (h : onFrames p n f uses q = some u) :
    (InFrames p n q ∧ f q (uses q) = some u) ∨ (¬InFrames p n q ∧ uses q = some u) := by
  unfold onFrames at h
  by_cases hq : InFrames p n q
  · rw [if_pos hq] at h
    exact .inl ⟨hq, h⟩
  · rw [if_neg hq] at h
    exact .inr ⟨hq, h⟩

theorem onFrames_eq_none
    {uses : ℕ → Option PageUse} (h : uses q = none) (hf : InFrames p n q → f q none = none) :
    onFrames p n f uses q = none := by
  unfold onFrames
  split
  · rename_i hq
    rw [h, hf hq]
  · exact h

theorem PageUse.put_eq_some {u v : PageUse} (h : u.put = some v) :
    u.puts < u.keeps ∧ v = { u with puts := u.puts + 1 } := by
  unfold PageUse.put at h
  split at h
  · rename_i hlt
    exact ⟨hlt, (some.inj h).symm⟩
  · cases h

/-- A range with a frame below the limit lies below it as a whole. -/
theorem OneSided.below (h : OneSided a n) (hq : InFrames (topfn a) n q)
    (hlow : q < MAX_TRACKED_PAGES) : topfn a + n ≤ MAX_TRACKED_PAGES :=
  h.resolve_right fun hge => by
    obtain ⟨hle, -⟩ := hq
    omega

variable {w : GfpWorld S}

theorem GfpWorld.Inv.get (hinv : w.Inv R) {g : Gfp S} (hside : OneSided a n)
    (h : w.gfp.getFreePage R n = .ok (.ok a, g)) :
    GfpWorld.Inv R ⟨g, onFrames (topfn a) n (fun _ _ => some ⟨0, 0⟩) w.uses⟩ := by
  obtain ⟨hwf, -, hne, hsum, hdis, hrest, hone⟩ := Gfp.getFreePage_spec hinv.wf h
  have hcases : ∀ q u, onFrames (topfn a) n (fun _ _ => some ⟨0, 0⟩) w.uses q = some u →
      (InFrames (topfn a) n q ∧ some ⟨0, 0⟩ = some u) ∨ (¬InFrames (topfn a) n q ∧ w.uses q = some u) :=
    fun q u hu => onFrames_eq_some hu
  constructor
  · exact hwf
  · intro x u hu hx
    rcases hcases _ u hu with ⟨hq, -⟩ | ⟨-, hu⟩
    · exact hdis x hx hq
    · exact hinv.out_owned x u hu ((hsum x).mpr (.inl hx))
  · intro q u hlow hu
    rcases hcases _ u hu with ⟨hq, hu⟩ | ⟨hq, hu⟩
    · cases hu
      rw [hone (hside.below hq hlow) q hq]
      exact ⟨le_rfl, rfl⟩
    · rw [hrest q hq]
      exact hinv.count q u hlow hu
  · exact onFrames_eq_none (f := fun _ _ => some ⟨0, 0⟩) hinv.nonnull fun h0 => by omega

theorem GfpWorld.Inv.keep (hinv : w.Inv R) (hside : OneSided a n) : GfpWorld.Inv R
      ⟨w.gfp.keepPage a n, onFrames (topfn a) n (fun _ => Option.map .kept) w.uses⟩ := by
  have hraw : (w.gfp.keepPage a n).raw = w.gfp.raw := by
    unfold Gfp.keepPage
    split <;> rfl
  have hrc : ∀ q, q < MAX_TRACKED_PAGES → (w.gfp.keepPage a n).refcounts q =
      if InFrames (topfn a) n q then w.gfp.refcounts q + 1 else w.gfp.refcounts q := by
    intro q hlow
    unfold Gfp.keepPage
    split
    · rename_i ht
      rw [if_neg]
      intro hq
      rw [(tracked_iff (by omega)).mpr (hside.below hq hlow)] at ht
      cases ht
    · exact keepLoop_eq _ n 0 _ q
  have hout : ∀ q u, onFrames (topfn a) n (fun _ => Option.map .kept) w.uses q = some u →
      ∃ v, w.uses q = some v ∧ (InFrames (topfn a) n q → u = v.kept) ∧
        (¬InFrames (topfn a) n q → u = v) := by
    intro q u hu
    rcases onFrames_eq_some hu with ⟨hq, hu⟩ | ⟨hq, hu⟩
    · obtain ⟨v, hv, rfl⟩ := Option.map_eq_some_iff.mp hu
      exact ⟨v, hv, fun _ => rfl, fun hn => absurd hq hn⟩
    · exact ⟨u, hu, fun hn => absurd hn hq, fun _ => rfl⟩
  constructor
  · rw [hraw]
    exact hinv.wf
  · intro x u hu
    obtain ⟨v, hv, -⟩ := hout _ u hu
    rw [hraw]
    exact hinv.out_owned x v hv
  · intro q u hlow hu
    obtain ⟨v, hv, hin, hoff⟩ := hout q u hu
    obtain ⟨hle, hsum⟩ := hinv.count q v hlow hv
    rw [hrc q hlow]
    by_cases hq : InFrames (topfn a) n q
    · rw [if_pos hq, hin hq]
      exact ⟨Nat.le_succ_of_le hle, by show _ + 1 + v.puts = v.keeps + 1 + 1; omega⟩
    · rw [if_neg hq, hoff hq]
      exact ⟨hle, hsum⟩
  · exact onFrames_eq_none (f := fun _ => Option.map .kept) hinv.nonnull fun _ => rfl

/-- **What a put gives back**: of a tracked range the frames for which it is the last one,
that is, the one after as many puts as there were keeps; of any other range all frames. -/
theorem GfpWorld.Inv.putPage_owned (hinv : w.Inv R) {g : Gfp S}
    (hout : ∀ q, InFrames (topfn a) n q → (w.uses q).isSome = true)
    (h : w.gfp.putPage R a n = .ok g) : R.WF g.raw ∧
      (∀ x, x ∈ R.owned g.raw ↔ x ∈ R.owned w.gfp.raw ∨ (InFrames (topfn a) n (pageOf x) ∧
        (tracked a n = true → ∃ u, w.uses (pageOf x) = some u ∧ u.puts = u.keeps))) ∧
      ∀ q, g.refcounts q = if InFrames (topfn a) n q ∧ tracked a n = true
        then w.gfp.refcounts q - 1 else w.gfp.refcounts q := by
  have hsome : ∀ q, InFrames (topfn a) n q → ∃ u, w.uses q = some u :=
    fun q hq => isSome_iff_exists.mp (hout q hq)
  have hne : n ≠ 0 → a ≠ 0 := by
    rintro hn rfl
    obtain ⟨u, hu⟩ := hsome 0 ⟨le_rfl, by rw [topfn_eq_pageOf]; exact pos_of_ne_zero (by omega)⟩
    rw [hinv.nonnull] at hu
    cases hu
  have hdis : ∀ x ∈ R.owned w.gfp.raw, ¬InFrames (topfn a) n (pageOf x) := by
    intro x hx hq
    obtain ⟨u, hu⟩ := hsome _ hq
    exact hinv.out_owned x u hu hx
  by_cases hbound : n ≠ 0 → topfn a + n ≤ MAX_TRACKED_PAGES
  · obtain ⟨hwf, howned, hrc⟩ := Gfp.putPage_spec hinv.wf hne hbound hdis h
    have htracked : ∀ q, InFrames (topfn a) n q → tracked a n = true := fun q hq =>
      (tracked_iff (by omega)).mpr (hbound (by omega))
    refine ⟨hwf, ?_, ?_⟩
    · intro x
      rw [howned x]
      apply or_congr_right
      apply and_congr_right
      intro hq
      obtain ⟨u, hu⟩ := hsome _ hq
      have hlow : pageOf x < MAX_TRACKED_PAGES := by
        have := hbound (by omega)
        omega
      obtain ⟨hle, hsum⟩ := hinv.count _ u hlow hu
      constructor
      · intro hone _
        exact ⟨u, hu, by omega⟩
      · intro hlast
        obtain ⟨v, hv, hlast⟩ := hlast (htracked _ hq)
        cases hu.symm.trans hv
        omega
    · intro q
      rw [hrc q]
      exact if_congr ⟨fun hq => ⟨hq, htracked q hq⟩, And.left⟩ rfl rfl
  · rw [Classical.not_imp] at hbound
    have ht : tracked a n = false := by
      rw [← Bool.not_eq_true, tracked_iff hbound.1]
      exact hbound.2
    obtain ⟨hwf, hrc, howned⟩ :=
      Gfp.putPage_untracked hinv.wf (hne hbound.1) hbound.1 ht hdis h
    refine ⟨hwf, ?_, ?_⟩
    · intro x
      rw [howned x, ht]
      simp
    · intro q
      rw [hrc, ht]
      simp

theorem GfpWorld.Inv.put (hinv : w.Inv R) {g : Gfp S} (hside : OneSided a n)
    (hout : ∀ q, InFrames (topfn a) n q → (w.uses q).isSome = true)
    (h : w.gfp.putPage R a n = .ok g) :
    GfpWorld.Inv R ⟨g, onFrames (topfn a) n (putUse belowLimit) w.uses⟩ := by
  obtain ⟨hwf, howned, hrc⟩ := hinv.putPage_owned hout h
  -- a frame that is still out afterwards was out before, and not for the last time
  have hback : ∀ q u, onFrames (topfn a) n (putUse belowLimit) w.uses q = some u →
      ∃ v, w.uses q = some v ∧ (InFrames (topfn a) n q → tracked a n = true ∧
        v.puts < v.keeps ∧ u = { v with puts := v.puts + 1 }) ∧
        (¬InFrames (topfn a) n q → u = v) := by
    intro q u hu
    rcases onFrames_eq_some hu with ⟨hq, hu⟩ | ⟨hq, hu⟩
    · unfold putUse at hu
      split at hu
      · rename_i hlow
        obtain ⟨v, hv, hput⟩ := bind_eq_some_iff.mp hu
        have ht := (tracked_iff (by omega)).mpr (hside.below hq (of_decide_eq_true hlow))
        exact ⟨v, hv, fun _ => ⟨ht, PageUse.put_eq_some hput⟩, fun hn => absurd hq hn⟩
      · cases hu
    · exact ⟨u, hu, fun hn => absurd hn hq, fun _ => rfl⟩
  constructor
  · exact hwf
  · intro x u hu hx
    obtain ⟨v, hv, hin, -⟩ := hback _ u hu
    rcases (howned x).mp hx with hx | ⟨hq, hlast⟩
    · exact hinv.out_owned x v hv hx
    · obtain ⟨ht, hlt, -⟩ := hin hq
      obtain ⟨v', hv', hlast⟩ := hlast ht
      cases hv.symm.trans hv'
      omega
  · intro q u hlow hu
    obtain ⟨v, hv, hin, hoff⟩ := hback q u hu
    obtain ⟨hle, hsum⟩ := hinv.count q v hlow hv
    rw [hrc]
    by_cases hq : InFrames (topfn a) n q
    · obtain ⟨ht, hlt, rfl⟩ := hin hq
      rw [if_pos ⟨hq, ht⟩]
      exact ⟨hlt, by show _ - 1 + (v.puts + 1) = v.keeps + 1; omega⟩
    · obtain rfl := hoff hq
      rw [if_neg fun hand => hq hand.1]
      exact ⟨hle, hsum⟩
  · refine onFrames_eq_none (f := putUse belowLimit) hinv.nonnull fun _ => ?_
    unfold putUse
    split <;> rfl

theorem GfpWorld.Inv.step (w w' : GfpWorld S) (hinv : w.Inv R)
    (hstep : GfpStep R belowLimit w w') : w'.Inv R := by
  cases hstep with
  | get hside h => exact hinv.get hside h
  | getFails h =>
    obtain ⟨raw, hget, rfl⟩ := Gfp.getFreePage_error h
    obtain ⟨hwf, hsub⟩ := R.get_error _ _ _ _ hinv.wf hget
    exact ⟨hwf, fun x u hu hx => hinv.out_owned x u hu (hsub hx), hinv.count, hinv.nonnull⟩
  | keep a n hside => exact hinv.keep hside
  | put hside hout h => exact hinv.put hside hout h

theorem Gfp.refCount_frame (g : Gfp S) (q : ℕ) :
    g.refCount (q * PAGESIZE) = if q < MAX_TRACKED_PAGES then g.refcounts q else 1 := by
  have hpage : topfn (q * PAGESIZE) = q := by
    rw [topfn_eq_pageOf]
    exact Nat.mul_div_cancel q (by decide)
  have ht : tracked (q * PAGESIZE) 1 = decide (q < MAX_TRACKED_PAGES) := by
    unfold tracked
    rw [hpage, decide_eq_decide]
    omega
  unfold Gfp.refCount
  rw [ht, hpage]
  by_cases hlow : q < MAX_TRACKED_PAGES
  · rw [decide_eq_true hlow, if_pos hlow]
    rfl
  · rw [decide_eq_false hlow, if_neg hlow]
    rfl

/-- **Reference counting.**  In every world of a run, on any machine: a page that is handed out
is not with the raw allocator; `ref_count` of a page below the limit is the number of its
references, and of any other page one; `get_free_page` returns no page that is handed out; and
a `put_page` gives back, of a range below the limit, exactly the pages for which it follows as
many puts as there were keeps, and of an untracked range all pages. -/
theorem references_counted {s : S} (hwf : R.WF s) {refcounts : ℕ → ℕ} {w : GfpWorld S}
    (hrun : ReflTransGen (GfpStep R belowLimit) (GfpWorld.fresh s refcounts) w) :
    (∀ x u, w.uses (pageOf x) = some u → x ∉ R.owned w.gfp.raw) ∧
    (∀ q u, w.uses q = some u → (q < MAX_TRACKED_PAGES → u.puts ≤ u.keeps) ∧
      w.gfp.refCount (q * PAGESIZE) = if q < MAX_TRACKED_PAGES then u.keeps + 1 - u.puts else 1) ∧
    (∀ n a g, w.gfp.getFreePage R n = .ok (.ok a, g) →
      ∀ q, InFrames (topfn a) n q → w.uses q = none) ∧
    ∀ a n g, (∀ q, InFrames (topfn a) n q → (w.uses q).isSome = true) →
      w.gfp.putPage R a n = .ok g → ∀ x, x ∈ R.owned g.raw ↔ x ∈ R.owned w.gfp.raw ∨
        (InFrames (topfn a) n (pageOf x) ∧ (tracked a n = true →
          ∃ u, w.uses (pageOf x) = some u ∧ u.puts = u.keeps)) := by
  have hfresh : (GfpWorld.fresh s refcounts).Inv R :=
    ⟨hwf, fun _ _ h => absurd h (by simp [GfpWorld.fresh]),
      fun _ _ _ h => absurd h (by simp [GfpWorld.fresh]), rfl⟩
  have hinv := Transition.invariant GfpWorld.Inv.step hrun hfresh
  refine ⟨hinv.out_owned, ?_, ?_, ?_⟩
  · intro q u hu
    refine ⟨fun hlow => (hinv.count q u hlow hu).1, ?_⟩
    rw [Gfp.refCount_frame]
    split
    · rename_i hlow
      have hsum := (hinv.count q u hlow hu).2
      omega
    · rfl
  · intro n a g h q hq
    obtain ⟨-, -, -, hsum, -⟩ := Gfp.getFreePage_spec hinv.wf h
    have hpage : pageOf (q * PAGESIZE) = q := Nat.mul_div_cancel q (by decide)
    cases hu : w.uses q with
    | none => rfl
    | some u =>
      have hx : q * PAGESIZE ∈ R.owned w.gfp.raw := (hsum _).mpr (.inr (by rwa [hpage]))
      exact absurd hx (hinv.out_owned _ u (by rwa [hpage]))
  · exact fun a n g hout h => (hinv.putPage_owned hout h).2.1

end Runs

/-! ## Two runs over the buddy allocator -/

section Traces

variable {S : Type} (R : RawGfp S) (counts : ℕ → Bool)

/-- The world after a `get_free_page(n)` that returns `a`. -/
def GfpWorld.afterGet (w : GfpWorld S) (n a : ℕ) : GfpWorld S :=
  ⟨(valueOr (.ok a, w.gfp) (w.gfp.getFreePage R n)).2,
    onFrames (topfn a) n (fun _ _ => some ⟨0, 0⟩) w.uses⟩

/-- The world after `keep_page`. -/
def GfpWorld.afterKeep (w : GfpWorld S) (a n : ℕ) : GfpWorld S :=
  ⟨w.gfp.keepPage a n, onFrames (topfn a) n (fun _ => Option.map .kept) w.uses⟩

/-- The world after `put_page`. -/
def GfpWorld.afterPut (w : GfpWorld S) (a n : ℕ) : GfpWorld S :=
  ⟨valueOr w.gfp (w.gfp.putPage R a n), onFrames (topfn a) n (putUse counts) w.uses⟩

/-- Get a page at `a`, keep it and put it once. -/
def GfpWorld.getKeepPut (w : GfpWorld S) (a : ℕ) : GfpWorld S :=
  ((w.afterGet R 1 a).afterKeep a 1).afterPut R counts a 1

theorem GfpWorld.getKeepPut_run {w : GfpWorld S} {a : ℕ} (hside : OneSided a 1)
    (hget : returned (w.gfp.getFreePage R 1) = some a)
    (hput : (((w.afterGet R 1 a).afterKeep a 1).gfp.putPage R a 1).isOk = true) :
    ReflTransGen (GfpStep R counts) w (w.getKeepPut R counts a) := by
  have hstep₁ : GfpStep R counts w (w.afterGet R 1 a) :=
    GfpStep.get w hside (eq_ok_of_returned w.gfp hget)
  have hstep₂ : GfpStep R counts (w.afterGet R 1 a) ((w.afterGet R 1 a).afterKeep a 1) :=
    GfpStep.keep _ a 1 hside
  refine ((ReflTransGen.single hstep₁).tail hstep₂).tail
    (GfpStep.put _ hside ?_ (eq_ok_valueOr hput))
  intro q hq
  simp only [GfpWorld.afterKeep, GfpWorld.afterGet, onFrames, if_pos hq]
  rfl

end Traces

/-- A buddy allocator with one page, at address `a`. -/
def onePage (a : ℕ) : Buddy := valueOr (Buddy.preInit 0) ((Buddy.preInit 0).putPage a 1)

/-- One put of a page below the limit that was kept once does not give it back; one reference
is left, and the next put gives the page back. -/
theorem references_counted_kept :
    let w := (GfpWorld.fresh (onePage 8192) fun _ => 0).getKeepPut buddyRaw belowLimit 8192
    8192 ∉ w.gfp.raw.owned ∧ w.gfp.refCount 8192 = 1 ∧
      ∃ g, w.gfp.putPage buddyRaw 8192 1 = .ok g ∧ 8192 ∈ g.raw.owned := by
  have hput : (Buddy.preInit 0).putPage 8192 1 = .ok (onePage 8192) := eq_ok_valueOr (by decide)
  obtain ⟨hwf, -⟩ := preInit_putPage_owned (by decide) hput
  have hrun := GfpWorld.getKeepPut_run buddyRaw belowLimit
    (w := GfpWorld.fresh (onePage 8192) fun _ => 0) (a := 8192) (.inl (by decide)) (by decide)
    (by decide)
  obtain ⟨hout, hcount, -, hback⟩ := references_counted (R := buddyRaw) hwf hrun
  refine ⟨hout 8192 ⟨1, 1⟩ rfl, (hcount 2 ⟨1, 1⟩ rfl).2, _,
    eq_ok_valueOr (d := ⟨onePage 8192, fun _ => 0⟩) (by decide), ?_⟩
  refine (hback 8192 1 _ ?_ (eq_ok_valueOr (by decide)) 8192).mpr
    (.inr ⟨by decide, fun _ => ⟨⟨1, 1⟩, rfl, rfl⟩⟩)
  intro q hq
  obtain rfl : q = 2 := Nat.le_antisymm (Nat.lt_succ_iff.mp hq.2) hq.1
  rfl

/-- **Above the limit**: the page at 4 GB is handed out, kept, and put once.  One reference
is still outstanding, but the page is back with the raw allocator, and the next
`get_free_page` returns it again. -/
theorem untracked_page_reused : ∃ w : GfpWorld Buddy,
    ReflTransGen (GfpStep buddyRaw fun _ => true)
      (GfpWorld.fresh (onePage 0x100000000) fun _ => 0) w ∧
    w.uses (topfn 0x100000000) = some ⟨1, 1⟩ ∧
    returned (w.gfp.getFreePage buddyRaw 1) = some 0x100000000 := by
  refine ⟨_, GfpWorld.getKeepPut_run buddyRaw (fun _ => true) (a := 0x100000000)
    (.inr (by decide)) (by decide) (by decide), by decide, by decide⟩

end Sustcore
