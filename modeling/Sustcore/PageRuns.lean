/-
# Runs of page frames

The kernel's heap asks more of the page allocator than the memory objects do: it takes runs of
pages and gives them back as a whole, and it needs that a request for pages ends in an answer or in
a stop of the machine that the allocator itself has called for, never in undefined behaviour.
`gfpPages` shows this of `GFP` over a raw allocator that has the last property, and
`buddy_defined` that the buddy allocator has it.
-/
import Sustcore.BuddyOperations
import Sustcore.Frames

namespace Sustcore

/-- A frame allocator that takes back runs of pages. -/
structure PageAllocator (F : Type) extends FrameAllocator F where
  putPages : F → ℕ → ℕ → Except Halt F
  puts_ok : ∀ f a n f', WF f → n ≠ 0 → (∀ q, InFrames (pageOf a) n q → 0 < refs f q) →
    putPages f a n = .ok f' → WF f' ∧
      ∀ q, refs f' q = if InFrames (pageOf a) n q then refs f q - 1 else refs f q
  get_defined : ∀ f n, getFreePage f n ≠ .error .undefined

/-- **`GFP` is such a page allocator.** -/
def gfpPages {S : Type} (R : RawGfp S) (hdef : ∀ s n, R.getFreePage s n ≠ .error .undefined) :
    PageAllocator (Gfp S) where
  toFrameAllocator := gfpFrames R
  putPages := Gfp.putPage R
  puts_ok := fun _ _ _ _ hwf hn hpos h => Gfp.WF.puts hwf hn hpos h
  get_defined := by
    intro g n h
    replace h : g.getFreePage R n = .error .undefined := h
    unfold Gfp.getFreePage at h
    rcases Except.bind_eq_error_iff.mp h with h | ⟨⟨res, raw⟩, -, h⟩
    · exact hdef _ _ h
    cases res with
    | error e => cases h
    | ok paddr =>
      dsimp only at h
      split at h
      · cases h
      · cases h

/-! ## The buddy allocator -/

/-- A call does not run into undefined behaviour. -/
def Defined {α : Type} (x : Except Halt α) : Prop := x ≠ .error .undefined

namespace Defined

theorem ok {α : Type} (a : α) : Defined (.ok a) := nofun

theorem bind {α β : Type} {x : Except Halt α} {f : α → Except Halt β} (hx : Defined x)
    (hf : ∀ a, Defined (f a)) : Defined (x >>= f) := by
  intro h
  rcases Except.bind_eq_error_iff.mp h with h | ⟨a, -, h⟩
  · exact hx h
  · exact hf a h

theorem assertThat (b : Bool) : Defined (assertThat b) := by
  cases b with
  | false => exact nofun
  | true => exact nofun

end Defined

theorem freeFreeblock_defined (s : Buddy) (r : BlockRef) : Defined (s.freeFreeblock r) := by
  unfold Buddy.freeFreeblock
  split
  · exact nofun
  · exact (Defined.assertThat _).bind fun _ => (Defined.assertThat _).bind fun _ => .ok _

section Knot

variable {alloc : Buddy → Except Halt (Result BlockRef × Buddy)}
  {put : Buddy → ℕ → ℕ → Except Halt Buddy}

theorem putLoop_defined (halloc : ∀ s, Defined (alloc s)) :
    ∀ n s a k, Defined (putLoop alloc n s a k) := by
  intro n
  induction n with
  | zero =>
    intro s a k
    exact .ok _
  | succ n ih =>
    intro s a k
    refine (halloc s).bind ?_
    rintro ⟨res, t⟩
    cases res with
    | error e => exact nofun
    | ok ref =>
      dsimp only
      split
      · exact .ok _
      split
      · exact .ok _
      · exact (freeFreeblock_defined _ _).bind fun _ =>
          (freeFreeblock_defined _ _).bind fun _ => ih _ _ _

theorem putPageInOrder_defined (halloc : ∀ s, Defined (alloc s)) (s : Buddy) (a k : ℕ) :
    Defined (putPageInOrderWith alloc s a k) := by
  unfold putPageInOrderWith
  split
  · exact .ok _
  · exact (Defined.assertThat _).bind fun _ => (Defined.assertThat _).bind fun _ =>
      putLoop_defined halloc _ _ _ _

theorem splitLoop_defined (hput : ∀ s a k, Defined (put s a k)) (a k : ℕ) :
    ∀ d s, Defined (splitLoop put a k d s) := by
  intro d
  induction d with
  | zero =>
    intro s
    exact .ok _
  | succ d ih =>
    intro s
    exact (hput _ _ _).bind fun _ => ih _

theorem fetchFrameOrder_defined (hput : ∀ s a k, Defined (put s a k)) (s : Buddy) (k : ℕ) :
    Defined (fetchFrameOrderWith put s k) := by
  unfold fetchFrameOrderWith
  split
  · exact .ok _
  split
  · exact nofun
  · exact (freeFreeblock_defined _ _).bind fun _ => (splitLoop_defined hput _ _ _ _).bind fun _ =>
      .ok _

theorem addMemoryLoop_defined (hput : ∀ s a k, Defined (put s a k)) :
    ∀ n remain a s, Defined (addMemoryLoop put n remain a s) := by
  intro n
  induction n with
  | zero =>
    intro remain a s
    exact .ok _
  | succ n ih =>
    intro remain a s
    rw [addMemoryLoop]
    split
    · exact .ok _
    · exact (hput _ _ _).bind fun _ => ih _ _ _

end Knot

theorem addNewPool_defined {fetch : Buddy → ℕ → Except Halt (Result ℕ × Buddy)}
    (hfetch : ∀ s k, Defined (fetch s k)) (s : Buddy) : Defined (addNewPoolWith fetch s) := by
  refine (hfetch _ _).bind ?_
  rintro ⟨res, t⟩
  cases res with
  | error e => exact .ok _
  | ok a => exact .ok _

theorem allocFreeblockWith_defined {addNewPool : Buddy → Except Halt (Result Unit × Buddy)}
    (hadd : ∀ s, Defined (addNewPool s)) (s : Buddy) :
    Defined (allocFreeblockWith addNewPool s) := by
  unfold allocFreeblockWith
  split
  · exact .ok _
  refine (hadd s).bind ?_
  rintro ⟨res, t⟩
  cases res with
  | error e => exact .ok _
  | ok u =>
    dsimp only
    split
    · exact nofun
    split
    · exact .ok _
    · exact .ok _

theorem allocFreeblock_defined : ∀ fuel s, Defined (allocFreeblock fuel s) := by
  intro fuel
  induction fuel with
  | zero => exact allocFreeblockWith_defined fun _ => nofun
  | succ fuel ih =>
    exact allocFreeblockWith_defined
      (addNewPool_defined (fetchFrameOrder_defined (putPageInOrder_defined ih)))

theorem putOrder_defined (fuel : ℕ) (s : Buddy) (a k : ℕ) : Defined (putOrder fuel s a k) :=
  putPageInOrder_defined (allocFreeblock_defined fuel) s a k

theorem fetchOrder_defined (fuel : ℕ) (s : Buddy) (k : ℕ) : Defined (fetchOrder fuel s k) :=
  fetchFrameOrder_defined (putOrder_defined fuel) s k

theorem expandPool_defined (fuel : ℕ) (s : Buddy) : Defined (expandPool fuel s) := by
  unfold expandPool
  split
  · exact .ok _
  split
  · cases fuel with
    | zero => exact nofun
    | succ fuel => exact addNewPool_defined (fetchOrder_defined fuel) s
  · exact .ok _

theorem finishGet_defined (fuel : ℕ) (s : Buddy) (a n : ℕ) : Defined (finishGet fuel s a n) := by
  refine (Defined.assertThat _).bind fun _ => (expandPool_defined fuel _).bind ?_
  rintro ⟨res, t⟩
  cases res with
  | error e => exact .ok _
  | ok u => exact .ok _

/-- **`get_free_page` of the buddy allocator** stops the machine at its own assertions only. -/
theorem buddy_defined (s : Buddy) (n : ℕ) : s.getFreePage n ≠ .error .undefined := by
  show Defined (getPages _ s n)
  unfold getPages
  split
  · exact .ok _
  split
  · exact .ok _
  refine (fetchOrder_defined _ _ _).bind ?_
  rintro ⟨res, t⟩
  cases res with
  | error e => exact .ok _
  | ok a =>
    dsimp only
    split
    · exact (addMemoryLoop_defined (putOrder_defined _) _ _ _ _).bind fun _ =>
        finishGet_defined _ _ _ _
    · exact finishGet_defined _ _ _ _

end Sustcore
