/-
# Runs of a slab allocator

A `Slub` is used by the kernel: objects are allocated and given back, their users write to them,
and the rest of the kernel takes and returns pages and writes to memory that is not the `Slub`'s.
`slab_invariant` says what holds after any sequence of such steps.
-/
import Sustcore.Ledger
import Sustcore.SlabInvariant

namespace Sustcore.Slab

open Relation

variable {F : Type} (c : SlabClass) (P : FrameAllocator F)

/-- A `Slub` and the objects that are handed out. -/
structure SlabWorld (F : Type) where
  slub : Slub F
  live : Set ℕ

/-- The address is not a slab's, or lies in an object that is handed out. -/
def SlabWorld.Writable (w : SlabWorld F) (a : ℕ) : Prop :=
  (∀ state, slabOf a ∉ w.slub.lists state) ∨ ∃ o ∈ w.live, o ≤ a ∧ a < o + c.objSize

/-- One step of the kernel. -/
inductive SlabStep : SlabWorld F → SlabWorld F → Prop
  | alloc (w : SlabWorld F) {obj : ℕ} {s' : Slub F}
      (h : alloc c P w.slub = .ok (.ok (some obj), s')) : SlabStep w ⟨s', insert obj w.live⟩
  | allocFailed (w : SlabWorld F) {s' : Slub F}
      (h : alloc c P w.slub = .ok (.ok none, s')) : SlabStep w ⟨s', w.live⟩
  | free (w : SlabWorld F) {ptr : ℕ} {r : Result Unit} {s' : Slub F} (hptr : ptr ∈ w.live)
      (h : free ptr w.slub = .ok (r, s')) : SlabStep w ⟨s', w.live \ {ptr}⟩
  | other (w : SlabWorld F) {frames : F} {header : ℕ → SlabHeader} {word : ℕ → ℕ}
      (hframes : P.WF frames)
      (hrefs : ∀ state, ∀ slab ∈ w.slub.lists state,
        P.refs frames (pageAt slab) = P.refs w.slub.frames (pageAt slab))
      (hheader : ∀ state, ∀ slab ∈ w.slub.lists state, header slab = w.slub.header slab)
      (hword : ∀ a, word a ≠ w.slub.word a → w.Writable c a) :
      SlabStep w ⟨⟨frames, header, word, w.slub.lists⟩, w.live⟩

/-- A `Slub` without slabs. -/
def SlabWorld.init (frames : F) (header : ℕ → SlabHeader) (word : ℕ → ℕ) : SlabWorld F :=
  ⟨⟨frames, header, word, fun _ => []⟩, ∅⟩

variable {c P}

theorem inv_init {frames : F} (hwf : P.WF frames) (header : ℕ → SlabHeader) (word : ℕ → ℕ) :
    Inv c P (SlabWorld.init frames header word).slub ∅ :=
  ⟨hwf, fun _ => List.nodup_nil, nofun, nofun, nofun, nofun⟩

/-- What happens elsewhere does not reach the free objects. -/
theorem Inv.other {w : SlabWorld F} (h : Inv c P w.slub w.live) {frames : F}
    {header : ℕ → SlabHeader} {word : ℕ → ℕ} (hframes : P.WF frames)
    (hrefs : ∀ state, ∀ slab ∈ w.slub.lists state,
      P.refs frames (pageAt slab) = P.refs w.slub.frames (pageAt slab))
    (hheader : ∀ state, ∀ slab ∈ w.slub.lists state, header slab = w.slub.header slab)
    (hword : ∀ a, word a ≠ w.slub.word a → w.Writable c a) :
    Inv c P ⟨frames, header, word, w.slub.lists⟩ w.live := by
  refine ⟨hframes, h.nodup, h.apart, ?_, ?_, h.live⟩
  · intro state slab hslab
    show (header slab).state = state
    rw [hheader state slab hslab]
    exact h.state state slab hslab
  · intro state slab hslab
    obtain ⟨hok, hmatch⟩ := h.slab state slab hslab
    obtain ⟨l, hchain, hmem, hlen⟩ := hok.chain
    have hhead := hheader state slab hslab
    refine ⟨⟨hok.aligned, hok.kernel, ?_, ?_, l, ?_, hmem, ?_⟩, ?_⟩
    · show 0 < P.refs frames (pageAt slab)
      rw [hrefs state slab hslab]
      exact hok.held
    · show (header slab).total = c.total
      rw [hhead]
      exact hok.total
    · show Chain word 0 (header slab).freelist l
      rw [hhead]
      apply hchain.congr
      intro o ho
      obtain ⟨hobj, hfree⟩ := (hmem o).mp ho
      by_contra hne
      have hslabof := slabOf_object hok.aligned hobj
      rcases hword o hne with hout | ⟨o', hlive, hle, hlt⟩
      · apply hout state
        rwa [hslabof]
      -- a free object does not begin inside of one that is handed out
      obtain ⟨state', hslab', hobj'⟩ := h.live o' hlive
      have hsame := slabOf_inside (h.slab _ _ hslab').1.aligned hobj' hle hlt
      have hneo : o ≠ o' := by
        rintro rfl
        exact hfree hlive
      rw [← hsame, hslabof] at hobj'
      rcases c.objects_disjoint hobj hobj' hneo with hd | hd
      · omega
      · omega
    · show l.length + (header slab).inuse = c.total
      rwa [hhead]
    · show Matches c state (header slab).inuse
      rwa [hhead]

/-- **Step.** -/
theorem Inv.step {w w' : SlabWorld F} (h : Inv c P w.slub w.live) (hstep : SlabStep c P w w') :
    Inv c P w'.slub w'.live := by
  cases hstep with
  | alloc hcall =>
    rcases (h.alloc hcall).2 with ⟨hr, -⟩ | ⟨obj, hr, -, hinv, -⟩
    · exact absurd hr nofun
    · obtain rfl := Option.some.inj (Except.ok.inj hr)
      exact hinv
  | allocFailed hcall =>
    rcases (h.alloc hcall).2 with ⟨-, hinv, -⟩ | ⟨obj, hr, -⟩
    · exact hinv
    · exact absurd hr nofun
  | free hptr hcall =>
    obtain ⟨s', hfree, -, hinv, -⟩ := h.free hptr
    obtain ⟨-, rfl⟩ := ok_inj (hfree.symm.trans hcall)
    exact hinv
  | other hframes hrefs hheader hword => exact h.other hframes hrefs hheader hword

/-- Two objects that are handed out do not overlap. -/
theorem Inv.disjoint {s : Slub F} {live : Set ℕ} (h : Inv c P s live) {o o' : ℕ} (ho : o ∈ live)
    (ho' : o' ∈ live) (hne : o ≠ o') : o + c.objSize ≤ o' ∨ o' + c.objSize ≤ o := by
  obtain ⟨state, hslab, hobj⟩ := h.live o ho
  obtain ⟨state', hslab', hobj'⟩ := h.live o' ho'
  by_contra hover
  obtain ⟨h1, h2⟩ := not_or.mp hover
  -- they would have a byte, and with it the slab, in common
  have hsame : slabOf o = slabOf o' := by
    rcases Nat.le_total o o' with hle | hle
    · exact (slabOf_inside (h.slab _ _ hslab).1.aligned hobj hle (by omega)).symm
    · exact slabOf_inside (h.slab _ _ hslab').1.aligned hobj' hle (by omega)
  rw [← hsame] at hobj'
  rcases c.objects_disjoint hobj hobj' hne with hd | hd
  · exact h1 hd
  · exact h2 hd

variable (c P)

/-- **The slab invariant.**  After any run, every slab is in one list only, once, and this is the
list of its number of objects in use; its free list has no cycle and consists of its objects that
are not handed out.  The objects that are handed out lie in their slabs behind the header, are
aligned, and do not overlap, and `slab_of` finds the slab.  `free` of such an object returns, and
`alloc` returns whenever the page allocator does. -/
theorem slab_invariant {frames : F} (hwf : P.WF frames) (header : ℕ → SlabHeader) (word : ℕ → ℕ)
    {w : SlabWorld F} (hrun : ReflTransGen (SlabStep c P) (.init frames header word) w) :
    (∀ state, ∀ slab ∈ w.slub.lists state,
      (w.slub.lists state).Nodup ∧ (∀ state', slab ∈ w.slub.lists state' → state' = state) ∧
      Matches c state (w.slub.header slab).inuse ∧
      ∃ l, Chain w.slub.word 0 (w.slub.header slab).freelist l ∧ l.Nodup ∧
        (∀ o, o ∈ l ↔ o ∈ c.objects slab ∧ o ∉ w.live) ∧
        l.length + (w.slub.header slab).inuse = c.total) ∧
    (∀ o ∈ w.live, (∃ state, slabOf o ∈ w.slub.lists state) ∧ o ∈ c.objects (slabOf o) ∧
      (∀ state, ∀ slab ∈ w.slub.lists state, o ∈ c.objects slab → slabOf o = slab) ∧
      slabOf o + HEADER_SIZE ≤ o ∧ o + c.objSize ≤ slabOf o + SLAB_BYTES ∧ c.objAlign ∣ o ∧
      ∀ o' ∈ w.live, o ≠ o' → o + c.objSize ≤ o' ∨ o' + c.objSize ≤ o) ∧
    (∀ o ∈ w.live, ∃ s', free o w.slub = .ok (.ok (), s')) ∧
    ((∃ p, P.getFreePage w.slub.frames 1 = .ok p) → ∃ r s', alloc c P w.slub = .ok (r, s')) := by
  have hstep : ∀ u u' : SlabWorld F, Inv c P u.slub u.live → SlabStep c P u u' →
      Inv c P u'.slub u'.live := fun _ _ hinv hstep => hinv.step hstep
  have h := Transition.invariant hstep hrun (inv_init hwf header word)
  refine ⟨?_, ?_, ?_, ?_⟩
  · intro state slab hslab
    obtain ⟨hok, hmatch⟩ := h.slab state slab hslab
    obtain ⟨l, hchain, hmem, hlen⟩ := hok.chain
    exact ⟨h.nodup state, fun state' hslab' => h.apart _ _ _ hslab' hslab, hmatch, l, hchain,
      hchain.nodup, hmem, hlen⟩
  · intro o ho
    obtain ⟨state, hslab, hobj⟩ := h.live o ho
    obtain ⟨i, hi, heq⟩ := c.mem_objects.mp hobj
    obtain ⟨hlow, hhigh, hdvd⟩ := c.object_bounds (h.slab _ _ hslab).1.aligned hi
    rw [heq] at hlow hhigh hdvd
    exact ⟨⟨state, hslab⟩, hobj,
      fun _ _ hslab' hobj' => slabOf_object (h.slab _ _ hslab').1.aligned hobj', hlow, hhigh, hdvd,
      fun _ ho' hne => h.disjoint ho ho' hne⟩
  · intro o ho
    obtain ⟨s', hfree, -⟩ := h.free ho
    exact ⟨s', hfree⟩
  · rintro ⟨p, hget⟩
    cases hcall : alloc c P w.slub with
    | error e => exact absurd (hget.symm.trans (h.alloc_stops hcall).2) nofun
    | ok out => exact ⟨out.1, out.2, rfl⟩

/-! ## A run -/

/-- Objects of 1000 bytes. -/
def thousand : SlabClass where
  rawSize := 1000
  rawAlign := 8
  align_pow := ⟨3, rfl⟩
  size_dvd := ⟨125, rfl⟩
  size_pos := by decide
  size_lt := by decide

/-- A `Slub` over a machine with four pages. -/
def fourPageSlub : Slub (Gfp Buddy) := ⟨⟨fourPages, fun _ => 0⟩, fun _ => ⟨0, 0, 0, .EMPTY⟩,
  fun _ => 0, fun _ => []⟩

/-- The `Slub` after a request that returned `obj`. -/
def afterAlloc (s : Slub (Gfp Buddy)) (obj : ℕ) : Slub (Gfp Buddy) :=
  (Except.valueOr (.ok (some obj), s) (alloc thousand (gfpFrames buddyRaw) s)).2

/-- Two objects of a slab do not overlap; the first can be freed, and the slab of the second is
then still listed. -/
theorem slab_invariant_two :
    let a := KPA_OFFSET + 0x10000 + 48
    let b := KPA_OFFSET + 0x10000 + 1048
    let s := afterAlloc (afterAlloc fourPageSlub a) b
    (a + thousand.objSize ≤ b ∨ b + thousand.objSize ≤ a) ∧
      ∃ s', free a s = .ok (.ok (), s') ∧ ∃ state, slabOf b ∈ s'.lists state := by
  intro a b s
  have hfirst : alloc thousand (gfpFrames buddyRaw) fourPageSlub =
      .ok (.ok (some a), afterAlloc fourPageSlub a) := eq_ok_of_returned _ (by decide +kernel)
  have hsecond : alloc thousand (gfpFrames buddyRaw) (afterAlloc fourPageSlub a) =
      .ok (.ok (some b), s) := eq_ok_of_returned _ (by decide +kernel)
  have hrun := (ReflTransGen.single (SlabStep.alloc ⟨fourPageSlub, ∅⟩ hfirst)).tail
    (SlabStep.alloc _ hsecond)
  obtain ⟨-, hobjects, hfree, -⟩ := slab_invariant thousand (gfpFrames buddyRaw) fourPages_wf
    fourPageSlub.header fourPageSlub.word hrun
  have ha : a ∈ insert b (insert a (∅ : Set ℕ)) := .inr (.inl rfl)
  obtain ⟨s', hcall⟩ := hfree a ha
  refine ⟨(hobjects a ha).2.2.2.2.2.2 b (.inl rfl) (by decide), s', hcall, ?_⟩
  obtain ⟨-, hobjects', -⟩ := slab_invariant thousand (gfpFrames buddyRaw) fourPages_wf
    fourPageSlub.header fourPageSlub.word (hrun.tail (SlabStep.free _ ha hcall))
  have hb : b ≠ a := by decide
  exact (hobjects' b ⟨.inl rfl, hb⟩).1

end Sustcore.Slab
