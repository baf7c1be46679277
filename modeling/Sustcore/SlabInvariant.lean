/-
# The invariant of slabs

`Inv` says for every slab of the three lists that its free objects are linked in a chain
without a cycle, that these are the objects which are not handed out, and that the slab is in the
list of its number of objects in use.  Every operation is followed in steps, between which one
slab may be in the wrong list for its number (`InvFor`).

* `InvFor.moved` : a slab goes to another list;
* `Inv.chooseSlab`, `InvFor.takeObject` : the two halves of `alloc`;
* `Inv.free`.
-/
import Sustcore.Slab

namespace Sustcore.Slab

open Function Kernel List

/-! ## Sizes -/

variable {a o paddr ptr : ℕ}

theorem alignUp_spec (x : ℕ) (ha : 0 < a) :
    a ∣ alignUp x a ∧ x ≤ alignUp x a ∧ alignUp x a < x + a := by
  unfold alignUp alignDown
  have hdiv := Nat.div_add_mod (x + a - 1) a
  have hmod := Nat.mod_lt (x + a - 1) ha
  rw [Nat.mul_comm] at hdiv
  exact ⟨Nat.dvd_mul_left a _, by omega, by omega⟩

theorem alignUp_add {b : ℕ} (ha : 0 < a) (hb : a ∣ b) (x : ℕ) :
    alignUp (b + x) a = b + alignUp x a := by
  obtain ⟨m, rfl⟩ := hb
  unfold alignUp alignDown
  rw [show a * m + x + a - 1 = x + a - 1 + a * m by omega, Nat.add_mul_div_left _ _ ha]
  ring

namespace SlabClass

variable (c : SlabClass)

/-- The alignment of objects is a power of two below the size of a page. -/
theorem objAlign_pow : ∃ k, k ≤ 10 ∧ c.objAlign = 2 ^ k := by
  obtain ⟨k, hk⟩ := c.align_pow
  have hle : 2 ^ k ≤ c.rawSize := by
    rw [← hk]
    exact Nat.le_of_dvd c.size_pos c.size_dvd
  have hlt : 2 ^ k < 2 ^ 11 := hle.trans_lt c.size_lt
  have hk11 : k < 11 := (Nat.pow_lt_pow_iff_right Nat.one_lt_two).mp hlt
  unfold objAlign
  rw [hk]
  rcases le_total k 3 with h3 | h3
  · refine ⟨3, by decide, max_eq_right ?_⟩
    exact Nat.pow_le_pow_right Nat.two_pos h3
  · refine ⟨k, by omega, max_eq_left ?_⟩
    exact Nat.pow_le_pow_right Nat.two_pos h3

theorem objAlign_pos : 0 < c.objAlign := by
  obtain ⟨k, -, hk⟩ := c.objAlign_pow
  rw [hk]
  exact Nat.two_pow_pos k

theorem objAlign_dvd_page : c.objAlign ∣ PAGESIZE := by
  obtain ⟨k, hle, hk⟩ := c.objAlign_pow
  rw [hk]
  exact pow_dvd_pow 2 (show k ≤ 12 by omega)

theorem objAlign_dvd_objSize : c.objAlign ∣ c.objSize := (alignUp_spec _ c.objAlign_pos).1

theorem rawSize_le_objSize : c.rawSize ≤ c.objSize :=
  (le_max_left _ _).trans (alignUp_spec _ c.objAlign_pos).2.1

theorem ptr_le_objSize : 8 ≤ c.objSize :=
  (le_max_right _ _).trans (alignUp_spec _ c.objAlign_pos).2.1

theorem slabStart_eq {slab : ℕ} (hslab : PAGESIZE ∣ slab) :
    c.slabStart slab = slab + alignUp HEADER_SIZE c.objAlign :=
  alignUp_add c.objAlign_pos (c.objAlign_dvd_page.trans hslab) _

/-- **An object lies in its slab**, behind the header, and is aligned. -/
theorem object_bounds {slab i : ℕ} (hslab : PAGESIZE ∣ slab) (hi : i < c.total) :
    slab + HEADER_SIZE ≤ c.object slab i ∧ c.object slab i + c.objSize ≤ slab + SLAB_BYTES ∧
      c.objAlign ∣ c.object slab i := by
  obtain ⟨hdvd, hle, -⟩ := alignUp_spec HEADER_SIZE c.objAlign_pos
  have hend : (i + 1) * c.objSize ≤ SLAB_BYTES - alignUp HEADER_SIZE c.objAlign :=
    (Nat.mul_le_mul_right _ hi).trans (Nat.div_mul_le_self _ _)
  have hpos := c.ptr_le_objSize
  rw [add_mul] at hend
  unfold object
  rw [c.slabStart_eq hslab]
  refine ⟨by omega, by omega, ?_⟩
  exact dvd_add (dvd_add (c.objAlign_dvd_page.trans hslab) hdvd)
    (c.objAlign_dvd_objSize.mul_left i)

theorem object_lt (slab : ℕ) {i j : ℕ} (hij : i < j) :
    c.object slab i + c.objSize ≤ c.object slab j := by
  have hmul := Nat.mul_le_mul_right c.objSize (Nat.succ_le_of_lt hij)
  rw [Nat.succ_mul] at hmul
  unfold object
  omega

theorem object_inj {slab i j : ℕ} (h : c.object slab i = c.object slab j) : i = j := by
  have hpos := c.ptr_le_objSize
  rcases lt_trichotomy i j with hlt | heq | hgt
  · have := c.object_lt slab hlt
    omega
  · exact heq
  · have := c.object_lt slab hgt
    omega

theorem mem_objects {slab o : ℕ} : o ∈ c.objects slab ↔ ∃ i, i < c.total ∧ c.object slab i = o := by
  unfold objects
  simp only [mem_map, mem_range]

theorem length_objects (slab : ℕ) : (c.objects slab).length = c.total := by
  unfold objects
  rw [length_map, length_range]

theorem objects_disjoint {slab o o' : ℕ} (ho : o ∈ c.objects slab) (ho' : o' ∈ c.objects slab)
    (hne : o ≠ o') : o + c.objSize ≤ o' ∨ o' + c.objSize ≤ o := by
  obtain ⟨i, -, rfl⟩ := c.mem_objects.mp ho
  obtain ⟨j, -, rfl⟩ := c.mem_objects.mp ho'
  rcases lt_trichotomy i j with hlt | heq | hgt
  · exact .inl (c.object_lt slab hlt)
  · rw [heq] at hne
    exact absurd rfl hne
  · exact .inr (c.object_lt slab hgt)

/-- There is room for an object. -/
theorem total_pos : 0 < c.total := by
  have hlt : c.rawSize < 2048 := c.size_lt
  obtain ⟨k, hk, hpow⟩ := c.objAlign_pow
  have hle : c.objAlign ≤ 1024 := by
    rw [hpow]
    exact Nat.pow_le_pow_right (by decide) hk
  obtain ⟨-, -, hheader⟩ := alignUp_spec HEADER_SIZE c.objAlign_pos
  have h48 : HEADER_SIZE = 48 := rfl
  have hsize : c.objSize ≤ 2054 := by
    obtain ⟨-, -, hround⟩ := alignUp_spec (max c.rawSize PTR_SIZE) c.objAlign_pos
    unfold objSize
    rcases le_total c.rawAlign PTR_SIZE with hsmall | hlarge
    · have hptr : PTR_SIZE = 8 := rfl
      rw [show c.objAlign = PTR_SIZE from max_eq_right hsmall] at hround ⊢
      omega
    -- the size is a multiple of the alignment already
    have halign : c.objAlign = c.rawAlign := max_eq_left hlarge
    have hge := Nat.le_of_dvd c.size_pos c.size_dvd
    have hpos : 8 ≤ c.rawAlign := hlarge
    rw [max_eq_left (hlarge.trans hge), halign]
    have hsame := alignUp_add (show 0 < c.rawAlign by omega) c.size_dvd 0
    obtain ⟨hdvd, -, hzero⟩ := alignUp_spec 0 (show 0 < c.rawAlign by omega)
    rw [Nat.eq_zero_of_dvd_of_lt hdvd (by omega)] at hsame
    rw [add_zero] at hsame
    omega
  have hpos := c.ptr_le_objSize
  refine Nat.div_pos ?_ (by omega)
  show c.objSize ≤ 4096 - _
  omega

end SlabClass

variable {slab : ℕ}

/-- **`slab_of`** finds the slab of every byte of an object. -/
theorem slabOf_inside {c : SlabClass} (hslab : PAGESIZE ∣ slab)
    (ho : o ∈ c.objects slab) (hle : o ≤ a) (hlt : a < o + c.objSize) : slabOf a = slab := by
  obtain ⟨i, hi, rfl⟩ := c.mem_objects.mp ho
  obtain ⟨hlow, hhigh, -⟩ := c.object_bounds hslab hi
  have hbytes : SLAB_BYTES = 4096 := rfl
  have hpage : PAGESIZE ∣ slab ↔ 4096 ∣ slab := Iff.rfl
  show a / 4096 * 4096 = slab
  omega

theorem slabOf_object {c : SlabClass} (hslab : PAGESIZE ∣ slab)
    (ho : o ∈ c.objects slab) : slabOf o = slab := by
  have hpos := c.ptr_le_objSize
  exact slabOf_inside hslab ho le_rfl (by omega)

/-! ## The invariant -/

variable {F : Type} (c : SlabClass) (P : FrameAllocator F)

/-- The number of objects in use that belongs to a list. -/
def Matches (state : SlabState) (inuse : ℕ) : Prop :=
  match state with
  | .EMPTY => inuse = 0
  | .PARTIAL => 0 < inuse ∧ inuse < c.total
  | .FULL => inuse = c.total

/-- A slab that has the objects of `live` handed out: it is a page of the page allocator, and its
free objects are those of the chain. -/
structure SlabOk (s : Slub F) (live : Set ℕ) (slab : ℕ) : Prop where
  aligned : PAGESIZE ∣ slab
  kernel : KPA_OFFSET ≤ slab
  held : 0 < P.refs s.frames (pageOf (slab - KPA_OFFSET))
  total : (s.header slab).total = c.total
  chain : ∃ l, Chain s.word 0 (s.header slab).freelist l ∧
    (∀ o, o ∈ l ↔ o ∈ c.objects slab ∧ o ∉ live) ∧ l.length + (s.header slab).inuse = c.total

/-- The invariant, with `Q` for what is known of the list and the number of objects in use of a
slab. -/
structure InvFor (Q : ℕ → SlabState → ℕ → Prop) (s : Slub F) (live : Set ℕ) : Prop where
  frames : P.WF s.frames
  nodup : ∀ state, (s.lists state).Nodup
  apart : ∀ state state' slab, slab ∈ s.lists state → slab ∈ s.lists state' → state = state'
  state : ∀ state, ∀ slab ∈ s.lists state, (s.header slab).state = state
  slab : ∀ state, ∀ slab ∈ s.lists state,
    SlabOk c P s live slab ∧ Q slab state (s.header slab).inuse
  live : ∀ o ∈ live, ∃ state, slabOf o ∈ s.lists state ∧ o ∈ c.objects (slabOf o)

/-- **The invariant of a `Slub`**: every slab is in the list of its number of objects in use. -/
def Inv (s : Slub F) (live : Set ℕ) : Prop := InvFor c P (fun _ => Matches c) s live

variable {c P} {Q : ℕ → SlabState → ℕ → Prop} {s : Slub F} {live : Set ℕ}

variable {Q' : ℕ → SlabState → ℕ → Prop}

theorem InvFor.mono (h : InvFor c P Q s live) (hQ : ∀ state, ∀ slab ∈ s.lists state,
      Q slab state (s.header slab).inuse → Q' slab state (s.header slab).inuse) :
    InvFor c P Q' s live where
  frames := h.frames
  nodup := h.nodup
  apart := h.apart
  state := h.state
  slab := fun state slab hslab => ⟨(h.slab state slab hslab).1,
    hQ state slab hslab (h.slab state slab hslab).2⟩
  live := h.live

theorem linked_iff : s.linked slab = true ↔ ∃ state, slab ∈ s.lists state := by
  unfold Slub.linked
  rw [decide_eq_true_eq]
  constructor
  · rintro (h | h | h)
    · exact ⟨_, h⟩
    · exact ⟨_, h⟩
    · exact ⟨_, h⟩
  · rintro ⟨state, h⟩
    cases state with
    | EMPTY => exact .inl h
    | PARTIAL => exact .inr (.inl h)
    | FULL => exact .inr (.inr h)

theorem pushBack_eq (h : s.linked slab = false) (state : SlabState) :
    pushBack state slab s = .ok (.ok (), s.setList state (s.lists state ++ [slab])) := by
  unfold pushBack Kernel.modify
  dsimp only
  rw [h, if_neg (by decide)]

/-! ## What an operation leaves alone -/

/-- The page frame of an address. -/
def pageAt (a : ℕ) : ℕ := pageOf (a - KPA_OFFSET)

theorem pageAt_slabOf (a : ℕ) : pageAt (slabOf a) = pageAt a := by
  show (a / 4096 * 4096 - 0xFFFFFFC000000000) / 4096 = (a - 0xFFFFFFC000000000) / 4096
  omega

variable (P) in
/-- The address lies in a page that is in use by somebody else. -/
def Foreign (s : Slub F) (a : ℕ) : Prop :=
  KPA_OFFSET ≤ a ∧ 0 < P.refs s.frames (pageAt a) ∧ ∀ state, slabOf a ∉ s.lists state

variable (P) in
/-- No page was given back, the slabs are the old ones or in new pages, and what lies in the pages
of others is as it was. -/
structure Confined (s s' : Slub F) : Prop where
  refs : ∀ q, 0 < P.refs s.frames q → P.refs s'.frames q = P.refs s.frames q
  slabs : ∀ state, ∀ x ∈ s'.lists state,
    (∃ state', x ∈ s.lists state') ∨ P.refs s.frames (pageAt x) = 0
  word : ∀ a, Foreign P s a → s'.word a = s.word a
  header : ∀ a, Foreign P s a → s'.header a = s.header a

theorem Confined.refl (s : Slub F) : Confined P s s :=
  ⟨fun _ _ => rfl, fun state _ hx => .inl ⟨state, hx⟩, fun _ _ => rfl, fun _ _ => rfl⟩

variable {s' : Slub F}

theorem Confined.foreign {s : Slub F} (h : Confined P s s') (ha : Foreign P s a) :
    Foreign P s' a := by
  obtain ⟨hkernel, hrefs, hslab⟩ := ha
  refine ⟨hkernel, ?_, ?_⟩
  · rwa [h.refs _ hrefs]
  · intro state hmem
    rcases h.slabs state _ hmem with ⟨state', hold⟩ | hnew
    · exact hslab state' hold
    · rw [pageAt_slabOf] at hnew
      omega

theorem Confined.trans {s s'' : Slub F} (h : Confined P s s') (h' : Confined P s' s'') :
    Confined P s s'' := by
  refine ⟨?_, ?_, ?_, ?_⟩
  · intro q hq
    have hq' := h.refs q hq
    rw [h'.refs q (by omega), hq']
  · intro state x hx
    rcases h'.slabs state x hx with ⟨state', hold⟩ | hnew
    · exact h.slabs state' x hold
    · refine .inr ?_
      by_contra hpos
      rw [h.refs _ (by omega)] at hnew
      exact hpos hnew
  · intro a ha
    rw [h'.word a (h.foreign ha), h.word a ha]
  · intro a ha
    rw [h'.header a (h.foreign ha), h.header a ha]

theorem SlabOk.congr {s : Slub F} {live live' : Set ℕ} (h : SlabOk c P s live slab)
    (hrefs : P.refs s'.frames (pageAt slab) = P.refs s.frames (pageAt slab))
    (hheader : s'.header slab = s.header slab) (hword : ∀ o ∈ c.objects slab, s'.word o = s.word o)
    (hlive : ∀ o ∈ c.objects slab, o ∈ live' ↔ o ∈ live) : SlabOk c P s' live' slab := by
  obtain ⟨l, hchain, hmem, hlen⟩ := h.chain
  refine ⟨h.aligned, h.kernel, ?_, ?_, l, ?_, ?_, ?_⟩
  · show 0 < P.refs s'.frames (pageAt slab)
    rw [hrefs]
    exact h.held
  · rw [hheader]
    exact h.total
  · rw [hheader]
    apply hchain.congr
    intro o ho
    exact hword o ((hmem o).mp ho).1
  · intro o
    rw [hmem o]
    constructor
    · rintro ⟨ho, hnot⟩
      exact ⟨ho, fun hin => hnot ((hlive o ho).mp hin)⟩
    · rintro ⟨ho, hnot⟩
      exact ⟨ho, fun hin => hnot ((hlive o ho).mpr hin)⟩
  · rwa [hheader]

theorem objects_ne {slab slab' o' : ℕ} (hslab : PAGESIZE ∣ slab) (hslab' : PAGESIZE ∣ slab')
    (ho : o ∈ c.objects slab) (ho' : o' ∈ c.objects slab') (hne : slab ≠ slab') : o ≠ o' := by
  rintro rfl
  apply hne
  rw [← slabOf_object hslab ho, slabOf_object hslab' ho']

/-- **A step that touches one slab**, which is in the list `target` after it.  The other slabs are
where they were, and so are the pages of others. -/
theorem InvFor.change (h : InvFor c P Q s live) {target : SlabState} {live' : Set ℕ}
    (hwf : P.WF s'.frames)
    (hrefs : ∀ q, 0 < P.refs s.frames q → P.refs s'.frames q = P.refs s.frames q)
    (hplace : (∃ state, slab ∈ s.lists state) ∨ P.refs s.frames (pageAt slab) = 0)
    (hnodup : ∀ state, (s'.lists state).Nodup)
    (hmem : ∀ state x, x ∈ s'.lists state ↔ if x = slab then state = target else x ∈ s.lists state)
    (hheader : ∀ x, x ≠ slab → s'.header x = s.header x)
    (hword : ∀ a, a ∉ c.objects slab → s'.word a = s.word a)
    (hlive : ∀ o, o ∉ c.objects slab → (o ∈ live' ↔ o ∈ live))
    (hstate : (s'.header slab).state = target) (hok : SlabOk c P s' live' slab)
    (hself : Q' slab target (s'.header slab).inuse)
    (hother : ∀ state, ∀ x ∈ s.lists state, x ≠ slab → Q x state (s.header x).inuse →
      Q' x state (s.header x).inuse) : InvFor c P Q' s' live' ∧ Confined P s s' := by
  have hfar : ∀ a, Foreign P s a → slabOf a ≠ slab := by
    rintro a ⟨hkernel, hpos, hslab⟩ rfl
    rcases hplace with ⟨state, hin⟩ | hnew
    · exact hslab state hin
    · rw [pageAt_slabOf] at hnew
      omega
  refine ⟨⟨hwf, hnodup, ?_, ?_, ?_, ?_⟩, hrefs, ?_, ?_, ?_⟩
  · intro st st' x hx hx'
    rw [hmem] at hx hx'
    by_cases heq : x = slab
    · rw [if_pos heq] at hx hx'
      rw [hx, hx']
    · rw [if_neg heq] at hx hx'
      exact h.apart st st' x hx hx'
  · intro st x hx
    rw [hmem] at hx
    by_cases heq : x = slab
    · rw [if_pos heq] at hx
      rw [heq, hstate, hx]
    · rw [if_neg heq] at hx
      rw [hheader x heq]
      exact h.state st x hx
  · intro st x hx
    rw [hmem] at hx
    by_cases heq : x = slab
    · rw [if_pos heq] at hx
      rw [hx, heq]
      exact ⟨hok, hself⟩
    · rw [if_neg heq] at hx
      obtain ⟨hokx, hQ⟩ := h.slab st x hx
      have hapart : ∀ o ∈ c.objects x, o ∉ c.objects slab :=
        fun o ho ho' => objects_ne hokx.aligned hok.aligned ho ho' heq rfl
      rw [hheader x heq]
      exact ⟨hokx.congr (hrefs _ hokx.held) (hheader x heq) (fun o ho => hword o (hapart o ho))
        fun o ho => hlive o (hapart o ho), hother st x hx heq hQ⟩
  · intro o ho
    by_cases hobj : o ∈ c.objects slab
    · have hslab := slabOf_object hok.aligned hobj
      exact ⟨target, by rw [hmem, if_pos hslab], by rwa [hslab]⟩
    · obtain ⟨st, hst, hin⟩ := h.live o ((hlive o hobj).mp ho)
      refine ⟨st, ?_, hin⟩
      rwa [hmem, if_neg]
      rintro rfl
      exact hobj hin
  · intro st x hx
    rw [hmem] at hx
    by_cases heq : x = slab
    · rwa [heq]
    · rw [if_neg heq] at hx
      exact .inl ⟨st, hx⟩
  · intro a ha
    exact hword a fun hobj => hfar a ha (slabOf_object hok.aligned hobj)
  · intro a ha
    refine hheader a ?_
    rintro rfl
    exact hfar a ha (Nat.div_mul_cancel hok.aligned)

/-- The places of the slabs, when none of them moves. -/
theorem InvFor.mem_lists (h : InvFor c P Q s live) {old : SlabState}
    (hslab : slab ∈ s.lists old) (state : SlabState) (x : ℕ) :
    x ∈ s.lists state ↔ if x = slab then state = old else x ∈ s.lists state := by
  split
  · rename_i heq
    rw [heq]
    exact ⟨fun hx => h.apart _ _ _ hx hslab, fun hst => hst ▸ hslab⟩
  · exact Iff.rfl

/-! ## Moving a slab -/

/-- The state after a slab of the list `old` was moved to the list `state`. -/
def Slub.moved (s : Slub F) (old state : SlabState) (slab : ℕ) : Slub F :=
  { s with header := update s.header slab { s.header slab with state := state }
           lists := update (update s.lists old ((s.lists old).erase slab)) state
             (s.lists state ++ [slab]) }

section Moved

variable {old target : SlabState} {slab : ℕ}

theorem InvFor.mem_moved (h : InvFor c P Q s live) (hslab : slab ∈ s.lists old)
    (hne : old ≠ target) (st : SlabState) (x : ℕ) :
    x ∈ (s.moved old target slab).lists st ↔ if x = slab then st = target else x ∈ s.lists st := by
  show x ∈ update (update s.lists old ((s.lists old).erase slab)) target
    (s.lists target ++ [slab]) st ↔ _
  by_cases hx : x = slab
  · rw [if_pos hx, hx]
    by_cases ht : st = target
    · rw [ht]
      simp
    rw [update_of_ne ht]
    by_cases ho : st = old
    · rw [ho, update_self, (h.nodup old).mem_erase_iff]
      simp [hne]
    · rw [update_of_ne ho]
      exact ⟨fun hmem => absurd (h.apart st old slab hmem hslab) ho, fun heq => absurd heq ht⟩
  · rw [if_neg hx]
    by_cases ht : st = target
    · rw [ht]
      simp [hx]
    rw [update_of_ne ht]
    by_cases ho : st = old
    · rw [ho, update_self, mem_erase_of_ne hx]
    · rw [update_of_ne ho]

theorem InvFor.nodup_moved (h : InvFor c P Q s live) (hslab : slab ∈ s.lists old)
    (hne : old ≠ target) (st : SlabState) : ((s.moved old target slab).lists st).Nodup := by
  show (update (update s.lists old ((s.lists old).erase slab)) target
    (s.lists target ++ [slab]) st).Nodup
  by_cases ht : st = target
  · rw [ht, update_self]
    refine nodup_append_comm.mpr (nodup_cons.mpr ⟨?_, h.nodup target⟩)
    exact fun hin => hne (h.apart old target slab hslab hin)
  rw [update_of_ne ht]
  by_cases ho : st = old
  · rw [ho, update_self]
    exact (h.nodup old).erase slab
  · rw [update_of_ne ho]
    exact h.nodup st

/-- **`moveTo`** on a slab of another list. -/
theorem InvFor.moveTo_eq (h : InvFor c P Q s live) (hslab : slab ∈ s.lists old)
    (hne : old ≠ target) : moveTo target slab s = .ok (.ok (), s.moved old target slab) := by
  have hstate := h.state old slab hslab
  have herase : erase old slab s =
      .ok (.ok (), s.setList old ((s.lists old).erase slab)) := by
    unfold erase
    rw [get_bind, if_pos hslab]
    rfl
  unfold moveTo
  rw [get_bind, hstate, if_pos hne, bind_of_ok herase]
  -- it is in no list now
  have hlinked : ((s.setList old ((s.lists old).erase slab)).setHeader slab
      { s.header slab with state := target }).linked slab = false := by
    rw [← Bool.not_eq_true, linked_iff]
    rintro ⟨st, hst⟩
    replace hst : slab ∈ update s.lists old ((s.lists old).erase slab) st := hst
    by_cases ho : st = old
    · rw [ho, update_self] at hst
      exact (h.nodup old).not_mem_erase hst
    · rw [update_of_ne ho] at hst
      exact ho (h.apart st old slab hst hslab)
  refine (pushBack_eq hlinked target).trans ?_
  have hother : update s.lists old ((s.lists old).erase slab) target = s.lists target :=
    update_of_ne (Ne.symm hne) ..
  show Except.ok (Except.ok (), Slub.mk s.frames _ s.word (update _ target
    (update s.lists old ((s.lists old).erase slab) target ++ [slab]))) = _
  rw [hother]
  rfl

theorem InvFor.moved {Q' : ℕ → SlabState → ℕ → Prop} (h : InvFor c P Q s live)
    (hslab : slab ∈ s.lists old) (hne : old ≠ target) (hself : Q' slab target (s.header slab).inuse)
    (hother : ∀ state, ∀ x ∈ s.lists state, x ≠ slab → Q x state (s.header x).inuse →
      Q' x state (s.header x).inuse) :
    InvFor c P Q' (s.moved old target slab) live ∧ Confined P s (s.moved old target slab) := by
  have hok := (h.slab old slab hslab).1
  have hheader : (s.moved old target slab).header slab =
      { s.header slab with state := target } := update_self ..
  refine h.change h.frames (fun _ _ => rfl) (.inl ⟨old, hslab⟩) (h.nodup_moved hslab hne)
    (h.mem_moved hslab hne) (fun x hx => update_of_ne hx ..) (fun _ _ => rfl) (fun _ _ => Iff.rfl)
    ?_ ⟨hok.aligned, hok.kernel, hok.held, ?_, ?_⟩ ?_ hother
  all_goals rw [hheader]
  · exact hok.total
  · exact hok.chain
  · exact hself

end Moved

/-! ## A new slab -/

theorem linkLoop_spec (c : SlabClass) (slab : ℕ) (hslab : PAGESIZE ∣ slab) :
    ∀ i, i ≤ c.total → ∀ head word, Chain word 0 head
      ((range' i (c.total - i)).map (c.object slab)) →
      Chain (linkLoop c slab i head word).2 0 (linkLoop c slab i head word).1 (c.objects slab) ∧
        ∀ a, a ∉ c.objects slab → (linkLoop c slab i head word).2 a = word a := by
  intro i
  induction i with
  | zero =>
    intro _ head word hchain
    refine ⟨?_, fun a _ => rfl⟩
    rwa [← range_eq_range'] at hchain
  | succ i ih =>
    intro hi head word hchain
    have hobj : c.object slab i ∈ c.objects slab := c.mem_objects.mpr ⟨i, hi, rfl⟩
    have hne : c.object slab i ≠ 0 := by
      have hbound := (c.object_bounds hslab hi).1
      have h48 : HEADER_SIZE = 48 := rfl
      omega
    have hnot : c.object slab i ∉ (range' (i + 1) (c.total - (i + 1))).map (c.object slab) := by
      intro hmem
      obtain ⟨j, hj, heq⟩ := mem_map.mp hmem
      rw [mem_range'_1] at hj
      have := c.object_inj heq
      omega
    have hnext := hchain.push hne hnot
    rw [← map_cons, ← range'_succ, show c.total - (i + 1) + 1 = c.total - i by omega]
      at hnext
    obtain ⟨hres, hframe⟩ := ih (by omega) _ _ hnext
    refine ⟨hres, ?_⟩
    intro a ha
    show (linkLoop c slab i _ _).2 a = word a
    rw [hframe a ha, update_of_ne]
    rintro rfl
    exact ha hobj

/-- The state after a new slab was made and put into the list of partial slabs. -/
def Slub.added (c : SlabClass) (s : Slub F) (frames : F) (slab : ℕ) : Slub F where
  frames := frames
  header := update s.header slab ⟨(linkLoop c slab c.total 0 s.word).1, 0, c.total, .PARTIAL⟩
  word := (linkLoop c slab c.total 0 s.word).2
  lists := update s.lists .PARTIAL (s.lists .PARTIAL ++ [slab])

theorem InvFor.added (h : InvFor c P Q s live)
    {frames : F} (hget : P.getFreePage s.frames 1 = .ok (.ok paddr, frames))
    (hslabdef : slab = paddr + KPA_OFFSET) (hself : Q' slab .PARTIAL 0)
    (hother : ∀ state, ∀ x ∈ s.lists state, x ≠ slab → Q x state (s.header x).inuse →
      Q' x state (s.header x).inuse) :
    InvFor c P Q' (s.added c frames slab) live ∧ Confined P s (s.added c frames slab) ∧
      ∀ state, slab ∉ s.lists state := by
  obtain ⟨hwf, haligned, hrefs⟩ := P.get_ok _ _ _ _ h.frames hget
  have hpage : pageAt slab = pageOf paddr := by
    unfold pageAt
    rw [hslabdef, Nat.add_sub_cancel]
  have hslab : PAGESIZE ∣ slab := by
    rw [hslabdef]
    exact dvd_add haligned ⟨0xFFFFFFC000000, rfl⟩
  have hin : InFrames (pageOf paddr) 1 (pageOf paddr) := ⟨le_rfl, Nat.lt_succ_self _⟩
  have hnew := hrefs (pageOf paddr)
  rw [if_pos hin] at hnew
  have hkeep : ∀ q, 0 < P.refs s.frames q → P.refs frames q = P.refs s.frames q := by
    intro q hq
    have hq' := hrefs q
    rw [if_neg] at hq'
    · exact hq'
    · rintro ⟨hle, hlt⟩
      rw [show q = pageOf paddr by omega] at hq
      omega
  -- the page was in use by nobody, so that it is not the page of a slab
  have hfresh : ∀ state, slab ∉ s.lists state := by
    intro state hmem
    have hheld := (h.slab state slab hmem).1.held
    rw [show pageOf (slab - KPA_OFFSET) = pageOf paddr from hpage] at hheld
    omega
  obtain ⟨hchain, hword⟩ := linkLoop_spec c slab hslab c.total le_rfl 0 s.word (by
    rw [Nat.sub_self]
    rfl)
  have hself' : (s.added c frames slab).header slab =
      ⟨(linkLoop c slab c.total 0 s.word).1, 0, c.total, .PARTIAL⟩ := update_self ..
  have hok : SlabOk c P (s.added c frames slab) live slab := by
    refine ⟨hslab, ?_, ?_, ?_, c.objects slab, ?_, ?_, ?_⟩
    · rw [hslabdef]
      exact Nat.le_add_left _ _
    · show 0 < P.refs frames (pageAt slab)
      rw [hpage, hnew.2]
      exact one_pos
    · rw [hself']
    · rwa [hself']
    · intro o
      refine ⟨fun ho => ⟨ho, ?_⟩, fun ho => ho.1⟩
      intro hlive
      obtain ⟨st, hst, -⟩ := h.live o hlive
      rw [slabOf_object hslab ho] at hst
      exact hfresh st hst
    · rw [hself', c.length_objects]
      rfl
  rw [← and_assoc]
  refine ⟨h.change hwf hkeep (.inr (hpage ▸ hnew.1)) ?_ ?_ (fun x hx => update_of_ne hx ..)
    hword (fun _ _ => Iff.rfl) (by rw [hself']) hok (by rwa [hself']) hother, hfresh⟩
  · intro state
    show (update s.lists .PARTIAL (s.lists .PARTIAL ++ [slab]) state).Nodup
    by_cases hst : state = .PARTIAL
    · rw [hst]
      exact nodup_append_comm.mpr (nodup_cons.mpr ⟨hfresh _, h.nodup _⟩)
    · rw [update_of_ne hst]
      exact h.nodup state
  · intro state x
    show x ∈ update s.lists .PARTIAL (s.lists .PARTIAL ++ [slab]) state ↔ _
    by_cases hst : state = .PARTIAL
    · rw [hst]
      by_cases hx : x = slab
      · simp [hx]
      · simp [hx]
    · rw [update_of_ne hst]
      by_cases hx : x = slab
      · rw [if_pos hx, hx]
        exact iff_of_false (hfresh state) hst
      · rw [if_neg hx]

/-! ## Allocation -/

/-- The slab was chosen for an object: it has one, and is in the list of partial slabs. -/
def Chosen (c : SlabClass) (slab : ℕ) (x : ℕ) (state : SlabState) (inuse : ℕ) : Prop :=
  if x = slab then state = .PARTIAL ∧ inuse < c.total else Matches c state inuse

/-- The pages that `alloc` asks for: none if a slab has a free object. -/
def Slub.pages (s : Slub F) : ℕ :=
  if s.lists .PARTIAL = [] ∧ s.lists .EMPTY = [] then 1 else 0

theorem Slub.pages_of_mem {state : SlabState} (hmem : slab ∈ s.lists state)
    (hstate : state ≠ .FULL) : s.pages = 0 := by
  apply if_neg
  rintro ⟨hpart, hempty⟩
  cases state with
  | PARTIAL => exact absurd (hpart ▸ hmem) not_mem_nil
  | EMPTY => exact absurd (hempty ▸ hmem) not_mem_nil
  | FULL => exact hstate rfl

theorem Slub.pages_of_none (hpart : (s.lists .PARTIAL).getLast? = none)
    (hempty : (s.lists .EMPTY).getLast? = none) : s.pages = 1 :=
  if_pos ⟨getLast?_eq_none_iff.mp hpart, getLast?_eq_none_iff.mp hempty⟩

variable {r : Result (Option ℕ)}

theorem newSlab_cases (h : newSlab c P s = .ok (r, s')) :
    (∃ e frames, P.getFreePage s.frames 1 = .ok (.error e, frames) ∧ r = .ok none ∧
      s' = { s with frames := frames }) ∨
    ∃ paddr frames slab, P.getFreePage s.frames 1 = .ok (.ok paddr, frames) ∧
      slab = paddr + KPA_OFFSET ∧ r = .ok (some slab) ∧
      s' = { s with frames := frames }.initSlabHeaders c slab := by
  unfold newSlab at h
  rw [get_bind] at h
  cases hget : P.getFreePage s.frames 1 with
  | error e =>
    rw [hget] at h
    exact absurd h nofun
  | ok p =>
    obtain ⟨res, frames⟩ := p
    rw [hget] at h
    cases res with
    | error e =>
      obtain ⟨rfl, rfl⟩ := pure_eq_ok.mp h
      exact .inl ⟨e, frames, rfl, rfl, rfl⟩
    | ok paddr =>
      obtain ⟨rfl, rfl⟩ := pure_eq_ok.mp h
      exact .inr ⟨paddr, frames, _, rfl, rfl, rfl, rfl⟩

/-- **The choice of a slab.**  There is none only if the page allocator has no page. -/
theorem Inv.chooseSlab (h : Inv c P s live) (hcall : chooseSlab c P s = .ok (r, s')) :
    (r = .ok none ∧ Inv c P s' live ∧ Confined P s s' ∧ P.Refuses s.frames s.pages) ∨
    ∃ slab, r = .ok (some slab) ∧ InvFor c P (Chosen c slab) s' live ∧ Confined P s s' ∧
      slab ∈ s'.lists .PARTIAL ∧ P.Serves s.frames s.pages s'.frames := by
  unfold Slab.chooseSlab at hcall
  rw [get_bind] at hcall
  cases hpart : (s.lists .PARTIAL).getLast? with
  | some slab =>
    rw [hpart] at hcall
    obtain ⟨rfl, rfl⟩ := pure_eq_ok.mp hcall
    have hmem : slab ∈ s'.lists .PARTIAL := mem_of_getLast? hpart
    refine .inr ⟨slab, rfl, ?_, .refl s', hmem, .inl ⟨Slub.pages_of_mem hmem nofun, rfl⟩⟩
    apply h.mono
    intro state x hx hmatch
    unfold Chosen
    by_cases heq : x = slab
    · rw [if_pos heq]
      rw [heq] at hx hmatch ⊢
      obtain rfl := h.apart _ _ _ hx hmem
      exact ⟨rfl, hmatch.2⟩
    · rwa [if_neg heq]
  | none =>
    rw [hpart] at hcall
    cases hempty : (s.lists .EMPTY).getLast? with
    | some slab =>
      rw [hempty] at hcall
      have hmem : slab ∈ s.lists .EMPTY := mem_of_getLast? hempty
      have hne : SlabState.EMPTY ≠ .PARTIAL := by decide
      have hmove := h.moveTo_eq hmem hne
      dsimp only at hcall
      unfold toPartial at hcall
      rw [bind_of_ok hmove] at hcall
      obtain ⟨rfl, rfl⟩ := pure_eq_ok.mp hcall
      have hmoved : InvFor c P (Chosen c slab) (s.moved .EMPTY .PARTIAL slab) live ∧
          Confined P s (s.moved .EMPTY .PARTIAL slab) := by
        apply h.moved hmem hne
        · unfold Chosen
          rw [if_pos rfl]
          have hzero : (s.header slab).inuse = 0 := (h.slab _ _ hmem).2
          rw [hzero]
          exact ⟨rfl, c.total_pos⟩
        · intro state x _ hx hmatch
          unfold Chosen
          rwa [if_neg hx]
      refine .inr ⟨slab, rfl, hmoved.1, hmoved.2, ?_, .inl ⟨Slub.pages_of_mem hmem nofun, rfl⟩⟩
      rw [h.mem_moved hmem hne, if_pos rfl]
    | none =>
      rw [hempty] at hcall
      rcases bind_eq_ok.mp hcall with ⟨e, hnew, -⟩ | ⟨o, t, hnew, hrest⟩
      · rcases newSlab_cases hnew with ⟨_, _, _, hr, _⟩ | ⟨_, _, _, _, _, hr, _⟩
        · exact absurd hr nofun
        · exact absurd hr nofun
      rcases newSlab_cases hnew with ⟨e, frames, hget, ho, rfl⟩ |
        ⟨paddr, frames, slab, hget, hslab, ho, rfl⟩
      · cases ho
        obtain ⟨rfl, rfl⟩ := pure_eq_ok.mp hrest
        obtain ⟨hwf, hrefs⟩ := P.get_error _ _ _ _ h.frames hget
        refine .inl ⟨rfl, ⟨hwf, h.nodup, h.apart, h.state, ?_, h.live⟩, ?_, ?_⟩
        · intro state x hx
          obtain ⟨hok, hmatch⟩ := h.slab state x hx
          exact ⟨hok.congr (hrefs _) rfl (fun _ _ => rfl) fun _ _ => Iff.rfl, hmatch⟩
        · exact ⟨fun q _ => hrefs q, fun state x hx => .inl ⟨state, hx⟩, fun _ _ => rfl,
            fun _ _ => rfl⟩
        · rw [Slub.pages_of_none hpart hempty]
          exact ⟨one_ne_zero, e, frames, hget⟩
      · cases ho
        have hadded : InvFor c P (Chosen c slab) (s.added c frames slab) live ∧
            Confined P s (s.added c frames slab) ∧ ∀ state, slab ∉ s.lists state := by
          apply h.added hget hslab
          · unfold Chosen
            rw [if_pos rfl]
            exact ⟨rfl, c.total_pos⟩
          · intro state x _ hne hmatch
            unfold Chosen
            rwa [if_neg hne]
        obtain ⟨hinv, hconf, hfresh⟩ := hadded
        set t := { s with frames := frames }.initSlabHeaders c slab with ht
        have hheader : t.header slab =
            ⟨(linkLoop c slab c.total 0 s.word).1, 0, c.total, .EMPTY⟩ :=
          update_self ..
        have hlinked : (t.setHeader slab { t.header slab with state := .PARTIAL }).linked slab
            = false := by
          rw [← Bool.not_eq_true, linked_iff]
          rintro ⟨state, hmem⟩
          exact hfresh state hmem
        have hpush : (t.setHeader slab { t.header slab with state := .PARTIAL }).setList .PARTIAL
            (s.lists .PARTIAL ++ [slab]) = s.added c frames slab := by
          rw [hheader]
          show Slub.mk frames (update (update s.header slab _) slab _) _ _ = _
          rw [update_idem]
          rfl
        replace hrest : (modify (fun t : Slub F =>
            t.setHeader slab { t.header slab with state := .PARTIAL }) >>= fun _ =>
            pushBack .PARTIAL slab >>= fun _ => Pure.pure (some slab)) t = .ok (r, s') := hrest
        rw [modify_bind, bind_of_ok (pushBack_eq hlinked _)] at hrest
        obtain ⟨rfl, rfl⟩ := pure_eq_ok.mp hrest
        refine .inr ⟨slab, rfl, ?_⟩
        rw [show (t.setHeader slab { t.header slab with state := .PARTIAL }).setList .PARTIAL
          ((t.setHeader slab { t.header slab with state := .PARTIAL }).lists .PARTIAL ++ [slab])
            = s.added c frames slab from hpush]
        refine ⟨hinv, hconf, ?_, ?_⟩
        · show slab ∈ update s.lists .PARTIAL (s.lists .PARTIAL ++ [slab]) .PARTIAL
          rw [update_self]
          simp
        · rw [Slub.pages_of_none hpart hempty]
          exact .inr ⟨one_ne_zero, paddr, hget⟩

def Slub.taken (s : Slub F) (slab : ℕ) : Slub F :=
  s.setHeader slab { s.header slab with freelist := s.word (s.header slab).freelist
                                        inuse := (s.header slab).inuse + 1 }

/-- **The object**: it is a free object of the slab, and is handed out now. -/
theorem InvFor.taken (h : InvFor c P (Chosen c slab) s live) (hslab : slab ∈ s.lists .PARTIAL) :
    (s.header slab).freelist ≠ 0 ∧ (s.header slab).freelist ∈ c.objects slab ∧
      (s.header slab).freelist ∉ live ∧
      InvFor c P (fun x state inuse => if x = slab then
          state = .PARTIAL ∧ inuse = (s.header slab).inuse + 1 ∧ inuse ≤ c.total
        else Matches c state inuse) (s.taken slab) (insert (s.header slab).freelist live) ∧
      Confined P s (s.taken slab) := by
  obtain ⟨hok, hchosen⟩ := h.slab _ _ hslab
  unfold Chosen at hchosen
  rw [if_pos rfl] at hchosen
  obtain ⟨l, hchain, hmem, hlen⟩ := hok.chain
  -- there is a free object
  have hne : (s.header slab).freelist ≠ 0 := by
    intro hzero
    have hempty : Chain s.word 0 (s.header slab).freelist [] := hzero
    have hnil := hchain.unique hempty
    rw [hnil, length_nil] at hlen
    omega
  obtain ⟨rest, rfl, hrest⟩ := hchain.pop hne
  set obj := (s.header slab).freelist with hobj
  obtain ⟨hin, hnotlive⟩ := (hmem obj).mp mem_cons_self
  have hnodup := nodup_cons.mp hchain.nodup
  have hself : (s.taken slab).header slab =
      { s.header slab with freelist := s.word obj, inuse := (s.header slab).inuse + 1 } :=
    update_self ..
  have hok' : SlabOk c P (s.taken slab) (insert obj live) slab := by
    refine ⟨hok.aligned, hok.kernel, hok.held, ?_, rest, ?_, ?_, ?_⟩
    · rw [hself]
      exact hok.total
    · rwa [hself]
    · intro o
      have ho := hmem o
      rw [mem_cons] at ho
      rw [Set.mem_insert_iff, not_or]
      constructor
      · intro hor
        have hne' : o ≠ obj := by
          rintro rfl
          exact hnodup.1 hor
        exact ⟨(ho.mp (.inr hor)).1, hne', (ho.mp (.inr hor)).2⟩
      · rintro ⟨h1, h2, h3⟩
        exact (ho.mpr ⟨h1, h3⟩).resolve_left h2
    · rw [hself]
      rw [length_cons] at hlen
      show rest.length + ((s.header slab).inuse + 1) = c.total
      omega
  refine ⟨hne, hin, hnotlive, h.change h.frames (fun _ _ => rfl) (.inl ⟨_, hslab⟩) h.nodup
    (h.mem_lists hslab) (fun x hx => update_of_ne hx ..) (fun _ _ => rfl) ?_ ?_ hok' ?_ ?_⟩
  · intro o ho
    exact Set.mem_insert_iff.trans (or_iff_right fun heq => ho (heq ▸ hin))
  · rw [hself]
    exact h.state _ _ hslab
  · rw [if_pos rfl, hself]
    exact ⟨rfl, rfl, hchosen.2⟩
  · intro state x _ hx hmatch
    unfold Chosen at hmatch
    rwa [if_neg hx] at hmatch ⊢

/-- The second half of `alloc`. -/
theorem InvFor.takeObject (h : InvFor c P (Chosen c slab) s live)
    (hslab : slab ∈ s.lists .PARTIAL) :
    ∃ obj s', Slab.takeObject slab s = .ok (.ok obj, s') ∧ obj ∉ live ∧ Confined P s s' ∧
      s'.frames = s.frames ∧ Inv c P s' (insert obj live) := by
  obtain ⟨hne, hobj, hnotlive, htaken, hconf⟩ := h.taken hslab
  obtain ⟨hok, -⟩ := h.slab _ _ hslab
  set obj := (s.header slab).freelist with hobjdef
  have hslab' : slab ∈ (s.taken slab).lists .PARTIAL := hslab
  have hinuse : ((s.taken slab).header slab).inuse = (s.header slab).inuse + 1 := by
    show (update s.header slab _ slab).inuse = _
    rw [update_self]
  unfold Slab.takeObject
  rw [get_bind, if_neg hne, hok.total]
  by_cases hfull : (s.header slab).inuse + 1 = c.total
  · rw [if_pos hfull]
    have hne' : SlabState.PARTIAL ≠ .FULL := by decide
    have hmove := htaken.moveTo_eq hslab' hne'
    have hmoved : Inv c P ((s.taken slab).moved .PARTIAL .FULL slab) (insert obj live) ∧
        Confined P (s.taken slab) ((s.taken slab).moved .PARTIAL .FULL slab) := by
      apply htaken.moved hslab' hne'
      · show _ = c.total
        rw [hinuse, hfull]
      · intro state x _ hx hmatchx
        rwa [if_neg hx] at hmatchx
    exact ⟨obj, _, bind_of_ok hmove _, hnotlive, hconf.trans hmoved.2, rfl, hmoved.1⟩
  · rw [if_neg hfull]
    refine ⟨obj, s.taken slab, rfl, hnotlive, hconf, rfl, ?_⟩
    apply htaken.mono
    intro state x hx hmatchx
    by_cases heq : x = slab
    · rw [if_pos heq] at hmatchx
      obtain ⟨rfl, hnum, hle⟩ := hmatchx
      show 0 < _ ∧ _ < c.total
      omega
    · rwa [if_neg heq] at hmatchx

/-- **`alloc`**: the object was free; there is none only if there is no page for a new slab. -/
theorem Inv.alloc (h : Inv c P s live) (hcall : Slab.alloc c P s = .ok (r, s')) :
    Confined P s s' ∧ ((r = .ok none ∧ Inv c P s' live ∧ P.Refuses s.frames s.pages) ∨
      ∃ obj, r = .ok (some obj) ∧ obj ∉ live ∧ Inv c P s' (insert obj live) ∧
        P.Serves s.frames s.pages s'.frames) := by
  rcases bind_eq_ok.mp hcall with ⟨e, hchoose, -⟩ | ⟨o, t, hchoose, hrest⟩
  · rcases h.chooseSlab hchoose with ⟨hr, -⟩ | ⟨_, hr, -⟩
    · exact absurd hr nofun
    · exact absurd hr nofun
  rcases h.chooseSlab hchoose with ⟨ho, hinv, hconf, hrefused⟩ |
    ⟨slab, ho, hinv, hconf, hslab, hserved⟩
  · cases ho
    obtain ⟨rfl, rfl⟩ := pure_eq_ok.mp hrest
    exact ⟨hconf, .inl ⟨rfl, hinv, hrefused⟩⟩
  cases ho
  obtain ⟨obj, t', htake, hnotlive, hconf', hframes, hinv'⟩ := hinv.takeObject hslab
  dsimp only at hrest
  rw [bind_of_ok htake] at hrest
  obtain ⟨rfl, rfl⟩ := pure_eq_ok.mp hrest
  exact ⟨hconf.trans hconf', .inr ⟨obj, rfl, hnotlive, hinv', hframes ▸ hserved⟩⟩

theorem Inv.chooseSlab_stops {e : Halt} (h : Inv c P s live)
    (hcall : Slab.chooseSlab c P s = .error e) :
    s.pages = 1 ∧ P.getFreePage s.frames 1 = .error e := by
  unfold Slab.chooseSlab at hcall
  rw [get_bind] at hcall
  cases hpart : (s.lists .PARTIAL).getLast? with
  | some slab =>
    rw [hpart] at hcall
    cases hcall
  | none =>
    rw [hpart] at hcall
    cases hempty : (s.lists .EMPTY).getLast? with
    | some slab =>
      have hmem : slab ∈ s.lists .EMPTY := mem_of_getLast? hempty
      have hmove : toPartial slab s = _ :=
        h.moveTo_eq hmem (show SlabState.EMPTY ≠ .PARTIAL by decide)
      rw [hempty] at hcall
      dsimp only at hcall
      rw [bind_of_ok hmove] at hcall
      cases hcall
    | none =>
      rw [hempty] at hcall
      rcases bind_eq_halt.mp hcall with hnew | ⟨o, t, -, hrest⟩
      · -- all that `new_slab` does after the request returns
        unfold newSlab at hnew
        rw [get_bind] at hnew
        rcases bind_eq_halt.mp hnew with hget | ⟨⟨res, frames⟩, t, -, hrest⟩
        · exact ⟨Slub.pages_of_none hpart hempty, ofHalt_eq_halt.mp hget⟩
        · cases res with
          | error e' => cases hrest
          | ok paddr => cases hrest
      · cases o with
        | none => cases hrest
        | some slab => cases hrest

theorem Inv.alloc_stops {e : Halt} (h : Inv c P s live) (hcall : Slab.alloc c P s = .error e) :
    s.pages = 1 ∧ P.getFreePage s.frames 1 = .error e := by
  rcases bind_eq_halt.mp hcall with hchoose | ⟨o, t, hchoose, hrest⟩
  · exact h.chooseSlab_stops hchoose
  rcases h.chooseSlab hchoose with ⟨ho, -⟩ | ⟨slab, ho, hinv, -, hslab, -⟩
  · cases ho
    cases hrest
  cases ho
  obtain ⟨obj, t', htake, -⟩ := hinv.takeObject hslab
  dsimp only at hrest
  rw [bind_of_ok htake] at hrest
  cases hrest

/-! ## Giving an object back -/

/-- The state after an object was given back to its slab. -/
def Slub.given (s : Slub F) (ptr : ℕ) : Slub F :=
  { s with word := update s.word ptr (s.header (slabOf ptr)).freelist
           header := update s.header (slabOf ptr)
             { s.header (slabOf ptr) with freelist := ptr
                                          inuse := (s.header (slabOf ptr)).inuse - 1 } }

theorem SlabOk.object_ne_zero (h : SlabOk c P s live slab) (ho : o ∈ c.objects slab) : o ≠ 0 := by
  obtain ⟨i, hi, heq⟩ := c.mem_objects.mp ho
  have hbound := (c.object_bounds h.aligned hi).1
  have h48 : HEADER_SIZE = 48 := rfl
  omega

theorem Inv.given {old : SlabState} (h : Inv c P s live) (hptr : ptr ∈ live)
    (hslab : slabOf ptr ∈ s.lists old) (hobj : ptr ∈ c.objects (slabOf ptr)) :
    0 < (s.header (slabOf ptr)).inuse ∧
      InvFor c P (fun x state inuse => if x = slabOf ptr then
          inuse = (s.header (slabOf ptr)).inuse - 1
        else Matches c state inuse) (s.given ptr) (live \ {ptr}) ∧ Confined P s (s.given ptr) := by
  obtain ⟨hok, hmatch⟩ := h.slab _ _ hslab
  obtain ⟨l, hchain, hmem, hlen⟩ := hok.chain
  set slab := slabOf ptr with hslabdef
  have hnot : ptr ∉ l := fun hin => ((hmem ptr).mp hin).2 hptr
  have hne : ptr ≠ 0 := hok.object_ne_zero hobj
  -- the object and the chain are different objects of the slab
  have hless : l.length + 1 ≤ c.total := by
    have hsub : (ptr :: l) ⊆ c.objects slab := by
      intro o ho
      rcases mem_cons.mp ho with rfl | hol
      · exact hobj
      · exact ((hmem o).mp hol).1
    have hnodup : (ptr :: l).Nodup := nodup_cons.mpr ⟨hnot, hchain.nodup⟩
    have hcard := (hnodup.subperm hsub).length_le
    rwa [c.length_objects] at hcard
  have hself : (s.given ptr).header slab =
      { s.header slab with freelist := ptr, inuse := (s.header slab).inuse - 1 } :=
    update_self ..
  have hok' : SlabOk c P (s.given ptr) (live \ {ptr}) slab := by
    refine ⟨hok.aligned, hok.kernel, hok.held, ?_, ptr :: l, ?_, ?_, ?_⟩
    · rw [hself]
      exact hok.total
    · rw [hself]
      exact hchain.push hne hnot
    · intro o
      rw [mem_cons, hmem o]
      constructor
      · rintro (rfl | ⟨ho, hnl⟩)
        · exact ⟨hobj, fun hc => hc.2 rfl⟩
        · exact ⟨ho, fun hc => hnl hc.1⟩
      · rintro ⟨ho, hc⟩
        by_cases hop : o = ptr
        · exact .inl hop
        · exact .inr ⟨ho, fun hl => hc ⟨hl, hop⟩⟩
    · rw [hself]
      show l.length + 1 + ((s.header slab).inuse - 1) = c.total
      omega
  refine ⟨by omega, h.change h.frames (fun _ _ => rfl) (.inl ⟨old, hslab⟩) h.nodup
    (h.mem_lists hslab) (fun x hx => update_of_ne hx ..) ?_ ?_ ?_ hok' ?_ ?_⟩
  · intro a ha
    exact update_of_ne (ne_of_mem_of_not_mem hobj ha).symm ..
  · intro o ho
    exact ⟨fun hin => hin.1, fun hin => ⟨hin, fun heq => ho (heq ▸ hobj)⟩⟩
  · rw [hself]
    exact h.state _ _ hslab
  · rw [if_pos rfl, hself]
  · intro state x _ hx hmatchx
    rwa [if_neg hx]

/-- **`free`** of an object that is handed out. -/
theorem Inv.free (h : Inv c P s live) (hptr : ptr ∈ live) :
    ∃ s', Slab.free ptr s = .ok (.ok (), s') ∧ Confined P s s' ∧ Inv c P s' (live \ {ptr}) ∧
      ∃ state, slabOf ptr ∈ s'.lists state := by
  obtain ⟨old, hslab, hobj⟩ := h.live ptr hptr
  obtain ⟨hpos, hgiven, hconf⟩ := h.given hptr hslab hobj
  obtain ⟨hok, hmatch⟩ := h.slab _ _ hslab
  set slab := slabOf ptr with hslabdef
  have hne : ptr ≠ 0 := hok.object_ne_zero hobj
  have hinuse : ((s.given ptr).header slab).inuse = (s.header slab).inuse - 1 := by
    show (update s.header slab _ slab).inuse = _
    rw [update_self]
  have hslab' : slab ∈ (s.given ptr).lists old := hslab
  -- what a slab gets that is moved
  have hmoved : ∀ target, old ≠ target → Matches c target ((s.header slab).inuse - 1) →
      ∃ s', moveTo target slab (s.given ptr) = .ok (.ok (), s') ∧ Confined P s s' ∧
        Inv c P s' (live \ {ptr}) ∧ ∃ state, slab ∈ s'.lists state := by
    intro target hold hself
    have hmoved : Inv c P ((s.given ptr).moved old target slab) (live \ {ptr}) ∧
        Confined P (s.given ptr) ((s.given ptr).moved old target slab) := by
      apply hgiven.moved hslab' hold
      · rwa [hinuse]
      · intro state x _ hx hmatchx
        rwa [if_neg hx] at hmatchx
    exact ⟨_, hgiven.moveTo_eq hslab' hold, hconf.trans hmoved.2, hmoved.1,
      target, (hgiven.mem_moved hslab' hold target slab).mpr (by rw [if_pos rfl])⟩
  have hcall : Slab.free ptr s = (if (s.header slab).inuse - 1 = 0 then toEmpty slab
      else if (s.header slab).inuse - 1 = (s.header slab).total - 1 then toPartial slab
      else Pure.pure () : Kernel (Slub F) Unit) (s.given ptr) := by
    unfold Slab.free
    rw [if_neg hne]
    rfl
  rw [hcall, hok.total]
  by_cases hzero : (s.header slab).inuse - 1 = 0
  · rw [if_pos hzero]
    apply hmoved
    · rintro rfl
      have : (s.header slab).inuse = 0 := hmatch
      omega
    · exact hzero
  rw [if_neg hzero]
  by_cases hfull : (s.header slab).inuse - 1 = c.total - 1
  · rw [if_pos hfull]
    apply hmoved
    · rintro rfl
      have : 0 < (s.header slab).inuse ∧ (s.header slab).inuse < c.total := hmatch
      omega
    · show 0 < _ ∧ _ < c.total
      omega
  · rw [if_neg hfull]
    refine ⟨s.given ptr, rfl, hconf, ?_, old, hslab'⟩
    apply hgiven.mono
    intro state x hx hmatchx
    by_cases heq : x = slab
    · rw [heq] at hx hmatchx ⊢
      obtain rfl := h.apart _ _ _ hx hslab
      cases state with
      | EMPTY => exact absurd (show (s.header slab).inuse = 0 from hmatch) (by omega)
      | FULL => exact absurd (show (s.header slab).inuse = c.total from hmatch) (by omega)
      | PARTIAL =>
        have : 0 < (s.header slab).inuse ∧ (s.header slab).inuse < c.total := hmatch
        show 0 < _ ∧ _ < c.total
        omega
    · rwa [if_neg heq] at hmatchx

/-! ## The page allocator -/

/-- The page allocator is the same. -/
abbrev SameFrames (s s' : Slub F) : Prop := s.frames = s'.frames

theorem moveTo_frames (state : SlabState) (slab : ℕ) :
    Kernel.Keeps (SameFrames (F := F)) (moveTo state slab) := by
  refine .bind .get fun s => .bind (.ite (.bind .get fun t => .ite (.modify fun _ => rfl)
    (.halt _)) (.pure _)) fun _ => .bind (.modify fun _ => rfl) fun _ => .modify ?_
  intro t
  split
  · rfl
  · rfl

/-- Pages are never given back. -/
theorem free_frames (ptr : ℕ) : Kernel.Keeps (SameFrames (F := F)) (Slab.free ptr) := by
  exact .ite (.pure _) (.bind .get fun s => .bind (.modify fun _ => rfl) fun _ =>
    .bind (.modify fun _ => rfl) fun _ => .ite (moveTo_frames _ _)
      (.ite (moveTo_frames _ _) (.pure _)))

end Sustcore.Slab
