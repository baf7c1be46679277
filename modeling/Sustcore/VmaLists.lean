/-
# The list of areas of a task

Whatever functions are called with whatever arguments, every area of a task is a valid
user area and no two areas intersect (`Tmm.Valid`).

The list is kept in the order of the first addresses by `add_vma`.  The functions that
move the first address of an area (`grow_vma`, `sync_memory_vmas`, and `remove_vma_range`
where it cuts off the front of an area) do not look at the order.  The lemmas below
therefore carry both facts at once (`Tmm.Ordered`): the list is valid, and it is in order
if the condition `G` holds, which for these functions has to imply that no first address
is moved past another one.
-/
import Sustcore.Ledger
import Sustcore.Vma

namespace Sustcore

open Relation Kernel Tmm VirArea List Bool

/-! ## Areas -/

/-- No address is in both areas. -/
def VirArea.Apart (a b : VirArea) : Prop := min a.stop b.stop ≤ max a.begin b.begin

instance (a b : VirArea) : Decidable (a.Apart b) := inferInstanceAs (Decidable (_ ≤ _))

variable {a b : VirArea}

theorem VirArea.isIntersecting_eq_false : a.isIntersecting b = false ↔ a.Apart b := by
  unfold isIntersecting VirArea.Apart
  rw [decide_eq_false_iff_not, not_lt]

theorem VirArea.Apart.symm (h : a.Apart b) : b.Apart a := by
  unfold VirArea.Apart at *
  omega

theorem VirArea.Apart.mono {c : VirArea} (h : a.Apart b) (hlow : b.begin ≤ c.begin)
    (hhigh : c.stop ≤ b.stop) : a.Apart c := by
  unfold VirArea.Apart at *
  omega

theorem VirArea.validUserArea_iff : a.validUserArea = true ↔
    a.begin ≤ a.stop ∧ 0 < a.begin ∧ a.stop < KPA_OFFSET := by
  simp only [validUserArea, isUserVaddr, and_eq_true, decide_eq_true_eq]
  omega

theorem pairwise_replace {α : Type} {R : α → α → Prop} {l r : List α} {a b : α}
    (h : (l ++ a :: r).Pairwise R) (hl : ∀ x ∈ l, R x b) (hr : ∀ x ∈ r, R b x) :
    (l ++ b :: r).Pairwise R := by
  rw [pairwise_append, pairwise_cons] at h ⊢
  obtain ⟨hleft, ⟨-, hright⟩, hcross⟩ := h
  refine ⟨hleft, ⟨hr, hright⟩, ?_⟩
  intro x hx y hy
  rcases mem_cons.mp hy with rfl | hy
  · exact hl x hx
  · exact hcross x hx y (mem_cons_of_mem _ hy)

/-! ## Lists of areas -/

/-- What all functions keep: valid areas, pairwise apart, at different addresses. -/
structure Tmm.Valid (s : Tmm) : Prop where
  area : ∀ v ∈ s.vmas, v.varea.validUserArea = true
  apart : s.vmas.Pairwise fun u v => u.varea.Apart v.varea
  nodup : (s.vmas.map Vma.id).Nodup
  fresh : ∀ v ∈ s.vmas, v.id < s.nextId

/-- The list is in the order of the first addresses. -/
def Tmm.Sorted (s : Tmm) : Prop := s.vmas.Pairwise fun u v => u.varea.begin ≤ v.varea.begin

/-- The list is valid, and in order if `G` holds. -/
structure Tmm.Ordered (G : Prop) (s : Tmm) : Prop where
  valid : s.Valid
  sorted : G → s.Sorted

section Edits

variable {G : Prop} {s s' : Tmm} {l r : List Vma} {v v' : Vma}

@[simp] theorem Tmm.unmapPages_vmas (varea : VirArea) : (s.unmapPages varea).vmas = s.vmas := by
  unfold unmapPages
  rfl

theorem Tmm.unmapPages_nextId (varea : VirArea) : (s.unmapPages varea).nextId = s.nextId := by
  unfold unmapPages
  rfl

variable {id memOffset memsz : ℕ}

theorem Tmm.find_eq_some (h : s.find id = some v) :
    v.id = id ∧ v ∈ s.vmas ∧ ∃ l r, s.vmas = l ++ v :: r := by
  have hmem := mem_of_find?_eq_some h
  have hid := find?_some h
  simp only [beq_iff_eq] at hid
  exact ⟨hid, hmem, append_of_mem hmem⟩

/-- Addresses of areas are unique. -/
theorem Tmm.Valid.eq_of_id (h : s.Valid) {u w : Vma} (hu : u ∈ s.vmas) (hw : w ∈ s.vmas)
    (hid : u.id = w.id) : u = w :=
  inj_on_of_nodup_map h.nodup hu hw hid

theorem Tmm.Valid.find (h : s.Valid) (hv : v ∈ s.vmas) : s.find v.id = some v := by
  cases hfind : s.find v.id with
  | none =>
    have hnone := find?_eq_none.mp hfind v hv
    simp at hnone
  | some u =>
    obtain ⟨hid, hu, -⟩ := find_eq_some hfind
    rw [h.eq_of_id hu hv hid]

/-- Changing the area at one address changes one element of the list. -/
theorem Tmm.Valid.setArea_vmas (h : s.Valid) (hsplit : s.vmas = l ++ v :: r) (f : Vma → Vma) :
    (s.setArea v.id f).vmas = l ++ f v :: r := by
  have hnodup := h.nodup
  rw [hsplit, map_append, map_cons, nodup_append, nodup_cons] at hnodup
  obtain ⟨-, ⟨hright, -⟩, hcross⟩ := hnodup
  have hleft : ∀ u ∈ l, u.id ≠ v.id := fun u hu =>
    hcross u.id (mem_map_of_mem hu) v.id mem_cons_self
  have hright' : ∀ u ∈ r, u.id ≠ v.id := by
    intro u hu heq
    exact hright (heq ▸ mem_map_of_mem hu)
  have hid : ∀ w : List Vma, (∀ u ∈ w, u.id ≠ v.id) →
      (w.map fun u => if u.id = v.id then f u else u) = w := by
    intro w hw
    conv_rhs => rw [← map_id w]
    refine map_congr_left fun u hu => ?_
    rw [if_neg (hw u hu)]
    rfl
  show s.vmas.map _ = _
  rw [hsplit, map_append, map_cons, if_pos rfl, hid l hleft, hid r hright']

theorem Tmm.Ordered.replace (h : s.Ordered G) (hsplit : s.vmas = l ++ v :: r)
    (hsplit' : s'.vmas = l ++ v' :: r) (hnext : s'.nextId = s.nextId) (hid : v'.id = v.id)
    (harea : v'.varea.validUserArea = true) (hapart : ∀ u ∈ l ++ r, u.varea.Apart v'.varea)
    (horder : G → (∀ u ∈ l, u.varea.begin ≤ v'.varea.begin) ∧
      ∀ u ∈ r, v'.varea.begin ≤ u.varea.begin) : s'.Ordered G := by
  have hother : ∀ u ∈ l ++ v' :: r, u = v' ∨ u ∈ l ++ v :: r := by
    intro u hu
    simp only [mem_append, mem_cons] at hu ⊢
    tauto
  refine ⟨⟨?_, ?_, ?_, ?_⟩, ?_⟩
  · intro u hu
    rw [hsplit'] at hu
    rcases hother u hu with rfl | hu
    · exact harea
    · exact h.valid.area u (hsplit ▸ hu)
  · rw [hsplit']
    refine pairwise_replace (hsplit ▸ h.valid.apart) ?_ ?_
    · exact fun u hu => hapart u (mem_append_left r hu)
    · exact fun u hu => (hapart u (mem_append_right l hu)).symm
  · have hnodup := h.valid.nodup
    rw [hsplit, map_append] at hnodup
    rwa [hsplit', map_append, map_cons, hid]
  · intro u hu
    rw [hnext]
    rw [hsplit'] at hu
    rcases hother u hu with rfl | hu
    · rw [hid]
      exact h.valid.fresh v (by rw [hsplit]; simp)
    · exact h.valid.fresh u (hsplit ▸ hu)
  · intro hG
    have hsorted := h.sorted hG
    unfold Tmm.Sorted at hsorted ⊢
    rw [hsplit] at hsorted
    rw [hsplit']
    exact pairwise_replace hsorted (horder hG).1 (horder hG).2

/-- Changes of the page table do not matter. -/
theorem Tmm.Ordered.unmapPages (h : s.Ordered G) (varea : VirArea) :
    (s.unmapPages varea).Ordered G := by
  obtain ⟨⟨harea, hapart, hnodup, hfresh⟩, hsorted⟩ := h
  unfold Tmm.Sorted at hsorted
  rw [← unmapPages_vmas varea] at harea hapart hnodup hfresh hsorted
  rw [← unmapPages_nextId varea] at hfresh
  exact ⟨⟨harea, hapart, hnodup, hfresh⟩, hsorted⟩

/-- Some areas are removed. -/
theorem Tmm.Ordered.filter (h : s.Ordered G) {keep : Vma → Bool}
    (hvmas : s'.vmas = s.vmas.filter keep) (hnext : s'.nextId = s.nextId) : s'.Ordered G := by
  have hsub : s'.vmas.Sublist s.vmas := by
    rw [hvmas]
    exact filter_sublist
  refine ⟨⟨?_, ?_, ?_, ?_⟩, ?_⟩
  · exact fun u hu => h.valid.area u (hsub.subset hu)
  · exact h.valid.apart.sublist hsub
  · exact h.valid.nodup.sublist (hsub.map Vma.id)
  · intro u hu
    rw [hnext]
    exact h.valid.fresh u (hsub.subset hu)
  · exact fun hG => (h.sorted hG).sublist hsub

theorem Tmm.mem_insertVma {u : Vma} : ∀ {w : List Vma}, u ∈ insertVma v w ↔ u = v ∨ u ∈ w := by
  intro w
  induction w with
  | nil => simp [insertVma]
  | cons a w ih =>
    rw [insertVma]
    split
    · simp
    · rw [mem_cons, mem_cons]
      tauto

/-- `add_vma` puts an area in front of an element that begins later. -/
theorem Tmm.insertVma_split (v : Vma) : ∀ w : List Vma, ∃ l r, w = l ++ r ∧
    insertVma v w = l ++ v :: r ∧ (∀ u ∈ l, u.varea.begin ≤ v.varea.begin) ∧
    ∀ u, r.head? = some u → v.varea.begin < u.varea.begin := by
  intro w
  induction w with
  | nil => exact ⟨[], [], rfl, rfl, by simp, by simp⟩
  | cons a w ih =>
    rw [insertVma]
    split
    · rename_i hlt
      refine ⟨[], a :: w, rfl, rfl, by simp, ?_⟩
      intro u hu
      cases hu
      exact hlt
    · obtain ⟨l, r, rfl, hinsert, hl, hr⟩ := ih
      refine ⟨a :: l, r, rfl, by rw [hinsert]; rfl, ?_, hr⟩
      intro u hu
      rcases mem_cons.mp hu with rfl | hu
      · omega
      · exact hl u hu

theorem Tmm.Ordered.insert (h : s.Ordered G) (hid : v.id = s.nextId)
    (harea : v.varea.validUserArea = true) (hapart : ∀ u ∈ s.vmas, u.varea.Apart v.varea)
    (hvmas : s'.vmas = insertVma v s.vmas) (hnext : s'.nextId = s.nextId + 1) : s'.Ordered G := by
  obtain ⟨l, r, hsplit, hinsert, hl, hr⟩ := insertVma_split v s.vmas
  have hmem : ∀ u ∈ s'.vmas, u = v ∨ u ∈ s.vmas := by
    intro u hu
    rw [hvmas] at hu
    exact mem_insertVma.mp hu
  have happend : ∀ {R : Vma → Vma → Prop}, s.vmas.Pairwise R → (∀ u ∈ l, R u v) →
      (∀ u ∈ r, R v u) → s'.vmas.Pairwise R := by
    intro R hR hleft hright
    rw [hsplit, pairwise_append] at hR
    rw [hvmas, hinsert, pairwise_append, pairwise_cons]
    refine ⟨hR.1, ⟨hright, hR.2.1⟩, ?_⟩
    intro x hx y hy
    rcases mem_cons.mp hy with rfl | hy
    · exact hleft x hx
    · exact hR.2.2 x hx y hy
  refine ⟨⟨?_, ?_, ?_, ?_⟩, ?_⟩
  · intro u hu
    rcases hmem u hu with rfl | hu
    · exact harea
    · exact h.valid.area u hu
  · refine happend h.valid.apart ?_ ?_
    · exact fun u hu => hapart u (by rw [hsplit]; exact mem_append_left r hu)
    · exact fun u hu => (hapart u (by rw [hsplit]; exact mem_append_right l hu)).symm
  · have hpair : s.vmas.Pairwise fun u w => u.id ≠ w.id := pairwise_map.mp h.valid.nodup
    have hnew : ∀ u ∈ s.vmas, u.id ≠ v.id := by
      intro u hu
      have := h.valid.fresh u hu
      omega
    refine pairwise_map.mpr (happend hpair ?_ ?_)
    · exact fun u hu => hnew u (by rw [hsplit]; exact mem_append_left r hu)
    · exact fun u hu => (hnew u (by rw [hsplit]; exact mem_append_right l hu)).symm
  · intro u hu
    rcases hmem u hu with rfl | hu
    · omega
    · have := h.valid.fresh u hu
      omega
  · intro hG
    refine happend (h.sorted hG) hl ?_
    -- the rest of a sorted list begins after its first element
    intro u hu
    have hsorted := h.sorted hG
    unfold Tmm.Sorted at hsorted
    rw [hsplit, pairwise_append] at hsorted
    cases r with
    | nil => cases hu
    | cons a r =>
      have ha := hr a rfl
      rcases mem_cons.mp hu with rfl | hu
      · exact ha.le
      · have := (pairwise_cons.mp hsorted.2.1).1 u hu
        omega

/-! ## `add_vma` and `remove_vma` -/

variable {varea a : VirArea}

theorem addVma_eq_ok {type : VmaType} {growth : MemoryGrowth}
    {memory : Option ℕ} {prot : Prot} {res : Result Vma}
    (h : addVma type growth varea memory prot memOffset s = .ok (res, s')) :
    (∃ e, res = .error e ∧ s' = s) ∨ ∃ m, memory = some m ∧ varea.validUserArea = true ∧
      (∀ u ∈ s.vmas, u.varea.Apart varea) ∧
      res = .ok ⟨s.nextId, type, growth, varea, m, prot, memOffset⟩ ∧
      s' = { s with
        vmas := insertVma ⟨s.nextId, type, growth, varea, m, prot, memOffset⟩ s.vmas
        nextId := s.nextId + 1 } := by
  unfold addVma at h
  cases memory with
  | none =>
    obtain ⟨rfl, rfl⟩ := throw_eq_ok.mp h
    exact .inl ⟨_, rfl, rfl⟩
  | some m =>
    simp only [get_bind] at h
    split at h
    · obtain ⟨rfl, rfl⟩ := throw_eq_ok.mp h
      exact .inl ⟨_, rfl, rfl⟩
    rename_i hvalid
    split at h
    · obtain ⟨rfl, rfl⟩ := throw_eq_ok.mp h
      exact .inl ⟨_, rfl, rfl⟩
    rename_i hfree
    obtain ⟨rfl, rfl⟩ := pure_eq_ok.mp h
    refine .inr ⟨m, rfl, by simpa using hvalid, ?_, rfl, rfl⟩
    intro u hu
    by_cases hnull : varea.nullable = true
    · -- an empty area is apart from everything
      unfold nullable at hnull
      rw [decide_eq_true_eq] at hnull
      unfold VirArea.Apart
      omega
    · rw [← isIntersecting_eq_false]
      by_contra hcross
      rw [not_eq_false] at hcross
      have hfound : (s.vmas.find? fun vma => vma.varea.isIntersecting varea).isSome = true :=
        find?_isSome.mpr ⟨u, hu, hcross⟩
      obtain ⟨w, hw⟩ := Option.isSome_iff_exists.mp hfound
      have hok : (s.locateRange varea).isOk = true := by
        unfold locateRange
        rw [hw]
        rfl
      rw [hok] at hfree
      simp only [not_eq_true] at hnull
      rw [hnull] at hfree
      exact hfree rfl

theorem Tmm.Ordered.addVma (h : s.Ordered G) {type : VmaType} {growth : MemoryGrowth}
    {memory : Option ℕ} {prot : Prot} {res : Result Vma}
    (hcall : addVma type growth varea memory prot memOffset s = .ok (res, s')) : s'.Ordered G := by
  rcases addVma_eq_ok hcall with ⟨e, -, rfl⟩ | ⟨m, -, hvalid, hapart, -, rfl⟩
  · exact h
  · exact h.insert rfl hvalid hapart rfl rfl

variable {res : Result Unit}

theorem removeVma_eq_ok (h : removeVma id s = .ok (res, s')) :
    s' = s ∨ (s'.vmas = s.vmas.filter (fun u => u.id ≠ id) ∧ s'.nextId = s.nextId) := by
  unfold removeVma at h
  rw [get_bind] at h
  cases hfind : s.find id with
  | none =>
    rw [hfind] at h
    exact .inl (throw_eq_ok.mp h).2
  | some vma =>
    simp only [hfind] at h
    have hs := (modify_eq_ok.mp h).2
    refine .inr ⟨?_, ?_⟩
    · rw [hs, unmapPages_vmas]
    · rw [hs, unmapPages_nextId]

theorem Tmm.Ordered.removeVma (h : s.Ordered G)
    (hcall : removeVma id s = .ok (res, s')) : s'.Ordered G := by
  rcases removeVma_eq_ok hcall with rfl | ⟨hvmas, hnext⟩
  · exact h
  · exact h.filter hvmas hnext

/-! ## `grow_vma` -/

theorem growVma_eq_ok {res : Result VirArea} (h : growVma id varea s = .ok (res, s')) :
    s' = s ∨ ∃ target, s.find id = some target ∧ varea.validUserArea = true ∧
      s.growCheck target varea = .ok () ∧ res = .ok varea ∧
      s' = (if (growUnmapArea target.varea varea).nullable then s
        else s.unmapPages (growUnmapArea target.varea varea)).setArea id
          fun vma => { vma with varea := varea } := by
  unfold growVma at h
  rw [get_bind] at h
  cases hfind : s.find id with
  | none =>
    rw [hfind] at h
    exact .inl (throw_eq_ok.mp h).2
  | some target =>
    simp only [hfind] at h
    split at h
    · exact .inl (throw_eq_ok.mp h).2
    rename_i hvalid
    split at h
    · exact .inl (pure_eq_ok.mp h).2
    rcases ofResult_bind_eq_ok.mp h with ⟨e, -, -, rfl⟩ | ⟨_, hcheck, h⟩
    · exact .inl rfl
    obtain ⟨rfl, rfl⟩ := pure_eq_ok.mp h
    exact .inr ⟨target, rfl, by simpa using hvalid, hcheck, rfl, rfl⟩

theorem growCheck_apart {target : Vma}
    (h : s.growCheck target varea = .ok ()) {u : Vma} (hu : u ∈ s.vmas)
    (hne : u.id ≠ target.id) : u.varea.Apart varea := by
  unfold growCheck at h
  simp only at h
  iterate 5
    split at h
    · cases h
  split at h
  · cases h
  rename_i hfree
  by_cases hnull : varea.nullable = true
  · unfold nullable at hnull
    rw [decide_eq_true_eq] at hnull
    unfold VirArea.Apart
    omega
  rw [← isIntersecting_eq_false]
  by_contra hcross
  rw [Bool.not_eq_false] at hcross
  apply hfree
  simp only [Bool.not_eq_true] at hnull
  rw [hnull, Bool.not_false, Bool.true_and, any_eq_true]
  exact ⟨u, hu, by rw [hcross]; simpa using hne⟩

/-- The new first address of an area is between those of its neighbours, if `grow_vma` gets
as far as setting it. -/
def Tmm.GrowInOrder (s : Tmm) (id : ℕ) (varea : VirArea) : Prop :=
  ∀ l target r, s.vmas = l ++ target :: r → target.id = id → varea.validUserArea = true →
    s.growCheck target varea = .ok () →
    (∀ u ∈ l, u.varea.begin ≤ varea.begin) ∧ ∀ u ∈ r, varea.begin ≤ u.varea.begin

/-- A change of one area, found by its address. -/
theorem Tmm.Ordered.setArea (h : s.Ordered G) (hsplit : s.vmas = l ++ v :: r) {f : Vma → Vma}
    (hid : (f v).id = v.id) (harea : (f v).varea.validUserArea = true)
    (hapart : ∀ u ∈ l ++ r, u.varea.Apart (f v).varea)
    (horder : G → (∀ u ∈ l, u.varea.begin ≤ (f v).varea.begin) ∧
      ∀ u ∈ r, (f v).varea.begin ≤ u.varea.begin) : (s.setArea v.id f).Ordered G :=
  h.replace hsplit (h.valid.setArea_vmas hsplit f) rfl hid harea hapart horder

/-- The other areas of a list. -/
theorem Tmm.Valid.mem_of_split (h : s.Valid) (hsplit : s.vmas = l ++ v :: r) {u : Vma}
    (hu : u ∈ l ++ r) : u ∈ s.vmas ∧ u.id ≠ v.id := by
  have hmem : u ∈ s.vmas := by
    rw [hsplit]
    simp only [mem_append] at hu ⊢
    tauto
  refine ⟨hmem, fun heq => ?_⟩
  have hnodup := h.nodup
  rw [hsplit, map_append, map_cons, nodup_append, nodup_cons] at hnodup
  rcases mem_append.mp hu with hl | hr
  · exact hnodup.2.2 u.id (mem_map_of_mem hl) v.id mem_cons_self heq
  · exact hnodup.2.1.1 (heq ▸ mem_map_of_mem hr)

theorem Tmm.Ordered.growVma (h : s.Ordered G)
    {res : Result VirArea} (hG : G → s.GrowInOrder id varea)
    (hcall : growVma id varea s = .ok (res, s')) : s'.Ordered G := by
  rcases growVma_eq_ok hcall with rfl | ⟨target, hfind, hvalid, hcheck, -, rfl⟩
  · exact h
  obtain ⟨rfl, -, l, r, hsplit⟩ := find_eq_some hfind
  have hapart : ∀ u ∈ l ++ r, u.varea.Apart varea := by
    intro u hu
    obtain ⟨hmem, hne⟩ := h.valid.mem_of_split hsplit hu
    exact growCheck_apart hcheck hmem hne
  have horder := fun hg => hG hg l target r hsplit rfl hvalid hcheck
  split
  · exact h.setArea hsplit rfl hvalid hapart horder
  · exact (h.unmapPages _).setArea ((unmapPages_vmas _).trans hsplit) rfl hvalid hapart horder

/-! ## `unmap_memory_tail` -/

/-- Cutting off the ends of an area. -/
theorem Tmm.Ordered.shrink (h : s.Ordered G) (hsplit : s.vmas = l ++ v :: r) {f : Vma → Vma}
    (hid : (f v).id = v.id) (hlow : v.varea.begin ≤ (f v).varea.begin)
    (hle : (f v).varea.begin ≤ (f v).varea.stop) (hhigh : (f v).varea.stop ≤ v.varea.stop)
    (horder : G → (∀ u ∈ r, v.varea.begin ≤ u.varea.begin) →
      ∀ u ∈ r, (f v).varea.begin ≤ u.varea.begin) : (s.setArea v.id f).Ordered G := by
  have hmem : v ∈ s.vmas := by
    rw [hsplit]
    simp
  have harea := validUserArea_iff.mp (h.valid.area v hmem)
  have hpair := h.valid.apart
  rw [hsplit, pairwise_append, pairwise_cons] at hpair
  refine h.setArea hsplit hid ?_ ?_ ?_
  · rw [validUserArea_iff]
    exact ⟨hle, lt_of_lt_of_le harea.2.1 hlow, lt_of_le_of_lt hhigh harea.2.2⟩
  · intro u hu
    rcases mem_append.mp hu with hl | hr
    · exact (hpair.2.2 u hl v mem_cons_self).mono hlow hhigh
    · exact (hpair.2.1.1 u hr).symm.mono hlow hhigh
  · intro hG
    have hsorted := h.sorted hG
    unfold Tmm.Sorted at hsorted
    rw [hsplit, pairwise_append, pairwise_cons] at hsorted
    exact ⟨fun u hu => (hsorted.2.2 u hu v mem_cons_self).trans hlow, horder hG hsorted.2.1.1⟩

theorem Tmm.Ordered.cutTail (h : s.Ordered G) (hsplit : s.vmas = l ++ v :: r) {e : ℕ}
    (hlow : v.varea.begin ≤ e) (hhigh : e ≤ v.varea.stop) :
    (s.setArea v.id fun vma => { vma with varea := { vma.varea with stop := e } }).Ordered G :=
  h.shrink hsplit rfl le_rfl hlow hhigh fun _ hsorted => hsorted

/-- Inside an area, words do not wrap around. -/
theorem VirArea.size_of_valid (h : a.validUserArea = true) : a.size = a.stop - a.begin := by
  have harea := validUserArea_iff.mp h
  unfold size wordSub
  simp only [KPA_OFFSET] at harea
  omega

theorem wordAdd_of_le (h : a.validUserArea = true) {n : ℕ} (hn : n ≤ a.size) :
    wordAdd a.begin n = a.begin + n := by
  have harea := validUserArea_iff.mp h
  rw [size_of_valid h] at hn
  unfold wordAdd
  simp only [KPA_OFFSET] at harea
  omega

theorem Tmm.Ordered.unmapTailOne (h : s.Ordered G) (memory newSize id : ℕ) :
    (unmapTailOne memory newSize s id).Ordered G := by
  unfold Tmm.unmapTailOne
  cases hfind : s.find id with
  | none => exact h
  | some vma =>
    obtain ⟨rfl, hmem, l, r, hsplit⟩ := find_eq_some hfind
    simp only
    generalize (if newSize > vma.memOffset then newSize - vma.memOffset else 0) = keep
    have hkeep : (if keep < vma.varea.size then keep else vma.varea.size) ≤ vma.varea.size := by
      split <;> omega
    generalize (if keep < vma.varea.size then keep else vma.varea.size) = n at hkeep
    split
    · exact h
    split
    · rename_i hlt
      have hvalid := h.valid.area vma hmem
      refine (h.unmapPages _).cutTail ((unmapPages_vmas _).trans hsplit) ?_ hlt.le
      rw [wordAdd_of_le hvalid hkeep]
      exact Nat.le_add_right ..
    · exact h

theorem Tmm.Ordered.unmapMemoryTail (h : s.Ordered G) (memory newSize : ℕ) :
    (s.unmapMemoryTail memory newSize).Ordered G := by
  unfold Tmm.unmapMemoryTail
  generalize s.vmas.map Vma.id = ids
  induction ids generalizing s with
  | nil => exact h
  | cons id ids ih => exact ih (h.unmapTailOne memory newSize id)

/-! ## `remove_vma_range` -/

/-- If the range covers the front of an area but not its end, the areas listed after it do
not begin inside the range. -/
def Tmm.CutInOrder (varea : VirArea) (s : Tmm) (id : ℕ) : Prop :=
  ∀ l v r, s.vmas = l ++ v :: r → v.id = id → varea.begin ≤ v.varea.begin →
    v.varea.begin < varea.stop → varea.stop < v.varea.stop →
    ∀ u ∈ r, varea.stop ≤ u.varea.begin

theorem Tmm.Ordered.removeRangeOne (h : s.Ordered G) (hG : G → s.CutInOrder varea id)
    (hcall : removeRangeOne varea id s = .ok (res, s')) : s'.Ordered G := by
  unfold Tmm.removeRangeOne at hcall
  rw [get_bind] at hcall
  cases hfind : s.find id with
  | none =>
    simp only [hfind] at hcall
    exact (pure_eq_ok.mp hcall).2 ▸ h
  | some vma =>
    obtain ⟨rfl, -, l, r, hsplit⟩ := find_eq_some hfind
    simp only [hfind] at hcall
    generalize hb : (if varea.begin > vma.varea.begin then varea.begin
      else vma.varea.begin) = b at hcall
    generalize he : (if varea.stop < vma.varea.stop then varea.stop
      else vma.varea.stop) = e at hcall
    have hlow : vma.varea.begin ≤ b := by
      rw [← hb]
      split <;> omega
    have hhigh : e ≤ vma.varea.stop := by
      rw [← he]
      split <;> omega
    split at hcall
    · exact (pure_eq_ok.mp hcall).2 ▸ h
    split at hcall
    · exact (pure_eq_ok.mp hcall).2 ▸ h
    split at hcall
    · exact h.removeVma hcall
    have hlt : b < e := by omega
    have hcut := (unmapPages_vmas ⟨b, e⟩).trans hsplit
    split at hcall
    · rename_i hwhole hfront
      rw [(modify_eq_ok.mp hcall).2]
      refine (h.unmapPages _).shrink hcut rfl (hlow.trans hlt.le) hhigh le_rfl ?_
      intro hg _
      have hstop : varea.stop < vma.varea.stop ∧ e = varea.stop := by
        split at he <;> omega
      have hbegin : varea.begin ≤ vma.varea.begin := by
        split at hb <;> omega
      rw [hstop.2]
      exact hG hg l vma r hsplit rfl hbegin (by omega) hstop.1
    split at hcall
    · rw [(modify_eq_ok.mp hcall).2]
      exact (h.unmapPages _).cutTail hcut hlow (by omega)
    rw [modify_bind] at hcall
    have hleft := (h.unmapPages ⟨b, e⟩).cutTail hcut hlow (by omega : b ≤ vma.varea.stop)
    rcases bind_eq_ok.mp hcall with ⟨_, hadd, -⟩ | ⟨_, t, hadd, hpure⟩
    · exact hleft.addVma hadd
    · exact (pure_eq_ok.mp hpure).2 ▸ hleft.addVma hadd

/-! ## Loops over the areas -/

/-- Every round of a loop begins in a state with a certain property. -/
def Tmm.EachRound (g : Tmm → ℕ → Prop) (f : ℕ → Kernel Tmm Unit) : List ℕ → Tmm → Prop
  | [], _ => True
  | id :: rest, s => g s id ∧ ∀ t, f id s = .ok (.ok (), t) → Tmm.EachRound g f rest t

theorem Tmm.Ordered.forEach {g : Tmm → ℕ → Prop} {f : ℕ → Kernel Tmm Unit}
    (hround : ∀ {t t' : Tmm} {id : ℕ} {res : Result Unit}, t.Ordered G → (G → g t id) →
      f id t = .ok (res, t') → t'.Ordered G)
    (ids : List ℕ) (h : s.Ordered G) (hG : G → Tmm.EachRound g f ids s)
    (hcall : forEach f ids s = .ok (res, s')) : s'.Ordered G := by
  induction ids generalizing s with
  | nil => exact (pure_eq_ok.mp hcall).2 ▸ h
  | cons id rest ih =>
    rcases bind_eq_ok.mp hcall with ⟨_, hfail, -⟩ | ⟨_, t, hone, hrest⟩
    · exact hround h (fun hg => (hG hg).1) hfail
    · exact ih (hround h (fun hg => (hG hg).1) hone) (fun hg => (hG hg).2 t hone) hrest

/-- The rounds of `remove_vma_range` keep the order. -/
def Tmm.RangeInOrder (s : Tmm) (varea : VirArea) : Prop :=
  Tmm.EachRound (Tmm.CutInOrder varea) (removeRangeOne varea) (s.vmas.map Vma.id) s

theorem Tmm.Ordered.removeVmaRange (h : s.Ordered G)
    (hG : G → s.RangeInOrder varea) (hcall : removeVmaRange varea s = .ok (res, s')) :
    s'.Ordered G := by
  unfold Tmm.removeVmaRange at hcall
  split at hcall
  · exact (pure_eq_ok.mp hcall).2 ▸ h
  split at hcall
  · exact (throw_eq_ok.mp hcall).2 ▸ h
  · rw [get_bind] at hcall
    exact Tmm.Ordered.forEach (fun ht hg hone => ht.removeRangeOne hg hone) _ h hG hcall

/-- The growth that a round of `sync_memory_vmas` asks for keeps the order. -/
def Tmm.SyncInOrder (memory memsz : ℕ) (s : Tmm) (id : ℕ) : Prop :=
  ∀ vma, s.find id = some vma → vma.memory = memory → s.GrowInOrder id (syncArea memsz vma)

theorem Tmm.Ordered.syncOne (h : s.Ordered G) {memory : ℕ} (hG : G → s.SyncInOrder memory memsz id)
    (hcall : syncOne memory memsz id s = .ok (res, s')) : s'.Ordered G := by
  unfold Tmm.syncOne at hcall
  rw [get_bind] at hcall
  cases hfind : s.find id with
  | none =>
    simp only [hfind] at hcall
    exact (pure_eq_ok.mp hcall).2 ▸ h
  | some vma =>
    simp only [hfind] at hcall
    split at hcall
    · exact (pure_eq_ok.mp hcall).2 ▸ h
    rename_i hmemory
    have hgrow : G → s.GrowInOrder id (syncArea memsz vma) :=
      fun hg => hG hg vma hfind (not_not.mp hmemory)
    rcases bind_eq_ok.mp hcall with ⟨_, hfail, -⟩ | ⟨_, t, hone, hpure⟩
    · exact h.growVma hgrow hfail
    · exact (pure_eq_ok.mp hpure).2 ▸ h.growVma hgrow hone

/-- The rounds of `sync_memory_vmas` keep the order. -/
def Tmm.AllSyncInOrder (s : Tmm) (memory memsz : ℕ) : Prop :=
  Tmm.EachRound (Tmm.SyncInOrder memory memsz) (syncOne memory memsz) (s.vmas.map Vma.id) s

theorem Tmm.Ordered.syncMemoryVmas (h : s.Ordered G) {memory : ℕ}
    (hG : G → s.AllSyncInOrder memory memsz)
    (hcall : syncMemoryVmas memory memsz s = .ok (res, s')) : s'.Ordered G := by
  unfold Tmm.syncMemoryVmas at hcall
  rw [get_bind] at hcall
  exact Tmm.Ordered.forEach (fun ht hg hone => ht.syncOne hg hone) _ h hG hcall

end Edits

end Sustcore
