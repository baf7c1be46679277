/-
# What the addresses of a task stand for

An address that is covered by an area stands for a byte of the memory of the area: its distance
from the first address of the area, counted from `mem_offset` on.  `Tmm.Maps` is this translation,
with the protection of the area.

* `remove_vma_range` takes exactly the addresses of the range out of the translation
  (`remove_vma_range_exact`).
* `grow_vma` and `sync_memory_vmas` move the first address of an area and leave its `mem_offset`
  alone.  `grow_translation` says when the translation survives this.
-/
import Sustcore.VmaRuns

namespace Sustcore

open Kernel VirArea Tmm List

/-! ## The translation -/

/-- What an address stands for. -/
structure Meaning where
  memory : ℕ
  prot : Prot
  offset : ℕ
  deriving DecidableEq

namespace Vma

def offsetOf (v : Vma) (vaddr : ℕ) : ℕ := wordAdd v.memOffset (wordSub vaddr v.varea.begin)

/-- What an address stands for, through this area. -/
def meaning (v : Vma) (vaddr : ℕ) : Meaning := ⟨v.memory, v.prot, v.offsetOf vaddr⟩

/-- The area covers the address, which stands for `x`. -/
def Maps (v : Vma) (vaddr : ℕ) (x : Meaning) : Prop :=
  v.varea.within vaddr = true ∧ v.meaning vaddr = x

/-- The offset that the address 0 would stand for. -/
def base (v : Vma) : ℕ := wordSub v.memOffset v.varea.begin

end Vma

/-- The address is covered, and stands for `x`. -/
def Tmm.Maps (s : Tmm) (vaddr : ℕ) (x : Meaning) : Prop := ∃ v ∈ s.vmas, v.Maps vaddr x

theorem VirArea.within_iff {a : VirArea} {vaddr : ℕ} :
    a.within vaddr = true ↔ a.begin ≤ vaddr ∧ vaddr < a.stop := by
  unfold within
  rw [decide_eq_true_eq]

theorem VirArea.apart_iff {a b : VirArea} :
    a.Apart b ↔ ∀ vaddr, a.within vaddr = true → b.within vaddr = true → False := by
  simp only [within_iff, VirArea.Apart]
  constructor
  · omega
  · intro hnone
    by_contra hmeet
    exact hnone (max a.begin b.begin) ⟨by omega, by omega⟩ ⟨by omega, by omega⟩

section Translation

variable {s s' : Tmm} {varea : VirArea} {vaddr : ℕ}

/-- Through one address, two areas stand for the same byte if they have the same base. -/
theorem Vma.offsetOf_eq_iff {u v : Vma} (hu : u.varea.begin < 2 ^ 64)
    (hv : v.varea.begin < 2 ^ 64) : u.offsetOf vaddr = v.offsetOf vaddr ↔ u.base = v.base := by
  unfold Vma.offsetOf Vma.base wordAdd wordSub
  omega

variable {v : Vma}

theorem Tmm.Valid.begin_lt (h : s.Valid) (hv : v ∈ s.vmas) :
    v.varea.begin ≤ v.varea.stop ∧ v.varea.stop < 2 ^ 64 := by
  have harea := validUserArea_iff.mp (h.area v hv)
  simp only [KPA_OFFSET] at harea
  omega

/-- An address is covered by at most one area. -/
theorem Tmm.Valid.unique (h : s.Valid) {u v : Vma} (hu : u ∈ s.vmas)
    (hv : v ∈ s.vmas) (hin : u.varea.within vaddr = true) (hin' : v.varea.within vaddr = true) :
    u = v := by
  by_contra hne
  have : Std.Symm fun x y : Vma => x.varea.Apart y.varea := ⟨fun _ _ hxy => hxy.symm⟩
  have hapart := h.apart.forall hu hv hne
  exact apart_iff.mp hapart vaddr hin hin'

/-! ## Cutting a range out of the areas -/

/-- What is left of an area when a range is cut out of it. -/
structure CutInto (varea : VirArea) (v : Vma) (pieces : List Vma) : Prop where
  meaning : ∀ p ∈ pieces, ∀ a, p.varea.within a = true → p.meaning a = v.meaning a
  covers : ∀ a, (∃ p ∈ pieces, p.varea.within a = true) ↔
    v.varea.within a = true ∧ varea.within a = false

theorem CutInto.maps {pieces : List Vma} (h : CutInto varea v pieces) {a : ℕ}
    {x : Meaning} : (∃ p ∈ pieces, p.Maps a x) ↔ v.Maps a x ∧ varea.within a = false := by
  constructor
  · rintro ⟨p, hp, hin, rfl⟩
    obtain ⟨hv, hout⟩ := (h.covers a).mp ⟨p, hp, hin⟩
    exact ⟨⟨hv, (h.meaning p hp a hin).symm⟩, hout⟩
  · rintro ⟨⟨hv, rfl⟩, hout⟩
    obtain ⟨p, hp, hin⟩ := (h.covers a).mpr ⟨hv, hout⟩
    exact ⟨p, hp, hin, h.meaning p hp a hin⟩

theorem VirArea.not_within_iff {a : VirArea} :
    a.within vaddr = false ↔ ¬(a.begin ≤ vaddr ∧ vaddr < a.stop) := by
  rw [← Bool.not_eq_true, within_iff]

structure Replaced (s : Tmm) (v : Vma) (pieces : List Vma) (s' : Tmm) : Prop where
  mem : v ∈ s.vmas
  mem_iff : ∀ u, u ∈ s'.vmas ↔ (u ∈ s.vmas ∧ u.id ≠ v.id) ∨ u ∈ pieces

theorem Tmm.Valid.replaced_one (h : s.Valid) (hv : v ∈ s.vmas) {t : Tmm}
    (hvmas : t.vmas = s.vmas) (f : Vma → Vma) : Replaced s v [f v] (t.setArea v.id f) := by
  refine ⟨hv, ?_⟩
  intro u
  show u ∈ t.vmas.map _ ↔ _
  rw [hvmas, mem_map, mem_singleton]
  constructor
  · rintro ⟨w, hw, rfl⟩
    by_cases hid : w.id = v.id
    · rw [if_pos hid, h.eq_of_id hw hv hid]
      exact .inr rfl
    · rw [if_neg hid]
      exact .inl ⟨hw, hid⟩
  · rintro (⟨hu, hid⟩ | rfl)
    · exact ⟨u, hu, if_neg hid⟩
    · exact ⟨v, hv, if_pos rfl⟩

/-- **What one round of `remove_vma_range` does** to the area it looks at. -/
theorem removeRangeOne_eq_ok (h : s.Valid) {id : ℕ}
    (hcall : removeRangeOne varea id s = .ok (.ok (), s')) :
    (s' = s ∧ ∀ v ∈ s.vmas, v.id = id → v.varea.Apart varea) ∨
      ∃ v pieces, v.id = id ∧ CutInto varea v pieces ∧ Replaced s v pieces s' := by
  unfold removeRangeOne at hcall
  rw [get_bind] at hcall
  cases hfind : s.find id with
  | none =>
    simp only [hfind] at hcall
    refine .inl ⟨(pure_eq_ok.mp hcall).2, ?_⟩
    rintro v hv rfl
    rw [h.find hv] at hfind
    cases hfind
  | some v =>
    obtain ⟨rfl, hv, -⟩ := find_eq_some hfind
    simp only [hfind] at hcall
    generalize hb : (if varea.begin > v.varea.begin then varea.begin
      else v.varea.begin) = b at hcall
    generalize he : (if varea.stop < v.varea.stop then varea.stop
      else v.varea.stop) = e at hcall
    have hb' : b = max varea.begin v.varea.begin := by
      rw [← hb]
      split <;> omega
    have he' : e = min varea.stop v.varea.stop := by
      rw [← he]
      split <;> omega
    split at hcall
    · rename_i hmeet
      refine .inl ⟨(pure_eq_ok.mp hcall).2, fun u hu hid => ?_⟩
      rw [h.eq_of_id hu hv hid]
      exact isIntersecting_eq_false.mp (by simpa using hmeet)
    split at hcall
    · rename_i hnone
      refine .inl ⟨(pure_eq_ok.mp hcall).2, fun u hu hid => ?_⟩
      rw [h.eq_of_id hu hv hid]
      unfold VirArea.Apart
      omega
    rename_i hlt
    right
    split at hcall
    · -- the whole area goes
      rename_i hwhole
      refine ⟨v, [], rfl, ⟨by simp, ?_⟩, hv, ?_⟩
      · intro a
        rw [within_iff, not_within_iff]
        constructor
        · rintro ⟨p, hp, -⟩
          cases hp
        · omega
      · intro u
        unfold removeVma at hcall
        rw [get_bind, h.find hv] at hcall
        rw [(modify_eq_ok.mp hcall).2]
        simp
    split at hcall
    · -- its front goes
      rw [(modify_eq_ok.mp hcall).2]
      refine ⟨v, _, rfl, ⟨?_, ?_⟩, h.replaced_one hv (unmapPages_vmas _) _⟩
      · intro p hp a hin
        obtain rfl := mem_singleton.mp hp
        rw [within_iff] at hin
        simp only [Vma.meaning, Vma.offsetOf, wordAdd, wordSub, Meaning.mk.injEq, true_and] at hin ⊢
        omega
      · intro a
        simp only [mem_singleton, exists_eq_left, within_iff, not_within_iff]
        omega
    split at hcall
    · -- its end goes
      rw [(modify_eq_ok.mp hcall).2]
      refine ⟨v, _, rfl, ⟨?_, ?_⟩, h.replaced_one hv (unmapPages_vmas _) _⟩
      · intro p hp a hin
        obtain rfl := mem_singleton.mp hp
        rfl
      · intro a
        simp only [mem_singleton, exists_eq_left, within_iff, not_within_iff]
        omega
    · -- its middle goes, and the right part is a new area
      rw [modify_bind] at hcall
      obtain ⟨_, t, hadd, hpure⟩ := bind_returns hcall
      obtain ⟨-, rfl⟩ := pure_eq_ok.mp hpure
      rcases addVma_eq_ok hadd with ⟨_, herr, -⟩ | ⟨m, hm, -, -, -, rfl⟩
      · cases herr
      cases hm
      have hleft := h.replaced_one hv (unmapPages_vmas ⟨b, e⟩)
        fun vma => { vma with varea := { vma.varea with stop := b } }
      generalize hright : (⟨_, v.type, v.growth, ⟨e, v.varea.stop⟩, v.memory, v.prot,
        wordAdd (wordAdd v.memOffset (wordSub b v.varea.begin)) (wordSub e b)⟩ : Vma) = right
      refine ⟨v, [right, { v with varea := { v.varea with stop := b } }], rfl, ⟨?_, ?_⟩, hv,
        fun u => ?_⟩
      rotate_left 2
      · rw [mem_insertVma, hleft.mem_iff, mem_singleton, mem_cons, mem_singleton]
        tauto
      all_goals rw [← hright]
      · intro p hp a hin
        rcases mem_cons.mp hp with rfl | hp
        · rw [within_iff] at hin
          simp only [Vma.meaning, Vma.offsetOf, wordAdd, wordSub, Meaning.mk.injEq,
            true_and] at hin ⊢
          omega
        · obtain rfl := mem_singleton.mp hp
          rfl
      · intro a
        simp only [mem_cons, not_mem_nil, or_false, exists_eq_or_imp, exists_eq_left,
          within_iff, not_within_iff]
        omega

/-- The translation after a round, and what is still to be done after it. -/
theorem removeRangeOne_maps (h : s.Valid) {id : ℕ}
    (hcall : removeRangeOne varea id s = .ok (.ok (), s')) :
    (∀ a x, varea.within a = false → (s'.Maps a x ↔ s.Maps a x)) ∧
      ∀ v ∈ s'.vmas, (v ∈ s.vmas ∧ v.id ≠ id) ∨ v.varea.Apart varea := by
  rcases removeRangeOne_eq_ok h hcall with ⟨rfl, hapart⟩ | ⟨v, pieces, rfl, hcut, hv, hmem⟩
  · refine ⟨fun a x _ => Iff.rfl, fun v hv => ?_⟩
    by_cases hid : v.id = id
    · exact .inr (hapart v hv hid)
    · exact .inl ⟨hv, hid⟩
  refine ⟨?_, ?_⟩
  · intro a x hout
    constructor
    · rintro ⟨u, hu, hmaps⟩
      rcases (hmem u).mp hu with ⟨hu, -⟩ | hu
      · exact ⟨u, hu, hmaps⟩
      · exact ⟨v, hv, (hcut.maps.mp ⟨u, hu, hmaps⟩).1⟩
    · rintro ⟨u, hu, hmaps⟩
      by_cases hid : u.id = v.id
      · obtain rfl := h.eq_of_id hu hv hid
        obtain ⟨p, hp, hmaps⟩ := hcut.maps.mpr ⟨hmaps, hout⟩
        exact ⟨p, (hmem p).mpr (.inr hp), hmaps⟩
      · exact ⟨u, (hmem u).mpr (.inl ⟨hu, hid⟩), hmaps⟩
  · intro u hu
    rcases (hmem u).mp hu with hu | hu
    · exact .inl hu
    · refine .inr (apart_iff.mpr fun a hin hrange => ?_)
      rw [((hcut.covers a).mp ⟨u, hu, hin⟩).2] at hrange
      cases hrange

/-- A valid list of areas stays valid in a round. -/
theorem Tmm.Valid.removeRangeOne (h : s.Valid) {id : ℕ} {res : Result Unit}
    (hcall : removeRangeOne varea id s = .ok (res, s')) : s'.Valid :=
  (Tmm.Ordered.removeRangeOne (G := False) ⟨h, False.elim⟩ False.elim hcall).valid

/-- The loop of `remove_vma_range`: the areas that it has not visited yet are the only ones that
meet the range. -/
theorem removeRange_loop (ids : List ℕ) (h : s.Valid)
    (htodo : ∀ v ∈ s.vmas, v.id ∈ ids ∨ v.varea.Apart varea)
    (hcall : Tmm.forEach (removeRangeOne varea) ids s = .ok (.ok (), s')) :
    (∀ a x, varea.within a = false → (s'.Maps a x ↔ s.Maps a x)) ∧
      ∀ v ∈ s'.vmas, v.varea.Apart varea := by
  induction ids generalizing s with
  | nil =>
    obtain ⟨-, rfl⟩ := pure_eq_ok.mp hcall
    refine ⟨fun a x _ => Iff.rfl, fun v hv => ?_⟩
    rcases htodo v hv with hid | hapart
    · cases hid
    · exact hapart
  | cons id rest ih =>
    obtain ⟨_, t, hone, hrest⟩ := bind_returns hcall
    obtain ⟨hmaps, hleft⟩ := removeRangeOne_maps h hone
    have htodo' : ∀ v ∈ t.vmas, v.id ∈ rest ∨ v.varea.Apart varea := by
      intro v hv
      rcases hleft v hv with ⟨hv, hid⟩ | hapart
      · rcases htodo v hv with hmem | hapart
        · rcases mem_cons.mp hmem with heq | hmem
          · exact absurd heq hid
          · exact .inl hmem
        · exact .inr hapart
      · exact .inr hapart
    obtain ⟨hmaps', hapart⟩ := ih (h.removeRangeOne hone) htodo' hrest
    exact ⟨fun a x hout => (hmaps' a x hout).trans (hmaps a x hout), hapart⟩

end Translation

/-- **Range unmapping is exact.**  After a successful `remove_vma_range` an address stands for
something exactly if it did before and is not in the range, and then for the same byte of the same
memory with the same protection. -/
theorem remove_vma_range_exact {s s' : Tmm} (h : s.Valid) (varea : VirArea)
    (hcall : removeVmaRange varea s = .ok (.ok (), s')) (a : ℕ) (x : Meaning) :
    s'.Maps a x ↔ s.Maps a x ∧ varea.within a = false := by
  unfold removeVmaRange at hcall
  split at hcall
  · -- an empty range
    rename_i hnull
    obtain ⟨-, rfl⟩ := pure_eq_ok.mp hcall
    unfold nullable at hnull
    rw [decide_eq_true_eq] at hnull
    have hout : varea.within a = false := not_within_iff.mpr (by omega)
    exact ⟨fun hx => ⟨hx, hout⟩, fun hx => hx.1⟩
  split at hcall
  · cases (throw_eq_ok.mp hcall).1
  obtain ⟨hmaps, hapart⟩ := removeRange_loop _ h
    (fun v hv => .inl (mem_map_of_mem hv)) hcall
  constructor
  · rintro ⟨v, hv, hin, hx⟩
    have hout : varea.within a = false := by
      rw [← Bool.not_eq_true]
      exact fun hrange => apart_iff.mp (hapart v hv) a hin hrange
    exact ⟨(hmaps a x hout).mp ⟨v, hv, hin, hx⟩, hout⟩
  · rintro ⟨hx, hout⟩
    exact (hmaps a x hout).mpr hx

def fourPageArea : Tmm := (fresh .empty).withArea .GROW_DOWN ⟨0x4000, 0x8000⟩

theorem fourPageArea_valid : fourPageArea.Valid :=
  ((ordered_fresh False .empty).step (fun h => h.elim)
    (withArea_step _ _ _ (by decide))).valid

/-- The second page is cut out of an area, and the third one stays where it is. -/
theorem remove_vma_range_exact_middle : ∃ s',
    removeVmaRange ⟨0x5000, 0x6000⟩ fourPageArea = .ok (.ok (), s') ∧
      ∀ a x, s'.Maps a x ↔ fourPageArea.Maps a x ∧
        within ⟨0x5000, 0x6000⟩ a = false := by
  have hcall := eq_ok_of_returned (x := removeVmaRange ⟨0x5000, 0x6000⟩ fourPageArea)
    (a := ()) fourPageArea (by decide)
  exact ⟨_, hcall, remove_vma_range_exact fourPageArea_valid _ hcall⟩

/-! ## Growing and shrinking -/

/-- Every address that is covered before and afterwards stands for the same byte. -/
def KeepsTranslation (s s' : Tmm) : Prop :=
  ∀ a x y, s.Maps a x → s'.Maps a y → x.memory = y.memory ∧ x.offset = y.offset

/-- The area as `sync_memory_vmas` leaves it. -/
def Vma.synced (memory memsz : ℕ) (v : Vma) : Vma :=
  if v.memory = memory then { v with varea := syncArea memsz v } else v

section Growing

variable {s s' : Tmm}

/-- A round of a loop that changes one area. -/
theorem setArea_vmas_of_mem (h : s.Valid) {v : Vma} (hv : v ∈ s.vmas) {t : Tmm}
    (hvmas : t.vmas = s.vmas) (f : Vma → Vma) :
    (t.setArea v.id f).vmas = s.vmas.map fun u => if u = v then f u else u := by
  show t.vmas.map _ = _
  rw [hvmas]
  refine map_congr_left fun u hu => ?_
  by_cases hid : u.id = v.id
  · rw [if_pos hid, if_pos (h.eq_of_id hu hv hid)]
  · rw [if_neg hid, if_neg fun heq => hid (congrArg Vma.id heq)]

theorem growVma_success (h : s.Valid) {id : ℕ} {varea r : VirArea} {v : Vma}
    (hfind : s.find id = some v) (hcall : growVma id varea s = .ok (.ok r, s')) : s'.Valid ∧
      s'.vmas = s.vmas.map fun u => if u = v then { u with varea := varea } else u := by
  refine ⟨(Tmm.Ordered.growVma (G := False) ⟨h, False.elim⟩ False.elim hcall).valid, ?_⟩
  obtain ⟨rfl, hv, -⟩ := find_eq_some hfind
  unfold growVma at hcall
  rw [get_bind] at hcall
  simp only [hfind] at hcall
  split at hcall
  · cases (throw_eq_ok.mp hcall).1
  split at hcall
  · -- nothing to do
    rename_i hsame
    obtain ⟨-, rfl⟩ := pure_eq_ok.mp hcall
    conv_lhs => rw [← map_id s'.vmas]
    refine map_congr_left fun u _ => ?_
    by_cases heq : u = v
    · rw [if_pos heq, hsame, heq]
      rfl
    · rw [if_neg heq]
      rfl
  obtain ⟨_, -, hcall⟩ := ofResult_bind_returns hcall
  obtain ⟨-, rfl⟩ := pure_eq_ok.mp hcall
  refine setArea_vmas_of_mem h hv ?_ _
  split
  · rfl
  · exact unmapPages_vmas _

/-- One area after the other is given its bounds. -/
theorem sync_loop (memory memsz : ℕ) (ids : List ℕ) (h : s.Valid)
    (hcall : Tmm.forEach (syncOne memory memsz) ids s = .ok (.ok (), s')) (hids : ids.Nodup) :
    s'.Valid ∧
      s'.vmas = s.vmas.map fun u => if u.id ∈ ids then u.synced memory memsz else u := by
  induction ids generalizing s with
  | nil =>
    obtain ⟨-, rfl⟩ := pure_eq_ok.mp hcall
    refine ⟨h, ?_⟩
    simp
  | cons id rest ih =>
    obtain ⟨_, t, hone, hrest⟩ := bind_returns hcall
    obtain ⟨hnew, hnodup⟩ := nodup_cons.mp hids
    have hround : t.Valid ∧ t.vmas = s.vmas.map fun u =>
        if u.id = id then u.synced memory memsz else u := by
      refine ⟨(Tmm.Ordered.syncOne (G := False) ⟨h, False.elim⟩ False.elim hone).valid, ?_⟩
      have hskip : (∀ u ∈ s.vmas, u.id = id → u.memory ≠ memory) → t = s → t.vmas =
          s.vmas.map fun u => if u.id = id then u.synced memory memsz else u := by
        rintro hother rfl
        conv_lhs => rw [← map_id t.vmas]
        refine map_congr_left fun u hu => ?_
        by_cases hid : u.id = id
        · rw [if_pos hid, Vma.synced, if_neg (hother u hu hid)]
          rfl
        · rw [if_neg hid]
          rfl
      unfold syncOne at hone
      rw [get_bind] at hone
      cases hfind : s.find id with
      | none =>
        simp only [hfind] at hone
        refine hskip ?_ (pure_eq_ok.mp hone).2
        rintro u hu rfl
        rw [h.find hu] at hfind
        cases hfind
      | some v =>
        obtain ⟨hid, hv, -⟩ := find_eq_some hfind
        simp only [hfind] at hone
        split at hone
        · refine hskip ?_ (pure_eq_ok.mp hone).2
          intro u hu hid'
          rwa [h.eq_of_id hu hv (hid'.trans hid.symm)]
        · rename_i hmemory
          obtain ⟨_, t', hgrow, hpure⟩ := bind_returns hone
          obtain ⟨-, rfl⟩ := pure_eq_ok.mp hpure
          rw [(growVma_success h hfind hgrow).2]
          refine map_congr_left fun u hu => ?_
          by_cases heq : u = v
          · rw [if_pos heq, if_pos (by rw [heq, hid]), Vma.synced, heq,
              if_pos (not_not.mp hmemory)]
          · rw [if_neg heq, if_neg fun hid' => heq (h.eq_of_id hu hv (hid'.trans hid.symm))]
    obtain ⟨ht, htvmas⟩ := hround
    obtain ⟨hs', hvmas⟩ := ih ht hrest hnodup
    refine ⟨hs', ?_⟩
    rw [hvmas, htvmas, map_map]
    refine map_congr_left fun u _ => ?_
    have hsid : (u.synced memory memsz).id = u.id := by
      unfold Vma.synced
      split <;> rfl
    by_cases hid : u.id = id
    · simp [hid, hsid, hnew]
    · simp [hid]

theorem syncMemoryVmas_success (h : s.Valid) {memory memsz : ℕ}
    (hcall : syncMemoryVmas memory memsz s = .ok (.ok (), s')) :
    s'.Valid ∧ s'.vmas = s.vmas.map (Vma.synced memory memsz) := by
  obtain ⟨hs', hvmas⟩ := sync_loop memory memsz _ h hcall h.nodup
  refine ⟨hs', hvmas.trans (map_congr_left fun u hu => ?_)⟩
  rw [if_pos (mem_map_of_mem hu)]

/-- All areas get new bounds by one function.  The translation survives if an area, with its new
bounds, never covers an address of an area with another base. -/
theorem keepsTranslation_iff (h : s.Valid) (h' : s'.Valid) {f : Vma → Vma}
    (hvmas : s'.vmas = s.vmas.map f) : KeepsTranslation s s' ↔ ∀ u ∈ s.vmas, ∀ v ∈ s.vmas,
      u.varea.Apart (f v).varea ∨ (u.memory = (f v).memory ∧ u.base = (f v).base) := by
  have hnew : ∀ v ∈ s.vmas, f v ∈ s'.vmas := fun v hv => hvmas ▸ mem_map_of_mem hv
  constructor
  · intro hkeeps u hu v hv
    by_cases hapart : u.varea.Apart (f v).varea
    · exact .inl hapart
    -- an address that both cover
    rw [apart_iff] at hapart
    push Not at hapart
    obtain ⟨a, hin, hin', -⟩ := hapart
    obtain ⟨hmemory, hoffset⟩ := hkeeps a _ _ ⟨u, hu, hin, rfl⟩ ⟨f v, hnew v hv, hin', rfl⟩
    refine .inr ⟨hmemory, ?_⟩
    have hlt := h.begin_lt hu
    have hlt' := h'.begin_lt (hnew v hv)
    exact (Vma.offsetOf_eq_iff (by omega) (by omega)).mp hoffset
  · rintro hcond a x y ⟨u, hu, hin, rfl⟩ ⟨w, hw, hin', rfl⟩
    rw [hvmas] at hw
    obtain ⟨v, hv, rfl⟩ := mem_map.mp hw
    rcases hcond u hu v hv with hapart | ⟨hmemory, hbase⟩
    · exact absurd hin' fun hin' => apart_iff.mp hapart a hin hin'
    · have hlt := h.begin_lt hu
      have hlt' := h'.begin_lt (hnew v hv)
      exact ⟨hmemory, (Vma.offsetOf_eq_iff (by omega) (by omega)).mpr hbase⟩

end Growing

/-- **When growing keeps the translation.**  A successful `grow_vma` keeps it exactly if the first
address of the area does not move or the old and the new area have no address in common.  A
successful `sync_memory_vmas` keeps it exactly if no area of the memory covers, with its new bounds,
an address of an area of the memory with another base. -/
theorem grow_translation {s : Tmm} (h : s.Valid) :
    (∀ id varea v r s', s.find id = some v → growVma id varea s = .ok (.ok r, s') →
      (KeepsTranslation s s' ↔ varea.begin = v.varea.begin ∨ v.varea.Apart varea)) ∧
    ∀ memory memsz s', syncMemoryVmas memory memsz s = .ok (.ok (), s') →
      (KeepsTranslation s s' ↔ ∀ u ∈ s.vmas, ∀ v ∈ s.vmas, u.memory = memory →
        v.memory = memory → u.varea.Apart (syncArea memsz v) ∨
          u.base = Vma.base { v with varea := syncArea memsz v }) := by
  constructor
  · intro id varea v r s' hfind hcall
    obtain ⟨h', hvmas⟩ := growVma_success h hfind hcall
    obtain ⟨rfl, hv, -⟩ := find_eq_some hfind
    have hv' : { v with varea := varea } ∈ s'.vmas := by
      rw [hvmas]
      exact mem_map.mpr ⟨v, hv, if_pos rfl⟩
    obtain ⟨hle, hlt⟩ := h.begin_lt hv
    obtain ⟨hle', hlt'⟩ := h'.begin_lt hv'
    rw [keepsTranslation_iff h h' hvmas]
    have hbase : v.base = Vma.base { v with varea := varea } ↔ varea.begin = v.varea.begin := by
      show wordSub v.memOffset v.varea.begin = wordSub v.memOffset varea.begin ↔ _
      simp only at hle' hlt'
      unfold wordSub
      omega
    constructor
    · intro hcond
      have hself := hcond v hv v hv
      rw [if_pos rfl] at hself
      rcases hself with hapart | ⟨-, heq⟩
      · exact .inr hapart
      · exact .inl (hbase.mp heq)
    · intro hcond u hu w hw
      by_cases hwv : w = v
      · rw [if_pos hwv, hwv]
        by_cases huv : u = v
        · rw [huv]
          rcases hcond with heq | hapart
          · exact .inr ⟨rfl, hbase.mpr heq⟩
          · exact .inl hapart
        -- the check of `grow_vma` against the other areas
        have hu' : u ∈ s'.vmas := by
          rw [hvmas]
          exact mem_map.mpr ⟨u, hu, if_neg huv⟩
        refine .inl (apart_iff.mpr fun a hin hin' => huv ?_)
        have heq : u = { v with varea := varea } := h'.unique hu' hv' hin hin'
        exact h.eq_of_id hu hv (by rw [heq])
      · rw [if_neg hwv]
        by_cases huw : u = w
        · exact .inr ⟨by rw [huw], by rw [huw]⟩
        · exact .inl (apart_iff.mpr fun a hin hin' => huw (h.unique hu hw hin hin'))
  · intro memory memsz s' hcall
    obtain ⟨h', hvmas⟩ := syncMemoryVmas_success h hcall
    rw [keepsTranslation_iff h h' hvmas]
    have hmem' : ∀ v ∈ s.vmas, v.synced memory memsz ∈ s'.vmas :=
      fun v hv => hvmas ▸ mem_map_of_mem hv
    constructor
    · intro hcond u hu v hv hum hvm
      have hpair := hcond u hu v hv
      rw [Vma.synced, if_pos hvm] at hpair
      rcases hpair with hapart | ⟨-, hbase⟩
      · exact .inl hapart
      · exact .inr hbase
    · intro hcond u hu v hv
      by_cases hvm : v.memory = memory
      · by_cases hum : u.memory = memory
        · rw [Vma.synced, if_pos hvm]
          rcases hcond u hu v hv hum hvm with hapart | hbase
          · exact .inl hapart
          · exact .inr ⟨hum.trans hvm.symm, hbase⟩
        -- an area of another memory is still there, and apart from the new area
        have hu' : u ∈ s'.vmas := by
          have := hmem' u hu
          rwa [Vma.synced, if_neg hum] at this
        refine .inl (apart_iff.mpr fun a hin hin' => hum ?_)
        rwa [h'.unique hu' (hmem' v hv) hin hin', Vma.synced, if_pos hvm]
      · rw [Vma.synced, if_neg hvm]
        by_cases huv : u = v
        · exact .inr ⟨by rw [huv], by rw [huv]⟩
        · exact .inl (apart_iff.mpr fun a hin hin' => huv (h.unique hu hv hin hin'))

/-- An area that grows downwards changes the meaning of its addresses, one that is synchronised
to the size it has does not. -/
theorem grow_translation_down : ∃ r s' t,
    growVma 0 ⟨0x3000, 0x8000⟩ fourPageArea = .ok (.ok r, s') ∧ ¬KeepsTranslation fourPageArea s' ∧
    syncMemoryVmas 0 0x4000 fourPageArea = .ok (.ok (), t) ∧ KeepsTranslation fourPageArea t := by
  have hgrow := eq_ok_of_returned (x := growVma 0 ⟨0x3000, 0x8000⟩ fourPageArea)
    (a := ⟨0x3000, 0x8000⟩) fourPageArea (by decide)
  have hsync := eq_ok_of_returned (x := syncMemoryVmas 0 0x4000 fourPageArea) (a := ())
    fourPageArea (by decide)
  obtain ⟨hdown, hsize⟩ := grow_translation fourPageArea_valid
  refine ⟨_, _, _, hgrow, ?_, hsync, (hsize _ _ _ hsync).mpr (by decide)⟩
  rw [hdown 0 _ ⟨0, .data, .GROW_DOWN, ⟨0x4000, 0x8000⟩, 0, Prot.PROT_R, 0⟩ _ _ (by decide) hgrow]
  decide

/-- **Growing downwards moves the bytes.**  The address 0x4000 stands for the byte 0 before and
for the byte 0x1000 afterwards. -/
theorem growing_down_moves_bytes : ∃ r s',
    growVma 0 ⟨0x3000, 0x8000⟩ fourPageArea = .ok (.ok r, s') ∧
      fourPageArea.Maps 0x4000 ⟨0, Prot.PROT_R, 0⟩ ∧ s'.Maps 0x4000 ⟨0, Prot.PROT_R, 0x1000⟩ := by
  have hcall := eq_ok_of_returned (x := growVma 0 ⟨0x3000, 0x8000⟩ fourPageArea)
    (a := ⟨0x3000, 0x8000⟩) fourPageArea (by decide)
  refine ⟨_, _, hcall, ?_, ?_⟩
  · exact ⟨⟨0, .data, .GROW_DOWN, ⟨0x4000, 0x8000⟩, 0, Prot.PROT_R, 0⟩, by decide,
      by decide, by decide⟩
  · exact ⟨⟨0, .data, .GROW_DOWN, ⟨0x3000, 0x8000⟩, 0, Prot.PROT_R, 0⟩, by decide,
      by decide, by decide⟩

end Sustcore
