/-
# Runs of the functions on the areas of a task

A run calls `add_vma`, `remove_vma`, `remove_vma_range`, `grow_vma`, `unmap_memory_tail` and
`sync_memory_vmas` with any arguments, in any order, and goes on after errors.

In every run the areas stay valid and disjoint (`Tmm.Ordered.step`).  They also stay in the order
of their addresses as long as no call moves the first address of an area past that of
another one (`areas_in_order`).  That can happen when one of the two is empty: an empty area
intersects nothing, so no check is in the way, and the empty area can be on the wrong side
of the other one in the list when it grows (`areas_out_of_order`).
-/
import Sustcore.VmaLists

namespace Sustcore

open Relation Tmm Except List

/-! ## Calls -/

/-- A call of one of the functions that change the list. -/
inductive VmaCall where
  | addVma (type : VmaType) (growth : MemoryGrowth) (varea : VirArea) (memory : Option ℕ)
      (prot : Prot) (memOffset : ℕ)
  | removeVma (id : ℕ)
  | removeVmaRange (varea : VirArea)
  | growVma (id : ℕ) (varea : VirArea)
  | unmapMemoryTail (memory newSize : ℕ)
  | syncMemoryVmas (memory memsz : ℕ)

/-- The call ends, with or without an error, in the state `s'`. -/
inductive VmaStep : VmaCall → Tmm → Tmm → Prop
  | addVma {type : VmaType} {growth : MemoryGrowth} {varea : VirArea} {memory : Option ℕ}
      {prot : Prot} {memOffset : ℕ} {s s' : Tmm} {res : Result Vma}
      (h : addVma type growth varea memory prot memOffset s = .ok (res, s')) :
      VmaStep (.addVma type growth varea memory prot memOffset) s s'
  | removeVma {id : ℕ} {s s' : Tmm} {res : Result Unit}
      (h : removeVma id s = .ok (res, s')) : VmaStep (.removeVma id) s s'
  | removeVmaRange {varea : VirArea} {s s' : Tmm} {res : Result Unit}
      (h : removeVmaRange varea s = .ok (res, s')) : VmaStep (.removeVmaRange varea) s s'
  | growVma {id : ℕ} {varea : VirArea} {s s' : Tmm} {res : Result VirArea}
      (h : growVma id varea s = .ok (res, s')) : VmaStep (.growVma id varea) s s'
  | unmapMemoryTail (memory newSize : ℕ) (s : Tmm) :
      VmaStep (.unmapMemoryTail memory newSize) s (s.unmapMemoryTail memory newSize)
  | syncMemoryVmas {memory memsz : ℕ} {s s' : Tmm} {res : Result Unit}
      (h : syncMemoryVmas memory memsz s = .ok (res, s')) :
      VmaStep (.syncMemoryVmas memory memsz) s s'

/-- The call moves no first address of an area past that of another area of the list. -/
def VmaCall.InOrder : VmaCall → Tmm → Prop
  | .removeVmaRange varea, s => s.RangeInOrder varea
  | .growVma id varea, s => s.GrowInOrder id varea
  | .syncMemoryVmas memory memsz, s => s.AllSyncInOrder memory memsz
  | _, _ => True

def VmaRun (s s' : Tmm) : Prop := ∃ call, VmaStep call s s'

/-- A call that moves no area past another one. -/
def VmaRunInOrder (s s' : Tmm) : Prop := ∃ call, VmaCall.InOrder call s ∧ VmaStep call s s'

theorem Tmm.Ordered.step {G : Prop} {call : VmaCall} {s s' : Tmm} (h : s.Ordered G)
    (hG : G → call.InOrder s) (hstep : VmaStep call s s') : s'.Ordered G := by
  cases hstep with
  | addVma hcall => exact h.addVma hcall
  | removeVma hcall => exact h.removeVma hcall
  | removeVmaRange hcall => exact h.removeVmaRange hG hcall
  | growVma hcall => exact h.growVma hG hcall
  | unmapMemoryTail memory newSize => exact h.unmapMemoryTail memory newSize
  | syncMemoryVmas hcall => exact h.syncMemoryVmas hG hcall

theorem Tmm.ordered_fresh (G : Prop) (root : PageTable) : (fresh root).Ordered G := by
  have hnil : (fresh root).vmas = [] := rfl
  refine ⟨⟨?_, ?_, ?_, ?_⟩, fun _ => ?_⟩
  · simp [hnil]
  · simp [hnil]
  · simp [hnil]
  · simp [hnil]
  · simp [Tmm.Sorted, hnil]

/-! ## Results -/

/-- Every area is a range of user addresses, and the areas that are not empty are disjoint
and listed in the order of their addresses. -/
structure Tmm.WellListed (s : Tmm) : Prop where
  user : ∀ v ∈ s.vmas, v.varea.begin ≤ v.varea.stop ∧
    isUserVaddr v.varea.begin = true ∧ isUserVaddr v.varea.stop = true
  ordered : (s.vmas.filter fun v => !v.varea.nullable).Pairwise
    fun u v => u.varea.stop ≤ v.varea.begin

theorem Tmm.Valid.user {s : Tmm} (h : s.Valid) {v : Vma} (hv : v ∈ s.vmas) :
    v.varea.begin ≤ v.varea.stop ∧
      isUserVaddr v.varea.begin = true ∧ isUserVaddr v.varea.stop = true := by
  have hvalid := h.area v hv
  simp only [VirArea.validUserArea, Bool.and_eq_true, decide_eq_true_eq] at hvalid
  exact ⟨hvalid.1.1, hvalid.1.2, hvalid.2⟩

theorem Tmm.Valid.wellListed {s : Tmm} (h : s.Valid) (hsorted : s.Sorted) : s.WellListed := by
  refine ⟨fun v hv => h.user hv, ?_⟩
  rw [pairwise_filter]
  refine (h.apart.and hsorted).imp ?_
  rintro u v ⟨hapart, hle⟩ - hv
  unfold VirArea.nullable at hv
  simp only [Bool.not_eq_true', decide_eq_false_iff_not] at hv
  unfold VirArea.Apart at hapart
  omega

/-- **The areas of a task stay in order**, in every run whose calls move no area past
another one. -/
theorem areas_in_order {root : PageTable} {s : Tmm}
    (hrun : ReflTransGen VmaRunInOrder (fresh root) s) : s.WellListed := by
  have hinv : s.Ordered True :=
    Transition.invariant (fun _ _ h ⟨_, hG, hstep⟩ => h.step (fun _ => hG) hstep) hrun
      (ordered_fresh True root)
  exact hinv.valid.wellListed (hinv.sorted trivial)

/-! ## Two runs -/

def PageTable.empty : PageTable := fun _ => .invalid

/-- The state after `add_vma` with a growing area of memory 0. -/
def Tmm.withArea (s : Tmm) (growth : MemoryGrowth) (varea : VirArea) : Tmm :=
  (valueOr (.error .nullptr, s)
    (addVma .data growth varea (some 0) Prot.PROT_R 0 s)).2

/-- The state after `grow_vma`. -/
def Tmm.withGrown (s : Tmm) (id : ℕ) (varea : VirArea) : Tmm :=
  (valueOr (.error .nullptr, s) (growVma id varea s)).2

theorem Tmm.withArea_step (s : Tmm) (growth : MemoryGrowth) (varea : VirArea)
    (hok : (addVma .data growth varea (some 0) Prot.PROT_R 0 s).isOk = true) :
    VmaStep (.addVma .data growth varea (some 0) Prot.PROT_R 0) s (s.withArea growth varea) :=
  VmaStep.addVma (eq_ok_valueOr hok)

theorem Tmm.withGrown_step (s : Tmm) (id : ℕ) (varea : VirArea)
    (hok : (growVma id varea s).isOk = true) :
    VmaStep (.growVma id varea) s (s.withGrown id varea) :=
  VmaStep.growVma (eq_ok_valueOr hok)

/-- The first of two areas grows upwards. -/
theorem areas_in_order_grown :
    ((((fresh .empty).withArea .GROW_UP ⟨0x1000, 0x2000⟩).withArea .FIXED ⟨0x4000, 0x5000⟩).withGrown 0
      ⟨0x1000, 0x3000⟩).WellListed := by
  have hadd : ∀ {s growth varea}, (addVma .data growth varea (some 0) Prot.PROT_R 0 s).isOk = true →
      VmaRunInOrder s (s.withArea growth varea) :=
    fun hok => ⟨.addVma .data _ _ (some 0) Prot.PROT_R 0, trivial, withArea_step _ _ _ hok⟩
  refine areas_in_order (((ReflTransGen.single (hadd (by decide))).tail (hadd (by decide))).tail
    ⟨.growVma 0 ⟨0x1000, 0x3000⟩, ?_, withGrown_step _ _ _ (by decide)⟩)
  intro l target r hsplit hid _ _
  have hvmas := congrArg (map fun v => (v.id, v.varea.begin)) hsplit
  replace hvmas : [(0, 0x1000), (1, 0x4000)] = _ := hvmas
  cases l with
  | nil =>
    have hr := (cons.inj hvmas).2
    refine ⟨nofun, fun u hu => ?_⟩
    have hu' := mem_map_of_mem (f := fun v : Vma => (v.id, v.varea.begin)) hu
    rw [← hr, mem_singleton] at hu'
    have hbegin : u.varea.begin = 0x4000 := congrArg Prod.snd hu'
    rw [hbegin]
    decide
  | cons v l =>
    -- the second area has another identifier
    have hmem : (target.id, target.varea.begin) ∈ [(1, 0x4000)] := by
      rw [(cons.inj hvmas).2]
      exact mem_map_of_mem (mem_append_right l mem_cons_self)
    cases hid.symm.trans (congrArg Prod.fst (mem_singleton.mp hmem))

/-- An empty area at the begin of another one is listed after it, and may grow downwards. -/
theorem areas_out_of_order :
    ∃ s, ReflTransGen VmaRun (fresh .empty) s ∧ ¬ s.WellListed := by
  refine ⟨(((fresh .empty).withArea .FIXED ⟨0x2000, 0x3000⟩).withArea .GROW_DOWN
    ⟨0x2000, 0x2000⟩).withGrown 1 ⟨0x1000, 0x2000⟩, ?_, ?_⟩
  · refine ((ReflTransGen.single ⟨_, withArea_step _ _ _ (by decide)⟩).tail
      ⟨_, withArea_step _ _ _ (by decide)⟩).tail ⟨_, withGrown_step _ _ _ (by decide)⟩
  · intro h
    have hord := h.ordered
    revert hord
    decide

end Sustcore
