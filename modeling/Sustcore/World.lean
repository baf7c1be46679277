/-
# Payloads, tasks and holders together (`kernel/cap/capability.h`, `kernel/object/memory.cpp`)

The heap of payloads that the capabilities of the kernel refer to.  Memory payloads are
those of `MemoryHeap.lean`; of all other payloads only the type matters here, since their
`clone_payload` returns the payload itself.  A payload counts the capability objects that
point to it, and `release` destructs it when the count reaches zero.  A memory payload may
own one capability object itself, the one of its file.

`history` records the constructions and destructions of capability objects and the calls
of `destruct`, the last one first.  No function reads it.
-/
import Sustcore.Capability
import Sustcore.MemoryHeap
import Sustcore.Vma

namespace Sustcore

open Function Except

/-- `PayloadType`, of the payloads that are not memory. -/
inductive PayloadType where
  | intobj
  | sintobj
  | vfile
  | vdir
  | notif
  | mutex
  | pcb
  | tcb
  | endpoint
  | reply
  | vmount
  | pipeReadEnd
  | pipeWriteEnd
  deriving DecidableEq, Repr

/-- What happens in the life of a payload. -/
inductive LifeEvent where
  /-- A capability object for the payload is constructed. -/
  | made (p : ℕ)
  /-- A capability object for the payload is destroyed. -/
  | dropped (p : ℕ)
  /-- `destruct` is called. -/
  | destructed (p : ℕ)
  deriving DecidableEq, Repr

/-- The heap of payloads and the address spaces of the tasks; `current` is the running
task, `next` the address of the next payload. -/
structure World (F : Type) where
  memory : MemoryHeap F
  objects : ℕ → Option PayloadType
  refcount : ℕ → ℕ
  next : ℕ
  tasks : ℕ → Option Tmm
  current : Option ℕ
  history : List LifeEvent

namespace World

variable {F : Type} (A : FrameAllocator F)

def keep (p : ℕ) (w : World F) : World F :=
  { w with refcount := update w.refcount p (w.refcount p + 1)
           history := .made p :: w.history }

/-- The first part of `release`. -/
def uncount (p : ℕ) (w : World F) : Except Halt (World F) := do
  assertThat (w.refcount p > 0)
  pure { w with refcount := update w.refcount p (w.refcount p - 1)
                history := .dropped p :: w.history }

/-- `destruct` of a payload that is not memory. -/
def destructObject (p : ℕ) (w : World F) : World F :=
  { w with objects := update w.objects p none
           history := .destructed p :: w.history }

/-- `release` of a payload that is not memory. -/
def releaseObject (p : ℕ) (w : World F) : Except Halt (World F) := do
  let w ← uncount p w
  if w.refcount p = 0 then pure (destructObject p w)
  else pure w

/-- `delete file`, at the end of the destructor of a memory payload. -/
def deleteFile : Option ℕ → World F → Except Halt (World F)
  | none, w => .ok w
  | some file, w => releaseObject file w

def destruct (p : ℕ) (w : World F) : Except Halt (World F) :=
  match w.memory.payloads p with
  | none => .ok (destructObject p w)
  | some m => do
      let memory ← w.memory.destruct A p m
      deleteFile m.file { w with memory := memory, history := .destructed p :: w.history }

def release (p : ℕ) (w : World F) : Except Halt (World F) := do
  let w ← uncount p w
  if w.refcount p = 0 then destruct A p w
  else pure w

/-- `clone_payload`; the capability of a file is cloned with the memory. -/
def clonePayload (p : ℕ) (w : World F) : ℕ × World F :=
  match w.memory.payloads p with
  | none => (p, w)
  | some m =>
    if m.shared then (p, w)
    else
      let w := match m.file with
        | none => w
        | some file => keep file w
      (w.next, { w with memory := (w.memory.clonePayload A p m w.next).2
                        refcount := update w.refcount w.next 0
                        next := w.next + 1 })

/-- The payload is memory that is not shared. -/
def isPrivateMemory (w : World F) (p : ℕ) : Bool :=
  match w.memory.payloads p with
  | none => false
  | some m => !m.shared

/-- The address space of the running task. -/
def tmm (w : World F) : Option Tmm := w.current.bind w.tasks

/-- `protect_memory_cow` in the address space of the running task. -/
def protectMemoryCow (p : ℕ) : Kernel (World F) Unit := fun w =>
  match w.current, w.tmm with
  | some t, some tmm => do
      let (res, tmm) ← tmm.protectMemoryCow p (!w.isPrivateMemory p)
      pure (res, { w with tasks := update w.tasks t (some tmm) })
  | _, _ => .ok (.ok (), w)

/-! ## The address of the next payload -/

@[simp] theorem keep_next (p : ℕ) (w : World F) : (keep p w).next = w.next := rfl

variable {p : ℕ} {w w' : World F}

theorem uncount_eq_ok (h : uncount p w = .ok w') : 0 < w.refcount p ∧
      w' = { w with refcount := update w.refcount p (w.refcount p - 1)
                    history := .dropped p :: w.history } := by
  obtain ⟨_, hassert, hw⟩ := bind_eq_ok_iff.mp h
  rw [assertThat_eq_ok_iff, decide_eq_true_eq] at hassert
  exact ⟨hassert, (ok.inj hw).symm⟩

/-- **`release` of a payload that is not memory**: one reference less, and the object goes
with the last one. -/
theorem releaseObject_eq_ok (h : releaseObject p w = .ok w') : 0 < w.refcount p ∧
      ((w.refcount p = 1 ∧
        w' = { w with refcount := update w.refcount p 0
                      objects := update w.objects p none
                      history := .destructed p :: .dropped p :: w.history }) ∨
      (1 < w.refcount p ∧
        w' = { w with refcount := update w.refcount p (w.refcount p - 1)
                      history := .dropped p :: w.history })) := by
  obtain ⟨u, hu, hrest⟩ := bind_eq_ok_iff.mp h
  obtain ⟨hpos, rfl⟩ := uncount_eq_ok hu
  simp only [update_self] at hrest
  refine ⟨hpos, ?_⟩
  split at hrest
  · rename_i hzero
    cases hrest
    refine .inl ⟨by omega, ?_⟩
    rw [hzero]
    rfl
  · cases hrest
    exact .inr ⟨by omega, rfl⟩

theorem release_object (hp : w.memory.payloads p = none)
    (h : release A p w = .ok w') : releaseObject p w = .ok w' := by
  obtain ⟨u, hu, hrest⟩ := bind_eq_ok_iff.mp h
  have hmemory : u.memory = w.memory := by rw [(uncount_eq_ok hu).2]
  refine bind_eq_ok_iff.mpr ⟨u, hu, ?_⟩
  unfold destruct at hrest
  rwa [hmemory, hp] at hrest

/-- **`release` of a memory payload**: the last reference takes the payload with it, and then
its file loses a reference. -/
theorem release_memory_eq_ok {m : MemoryPayload}
    (hp : w.memory.payloads p = some m) (h : release A p w = .ok w') : 0 < w.refcount p ∧
      ((w.refcount p = 1 ∧ ∃ memory, w.memory.destruct A p m = .ok memory ∧
        deleteFile m.file { w with refcount := update w.refcount p 0
                                   memory := memory
                                   history := .destructed p :: .dropped p :: w.history } =
          .ok w') ∨
      (1 < w.refcount p ∧
        w' = { w with refcount := update w.refcount p (w.refcount p - 1)
                      history := .dropped p :: w.history })) := by
  obtain ⟨u, hu, hrest⟩ := bind_eq_ok_iff.mp h
  obtain ⟨hpos, rfl⟩ := uncount_eq_ok hu
  simp only [update_self] at hrest
  refine ⟨hpos, ?_⟩
  split at hrest
  · rename_i hzero
    unfold destruct at hrest
    simp only [hp] at hrest
    obtain ⟨memory, hdestruct, hfile⟩ := bind_eq_ok_iff.mp hrest
    refine .inl ⟨by omega, memory, hdestruct, ?_⟩
    rwa [hzero] at hfile
  · cases hrest
    exact .inr ⟨by omega, rfl⟩

theorem releaseObject_next (h : releaseObject p w = .ok w') : w'.next = w.next := by
  obtain ⟨-, ⟨-, rfl⟩ | ⟨-, rfl⟩⟩ := releaseObject_eq_ok h
  · rfl
  · rfl

theorem deleteFile_next {file : Option ℕ} (h : deleteFile file w = .ok w') : w'.next = w.next := by
  cases file with
  | none =>
    cases h
    rfl
  | some file => exact releaseObject_next h

theorem destruct_next (h : destruct A p w = .ok w') : w'.next = w.next := by
  unfold destruct at h
  cases hp : w.memory.payloads p with
  | none =>
    rw [hp] at h
    cases h
    rfl
  | some m =>
    rw [hp] at h
    obtain ⟨memory, -, hfile⟩ := bind_eq_ok_iff.mp h
    have hnext := deleteFile_next hfile
    exact hnext

theorem release_next (h : release A p w = .ok w') : w'.next = w.next := by
  obtain ⟨u, hu, hrest⟩ := bind_eq_ok_iff.mp h
  have hnext : u.next = w.next := by rw [(uncount_eq_ok hu).2]
  split at hrest
  · rw [destruct_next A hrest, hnext]
  · cases hrest
    exact hnext

theorem clonePayload_next (p : ℕ) (w : World F) :
    (clonePayload A p w).1 = p ∧ (clonePayload A p w).2.next = w.next ∨
      (clonePayload A p w).1 = w.next ∧ (clonePayload A p w).2.next = w.next + 1 := by
  unfold clonePayload
  cases w.memory.payloads p with
  | none => exact .inl ⟨rfl, rfl⟩
  | some m =>
    simp only
    split
    · exact .inl ⟨rfl, rfl⟩
    · cases m.file with
      | none => exact .inr ⟨rfl, rfl⟩
      | some file => exact .inr ⟨rfl, rfl⟩

theorem protectMemoryCow_eq_ok {r : Result Unit} (h : protectMemoryCow p w = .ok (r, w')) :
    ∃ tasks, w' = { w with tasks := tasks } := by
  unfold protectMemoryCow at h
  split at h
  · obtain ⟨⟨res, tmm⟩, -, hw⟩ := bind_eq_ok_iff.mp h
    obtain ⟨-, rfl⟩ := ok_inj hw
    exact ⟨_, rfl⟩
  · obtain ⟨-, rfl⟩ := ok_inj h
    exact ⟨w.tasks, rfl⟩

/-- **The payloads of the kernel.** -/
def payloads : Payloads (World F) where
  clonePayload := clonePayload A
  keep := keep
  release := release A
  destruct := destruct A
  isPrivateMemory := isPrivateMemory
  hasTmm w := w.tmm.isSome
  protectMemoryCow := protectMemoryCow
  next := World.next
  clone_next := clonePayload_next A
  keep_next := keep_next
  release_next := fun _ _ _ h => release_next A h
  destruct_next := fun _ _ _ h => destruct_next A h
  protect_next := fun _ _ _ _ h => by
    obtain ⟨tasks, rfl⟩ := protectMemoryCow_eq_ok h
    rfl

end World

end Sustcore
