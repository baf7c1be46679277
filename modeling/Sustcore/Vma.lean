/-
# Virtual memory areas (`kernel/mem/vma.h`, `kernel/mem/vma.cpp`)

A `TaskMemoryManager` keeps the list of the areas of a task, in increasing order of their
first address, and the page table of the task.  An area refers to a memory payload by its
number.  Addresses and offsets are 64-bit words: `wordAdd` and `wordSub` wrap around.

This module has the functions that only change the list and the page table.
-/
import Sustcore.Memory
import Sustcore.PageMan

namespace Sustcore

open Kernel

/-! ## Addresses -/

def wordAdd (a b : ℕ) : ℕ := (a + b) % 2 ^ 64

def wordSub (a b : ℕ) : ℕ := (a + 2 ^ 64 - b) % 2 ^ 64

/-- The first kernel address. -/
abbrev KPA_OFFSET : ℕ := 0xFFFFFFC000000000

/-- `is_user_vaddr`; the null address is in every scope. -/
def isUserVaddr (vaddr : ℕ) : Bool := vaddr ≠ 0 ∧ vaddr < KPA_OFFSET

/-- `VirArea`: the addresses from `begin` on and before `stop`. -/
structure VirArea where
  begin : ℕ
  stop : ℕ
  deriving DecidableEq, Repr

namespace VirArea

def nullable (a : VirArea) : Bool := a.begin ≥ a.stop

def size (a : VirArea) : ℕ := wordSub a.stop a.begin

def isIntersecting (a b : VirArea) : Bool := max a.begin b.begin < min a.stop b.stop

def within (a : VirArea) (vaddr : ℕ) : Bool := a.begin ≤ vaddr ∧ vaddr < a.stop

def validUserArea (a : VirArea) : Bool :=
  a.begin ≤ a.stop && isUserVaddr a.begin && isUserVaddr a.stop

def pageInnerArea (a : VirArea) : VirArea :=
  let first := pageAlignUp a.begin
  let last := pageAlignDown a.stop
  if first ≥ last then ⟨first, first⟩ else ⟨first, last⟩

def pageOuterArea (a : VirArea) : VirArea :=
  if a.nullable then ⟨a.begin, a.begin⟩ else ⟨pageAlignDown a.begin, pageAlignUp a.stop⟩

/-- The addresses of the pages of an area, as the loops over pages visit them. -/
def pages (a : VirArea) : List ℕ :=
  (List.range (a.size / PAGESIZE)).map fun i => wordAdd a.begin (i * PAGESIZE)

end VirArea

/-! ## Areas of a task -/

/-- `VMA::Type`. -/
inductive VmaType where
  | none
  | code
  | data
  | stack
  | heap
  | share
  deriving DecidableEq, Repr

/-- `VMA::Prot`. -/
abbrev Prot := BitVec 64

namespace Prot

def PROT_R : Prot := 0x1
def PROT_W : Prot := 0x2

end Prot

/-- `VMA`; `id` stands for its address. -/
structure Vma where
  id : ℕ
  type : VmaType
  growth : MemoryGrowth
  varea : VirArea
  memory : ℕ
  prot : Prot
  memOffset : ℕ
  deriving DecidableEq

/-- The area covers the address, or is empty at it. -/
def Vma.covers (vma : Vma) (vaddr : ℕ) : Bool :=
  vma.varea.within vaddr || (vma.varea.size == 0 && vma.varea.begin == vaddr)

/-- `TaskMemoryManager`; `nextId` is the address of the next `VMA`. -/
structure Tmm where
  vmas : List Vma
  nextId : ℕ
  root : PageTable

namespace Tmm

/-- A fresh `TaskMemoryManager`: no areas, and the page table of the kernel. -/
def fresh (kernelRoot : PageTable) : Tmm := ⟨[], 0, kernelRoot⟩

def locate (s : Tmm) (vaddr : ℕ) : Result Vma :=
  match s.vmas.find? fun vma => vma.covers vaddr with
  | some vma => .ok vma
  | none => .error .entryNotFound

def locateRange (s : Tmm) (varea : VirArea) : Result Vma :=
  match s.vmas.find? fun vma => vma.varea.isIntersecting varea with
  | some vma => .ok vma
  | none => .error .entryNotFound

/-- `vma_list.insert`, in front of the first area that begins later. -/
def insertVma (vma : Vma) : List Vma → List Vma
  | [] => [vma]
  | other :: rest =>
    if vma.varea.begin < other.varea.begin then vma :: other :: rest
    else other :: insertVma vma rest

/-- `add_vma`; `none` is a null memory. -/
def addVma (type : VmaType) (growth : MemoryGrowth) (varea : VirArea) (memory : Option ℕ)
    (prot : Prot) (memOffset : ℕ) : Kernel Tmm Vma := do
  match memory with
  | none => throw .nullptr
  | some memory => do
      let s ← get
      if !varea.validUserArea then throw .invalidParam
      else if !varea.nullable && (s.locateRange varea).isOk then throw .busy
      else do
        let vma : Vma := ⟨s.nextId, type, growth, varea, memory, prot, memOffset⟩
        modify fun s =>
          { s with vmas := insertVma vma s.vmas, nextId := s.nextId + 1 }
        pure vma

def unmapPages (varea : VirArea) (s : Tmm) : Tmm :=
  { s with root := varea.pageOuterArea.pages.foldl PageTable.unmapPage s.root }

/-- The area with a given address (`__check_vma`). -/
def find (s : Tmm) (id : ℕ) : Option Vma := s.vmas.find? fun vma => vma.id == id

/-- Change the area with a given address. -/
def setArea (id : ℕ) (f : Vma → Vma) (s : Tmm) : Tmm :=
  { s with vmas := s.vmas.map fun vma => if vma.id = id then f vma else vma }

def removeVma (id : ℕ) : Kernel Tmm Unit := do
  let s ← get
  match s.find id with
  | none => throw .invalidParam
  | some vma =>
    modify fun s =>
      let s := s.unmapPages vma.varea
      { s with vmas := s.vmas.filter fun vma => vma.id ≠ id }

/-- One round of `remove_vma_range`. -/
def removeRangeOne (varea : VirArea) (id : ℕ) : Kernel Tmm Unit := do
  let s ← get
  match s.find id with
  | none => pure ()
  | some vma =>
    if !vma.varea.isIntersecting varea then pure ()
    else
      let cutBegin := if varea.begin > vma.varea.begin then varea.begin else vma.varea.begin
      let cutEnd := if varea.stop < vma.varea.stop then varea.stop else vma.varea.stop
      if cutBegin ≥ cutEnd then pure ()
      else
        let oldArea := vma.varea
        let cutOffset := wordSub cutBegin oldArea.begin
        let cutSize := wordSub cutEnd cutBegin
        if cutBegin = oldArea.begin ∧ cutEnd = oldArea.stop then removeVma id
        else if cutBegin = oldArea.begin then
          modify fun s =>
            (s.unmapPages ⟨cutBegin, cutEnd⟩).setArea id fun vma =>
              { vma with
                varea := { vma.varea with begin := cutEnd }
                memOffset := wordAdd vma.memOffset cutSize }
        else if cutEnd = oldArea.stop then
          modify fun s =>
            (s.unmapPages ⟨cutBegin, cutEnd⟩).setArea id fun vma =>
              { vma with varea := { vma.varea with stop := cutBegin } }
        else do
          modify fun s =>
            (s.unmapPages ⟨cutBegin, cutEnd⟩).setArea id fun vma =>
              { vma with varea := { vma.varea with stop := cutBegin } }
          let _ ← addVma vma.type vma.growth ⟨cutEnd, oldArea.stop⟩ (some vma.memory) vma.prot
            (wordAdd (wordAdd vma.memOffset cutOffset) cutSize)
          pure ()

/-- Run a function on every area of a list; an error ends the loop. -/
def forEach (f : ℕ → Kernel Tmm Unit) : List ℕ → Kernel Tmm Unit
  | [] => pure ()
  | id :: rest => do
      f id
      forEach f rest

/-- `remove_vma_range`.  The right part of a split area begins where the range ends, so
that the loop need not visit it. -/
def removeVmaRange (varea : VirArea) : Kernel Tmm Unit := do
  if varea.nullable then pure ()
  else if !varea.validUserArea then throw .invalidParam
  else do
    let s ← get
    forEach (removeRangeOne varea) (s.vmas.map Vma.id)

/-- The checks of `grow_vma` on a new area: one end stays, the area may move the other end
that way, and no other area is in the way. -/
def growCheck (s : Tmm) (target : Vma) (varea : VirArea) : Result Unit :=
  let oldArea := target.varea
  let growUp := varea.begin == oldArea.begin && decide (varea.stop > oldArea.stop)
  let shrinkUp := varea.begin == oldArea.begin && decide (varea.stop < oldArea.stop)
  let growDown := varea.stop == oldArea.stop && decide (varea.begin < oldArea.begin)
  let shrinkDown := varea.stop == oldArea.stop && decide (varea.begin > oldArea.begin)
  if growUp && !target.growth.meets .GROW_UP then .error .notSupported
  else if shrinkUp && !target.growth.meets .SHRINK_UP then .error .notSupported
  else if growDown && !target.growth.meets .GROW_DOWN then .error .notSupported
  else if shrinkDown && !target.growth.meets .SHRINK_DOWN then .error .notSupported
  else if !growUp && !shrinkUp && !growDown && !shrinkDown then .error .invalidParam
  else if !varea.nullable && s.vmas.any fun other =>
      other.id ≠ target.id && other.varea.isIntersecting varea then .error .busy
  else .ok ()

/-- The pages that `grow_vma` unmaps: those that the old area loses entirely. -/
def growUnmapArea (oldArea varea : VirArea) : VirArea :=
  if varea.begin = oldArea.begin ∧ varea.stop < oldArea.stop then
    VirArea.pageInnerArea ⟨varea.stop, oldArea.stop⟩
  else if varea.stop = oldArea.stop ∧ varea.begin > oldArea.begin then
    VirArea.pageInnerArea ⟨oldArea.begin, varea.begin⟩
  else ⟨0, 0⟩

def growVma (id : ℕ) (varea : VirArea) : Kernel Tmm VirArea := do
  let s ← get
  match s.find id with
  | none => throw .invalidParam
  | some target =>
    if !varea.validUserArea then throw .invalidParam
    else if varea = target.varea then pure target.varea
    else do
      ofResult (s.growCheck target varea)
      modify fun s =>
        let unmapArea := growUnmapArea target.varea varea
        let s := if unmapArea.nullable then s else s.unmapPages unmapArea
        s.setArea id fun vma => { vma with varea := varea }
      pure varea

/-- One round of `unmap_memory_tail`. -/
def unmapTailOne (memory newSize : ℕ) (s : Tmm) (id : ℕ) : Tmm :=
  match s.find id with
  | none => s
  | some vma =>
    if vma.memory ≠ memory then s
    else
      let keep := if newSize > vma.memOffset then newSize - vma.memOffset else 0
      let newEnd := wordAdd vma.varea.begin
        (if keep < vma.varea.size then keep else vma.varea.size)
      if newEnd < vma.varea.stop then
        (s.unmapPages ⟨newEnd, vma.varea.stop⟩).setArea id fun vma =>
          { vma with varea := { vma.varea with stop := newEnd } }
      else s

def unmapMemoryTail (memory newSize : ℕ) (s : Tmm) : Tmm :=
  (s.vmas.map Vma.id).foldl (unmapTailOne memory newSize) s

/-- The area that `sync_memory_vmas` asks for: as long as the rest of the memory. -/
def syncArea (memsz : ℕ) (vma : Vma) : VirArea :=
  let size := if memsz > vma.memOffset then memsz - vma.memOffset else 0
  if vma.growth.meets .GROW_DOWN then
    { vma.varea with begin := wordSub vma.varea.stop size }
  else { vma.varea with stop := wordAdd vma.varea.begin size }

/-- One round of `sync_memory_vmas`. -/
def syncOne (memory memsz : ℕ) (id : ℕ) : Kernel Tmm Unit := do
  let s ← get
  match s.find id with
  | none => pure ()
  | some vma =>
    if vma.memory ≠ memory then pure ()
    else do
      let _ ← growVma id (syncArea memsz vma)
      pure ()

/-- `sync_memory_vmas`; `memsz` is the size of the memory. -/
def syncMemoryVmas (memory memsz : ℕ) : Kernel Tmm Unit := do
  let s ← get
  forEach (syncOne memory memsz) (s.vmas.map Vma.id)

/-- One page of `protect_memory_cow`. -/
def protectPage (vaddr : ℕ) : Kernel PageTable Unit := do
  let t ← get
  match t.queryPage vaddr with
  | .error e => if e = .pageNotPresent then pure () else throw e
  | .ok (pte, size) =>
    if size ≠ ._4K then throw .notSupported
    else if pte.mode.isWritable then
      modify fun t => t.setPte vaddr (some (pte.protectCow pte.mode))
    else pure ()

/-- The pages of one area, one after the other. -/
def protectPages : List ℕ → Kernel PageTable Unit
  | [] => pure ()
  | vaddr :: rest => do
      protectPage vaddr
      protectPages rest

/-- The areas of one payload, one after the other. -/
def protectAreas (memory : ℕ) : List Vma → Kernel PageTable Unit
  | [] => pure ()
  | vma :: rest =>
    if vma.memory ≠ memory then protectAreas memory rest
    else do
      protectPages vma.varea.pageOuterArea.pages
      protectAreas memory rest

/-- `protect_memory_cow`; `shared` tells whether the payload is shared. -/
def protectMemoryCow (memory : ℕ) (shared : Bool) : Kernel Tmm Unit := fun s =>
  if shared then .ok (.ok (), s)
  else do
    let (res, root) ← protectAreas memory s.vmas s.root
    pure (res, { s with root := root })

end Tmm

end Sustcore
