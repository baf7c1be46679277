/-
# Sv39 page tables (`kernel/arch/riscv64/mem/sv39.h`, `kernel/mem/page_types.h`)

A page table has three levels of 512 entries.  An entry of the first two levels is
invalid, a large page or the next table; an entry of the last level is invalid or maps one
page.  The tables are functions of the indices.

A page is found through the bits 12 to 38 of its address, so addresses that differ above
bit 38 share their entries.  The accessed and dirty bits are left out: no function here reads
them.
-/
import Sustcore.Frames

namespace Sustcore

open Function

/-! ## Rights and flags -/

/-- `PageRWX`: the bits R, W and X. -/
abbrev PageRWX := BitVec 3

namespace PageRWX

def P : PageRWX := 0b000
def R : PageRWX := 0b001
def W : PageRWX := 0b010
def X : PageRWX := 0b100
def RO : PageRWX := 0b001
def RW : PageRWX := 0b011
def RX : PageRWX := 0b101
def RWX : PageRWX := 0b111
def NONE : PageRWX := 0b000

/-- `page_is_writable`. -/
def isWritable (rwx : PageRWX) : Bool := rwx &&& W != 0

def withoutWrite (rwx : PageRWX) : PageRWX :=
  if rwx = RW then RO else if rwx = RWX then RX else rwx

/-- `rwx_cast`: the bits of an entry; W and X without R is not a mode. -/
def cast (rwx : PageRWX) : BitVec 3 := if rwx = 0b110 then 0b000 else rwx

end PageRWX

structure PageFlags where
  rwx : PageRWX
  u : Bool
  g : Bool
  p : Bool
  deriving DecidableEq, Repr

/-- A valid page table entry; `cow` is the software bit 0, `np` the not-present bit. -/
structure Pte where
  ppn : ℕ
  rwx : BitVec 3
  u : Bool
  g : Bool
  cow : Bool
  np : Bool
  deriving DecidableEq, Repr

namespace Pte

/-- `rwx(pte)`: the mode of an entry; W without R is no mode. -/
def mode (pte : Pte) : PageRWX :=
  if pte.rwx = 0b010 ∨ pte.rwx = 0b110 then .NONE else pte.rwx

def protectCow (pte : Pte) (original : PageRWX) : Pte :=
  { pte with rwx := original.withoutWrite.cast, cow := true }

end Pte

inductive PageSize where
  | _4K
  | _2M
  | _1G
  deriving DecidableEq, Repr

/-! ## Tables -/

/-- An entry of the first two levels. -/
inductive Entry (T : Type) where
  | invalid
  | leaf (pte : Pte)
  | table (next : ℕ → T)

/-- The root table. -/
abbrev PageTable := ℕ → Entry (Entry (Option Pte))

/-- `make_vpn`, level 0. -/
def vpn0 (vaddr : ℕ) : ℕ := vaddr / 2 ^ 30 % 512

/-- `make_vpn`, level 1. -/
def vpn1 (vaddr : ℕ) : ℕ := vaddr / 2 ^ 21 % 512

/-- `make_vpn`, level 2. -/
def vpn2 (vaddr : ℕ) : ℕ := vaddr / 2 ^ 12 % 512

def pageSlot (vaddr : ℕ) : ℕ × ℕ × ℕ := (vpn0 vaddr, vpn1 vaddr, vpn2 vaddr)

namespace PageTable

def queryPage (t : PageTable) (vaddr : ℕ) : Result (Pte × PageSize) :=
  match t (vpn0 vaddr) with
  | .invalid => .error .pageNotPresent
  | .leaf pte => .ok (pte, ._1G)
  | .table t₁ =>
    match t₁ (vpn1 vaddr) with
    | .invalid => .error .pageNotPresent
    | .leaf pte => .ok (pte, ._2M)
    | .table t₂ =>
      match t₂ (vpn2 vaddr) with
      | none => .error .pageNotPresent
      | some pte => if pte.rwx = PageRWX.P then .error .invalidPte else .ok (pte, ._4K)

/-- A write through the entry that `query_page` finds; `none` clears it. -/
def setPte (t : PageTable) (vaddr : ℕ) (pte : Option Pte) : PageTable :=
  match t (vpn0 vaddr) with
  | .invalid => t
  | .leaf _ => update t (vpn0 vaddr) (pte.elim .invalid .leaf)
  | .table t₁ =>
    match t₁ (vpn1 vaddr) with
    | .invalid => t
    | .leaf _ =>
      update t (vpn0 vaddr)
        (.table (update t₁ (vpn1 vaddr) (pte.elim .invalid .leaf)))
    | .table t₂ =>
      update t (vpn0 vaddr) (.table (update t₁ (vpn1 vaddr)
        (.table (update t₂ (vpn2 vaddr) pte))))

def unmapPage (t : PageTable) (vaddr : ℕ) : PageTable :=
  match t.queryPage vaddr with
  | .error _ => t
  | .ok _ => t.setPte vaddr none

end PageTable

end Sustcore
