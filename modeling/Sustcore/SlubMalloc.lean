/-
# The kernel's heap (`kernel/mem/slub.h`)

`SlubMalloc` rounds a request up to a power of two.  Below `KMAX` bytes it takes an object of the
slabs of that size, from `KMAX` bytes on a run of pages.  What `free` needs to know about a block is
kept in a record, which is itself an object of a slab, and the records are in a list.

The slabs of the different sizes share the page allocator and the memory; `onCache` runs code of
one of them.  The fields of a record are kept beside its address.  A record that is constructed at
the null pointer is `Halt.undefined`.
-/
import Sustcore.PageRuns
import Sustcore.SlabRuns

namespace Sustcore.SlubMalloc

open Slab Kernel

abbrev KMAX : ℕ := 2048
abbrev KMIN : ℕ := 8

/-! ## Sizes -/

def up2pow (n : ℕ) : ℕ :=
  let n := (n + (2 ^ 64 - 1)) % 2 ^ 64
  let n := n ||| n >>> 1
  let n := n ||| n >>> 2
  let n := n ||| n >>> 4
  let n := n ||| n >>> 8
  let n := n ||| n >>> 16
  let n := n ||| n >>> 32
  (n + 1) % 2 ^ 64

def isPow2 (n : ℕ) : Bool := decide (n > 0 ∧ n &&& (n - 1) = 0)

def getPages (rsz : ℕ) : ℕ := max 1 ((rsz + PAGESIZE - 1) % 2 ^ 64 / PAGESIZE)

/-- `rsz` of `malloc`. -/
def roundedSize (sz : ℕ) : ℕ := max (up2pow sz) KMIN

/-! ## The caches -/

/-- The members of `SlubMalloc` that are slabs. -/
inductive Cache where
  | slub8
  | slub16
  | slub32
  | slub64
  | slub128
  | slub256
  | slub512
  | slub1024
  | records
  deriving DecidableEq, Repr

/-- The size of the objects; an `AllocRecord` has two words and a list head. -/
def Cache.size : Cache → ℕ
  | .slub8 => 8
  | .slub16 => 16
  | .slub32 => 32
  | .slub64 => 64
  | .slub128 => 128
  | .slub256 => 256
  | .slub512 => 512
  | .slub1024 => 1024
  | .records => 32

/-- The log of the alignment: that of `char`, and that of a pointer. -/
def Cache.alignLog : Cache → ℕ
  | .records => 3
  | _ => 0

/-- The type of the objects. -/
def Cache.cls (k : Cache) : SlabClass where
  rawSize := k.size
  rawAlign := 2 ^ k.alignLog
  align_pow := ⟨_, rfl⟩
  size_dvd := by cases k <;> decide
  size_pos := by cases k <;> decide
  size_lt := by cases k <;> decide

/-- The caches that the switches on the size name. -/
def sizedCaches : List Cache :=
  [.slub8, .slub16, .slub32, .slub64, .slub128, .slub256, .slub512, .slub1024]

def cacheOfSize (sz : ℕ) : Option Cache := sizedCaches.find? fun k => decide (k.size = sz)

def containsSmallSize (sz : ℕ) : Bool := (cacheOfSize sz).isSome || decide (sz = 2048)

/-! ## The state -/

/-- `AllocRecord`, with its address. -/
structure AllocRecord where
  addr : ℕ
  ptr : ℕ
  size : ℕ
  deriving DecidableEq, Repr

/-- `SlubMalloc`, with the page allocator and the memory. -/
structure Heap (F : Type) where
  frames : F
  header : ℕ → SlabHeader
  word : ℕ → ℕ
  caches : Cache → SlabState → List ℕ
  records : List AllocRecord

section Operations

variable {F α : Type}

/-- One of the slabs. -/
def Heap.slub (h : Heap F) (k : Cache) : Slub F := ⟨h.frames, h.header, h.word, h.caches k⟩

def Heap.setSlub (h : Heap F) (k : Cache) (s : Slub F) : Heap F :=
  ⟨s.frames, s.header, s.word, Function.update h.caches k s.lists, h.records⟩

/-- Code of one of the slabs. -/
def onCache (k : Cache) (x : Kernel (Slub F) α) : Kernel (Heap F) α := fun h => do
  let (r, s) ← x (h.slub k)
  pure (r, h.setSlub k s)

variable (P : PageAllocator F)

/-- `GFP::get_free_page`, as an address of the kernel; `none` is `nullptr`. -/
def takePages (n : ℕ) : Kernel (Heap F) (Option ℕ) := do
  let h ← get
  let (res, frames) ← ofHalt (P.getFreePage h.frames n)
  modify fun h => { h with frames := frames }
  match res with
  | .error _ => pure none
  | .ok paddr => pure (some (paddr + KPA_OFFSET))

/-- `GFP::put_page`, of an address of the kernel. -/
def givePages (ptr n : ℕ) : Kernel (Heap F) Unit := do
  let h ← get
  let frames ← ofHalt (P.putPages h.frames (ptr - KPA_OFFSET) n)
  modify fun h => { h with frames := frames }

def largeMalloc (rsz : ℕ) : Kernel (Heap F) (Option ℕ) :=
  if !isPow2 rsz then halt .assertFailed else takePages P (getPages rsz)

/-- `small_malloc`; objects of 2048 bytes have the template of large objects, with one page. -/
def smallMalloc (rsz : ℕ) : Kernel (Heap F) (Option ℕ) :=
  if !containsSmallSize rsz then halt .assertFailed
  else match cacheOfSize rsz with
    | some k => onCache k (alloc k.cls P.toFrameAllocator)
    | none => if rsz = 2048 then takePages P 1 else pure none

/-- The block of `malloc`. -/
def allocBlock (rsz : ℕ) : Kernel (Heap F) (Option ℕ) :=
  if rsz ≥ KMAX then largeMalloc P rsz else smallMalloc P rsz

def freeInner (ptr rsz : ℕ) : Kernel (Heap F) Unit :=
  if rsz ≥ KMAX then givePages P ptr (getPages rsz)
  else if !containsSmallSize rsz then halt .assertFailed
  else match cacheOfSize rsz with
    | some k => onCache k (Slab.free ptr)
    | none => if rsz = 2048 then givePages P ptr 1 else pure ()

/-- `operator new` of `AllocRecord`. -/
def newRecord : Kernel (Heap F) (Option ℕ) :=
  onCache .records (alloc Cache.records.cls P.toFrameAllocator)

/-- `add_record`.  A record that was just constructed is in no list, so `insert` takes it. -/
def addRecord (ptr rsz : ℕ) : Kernel (Heap F) Bool := do
  match ← newRecord P with
  | none => halt .undefined
  | some addr => do
      modify fun h => { h with records := h.records ++ [⟨addr, ptr, rsz⟩] }
      pure true

def Heap.getRecord (h : Heap F) (ptr : ℕ) : Option AllocRecord :=
  h.records.find? fun r => decide (r.ptr = ptr)

def removeRecord (r : AllocRecord) : Kernel (Heap F) Unit := do
  modify fun h => { h with records := h.records.eraseP fun r' => decide (r'.addr = r.addr) }
  onCache .records (Slab.free r.addr)

/-- `malloc`; `none` is `nullptr`. -/
def malloc (sz : ℕ) : Kernel (Heap F) (Option ℕ) := do
  let rsz := roundedSize sz
  if !(containsSmallSize rsz || decide (rsz ≥ KMAX)) then halt .assertFailed
  else do
    match ← allocBlock P rsz with
    | none => pure none
    | some ptr => do
        let added ← addRecord P ptr rsz
        if !added then do
          freeInner P ptr rsz
          halt .assertFailed
        else pure (some ptr)

def free (ptr : ℕ) : Kernel (Heap F) Unit := do
  let h ← get
  match h.getRecord ptr with
  | none => pure ()
  | some r => do
      freeInner P ptr r.size
      removeRecord r

end Operations

/-! ## Rounding -/

/-- After the steps, a bit is set if there is a set bit at most `w` places above it. -/
theorem testBit_smear {m x w : ℕ} (h : ∀ i, x.testBit i = true ↔ ∃ j < w, m.testBit (i + j) = true)
    (i : ℕ) : (x ||| x >>> w).testBit i = true ↔ ∃ j < w + w, m.testBit (i + j) = true := by
  rw [Nat.testBit_or, Nat.testBit_shiftRight, Bool.or_eq_true, h, h]
  constructor
  · rintro (⟨j, hj, hbit⟩ | ⟨j, hj, hbit⟩)
    · exact ⟨j, by omega, hbit⟩
    · exact ⟨w + j, by omega, by rwa [show i + (w + j) = w + i + j by omega]⟩
  · rintro ⟨j, hj, hbit⟩
    by_cases hlt : j < w
    · exact Or.inl ⟨j, hlt, hbit⟩
    · exact Or.inr ⟨j - w, by omega, by rwa [show w + i + (j - w) = i + j by omega]⟩

/-- **`up2pow`**: the number before the sum is all ones, as long as the argument less one. -/
theorem up2pow_eq (n : ℕ) : up2pow n = 2 ^ Nat.size ((n + (2 ^ 64 - 1)) % 2 ^ 64) % 2 ^ 64 := by
  unfold up2pow
  dsimp only
  set m := (n + (2 ^ 64 - 1)) % 2 ^ 64 with hm
  have hlt : m < 2 ^ 64 := Nat.mod_lt _ (by decide)
  have h0 : ∀ i, m.testBit i = true ↔ ∃ j < 1, m.testBit (i + j) = true := by
    intro i
    constructor
    · intro h
      exact ⟨0, by omega, h⟩
    · rintro ⟨j, hj, h⟩
      obtain rfl : j = 0 := by omega
      exact h
  have hbits := testBit_smear (testBit_smear (testBit_smear (testBit_smear (testBit_smear
    (testBit_smear h0)))))
  have hones : ∀ x : ℕ, (∀ i, x.testBit i = true ↔ ∃ j < 64, m.testBit (i + j) = true) →
      x = 2 ^ m.size - 1 := by
    intro x hx
    apply Nat.eq_of_testBit_eq
    intro i
    rw [Nat.testBit_two_pow_sub_one, Bool.eq_iff_iff, hx i, decide_eq_true_iff, Nat.lt_size]
    constructor
    · rintro ⟨j, -, hbit⟩
      exact (Nat.pow_le_pow_right two_pos (Nat.le_add_right i j)).trans (Nat.ge_two_pow_of_testBit hbit)
    · intro hle
      obtain ⟨j, hj, hbit⟩ := Nat.exists_ge_and_testBit_of_ge_two_pow hle
      have hj64 : j < 64 :=
        (Nat.pow_lt_pow_iff_right (by decide)).mp ((Nat.ge_two_pow_of_testBit hbit).trans_lt hlt)
      exact ⟨j - i, by omega, by rwa [Nat.add_sub_cancel' hj]⟩
  rw [hones _ hbits]
  rw [Nat.sub_add_cancel (Nat.two_pow_pos m.size)]

/-- The power of two at or above a request that is not too large. -/
theorem up2pow_of_le {n : ℕ} (hpos : 0 < n) (hle : n ≤ 2 ^ 63) :
    ∃ k ≤ 63, up2pow n = 2 ^ k ∧ n ≤ 2 ^ k := by
  have hm : (n + (2 ^ 64 - 1)) % 2 ^ 64 = n - 1 := by omega
  have hsize : Nat.size (n - 1) ≤ 63 := Nat.size_le.mpr (by omega)
  have hlt : 2 ^ Nat.size (n - 1) < 2 ^ 64 := Nat.pow_lt_pow_right (by decide) (by omega)
  have hself := Nat.lt_size_self (n - 1)
  refine ⟨Nat.size (n - 1), hsize, ?_, by omega⟩
  rw [up2pow_eq, hm, Nat.mod_eq_of_lt hlt]

/-- A larger request wraps around, like the request for nothing. -/
theorem up2pow_of_gt {n : ℕ} (h : n = 0 ∨ 2 ^ 63 < n) (hlt : n < 2 ^ 64) : up2pow n = 0 := by
  have hm : 2 ^ 63 ≤ (n + (2 ^ 64 - 1)) % 2 ^ 64 := by omega
  have hsize : Nat.size ((n + (2 ^ 64 - 1)) % 2 ^ 64) = 64 :=
    le_antisymm (Nat.size_le.mpr (Nat.mod_lt _ (by decide))) (Nat.lt_size.mpr hm)
  rw [up2pow_eq, hsize, Nat.mod_self]

/-- **Rounding**: a power of two between `KMIN` and `2^63`, not below the request unless this is
above `2^63`. -/
theorem roundedSize_spec {sz : ℕ} (hlt : sz < 2 ^ 64) :
    (∃ k ≤ 63, roundedSize sz = 2 ^ k) ∧ 8 ≤ roundedSize sz ∧
      (sz ≤ roundedSize sz ↔ sz ≤ 2 ^ 63) := by
  unfold roundedSize
  by_cases hin : 0 < sz ∧ sz ≤ 2 ^ 63
  · obtain ⟨k, hk, heq, hle⟩ := up2pow_of_le hin.1 hin.2
    rw [heq]
    refine ⟨?_, le_max_right _ _, fun _ => hin.2, fun _ => hle.trans (le_max_left _ _)⟩
    rcases le_total k 3 with h3 | h3
    · refine ⟨3, by decide, max_eq_right ?_⟩
      exact Nat.pow_le_pow_right two_pos h3
    · refine ⟨k, hk, max_eq_left ?_⟩
      exact Nat.pow_le_pow_right two_pos h3
  · have hzero := up2pow_of_gt (n := sz) (by omega) hlt
    rw [hzero]
    refine ⟨⟨3, by decide, rfl⟩, le_max_right _ _, ?_⟩
    show sz ≤ 8 ↔ _
    omega

theorem isPow2_two_pow (k : ℕ) : isPow2 (2 ^ k) = true := by
  unfold isPow2
  rw [decide_eq_true_iff, Nat.and_two_pow_sub_one_eq_mod, Nat.mod_self]
  exact ⟨Nat.two_pow_pos k, rfl⟩

theorem cacheOfSize_two_pow {k : ℕ} (hlow : 8 ≤ 2 ^ k) (hhigh : 2 ^ k < KMAX) :
    ∃ c, cacheOfSize (2 ^ k) = some c := by
  have hk3 : 3 ≤ k := (Nat.pow_le_pow_iff_right (a := 2) (by decide)).mp hlow
  have hk11 : k < 11 := (Nat.pow_lt_pow_iff_right (a := 2) (by decide)).mp hhigh
  interval_cases k
  all_goals exact ⟨_, rfl⟩

theorem cacheOfSize_eq_some {sz : ℕ} {k : Cache} (h : cacheOfSize sz = some k) :
    k ≠ .records ∧ k.size = sz := by
  have hmem := List.mem_of_find?_eq_some h
  have hsize := List.find?_some h
  refine ⟨?_, of_decide_eq_true hsize⟩
  rintro rfl
  revert hmem
  decide

theorem cacheOfSize_size {k : Cache} (h : k ≠ .records) : cacheOfSize k.size = some k := by
  cases k with
  | records => exact absurd rfl h
  | _ => rfl

/-- The pages of a run have room for the block. -/
theorem le_getPages {rsz : ℕ} (hle : rsz ≤ 2 ^ 63) : rsz ≤ getPages rsz * PAGESIZE := by
  unfold getPages
  have hpage : PAGESIZE = 4096 := rfl
  rw [Nat.mod_eq_of_lt (by omega)]
  have hroom : rsz ≤ (rsz + PAGESIZE - 1) / PAGESIZE * PAGESIZE := by
    show rsz ≤ (rsz + 4096 - 1) / 4096 * 4096
    omega
  exact hroom.trans (Nat.mul_le_mul_right PAGESIZE (le_max_right _ _))

theorem getPages_pos (rsz : ℕ) : 0 < getPages rsz :=
  lt_of_lt_of_le one_pos (le_max_left _ _)

end Sustcore.SlubMalloc
