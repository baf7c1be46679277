/-
# Numbers and bits in byte buffers

On a disk numbers are stored with their least significant byte first, and bitmaps with eight
bits a byte.  `readLe` and `writeLe` are the two accesses to a number of `w` bytes at an offset;
by `readLe_leBytes` the bytes of a number give the number, up to the width.

A `Buf` is a vector of bytes, whose accesses check its length.
-/
import Mathlib

namespace Sustcore

open Function

/-! ## Numbers -/

/-- The number of `w` bytes at an offset. -/
def readLe (f : ℕ → UInt8) : ℕ → ℕ → ℕ
  | 0, _ => 0
  | w + 1, off => (f off).toNat + 256 * readLe f w (off + 1)

/-- The low `w` bytes of a number are put to an offset. -/
def writeLe (w off v : ℕ) (f : ℕ → UInt8) : ℕ → UInt8 := fun k =>
  if off ≤ k ∧ k < off + w then UInt8.ofNat (v / 256 ^ (k - off)) else f k

variable {f f' : ℕ → UInt8} {w off v off' : ℕ}

theorem readLe_congr
    (h : ∀ k, k < w → f (off + k) = f' (off' + k)) : readLe f w off = readLe f' w off' := by
  induction w generalizing off off' with
  | zero => rfl
  | succ w ih =>
    have hhead : f off = f' off' := h 0 (by omega)
    rw [readLe, readLe, hhead, ih]
    intro k hk
    have := h (k + 1) (by omega)
    rwa [show off + 1 + k = off + (k + 1) by omega, show off' + 1 + k = off' + (k + 1) by omega]

/-- The digits of a number to the base 256 give the number. -/
theorem readLe_of_digits (h : ∀ k, k < w → f (off + k) = UInt8.ofNat (v / 256 ^ k)) :
    readLe f w off = v % 256 ^ w := by
  induction w generalizing off v with
  | zero => rw [readLe, pow_zero, Nat.mod_one]
  | succ w ih =>
    have hhead : (f off).toNat = v % 256 := by
      have h0 := h 0 (by omega)
      rw [Nat.add_zero, pow_zero, Nat.div_one] at h0
      rw [h0, UInt8.toNat_ofNat']
    have htail : readLe f w (off + 1) = v / 256 % 256 ^ w := by
      apply ih
      intro k hk
      have hk' := h (k + 1) (by omega)
      rw [show off + 1 + k = off + (k + 1) by omega, hk', pow_succ', Nat.div_div_eq_div_mul]
    rw [readLe, hhead, htail, pow_succ', Nat.mod_mul]

/-- The `w` bytes of a number, the lowest first. -/
def leBytes (w v : ℕ) : List UInt8 := (List.range w).map fun i => UInt8.ofNat (v / 256 ^ i)

@[simp] theorem length_leBytes (w v : ℕ) : (leBytes w v).length = w := by
  simp [leBytes]

/-- The bytes of a number give the number, up to the width. -/
theorem readLe_leBytes (w v : ℕ) : readLe (fun i => (leBytes w v).getD i 0) w 0 = v % 256 ^ w := by
  apply readLe_of_digits
  intro k hk
  simp [leBytes, hk]

/-! ## Bits -/

/-- The bit `i` of a bitmap. -/
def bitAt (f : ℕ → UInt8) (i : ℕ) : Bool := (f (i / 8)).toNat.testBit (i % 8)

/-- The bit `i` is set. -/
def setBitAt (i : ℕ) (f : ℕ → UInt8) : ℕ → UInt8 :=
  update f (i / 8) (UInt8.ofNat ((f (i / 8)).toNat ||| 2 ^ (i % 8)))

/-- The bit `i` is cleared. -/
def clearBitAt (i : ℕ) (f : ℕ → UInt8) : ℕ → UInt8 :=
  update f (i / 8) (UInt8.ofNat ((f (i / 8)).toNat &&& (255 ^^^ 2 ^ (i % 8))))

/-! ## Buffers -/

/-- A `std::vector<byte>`.  What `byte` says from the length on has no meaning. -/
structure Buf where
  size : ℕ
  byte : ℕ → UInt8

namespace Buf

def zeros (n : ℕ) : Buf := ⟨n, fun _ => 0⟩

def ofList (bytes : List UInt8) : Buf := ⟨bytes.length, fun k => bytes.getD k 0⟩

def sub (b : Buf) (off len : ℕ) : Buf := ⟨len, fun k => b.byte (off + k)⟩

/-- `memcpy` of some bytes to an offset. -/
def copy (b : Buf) (off : ℕ) (src : Buf) : Buf :=
  { b with byte := fun k => if off ≤ k ∧ k < off + src.size then src.byte (k - off) else b.byte k }

/-- `memset` of some bytes to zero. -/
def clear (b : Buf) (off len : ℕ) : Buf := b.copy off (zeros len)

def readLeAt (b : Buf) (w off : ℕ) : ℕ := if off + w ≤ b.size then readLe b.byte w off else 0

def writeLeAt (b : Buf) (w off v : ℕ) : Buf :=
  if off + w ≤ b.size then { b with byte := writeLe w off v b.byte } else b

end Buf

end Sustcore
