/-
# Files as byte arrays

`ByteFile` is what a file is for: a size and a byte at every offset, zero from the size on.  A
write puts its bytes at an offset and makes the file large enough for them, so that a gap that
it leaves is zero; `truncate` cuts the file or makes it longer by zeros; a read returns what lies
below the size.

`slice` and `overlay` are the two operations on bytes: the list of some bytes, and some bytes
replaced by those of a list.
-/
import Mathlib

namespace Sustcore

open List

/-! ## Slices and overlays -/

/-- The `len` bytes at an offset. -/
def slice (f : ℕ → UInt8) (offset len : ℕ) : List UInt8 :=
  (range len).map fun k => f (offset + k)

def overlay (offset : ℕ) (bytes : List UInt8) (f : ℕ → UInt8) : ℕ → UInt8 := fun k =>
  if offset ≤ k ∧ k < offset + bytes.length then bytes.getD (k - offset) 0 else f k

@[simp]
theorem length_slice (f : ℕ → UInt8) (offset len : ℕ) : (slice f offset len).length = len := by
  simp [slice]

variable {f : ℕ → UInt8} {offset k len : ℕ}

theorem getD_slice (hk : k < len) : (slice f offset len).getD k 0 = f (offset + k) := by
  simp [slice, hk]

theorem slice_add (f : ℕ → UInt8) (offset m n : ℕ) :
    slice f offset m ++ slice f (offset + m) n = slice f offset (m + n) := by
  unfold slice
  rw [range_add, map_append, map_map]
  congr 1
  apply map_congr_left
  intro k _
  show f (offset + m + k) = f (offset + (m + k))
  rw [add_assoc]

theorem slice_congr {g : ℕ → UInt8} {offset' : ℕ}
    (h : ∀ k, k < len → f (offset + k) = g (offset' + k)) :
    slice f offset len = slice g offset' len := by
  apply map_congr_left
  intro k hk
  exact h k (mem_range.mp hk)

theorem overlay_nil (offset : ℕ) (f : ℕ → UInt8) : overlay offset [] f = f := by
  funext k
  unfold overlay
  rw [if_neg]
  simp only [length_nil]
  omega

variable {bytes : List UInt8}

theorem overlay_of_lt (hk : k < offset) : overlay offset bytes f k = f k := by
  unfold overlay
  rw [if_neg (by omega)]

theorem overlay_of_le (hk : offset + bytes.length ≤ k) : overlay offset bytes f k = f k := by
  unfold overlay
  rw [if_neg (by omega)]

theorem overlay_add (hk : k < bytes.length) :
    overlay offset bytes f (offset + k) = bytes.getD k 0 := by
  unfold overlay
  rw [if_pos ⟨by omega, by omega⟩, Nat.add_sub_cancel_left]

/-- The bytes are put in place in two parts. -/
theorem overlay_append (offset : ℕ) (xs ys : List UInt8) (f : ℕ → UInt8) :
    overlay (offset + xs.length) ys (overlay offset xs f) = overlay offset (xs ++ ys) f := by
  funext k
  by_cases hlow : k < offset
  · rw [overlay_of_lt (by omega), overlay_of_lt hlow, overlay_of_lt hlow]
  obtain ⟨j, rfl⟩ := Nat.exists_eq_add_of_le (Nat.not_lt.mp hlow)
  by_cases hxs : j < xs.length
  · have hmem : j < (xs ++ ys).length := by
      rw [length_append]
      omega
    rw [overlay_of_lt (by omega), overlay_add hxs, overlay_add hmem,
      getD_append _ _ _ _ hxs]
  · obtain ⟨i, rfl⟩ := Nat.exists_eq_add_of_le (Nat.not_lt.mp hxs)
    rw [← add_assoc]
    by_cases hys : i < ys.length
    · have hmem : xs.length + i < (xs ++ ys).length := by
        rw [length_append]
        omega
      rw [overlay_add hys, add_assoc, overlay_add hmem, getD_append_right _ _ _ _ (by omega),
        Nat.add_sub_cancel_left]
    · rw [overlay_of_le (by omega), overlay_of_le (by omega), overlay_of_le]
      rw [length_append]
      omega

/-! ## Byte files -/

/-- A file of `size` bytes. -/
@[ext]
structure ByteFile where
  size : ℕ
  byte : ℕ → UInt8
  zero : ∀ k, size ≤ k → byte k = 0

namespace ByteFile

def empty : ByteFile := ⟨0, fun _ => 0, fun _ _ => rfl⟩

/-- Up to `len` bytes at an offset. -/
def read (offset len : ℕ) (f : ByteFile) : List UInt8 :=
  slice f.byte offset (min len (f.size - offset))

def write (offset : ℕ) (bytes : List UInt8) (f : ByteFile) : ByteFile where
  size := max f.size (offset + bytes.length)
  byte := overlay offset bytes f.byte
  zero := by
    intro k hk
    rw [overlay_of_le (by omega)]
    exact f.zero k (by omega)

/-- The file is cut, or made longer by zeros. -/
def truncate (n : ℕ) (f : ByteFile) : ByteFile where
  size := n
  byte := fun k => if k < n then f.byte k else 0
  zero := by
    intro k hk
    rw [if_neg (by omega)]

theorem write_append (offset : ℕ) (xs ys : List UInt8) (f : ByteFile) :
    (f.write offset xs).write (offset + xs.length) ys = f.write offset (xs ++ ys) := by
  apply ByteFile.ext
  · show max (max f.size (offset + xs.length)) (offset + xs.length + ys.length) =
      max f.size (offset + (xs ++ ys).length)
    rw [length_append]
    omega
  · exact overlay_append offset xs ys f.byte

end ByteFile

end Sustcore
