/-
# Ticks and times (`include/sus/units.h`)

A frequency is a number of millihertz and a time a number of nanoseconds, both in words of 64 bits.
`time * frequency` forms the product before it divides by 10¹², and the product is a word;
`count / frequency` multiplies the count by the whole nanoseconds of a tick, and drops the rest of
every tick.

`clock_conversions` says for which inputs the results are off by less than one unit, and what
follows from that for a time that is converted to ticks and back.
-/
import Mathlib

namespace Sustcore.Units

def NANOSECONDS_PER_MILLIHERTZ : BitVec 64 := 1000000000000

/-- `time * frequency`, a number of ticks. -/
def timeMulFrequency (nanoseconds milihertz : BitVec 64) : BitVec 64 :=
  nanoseconds * milihertz / NANOSECONDS_PER_MILLIHERTZ

/-- `count / frequency`, a number of nanoseconds. -/
def countDivFrequency (count milihertz : BitVec 64) : BitVec 64 :=
  count * (NANOSECONDS_PER_MILLIHERTZ / milihertz)

/-- The signed word is less than one unit away from the fraction. -/
def Rounds (result : BitVec 64) (num den : ℕ) : Prop :=
  |result.toInt * den - num| < den

/-- The fraction is below 2⁶³. -/
def Fits (num den : ℕ) : Prop := num < 2 ^ 63 * den

instance (num den : ℕ) : Decidable (Fits num den) := inferInstanceAs (Decidable (_ < _))

section Conversions

variable {count ns f : BitVec 64}

theorem timeMulFrequency_toNat (ns f : BitVec 64) :
    (timeMulFrequency ns f).toNat = ns.toNat * f.toNat % 2 ^ 64 / 10 ^ 12 := by
  rfl

/-- The ticks of a time are a small number, also where the product wraps. -/
theorem timeMulFrequency_toInt (ns f : BitVec 64) :
    (timeMulFrequency ns f).toInt = (ns.toNat * f.toNat % 2 ^ 64 / 10 ^ 12 : ℕ) := by
  rw [← timeMulFrequency_toNat, BitVec.toInt_eq_toNat_of_lt]
  rw [timeMulFrequency_toNat]
  omega

/-- The product of a count that fits does not wrap. -/
theorem countDivFrequency_toInt (hfits : Fits (count.toNat * 10 ^ 12) f.toNat) :
    (countDivFrequency count f).toInt = (count.toNat * (10 ^ 12 / f.toNat) : ℕ) := by
  have hlt : count.toNat * (10 ^ 12 / f.toNat) < 2 ^ 63 := by
    refine lt_of_mul_lt_mul_right (a := f.toNat) ?_ (Nat.zero_le _)
    calc count.toNat * (10 ^ 12 / f.toNat) * f.toNat
        = count.toNat * (10 ^ 12 / f.toNat * f.toNat) := by ring
      _ ≤ count.toNat * 10 ^ 12 := Nat.mul_le_mul_left _ (Nat.div_mul_le_self _ _)
      _ < 2 ^ 63 * f.toNat := hfits
  have hnat : (countDivFrequency count f).toNat = count.toNat * (10 ^ 12 / f.toNat) := by
    exact Nat.mod_eq_of_lt (show count.toNat * (10 ^ 12 / f.toNat) < 2 ^ 64 by omega)
  rw [BitVec.toInt_eq_toNat_of_lt (by omega), hnat]

theorem rest_of_ticks (count f : ℕ) :
    count * (10 ^ 12 / f) * f + count * (10 ^ 12 % f) = count * 10 ^ 12 := by
  calc count * (10 ^ 12 / f) * f + count * (10 ^ 12 % f)
      = count * (f * (10 ^ 12 / f) + 10 ^ 12 % f) := by ring
    _ = count * 10 ^ 12 := by rw [Nat.div_add_mod]

/-- **Ticks to time** is right as long as the rests do not add up to a nanosecond. -/
theorem countDivFrequency_rounds (hfits : Fits (count.toNat * 10 ^ 12) f.toNat) :
    Rounds (countDivFrequency count f) (count.toNat * 10 ^ 12) f.toNat ↔
      count.toNat * (10 ^ 12 % f.toNat) < f.toNat := by
  have hrest := rest_of_ticks count.toNat f.toNat
  unfold Rounds
  rw [countDivFrequency_toInt hfits, abs_lt]
  generalize count.toNat * (10 ^ 12 % f.toNat) = rest at *
  zify at hrest ⊢
  constructor
  · intro h
    linarith [h.1]
  · intro h
    constructor
    · linarith
    · linarith

/-- **Time to ticks** is right as long as the product is a word: a product that wraps is off by
millions of ticks. -/
theorem timeMulFrequency_rounds (ns f : BitVec 64) :
    Rounds (timeMulFrequency ns f) (ns.toNat * f.toNat) (10 ^ 12) ↔
      ns.toNat * f.toNat < 2 ^ 64 := by
  unfold Rounds
  rw [timeMulFrequency_toInt, abs_lt]
  omega

theorem timeMulFrequency_mono {ns' : BitVec 64} (hle : ns.toNat ≤ ns'.toNat)
    (hword : ns'.toNat * f.toNat < 2 ^ 64) :
    (timeMulFrequency ns f).toInt ≤ (timeMulFrequency ns' f).toInt := by
  have hmul := Nat.mul_le_mul_right f.toNat hle
  rw [timeMulFrequency_toInt, timeMulFrequency_toInt, Nat.mod_eq_of_lt hword,
    Nat.mod_eq_of_lt (hmul.trans_lt hword)]
  exact_mod_cast Nat.div_le_div_right hmul

theorem countDivFrequency_mono {count' : BitVec 64} (hle : count.toNat ≤ count'.toNat)
    (hfits : Fits (count'.toNat * 10 ^ 12) f.toNat) :
    (countDivFrequency count f).toInt ≤ (countDivFrequency count' f).toInt := by
  have hfits' : Fits (count.toNat * 10 ^ 12) f.toNat := (Nat.mul_le_mul_right _ hle).trans_lt hfits
  rw [countDivFrequency_toInt hfits, countDivFrequency_toInt hfits']
  exact_mod_cast Nat.mul_le_mul_right _ hle

theorem ticks_and_back (hns : ns.toNat < 2 ^ 63) (hf : f.toNat ≤ 10 ^ 12)
    (hword : ns.toNat * f.toNat < 2 ^ 64)
    (hrest : (timeMulFrequency ns f).toNat * (10 ^ 12 % f.toNat) < f.toNat) :
    |((countDivFrequency (timeMulFrequency ns f) f).toInt - ns.toNat) * f.toNat| < 2 * 10 ^ 12 := by
  set k := timeMulFrequency ns f with hk
  have hticks : k.toNat = ns.toNat * f.toNat / 10 ^ 12 := by
    rw [timeMulFrequency_toNat, Nat.mod_eq_of_lt hword]
  have hdiv := Nat.div_add_mod (ns.toNat * f.toNat) (10 ^ 12)
  have hmod := Nat.mod_lt (ns.toNat * f.toNat) (show 0 < 10 ^ 12 by norm_num)
  have hfits : Fits (k.toNat * 10 ^ 12) f.toNat := by
    unfold Fits
    have hmul := Nat.mul_lt_mul_of_pos_right hns (show 0 < f.toNat by omega)
    omega
  have hparts := rest_of_ticks k.toNat f.toNat
  rw [countDivFrequency_toInt hfits, abs_lt]
  generalize k.toNat * (10 ^ 12 % f.toNat) = rest at *
  generalize ns.toNat * f.toNat % 10 ^ 12 = part at *
  zify at *
  constructor
  · linarith
  · linarith

end Conversions

/-- **The conversions of the clock.**  Ticks to time is right where the rests of the ticks stay
below one nanosecond, time to ticks where the product is a word, and nowhere else.  There, both
are monotone, and a time that is converted to ticks and back loses less than two ticks. -/
theorem clock_conversions (f : BitVec 64) :
    (∀ count : BitVec 64, Fits (count.toNat * 10 ^ 12) f.toNat →
      (Rounds (countDivFrequency count f) (count.toNat * 10 ^ 12) f.toNat ↔
        count.toNat * (10 ^ 12 % f.toNat) < f.toNat)) ∧
    (∀ ns : BitVec 64, 0 ≤ ns.toInt → Fits (ns.toNat * f.toNat) (10 ^ 12) →
      (Rounds (timeMulFrequency ns f) (ns.toNat * f.toNat) (10 ^ 12) ↔
        ns.toNat * f.toNat < 2 ^ 64)) ∧
    (∀ count count' : BitVec 64, count.toNat ≤ count'.toNat →
      Fits (count'.toNat * 10 ^ 12) f.toNat →
      (countDivFrequency count f).toInt ≤ (countDivFrequency count' f).toInt) ∧
    (∀ ns ns' : BitVec 64, ns.toNat ≤ ns'.toNat → ns'.toNat * f.toNat < 2 ^ 64 →
      (timeMulFrequency ns f).toInt ≤ (timeMulFrequency ns' f).toInt) ∧
    ∀ ns : BitVec 64, ns.toNat < 2 ^ 63 → f.toNat ≤ 10 ^ 12 → ns.toNat * f.toNat < 2 ^ 64 →
      (timeMulFrequency ns f).toNat * (10 ^ 12 % f.toNat) < f.toNat →
      |((countDivFrequency (timeMulFrequency ns f) f).toInt - ns.toNat) * f.toNat| <
        2 * 10 ^ 12 := by
  refine ⟨fun _ hfits => countDivFrequency_rounds hfits, fun ns _ _ => ?_, ?_, ?_, ?_⟩
  · exact timeMulFrequency_rounds ns f
  · exact fun _ _ hle hfits => countDivFrequency_mono hle hfits
  · exact fun _ _ hle hword => timeMulFrequency_mono hle hword
  · exact fun _ hns hle hword hrest => ticks_and_back hns hle hword hrest

/-- All parts at 10 MHz, for a microsecond and two. -/
theorem clock_conversions_ten_megahertz :
    Rounds (countDivFrequency 10 10000000000) (10 * 10 ^ 12) 10000000000 ∧
    Rounds (timeMulFrequency 1000 10000000000) 10000000000000 (10 ^ 12) ∧
    (countDivFrequency 10 10000000000).toInt ≤ (countDivFrequency 20 10000000000).toInt ∧
    (timeMulFrequency 1000 10000000000).toInt ≤ (timeMulFrequency 2000 10000000000).toInt ∧
    |((countDivFrequency (timeMulFrequency 1000 10000000000) 10000000000).toInt - 1000) *
      10000000000| < 2 * 10 ^ 12 := by
  obtain ⟨hticks, htime, hmono, hmono', hback⟩ := clock_conversions 10000000000
  exact ⟨(hticks 10 (by decide)).mpr (by decide),
    (htime 1000 (by decide) (by decide)).mpr (by decide), hmono 10 20 (by decide) (by decide),
    hmono' 1000 2000 (by decide) (by decide),
    hback 1000 (by decide) (by decide) (by decide) (by decide)⟩

/-- At 10 MHz two seconds are 1553255 ticks, and at 3 Hz six ticks are two nanoseconds short. -/
theorem clock_conversions_off :
    Fits (2000000000 * 10000000000) (10 ^ 12) ∧
    timeMulFrequency 2000000000 10000000000 = 1553255 ∧
    ¬Rounds (timeMulFrequency 2000000000 10000000000) (2000000000 * 10000000000) (10 ^ 12) ∧
    Fits (6 * 10 ^ 12) 3000 ∧ countDivFrequency 6 3000 = 1999999998 ∧
    ¬Rounds (countDivFrequency 6 3000) (6 * 10 ^ 12) 3000 := by
  unfold Rounds
  decide

end Sustcore.Units
