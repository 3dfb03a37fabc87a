import Mathlib.Algebra.Order.Ring.Abs
import Mathlib.Data.Nat.Log
import Mathlib.Tactic.Ring

/-!
# Integers in a binary floating-point format

What conversion of an integer to a format with a `p`-bit significand does, away from the overflow
threshold: `excess p m` low bits have no room and are rounded away, to nearest with ties to even.
Everything is said about the integer value of the result, so no exponent has to be carried along.

The conversion is exact on the integers `q * 2 ^ e` with `q < 2 ^ p`, and on no others
(`roundSignificand_eq_self_iff`).
-/

namespace Significand

/-- How many low bits of `m` do not fit into `p` bits. -/
def excess (p m : ℕ) : ℕ := Nat.log2 m + 1 - p

/-- `m` rounded to `p` significant bits, to nearest, ties to even. -/
def roundSignificand (p m : ℕ) : ℕ :=
  let unit := 2 ^ excess p m
  let q := m / unit
  let r := m % unit
  if 2 * r < unit ∨ (2 * r = unit ∧ q % 2 = 0) then q * unit else (q + 1) * unit

def Representable (p m : ℕ) : Prop := ∃ q e, q < 2 ^ p ∧ m = q * 2 ^ e

theorem excess_le_of_lt {p q e : ℕ} (hq : q < 2 ^ p) (hpos : q ≠ 0) : excess p (q * 2 ^ e) ≤ e := by
  have hlt : q * 2 ^ e < 2 ^ (p + e) := by
    rw [pow_add]
    exact Nat.mul_lt_mul_of_pos_right hq (Nat.two_pow_pos e)
  have hlog : Nat.log2 (q * 2 ^ e) < p + e :=
    (Nat.log2_lt (Nat.mul_ne_zero hpos (Nat.two_pow_pos e).ne')).mpr hlt
  rw [excess]
  omega

theorem div_two_pow_excess_lt (p m : ℕ) : m / 2 ^ excess p m < 2 ^ p := by
  rw [Nat.div_lt_iff_lt_mul (Nat.two_pow_pos _), ← pow_add]
  calc m < 2 ^ (Nat.log2 m + 1) := Nat.lt_log2_self
    _ ≤ 2 ^ (p + excess p m) := Nat.pow_le_pow_right two_pos (by rw [excess]; omega)

theorem representable_iff_dvd {p m : ℕ} : Representable p m ↔ 2 ^ excess p m ∣ m := by
  constructor
  · rintro ⟨q, e, hq, rfl⟩
    by_cases hzero : q = 0
    · rw [hzero, Nat.zero_mul]
      exact Nat.dvd_zero _
    · exact (Nat.pow_dvd_pow 2 (excess_le_of_lt hq hzero)).trans (Nat.dvd_mul_left _ q)
  · intro hdvd
    exact ⟨m / 2 ^ excess p m, excess p m, div_two_pow_excess_lt p m,
      (Nat.div_mul_cancel hdvd).symm⟩

instance (p m : ℕ) : Decidable (Representable p m) :=
  decidable_of_iff _ representable_iff_dvd.symm

/-- **Exact conversion.** Rounding leaves exactly the values of the format alone. -/
theorem roundSignificand_eq_self_iff {p m : ℕ} :
    roundSignificand p m = m ↔ Representable p m := by
  rw [representable_iff_dvd, Nat.dvd_iff_mod_eq_zero, roundSignificand]
  have hunit : 0 < 2 ^ excess p m := Nat.two_pow_pos _
  generalize 2 ^ excess p m = unit at hunit ⊢
  have hsplit : m / unit * unit + m % unit = m := by
    rw [Nat.mul_comm]
    exact Nat.div_add_mod m unit
  have hrest : m % unit < unit := Nat.mod_lt m hunit
  constructor
  · intro hround
    split at hround
    · omega
    · -- rounding up is strictly above
      rw [Nat.add_mul, Nat.one_mul] at hround
      omega
  · intro hzero
    rw [if_pos (Or.inl (by omega))]
    omega

/-- The conversion of a signed integer: sign and magnitude. -/
def roundInt (p : ℕ) (x : ℤ) : ℤ := x.sign * roundSignificand p x.natAbs

theorem roundInt_eq_self_iff {p : ℕ} {x : ℤ} : roundInt p x = x ↔ Representable p x.natAbs := by
  rw [← roundSignificand_eq_self_iff, roundInt]
  rcases lt_trichotomy x 0 with hx | rfl | hx
  · rw [Int.sign_eq_neg_one_of_neg hx]
    omega
  · simp [roundSignificand]
  · rw [Int.sign_eq_one_of_pos hx]
    omega

end Significand
