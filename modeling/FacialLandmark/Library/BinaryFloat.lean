import Mathlib.Algebra.Field.Rat
import Mathlib.Algebra.Order.Field.Power
import Mathlib.Data.Nat.Log
import Mathlib.Tactic.FieldSimp
import Mathlib.Tactic.Linarith
import Mathlib.Tactic.Ring

/-!
# Binary floating-point numbers

A finite number is a sign, a significand below `2 ^ precision` and an exponent, and to each value
there is one such pair only: the significand has all its bits, or the exponent is the smallest there
is. `round` takes any `m * 2 ^ e` to the format, to nearest with ties to even. What the format has is
taken to itself, however it is written (`round_eq_finite`), so scaling by a power of two is exact as
long as the result is in the format, and taking a number apart and putting it together again gives
the number.

There is one `nan`: formats keep more than one apart, but nothing is said about them here.
-/

namespace BinaryFloat

structure Format where
  precision : ℕ
  emin : ℤ
  emax : ℤ
  precision_pos : 0 < precision
  emin_le_emax : emin ≤ emax

structure Canonical (f : Format) (m : ℕ) (e : ℤ) : Prop where
  lt : m < 2 ^ f.precision
  emin_le : f.emin ≤ e
  le_emax : e ≤ f.emax
  normal : 2 ^ (f.precision - 1) ≤ m ∨ e = f.emin

instance (f : Format) (m : ℕ) (e : ℤ) : Decidable (Canonical f m e) :=
  decidable_of_iff (m < 2 ^ f.precision ∧ f.emin ≤ e ∧ e ≤ f.emax ∧
      (2 ^ (f.precision - 1) ≤ m ∨ e = f.emin))
    ⟨fun h ↦ ⟨h.1, h.2.1, h.2.2.1, h.2.2.2⟩, fun h ↦ ⟨h.lt, h.emin_le, h.le_emax, h.normal⟩⟩

inductive Number (f : Format) where
  | nan
  | infinity (negative : Bool)
  | finite (negative : Bool) (m : ℕ) (e : ℤ) (h : Canonical f m e)
  deriving DecidableEq

theorem canonical_zero (f : Format) : Canonical f 0 f.emin :=
  ⟨Nat.two_pow_pos _, le_refl _, f.emin_le_emax, Or.inr rfl⟩

/-! ## Rounding -/

/-- `m / 2 ^ k` to nearest, ties to even. -/
def roundHalfEven (m k : ℕ) : ℕ :=
  let q := m / 2 ^ k
  let r := m % 2 ^ k
  if 2 * r < 2 ^ k ∨ (2 * r = 2 ^ k ∧ q % 2 = 0) then q else q + 1

theorem roundHalfEven_mul_two_pow (m k : ℕ) : roundHalfEven (m * 2 ^ k) k = m := by
  have hpos : 0 < 2 ^ k := Nat.two_pow_pos k
  rw [roundHalfEven, Nat.mul_mod_left, if_pos (Or.inl (by omega)), Nat.mul_div_cancel _ hpos]

variable {f : Format}

/-- The exponent that leaves `m * 2 ^ e` as many bits as there is room for. -/
def exponentOf (f : Format) (m : ℕ) (e : ℤ) : ℤ :=
  if m = 0 then f.emin else max (e + Nat.log2 m + 1 - f.precision) f.emin

/-- `m * 2 ^ e` in multiples of `2 ^ exponentOf f m e`. -/
def significandOf (f : Format) (m : ℕ) (e : ℤ) : ℕ :=
  roundHalfEven (m * 2 ^ (e - exponentOf f m e).toNat) (exponentOf f m e - e).toNat

/-- Rounding up may have used up the last significand. -/
def carried (f : Format) (q : ℕ) (e : ℤ) : ℕ × ℤ :=
  if q = 2 ^ f.precision then (2 ^ (f.precision - 1), e + 1) else (q, e)

/-- `m * 2 ^ e` in the format; what is too big becomes infinite. -/
def round (f : Format) (negative : Bool) (m : ℕ) (e : ℤ) : Number f :=
  let r := carried f (significandOf f m e) (exponentOf f m e)
  if h : Canonical f r.1 r.2 then .finite negative r.1 r.2 h else .infinity negative

theorem mul_two_pow_eq_of_value {m m' : ℕ} {e e' : ℤ}
    (h : (m : ℚ) * 2 ^ e = m' * 2 ^ e') :
    m * 2 ^ (e - e').toNat = m' * 2 ^ (e' - e).toNat := by
  have hcast : (m : ℚ) * 2 ^ ((e - e').toNat : ℤ) * 2 ^ (e' - ((e' - e).toNat : ℤ))
      = m' * 2 ^ ((e' - e).toNat : ℤ) * 2 ^ (e' - ((e' - e).toNat : ℤ)) := by
    rw [mul_assoc, mul_assoc, ← zpow_add₀ two_ne_zero, ← zpow_add₀ two_ne_zero,
      show ((e - e').toNat : ℤ) + (e' - ((e' - e).toNat : ℤ)) = e by omega,
      show ((e' - e).toNat : ℤ) + (e' - ((e' - e).toNat : ℤ)) = e' by omega]
    exact h
  have hpos : (2 : ℚ) ^ (e' - ((e' - e).toNat : ℤ)) ≠ 0 := zpow_ne_zero _ two_ne_zero
  have hcancel := mul_right_cancel₀ hpos hcast
  rw [zpow_natCast, zpow_natCast] at hcancel
  exact_mod_cast hcancel

theorem log2_mul_two_pow {m : ℕ} (hm : m ≠ 0) (k : ℕ) : Nat.log2 (m * 2 ^ k) = Nat.log2 m + k := by
  have hpos : 0 < 2 ^ k := Nat.two_pow_pos k
  rw [Nat.log2_eq_iff (Nat.mul_ne_zero hm hpos.ne'), pow_add, show Nat.log2 m + k + 1
    = Nat.log2 m + 1 + k by omega, pow_add]
  exact ⟨Nat.mul_le_mul_right _ (Nat.log2_self_le hm), Nat.mul_lt_mul_of_pos_right Nat.lt_log2_self hpos⟩

theorem exponentOf_eq_of_value {m m' : ℕ} {e e' : ℤ} (h : Canonical f m' e')
    (hvalue : (m : ℚ) * 2 ^ e = m' * 2 ^ e') : exponentOf f m e = e' := by
  have hnat := mul_two_pow_eq_of_value hvalue
  have hpos := Nat.two_pow_pos (e - e').toNat
  have hpos' := Nat.two_pow_pos (e' - e).toNat
  have hprec := f.precision_pos
  by_cases hm' : m' = 0
  · have hm : m = 0 := by
      rw [hm', Nat.zero_mul] at hnat
      exact (Nat.mul_eq_zero.mp hnat).resolve_right hpos.ne'
    rw [exponentOf, if_pos hm]
    rcases h.normal with hnormal | hmin
    · rw [hm'] at hnormal
      exact absurd hnormal (Nat.not_le.mpr (Nat.two_pow_pos _))
    · exact hmin.symm
  · have hm : m ≠ 0 := by
      rintro rfl
      rw [Nat.zero_mul] at hnat
      exact hm' ((Nat.mul_eq_zero.mp hnat.symm).resolve_right hpos'.ne')
    have hlog : e + Nat.log2 m = e' + Nat.log2 m' := by
      have hlogs := congrArg Nat.log2 hnat
      rw [log2_mul_two_pow hm, log2_mul_two_pow hm'] at hlogs
      omega
    have hlt : Nat.log2 m' < f.precision := (Nat.log2_lt hm').mpr h.lt
    have hemin := h.emin_le
    rw [exponentOf, if_neg hm]
    rcases h.normal with hnormal | hmin
    · have hle : f.precision - 1 ≤ Nat.log2 m' := (Nat.le_log2 hm').mpr hnormal
      omega
    · omega

/-- **Exactness.** A value of the format is taken to itself, whichever way it is written. -/
theorem round_eq_finite (negative : Bool) {m m' : ℕ} {e e' : ℤ} (h : Canonical f m' e')
    (hvalue : (m : ℚ) * 2 ^ e = m' * 2 ^ e') :
    round f negative m e = .finite negative m' e' h := by
  have hexponent := exponentOf_eq_of_value h hvalue
  have hsignificand : significandOf f m e = m' := by
    rw [significandOf, hexponent, mul_two_pow_eq_of_value hvalue, roundHalfEven_mul_two_pow]
  have hcarried : carried f (significandOf f m e) (exponentOf f m e) = (m', e') := by
    rw [carried, hsignificand, hexponent, if_neg h.lt.ne]
  rw [round]
  simp only [hcarried, h, dite_true]

/-! ## Integers and scaling -/

def ofInt (f : Format) (x : ℤ) : Number f := round f (x < 0) x.natAbs 0

/-- `x * 2 ^ k`. -/
def Number.ldexp : Number f → ℤ → Number f
  | .finite negative m e _, k => round f negative m (e + k)
  | x, _ => x

/-- The integers with no more bits than a significand are numbers of the format. -/
structure HasIntegers (f : Format) : Prop where
  emin_le : f.emin ≤ 1 - f.precision
  le_emax : 0 ≤ f.emax

theorem exists_canonical_of_lt (hf : HasIntegers f) {m : ℕ} (hm : m < 2 ^ f.precision) :
    ∃ m' e', Canonical f m' e' ∧ (m : ℚ) = m' * 2 ^ e' := by
  have hprec := f.precision_pos
  have hmin := hf.emin_le
  have hmax := hf.le_emax
  by_cases hzero : m = 0
  · exact ⟨0, f.emin, canonical_zero f, by rw [hzero, Nat.cast_zero, zero_mul]⟩
  · have hlog : Nat.log2 m < f.precision := (Nat.log2_lt hzero).mpr hm
    have hshift : Nat.log2 (m * 2 ^ (f.precision - 1 - Nat.log2 m)) = f.precision - 1 := by
      rw [log2_mul_two_pow hzero]
      omega
    have hne : m * 2 ^ (f.precision - 1 - Nat.log2 m) ≠ 0 :=
      Nat.mul_ne_zero hzero (Nat.two_pow_pos _).ne'
    refine ⟨m * 2 ^ (f.precision - 1 - Nat.log2 m), Nat.log2 m + 1 - f.precision,
      ⟨(Nat.log2_lt hne).mp (by omega), by omega, by omega, Or.inl ((Nat.le_log2 hne).mp (by omega))⟩,
      ?_⟩
    push_cast
    rw [mul_assoc, ← zpow_natCast, ← zpow_add₀ two_ne_zero]
    rw [show ((f.precision - 1 - Nat.log2 m : ℕ) : ℤ) + (Nat.log2 m + 1 - f.precision) = 0 by omega,
      zpow_zero, mul_one]

/-- **Scaling an integer** is exact if the integer has its bits and the result is in the format. -/
theorem ldexp_ofInt (hf : HasIntegers f) {x k : ℤ} {m : ℕ} {e : ℤ} (hx : x.natAbs < 2 ^ f.precision)
    (h : Canonical f m e) (hvalue : (x.natAbs : ℚ) * 2 ^ k = m * 2 ^ e) :
    (ofInt f x).ldexp k = .finite (x < 0) m e h := by
  obtain ⟨m', e', h', hvalue'⟩ := exists_canonical_of_lt hf hx
  have hinteger : (x.natAbs : ℚ) * 2 ^ (0 : ℤ) = m' * 2 ^ e' := by
    rw [zpow_zero, mul_one, hvalue']
  rw [ofInt, round_eq_finite _ h' hinteger, Number.ldexp]
  refine round_eq_finite _ h ?_
  rw [zpow_add₀ two_ne_zero, ← mul_assoc, ← hvalue', hvalue]

/-- `std::frexp`, with the fraction in units of `2 ^ -precision`. What is not finite has neither part. -/
def Number.frexp : Number f → ℤ × ℤ
  | .finite negative m e _ =>
    if m = 0 then (0, 0)
    else
      let fraction : ℤ := m * 2 ^ (f.precision - 1 - Nat.log2 m)
      (if negative then -fraction else fraction, e + Nat.log2 m + 1)
  | _ => (0, 0)

/-- The number without the sign of a zero. -/
def Number.unsignZero : Number f → Number f
  | .finite negative m e h => .finite (negative && m ≠ 0) m e h
  | x => x

/-- A fraction has at most the bits of a significand, and with the exponent it makes the number. -/
theorem Number.frexp_spec (negative : Bool) {m : ℕ} {e : ℤ} (h : Canonical f m e) :
    let d := (Number.finite negative m e h).frexp
    d.1.natAbs < 2 ^ f.precision ∧ (d.1 < 0 ↔ (negative && m ≠ 0) = true) ∧
      (d.1.natAbs : ℚ) * 2 ^ (d.2 - f.precision) = m * 2 ^ e := by
  have hprec := f.precision_pos
  simp only [frexp]
  by_cases hzero : m = 0
  · simp [hzero]
  · have hlog : Nat.log2 m < f.precision := (Nat.log2_lt hzero).mpr h.lt
    have hshift : Nat.log2 (m * 2 ^ (f.precision - 1 - Nat.log2 m)) = f.precision - 1 := by
      rw [log2_mul_two_pow hzero]
      omega
    have hne : m * 2 ^ (f.precision - 1 - Nat.log2 m) ≠ 0 :=
      Nat.mul_ne_zero hzero (Nat.two_pow_pos _).ne'
    have habs : (if negative = true then -((m : ℤ) * 2 ^ (f.precision - 1 - Nat.log2 m))
        else (m : ℤ) * 2 ^ (f.precision - 1 - Nat.log2 m)).natAbs
          = m * 2 ^ (f.precision - 1 - Nat.log2 m) := by
      have hcast : (m : ℤ) * 2 ^ (f.precision - 1 - Nat.log2 m)
          = ((m * 2 ^ (f.precision - 1 - Nat.log2 m) : ℕ) : ℤ) := by push_cast; rfl
      rw [hcast]
      split <;> omega
    have hpos : 0 < (m : ℤ) * 2 ^ (f.precision - 1 - Nat.log2 m) := by positivity
    rw [if_neg hzero]
    simp only [habs]
    refine ⟨(Nat.log2_lt hne).mp (by omega), ?_, ?_⟩
    · cases negative with
      | true => simp [hzero, hpos]
      | false => simp [hpos.le]
    · push_cast
      rw [mul_assoc, ← zpow_natCast, ← zpow_add₀ two_ne_zero]
      congr 2
      omega

/-! ## The formats of the C types -/

def binary32 : Format where
  precision := 24
  emin := -149
  emax := 104
  precision_pos := by decide
  emin_le_emax := by decide

abbrev Single := Number binary32

def binary64 : Format where
  precision := 53
  emin := -1074
  emax := 971
  precision_pos := by decide
  emin_le_emax := by decide

abbrev Double := Number binary64

theorem hasIntegers_binary32 : HasIntegers binary32 := ⟨by decide, by decide⟩

theorem hasIntegers_binary64 : HasIntegers binary64 := ⟨by decide, by decide⟩

end BinaryFloat
