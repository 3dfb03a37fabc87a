import Mathlib.Data.Int.Log
import Mathlib.Data.Rat.Floor
import FacialLandmark.Library.BinaryArith

/-!
# Rounding as a function on the rationals

`Format.nearest` takes a rational to the next number of the format, as if there were no largest one.
It is monotone, it is odd, it leaves alone what the format has, and it moves nothing further than half
of the last bit. An operation on finite numbers computes `nearest` of the exact result as long as this
stays below `Format.limit`; so what a program computes is the same expression on rationals with a
`nearest` around each operation, and `HasValue` carries this from operand to result.

Next to sums and products there are quotients, the conversion to another format, and the conversions
to an integer type, which have a value only if the integer is one of the type.
-/

namespace BinaryFloat

/-! ## The nearest integer -/

/-- Ties go to the even neighbour. -/
def roundEven (x : ℚ) : ℤ :=
  if 2 * (x - ⌊x⌋) < 1 ∨ (2 * (x - ⌊x⌋) = 1 ∧ ⌊x⌋ % 2 = 0) then ⌊x⌋ else ⌊x⌋ + 1

theorem roundEven_intCast (z : ℤ) : roundEven z = z := by
  rw [roundEven, Int.floor_intCast, sub_self, mul_zero, if_pos (Or.inl one_pos)]

theorem abs_roundEven_sub_le (x : ℚ) : |(roundEven x : ℚ) - x| ≤ 1 / 2 := by
  have hlow : (⌊x⌋ : ℚ) ≤ x := Int.floor_le x
  have hhigh : x < ⌊x⌋ + 1 := Int.lt_floor_add_one x
  rw [roundEven, abs_le]
  split
  case isTrue h =>
    have hhalf : 2 * (x - ⌊x⌋) ≤ 1 := by
      rcases h with h | ⟨h, -⟩
      · exact h.le
      · exact h.le
    constructor <;> linarith
  case isFalse h =>
    have hhalf : 1 ≤ 2 * (x - ⌊x⌋) := not_lt.mp fun hlt ↦ h (Or.inl hlt)
    push_cast
    constructor <;> linarith

theorem roundEven_mono {x y : ℚ} (h : x ≤ y) : roundEven x ≤ roundEven y := by
  have hfloor : ⌊x⌋ ≤ ⌊y⌋ := Int.floor_le_floor h
  have hlow : ⌊y⌋ ≤ roundEven y := by
    rw [roundEven]
    split <;> omega
  have hhigh : roundEven x ≤ ⌊x⌋ + 1 := by
    rw [roundEven]
    split <;> omega
  rcases hfloor.lt_or_eq with hlt | heq
  · omega
  · rw [roundEven, roundEven, heq]
    split
    case isTrue => split <;> omega
    case isFalse hx =>
      -- `y` is at least as far above the common floor
      have hy : ¬(2 * (y - ⌊y⌋) < 1 ∨ (2 * (y - ⌊y⌋) = 1 ∧ ⌊y⌋ % 2 = 0)) := by
        rintro (hlt | ⟨htie, heven⟩)
        · exact hx (Or.inl (by linarith))
        · rcases h.lt_or_eq with hlt | rfl
          · exact hx (Or.inl (by linarith))
          · exact hx (Or.inr ⟨htie, heven⟩)
      rw [if_neg hy]

theorem roundEven_neg (x : ℚ) : roundEven (-x) = -roundEven x := by
  have hlow : (⌊x⌋ : ℚ) ≤ x := Int.floor_le x
  have hhigh : x < ⌊x⌋ + 1 := Int.lt_floor_add_one x
  rcases hlow.eq_or_lt with heq | hlt
  · rw [← heq, ← Int.cast_neg, roundEven_intCast, roundEven_intCast]
  · have hfloor : ⌊-x⌋ = -⌊x⌋ - 1 := by
      rw [Int.floor_eq_iff]
      push_cast
      constructor <;> linarith
    rw [roundEven, roundEven, hfloor]
    push_cast
    rcases lt_trichotomy (2 * (x - ⌊x⌋)) 1 with h | h | h
    · rw [if_neg (by rintro (h' | ⟨h', -⟩) <;> linarith), if_pos (Or.inl h)]
      ring
    · by_cases heven : ⌊x⌋ % 2 = 0
      · rw [if_neg (by rintro (h' | ⟨-, h'⟩); · linarith
                       · omega), if_pos (Or.inr ⟨h, heven⟩)]
        ring
      · rw [if_pos (Or.inr ⟨by linarith, by omega⟩),
          if_neg (by rintro (h' | ⟨-, h'⟩); · linarith
                     · omega)]
        ring
    · rw [if_pos (Or.inl (by linarith)), if_neg (by rintro (h' | ⟨h', -⟩) <;> linarith)]
      ring

theorem roundHalfEven_eq_roundEven (m k : ℕ) :
    (roundHalfEven m k : ℤ) = roundEven ((m : ℚ) / 2 ^ k) := by
  have hpos : (0 : ℚ) < 2 ^ k := by positivity
  obtain ⟨q, hq⟩ : ∃ q, m / 2 ^ k = q := ⟨_, rfl⟩
  obtain ⟨r, hr⟩ : ∃ r, m % 2 ^ k = r := ⟨_, rfl⟩
  have hlt : r < 2 ^ k := hr ▸ Nat.mod_lt m (Nat.two_pow_pos k)
  have hlt' : (r : ℚ) / 2 ^ k < 1 := by
    rw [div_lt_one hpos]
    exact_mod_cast hlt
  have hdiv : (m : ℚ) / 2 ^ k = q + (r : ℚ) / 2 ^ k := by
    rw [add_div' _ _ _ hpos.ne', div_left_inj' hpos.ne', ← hq, ← hr]
    exact_mod_cast (Nat.div_add_mod' m (2 ^ k)).symm
  have hfloor : ⌊(q : ℚ) + (r : ℚ) / 2 ^ k⌋ = q := by
    rw [Int.floor_eq_iff]
    have hnonneg : (0 : ℚ) ≤ (r : ℚ) / 2 ^ k := by positivity
    push_cast
    constructor <;> linarith
  have hcond : 2 * ((r : ℚ) / 2 ^ k) < 1 ∨ (2 * ((r : ℚ) / 2 ^ k) = 1 ∧ (q : ℤ) % 2 = 0)
      ↔ 2 * r < 2 ^ k ∨ (2 * r = 2 ^ k ∧ q % 2 = 0) := by
    rw [mul_div_assoc', div_lt_one hpos, div_eq_one_iff_eq hpos.ne']
    refine or_congr (by exact_mod_cast Iff.rfl) (and_congr (by exact_mod_cast Iff.rfl) (by omega))
  rw [hdiv, roundEven, hfloor, Int.cast_natCast, add_sub_cancel_left, if_congr hcond rfl rfl,
    roundHalfEven, hq, hr]
  split <;> rfl

/-! ## The nearest number -/

/-- The exponent of the last bit of a number of the size of `v`. -/
def Format.exponent (f : Format) (v : ℚ) : ℤ :=
  if v = 0 then f.emin else max (Int.log 2 |v| + 1 - f.precision) f.emin

def Format.nearest (f : Format) (v : ℚ) : ℚ :=
  roundEven (v / 2 ^ f.exponent v) * 2 ^ f.exponent v

namespace Format

variable {f : Format}

@[simp] theorem exponent_neg (v : ℚ) : f.exponent (-v) = f.exponent v := by
  rw [exponent, exponent, abs_neg]
  simp only [neg_eq_zero]

theorem emin_le_exponent (v : ℚ) : f.emin ≤ f.exponent v := by
  rw [exponent]
  split
  · exact le_rfl
  · exact le_max_right _ _

theorem abs_lt_two_zpow (v : ℚ) : |v| < 2 ^ (f.exponent v + f.precision) := by
  rw [exponent]
  split
  case isTrue h =>
    rw [h, abs_zero]
    positivity
  case isFalse h =>
    have hlog : |v| < ((2 : ℕ) : ℚ) ^ (Int.log 2 |v| + 1) := Int.lt_zpow_succ_log_self one_lt_two |v|
    push_cast at hlog
    exact hlog.trans_le (zpow_le_zpow_right₀ one_le_two (by omega))

/-- Numbers that are not of the smallest size have all their bits. -/
theorem two_zpow_le_abs {v : ℚ} (h : f.emin < f.exponent v) :
    2 ^ (f.exponent v + f.precision - 1) ≤ |v| := by
  rw [exponent] at h ⊢
  split at h
  case isTrue => exact absurd h (lt_irrefl _)
  case isFalse hv =>
    have hlog : ((2 : ℕ) : ℚ) ^ Int.log 2 |v| ≤ |v| :=
      Int.zpow_log_le_self one_lt_two (abs_pos.mpr hv)
    push_cast at hlog
    rw [if_neg hv]
    exact (zpow_le_zpow_right₀ one_le_two (by omega)).trans hlog

theorem exponent_le {v : ℚ} {k : ℤ} (hk : f.emin ≤ k) (h : |v| < 2 ^ (k + f.precision)) :
    f.exponent v ≤ k := by
  by_contra hlt
  have hlow := two_zpow_le_abs (hk.trans_lt (not_le.mp hlt))
  have hpow : (2 : ℚ) ^ (k + f.precision) ≤ 2 ^ (f.exponent v + f.precision - 1) :=
    zpow_le_zpow_right₀ one_le_two (by omega)
  linarith

theorem nearest_neg (v : ℚ) : f.nearest (-v) = -f.nearest v := by
  rw [nearest, nearest, exponent_neg, neg_div, roundEven_neg, Int.cast_neg, neg_mul]

/-- **Exactness.** -/
theorem nearest_eq_self {j k : ℤ} {v : ℚ} (hv : v = j * 2 ^ k) (hk : f.emin ≤ k)
    (hj : |j| < 2 ^ f.precision) : f.nearest v = v := by
  have hlt : |v| < 2 ^ (k + f.precision) := by
    rw [hv, abs_mul, abs_of_pos (show (0 : ℚ) < 2 ^ k by positivity), zpow_add₀ two_ne_zero, mul_comm,
      zpow_natCast]
    refine mul_lt_mul_of_pos_left ?_ (by positivity)
    exact_mod_cast hj
  have hle := exponent_le hk hlt
  obtain ⟨e, he⟩ : ∃ e, f.exponent v = e := ⟨_, rfl⟩
  rw [he] at hle
  have hinteger : v / 2 ^ e = ((j * 2 ^ (k - e).toNat : ℤ) : ℚ) := by
    rw [div_eq_iff (by positivity), Number.mul_two_pow_of_le j hle, hv]
  rw [nearest, he, hinteger, roundEven_intCast, Number.mul_two_pow_of_le j hle, hv]

theorem nearest_zero : f.nearest 0 = 0 :=
  nearest_eq_self (j := 0) (k := f.emin) (by simp) le_rfl (by simp)

theorem nearest_two_zpow {k : ℤ} (hk : f.emin ≤ k) : f.nearest (2 ^ k) = 2 ^ k := by
  refine nearest_eq_self (j := 1) (k := k) (by simp) hk ?_
  rw [abs_one]
  exact one_lt_pow₀ one_lt_two f.precision_pos.ne'

theorem nearest_intCast (hf : HasIntegers f) {z : ℤ} (hz : |z| < 2 ^ f.precision) :
    f.nearest z = z := by
  have hprec := f.precision_pos
  have hmin := hf.emin_le
  exact nearest_eq_self (j := z) (k := 0) (by simp) (by omega) hz

/-- Nothing is moved further than half of the last bit. -/
theorem abs_nearest_sub_le_exponent (v : ℚ) : |f.nearest v - v| ≤ 2 ^ (f.exponent v - 1) := by
  have hpos : (0 : ℚ) < 2 ^ f.exponent v := by positivity
  have hsplit : f.nearest v - v
      = (roundEven (v / 2 ^ f.exponent v) - v / 2 ^ f.exponent v) * 2 ^ f.exponent v := by
    rw [nearest, sub_mul, div_mul_cancel₀ _ hpos.ne']
  rw [hsplit, abs_mul, abs_of_pos hpos, zpow_sub_one₀ two_ne_zero, mul_comm]
  refine mul_le_mul_of_nonneg_left ?_ hpos.le
  rw [inv_eq_one_div]
  exact abs_roundEven_sub_le _

/-- **The rounding error**, from a bound on the size. -/
theorem abs_nearest_sub_le {v : ℚ} {k : ℤ} (hk : f.emin ≤ k) (h : |v| ≤ 2 ^ (k + f.precision)) :
    |f.nearest v - v| ≤ 2 ^ (k - 1) := by
  rcases h.lt_or_eq with hlt | heq
  · have hle := exponent_le hk hlt
    exact (abs_nearest_sub_le_exponent v).trans (zpow_le_zpow_right₀ one_le_two (by omega))
  · -- a power of two is not moved at all
    have hexact : f.nearest v = v := by
      have hpow : f.nearest (2 ^ (k + f.precision)) = 2 ^ (k + f.precision) :=
        nearest_two_zpow (by omega)
      rcases (abs_eq (by positivity)).mp heq with rfl | rfl
      · exact hpow
      · rw [nearest_neg, hpow]
    rw [hexact, sub_self, abs_zero]
    positivity

/-- A significand is at most the power of two that is carried, -/
theorem roundEven_le (v : ℚ) : roundEven (v / 2 ^ f.exponent v) ≤ 2 ^ f.precision := by
  have hle : roundEven (v / 2 ^ f.exponent v) ≤ roundEven ((2 ^ f.precision : ℤ) : ℚ) := by
    refine roundEven_mono ?_
    rw [div_le_iff₀ (by positivity)]
    push_cast
    rw [← zpow_natCast, ← zpow_add₀ two_ne_zero, add_comm]
    exact (le_abs_self v).trans (abs_lt_two_zpow v).le
  rwa [roundEven_intCast] at hle

/-- and has all its bits unless the number is of the smallest size. -/
theorem le_roundEven {v : ℚ} (hv : 0 ≤ v) (h : f.emin < f.exponent v) :
    2 ^ (f.precision - 1) ≤ roundEven (v / 2 ^ f.exponent v) := by
  have hprec := f.precision_pos
  have hlow := two_zpow_le_abs h
  have hle : roundEven ((2 ^ (f.precision - 1) : ℤ) : ℚ) ≤ roundEven (v / 2 ^ f.exponent v) := by
    refine roundEven_mono ?_
    rw [abs_of_nonneg hv] at hlow
    rw [le_div_iff₀ (by positivity)]
    push_cast
    rwa [← zpow_natCast, ← zpow_add₀ two_ne_zero,
      show ((f.precision - 1 : ℕ) : ℤ) + f.exponent v = f.exponent v + f.precision - 1 by omega]
  rwa [roundEven_intCast] at hle

theorem nearest_mono_of_nonneg {v w : ℚ} (hv : 0 ≤ v) (h : v ≤ w) : f.nearest v ≤ f.nearest w := by
  have hpos : (0 : ℚ) < 2 ^ f.exponent v := by positivity
  have hpos' : (0 : ℚ) < 2 ^ f.exponent w := by positivity
  have hvw : f.exponent v ≤ f.exponent w := by
    refine exponent_le (emin_le_exponent w) ?_
    rw [abs_of_nonneg hv]
    exact h.trans_lt ((le_abs_self w).trans_lt (abs_lt_two_zpow w))
  rcases hvw.lt_or_eq with hlt | heq
  · -- between the two there is a power of two
    have hprec := f.precision_pos
    have hsmall : f.nearest v ≤ 2 ^ (f.exponent v + f.precision) := by
      rw [nearest, zpow_add₀ two_ne_zero, mul_comm (2 ^ f.exponent v), zpow_natCast]
      refine mul_le_mul_of_nonneg_right ?_ hpos.le
      exact_mod_cast roundEven_le v
    have hbig : 2 ^ (f.exponent w + f.precision - 1) ≤ f.nearest w := by
      rw [nearest, show f.exponent w + f.precision - 1 = ((f.precision - 1 : ℕ) : ℤ) + f.exponent w by
        omega, zpow_add₀ two_ne_zero, zpow_natCast]
      refine mul_le_mul_of_nonneg_right ?_ hpos'.le
      exact_mod_cast le_roundEven (hv.trans h) ((emin_le_exponent v).trans_lt hlt)
    have hpow : (2 : ℚ) ^ (f.exponent v + f.precision) ≤ 2 ^ (f.exponent w + f.precision - 1) :=
      zpow_le_zpow_right₀ one_le_two (by omega)
    linarith
  · rw [nearest, nearest, heq]
    refine mul_le_mul_of_nonneg_right ?_ hpos'.le
    exact_mod_cast roundEven_mono (div_le_div_of_nonneg_right h hpos'.le)

theorem nearest_nonneg {v : ℚ} (h : 0 ≤ v) : 0 ≤ f.nearest v :=
  nearest_zero (f := f) ▸ nearest_mono_of_nonneg le_rfl h

/-- **Monotonicity.** -/
theorem nearest_mono {v w : ℚ} (h : v ≤ w) : f.nearest v ≤ f.nearest w := by
  rcases le_total 0 v with hv | hv
  · exact nearest_mono_of_nonneg hv h
  · rcases le_total 0 w with hw | hw
    · have hneg := nearest_nonneg (f := f) (neg_nonneg.mpr hv)
      rw [nearest_neg] at hneg
      linarith [nearest_nonneg (f := f) hw]
    · have hneg := nearest_mono_of_nonneg (f := f) (neg_nonneg.mpr hw) (neg_le_neg h)
      rw [nearest_neg, nearest_neg] at hneg
      linarith

/-- What is between two numbers of the format is rounded to something between them. -/
theorem nearest_mem {v low high : ℚ} (hlow : f.nearest low = low) (hhigh : f.nearest high = high)
    (h : low ≤ v ∧ v ≤ high) : low ≤ f.nearest v ∧ f.nearest v ≤ high :=
  ⟨hlow ▸ nearest_mono h.1, hhigh ▸ nearest_mono h.2⟩

theorem nearest_mem_of_intCast (hf : HasIntegers f) {low high : ℤ} {v : ℚ}
    (hlow : |low| < 2 ^ f.precision) (hhigh : |high| < 2 ^ f.precision)
    (h : (low : ℚ) ≤ v ∧ v ≤ high) : (low : ℚ) ≤ f.nearest v ∧ f.nearest v ≤ high :=
  nearest_mem (nearest_intCast hf hlow) (nearest_intCast hf hhigh) h

end Format

/-! ## Rationals as numbers -/

variable {f g : Format}

/-- `v`, or `-v`, in the format; what is too big becomes infinite. -/
def ofRat (f : Format) (negative : Bool) (v : ℚ) : Number f :=
  let r := carried f (roundEven (v / 2 ^ f.exponent v)).toNat (f.exponent v)
  if h : Canonical f r.1 r.2 then .finite negative r.1 r.2 h else .infinity negative

theorem exponentOf_eq_exponent (m : ℕ) (e : ℤ) : exponentOf f m e = f.exponent (m * 2 ^ e) := by
  rw [exponentOf, Format.exponent]
  by_cases hm : m = 0
  · rw [if_pos hm, if_pos (by rw [hm, Nat.cast_zero, zero_mul])]
  · have hpos : (0 : ℚ) < m * 2 ^ e := by positivity
    have hlow : (2 : ℚ) ^ (Nat.log2 m : ℤ) ≤ m := by
      rw [zpow_natCast]
      exact_mod_cast Nat.log2_self_le hm
    have hhigh : (m : ℚ) < 2 ^ ((Nat.log2 m : ℤ) + 1) := by
      have hlt : m < 2 ^ (Nat.log2 m + 1) := Nat.lt_log2_self
      rw [show (Nat.log2 m : ℤ) + 1 = ((Nat.log2 m + 1 : ℕ) : ℤ) by push_cast; rfl, zpow_natCast]
      exact_mod_cast hlt
    have hlog : Int.log 2 |(m : ℚ) * 2 ^ e| = e + Nat.log2 m := by
      rw [abs_of_pos hpos]
      refine le_antisymm (Int.lt_add_one_iff.mp ((Int.lt_zpow_iff_log_lt one_lt_two hpos).mp ?_))
        ((Int.zpow_le_iff_le_log one_lt_two hpos).mp ?_)
      · rw [Nat.cast_ofNat, add_assoc, zpow_add₀ two_ne_zero, mul_comm]
        exact mul_lt_mul_of_pos_left hhigh (by positivity)
      · rw [Nat.cast_ofNat, zpow_add₀ two_ne_zero, mul_comm]
        exact mul_le_mul_of_nonneg_right hlow (by positivity)
    rw [if_neg hm, if_neg hpos.ne', hlog]

/-- `round` is the same for the numbers that are given as a multiple of a power of two. -/
theorem round_eq_ofRat (negative : Bool) (m : ℕ) (e : ℤ) :
    round f negative m e = ofRat f negative (m * 2 ^ e) := by
  have hsignificand : significandOf f m e
      = (roundEven ((m : ℚ) * 2 ^ e / 2 ^ f.exponent (m * 2 ^ e))).toNat := by
    obtain ⟨k, hk⟩ : ∃ k, exponentOf f m e = k := ⟨_, rfl⟩
    have hquotient : (m : ℚ) * 2 ^ e / 2 ^ k = ((m * 2 ^ (e - k).toNat : ℕ) : ℚ) / 2 ^ (k - e).toNat := by
      rw [div_eq_div_iff (by positivity) (by positivity)]
      push_cast
      rw [← zpow_natCast, ← zpow_natCast, mul_assoc, mul_assoc, ← zpow_add₀ two_ne_zero,
        ← zpow_add₀ two_ne_zero]
      congr 2
      omega
    rw [significandOf, ← exponentOf_eq_exponent, hk, hquotient, ← roundHalfEven_eq_roundEven,
      Int.toNat_natCast]
  rw [round, ofRat, hsignificand, exponentOf_eq_exponent]

/-- A power of two below which no result is infinite. -/
def Format.limit (f : Format) : ℚ := 2 ^ (f.emax + f.precision - 1)

theorem Format.le_limit {v : ℚ} {k : ℤ} (hk : k ≤ f.emax + f.precision - 1) (h : v ≤ 2 ^ k) :
    v ≤ f.limit :=
  h.trans (zpow_le_zpow_right₀ one_le_two hk)

theorem canonical_carried {v : ℚ} (hv : 0 ≤ v) (hlimit : v ≤ f.limit) :
    ∃ m e, carried f (roundEven (v / 2 ^ f.exponent v)).toNat (f.exponent v) = (m, e) ∧
      Canonical f m e ∧ (m : ℚ) * 2 ^ e = f.nearest v := by
  have hprec := f.precision_pos
  have hemin := Format.emin_le_exponent (f := f) v
  have hroom := f.emin_le_emax
  have hpos : (0 : ℚ) < 2 ^ f.exponent v := by positivity
  obtain ⟨q, hq⟩ : ∃ q : ℕ, roundEven (v / 2 ^ f.exponent v) = q := by
    refine Int.eq_ofNat_of_zero_le ?_
    have hmono := roundEven_mono (div_nonneg hv hpos.le)
    rwa [← Int.cast_zero, roundEven_intCast] at hmono
  have hnearest : f.nearest v = q * 2 ^ f.exponent v := by
    rw [Format.nearest, hq, Int.cast_natCast]
  have hle : (q : ℤ) ≤ 2 ^ f.precision := hq ▸ Format.roundEven_le v
  have hnormal : 2 ^ (f.precision - 1) ≤ q ∨ f.exponent v = f.emin := by
    rcases hemin.lt_or_eq with hlt | heq
    · have hfull := Format.le_roundEven hv hlt
      rw [hq] at hfull
      exact Or.inl (by exact_mod_cast hfull)
    · exact Or.inr heq.symm
  -- the limit is a number of the format, so rounding does not go beyond it
  have hbound : (q : ℚ) * 2 ^ f.exponent v ≤ 2 ^ (f.emax + f.precision - 1) := by
    rw [← hnearest, ← Format.nearest_two_zpow (f := f) (k := f.emax + f.precision - 1) (by omega)]
    exact Format.nearest_mono hlimit
  have hexponent : ∀ {m : ℕ} {e : ℤ}, 2 ^ (f.precision - 1) ≤ m →
      (m : ℚ) * 2 ^ e ≤ 2 ^ (f.emax + f.precision - 1) → e ≤ f.emax := by
    intro m e hm hme
    have hpow : (2 : ℚ) ^ (((f.precision - 1 : ℕ) : ℤ) + e) ≤ 2 ^ (f.emax + f.precision - 1) := by
      refine le_trans ?_ hme
      rw [zpow_add₀ two_ne_zero, zpow_natCast]
      refine mul_le_mul_of_nonneg_right ?_ (by positivity)
      exact_mod_cast hm
    have hpow' := (zpow_le_zpow_iff_right₀ one_lt_two).mp hpow
    omega
  rw [hq, Int.toNat_natCast, carried]
  by_cases hcarry : q = 2 ^ f.precision
  · have hvalue : ((2 ^ (f.precision - 1) : ℕ) : ℚ) * 2 ^ (f.exponent v + 1) = q * 2 ^ f.exponent v := by
      rw [hcarry]
      push_cast
      rw [zpow_add_one₀ two_ne_zero, mul_comm ((2 : ℚ) ^ f.exponent v), ← mul_assoc, ← pow_succ,
        Nat.sub_add_cancel hprec]
    rw [if_pos hcarry]
    refine ⟨_, _, rfl, ⟨?_, by omega, ?_, Or.inl le_rfl⟩, by rw [hvalue, hnearest]⟩
    · exact Nat.pow_lt_pow_right one_lt_two (by omega)
    · exact hexponent le_rfl (hvalue ▸ hbound)
  · have hlt : q < 2 ^ f.precision := lt_of_le_of_ne (by exact_mod_cast hle) hcarry
    rw [if_neg hcarry]
    refine ⟨_, _, rfl, ⟨hlt, hemin, ?_, hnormal⟩, hnearest.symm⟩
    rcases hnormal with hnormal | heq
    · exact hexponent hnormal hbound
    · rw [heq]
      exact hroom

/-! ## Numbers and their values -/

/-- The number is finite, and what it is. -/
structure HasValue (x : Number f) (v : ℚ) : Prop where
  isFinite : x.IsFinite
  value_eq : x.value = v

theorem hasValue_ofRat (negative : Bool) {v : ℚ} (hv : 0 ≤ v) (hlimit : v ≤ f.limit) :
    HasValue (ofRat f negative v) (if negative then -f.nearest v else f.nearest v) := by
  obtain ⟨m, e, hcarried, hcanonical, hvalue⟩ := canonical_carried hv hlimit
  rw [ofRat]
  simp only [hcarried, hcanonical, dite_true]
  refine ⟨trivial, ?_⟩
  cases negative with
  | true => simp [Number.value, signed, ← hvalue]
  | false => simp [Number.value, signed, ← hvalue]

theorem hasValue_round {x e : ℤ} {v : ℚ} (hv : x * 2 ^ e = v) (hlimit : |v| ≤ f.limit) :
    HasValue (round f (x < 0) x.natAbs e) (f.nearest v) := by
  have hpos : (0 : ℚ) < 2 ^ e := by positivity
  have habs : (x.natAbs : ℚ) * 2 ^ e = |v| := by
    rw [← hv, abs_mul, abs_of_pos hpos, Nat.cast_natAbs, Int.cast_abs]
  have hround := hasValue_ofRat (f := f) (x < 0) (abs_nonneg v) hlimit
  rw [round_eq_ofRat, habs]
  by_cases hx : x < 0
  · have hneg : v < 0 := hv ▸ mul_neg_of_neg_of_pos (by exact_mod_cast hx) hpos
    rw [abs_of_neg hneg] at hround ⊢
    simpa only [hx, decide_true, if_true, Format.nearest_neg, neg_neg] using hround
  · have hnonneg : 0 ≤ v := hv ▸ mul_nonneg (by exact_mod_cast not_lt.mp hx) hpos.le
    rw [abs_of_nonneg hnonneg] at hround ⊢
    simpa only [hx, decide_false, Bool.false_eq_true, if_false] using hround

namespace Number

def convert (g : Format) : Number f → Number g
  | .nan => .nan
  | .infinity negative => .infinity negative
  | .finite negative m e _ => round g negative m e

def div : Number f → Number f → Number f
  | .nan, _ => .nan
  | _, .nan => .nan
  | .infinity _, .infinity _ => .nan
  | .infinity negative, .finite negative' _ _ _ => .infinity (negative != negative')
  | .finite negative _ _ _, .infinity negative' =>
    .finite (negative != negative') 0 f.emin (canonical_zero f)
  | .finite negative m e _, .finite negative' m' e' _ =>
    if m' = 0 then (if m = 0 then .nan else .infinity (negative != negative'))
    else ofRat f (negative != negative') ((m * 2 ^ e) / (m' * 2 ^ e'))

def inRange? (low high z : ℤ) : Option ℤ := if low ≤ z ∧ z < high then some z else none

def floor? (low high : ℤ) : Number f → Option ℤ
  | .finite negative m e h => inRange? low high ⌊(Number.finite negative m e h).value⌋
  | _ => none

/-- Conversion to an integer type: toward zero. -/
def truncate? (low high : ℤ) : Number f → Option ℤ
  | .finite negative m e h =>
    let v := (Number.finite negative m e h).value
    inRange? low high (if 0 ≤ v then ⌊v⌋ else ⌈v⌉)
  | _ => none

end Number

namespace HasValue

variable {x y : Number f} {v w : ℚ}

theorem nearest_eq (h : HasValue x v) : f.nearest v = v := by
  obtain ⟨hfinite, hvalue⟩ := h
  cases x with
  | nan => exact absurd hfinite id
  | infinity negative => exact absurd hfinite id
  | finite negative m e hc =>
    refine Format.nearest_eq_self hvalue.symm hc.emin_le ?_
    have hm : (m : ℤ) < 2 ^ f.precision := by exact_mod_cast hc.lt
    cases negative with
    | true => rwa [signed, if_pos rfl, abs_neg, Nat.abs_cast]
    | false => rwa [signed, if_neg (by simp), Nat.abs_cast]

theorem ofInt (hf : HasIntegers f) {z : ℤ} (hz : z.natAbs < 2 ^ f.precision) :
    HasValue (BinaryFloat.ofInt f z) z :=
  ⟨(Number.isFinite_ofInt hf hz).1, (Number.isFinite_ofInt hf hz).2⟩

theorem neg (hx : HasValue x v) : HasValue x.neg (-v) := by
  obtain ⟨hfinite, hvalue⟩ := Number.isFinite_neg hx.isFinite
  exact ⟨hfinite, by rw [hvalue, hx.value_eq]⟩

theorem add (hx : HasValue x v) (hy : HasValue y w) (hlimit : |v + w| ≤ f.limit) :
    HasValue (x.add y) (f.nearest (v + w)) := by
  obtain ⟨hfinite, rfl⟩ := hx
  obtain ⟨hfinite', rfl⟩ := hy
  cases x with
  | nan => exact absurd hfinite id
  | infinity negative => exact absurd hfinite id
  | finite negative m e h =>
    cases y with
    | nan => exact absurd hfinite' id
    | infinity negative' => exact absurd hfinite' id
    | finite negative' m' e' h' =>
      obtain ⟨sum, hdef⟩ : ∃ sum, signed negative m * 2 ^ (e - min e e').toNat
          + signed negative' m' * 2 ^ (e' - min e e').toNat = sum := ⟨_, rfl⟩
      have hvalue : (sum : ℚ) * 2 ^ min e e'
          = (Number.finite negative m e h).value + (Number.finite negative' m' e' h').value := by
        rw [← hdef, Int.cast_add, add_mul, Number.mul_two_pow_of_le _ (min_le_left e e'),
          Number.mul_two_pow_of_le _ (min_le_right e e')]
        rfl
      simp only [Number.add, hdef]
      by_cases hzero : sum = 0
      · rw [if_pos hzero, ← hvalue, hzero, Int.cast_zero, zero_mul, Format.nearest_zero]
        exact ⟨trivial, by simp [Number.value, signed]⟩
      · rw [if_neg hzero]
        exact hasValue_round hvalue hlimit

theorem sub (hx : HasValue x v) (hy : HasValue y w) (hlimit : |v - w| ≤ f.limit) :
    HasValue (x.sub y) (f.nearest (v - w)) := by
  rw [sub_eq_add_neg] at hlimit ⊢
  exact hx.add hy.neg hlimit

theorem exists_magnitude {negative : Bool} {m : ℕ} {e : ℤ} {h : Canonical f m e}
    (hx : HasValue (.finite negative m e h) v) :
    v = (if negative then -1 else 1) * (m * 2 ^ e) := by
  rw [← hx.value_eq]
  cases negative with
  | true => simp [Number.value, signed]
  | false => simp [Number.value, signed]

/-- A magnitude that is rounded and then gets the sign of a product, or of a quotient. -/
theorem ofRat_bne {negative negative' : Bool} {magnitude : ℚ} (hmagnitude : 0 ≤ magnitude)
    (hv : v = (if negative then -1 else 1) * (if negative' then -1 else 1) * magnitude)
    (hlimit : |v| ≤ f.limit) :
    HasValue (ofRat f (negative != negative') magnitude) (f.nearest v) := by
  have habs : |v| = magnitude := by
    rw [hv]
    cases negative <;> cases negative' <;> simp [abs_of_nonneg hmagnitude]
  have hround := hasValue_ofRat (f := f) (negative != negative') hmagnitude (habs ▸ hlimit)
  rw [hv]
  cases negative <;> cases negative' <;> simpa [Format.nearest_neg] using hround

theorem mul (hx : HasValue x v) (hy : HasValue y w) (hlimit : |v * w| ≤ f.limit) :
    HasValue (x.mul y) (f.nearest (v * w)) := by
  cases x with
  | nan => exact absurd hx.isFinite id
  | infinity negative => exact absurd hx.isFinite id
  | finite negative m e h =>
    cases y with
    | nan => exact absurd hy.isFinite id
    | infinity negative' => exact absurd hy.isFinite id
    | finite negative' m' e' h' =>
      rw [Number.mul, round_eq_ofRat]
      refine ofRat_bne (by positivity) ?_ hlimit
      rw [hx.exists_magnitude, hy.exists_magnitude, zpow_add₀ two_ne_zero]
      push_cast
      ring

theorem div (hx : HasValue x v) (hy : HasValue y w) (hw : w ≠ 0) (hlimit : |v / w| ≤ f.limit) :
    HasValue (x.div y) (f.nearest (v / w)) := by
  cases x with
  | nan => exact absurd hx.isFinite id
  | infinity negative => exact absurd hx.isFinite id
  | finite negative m e h =>
    cases y with
    | nan => exact absurd hy.isFinite id
    | infinity negative' => exact absurd hy.isFinite id
    | finite negative' m' e' h' =>
      have hm' : m' ≠ 0 := by
        rintro rfl
        exact hw (by rw [hy.exists_magnitude, Nat.cast_zero, zero_mul, mul_zero])
      rw [Number.div, if_neg hm']
      refine ofRat_bne (by positivity) ?_ hlimit
      rw [hx.exists_magnitude, hy.exists_magnitude]
      cases negative <;> cases negative' <;> simp [neg_div, div_neg]

theorem convert (hx : HasValue x v) (hlimit : |v| ≤ g.limit) :
    HasValue (x.convert g) (g.nearest v) := by
  cases x with
  | nan => exact absurd hx.isFinite id
  | infinity negative => exact absurd hx.isFinite id
  | finite negative m e h =>
    rw [Number.convert, round_eq_ofRat]
    have hbne := @ofRat_bne g v negative false (m * 2 ^ e) (by positivity)
      (by rw [hx.exists_magnitude]; simp) hlimit
    rwa [Bool.bne_false] at hbne

theorem floor? (hx : HasValue x v) {low high : ℤ} (hrange : low ≤ ⌊v⌋ ∧ ⌊v⌋ < high) :
    x.floor? low high = some ⌊v⌋ := by
  obtain ⟨hfinite, rfl⟩ := hx
  cases x with
  | nan => exact absurd hfinite id
  | infinity negative => exact absurd hfinite id
  | finite negative m e h => exact if_pos hrange

theorem truncate? (hx : HasValue x v) (hv : 0 ≤ v) {low high : ℤ} (hrange : low ≤ ⌊v⌋ ∧ ⌊v⌋ < high) :
    x.truncate? low high = some ⌊v⌋ := by
  obtain ⟨hfinite, rfl⟩ := hx
  cases x with
  | nan => exact absurd hfinite id
  | infinity negative => exact absurd hfinite id
  | finite negative m e h =>
    simp only [Number.truncate?]
    rw [if_pos hv]
    exact if_pos hrange

end HasValue

end BinaryFloat
