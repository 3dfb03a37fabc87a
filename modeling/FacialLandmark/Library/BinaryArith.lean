import FacialLandmark.Library.BinaryFloat
import Mathlib.Order.WithBot

/-!
# Arithmetic of binary floating-point numbers

Sums and products are those of the values, rounded once. A sum that comes to zero is positive, unless
both terms are negative; what has no limit is `nan`. Two numbers are compared by their values, and
`nan` is less than nothing.

As long as a sum of finite numbers is an integer with no more bits than a significand, nothing is
rounded (`add_eq_integer`). The sign of a zero has no influence on a result but for the sign of a zero.
-/

namespace BinaryFloat

variable {f : Format}

/-- A significand with its sign. -/
def signed (negative : Bool) (m : ℕ) : ℤ := if negative then -m else m

theorem signed_not (negative : Bool) (m : ℕ) : signed (!negative) m = -signed negative m := by
  cases negative <;> simp [signed]

theorem signed_natAbs (x : ℤ) : signed (x < 0) x.natAbs = x := by
  simp only [signed, decide_eq_true_eq]
  split <;> omega

namespace Number

def neg : Number f → Number f
  | .nan => .nan
  | .infinity negative => .infinity !negative
  | .finite negative m e h => .finite (!negative) m e h

def add : Number f → Number f → Number f
  | .nan, _ => .nan
  | _, .nan => .nan
  | .infinity negative, .infinity negative' => if negative = negative' then .infinity negative else .nan
  | .infinity negative, .finite .. => .infinity negative
  | .finite .., .infinity negative => .infinity negative
  | .finite negative m e _, .finite negative' m' e' _ =>
    let sum := signed negative m * 2 ^ (e - min e e').toNat
      + signed negative' m' * 2 ^ (e' - min e e').toNat
    if sum = 0 then .finite (negative && negative') 0 f.emin (canonical_zero f)
    else round f (sum < 0) sum.natAbs (min e e')

def sub (x y : Number f) : Number f := x.add y.neg

def mul : Number f → Number f → Number f
  | .nan, _ => .nan
  | _, .nan => .nan
  | .infinity negative, .infinity negative' => .infinity (negative != negative')
  | .infinity negative, .finite negative' m' _ _ =>
    if m' = 0 then .nan else .infinity (negative != negative')
  | .finite negative m _ _, .infinity negative' =>
    if m = 0 then .nan else .infinity (negative != negative')
  | .finite negative m e _, .finite negative' m' e' _ =>
    round f (negative != negative') (m * m') (e + e')

def lt : Number f → Number f → Bool
  | .nan, _ => false
  | _, .nan => false
  | .infinity negative, .infinity negative' => negative && !negative'
  | .infinity negative, .finite .. => negative
  | .finite .., .infinity negative => !negative
  | .finite negative m e _, .finite negative' m' e' _ =>
    signed negative m * 2 ^ (e - min e e').toNat < signed negative' m' * 2 ^ (e' - min e e').toNat

/-! ## Values -/

def IsFinite : Number f → Prop
  | .finite .. => True
  | _ => False

def value : Number f → ℚ
  | .finite negative m e _ => signed negative m * 2 ^ e
  | _ => 0

theorem mul_two_pow_of_le (x : ℤ) {e low : ℤ} (h : low ≤ e) :
    ((x * 2 ^ (e - low).toNat : ℤ) : ℚ) * 2 ^ low = x * 2 ^ e := by
  push_cast
  rw [mul_assoc, ← zpow_natCast, ← zpow_add₀ two_ne_zero]
  congr 2
  omega

theorem isFinite_neg {x : Number f} (h : x.IsFinite) : x.neg.IsFinite ∧ x.neg.value = -x.value := by
  cases x with
  | nan => exact absurd h id
  | infinity negative => exact absurd h id
  | finite negative m e hc =>
    refine ⟨trivial, ?_⟩
    simp only [neg, value, signed_not]
    push_cast
    ring

theorem lt_iff {x y : Number f} (hx : x.IsFinite) (hy : y.IsFinite) :
    x.lt y = true ↔ x.value < y.value := by
  cases x with
  | nan => exact absurd hx id
  | infinity negative => exact absurd hx id
  | finite negative m e h =>
    cases y with
    | nan => exact absurd hy id
    | infinity negative => exact absurd hy id
    | finite negative' m' e' h' =>
      have hpos : (0 : ℚ) < 2 ^ min e e' := by positivity
      simp only [lt, value, decide_eq_true_eq]
      rw [← mul_two_pow_of_le (signed negative m) (min_le_left e e'),
        ← mul_two_pow_of_le (signed negative' m') (min_le_right e e'),
        mul_lt_mul_iff_left₀ hpos, Int.cast_lt]

/-! ### The order

Numbers that are not `nan` are in a linear order, but that a zero has two signs. -/

/-- The place of a number in the order. -/
def rank : Number f → WithBot (WithTop ℚ)
  | .nan => ⊥
  | .infinity true => ⊥
  | .infinity false => ((⊤ : WithTop ℚ) : WithBot (WithTop ℚ))
  | .finite negative m e h => (((Number.finite negative m e h).value : WithTop ℚ) : WithBot (WithTop ℚ))

theorem lt_iff_rank {x y : Number f} (hx : x ≠ .nan) (hy : y ≠ .nan) :
    x.lt y = true ↔ x.rank < y.rank := by
  cases x with
  | nan => exact absurd rfl hx
  | infinity negative =>
    cases y with
    | nan => exact absurd rfl hy
    | infinity negative' => cases negative <;> cases negative' <;> simp [lt, rank]
    | finite negative' m' e' h' => cases negative <;> simp [lt, rank]
  | finite negative m e h =>
    cases y with
    | nan => exact absurd rfl hy
    | infinity negative' =>
      cases negative' with
      | true => simp [lt, rank]
      | false => exact iff_of_true rfl (WithBot.coe_lt_coe.mpr (WithTop.coe_lt_top _))
    | finite negative' m' e' h' =>
      rw [@lt_iff f (.finite negative m e h) (.finite negative' m' e' h') trivial trivial, rank, rank, WithBot.coe_lt_coe, WithTop.coe_lt_coe]

theorem ne_nan_of_lt {x y : Number f} (h : x.lt y = true) : x ≠ .nan ∧ y ≠ .nan := by
  constructor
  · rintro rfl
    exact absurd h (by simp [lt])
  · rintro rfl
    cases x <;> exact absurd h (by simp [lt])

theorem not_lt_of_lt {x y : Number f} (h : x.lt y = true) : ¬y.lt x = true := by
  obtain ⟨hx, hy⟩ := ne_nan_of_lt h
  rw [lt_iff_rank hx hy] at h
  rw [lt_iff_rank hy hx]
  exact h.asymm

theorem lt_of_lt_of_not_lt {x y z : Number f} (h : x.lt y = true) (hz : ¬z.lt y = true) :
    z = .nan ∨ x.lt z = true := by
  by_cases hnan : z = .nan
  · exact Or.inl hnan
  · obtain ⟨hx, hy⟩ := ne_nan_of_lt h
    rw [lt_iff_rank hx hy] at h
    rw [lt_iff_rank hnan hy, not_lt] at hz
    exact Or.inr ((lt_iff_rank hx hnan).mpr (h.trans_le hz))

theorem round_eq_integer (hf : HasIntegers f) {z x e : ℤ} (hz : z.natAbs < 2 ^ f.precision)
    (hvalue : (x : ℚ) * 2 ^ e = z) :
    (round f (x < 0) x.natAbs e).IsFinite ∧ (round f (x < 0) x.natAbs e).value = z := by
  have hpos : (0 : ℚ) < 2 ^ e := by positivity
  obtain ⟨m, e', h, hm⟩ := exists_canonical_of_lt hf hz
  have hnatAbs : (x.natAbs : ℚ) * 2 ^ e = m * 2 ^ e' := by
    rw [← hm, Nat.cast_natAbs, Nat.cast_natAbs, Int.cast_abs, Int.cast_abs, ← hvalue, abs_mul,
      abs_of_pos hpos]
  have hsign : x < 0 ↔ z < 0 := by
    rw [← Int.cast_lt_zero (R := ℚ), ← Int.cast_lt_zero (R := ℚ) (n := z), ← hvalue]
    exact ⟨fun hx ↦ mul_neg_of_neg_of_pos hx hpos, fun hz ↦ by_contra fun hx ↦
      absurd hz (not_lt.mpr (mul_nonneg (not_lt.mp hx) hpos.le))⟩
  rw [round_eq_finite _ h hnatAbs]
  refine ⟨trivial, ?_⟩
  have hz' : signed (x < 0) z.natAbs = z := by
    rw [decide_eq_decide.mpr hsign, signed_natAbs]
  rw [← hz']
  simp only [value, signed]
  split
  · rw [Int.cast_neg, Int.cast_natCast, Int.cast_neg, Int.cast_natCast, neg_mul, ← hm]
  · rw [Int.cast_natCast, Int.cast_natCast, ← hm]

/-- **Sums that are not rounded.** -/
theorem add_eq_integer (hf : HasIntegers f) {x y : Number f} (hx : x.IsFinite) (hy : y.IsFinite)
    {z : ℤ} (hz : z.natAbs < 2 ^ f.precision) (hsum : x.value + y.value = z) :
    (x.add y).IsFinite ∧ (x.add y).value = z := by
  cases x with
  | nan => exact absurd hx id
  | infinity negative => exact absurd hx id
  | finite negative m e h =>
    cases y with
    | nan => exact absurd hy id
    | infinity negative => exact absurd hy id
    | finite negative' m' e' h' =>
      obtain ⟨sum, hdef⟩ : ∃ sum, signed negative m * 2 ^ (e - min e e').toNat
          + signed negative' m' * 2 ^ (e' - min e e').toNat = sum := ⟨_, rfl⟩
      have hvalue : (sum : ℚ) * 2 ^ min e e' = z := by
        rw [← hdef, ← hsum, Int.cast_add, add_mul, mul_two_pow_of_le _ (min_le_left e e'),
          mul_two_pow_of_le _ (min_le_right e e')]
        rfl
      simp only [add, hdef]
      by_cases hzero : sum = 0
      · rw [if_pos hzero]
        rw [hzero, Int.cast_zero, zero_mul] at hvalue
        refine ⟨trivial, ?_⟩
        rw [← hvalue]
        simp [value, signed]
      · rw [if_neg hzero]
        exact round_eq_integer hf hz hvalue

theorem isFinite_ofInt (hf : HasIntegers f) {x : ℤ} (hx : x.natAbs < 2 ^ f.precision) :
    (ofInt f x).IsFinite ∧ (ofInt f x).value = x :=
  round_eq_integer hf hx (by rw [zpow_zero, mul_one])

/-- Differences of integers with room for one bit more. -/
theorem sub_ofInt (hf : HasIntegers f) {x y : ℤ} (hx : x.natAbs < 2 ^ f.precision)
    (hy : y.natAbs < 2 ^ f.precision) (hxy : (x - y).natAbs < 2 ^ f.precision) :
    ((ofInt f x).sub (ofInt f y)).IsFinite ∧ ((ofInt f x).sub (ofInt f y)).value = x - y := by
  obtain ⟨hfinite, hvalue⟩ := isFinite_ofInt hf hx
  obtain ⟨hfinite', hvalue'⟩ := isFinite_ofInt hf hy
  obtain ⟨hneg, hnegvalue⟩ := isFinite_neg hfinite'
  have hsum := add_eq_integer hf hfinite hneg hxy (by rw [hvalue, hnegvalue, hvalue']; push_cast; ring)
  rw [sub]
  push_cast at hsum
  exact hsum

/-! ## The sign of a zero -/

theorem signed_and_ne_zero (negative : Bool) (m : ℕ) :
    signed (negative && m ≠ 0) m = signed negative m := by
  by_cases hm : m = 0
  · simp [signed, hm]
  · simp [hm]

theorem unsignZero_finite (negative : Bool) {m : ℕ} {e : ℤ} (h : Canonical f m e) :
    (finite negative m e h).unsignZero = finite (negative && m ≠ 0) m e h := rfl

@[simp] theorem unsignZero_unsignZero (x : Number f) : x.unsignZero.unsignZero = x.unsignZero := by
  cases x with
  | nan => rfl
  | infinity negative => rfl
  | finite negative m e h => simp only [unsignZero, Bool.and_assoc, Bool.and_self]

theorem value_unsignZero (x : Number f) : x.unsignZero.value = x.value := by
  cases x with
  | nan => rfl
  | infinity negative => rfl
  | finite negative m e h => simp only [unsignZero, value, signed_and_ne_zero]

theorem lt_unsignZero (x y : Number f) : x.unsignZero.lt y.unsignZero = x.lt y := by
  cases x with
  | nan => rfl
  | infinity negative => cases y <;> rfl
  | finite negative m e h =>
    cases y with
    | nan => rfl
    | infinity negative' => rfl
    | finite negative' m' e' h' => simp only [unsignZero, lt, signed_and_ne_zero]

theorem unsignZero_neg (x : Number f) : x.unsignZero.neg.unsignZero = x.neg.unsignZero := by
  cases x with
  | nan => rfl
  | infinity negative => rfl
  | finite negative m e h =>
    by_cases hm : m = 0
    · simp [unsignZero, neg, hm]
    · simp [unsignZero, neg, hm]

theorem unsignZero_add (x y : Number f) :
    (x.unsignZero.add y.unsignZero).unsignZero = (x.add y).unsignZero := by
  cases x with
  | nan => rfl
  | infinity negative => cases y <;> rfl
  | finite negative m e h =>
    cases y with
    | nan => rfl
    | infinity negative' => rfl
    | finite negative' m' e' h' =>
      rw [unsignZero_finite, unsignZero_finite]
      simp only [add, signed_and_ne_zero]
      by_cases hsum : signed negative m * 2 ^ (e - min e e').toNat
          + signed negative' m' * 2 ^ (e' - min e e').toNat = 0
      · rw [if_pos hsum, if_pos hsum, unsignZero_finite, unsignZero_finite]
        simp
      · rw [if_neg hsum, if_neg hsum]

theorem unsignZero_sub (x y : Number f) :
    (x.unsignZero.sub y.unsignZero).unsignZero = (x.sub y).unsignZero := by
  rw [sub, sub, ← unsignZero_add, unsignZero_unsignZero, unsignZero_neg, unsignZero_add]

theorem unsignZero_mul (x y : Number f) :
    (x.unsignZero.mul y.unsignZero).unsignZero = (x.mul y).unsignZero := by
  cases x with
  | nan => rfl
  | infinity negative =>
    cases y with
    | nan => rfl
    | infinity negative' => rfl
    | finite negative' m' e' h' =>
      by_cases hm : m' = 0
      · simp [unsignZero, mul, hm]
      · simp [unsignZero, mul, hm]
  | finite negative m e h =>
    cases y with
    | nan => rfl
    | infinity negative' =>
      by_cases hm : m = 0
      · simp [unsignZero, mul, hm]
      · simp [unsignZero, mul, hm]
    | finite negative' m' e' h' =>
      by_cases hm : m * m' = 0
      · -- a zero, whatever the signs are
        have hzero : ∀ negative, round f negative (m * m') (e + e')
            = .finite negative 0 f.emin (canonical_zero f) := by
          intro negative
          exact round_eq_finite negative (canonical_zero f) (by rw [hm, Nat.cast_zero, zero_mul, zero_mul])
        simp [unsignZero, mul, hzero]
      · obtain ⟨hne, hne'⟩ := Nat.mul_ne_zero_iff.mp hm
        simp [unsignZero, mul, hne, hne']

end Number

end BinaryFloat
