import Mathlib.Logic.Function.Iterate
import Mathlib.Tactic.Ring

/-!
# Two planes, one after the other or interleaved

Two planes `a` and `b` of `n` samples each can be laid out one behind the other (`planar`) or in
pairs (`interleaved`). The two layouts hold the same `2 * n` samples in different places, and the
move from one to the other is a perfect riffle shuffle of the positions: counted from one, position
`q` goes to `2 * q` modulo `2 * n + 1`.

A reader that expects pairs therefore sees the right samples in a planar buffer exactly when the
buffer does not notice the shuffle, and that is the case exactly when the buffer is constant along
the cycles of doubling modulo `2 * n + 1` (`planar_eq_interleaved_iff`).
-/

namespace Riffle

variable {α : Type*} {n : ℕ}

def planar (n : ℕ) (a b : ℕ → α) (p : ℕ) : α := if p < n then a p else b (p - n)

def interleaved (a b : ℕ → α) (p : ℕ) : α := if p % 2 = 0 then a (p / 2) else b (p / 2)

/-- Where the sample at a position of the planar layout stands in the interleaved one, `b` first. -/
def shuffle (n p : ℕ) : ℕ := (2 * p + 1) % (2 * n + 1)

theorem planar_of_lt {a b : ℕ → α} {p : ℕ} (h : p < n) : planar n a b p = a p := if_pos h

theorem planar_add (a b : ℕ → α) (k : ℕ) : planar n a b (n + k) = b k := by
  rw [planar, if_neg (by omega), Nat.add_sub_cancel_left]

theorem interleaved_even (a b : ℕ → α) (k : ℕ) : interleaved a b (2 * k) = a k := by
  rw [interleaved, if_pos (by omega), Nat.mul_div_cancel_left k two_pos]

theorem interleaved_odd (a b : ℕ → α) (k : ℕ) : interleaved a b (2 * k + 1) = b k := by
  have hhalf : (2 * k + 1) / 2 = k := by omega
  rw [interleaved, if_neg (by omega), hhalf]

theorem shuffle_of_lt {p : ℕ} (h : p < n) : shuffle n p = 2 * p + 1 :=
  Nat.mod_eq_of_lt (by omega)

theorem shuffle_add {k : ℕ} (h : k < n) : shuffle n (n + k) = 2 * k := by
  have hwrap : 2 * (n + k) + 1 = 2 * k + (2 * n + 1) := by ring
  rw [shuffle, hwrap, Nat.add_mod_right, Nat.mod_eq_of_lt (by omega)]

theorem shuffle_lt {p : ℕ} (h : p < 2 * n) : shuffle n p < 2 * n := by
  rcases lt_or_ge p n with hp | hp
  · rw [shuffle_of_lt hp]
    omega
  · obtain ⟨k, rfl⟩ := Nat.exists_eq_add_of_le hp
    rw [shuffle_add (by omega)]
    omega

/-- Every position is hit: the even ones by the second plane, the odd ones by the first. -/
theorem exists_shuffle_eq {p : ℕ} (h : p < 2 * n) : ∃ q < 2 * n, shuffle n q = p := by
  rcases Nat.mod_two_eq_zero_or_one p with hp | hp
  · exact ⟨n + p / 2, by omega, by rw [shuffle_add (by omega)]; omega⟩
  · exact ⟨p / 2, by omega, by rw [shuffle_of_lt (by omega)]; omega⟩

theorem interleaved_shuffle (a b : ℕ → α) {p : ℕ} (h : p < 2 * n) :
    interleaved b a (shuffle n p) = planar n a b p := by
  rcases lt_or_ge p n with hp | hp
  · -- a sample of the first plane goes to an odd place
    rw [shuffle_of_lt hp, interleaved_odd, planar_of_lt hp]
  · obtain ⟨k, rfl⟩ := Nat.exists_eq_add_of_le hp
    rw [shuffle_add (by omega), interleaved_even, planar_add]

/-! ## The cycles -/

/-- Counted from one, `m` shuffles multiply a position by `2 ^ m` modulo `2 * n + 1`. -/
theorem iterate_shuffle {p : ℕ} (h : p < 2 * n) (m : ℕ) :
    (shuffle n)^[m] p = (2 ^ m * (p + 1) - 1) % (2 * n + 1) := by
  induction m with
  | zero => rw [Function.iterate_zero_apply, pow_zero, one_mul, Nat.add_sub_cancel,
      Nat.mod_eq_of_lt (by omega)]
  | succ m ih =>
    -- counted from one, the position is not zero, so the truncated subtraction is exact
    have hpos : 0 < 2 ^ m * (p + 1) := Nat.mul_pos (Nat.two_pow_pos m) p.succ_pos
    have hdouble : 2 * (2 ^ m * (p + 1) - 1) + 1 = 2 ^ (m + 1) * (p + 1) - 1 := by
      rw [pow_succ', Nat.mul_assoc]
      omega
    rw [Function.iterate_succ_apply', ih, shuffle, ← hdouble, Nat.add_mod, Nat.mul_mod,
      Nat.mod_mod, ← Nat.mul_mod, ← Nat.add_mod]

theorem forall_shuffle_iff {f : ℕ → α} :
    (∀ p < 2 * n, f (shuffle n p) = f p)
      ↔ ∀ p < 2 * n, ∀ m, f ((2 ^ m * (p + 1) - 1) % (2 * n + 1)) = f p := by
  constructor
  · intro hstep p hp m
    have hiter : ∀ k, (shuffle n)^[k] p < 2 * n ∧ f ((shuffle n)^[k] p) = f p := by
      intro k
      induction k with
      | zero => exact ⟨hp, rfl⟩
      | succ k ih =>
        rw [Function.iterate_succ_apply']
        exact ⟨shuffle_lt ih.1, (hstep _ ih.1).trans ih.2⟩
    rw [← iterate_shuffle hp]
    exact (hiter m).2
  · intro hcycle p hp
    have hone := hcycle p hp 1
    rwa [← iterate_shuffle hp, Function.iterate_one] at hone

/-- **Planar read as interleaved.** The planar layout is also the interleaved one exactly when it is
constant along the cycles of doubling modulo `2 * n + 1`. -/
theorem planar_eq_interleaved_iff {a b : ℕ → α} :
    (∀ p < 2 * n, planar n a b p = interleaved b a p)
      ↔ ∀ p < 2 * n, ∀ m,
        planar n a b ((2 ^ m * (p + 1) - 1) % (2 * n + 1)) = planar n a b p := by
  rw [← forall_shuffle_iff]
  constructor
  · intro h p hp
    rw [h _ (shuffle_lt hp), interleaved_shuffle a b hp]
  · intro h p hp
    obtain ⟨q, hq, rfl⟩ := exists_shuffle_eq hp
    rw [h q hq, interleaved_shuffle a b hq]

end Riffle
