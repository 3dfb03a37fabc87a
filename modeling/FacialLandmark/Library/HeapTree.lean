import Mathlib.Algebra.Order.Ring.Nat
import Mathlib.Tactic.Ring

/-!
# Binary trees in an array

A tree is kept in an array without links: the children of node `i` are the nodes `2 * i + 1` and
`2 * i + 2`. The inner nodes are numbered `0, …, n - 1`, and a walk from the root ends as soon as it
is at a number that is not one of these. The number it ends at, less `n`, is the number of a leaf.

A walk asks a test at each node it passes. Where a test has no value the walk has none.
-/

namespace HeapTree

def leftChild (i : ℕ) : ℕ := 2 * i + 1

def rightChild (i : ℕ) : ℕ := 2 * i + 2

/-- `while (i < n) i = test(i) ? leftChild(i) : rightChild(i)`. -/
def descend? (n : ℕ) (test : ℕ → Option Bool) (i : ℕ) : Option ℕ :=
  if i < n then
    match test i with
    | none => none
    | some true => descend? n test (leftChild i)
    | some false => descend? n test (rightChild i)
  else some i
termination_by n - i
decreasing_by
  · rw [leftChild]; omega
  · rw [rightChild]; omega

variable {n : ℕ} {test : ℕ → Option Bool} {i j : ℕ}

theorem descend?_of_le (h : n ≤ i) : descend? n test i = some i := by
  rw [descend?, if_neg (Nat.not_lt.mpr h)]

theorem descend?_of_none (h : i < n) (htest : test i = none) : descend? n test i = none := by
  rw [descend?, if_pos h, htest]

theorem descend?_of_true (h : i < n) (htest : test i = some true) :
    descend? n test i = descend? n test (leftChild i) := by
  rw [descend?, if_pos h, htest]

theorem descend?_of_false (h : i < n) (htest : test i = some false) :
    descend? n test i = descend? n test (rightChild i) := by
  rw [descend?, if_pos h, htest]

theorem descend?_induction (motive : ℕ → Prop) (hleaf : ∀ i, n ≤ i → motive i)
    (hnode : ∀ i < n, motive (leftChild i) → motive (rightChild i) → motive i) (i : ℕ) : motive i := by
  induction hd : n - i using Nat.strong_induction_on generalizing i with
  | _ d ih =>
    rcases Nat.lt_or_ge i n with hi | hi
    · refine hnode i hi (ih _ ?_ _ rfl) (ih _ ?_ _ rfl)
      · rw [leftChild]; omega
      · rw [rightChild]; omega
    · exact hleaf i hi

theorem range_of_descend? (h : descend? n test i = some j) (hi : i ≤ 2 * n) : n ≤ j ∧ j ≤ 2 * n := by
  induction i using descend?_induction (n := n) with
  | hleaf i hle =>
    rw [descend?_of_le hle, Option.some_inj] at h
    omega
  | hnode i hlt hleft hright =>
    cases htest : test i with
    | none =>
      rw [descend?_of_none hlt htest] at h
      exact absurd h (by simp)
    | some outcome =>
      cases outcome with
      | true =>
        rw [descend?_of_true hlt htest] at h
        exact hleft h (by rw [leftChild]; omega)
      | false =>
        rw [descend?_of_false hlt htest] at h
        exact hright h (by rw [rightChild]; omega)

/-- The tests at the inner nodes are all that a walk needs. -/
theorem isSome_descend? (h : ∀ k < n, (test k).isSome) (i : ℕ) : (descend? n test i).isSome := by
  induction i using descend?_induction (n := n) with
  | hleaf i hle => rw [descend?_of_le hle, Option.isSome_some]
  | hnode i hlt hleft hright =>
    cases htest : test i with
    | none =>
      have hsome := h i hlt
      rw [htest] at hsome
      exact absurd hsome (by simp)
    | some outcome =>
      cases outcome with
      | true => rwa [descend?_of_true hlt htest]
      | false => rwa [descend?_of_false hlt htest]

/-! ## Full trees

With `2 ^ d - 1` inner nodes the levels `0, …, d - 1` are full. The nodes of level `k` are the numbers
`2 ^ k - 1 + p` for `p < 2 ^ k`. -/

theorem leftChild_level (k p : ℕ) : leftChild (2 ^ k - 1 + p) = 2 ^ (k + 1) - 1 + 2 * p := by
  have hpos := Nat.two_pow_pos k
  rw [leftChild, pow_succ]
  omega

theorem rightChild_level (k p : ℕ) : rightChild (2 ^ k - 1 + p) = 2 ^ (k + 1) - 1 + (2 * p + 1) := by
  have hpos := Nat.two_pow_pos k
  rw [rightChild, pow_succ]
  omega

theorem level_lt {k d p : ℕ} (hk : k < d) (hp : p < 2 ^ k) : 2 ^ k - 1 + p < 2 ^ d - 1 := by
  have hpow : 2 ^ (k + 1) ≤ 2 ^ d := Nat.pow_le_pow_right (by decide) hk
  rw [pow_succ] at hpow
  omega

/-- The node of level `k` on the way to a leaf is its number without the last `d - k` digits, and the
next digit tells where to turn. -/
theorem descend?_level_eq_some_iff {d k p leaf : ℕ} (hk : k ≤ d) (hp : p < 2 ^ k) :
    descend? (2 ^ d - 1) test (2 ^ k - 1 + p) = some (2 ^ d - 1 + leaf)
      ↔ leaf / 2 ^ (d - k) = p ∧ ∀ l, k ≤ l → l < d →
          test (2 ^ l - 1 + leaf / 2 ^ (d - l)) = some (decide (leaf / 2 ^ (d - l - 1) % 2 = 0)) := by
  induction hr : d - k generalizing k p with
  | zero =>
    obtain rfl : k = d := by omega
    rw [descend?_of_le (by omega), Option.some_inj, pow_zero, Nat.div_one]
    constructor
    · intro heq
      exact ⟨by omega, fun l hl hlt ↦ absurd hlt (by omega)⟩
    · rintro ⟨rfl, -⟩
      rfl
  | succ r ih =>
    have hlt : k < d := by omega
    have hnode := level_lt hlt hp
    have hdigits : leaf / 2 ^ (r + 1) = leaf / 2 ^ r / 2 := by rw [pow_succ, Nat.div_div_eq_div_mul]
    have hpow : 2 ^ (k + 1) = 2 ^ k * 2 := pow_succ 2 k
    -- the turn at this node, and the turns below it
    have hturns : (∀ l, k ≤ l → l < d →
          test (2 ^ l - 1 + leaf / 2 ^ (d - l)) = some (decide (leaf / 2 ^ (d - l - 1) % 2 = 0))) ↔
        test (2 ^ k - 1 + leaf / 2 ^ (r + 1)) = some (decide (leaf / 2 ^ r % 2 = 0)) ∧
          ∀ l, k + 1 ≤ l → l < d →
            test (2 ^ l - 1 + leaf / 2 ^ (d - l)) = some (decide (leaf / 2 ^ (d - l - 1) % 2 = 0)) := by
      constructor
      · intro h
        have hhere := h k le_rfl hlt
        rw [hr, Nat.add_sub_cancel] at hhere
        exact ⟨hhere, fun l hl ↦ h l (by omega)⟩
      · rintro ⟨hhere, hbelow⟩ l hl hld
        rcases Nat.eq_or_lt_of_le hl with rfl | hl
        · rw [hr, Nat.add_sub_cancel]
          exact hhere
        · exact hbelow l hl hld
    rw [hturns]
    cases htest : test (2 ^ k - 1 + p) with
    | none =>
      rw [descend?_of_none hnode htest]
      refine iff_of_false (by simp) ?_
      rintro ⟨rfl, hhere, -⟩
      rw [htest] at hhere
      exact absurd hhere (by simp)
    | some outcome =>
      cases outcome with
      | true =>
        rw [descend?_of_true hnode htest, leftChild_level, ih (by omega) (by omega) (by omega)]
        constructor
        · rintro ⟨hleft, hbelow⟩
          have hp' : leaf / 2 ^ (r + 1) = p := by omega
          refine ⟨hp', ?_, hbelow⟩
          rw [hp', htest, hleft, Nat.mul_mod_right, decide_eq_true rfl]
        · rintro ⟨rfl, hhere, hbelow⟩
          rw [htest, Option.some_inj] at hhere
          have heven : leaf / 2 ^ r % 2 = 0 := of_decide_eq_true hhere.symm
          exact ⟨by omega, hbelow⟩
      | false =>
        rw [descend?_of_false hnode htest, rightChild_level, ih (by omega) (by omega) (by omega)]
        constructor
        · rintro ⟨hright, hbelow⟩
          have hp' : leaf / 2 ^ (r + 1) = p := by omega
          refine ⟨hp', ?_, hbelow⟩
          rw [hp', htest, hright, decide_eq_false (by omega)]
        · rintro ⟨rfl, hhere, hbelow⟩
          rw [htest, Option.some_inj] at hhere
          have hodd : ¬leaf / 2 ^ r % 2 = 0 := of_decide_eq_false hhere.symm
          exact ⟨by omega, hbelow⟩

/-- **The walk of a full tree.** It ends at a leaf exactly when the `d` tests on the way there spell
the number of the leaf, the left child for the digit zero. -/
theorem descend?_full_eq_some_iff {d leaf : ℕ} (hleaf : leaf < 2 ^ d) :
    descend? (2 ^ d - 1) test 0 = some (2 ^ d - 1 + leaf)
      ↔ ∀ l < d, test (2 ^ l - 1 + leaf / 2 ^ (d - l)) = some (decide (leaf / 2 ^ (d - l - 1) % 2 = 0)) := by
  have hroot := @descend?_level_eq_some_iff test d 0 0 leaf (Nat.zero_le d) (by decide)
  rw [pow_zero, Nat.sub_zero, Nat.div_eq_of_lt hleaf] at hroot
  exact hroot.trans ⟨fun h l hl ↦ h.2 l (Nat.zero_le l) hl, fun h ↦ ⟨rfl, fun l _ hl ↦ h l hl⟩⟩

end HeapTree
