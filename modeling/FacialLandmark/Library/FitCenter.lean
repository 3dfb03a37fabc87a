import Mathlib.Algebra.Order.Field.Basic
import Mathlib.Tactic.FieldSimp
import Mathlib.Tactic.LinearCombination
import Mathlib.Tactic.Ring

/-!
# Fitting a rectangle into another and centring it

A content rectangle is scaled uniformly until it fits a box, and is then centred in it. One side of
the box is met exactly, the *tight* one; along the other there may be room to spare on both sides.

Which points the fitting leaves where they are is a question with two answers only: all of them, when
the box has the size of the content, and otherwise at most one, on the edge of the content that the
tight side starts from (`place_eq_self_iff`).
-/

/-- The sizes of a content rectangle and of the box it is fitted into. -/
structure FitCenter (K : Type*) [Zero K] [LT K] where
  width : K
  height : K
  boxWidth : K
  boxHeight : K
  width_pos : 0 < width
  height_pos : 0 < height
  boxWidth_pos : 0 < boxWidth
  boxHeight_pos : 0 < boxHeight

namespace FitCenter

variable {K : Type*} [Field K] [LinearOrder K] [IsStrictOrderedRing K] (f : FitCenter K)

/-- The factor by which the content is scaled. -/
def scale : K := min (f.boxWidth / f.width) (f.boxHeight / f.height)

def place (p : K × K) : K × K :=
  (f.scale * p.1 + (f.boxWidth - f.scale * f.width) / (2 : ℕ),
    f.scale * p.2 + (f.boxHeight - f.scale * f.height) / (2 : ℕ))

def shown : Set (K × K) := Set.Icc (f.place (0, 0)) (f.place (f.width, f.height))

theorem scale_pos : 0 < f.scale :=
  lt_min (div_pos f.boxWidth_pos f.width_pos) (div_pos f.boxHeight_pos f.height_pos)

theorem place_mono {p q : K × K} (h : p ≤ q) : f.place p ≤ f.place q := by
  have hscale := f.scale_pos.le
  refine ⟨?_, ?_⟩
  · exact add_le_add_left (mul_le_mul_of_nonneg_left h.1 hscale) _
  · exact add_le_add_left (mul_le_mul_of_nonneg_left h.2 hscale) _

theorem place_mem_shown {p : K × K} (h : p ∈ Set.Icc (0, 0) (f.width, f.height)) :
    f.place p ∈ f.shown :=
  ⟨f.place_mono h.1, f.place_mono h.2⟩

/-! ## Fixed points -/

def swap : FitCenter K where
  width := f.height
  height := f.width
  boxWidth := f.boxHeight
  boxHeight := f.boxWidth
  width_pos := f.height_pos
  height_pos := f.width_pos
  boxWidth_pos := f.boxHeight_pos
  boxHeight_pos := f.boxWidth_pos

omit [IsStrictOrderedRing K] in
theorem scale_swap : f.swap.scale = f.scale := min_comm _ _

omit [IsStrictOrderedRing K] in
theorem place_swap (p : K × K) : f.swap.place p.swap = (f.place p).swap := by
  rw [place, scale_swap]
  rfl

theorem scale_of_le (h : f.boxWidth * f.height ≤ f.boxHeight * f.width) :
    f.scale = f.boxWidth / f.width :=
  min_eq_left ((div_le_div_iff₀ f.width_pos f.height_pos).mpr h)

/-- Along the tight side the content is scaled about its start. -/
theorem place_fst_eq_iff (h : f.boxWidth * f.height ≤ f.boxHeight * f.width) (p : K × K) :
    (f.place p).1 = p.1 ↔ f.boxWidth = f.width ∨ p.1 = 0 := by
  have hwidth := f.width_pos.ne'
  have hoffset : (f.place p).1 = f.boxWidth / f.width * p.1 := by
    rw [place, f.scale_of_le h, div_mul_cancel₀ _ hwidth, sub_self, zero_div, add_zero]
  rw [hoffset, div_mul_eq_mul_div, div_eq_iff hwidth, mul_comm p.1, mul_eq_mul_right_iff]

/-- Along the other side it is scaled about its middle. -/
theorem place_snd_eq_iff (h : f.boxWidth * f.height ≤ f.boxHeight * f.width) (p : K × K) :
    (f.place p).2 = p.2
      ↔ 2 * (f.width - f.boxWidth) * p.2 = f.boxHeight * f.width - f.boxWidth * f.height := by
  have hwidth := f.width_pos.ne'
  rw [place, f.scale_of_le h, Nat.cast_ofNat]
  constructor
  · intro hfixed
    field_simp at hfixed
    linear_combination -hfixed
  · intro hmiddle
    field_simp
    linear_combination -hmiddle

theorem place_eq_self_iff_of_le (h : f.boxWidth * f.height ≤ f.boxHeight * f.width) (p : K × K) :
    f.place p = p ↔ (f.boxWidth = f.width ∧ f.boxHeight = f.height) ∨
      p.1 = 0 ∧ 2 * (f.width - f.boxWidth) * p.2 = f.boxHeight * f.width - f.boxWidth * f.height := by
  rw [Prod.ext_iff, f.place_fst_eq_iff h, f.place_snd_eq_iff h]
  constructor
  · rintro ⟨hsize | hzero, hmiddle⟩
    · -- the scale is one, and a height to spare would move every point
      left
      refine ⟨hsize, ?_⟩
      rw [hsize, sub_self, mul_zero, zero_mul, mul_comm f.width, ← sub_mul] at hmiddle
      rcases mul_eq_zero.mp hmiddle.symm with hheight | hwidth
      · exact sub_eq_zero.mp hheight
      · exact absurd hwidth f.width_pos.ne'
    · exact Or.inr ⟨hzero, hmiddle⟩
  · rintro (⟨hwidth, hheight⟩ | ⟨hzero, hmiddle⟩)
    · refine ⟨Or.inl hwidth, ?_⟩
      rw [hwidth, hheight]
      ring
    · exact ⟨Or.inr hzero, hmiddle⟩

/-- A point the fitting leaves in place although it moves others: the start of the tight side, at the
one height, or the one width, that scaling about the middle keeps. -/
def Anchored (p : K × K) : Prop :=
  if f.boxWidth * f.height ≤ f.boxHeight * f.width then
    p.1 = 0 ∧
      (2 : ℕ) * (f.width - f.boxWidth) * p.2 = f.boxHeight * f.width - f.boxWidth * f.height
  else
    p.2 = 0 ∧
      (2 : ℕ) * (f.height - f.boxHeight) * p.1 = f.boxWidth * f.height - f.boxHeight * f.width

/-- **The points left in place**: all of them when the sizes agree, and otherwise an anchored one. -/
theorem place_eq_self_iff (p : K × K) :
    f.place p = p ↔ (f.boxWidth = f.width ∧ f.boxHeight = f.height) ∨ f.Anchored p := by
  rcases le_or_gt (f.boxWidth * f.height) (f.boxHeight * f.width) with htight | htight
  · rw [Anchored, if_pos htight, Nat.cast_ofNat]
    exact f.place_eq_self_iff_of_le htight p
  · -- the same with the axes exchanged
    have hswap := f.swap.place_eq_self_iff_of_le htight.le p.swap
    rw [place_swap, Prod.swap_inj] at hswap
    rw [Anchored, if_neg (not_le.mpr htight), Nat.cast_ofNat, hswap]
    exact or_congr_left and_comm

end FitCenter
