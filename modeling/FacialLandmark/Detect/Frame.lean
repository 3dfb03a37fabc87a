import Mathlib.Algebra.Order.Floor.Ring
import Mathlib.Data.Rat.Floor
import Mathlib.Tactic.FieldSimp
import Mathlib.Tactic.Linarith
import Mathlib.Tactic.NormNum
import Mathlib.Tactic.Positivity

/-!
# The coordinate frames of `detectLandmark`

Three frames meet in `detectLandmark`. The bitmap has `w × h` pixels; `pyramid_up` replaces it by an
image about twice as large in each direction; and the shape predictor maps landmarks of the unit
square into the rectangle it is handed. That rectangle is built from the size of the *bitmap*, and
the points that come back, which belong to the *enlarged image*, are stored as they are.

Coordinates are taken in an arbitrary ordered field with floors, so that the results speak about real
positions as well as about the rational ones a program can compute with.

Two statements would make the frames fit: `CoversBitmap`, that the rectangle contains the enlarged
image of every bitmap pixel, and `AnswersInBitmapFrame`, that a stored point is within a pixel of the
place in the bitmap it shows. `abs_roundPoint_sub_source_le_iff` determines how far from the corner a
landmark may be for the second to hold of it: at most two pixels, whatever the size of the bitmap.
-/

namespace FacialLandmark

variable {K : Type*} [Field K] [LinearOrder K] [IsStrictOrderedRing K] [FloorRing K]

/-- `dlib::rectangle`, with inclusive corners. -/
structure Rectangle where
  left : ℤ
  top : ℤ
  right : ℤ
  bottom : ℤ
  deriving DecidableEq

/-! ## `pyramid_up` -/

def getRect (w h : ℕ) : Rectangle := ⟨0, 0, w - 1, h - 1⟩

/-- Conversion to an integral point or corner: `floor(x + 0.5)`. -/
def roundPoint (x : K) : ℤ := ⌊x + 1 / 2⌋

/-- `pyramid_down_2_1::point_up`, one coordinate: `(p + offset) * 2`. -/
def pointUp (offset p : K) : K := (p + offset) * 2

variable (K) in
/-- `pyr.rect_up(rect)`, converted back to an integral rectangle. -/
def rectUp (rect : Rectangle) : Rectangle where
  left := roundPoint (min (pointUp (5 / 4) (rect.left : K)) (pointUp (5 / 4) rect.right))
  top := roundPoint (min (pointUp (3 / 4) (rect.top : K)) (pointUp (3 / 4) rect.bottom))
  right := roundPoint (max (pointUp (5 / 4) (rect.left : K)) (pointUp (5 / 4) rect.right))
  bottom := roundPoint (max (pointUp (3 / 4) (rect.top : K)) (pointUp (3 / 4) rect.bottom))

variable (K) in
/-- The columns and rows `pyramid_up` gives the enlarged image: `right() + 1` and `bottom() + 1`. -/
def pyramidUpSize (w h : ℕ) : ℤ × ℤ :=
  ((rectUp K (getRect w h)).right + 1, (rectUp K (getRect w h)).bottom + 1)

/-- `(n - 1) / (double) max(m - 1, 1)`, the step `resize_image` takes in the source for each column,
or row, of its output. -/
def resizeScale (n m : ℤ) : K := ((n - 1 : ℤ) : K) / (max (m - 1) 1 : ℤ)

def source (w h : ℕ) (p : K × K) : K × K :=
  (p.1 * resizeScale w (pyramidUpSize K w h).1, p.2 * resizeScale h (pyramidUpSize K w h).2)

/-! ## The predictor -/

/-- `unnormalizing_tform(rect)`: the affine map that takes the corners `(0,0)`, `(1,0)` and `(1,1)`
of the unit square to the corners of the rectangle. -/
def unnormalizingTform (rect : Rectangle) (p : K × K) : K × K :=
  (rect.left + p.1 * (rect.right - rect.left), rect.top + p.2 * (rect.bottom - rect.top))

def region (w h : ℕ) : Rectangle := ⟨0, 0, w, h⟩

/-- The point `detectLandmark` stores for a landmark: `parts[i]` is the image of the landmark under
the transform of the region, rounded to whole pixels. -/
def storedPoint (w h : ℕ) (p : K × K) : ℤ × ℤ :=
  (roundPoint (unnormalizingTform (region w h) p).1,
    roundPoint (unnormalizingTform (region w h) p).2)

variable (K) in
/-- The rectangle handed to the predictor contains the position in the enlarged image of every pixel
of the bitmap. -/
def CoversBitmap (w h : ℕ) : Prop :=
  ∀ i < w, ∀ j < h, ∀ p : K × K, source w h p = ((i : K), (j : K)) →
    ((region w h).left ≤ p.1 ∧ p.1 ≤ (region w h).right) ∧
      (region w h).top ≤ p.2 ∧ p.2 ≤ (region w h).bottom

/-- The stored point is within one pixel, in each coordinate, of the bitmap position shown at the
predictor's point. -/
def NearSource (w h : ℕ) (p : K × K) : Prop :=
  |((storedPoint w h p).1 : K) - (source w h (unnormalizingTform (region w h) p)).1| ≤ 1 ∧
    |((storedPoint w h p).2 : K) - (source w h (unnormalizingTform (region w h) p)).2| ≤ 1

variable (K) in
def AnswersInBitmapFrame (w h : ℕ) : Prop :=
  ∀ p : K × K, 0 ≤ p.1 → p.1 ≤ 1 → 0 ≤ p.2 → p.2 ≤ 1 → NearSource w h p

/-! ## The enlarged image -/

theorem pyramidUpSize_eq {w h : ℕ} (hw : 1 ≤ w) (hh : 1 ≤ h) :
    pyramidUpSize K w h = (2 * (w : ℤ) + 2, 2 * (h : ℤ) + 1) := by
  have hw' : (1 : K) ≤ w := by exact_mod_cast hw
  have hh' : (1 : K) ≤ h := by exact_mod_cast hh
  have hright : (rectUp K (getRect w h)).right = 2 * (w : ℤ) + 1 := by
    simp only [rectUp, getRect, pointUp, roundPoint]
    rw [max_eq_right (by push_cast; linarith), Int.floor_eq_iff]
    push_cast
    constructor <;> linarith
  have hbottom : (rectUp K (getRect w h)).bottom = 2 * (h : ℤ) := by
    simp only [rectUp, getRect, pointUp, roundPoint]
    rw [max_eq_right (by push_cast; linarith), Int.floor_eq_iff]
    push_cast
    constructor <;> linarith
  rw [pyramidUpSize, hright, hbottom]
  ring_nf

theorem source_eq {w h : ℕ} (hw : 1 ≤ w) (hh : 1 ≤ h) (p : K × K) :
    source w h p
      = (p.1 * (((w : K) - 1) / (2 * w + 1)), p.2 * (((h : K) - 1) / (2 * h))) := by
  have hcolumns : max (2 * (w : ℤ) + 2 - 1) 1 = 2 * w + 1 := by omega
  have hrows : max (2 * (h : ℤ) + 1 - 1) 1 = 2 * h := by omega
  rw [source, pyramidUpSize_eq hw hh, resizeScale, resizeScale, hcolumns, hrows]
  push_cast
  rfl

omit [LinearOrder K] [IsStrictOrderedRing K] [FloorRing K] in
theorem unnormalizingTform_region (w h : ℕ) (p : K × K) :
    unnormalizingTform (region w h) p = (p.1 * w, p.2 * h) := by
  simp [unnormalizingTform, region]

/-! ## Which points are stored in the right frame -/

omit [IsStrictOrderedRing K] in
theorem roundPoint_lt_iff {x : K} {n : ℤ} : roundPoint x < n ↔ x + 1 / 2 < n := Int.floor_lt

omit [IsStrictOrderedRing K] in
theorem le_roundPoint_iff {x : K} {n : ℤ} : n ≤ roundPoint x ↔ (n : K) ≤ x + 1 / 2 := Int.le_floor

omit [FloorRing K] in
theorem two_mul_place_le {X c d : K} (hX : 0 ≤ X) (hd : 0 < d) (hratio : 2 * c < d) :
    2 * (X * (c / d)) ≤ X := by
  have hshown : X * (c / d) * d = X * c := by field_simp
  have hmul : 2 * (X * (c / d)) * d ≤ X * d := by
    calc 2 * (X * (c / d)) * d = X * (2 * c) := by rw [mul_assoc, hshown]; ring
      _ ≤ X * d := mul_le_mul_of_nonneg_left hratio.le hX
  exact le_of_mul_le_mul_right hmul hd

/-- A coordinate `X` of the enlarged image shows the bitmap coordinate `X * c / d`. When the ratio is
below one half, rounding `X` lands within a pixel of that place only close to the corner: below
`3 / 2`, or below `5 / 2` where the ratio is still large enough to put the place at 1 or beyond. -/
theorem abs_roundPoint_sub_source_le_iff {X c d : K} (hX : 0 ≤ X) (hc : 0 ≤ c) (hd : 0 < d)
    (hratio : 2 * c < d) :
    |(roundPoint X : K) - X * (c / d)| ≤ 1 ↔ X < 3 / 2 ∨ (X < 5 / 2 ∧ d ≤ X * c) := by
  have hlow : (roundPoint X : K) ≤ X + 1 / 2 := Int.floor_le _
  have hhigh : X + 1 / 2 < roundPoint X + 1 := Int.lt_floor_add_one _
  have hplace : 0 ≤ X * (c / d) := mul_nonneg hX (div_nonneg hc hd.le)
  have hhalf := two_mul_place_le hX hd hratio
  have hone : 1 ≤ X * (c / d) ↔ d ≤ X * c := by rw [← mul_div_assoc, one_le_div hd]
  rw [abs_le, ← hone]
  constructor
  · rintro ⟨-, hnear⟩
    by_cases hsmall : X < 3 / 2
    · exact Or.inl hsmall
    · -- the rounded value is at least 2, and it is at most 1 above a place at most half way
      have htwo : 2 ≤ roundPoint X := le_roundPoint_iff.mpr (by push_cast; linarith)
      have htwo' : (2 : K) ≤ roundPoint X := by exact_mod_cast htwo
      have hlt : roundPoint X < 3 := by
        by_contra hge
        have hge' : (3 : K) ≤ roundPoint X := by exact_mod_cast not_lt.mp hge
        linarith
      have hlt' : (roundPoint X : K) ≤ 2 := by exact_mod_cast Int.le_of_lt_add_one hlt
      exact Or.inr ⟨by linarith, by linarith⟩
  · rintro (hsmall | ⟨hsmall, hplace'⟩)
    · have hlt : roundPoint X < 2 := roundPoint_lt_iff.mpr (by push_cast; linarith)
      have hlt' : (roundPoint X : K) ≤ 1 := by exact_mod_cast Int.le_of_lt_add_one hlt
      constructor <;> linarith
    · have hlt : roundPoint X < 3 := roundPoint_lt_iff.mpr (by push_cast; linarith)
      have hlt' : (roundPoint X : K) ≤ 2 := by exact_mod_cast Int.le_of_lt_add_one hlt
      constructor <;> linarith

/-- **The landmarks stored in the right frame** are those at most two pixels from the left edge and
from the upper edge. -/
theorem nearSource_iff {w h : ℕ} (hw : 2 ≤ w) (hh : 2 ≤ h) {p : K × K} (hp1 : 0 ≤ p.1)
    (hp2 : 0 ≤ p.2) :
    NearSource w h p
      ↔ (p.1 * w < 3 / 2 ∨ (p.1 * w < 5 / 2 ∧ 2 * (w : K) + 1 ≤ p.1 * w * (w - 1))) ∧
        (p.2 * h < 3 / 2 ∨ (p.2 * h < 5 / 2 ∧ 2 * (h : K) ≤ p.2 * h * (h - 1))) := by
  have hw' : (2 : K) ≤ w := by exact_mod_cast hw
  have hh' : (2 : K) ≤ h := by exact_mod_cast hh
  rw [NearSource, storedPoint, unnormalizingTform_region, source_eq (by omega) (by omega)]
  refine and_congr ?_ ?_
  · exact abs_roundPoint_sub_source_le_iff (by positivity) (by linarith) (by positivity)
      (by linarith)
  · exact abs_roundPoint_sub_source_le_iff (by positivity) (by linarith) (by positivity)
      (by linarith)

theorem not_coversBitmap {w h : ℕ} (hw : 2 ≤ w) (hh : 1 ≤ h) : ¬CoversBitmap K w h := by
  intro hcovers
  have hw' : (2 : K) ≤ w := by exact_mod_cast hw
  have hlast : source w h ((2 * w + 1 : K), (0 : K)) = (((w - 1 : ℕ) : K), ((0 : ℕ) : K)) := by
    rw [source_eq (by omega) hh]
    refine Prod.ext ?_ ?_
    · push_cast [Nat.cast_sub (by omega : 1 ≤ w)]
      field_simp
    · simp
  obtain ⟨⟨-, hright⟩, -⟩ := hcovers (w - 1) (by omega) 0 (by omega) _ hlast
  simp only [region] at hright
  push_cast at hright
  linarith

theorem not_answersInBitmapFrame {w h : ℕ} (hw : 2 ≤ w) (hh : 2 ≤ h) :
    ¬AnswersInBitmapFrame K w h := by
  intro hanswers
  have hw' : (2 : K) ≤ w := by exact_mod_cast hw
  have hcorner := hanswers ((1 : K), (0 : K)) zero_le_one le_rfl le_rfl zero_le_one
  rw [nearSource_iff hw hh zero_le_one le_rfl] at hcorner
  rcases hcorner.1 with hsmall | ⟨hsmall, hplace⟩
  · linarith
  · have htwo : w = 2 := by
      have hlt : (w : K) < (3 : ℕ) := by push_cast; linarith
      have hlt' : w < 3 := by exact_mod_cast hlt
      omega
    subst htwo
    norm_num at hplace

/-- **The frames disagree** for every bitmap: the region does not cover the picture, and not every
point is stored in bitmap coordinates. -/
theorem frames_disagree {w h : ℕ} (hw : 2 ≤ w) (hh : 2 ≤ h) :
    ¬CoversBitmap K w h ∧ ¬AnswersInBitmapFrame K w h :=
  ⟨not_coversBitmap hw (by omega), not_answersInBitmapFrame hw hh⟩

theorem frames_disagree_three_two : ¬CoversBitmap ℚ 3 2 ∧ ¬AnswersInBitmapFrame ℚ 3 2 :=
  frames_disagree (by decide) (by decide)

/-- On a bitmap of two by two pixels the lower right pixel is shown at `(5, 4)`, and the region ends
at `(2, 2)`. -/
theorem not_forall_frames_agree :
    ¬∀ w h : ℕ, 2 ≤ w → 2 ≤ h → CoversBitmap ℚ w h ∧ AnswersInBitmapFrame ℚ w h := by
  intro hall
  have hcovers := (hall 2 2 (by decide) (by decide)).1
  have hshown : source 2 2 ((5 : ℚ), (4 : ℚ)) = (((1 : ℕ) : ℚ), ((1 : ℕ) : ℚ)) := by
    rw [source_eq (by decide) (by decide)]
    norm_num
  have hinside := hcovers 1 (by decide) 1 (by decide) _ hshown
  norm_num [region] at hinside

end FacialLandmark
