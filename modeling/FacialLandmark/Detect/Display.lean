import FacialLandmark.Detect.HandOff
import FacialLandmark.Library.FitCenter
import Mathlib.Data.List.Forall2
import Mathlib.Data.Rat.Cast.Order

/-!
# Circles on the displayed picture

`onCreate` puts the bitmap into an `ImageWithLandmark` whose size comes from the layout: 200dp high,
and `wrap_content` wide. An `ImageView` fits a bitmap into its view and centres it, which is
`FitCenter.place`. The circles are drawn on the canvas of the view at the landmark coordinates as they
are; `mRenderMatrix`, declared for the way from the one frame to the other, is never used.

Rounding is left out of account: the error of `toFloat` is taken off a centre before it is compared.
-/

namespace FacialLandmark

/-! ## The pairs of a landmark array -/

/-- The points of a flat array, two elements for each. -/
def pairs : List JLong → List Point
  | x :: y :: rest => ⟨x, y⟩ :: pairs rest
  | _ => []

theorem length_pairs {landmarks : List JLong} (heven : landmarks.length % 2 = 0) :
    landmarks.length = 2 * (pairs landmarks).length := by
  fun_induction pairs landmarks with
  | case1 x y rest ih =>
    simp only [List.length_cons] at heven ⊢
    have hrest := ih (by omega)
    omega
  | case2 landmarks hshort =>
    match landmarks with
    | [] => rfl
    | [_] => exact absurd heven (by simp)
    | x :: y :: rest => exact absurd rfl (hshort x y rest)

theorem getElem?_pairs {landmarks : List JLong} {m : ℕ} (hm : m < (pairs landmarks).length) :
    landmarks[2 * m]? = some ((pairs landmarks).getD m default).x ∧
      landmarks[2 * m + 1]? = some ((pairs landmarks).getD m default).y := by
  fun_induction pairs landmarks generalizing m with
  | case1 x y rest ih =>
    cases m with
    | zero => exact ⟨rfl, rfl⟩
    | succ m => exact ih (Nat.lt_of_succ_lt_succ hm)
  | case2 => exact absurd hm (Nat.not_lt_zero m)

theorem onDrawForeground_setLendmarks {landmarks : List JLong} (heven : landmarks.length % 2 = 0) :
    (ImageWithLandmark.setLendmarks landmarks).onDrawForeground
      = some ((pairs landmarks).map fun p ↦ { cx := p.x.toFloat, cy := p.y.toFloat, radius := 8 }) :=
  onDrawForeground_eq (length_pairs heven) fun _ hm ↦ getElem?_pairs hm

/-! ## The display -/

structure Display where
  width : ℕ
  height : ℕ
  viewWidth : ℕ
  viewHeight : ℕ
  width_pos : 1 ≤ width
  height_pos : 1 ≤ height
  viewWidth_pos : 1 ≤ viewWidth
  viewHeight_pos : 1 ≤ viewHeight

def Point.toPlane (p : Point) : ℚ × ℚ := (p.x.toInt, p.y.toInt)

/-- The centre of the circle drawn for a landmark, without the error of `toFloat`. -/
def Circle.centre (c : Circle) (p : Point) : ℚ × ℚ :=
  (c.cx - (p.x.toFloat - p.x.toInt), c.cy - (p.y.toFloat - p.y.toInt))

theorem Circle.centre_of_exact (c : Circle) {p : Point} (hx : p.x.Exact) (hy : p.y.Exact) :
    c.centre p = ((c.cx : ℚ), (c.cy : ℚ)) := by
  rw [centre, JLong.toFloat_eq_iff.mpr hx, JLong.toFloat_eq_iff.mpr hy, sub_self, sub_zero,
    sub_self, sub_zero]

namespace Display

variable (d : Display)

/-- How an `ImageView` shows the bitmap: scaled to fit the view, and centred. -/
def fitCenter : FitCenter ℚ where
  width := d.width
  height := d.height
  boxWidth := d.viewWidth
  boxHeight := d.viewHeight
  width_pos := Nat.cast_pos.mpr d.width_pos
  height_pos := Nat.cast_pos.mpr d.height_pos
  boxWidth_pos := Nat.cast_pos.mpr d.viewWidth_pos
  boxHeight_pos := Nat.cast_pos.mpr d.viewHeight_pos

def Contains (p : Point) : Prop :=
  (0 ≤ p.x.toInt ∧ p.x.toInt ≤ d.width) ∧ (0 ≤ p.y.toInt ∧ p.y.toInt ≤ d.height)

instance (p : Point) : Decidable (d.Contains p) :=
  inferInstanceAs (Decidable (_ ∧ _))

/-- The circles drawn for the landmarks, one for each pair, are centred where the pairs are displayed,
and inside the displayed bitmap. -/
def CirclesOnPicture (landmarks : List JLong) : Prop :=
  ∃ circles, (ImageWithLandmark.setLendmarks landmarks).onDrawForeground = some circles ∧
    List.Forall₂ (fun c p ↦ c.centre p = d.fitCenter.place p.toPlane ∧
      c.centre p ∈ d.fitCenter.shown) circles (pairs landmarks)

/-- A landmark that the display leaves in place although it scales the bitmap. Where the width is what
limits the scale, it is on the left edge, at the one height that is kept; otherwise on the top edge. -/
def LeftInPlace (p : Point) : Prop :=
  if d.viewWidth * d.height ≤ d.viewHeight * d.width then
    p.x.toInt = 0 ∧ 2 * ((d.width : ℤ) - d.viewWidth) * p.y.toInt
      = d.viewHeight * d.width - d.viewWidth * d.height
  else
    p.y.toInt = 0 ∧ 2 * ((d.height : ℤ) - d.viewHeight) * p.x.toInt
      = d.viewWidth * d.height - d.viewHeight * d.width

instance (p : Point) : Decidable (d.LeftInPlace p) :=
  inferInstanceAs (Decidable (if d.viewWidth * d.height ≤ d.viewHeight * d.width then _ ∧ _ else
    _ ∧ _))

variable {d}

theorem mem_Icc_of_contains {p : Point} (h : d.Contains p) :
    p.toPlane ∈ Set.Icc (0, 0) (d.fitCenter.width, d.fitCenter.height) := by
  obtain ⟨⟨hx0, hx⟩, hy0, hy⟩ := h
  have hright : (p.x.toInt : ℚ) ≤ (d.width : ℚ) := by exact_mod_cast hx
  have hbottom : (p.y.toInt : ℚ) ≤ (d.height : ℚ) := by exact_mod_cast hy
  exact ⟨⟨Int.cast_nonneg hx0, Int.cast_nonneg hy0⟩, hright, hbottom⟩

theorem anchored_iff {p : Point} : d.fitCenter.Anchored p.toPlane ↔ d.LeftInPlace p := by
  simp only [FitCenter.Anchored, LeftInPlace, fitCenter, Point.toPlane]
  norm_cast

theorem centre_eq_place_iff {p : Point} (hpoint : d.Contains p) (radius : ℤ) :
    (Circle.centre ⟨p.x.toFloat, p.y.toFloat, radius⟩ p = d.fitCenter.place p.toPlane ∧
        Circle.centre ⟨p.x.toFloat, p.y.toFloat, radius⟩ p ∈ d.fitCenter.shown)
      ↔ (d.viewWidth = d.width ∧ d.viewHeight = d.height) ∨ d.LeftInPlace p := by
  have hcentre : Circle.centre ⟨p.x.toFloat, p.y.toFloat, radius⟩ p = p.toPlane := by
    rw [Circle.centre, Point.toPlane, sub_sub_cancel, sub_sub_cancel]
  have hsize : (d.fitCenter.boxWidth = d.fitCenter.width ∧
        d.fitCenter.boxHeight = d.fitCenter.height)
      ↔ (d.viewWidth = d.width ∧ d.viewHeight = d.height) :=
    and_congr Nat.cast_inj Nat.cast_inj
  rw [hcentre, ← anchored_iff, ← hsize, ← FitCenter.place_eq_self_iff]
  constructor
  · rintro ⟨hplace, -⟩
    exact hplace.symm
  · intro hplace
    refine ⟨hplace.symm, ?_⟩
    rw [← hplace]
    exact d.fitCenter.place_mem_shown (mem_Icc_of_contains hpoint)

/-- **The circles lie on the displayed picture** exactly when the view has the size of the bitmap, or
the display leaves every landmark in place. -/
theorem circlesOnPicture_iff {landmarks : List JLong} (heven : landmarks.length % 2 = 0)
    (hpoints : ∀ p ∈ pairs landmarks, d.Contains p) :
    d.CirclesOnPicture landmarks
      ↔ (d.viewWidth = d.width ∧ d.viewHeight = d.height) ∨
        ∀ p ∈ pairs landmarks, d.LeftInPlace p := by
  have hcircles : d.CirclesOnPicture landmarks ↔ ∀ p ∈ pairs landmarks,
      (d.viewWidth = d.width ∧ d.viewHeight = d.height) ∨ d.LeftInPlace p := by
    rw [CirclesOnPicture, onDrawForeground_setLendmarks heven]
    simp only [Option.some_inj, exists_eq_left', List.forall₂_map_left_iff, List.forall₂_same]
    exact forall₂_congr fun p hp ↦ centre_eq_place_iff (hpoints p hp) 8
  rw [hcircles]
  by_cases hsize : d.viewWidth = d.width ∧ d.viewHeight = d.height
  · exact iff_of_true (fun _ _ ↦ Or.inl hsize) (Or.inl hsize)
  · rw [or_iff_right hsize]
    exact forall₂_congr fun _ _ ↦ or_iff_right hsize

/-- A bitmap shown at double size, in a view with room to spare on both sides. -/
def doubled : Display where
  width := 100
  height := 100
  viewWidth := 600
  viewHeight := 200
  width_pos := by decide
  height_pos := by decide
  viewWidth_pos := by decide
  viewHeight_pos := by decide

theorem circlesOnPicture_doubled :
    doubled.CirclesOnPicture [50#64, 50#64, 0#64, 100#64]
      ↔ (doubled.viewWidth = doubled.width ∧ doubled.viewHeight = doubled.height) ∨
        ∀ p ∈ pairs [50#64, 50#64, 0#64, 100#64], doubled.LeftInPlace p :=
  circlesOnPicture_iff (by decide) (by decide)

/-- The middle of the bitmap is displayed in the middle of the view, at `(300, 100)`, and its circle is
drawn at `(50, 50)`, beside the picture. -/
theorem not_forall_circlesOnPicture :
    ¬∀ (d : Display) (landmarks : List JLong), landmarks.length % 2 = 0 →
      (∀ p ∈ pairs landmarks, d.Contains p) → d.CirclesOnPicture landmarks := by
  intro hall
  obtain ⟨circles, hcircles, hcentres⟩ := hall doubled [50#64, 50#64] (by decide) (by decide)
  have hdrawn : (ImageWithLandmark.setLendmarks [50#64, 50#64]).onDrawForeground
      = some [⟨50, 50, 8⟩] := by decide
  obtain rfl := Option.some_inj.mp (hcircles.symm.trans hdrawn)
  obtain ⟨⟨hplace, -⟩, -⟩ := List.forall₂_cons.mp hcentres
  have hfloat : JLong.toFloat 50#64 = 50 := by decide
  have hint : BitVec.toInt 50#64 = 50 := by decide
  simp only [Circle.centre, Point.toPlane, FitCenter.place, FitCenter.scale, fitCenter, doubled,
    hfloat, hint, Prod.mk.injEq] at hplace
  norm_num at hplace

end Display

end FacialLandmark
