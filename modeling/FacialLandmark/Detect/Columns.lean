import Mathlib.Tactic.FinCases
import FacialLandmark.Detect.Positions

/-!
# One row of the enlarged image

Both loops over the columns are followed with the same invariant: the position is where it should be
but for what the roundings so far can have added, and the cells before it hold pixels that belong
there.
-/

namespace FacialLandmark

open BinaryFloat

variable {in_img : Array2d} {top bottom : ℤ} {y : ℚ} {nc : ℕ}

/-! ## The plain loop -/

/-- The loop head before column `c + i`, if the loop started at column `c`. The position is still that
of the column before. -/
structure ColumnHead (in_img : Array2d) (y : ℚ) (nc c i : ℕ) (t : Double × PixelRow) (a : ℚ) :
    Prop where
  hasValue : HasValue t.1 a
  low : -binary64.nearest (resizeScale in_img.numColumns nc) ≤ a
  near : |a + resizeScale in_img.numColumns nc - ((c + i : ℕ) : ℚ) * resizeScale in_img.numColumns nc|
    ≤ (c + 3 + 2 * i) / 2 ^ 41
  filled : t.2.Filled (BelongsTo in_img y nc) nc (c + i)

theorem ColumnHead.step (h : RowsAround in_img top bottom y) (hsize : Doubles in_img.numColumns nc)
    {tb_frac : Double} {tb : ℚ} (htb : HasValue tb_frac tb) (htb' : 0 ≤ tb ∧ tb ≤ 1) {c i : ℕ}
    (hj : c + i < nc) {t : Double × PixelRow} {a : ℚ} (ht : ColumnHead in_img y nc c i t a) :
    ∃ t' b, columnStep in_img top bottom tb_frac (scaleOf in_img.numColumns nc) c t i = some t' ∧
      ColumnHead in_img y nc c (i + 1) t' b := by
  obtain ⟨ha, hlow, hnear, hfilled⟩ := ht
  have hcolumns := hsize.le
  have hnc := hsize.le_two_mul
  have herror : ((c : ℚ) + 3 + 2 * i) / 2 ^ 41 ≤ 1 / 4 := by
    have hcount : (c : ℚ) + 3 + 2 * i ≤ 16391 := by
      exact_mod_cast (by omega : c + 3 + 2 * i ≤ 16391)
    rw [div_le_div_iff₀ (by norm_num) (by norm_num)]
    linarith
  obtain ⟨b, hb, hlow', hnear'⟩ := hsize.advance hj ha hlow herror hnear
  have hfloor : 0 ≤ ⌊b⌋ := Int.floor_nonneg.mpr hb.nonneg
  have hleft := hb.floor_lt
  obtain ⟨corners, hcorners, hshows⟩ := h.exists_corners_floor hb.nonneg hb.near
    (min (⌊b⌋ + 1) ((in_img.numColumns : ℤ) - 1)) (by omega) (by omega)
  obtain ⟨pixel, hpixel, hmixed⟩ := exists_blendPixel htb hb.frac htb'
    (nearest_double_fraction (fract_mem b)) corners
  obtain ⟨row', hstore, hrow'⟩ := hfilled.store hj
    (show BelongsTo in_img y nc (c + i) pixel from hshows hmixed)
  refine ⟨(t.1.add (scaleOf in_img.numColumns nc), row'), b, ?_, hb.hasValue, hlow', ?_, hrow'⟩
  · simp only [columnStep, hb.floor_eq, hcorners, hpixel, hstore, Option.bind_eq_bind,
      Option.bind_some]
  · refine hnear'.trans (le_of_eq ?_)
    push_cast
    ring

/-- **The plain loop** writes the rest of a row. -/
theorem columnLoop_filled (h : RowsAround in_img top bottom y) (hsize : Doubles in_img.numColumns nc)
    {tb_frac : Double} {tb : ℚ} (htb : HasValue tb_frac tb) (htb' : 0 ≤ tb ∧ tb ≤ 1) {c : ℕ}
    (hc : c ≤ nc) {row : PixelRow} (hrow : row.Filled (BelongsTo in_img y nc) nc c) :
    ∃ row', columnLoop in_img top bottom tb_frac (scaleOf in_img.numColumns nc) c row = some row' ∧
      row'.Filled (BelongsTo in_img y nc) nc nc := by
  have hnc := hsize.le_two_mul
  have hcolumns := hsize.le
  obtain ⟨a, ha, ha', hnear⟩ := hsize.step.start (c := c) (by omega)
  have hbody : ∀ i t, i < row.length - c → (∃ a, ColumnHead in_img y nc c i t a) →
      ∃ t', columnStep in_img top bottom tb_frac (scaleOf in_img.numColumns nc) c t i = some t' ∧
        ∃ a, ColumnHead in_img y nc c (i + 1) t' a := by
    rintro i t hi ⟨a, ht⟩
    have hj : c + i < nc := by
      rw [hrow.length_eq] at hi
      omega
    obtain ⟨t', b, hstep, ht'⟩ := ht.step h hsize htb htb' hj
    exact ⟨t', hstep, b, ht'⟩
  obtain ⟨t, hloop, b, ht⟩ := Raster.forRange?_total
    (s := ((scaleOf in_img.numColumns nc).neg.add ((double c).mul (scaleOf in_img.numColumns nc)), row))
    _ ⟨a, ha, ha', by simpa using hnear, hrow⟩ hbody
  have hend : c + (row.length - c) = nc := by
    rw [hrow.length_eq]
    omega
  have hfilled := ht.filled
  rw [hend] at hfilled
  refine ⟨t.2, ?_, hfilled⟩
  rw [columnLoop, hloop]
  rfl

/-! ## Four lanes -/

/-- `_x_scale`. -/
theorem Step.lanes {n m : ℕ} {scale : Double} {v : ℚ} (h : Step n m scale v) :
    HasValue (((double 4).mul scale).convert binary32) (binary32.nearest (binary64.nearest (4 * v))) ∧
      (0 ≤ binary32.nearest (binary64.nearest (4 * v)) ∧
        binary32.nearest (binary64.nearest (4 * v)) ≤ 2) ∧
      |binary32.nearest (binary64.nearest (4 * v)) - 4 * resizeScale n m| ≤ 1 / 2 ^ 23 := by
  have hmem : (0 : ℚ) ≤ 4 * v ∧ 4 * v ≤ 2 := ⟨by linarith [h.mem.1], by linarith [h.mem.2]⟩
  have hdouble := nearest_double_mem 0 2 (v := 4 * v) (by decide) (by decide)
    (by exact_mod_cast hmem)
  have hsingle := nearest_single_mem 0 2 (by decide) (by decide) hdouble
  push_cast at hdouble hsingle
  have hfour : HasValue (double 4) 4 := by exact_mod_cast hasValue_double (z := 4) (by decide)
  have herror := abs_nearest_double_le (v := 4 * v) (by rw [abs_of_nonneg hmem.1]; linarith)
  have herror' := abs_nearest_single_le_of_fraction (v := binary64.nearest (4 * v))
    (by rw [abs_of_nonneg hdouble.1]; exact hdouble.2)
  have hstep := h.near
  refine ⟨(hfour.mul h.hasValue (le_limit_double (by rw [abs_of_nonneg hmem.1]; linarith))).convert
    (le_limit_single (by rw [abs_of_nonneg hdouble.1]; linarith)), hsingle, ?_⟩
  rw [abs_le] at herror herror' hstep ⊢
  norm_num at herror herror' hstep ⊢
  constructor <;> linarith

/-- The lanes at the loop head before column `c`. Their positions are still those of four columns
before. -/
structure LanesAt (n m c : ℕ) (x : Simd4f) (a : Fin 4 → ℚ) : Prop where
  hasValue : ∀ k, HasValue (x k) (a k)
  low : -binary32.nearest (binary64.nearest (4 * binary64.nearest (resizeScale n m))) ≤ a 0
  mono : ∀ k, a 0 ≤ a k ∧ a k ≤ a 3
  last : a 3 ≤ 4096
  near : ∀ k : Fin 4, |a k + 4 * resizeScale n m - ((c + k : ℕ) : ℚ) * resizeScale n m|
    ≤ (c + 4) / 30000

def laneOffset (v : ℚ) : Fin 4 → ℚ :=
  ![0, v, binary64.nearest (2 * v), binary64.nearest (3 * v)]

def laneStart (v : ℚ) (k : Fin 4) : ℚ :=
  binary32.nearest (binary64.nearest (binary64.nearest (-4 * v) + laneOffset v k))

section Start

variable {n m : ℕ} {scale : Double} {v : ℚ}

theorem Step.laneOffset_mem (h : Step n m scale v) (k : Fin 4) :
    0 ≤ laneOffset v k ∧ laneOffset v k ≤ laneOffset v 3 ∧ laneOffset v k ≤ 2 := by
  obtain ⟨hv0, hv⟩ := h.mem
  have hone : v ≤ binary64.nearest (2 * v) :=
    h.hasValue.nearest_eq.symm.le.trans (Format.nearest_mono (by linarith))
  have htwo : binary64.nearest (2 * v) ≤ binary64.nearest (3 * v) := Format.nearest_mono (by linarith)
  have hthree := nearest_double_mem 0 2 (v := 3 * v) (by decide) (by decide)
    ⟨by push_cast; linarith, by push_cast; linarith⟩
  push_cast at hthree
  fin_cases k
  · exact ⟨le_rfl, hthree.1, zero_le_two⟩
  · exact ⟨hv0, hone.trans htwo, hv.trans (by norm_num)⟩
  · exact ⟨hv0.trans hone, htwo, htwo.trans hthree.2⟩
  · exact ⟨hthree.1, le_rfl, hthree.2⟩

theorem Step.abs_laneOffset_sub_le (h : Step n m scale v) (k : Fin 4) :
    |laneOffset v k - (k : ℕ) * v| ≤ 1 / 2 ^ 41 := by
  obtain ⟨hv0, hv⟩ := h.mem
  fin_cases k
  · simp [laneOffset]
  · simp [laneOffset]
  · exact abs_nearest_double_le (by rw [abs_of_nonneg (by linarith)]; linarith)
  · exact abs_nearest_double_le (by rw [abs_of_nonneg (by linarith)]; linarith)

/-- `x = -4*x_scale`. -/
theorem Step.first_spec (h : Step n m scale v) :
    HasValue ((double (-4)).mul scale) (binary64.nearest (-4 * v)) ∧
      (-2 ≤ binary64.nearest (-4 * v) ∧ binary64.nearest (-4 * v) ≤ 0) ∧
      |binary64.nearest (-4 * v) + 4 * v| ≤ 1 / 2 ^ 41 := by
  obtain ⟨hv0, hv⟩ := h.mem
  have habs : |-4 * v| ≤ 8192 := by
    rw [abs_le]
    constructor <;> linarith
  have hmem := nearest_double_mem (-2) 0 (v := -4 * v) (by decide) (by decide)
    ⟨by push_cast; linarith, by push_cast; linarith⟩
  have hfour : HasValue (double (-4)) (-4) := by exact_mod_cast hasValue_double (z := -4) (by decide)
  have herror := abs_nearest_double_le habs
  rw [neg_mul, sub_neg_eq_add] at herror
  exact ⟨hfour.mul h.hasValue (le_limit_double habs), by exact_mod_cast hmem, by rwa [neg_mul]⟩

theorem Step.sum_mem (h : Step n m scale v) (k : Fin 4) :
    -2 ≤ binary64.nearest (-4 * v) + laneOffset v k ∧
      binary64.nearest (-4 * v) + laneOffset v k ≤ 2 := by
  obtain ⟨hoffset, -, hoffset'⟩ := h.laneOffset_mem k
  obtain ⟨-, ⟨hfirst, hfirst'⟩, -⟩ := h.first_spec
  constructor <;> linarith

theorem Step.nearest_sum_mem (h : Step n m scale v) (k : Fin 4) :
    -2 ≤ binary64.nearest (binary64.nearest (-4 * v) + laneOffset v k) ∧
      binary64.nearest (binary64.nearest (-4 * v) + laneOffset v k) ≤ 2 := by
  exact_mod_cast nearest_double_mem (-2) 2 (by decide) (by decide)
    (by exact_mod_cast h.sum_mem k)

theorem Step.hasValue_lane (h : Step n m scale v) {x : Double} {k : Fin 4}
    (hx : HasValue x (laneOffset v k)) :
    HasValue ((((double (-4)).mul scale).add x).convert binary32) (laneStart v k) := by
  have hlarge : ∀ {u : ℚ}, -2 ≤ u ∧ u ≤ 2 → |u| ≤ 8192 := fun hu ↦
    (abs_le.mpr hu).trans (by norm_num)
  exact (h.first_spec.1.add hx (le_limit_double (hlarge (h.sum_mem k)))).convert
    (le_limit_single (hlarge (h.nearest_sum_mem k)))

theorem Step.hasValue_startLanes (h : Step n m scale v) (k : Fin 4) :
    HasValue (startLanes scale k) (laneStart v k) := by
  obtain ⟨hv0, hv⟩ := h.mem
  have hproduct : ∀ {i : ℤ}, 0 ≤ i → i ≤ 3 →
      HasValue ((double i).mul scale) (binary64.nearest ((i : ℚ) * v)) := by
    intro i hi hi'
    have hi0 : (0 : ℚ) ≤ i := by exact_mod_cast hi
    have hi3 : (i : ℚ) ≤ 3 := by exact_mod_cast hi'
    refine (hasValue_double (by omega)).mul h.hasValue (le_limit_double ?_)
    rw [abs_of_nonneg (mul_nonneg hi0 hv0)]
    nlinarith
  fin_cases k
  · -- nothing is added in the first lane
    have hfirst := h.first_spec.1
    have hself : laneStart v 0 = binary32.nearest (binary64.nearest (-4 * v)) := by
      rw [laneStart, show laneOffset v 0 = 0 from rfl, add_zero, hfirst.nearest_eq]
    change HasValue (((double (-4)).mul scale).convert binary32) (laneStart v 0)
    rw [hself]
    refine hfirst.convert (le_limit_single ?_)
    rw [abs_le]
    constructor <;> linarith [h.first_spec.2.1.1, h.first_spec.2.1.2]
  · exact h.hasValue_lane (k := 1) h.hasValue
  · exact h.hasValue_lane (k := 2) (by exact_mod_cast hproduct (i := 2) (by decide) (by decide))
  · exact h.hasValue_lane (k := 3) (by exact_mod_cast hproduct (i := 3) (by decide) (by decide))

theorem Step.abs_laneStart_le (h : Step n m scale v) (k : Fin 4) :
    |laneStart v k + 4 * resizeScale n m - (k : ℕ) * resizeScale n m| ≤ 4 / 30000 := by
  have hstep := h.near
  have hfirst := h.first_spec.2.2
  have hoffset := h.abs_laneOffset_sub_le k
  have hsum := abs_nearest_double_le (v := binary64.nearest (-4 * v) + laneOffset v k)
    ((abs_le.mpr (h.sum_mem k)).trans (by norm_num))
  have hlane := abs_nearest_single_le_of_fraction (abs_le.mpr (h.nearest_sum_mem k))
  have hk0 : (0 : ℚ) ≤ ((k : ℕ) : ℚ) := Nat.cast_nonneg _
  have hk3 : ((k : ℕ) : ℚ) ≤ 3 := by exact_mod_cast Nat.le_of_lt_succ k.isLt
  have hscaled : |((k : ℕ) : ℚ) * (v - resizeScale n m)| ≤ 3 * (1 / 2 ^ 41) := by
    rw [abs_mul, abs_of_nonneg hk0]
    exact mul_le_mul hk3 hstep (abs_nonneg _) (by norm_num)
  rw [mul_sub] at hscaled
  rw [laneStart]
  rw [abs_le] at hstep hfirst hoffset hsum hlane hscaled ⊢
  norm_num at hstep hfirst hoffset hsum hlane hscaled ⊢
  constructor <;> linarith

theorem Doubles.startLanes (h : Doubles n m) :
    LanesAt n m 0 (startLanes (scaleOf n m)) (laneStart (binary64.nearest (resizeScale n m))) := by
  have hstep := h.step
  refine ⟨hstep.hasValue_startLanes, ?_, fun k ↦ ?_, ?_, fun k ↦ ?_⟩
  · -- the first lane is the negated step of four columns
    rw [laneStart, show laneOffset (binary64.nearest (resizeScale n m)) 0 = 0 from rfl, add_zero,
      hstep.first_spec.1.nearest_eq, neg_mul, Format.nearest_neg, Format.nearest_neg]
  · obtain ⟨hlow, hhigh, -⟩ := hstep.laneOffset_mem k
    have hzero : laneOffset (binary64.nearest (resizeScale n m)) 0 = 0 := rfl
    exact ⟨Format.nearest_mono (Format.nearest_mono (by rw [hzero]; linarith)),
      Format.nearest_mono (Format.nearest_mono (by linarith))⟩
  · have hlast := hstep.abs_laneStart_le 3
    have hscale := resizeScale_nonneg h.pos m
    have hhalf := h.resizeScale_le
    rw [abs_le] at hlast
    norm_num at hlast
    linarith [hlast.2]
  · rw [Nat.zero_add, Nat.cast_zero, zero_add]
    exact hstep.abs_laneStart_le k

end Start

/-! ## The four-lane loop -/

section Lanes

variable {n m c : ℕ} {x : Simd4f} {a : Fin 4 → ℚ}

/-- The positions after `_x += _x_scale`: they are not negative and in order, and as long as the last
lane has not come to the last column a source can have, they are where they should be. -/
theorem LanesAt.advance (h : LanesAt n m c x a) (hsize : Doubles n m) :
    ∃ b : Fin 4 → ℚ,
      (∀ k, HasValue ((x k).add (((double 4).mul (scaleOf n m)).convert binary32)) (b k)) ∧
      (∀ k, 0 ≤ b 0 ∧ b 0 ≤ b k ∧ b k ≤ b 3) ∧ b 3 ≤ 8192 ∧
      (b 3 < 4096 → ∀ k : Fin 4,
        |b k - ((c + k : ℕ) : ℚ) * resizeScale n m| ≤ (c + 8) / 30000) := by
  obtain ⟨hscale, ⟨hstep0, hstep2⟩, hstep⟩ := hsize.step.lanes
  obtain ⟨step, hdef⟩ : ∃ step,
      binary32.nearest (binary64.nearest (4 * binary64.nearest (resizeScale n m))) = step := ⟨_, rfl⟩
  have hlow := h.low
  rw [hdef] at hscale hstep0 hstep2 hstep hlow
  have hmem : ∀ k, 0 ≤ a k + step ∧ a k + step ≤ 8192 := by
    intro k
    obtain ⟨hfirst, hlast⟩ := h.mono k
    have hmax := h.last
    constructor <;> linarith
  have habs : ∀ k, |a k + step| ≤ 8192 := fun k ↦ by
    rw [abs_of_nonneg (hmem k).1]
    exact (hmem k).2
  refine ⟨fun k ↦ binary32.nearest (a k + step),
    fun k ↦ (h.hasValue k).add hscale (le_limit_single (habs k)), fun k ↦ ?_, ?_, fun hend k ↦ ?_⟩
  · exact ⟨Format.nearest_nonneg (hmem 0).1, Format.nearest_mono (by linarith [(h.mono k).1]),
      Format.nearest_mono (by linarith [(h.mono k).2])⟩
  · have hlast := nearest_single_mem 0 8192 (by decide) (by decide)
      (by exact_mod_cast hmem 3)
    exact_mod_cast hlast.2
  · -- beyond 4096 the last lane would have been rounded to 4096 at least
    have hsmall : a 3 + step ≤ 4096 := by
      by_contra hlarge
      have hexact : binary32.nearest (4096 : ℤ) = (4096 : ℤ) :=
        Format.nearest_intCast hasIntegers_binary32 (by decide)
      have hmono : binary32.nearest (4096 : ℤ) ≤ binary32.nearest (a 3 + step) :=
        Format.nearest_mono (by push_cast; linarith)
      rw [hexact] at hmono
      push_cast at hmono
      linarith
    have herror := abs_nearest_single_le (v := a k + step) (by
      rw [abs_of_nonneg (hmem k).1]
      linarith [(h.mono k).2])
    have hnear := h.near k
    rw [abs_le] at herror hnear hstep ⊢
    norm_num at herror hnear hstep ⊢
    constructor <;> linarith

/-- These positions are where the next round starts from. -/
theorem LanesAt.of_near (hsize : Doubles n m) {b : Fin 4 → ℚ} (hx : ∀ k, HasValue (x k) (b k))
    (horder : ∀ k, 0 ≤ b 0 ∧ b 0 ≤ b k ∧ b k ≤ b 3) (hlast : b 3 ≤ 4096)
    (hnear : ∀ k : Fin 4, |b k - ((c + k : ℕ) : ℚ) * resizeScale n m| ≤ (c + 8) / 30000) :
    LanesAt n m (c + 4) x b := by
  refine ⟨hx, ?_, fun k ↦ (horder k).2, hlast, fun k ↦ ?_⟩
  · linarith [hsize.step.lanes.2.1.1, (horder 0).1]
  · have hplace := hnear k
    push_cast at hplace ⊢
    rw [add_right_comm (c : ℚ) 4, add_mul _ 4, add_sub_add_right_eq_sub, add_assoc (c : ℚ) 4 4]
    norm_num
    exact hplace

/-- What is left of a step beyond the last column of the source is more than the errors of a row. -/
theorem Doubles.lt_resizeScale (h : Doubles n m) (hn : 2 ≤ n) :
    (2 * (n : ℚ) + 10) / 30000 < resizeScale n m := by
  have hle := h.le_two_mul
  have htwo := h.two_mul_le
  have hn2 : (2 : ℚ) ≤ n := by exact_mod_cast hn
  have hn4096 : (n : ℚ) ≤ 4096 := by exact_mod_cast h.le
  have hm : max ((m : ℤ) - 1) 1 = (m : ℤ) - 1 := by omega
  have hm1 : (0 : ℚ) < (m : ℚ) - 1 := by
    have hm2 : (2 : ℚ) ≤ m := by exact_mod_cast (by omega : 2 ≤ m)
    linarith
  have hm' : (m : ℚ) - 1 ≤ 2 * n + 1 := by
    have hle' : (m : ℚ) ≤ 2 * n + 2 := by exact_mod_cast hle
    linarith
  rw [resizeScale, hm]
  push_cast
  rw [lt_div_iff₀ hm1]
  have hmul := mul_le_mul_of_nonneg_left hm' (by positivity : (0 : ℚ) ≤ (2 * (n : ℚ) + 10) / 30000)
  nlinarith [mul_nonneg (sub_nonneg.mpr hn2) (sub_nonneg.mpr hn4096)]

theorem Doubles.mul_resizeScale (h : Doubles n m) (hn : 2 ≤ n) :
    (m : ℚ) * resizeScale n m = (n : ℚ) - 1 + resizeScale n m := by
  have htwo := h.two_mul_le
  have hm : max ((m : ℤ) - 1) 1 = (m : ℤ) - 1 := by omega
  have hm1 : (m : ℚ) - 1 ≠ 0 := by
    have hm2 : (2 : ℚ) ≤ m := by exact_mod_cast (by omega : 2 ≤ m)
    intro heq
    linarith
  rw [resizeScale, hm]
  push_cast
  field_simp
  ring

/-- **The loop breaks off in time**: while the last lane is before the last column of the source, its
column is a column of the row. -/
theorem Doubles.column_lt (h : Doubles n m) (hc : c ≤ m) {b : ℚ} (hb : 0 ≤ b)
    (hnear : |b - ((c + 3 : ℕ) : ℚ) * resizeScale n m| ≤ (c + 8) / 30000) (hlast : b < (n : ℚ) - 1) :
    c + 3 < m := by
  have hn : 2 ≤ n := by
    have hlt : (1 : ℚ) < n := by linarith
    exact_mod_cast hlt
  by_contra hge
  have hle : (m : ℚ) * resizeScale n m ≤ ((c + 3 : ℕ) : ℚ) * resizeScale n m :=
    mul_le_mul_of_nonneg_right (by exact_mod_cast not_lt.mp hge) (resizeScale_nonneg h.pos m)
  have hbeyond := h.lt_resizeScale hn
  have hmul := h.mul_resizeScale hn
  have hc' : (c : ℚ) ≤ 2 * n + 2 := by
    have hle' := h.le_two_mul
    exact_mod_cast (by omega : c ≤ 2 * n + 2)
  rw [abs_le] at hnear
  linarith [hnear.1]

end Lanes

theorem RowsAround.laneStep_filled (h : RowsAround in_img top bottom y)
    (hsize : Doubles in_img.numColumns nc) {tb_frac inv_tb_frac : Single} {tb inv_tb : ℚ}
    (htb : HasValue tb_frac tb) (hinvtb : HasValue inv_tb_frac inv_tb) (hshares : Shares inv_tb tb)
    {c : ℕ} {k : Fin 4} (hj : c + k < nc) {x : Simd4f} {b : ℚ} (hx : HasValue (x k) b) (hb : 0 ≤ b)
    (hnear : |b - ((c + k : ℕ) : ℚ) * resizeScale in_img.numColumns nc| ≤ 3 / 10)
    (hright : ⌊b⌋ + 1 < in_img.numColumns) {row : PixelRow}
    (hrow : row.Filled (BelongsTo in_img y nc) nc (c + k)) :
    ∃ row', laneStep in_img top bottom tb_frac inv_tb_frac x c row k = some row' ∧
      row'.Filled (BelongsTo in_img y nc) nc (c + k + 1) := by
  have hcolumns := hsize.le
  have hfloor : 0 ≤ ⌊b⌋ := Int.floor_nonneg.mpr hb
  obtain ⟨corners, hcorners, hshows⟩ := h.exists_corners_floor hb hnear (⌊b⌋ + 1) (by omega)
    (by omega)
  have hfrac : HasValue ((x k).sub (single ⌊b⌋)) (binary32.nearest (b - ⌊b⌋)) := by
    refine hx.sub (hasValue_single (by omega)) (le_limit_single ?_)
    rw [abs_of_nonneg (fract_mem b).1]
    linarith [(fract_mem b).2]
  obtain ⟨pixel, hpixel, hmixed⟩ := exists_lanePixel htb hinvtb hfrac hshares
    (nearest_single_fraction (fract_mem b)) corners
  obtain ⟨row', hstore, hrow'⟩ := hrow.store hj
    (show BelongsTo in_img y nc (c + k) pixel from hshows hmixed)
  have hint : toInt32? (x k) = some ⌊b⌋ := hx.truncate? hb ⟨by omega, by omega⟩
  refine ⟨row', ?_, hrow'⟩
  simp only [laneStep, hint, hcorners, hpixel, hstore, Option.bind_eq_bind, Option.bind_some]

/-- One round of the four-lane loop that does not break off. -/
theorem RowsAround.lanes_filled (h : RowsAround in_img top bottom y)
    (hsize : Doubles in_img.numColumns nc) {tb_frac inv_tb_frac : Single} {tb inv_tb : ℚ}
    (htb : HasValue tb_frac tb) (hinvtb : HasValue inv_tb_frac inv_tb) (hshares : Shares inv_tb tb)
    {c : ℕ} (hend : c + 3 < nc) {x : Simd4f} {b : Fin 4 → ℚ} (hx : ∀ k, HasValue (x k) (b k))
    (horder : ∀ k, 0 ≤ b 0 ∧ b 0 ≤ b k ∧ b k ≤ b 3) (hright : ⌊b 3⌋ + 1 < in_img.numColumns)
    (hnear : ∀ k : Fin 4,
      |b k - ((c + k : ℕ) : ℚ) * resizeScale in_img.numColumns nc| ≤ (c + 8) / 30000)
    {row : PixelRow} (hrow : row.Filled (BelongsTo in_img y nc) nc c) :
    ∃ row', (List.finRange 4).foldlM (laneStep in_img top bottom tb_frac inv_tb_frac x c) row
        = some row' ∧ row'.Filled (BelongsTo in_img y nc) nc (c + 4) := by
  have hsmall : ((c : ℚ) + 8) / 30000 ≤ 3 / 10 := by
    have hnc := hsize.le_two_mul
    have hn := hsize.le
    have hc : (c : ℚ) ≤ 8194 := by exact_mod_cast (by omega : c ≤ 8194)
    rw [div_le_div_iff₀ (by norm_num) (by norm_num)]
    linarith
  refine Raster.foldlM_finRange_total
    (fun k (row : PixelRow) ↦ row.Filled (BelongsTo in_img y nc) nc (c + k)) hrow
    fun k row hrow ↦ ?_
  obtain ⟨hfirst, hbk, hb3⟩ := horder k
  -- the other lanes are not further than the last one
  have hfloor : ⌊b k⌋ ≤ ⌊b 3⌋ := Int.floor_le_floor hb3
  exact h.laneStep_filled hsize htb hinvtb hshares (by omega) (hx k) (hfirst.trans hbk)
    ((hnear k).trans hsmall) (by omega) hrow

/-- **The four-lane loop** comes to its end, and what it has passed is written. -/
theorem laneLoop_filled (h : RowsAround in_img top bottom y) (hsize : Doubles in_img.numColumns nc)
    {tb_frac inv_tb_frac : Single} {tb inv_tb : ℚ} (htb : HasValue tb_frac tb)
    (hinvtb : HasValue inv_tb_frac inv_tb) (hshares : Shares inv_tb tb) (fuel : ℕ) {x : Simd4f}
    {a : Fin 4 → ℚ} {c : ℕ} {row : PixelRow} (hfuel : nc - c < fuel) (hc : c ≤ nc)
    (hx : LanesAt in_img.numColumns nc c x a) (hrow : row.Filled (BelongsTo in_img y nc) nc c) :
    ∃ c' row', laneLoop in_img top bottom tb_frac inv_tb_frac
        (((double 4).mul (scaleOf in_img.numColumns nc)).convert binary32) fuel x c row
        = some (c', row') ∧ c' ≤ nc ∧ row'.Filled (BelongsTo in_img y nc) nc c' := by
  induction fuel generalizing x a c row with
  | zero => exact absurd hfuel (Nat.not_lt_zero _)
  | succ fuel ih =>
    obtain ⟨b, hb, horder, hmax, hnear⟩ := hx.advance hsize
    have hb3 : 0 ≤ b 3 := (horder 3).1.trans (horder 3).2.1
    have hfloor : 0 ≤ ⌊b 3⌋ := Int.floor_nonneg.mpr hb3
    have hfloor' : ⌊b 3⌋ ≤ 8192 := by
      rw [← Int.lt_add_one_iff, Int.floor_lt]
      push_cast
      linarith
    have hint : toInt32? ((x 3).add (((double 4).mul (scaleOf in_img.numColumns nc)).convert binary32))
        = some ⌊b 3⌋ := (hb 3).truncate? hb3 ⟨by omega, by omega⟩
    rw [laneLoop]
    simp only [hint, Option.bind_eq_bind, Option.bind_some]
    by_cases hbreak : (in_img.numColumns : ℤ) ≤ ⌊b 3⌋ + 1
    · rw [if_pos hbreak]
      exact ⟨c, row, rfl, hc, hrow⟩
    · rw [if_neg hbreak]
      have hcolumns : (in_img.numColumns : ℚ) ≤ 4096 := by exact_mod_cast hsize.le
      have hlast : b 3 < (in_img.numColumns : ℚ) - 1 := by
        have hlt : ⌊b 3⌋ < (in_img.numColumns : ℤ) - 1 := by omega
        rw [Int.floor_lt] at hlt
        push_cast at hlt
        exact hlt
      have hplace := hnear (by linarith)
      have hend : c + 3 < nc := hsize.column_lt hc hb3 (hplace 3) hlast
      obtain ⟨row', hlanes, hrow'⟩ := h.lanes_filled hsize htb hinvtb hshares hend hb horder
        (by omega) hplace hrow
      rw [hlanes, Option.bind_some]
      exact ih (by omega) (by omega) (LanesAt.of_near hsize hb horder (by linarith) hplace) hrow'

/-- **A row** is written to its end. -/
theorem exists_resizeRow (h : RowsAround in_img top bottom y) (hsize : Doubles in_img.numColumns nc)
    {tb_frac : Double} {tb : ℚ} (htb : HasValue tb_frac tb) (htb' : 0 ≤ tb ∧ tb ≤ 1) :
    ∃ row : PixelRow,
      resizeRow in_img (scaleOf in_img.numColumns nc) top bottom tb_frac (List.replicate nc none)
          = some row ∧ row.Filled (BelongsTo in_img y nc) nc nc := by
  obtain ⟨hinv, hinv'⟩ := hasValue_one_sub_double htb htb'
  have htbLane : HasValue (tb_frac.convert binary32) (binary32.nearest tb) :=
    htb.convert (le_limit_single (by rw [abs_of_nonneg htb'.1]; linarith))
  have hinvLane : HasValue (((double 1).sub tb_frac).convert binary32)
      (binary32.nearest (binary64.nearest (1 - tb))) :=
    hinv.convert (le_limit_single (by rw [abs_of_nonneg hinv'.1]; linarith))
  obtain ⟨c, row, hlanes, hc, hrow⟩ := laneLoop_filled h hsize htbLane hinvLane (shares_rows htb')
    (nc + 1) (Nat.lt_succ_self nc) (Nat.zero_le nc) hsize.startLanes (PixelRow.filled_zero _ nc)
  obtain ⟨row', hrest, hrow'⟩ := columnLoop_filled h hsize htb htb' hc hrow
  refine ⟨row', ?_, hrow'⟩
  rw [resizeRow, List.length_replicate]
  simp only [hlanes, Option.bind_eq_bind, Option.bind_some]
  exact hrest

end FacialLandmark
