import FacialLandmark.Detect.Blend

/-!
# Where the loops of `resize_image` are in the source

Each position is the one before, plus the step, rounded. Over a row of the enlarged picture the errors
stay below `3 / 10` of a source column as long as the source has at most 4096 columns: a `float`
between 2048 and 4096 has twelve bits behind the point, and a row takes about half as many steps of
four columns as the source has columns.

Two things follow. The last lane comes to the last column of the source before it comes to the end of
the row that is written, where the exact position would be beyond that column by at least a fifth; so
the loop breaks off in time. And every pixel is mixed from pixels of the source that are next to the
place where it belongs.
-/

namespace FacialLandmark

open BinaryFloat

/-! ## The step -/

theorem resizeScale_nonneg {n : ℕ} (hn : 1 ≤ n) (m : ℕ) : (0 : ℚ) ≤ resizeScale n m := by
  rw [resizeScale]
  refine div_nonneg ?_ ?_
  · exact_mod_cast (by omega : (0 : ℤ) ≤ (n : ℤ) - 1)
  · exact_mod_cast (by omega : (0 : ℤ) ≤ max ((m : ℤ) - 1) 1)

/-- The columns of the enlarged image are spread over the source, from its first to its last. -/
theorem mul_resizeScale_le {n m j : ℕ} (hn : 1 ≤ n) (hj : j < m) :
    (j : ℚ) * resizeScale n m ≤ (n : ℚ) - 1 := by
  have hn' : (0 : ℚ) ≤ (n : ℚ) - 1 := by
    have hone : (1 : ℚ) ≤ n := by exact_mod_cast hn
    linarith
  have hpos : (0 : ℚ) < ((max ((m : ℤ) - 1) 1 : ℤ) : ℚ) := by
    exact_mod_cast (by omega : (0 : ℤ) < max ((m : ℤ) - 1) 1)
  have hle : (j : ℚ) ≤ ((max ((m : ℤ) - 1) 1 : ℤ) : ℚ) := by
    exact_mod_cast (by omega : (j : ℤ) ≤ max ((m : ℤ) - 1) 1)
  rw [resizeScale, ← mul_div_assoc, div_le_iff₀ hpos]
  push_cast at hle ⊢
  calc (j : ℚ) * ((n : ℚ) - 1) ≤ _ * ((n : ℚ) - 1) := mul_le_mul_of_nonneg_right hle hn'
    _ = ((n : ℚ) - 1) * _ := mul_comm _ _

/-- The sizes that are dealt with: the source has at most 4096 columns, or rows, and the enlarged
image about twice as many. -/
structure Doubles (n m : ℕ) : Prop where
  pos : 1 ≤ n
  le : n ≤ 4096
  two_mul_le : 2 * n ≤ m + 1
  le_two_mul : m ≤ 2 * n + 2

theorem Doubles.resizeScale_le {n m : ℕ} (h : Doubles n m) : (resizeScale n m : ℚ) ≤ 1 / 2 := by
  have hpos := h.pos
  have htwo := h.two_mul_le
  rw [resizeScale, div_le_iff₀ (by exact_mod_cast (by omega : (0 : ℤ) < max ((m : ℤ) - 1) 1))]
  have hle : 2 * ((n : ℤ) - 1) ≤ max ((m : ℤ) - 1) 1 := by omega
  have hle' : (2 : ℚ) * ((n - 1 : ℤ) : ℚ) ≤ ((max ((m : ℤ) - 1) 1 : ℤ) : ℚ) := by exact_mod_cast hle
  linarith

structure Step (n m : ℕ) (scale : Double) (v : ℚ) : Prop where
  hasValue : HasValue scale v
  mem : 0 ≤ v ∧ v ≤ 1 / 2
  near : |v - resizeScale n m| ≤ 1 / 2 ^ 41

theorem Doubles.step {n m : ℕ} (h : Doubles n m) :
    Step n m (scaleOf n m) (binary64.nearest (resizeScale n m)) := by
  have hpos := h.pos
  have hle := h.le
  have hle' := h.le_two_mul
  have hnonneg := resizeScale_nonneg hpos m
  have hhalf := h.resizeScale_le
  have habs : |(resizeScale n m : ℚ)| ≤ 8192 := by
    rw [abs_of_nonneg hnonneg]
    linarith
  have hcolumns : (((max ((m : ℤ) - 1) 1 : ℤ) : ℚ)) ≠ 0 := by
    exact_mod_cast (by omega : max ((m : ℤ) - 1) 1 ≠ 0)
  have hexact : binary64.nearest (1 / 2) = 1 / 2 :=
    Format.nearest_eq_self (j := 1) (k := -1) (by norm_num) (by decide) (by decide)
  exact ⟨(hasValue_double (by omega)).div (hasValue_double (by omega)) hcolumns (le_limit_double habs),
    ⟨Format.nearest_nonneg hnonneg, hexact ▸ Format.nearest_mono hhalf⟩, abs_nearest_double_le habs⟩

/-! ## The pixels around a position -/

/-- The pixels within `4 / 3` of a position, in each direction, are between two colours. -/
def Array2d.BetweenAround (img : Array2d) (x y : ℚ) (lo hi : RgbPixel) : Prop :=
  ∀ (i j : ℕ) (p : RgbPixel), img.get? i j = some p → |(j : ℚ) - x| ≤ 4 / 3 → |(i : ℚ) - y| ≤ 4 / 3 →
    Between 0 lo hi p

/-- What belongs to a position: a pixel that is between all colours that the pixels around the
position are between, but for one level. -/
def Array2d.Shows (img : Array2d) (x y : ℚ) (pixel : RgbPixel) : Prop :=
  ∀ lo hi, img.BetweenAround x y lo hi → Between 1 lo hi pixel

/-- The rows of the source around a row of the enlarged image. -/
structure RowsAround (in_img : Array2d) (top bottom : ℤ) (y : ℚ) : Prop extends
    RowsInside in_img top bottom where
  top_near : |(top : ℚ) - y| ≤ 4 / 3
  bottom_near : |(bottom : ℚ) - y| ≤ 4 / 3

variable {in_img : Array2d} {top bottom : ℤ} {y : ℚ}

theorem RowsAround.shows (h : RowsAround in_img top bottom y) {left right : ℤ} {n : Corners}
    (hn : corners? in_img top bottom left right = some n) {x : ℚ} (hleft : |(left : ℚ) - x| ≤ 4 / 3)
    (hright : |(right : ℚ) - x| ≤ 4 / 3) {pixel : RgbPixel} (hpixel : MixedFrom n pixel) :
    in_img.Shows x y pixel := by
  intro lo hi haround
  have hcorner : ∀ {row column : ℤ} {p : RgbPixel}, in_img.at? row column = some p →
      |(column : ℚ) - x| ≤ 4 / 3 → |(row : ℚ) - y| ≤ 4 / 3 → Between 0 lo hi p := by
    intro row column p hp hcolumn hrow
    obtain ⟨i, j, rfl, rfl, hget⟩ := get?_of_at? hp
    exact haround i j p hget (by exact_mod_cast hcolumn) (by exact_mod_cast hrow)
  simp only [corners?, Option.bind_eq_bind, Option.bind_eq_some_iff, Option.some_inj] at hn
  obtain ⟨tl, htl, tr, htr, bl, hbl, br, hbr, rfl⟩ := hn
  refine hpixel lo hi fun p hp ↦ ?_
  simp only [List.mem_cons, List.not_mem_nil, or_false] at hp
  rcases hp with rfl | rfl | rfl | rfl
  · exact hcorner htl hleft h.top_near
  · exact hcorner htr hright h.top_near
  · exact hcorner hbl hleft h.bottom_near
  · exact hcorner hbr hright h.bottom_near

/-- The corners for a position that is almost where it should be. -/
theorem RowsAround.exists_corners_floor (h : RowsAround in_img top bottom y) {b x : ℚ} (hb : 0 ≤ b)
    (hnear : |b - x| ≤ 3 / 10) (right : ℤ) (hright : ⌊b⌋ ≤ right ∧ right ≤ ⌊b⌋ + 1)
    (hlast : ⌊b⌋ < in_img.numColumns ∧ right < in_img.numColumns) :
    ∃ n, corners? in_img top bottom ⌊b⌋ right = some n ∧
      ∀ {pixel : RgbPixel}, MixedFrom n pixel → in_img.Shows x y pixel := by
  have hleft : 0 ≤ ⌊b⌋ := Int.floor_nonneg.mpr hb
  have hlow : (⌊b⌋ : ℚ) ≤ b := Int.floor_le b
  have hhigh : b < ⌊b⌋ + 1 := Int.lt_floor_add_one b
  have hright' : (⌊b⌋ : ℚ) ≤ right ∧ (right : ℚ) ≤ ⌊b⌋ + 1 :=
    ⟨by exact_mod_cast hright.1, by exact_mod_cast hright.2⟩
  rw [abs_le] at hnear
  obtain ⟨n, hn⟩ := h.exists_corners ⟨hleft, hlast.1⟩ (by omega : 0 ≤ right ∧ right < in_img.numColumns)
  refine ⟨n, hn, h.shows hn ?_ ?_⟩
  · rw [abs_le]
    constructor <;> linarith [hnear.1, hnear.2]
  · rw [abs_le]
    constructor <;> linarith [hnear.1, hnear.2, hright'.1, hright'.2]

theorem fract_mem (b : ℚ) : 0 ≤ b - ⌊b⌋ ∧ b - ⌊b⌋ ≤ 1 :=
  ⟨Int.fract_nonneg b, (Int.fract_lt_one b).le⟩

def BelongsTo (in_img : Array2d) (y : ℚ) (nc j : ℕ) (pixel : RgbPixel) : Prop :=
  in_img.Shows (j * resizeScale in_img.numColumns nc) y pixel

/-! ## Sums of steps -/

variable {n m : ℕ} {scale : Double} {v : ℚ}

/-- One more step in `double`: the error grows by that of the step and by that of the sum. -/
theorem Step.advance (h : Step n m scale v) {x : Double} {a t error : ℚ} (hx : HasValue x a)
    (ha : -v ≤ a) (ht : 0 ≤ t ∧ t ≤ 4096) (herror : error ≤ 1)
    (hnear : |a + resizeScale n m - t| ≤ error) :
    ∃ b, HasValue (x.add scale) b ∧ 0 ≤ b ∧ |b - t| ≤ error + 2 / 2 ^ 41 := by
  have hstep := h.near
  rw [abs_le] at hstep hnear
  norm_num at hstep
  have habs : |a + v| ≤ 8192 := by
    rw [abs_of_nonneg (by linarith)]
    linarith
  have hround := abs_nearest_double_le habs
  rw [abs_le] at hround
  norm_num at hround
  refine ⟨_, hx.add h.hasValue (le_limit_double habs), Format.nearest_nonneg (by linarith), ?_⟩
  rw [abs_le]
  norm_num
  constructor <;> linarith

/-- `x = -x_scale + c*x_scale`. -/
theorem Step.start (h : Step n m scale v) {c : ℕ} (hc : c ≤ 8194) :
    ∃ a, HasValue (scale.neg.add ((double c).mul scale)) a ∧ -v ≤ a ∧
      |a + resizeScale n m - c * resizeScale n m| ≤ (c + 3) / 2 ^ 41 := by
  have hstep := h.near
  have hc' : (c : ℚ) ≤ 8194 := by exact_mod_cast hc
  have hc0 : (0 : ℚ) ≤ c := Nat.cast_nonneg c
  have hcount : HasValue (double c) (c : ℚ) := by
    exact_mod_cast hasValue_double (z := c) (by omega)
  have hproduct : 0 ≤ (c : ℚ) * v ∧ (c : ℚ) * v ≤ 4097 :=
    ⟨mul_nonneg hc0 h.mem.1, by nlinarith [h.mem.1, h.mem.2]⟩
  have hproduct' : |(c : ℚ) * v| ≤ 8192 := by
    rw [abs_of_nonneg hproduct.1]
    linarith
  have hmul := abs_nearest_double_le hproduct'
  have hmul0 := Format.nearest_nonneg (f := binary64) hproduct.1
  rw [abs_le] at hmul
  norm_num at hmul
  have hsum : |-v + binary64.nearest (c * v)| ≤ 8192 := by
    rw [abs_le]
    constructor <;> linarith [h.mem.1, h.mem.2]
  have hadd := abs_nearest_double_le hsum
  refine ⟨_, h.hasValue.neg.add (hcount.mul h.hasValue (le_limit_double hproduct'))
    (le_limit_double hsum), ?_, ?_⟩
  · -- rounding is monotone, and the negated step is a number already
    rw [← h.hasValue.neg.nearest_eq]
    exact Format.nearest_mono (by rw [h.hasValue.neg.nearest_eq]; linarith)
  · have hscaled : |(c : ℚ) * (v - resizeScale n m)| ≤ c * (1 / 2 ^ 41) := by
      rw [abs_mul, abs_of_nonneg hc0]
      exact mul_le_mul_of_nonneg_left hstep hc0
    rw [mul_sub] at hscaled
    rw [abs_le] at hstep hadd hscaled ⊢
    norm_num at hstep hadd hscaled ⊢
    constructor <;> linarith [hstep.1, hstep.2, hadd.1, hadd.2, hscaled.1, hscaled.2]

theorem Doubles.target_mem (h : Doubles n m) {j : ℕ} (hj : j < m) :
    0 ≤ (j : ℚ) * resizeScale n m ∧ (j : ℚ) * resizeScale n m ≤ (n : ℚ) - 1 ∧
      (j : ℚ) * resizeScale n m ≤ 4096 := by
  have hle := mul_resizeScale_le h.pos hj
  have hn : (n : ℚ) ≤ 4096 := by exact_mod_cast h.le
  exact ⟨mul_nonneg (Nat.cast_nonneg j) (resizeScale_nonneg h.pos m), hle, by linarith⟩

/-- Where a loop is in the source when it handles column, or row, `j`: almost where it should be, and
inside. -/
structure Position (n m j : ℕ) (x : Double) (b : ℚ) : Prop where
  hasValue : HasValue x b
  nonneg : 0 ≤ b
  near : |b - j * resizeScale n m| ≤ 3 / 10
  floor_lt : ⌊b⌋ < (n : ℤ)
  floor_eq : floorLong? x = some ⌊b⌋
  frac : HasValue (x.sub (double ⌊b⌋)) (binary64.nearest (b - ⌊b⌋))

/-- One round of a loop that sums up steps: from one step before its column to its column, with what
is left for the next round. -/
theorem Doubles.advance (h : Doubles n m) {x : Double} {a error : ℚ} {j : ℕ} (hj : j < m)
    (hx : HasValue x a) (ha : -binary64.nearest (resizeScale n m) ≤ a) (herror : error ≤ 1 / 4)
    (hnear : |a + resizeScale n m - j * resizeScale n m| ≤ error) :
    ∃ b, Position n m j (x.add (scaleOf n m)) b ∧ -binary64.nearest (resizeScale n m) ≤ b ∧
      |b + resizeScale n m - ((j + 1 : ℕ) : ℚ) * resizeScale n m| ≤ error + 2 / 2 ^ 41 := by
  have hn := h.le
  obtain ⟨ht0, htlast, ht⟩ := h.target_mem hj
  obtain ⟨b, hb, hb0, hbnear⟩ := h.step.advance hx ha ⟨ht0, ht⟩ (by linarith) hnear
  have hsmall : |b - j * resizeScale n m| ≤ 3 / 10 := by
    refine hbnear.trans ?_
    norm_num
    linarith
  have hfloor : 0 ≤ ⌊b⌋ := Int.floor_nonneg.mpr hb0
  have hlast : ⌊b⌋ < (n : ℤ) := by
    rw [abs_le] at hsmall
    rw [Int.floor_lt]
    push_cast
    linarith [hsmall.2]
  have hfrac : HasValue ((x.add (scaleOf n m)).sub (double ⌊b⌋)) (binary64.nearest (b - ⌊b⌋)) := by
    refine hb.sub (hasValue_double (by omega)) (le_limit_double ?_)
    rw [abs_of_nonneg (fract_mem b).1]
    linarith [(fract_mem b).2]
  refine ⟨b, ⟨hb, hb0, hsmall, hlast, hb.floor? ⟨by omega, by omega⟩, hfrac⟩, ?_, ?_⟩
  · linarith [h.step.mem.1]
  · rwa [Nat.cast_succ, add_one_mul, add_sub_add_right_eq_sub]

end FacialLandmark
