import FacialLandmark.Detect.Columns

/-!
# The enlarged picture

`pyramid_up` comes to its end on every picture of at most 4096 columns and rows. Each pixel of the
enlarged picture is mixed from pixels next to the place that `source` gives for it, which is what the
frames of `detectLandmark` were about, and it has no colour that these pixels do not enclose, but for
one level that the rounding can cost.
-/

namespace FacialLandmark

open BinaryFloat

/-! ## All rows -/

variable {in_img : Array2d} {nr nc : ℕ}

def RowsFilled (in_img : Array2d) (nr nc : ℕ) (rows : List PixelRow) : Prop :=
  ∀ (r : ℕ) (row : PixelRow), rows[r]? = some row →
    row.Filled (BelongsTo in_img (r * resizeScale in_img.numRows nr) nc) nc nc

theorem rowsFilled_concat {rows : List PixelRow} {row : PixelRow}
    (h : RowsFilled in_img nr nc rows)
    (hrow : row.Filled (BelongsTo in_img (rows.length * resizeScale in_img.numRows nr) nc) nc nc) :
    RowsFilled in_img nr nc (rows ++ [row]) := by
  intro r row' hrow'
  have hr : r < rows.length + 1 := by
    simpa using (List.getElem?_eq_some_iff.mp hrow').1
  rcases Nat.lt_succ_iff_lt_or_eq.mp hr with hr | rfl
  · rw [List.getElem?_append_left hr] at hrow'
    exact h r row' hrow'
  · rw [List.getElem?_concat_length, Option.some_inj] at hrow'
    rwa [← hrow']

structure RowHead (in_img : Array2d) (nr nc r : ℕ) (t : Double × List PixelRow) (a : ℚ) : Prop where
  hasValue : HasValue t.1 a
  low : -binary64.nearest (resizeScale in_img.numRows nr) ≤ a
  near : |a + resizeScale in_img.numRows nr - (r : ℚ) * resizeScale in_img.numRows nr|
    ≤ (1 + 2 * r) / 2 ^ 41
  length_eq : t.2.length = r
  filled : RowsFilled in_img nr nc t.2

/-- The rows of the source around a position that is almost where it should be. -/
theorem rowsAround (himg : in_img.Rectangular) {b y : ℚ} (hb : 0 ≤ b) (hnear : |b - y| ≤ 3 / 10)
    (hlast : ⌊b⌋ < in_img.numRows) :
    RowsAround in_img ⌊b⌋ (min (⌊b⌋ + 1) ((in_img.numRows : ℤ) - 1)) y := by
  have hfloor : 0 ≤ ⌊b⌋ := Int.floor_nonneg.mpr hb
  have hlow : (⌊b⌋ : ℚ) ≤ b := Int.floor_le b
  have hhigh : b < ⌊b⌋ + 1 := Int.lt_floor_add_one b
  obtain ⟨bottom, hbottom⟩ : ∃ bottom, min (⌊b⌋ + 1) ((in_img.numRows : ℤ) - 1) = bottom := ⟨_, rfl⟩
  have hbottom' : (⌊b⌋ : ℚ) ≤ bottom ∧ (bottom : ℚ) ≤ ⌊b⌋ + 1 :=
    ⟨by exact_mod_cast (by omega : ⌊b⌋ ≤ bottom), by exact_mod_cast (by omega : bottom ≤ ⌊b⌋ + 1)⟩
  rw [abs_le] at hnear
  rw [hbottom]
  refine ⟨⟨himg, ⟨hfloor, hlast⟩, by omega, by omega⟩, ?_, ?_⟩
  · rw [abs_le]
    constructor <;> linarith [hnear.1, hnear.2]
  · rw [abs_le]
    constructor <;> linarith [hnear.1, hnear.2, hbottom'.1, hbottom'.2]

theorem RowHead.step (himg : in_img.Rectangular) (hrows : Doubles in_img.numRows nr)
    (hcolumns : Doubles in_img.numColumns nc) {r : ℕ} (hr : r < nr) {t : Double × List PixelRow}
    {a : ℚ} (ht : RowHead in_img nr nc r t a) :
    ∃ t' b, rowStep in_img nc (scaleOf in_img.numColumns nc) (scaleOf in_img.numRows nr) t r = some t' ∧
      RowHead in_img nr nc (r + 1) t' b := by
  obtain ⟨y, rows⟩ := t
  obtain ⟨ha, hlow, hnear, rfl, hfilled⟩ := ht
  simp only at ha hnear hfilled hr
  have hsize := hrows.le
  have hnr := hrows.le_two_mul
  have herror : (1 + 2 * (rows.length : ℚ)) / 2 ^ 41 ≤ 1 / 4 := by
    have hcount : (1 : ℚ) + 2 * rows.length ≤ 16389 := by
      exact_mod_cast (by omega : 1 + 2 * rows.length ≤ 16389)
    rw [div_le_div_iff₀ (by norm_num) (by norm_num)]
    linarith
  obtain ⟨b, hb, hlow', hnear'⟩ := hrows.advance hr ha hlow herror hnear
  obtain ⟨row, hrow, hcells⟩ := exists_resizeRow (rowsAround himg hb.nonneg hb.near hb.floor_lt)
    hcolumns hb.frac (nearest_double_fraction (fract_mem b))
  refine ⟨(y.add (scaleOf in_img.numRows nr), rows ++ [row]), b, ?_, hb.hasValue, hlow', ?_, ?_,
    rowsFilled_concat hfilled hcells⟩
  · simp only [rowStep, hb.floor_eq, hrow, Option.bind_eq_bind, Option.bind_some]
  · refine hnear'.trans (le_of_eq ?_)
    push_cast
    ring
  · rw [List.length_append, List.length_singleton]

/-- **All rows** are written to their ends. -/
theorem exists_resizeImage (himg : in_img.Rectangular) (hrows : Doubles in_img.numRows nr)
    (hcolumns : Doubles in_img.numColumns nc) (hnr : 1 ≤ nr) (hnc : 1 ≤ nc) :
    ∃ rows, resizeImage in_img nr nc = some rows ∧ rows.length = nr ∧
      RowsFilled in_img nr nc rows := by
  have hsize : ¬(nr * nc = 0 ∨ in_img.numRows * in_img.numColumns = 0) := by
    have hr := hrows.pos
    have hc := hcolumns.pos
    rw [not_or]
    exact ⟨Nat.mul_ne_zero (by omega) (by omega), Nat.mul_ne_zero (by omega) (by omega)⟩
  have hstart : |-binary64.nearest (resizeScale in_img.numRows nr)
      + resizeScale in_img.numRows nr - ((0 : ℕ) : ℚ) * resizeScale in_img.numRows nr|
      ≤ (1 + 2 * ((0 : ℕ) : ℚ)) / 2 ^ 41 := by
    have hnear := hrows.step.near
    rw [abs_sub_comm] at hnear
    rw [Nat.cast_zero, zero_mul, sub_zero, mul_zero, add_zero, neg_add_eq_sub]
    exact hnear
  have hbody : ∀ r t, r < nr → (∃ a, RowHead in_img nr nc r t a) →
      ∃ t', rowStep in_img nc (scaleOf in_img.numColumns nc) (scaleOf in_img.numRows nr) t r = some t' ∧
        ∃ a, RowHead in_img nr nc (r + 1) t' a := by
    rintro r t hr ⟨a, ht⟩
    obtain ⟨t', b, hstep, ht'⟩ := ht.step himg hrows hcolumns hr
    exact ⟨t', hstep, b, ht'⟩
  obtain ⟨t, hloop, a, ht⟩ := Raster.forRange?_total
    (s := ((scaleOf in_img.numRows nr).neg, ([] : List PixelRow))) _
    ⟨_, hrows.step.hasValue.neg, le_rfl, hstart, rfl, fun r row hrow ↦ absurd hrow (by simp)⟩ hbody
  refine ⟨t.2, ?_, ht.length_eq, ht.filled⟩
  rw [resizeImage, if_neg hsize]
  simp only [hloop, Option.bind_eq_bind, Option.bind_some]

/-! ## The picture that comes out -/

theorem exists_written? {rows : List PixelRow} (hlength : rows.length = nr)
    (h : RowsFilled in_img nr nc rows) :
    ∃ out, written? rows = some out ∧ out.length = nr ∧ (∀ row ∈ out, row.length = nc) ∧
      ∀ r < nr, ∀ c < nc, ∃ pixel, out.get? r c = some pixel ∧
        in_img.Shows (c * resizeScale in_img.numColumns nc) (r * resizeScale in_img.numRows nr)
          pixel := by
  have hrow : ∀ r < nr, ∃ row : List RgbPixel,
      (do
        let cells ← rows[r]?
        Raster.tabulate? (fun c ↦ (cells[c]?).join) cells.length) = some row ∧
      row.length = nc ∧ ∀ c < nc, ∃ pixel, row[c]? = some pixel ∧
        BelongsTo in_img (r * resizeScale in_img.numRows nr) nc c pixel := by
    intro r hr
    have hcells : rows[r]? = some rows[r] := List.getElem?_eq_getElem _
    have hfilled := h r _ hcells
    obtain ⟨row, htable, hrow⟩ := @Raster.exists_tabulate? _ (fun c ↦ (rows[r][c]?).join) rows[r].length
      fun c hc ↦ by
        obtain ⟨pixel, hcell, -⟩ := hfilled.cells c (hfilled.length_eq ▸ hc)
        exact ⟨pixel, by rw [hcell, Option.join_some]⟩
    refine ⟨row, by rw [hcells]; exact htable, by rw [hrow, hfilled.length_eq], fun c hc ↦ ?_⟩
    obtain ⟨pixel, hcell, hpixel⟩ := hfilled.cells c hc
    refine ⟨pixel, ?_, hpixel⟩
    rw [Raster.getElem?_of_tabulate?_eq_some htable (hfilled.length_eq.symm ▸ hc), hcell,
      Option.join_some]
  obtain ⟨out, htable, hout⟩ := Raster.exists_tabulate? fun r hr ↦ by
    obtain ⟨row, hrow, -⟩ := hrow r hr
    exact ⟨row, hrow⟩
  have hget : ∀ r < nr, ∃ row, out[r]? = some row ∧ row.length = nc ∧ ∀ c < nc, ∃ pixel,
      row[c]? = some pixel ∧ BelongsTo in_img (r * resizeScale in_img.numRows nr) nc c pixel := by
    intro r hr
    obtain ⟨row, hvalue, hrest⟩ := hrow r hr
    exact ⟨row, by rw [Raster.getElem?_of_tabulate?_eq_some htable hr, hvalue], hrest⟩
  refine ⟨out, by rw [written?, hlength]; exact htable, hout, fun row hmem ↦ ?_, fun r hr c hc ↦ ?_⟩
  · obtain ⟨r, hr, rfl⟩ := List.getElem_of_mem hmem
    obtain ⟨row, hvalue, hcount, -⟩ := hget r (hout ▸ hr)
    rw [List.getElem?_eq_getElem hr, Option.some_inj] at hvalue
    rw [hvalue, hcount]
  · obtain ⟨row, hvalue, -, hcells⟩ := hget r hr
    obtain ⟨pixel, hpixel, hcell⟩ := hcells c hc
    exact ⟨pixel, by simp only [Array2d.get?, hvalue, Option.bind_eq_bind, Option.bind_some, hpixel],
      hcell⟩

theorem isEmpty_rectUp (rect : Rectangle) : (rectUp ℚ rect).isEmpty = false := by
  rw [Rectangle.isEmpty, Bool.or_eq_false_iff, decide_eq_false_iff_not, decide_eq_false_iff_not,
    not_lt, not_lt]
  exact ⟨Int.floor_le_floor (by gcongr; exact min_le_max),
    Int.floor_le_floor (by gcongr; exact min_le_max)⟩

/-- A picture of a size that is dealt with. -/
structure Array2d.Enlargeable (img : Array2d) : Prop where
  rectangular : img.Rectangular
  columns : 1 ≤ img.numColumns ∧ img.numColumns ≤ 4096
  rows : 1 ≤ img.numRows ∧ img.numRows ≤ 4096

variable {img : Array2d}

/-- **The enlarged picture**, with its size, and what each of its pixels shows. -/
theorem exists_pyramidUp_shows (himg : img.Enlargeable) :
    ∃ out, pyramidUp img = some out ∧ out.Rectangular ∧ out.numRows = 2 * img.numRows + 1 ∧
      out.numColumns = 2 * img.numColumns + 2 ∧
      ∀ r < out.numRows, ∀ c < out.numColumns, ∃ pixel, out.get? r c = some pixel ∧
        img.Shows (source img.numColumns img.numRows ((c : ℚ), (r : ℚ))).1
          (source img.numColumns img.numRows ((c : ℚ), (r : ℚ))).2 pixel := by
  obtain ⟨hrect, ⟨hcolumns, hcolumns'⟩, ⟨hrows, hrows'⟩⟩ := himg
  have hsize := pyramidUpSize_eq (K := ℚ) hcolumns hrows
  have hnr : (pyramidUpSize ℚ img.numColumns img.numRows).2.toNat = 2 * img.numRows + 1 := by
    rw [hsize]
    omega
  have hnc : (pyramidUpSize ℚ img.numColumns img.numRows).1.toNat = 2 * img.numColumns + 2 := by
    rw [hsize]
    omega
  have harea : img.numRows * img.numColumns ≠ 0 := Nat.mul_ne_zero (by omega) (by omega)
  have hrowsDouble : Doubles img.numRows (2 * img.numRows + 1) :=
    ⟨hrows, hrows', by omega, by omega⟩
  have hcolumnsDouble : Doubles img.numColumns (2 * img.numColumns + 2) :=
    ⟨hcolumns, hcolumns', by omega, by omega⟩
  obtain ⟨rows, hresize, hlength, hfilled⟩ := exists_resizeImage hrect hrowsDouble hcolumnsDouble
    (by omega) (by omega)
  obtain ⟨out, hout, hnumRows, hrowLength, hcells⟩ := exists_written? hlength hfilled
  have hnumColumns : out.numColumns = 2 * img.numColumns + 2 := by
    cases out with
    | nil => exact absurd hnumRows (by simp)
    | cons row out => exact hrowLength row (List.mem_cons_self ..)
  refine ⟨out, ?_, fun row hmem ↦ by rw [hrowLength row hmem, hnumColumns], hnumRows, hnumColumns, ?_⟩
  · rw [pyramidUp, if_neg harea, isEmpty_rectUp, if_neg (by simp)]
    simp only [hnr, hnc, hresize, Option.bind_eq_bind, Option.bind_some]
    exact hout
  · intro r hr c hc
    rw [Array2d.numRows, hnumRows] at hr
    rw [hnumColumns] at hc
    obtain ⟨pixel, hpixel, hshows⟩ := hcells r hr c hc
    refine ⟨pixel, hpixel, ?_⟩
    rw [source, hsize]
    push_cast at hshows ⊢
    exact hshows

/-- **`pyramid_up` comes to its end**: it reads inside the picture and stores inside its rows, each
conversion has its integer, and every pixel of the new image is written. -/
theorem exists_pyramidUp (himg : img.Enlargeable) :
    ∃ out, pyramidUp img = some out ∧ out.Rectangular ∧ out.numRows = 2 * img.numRows + 1 ∧
      out.numColumns = 2 * img.numColumns + 2 := by
  obtain ⟨out, hout, hrect, hrows, hcolumns, -⟩ := exists_pyramidUp_shows himg
  exact ⟨out, hout, hrect, hrows, hcolumns⟩

theorem enlargeable_replicate {rows columns : ℕ} (hrows : 1 ≤ rows ∧ rows ≤ 4096)
    (hcolumns : 1 ≤ columns ∧ columns ≤ 4096) (pixel : RgbPixel) :
    Array2d.Enlargeable (List.replicate rows (List.replicate columns pixel)) := by
  have hwidth : Array2d.numColumns (List.replicate rows (List.replicate columns pixel)) = columns := by
    obtain ⟨rows, rfl⟩ := Nat.exists_eq_succ_of_ne_zero (Nat.ne_zero_of_lt hrows.1)
    simp [Array2d.numColumns, List.replicate_succ]
  refine ⟨fun row hrow ↦ ?_, ?_, ?_⟩
  · rw [hwidth, List.eq_of_mem_replicate hrow, List.length_replicate]
  · rwa [hwidth]
  · rwa [Array2d.numRows, List.length_replicate]

theorem exists_pyramidUp_two_three :
    ∃ out, pyramidUp (List.replicate 2 (List.replicate 3 ⟨100, 100, 100⟩)) = some out ∧
      out.Rectangular ∧ out.numRows = 5 ∧ out.numColumns = 8 :=
  exists_pyramidUp (enlargeable_replicate (by decide) (by decide) _)

/-- **Where the colours come from**: each pixel shows what is in the picture next to its source. -/
theorem shows_of_pyramidUp (himg : img.Enlargeable) {out : Array2d} (hout : pyramidUp img = some out)
    {r c : ℕ} {pixel : RgbPixel} (hpixel : out.get? r c = some pixel) :
    img.Shows (source img.numColumns img.numRows ((c : ℚ), (r : ℚ))).1
      (source img.numColumns img.numRows ((c : ℚ), (r : ℚ))).2 pixel := by
  obtain ⟨out', hout', hrect, -, -, hcells⟩ := exists_pyramidUp_shows himg
  rw [hout, Option.some_inj] at hout'
  subst hout'
  have hget := hpixel
  simp only [Array2d.get?, Option.bind_eq_bind, Option.bind_eq_some_iff] at hget
  obtain ⟨row, hrow, hcell⟩ := hget
  obtain ⟨hr, hvalue⟩ := List.getElem?_eq_some_iff.mp hrow
  obtain ⟨hc, -⟩ := List.getElem?_eq_some_iff.mp hcell
  rw [hrect row (hvalue ▸ List.getElem_mem hr)] at hc
  obtain ⟨pixel', hpixel', hshows⟩ := hcells r hr c hc
  rw [hpixel, Option.some_inj] at hpixel'
  rwa [hpixel']

theorem shows_of_pyramidUp_two_two :
    ∃ out, pyramidUp [[⟨10, 20, 30⟩, ⟨40, 50, 60⟩], [⟨70, 80, 90⟩, ⟨100, 110, 120⟩]] = some out ∧
      out.get? 2 3 = some ⟨58, 68, 78⟩ ∧
      Array2d.Shows [[⟨10, 20, 30⟩, ⟨40, 50, 60⟩], [⟨70, 80, 90⟩, ⟨100, 110, 120⟩]]
        (source 2 2 (((3 : ℕ) : ℚ), ((2 : ℕ) : ℚ))).1 (source 2 2 (((3 : ℕ) : ℚ), ((2 : ℕ) : ℚ))).2
        ⟨58, 68, 78⟩ := by
  have hpixel : ((pyramidUp [[⟨10, 20, 30⟩, ⟨40, 50, 60⟩], [⟨70, 80, 90⟩, ⟨100, 110, 120⟩]]).bind
      fun out ↦ out.get? 2 3) = some ⟨58, 68, 78⟩ := by decide +kernel
  obtain ⟨out, hout, hpixel⟩ := Option.bind_eq_some_iff.mp hpixel
  have himg : Array2d.Enlargeable [[⟨10, 20, 30⟩, ⟨40, 50, 60⟩], [⟨70, 80, 90⟩, ⟨100, 110, 120⟩]] :=
    ⟨by simp [Array2d.Rectangular, Array2d.numColumns], by decide, by decide⟩
  exact ⟨out, hout, hpixel, shows_of_pyramidUp himg hout hpixel⟩

/-- **Colours**: no pixel of the enlarged picture leaves the range of the picture's own colours, but
that it may be one level too dark. -/
theorem between_pyramidUp (himg : img.Enlargeable) {lo hi : RgbPixel}
    (h : ∀ pixels ∈ img, ∀ p ∈ pixels, Between 0 lo hi p) {out : Array2d}
    (hout : pyramidUp img = some out) : ∀ pixels ∈ out, ∀ p ∈ pixels, Between 1 lo hi p := by
  intro pixels hmem p hp
  obtain ⟨out', hout', hrect, -, -, hcells⟩ := exists_pyramidUp_shows himg
  rw [hout, Option.some_inj] at hout'
  subst hout'
  obtain ⟨r, hr, rfl⟩ := List.getElem_of_mem hmem
  obtain ⟨c, hc, rfl⟩ := List.getElem_of_mem hp
  obtain ⟨pixel, hpixel, hshows⟩ := hcells r hr c (hrect _ hmem ▸ hc)
  simp only [Array2d.get?, List.getElem?_eq_getElem hr, Option.bind_eq_bind, Option.bind_some,
    List.getElem?_eq_getElem hc, Option.some_inj] at hpixel
  rw [hpixel]
  refine hshows lo hi fun i j p hp _ _ ↦ ?_
  simp only [Array2d.get?, Option.bind_eq_bind, Option.bind_eq_some_iff] at hp
  obtain ⟨row, hrow, hcell⟩ := hp
  exact h row (List.mem_of_getElem? hrow) p (List.mem_of_getElem? hcell)

/-- A picture of one colour, and one darker pixel in what becomes of it. -/
theorem between_pyramidUp_two_three :
    ∃ out, pyramidUp (List.replicate 2 (List.replicate 3 ⟨100, 100, 100⟩)) = some out ∧
      out.get? 2 1 = some ⟨99, 99, 99⟩ ∧
      ∀ pixels ∈ out, ∀ p ∈ pixels, Between 1 ⟨100, 100, 100⟩ ⟨100, 100, 100⟩ p := by
  have hpixel : ((pyramidUp (List.replicate 2 (List.replicate 3 ⟨100, 100, 100⟩))).bind
      fun out ↦ out.get? 2 1) = some ⟨99, 99, 99⟩ := by decide +kernel
  obtain ⟨out, hout, hpixel⟩ := Option.bind_eq_some_iff.mp hpixel
  refine ⟨out, hout, hpixel, between_pyramidUp (enlargeable_replicate (by decide) (by decide) _) ?_ hout⟩
  intro pixels hmem p hp
  rw [List.eq_of_mem_replicate hmem] at hp
  rw [List.eq_of_mem_replicate hp]
  exact ⟨by decide, by decide, by decide⟩

end FacialLandmark
