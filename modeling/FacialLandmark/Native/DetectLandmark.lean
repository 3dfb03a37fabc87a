import FacialLandmark.Detect.Enlarge
import FacialLandmark.Image.RoundTrip
import FacialLandmark.Predict.Bounds

/-!
# `detectLandmark`

The whole of the native detection: the bitmap is encoded and decoded again, the picture is enlarged,
the predictor is evaluated in a rectangle made from the size of the bitmap, and the parts are packed
into an array. Each of these reads and writes by index, and the predictor by the indices that come
with the model.

Of the predictor it is enough that it is well-formed. Of the bitmap it is the size that decides: with
such a predictor `detectLandmark` gets to its end exactly on the bitmaps of even width and height, as
long as they are not so large that the positions in the picture become inaccurate.
-/

namespace FacialLandmark

variable {F : Type} (A : FloatArithmetic F)

/-- `detectLandmark(pixels, width, height)`, with the global predictor. The picture is enlarged in
`float` and `double`, the numbers of the predictor are of the type `F`. The product
`width * height * 3`, an `int` in the source, is taken exactly; it is below `2 ^ 31` on the bitmaps
of `Bitmap.Moderate`. -/
def detectLandmark (shapePredictor : ShapePredictor F) (bmp : Bitmap) : Option (List JLong) := do
  let nv21ByteArray ← bmp.convertBitmapPixelToNV21
  let img ← convertNV21ToArray2d nv21ByteArray bmp.width bmp.height
  let img ← pyramidUp img
  let points ← shapePredictor.apply A img (region bmp.width bmp.height)
  packLandmarks points.parts

/-- What the activity makes of it: the log line, the view, and the circles that it draws. -/
def showLandmarks (shapePredictor : ShapePredictor F) (bmp : Bitmap) : Option (List Circle) := do
  let landmarks ← detectLandmark A shapePredictor bmp
  let view ← onCreateLandmarks landmarks
  view.onDrawForeground

/-- The sizes for which it is known that the loops of `resize_image` stay inside their rows. -/
structure Bitmap.Moderate (bmp : Bitmap) : Prop where
  width_le : bmp.width ≤ 4096
  height_le : bmp.height ≤ 4096

/-! ## The picture that is decoded -/

theorem size_convertNV21ToArray2d {yuv : List JByte} {width height : ℕ} {img : Array2d}
    (hheight : 1 ≤ height) (h : convertNV21ToArray2d yuv width height = some img) :
    img.Rectangular ∧ img.numRows = height ∧ img.numColumns = width := by
  have hrows : img.length = height := Raster.length_of_tabulate?_eq_some h
  have hlength : ∀ row ∈ img, row.length = width := by
    intro row hrow
    obtain ⟨r, hr, rfl⟩ := List.getElem_of_mem hrow
    have hentry := Raster.getElem?_of_tabulate?_eq_some h (hrows ▸ hr)
    rw [List.getElem?_eq_getElem hr] at hentry
    exact Raster.length_of_tabulate?_eq_some hentry.symm
  have hcolumns : img.numColumns = width := by
    cases img with
    | nil => exact absurd hrows (by simp; omega)
    | cons row img => exact hlength row (List.mem_cons_self ..)
  exact ⟨fun row hrow ↦ by rw [hlength row hrow, hcolumns], hrows, hcolumns⟩

theorem length_convertBitmapPixelToNV21 {bmp : Bitmap} {yuv : List JByte}
    (h : bmp.convertBitmapPixelToNV21 = some yuv) : yuv.length = bmp.width * bmp.height * 3 / 2 := by
  rw [Bitmap.convertBitmapPixelToNV21, StoreLog.replay?] at h
  split at h
  · rw [← Option.some_inj.mp h, StoreLog.length_replay, List.length_replicate, Bitmap.yuvLength]
  · exact absurd h (by simp)

theorem evenSize_of_decoded {bmp : Bitmap} (hw : 1 ≤ bmp.width) (hh : 1 ≤ bmp.height)
    {yuv : List JByte} {img : Array2d} (hyuv : bmp.convertBitmapPixelToNV21 = some yuv)
    (himg : convertNV21ToArray2d yuv bmp.width bmp.height = some img) :
    EvenSize bmp.width bmp.height := by
  have hlength := length_convertBitmapPixelToNV21 hyuv
  have hreads : ReadsInBounds yuv bmp.width bmp.height :=
    convertNV21ToArray2d_isSome_iff.mp (Option.isSome_of_mem himg)
  rw [readsInBounds_iff hw hh (by omega)] at hreads
  obtain ⟨heven, heven'⟩ := (last_read_lt_iff hw hh).mp (by omega)
  exact ⟨heven, heven', by omega, by omega⟩

/-! ## The whole -/

section Whole

variable {A} {model : ShapePredictor F} {bmp : Bitmap}

/-- On an even bitmap the predictor gets a picture, of twice the size and a little more. -/
theorem exists_picture (hmoderate : bmp.Moderate) (hsize : EvenSize bmp.width bmp.height) :
    ∃ yuv img out, bmp.convertBitmapPixelToNV21 = some yuv ∧
      convertNV21ToArray2d yuv bmp.width bmp.height = some img ∧ pyramidUp img = some out ∧
      out.Rectangular ∧ out.numRows = 2 * bmp.height + 1 ∧ out.numColumns = 2 * bmp.width + 2 := by
  obtain ⟨yuv, img, hyuv, himg, -⟩ := Bitmap.exists_roundTrip hsize
  obtain ⟨hrect, hrows, hcolumns⟩ :=
    size_convertNV21ToArray2d (by have := hsize.two_le_height; omega) himg
  have hwidth := hsize.two_le_width
  have hheight := hsize.two_le_height
  obtain ⟨hwidth', hheight'⟩ := hmoderate
  obtain ⟨out, hout, hrect', hrows', hcolumns', -⟩ :=
    exists_pyramidUp_shows ⟨hrect, by omega, by omega⟩
  exact ⟨yuv, img, out, hyuv, himg, hout, hrect', by rw [hrows', hrows], by rw [hcolumns', hcolumns]⟩

theorem detectLandmark_eq (A : FloatArithmetic F) (model : ShapePredictor F) {yuv : List JByte}
    {img out : Array2d} (hyuv : bmp.convertBitmapPixelToNV21 = some yuv)
    (himg : convertNV21ToArray2d yuv bmp.width bmp.height = some img)
    (hout : pyramidUp img = some out) :
    detectLandmark A model bmp
      = (model.apply A out (region bmp.width bmp.height)).bind fun points ↦
          packLandmarks points.parts := by
  simp only [detectLandmark, hyuv, himg, hout, Option.bind_eq_bind, Option.bind_some]

theorem evenSize_of_detectLandmark (hw : 1 ≤ bmp.width) (hh : 1 ≤ bmp.height)
    (h : (detectLandmark A model bmp).isSome) : EvenSize bmp.width bmp.height := by
  obtain ⟨landmarks, hlandmarks⟩ := Option.isSome_iff_exists.mp h
  simp only [detectLandmark, Option.bind_eq_bind, Option.bind_eq_some_iff] at hlandmarks
  obtain ⟨yuv, hyuv, img, himg, -⟩ := hlandmarks
  exact evenSize_of_decoded hw hh hyuv himg

theorem exists_detectLandmark (h : model.WellFormed) (hcount : model.numParts < 2 ^ 30)
    (hmoderate : bmp.Moderate) (hsize : EvenSize bmp.width bmp.height) :
    ∃ points landmarks, points.length = model.numParts ∧ packLandmarks points = some landmarks ∧
      detectLandmark A model bmp = some landmarks := by
  obtain ⟨yuv, img, out, hyuv, himg, hout, hrect, -, -⟩ := exists_picture hmoderate hsize
  obtain ⟨detection, happly, -, hparts⟩ := ShapePredictor.exists_apply_of_wellFormed (A := A) h hrect
    (region bmp.width bmp.height)
  obtain ⟨landmarks, hpack, -⟩ := exists_packLandmarks (hparts ▸ hcount)
  refine ⟨detection.parts, landmarks, hparts, hpack, ?_⟩
  rw [detectLandmark_eq A model hyuv himg hout, happly, Option.bind_some, hpack]

/-- **Where `detectLandmark` comes to its end**: with a well-formed predictor, exactly on the bitmaps
of even width and height, unless there are so many parts that the length of the array overflows. -/
theorem isSome_detectLandmark_iff (h : model.WellFormed) (hmoderate : bmp.Moderate)
    (hw : 1 ≤ bmp.width) (hh : 1 ≤ bmp.height) :
    (detectLandmark A model bmp).isSome
      ↔ EvenSize bmp.width bmp.height ∧ model.numParts < 2 ^ 30 := by
  constructor
  · intro hsome
    have hsize := evenSize_of_detectLandmark hw hh hsome
    refine ⟨hsize, ?_⟩
    obtain ⟨yuv, img, out, hyuv, himg, hout, hrect, -, -⟩ := exists_picture hmoderate hsize
    obtain ⟨detection, happly, -, hparts⟩ := ShapePredictor.exists_apply_of_wellFormed (A := A) h
      hrect (region bmp.width bmp.height)
    obtain ⟨landmarks, hlandmarks⟩ := Option.isSome_iff_exists.mp hsome
    rw [detectLandmark_eq A model hyuv himg hout, happly, Option.bind_some] at hlandmarks
    rw [← hparts]
    exact length_lt_of_packLandmarks hlandmarks
  · rintro ⟨hsize, hcount⟩
    obtain ⟨points, landmarks, -, -, hdetect⟩ := exists_detectLandmark (A := A) h hcount hmoderate hsize
    rw [hdetect, Option.isSome_some]

theorem isSome_detectLandmark_iff_stump :
    (detectLandmark uprightArithmetic (.stump (single 0)) (solidBitmap 3 2 0xff102030#32)).isSome
      ↔ EvenSize 3 2 ∧ (ShapePredictor.stump (single 0)).numParts < 2 ^ 30 :=
  isSome_detectLandmark_iff (ShapePredictor.wellFormed_stump _) ⟨by decide, by decide⟩ (by decide)
    (by decide)

theorem showLandmarks_eq (A : FloatArithmetic F) (model : ShapePredictor F) {yuv : List JByte}
    {img out : Array2d} (hyuv : bmp.convertBitmapPixelToNV21 = some yuv)
    (himg : convertNV21ToArray2d yuv bmp.width bmp.height = some img)
    (hout : pyramidUp img = some out) :
    showLandmarks A model bmp
      = (model.apply A out (region bmp.width bmp.height)).bind fun points ↦ handOff points.parts := by
  rw [showLandmarks, detectLandmark_eq A model hyuv himg hout, Option.bind_eq_bind, Option.bind_assoc]
  rfl

/-- **All parts are drawn**: on an even bitmap, one circle for each of them. -/
theorem exists_showLandmarks (h : model.WellFormed) (hcount : model.numParts < 2 ^ 30)
    (hmoderate : bmp.Moderate) (hsize : EvenSize bmp.width bmp.height) :
    ∃ circles, showLandmarks A model bmp = some circles ∧ circles.length = model.numParts := by
  obtain ⟨yuv, img, out, hyuv, himg, hout, hrect, -, -⟩ := exists_picture hmoderate hsize
  obtain ⟨detection, happly, -, hparts⟩ := ShapePredictor.exists_apply_of_wellFormed (A := A) h hrect
    (region bmp.width bmp.height)
  have hpos : 0 < detection.parts.length := hparts ▸ h.numParts_pos
  rw [showLandmarks_eq A model hyuv himg hout, happly, Option.bind_some,
    handOff_eq hpos (hparts ▸ hcount)]
  exact ⟨_, rfl, by rw [List.length_map, hparts]⟩

theorem exists_showLandmarks_stump :
    ∃ circles, showLandmarks uprightArithmetic (.stump (single 0)) (solidBitmap 2 2 0xff102030#32)
      = some circles ∧ circles.length = 1 :=
  exists_showLandmarks (ShapePredictor.wellFormed_stump _)
    (by simp [ShapePredictor.stump, ShapePredictor.numParts]) ⟨by decide, by decide⟩ evenSize_two_two

/-- Without a model there is nothing to log, and the activity does not get further. -/
theorem showLandmarks_empty (bmp : Bitmap) : showLandmarks A ShapePredictor.empty bmp = none := by
  have happly : ∀ (img : Array2d) (rect : Rectangle), ShapePredictor.empty.apply A img rect
      = some { rect := rect, parts := [] } := by
    intro img rect
    simp [ShapePredictor.apply, ShapePredictor.empty, Raster.forRange?, partsOf, Raster.tabulate?]
  have hpack : packLandmarks [] = some [] := by decide
  rw [showLandmarks, Option.bind_eq_bind, Option.bind_eq_none_iff]
  intro landmarks hlandmarks
  -- whatever the bitmap, only an empty array can come out
  have hempty : landmarks = [] := by
    simp only [detectLandmark, happly, hpack, Option.bind_eq_bind, Option.bind_some,
      Option.bind_eq_some_iff] at hlandmarks
    obtain ⟨-, -, -, -, -, -, hlandmarks⟩ := hlandmarks
    exact (Option.some_inj.mp hlandmarks).symm
  rw [hempty]
  rfl

end Whole

end FacialLandmark
