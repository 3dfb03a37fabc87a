import FacialLandmark.Image.Pixel
import FacialLandmark.Library.Raster

/-!
# The decoder `convertNV21ToArray2d`

The decoder visits every cell of the image, reads one luma byte and two neighbouring chroma bytes of
the frame, and computes one pixel from them. It has no cursor: the three addresses are given by
`row * width + column` and `uvIndex`. A read outside the array it was given is the end of the
meaning of the program, so `decodePixel` is partial and the image exists exactly when every read hits
(`convertNV21ToArray2d_isSome_iff`).

The colour arithmetic is transcribed with the precedences of C: binary minus binds tighter than `&`,
so `0xff & yuv[i] - 128` masks the *difference*. `toNat_red_decodeYuv` and its two siblings say what
comes out of that: each offset is taken modulo 256.
-/

namespace FacialLandmark

/-- `dlib::rgb_pixel`, three `unsigned char`s. -/
structure RgbPixel where
  red : BitVec 8
  green : BitVec 8
  blue : BitVec 8
  deriving DecidableEq

/-! ## The colour of one pixel -/

/-- `x < 0 ? 0 : x > 255000 ? 255 : x / 1000`. -/
def saturate (x : ℤ) : ℤ := if x < 0 then 0 else if x > 255000 then 255 else x.tdiv 1000

/-- The arithmetic of the loop body on the three bytes it has read. -/
def decodeYuv (yByte vByte uByte : JByte) : RgbPixel :=
  -- `0xff & yuv[...] - 16` is `0xff & (yuv[...] - 16)`: the mask comes after the subtraction
  let y := maskFF (yByte.toInt - 16)
  let v := maskFF (vByte.toInt - 128)
  let u := maskFF (uByte.toInt - 128)
  let y := if y < 0 then 0 else 1164 * y
  let r := y + 1596 * v
  let g := y - 813 * v - 391 * u
  let b := y + 2018 * u
  { red := BitVec.ofInt 8 (saturate r)
    green := BitVec.ofInt 8 (saturate g)
    blue := BitVec.ofInt 8 (saturate b) }

theorem saturate_range (x : ℤ) : 0 ≤ saturate x ∧ saturate x ≤ 255 := by
  rw [saturate]
  split
  · omega
  · split
    · omega
    · rw [Int.tdiv_eq_ediv_of_nonneg (by omega)]
      omega

/-- Saturation is clamping the quotient: on the values that are divided, `/` is floor division. -/
theorem saturate_eq (x : ℤ) : saturate x = max 0 (min 255 (x / 1000)) := by
  rw [saturate]
  split
  · omega
  · split
    · omega
    · rw [Int.tdiv_eq_ediv_of_nonneg (by omega)]
      omega

private theorem toNat_ofInt_saturate (x : ℤ) :
    ((BitVec.ofInt 8 (saturate x)).toNat : ℤ) = saturate x :=
  toNat_toJByte (saturate_range x).1 (saturate_range x).2

/-- The offset the decoder takes of a byte: the difference modulo 256, never negative. -/
def wrapOffset (b : JByte) (k : ℕ) : ℤ := ((b.toNat : ℤ) - k) % 256

theorem wrapOffset_range (b : JByte) (k : ℕ) : 0 ≤ wrapOffset b k ∧ wrapOffset b k ≤ 255 := by
  rw [wrapOffset]
  omega

theorem maskFF_toInt_sub (b : JByte) (k : ℕ) : maskFF (b.toInt - k) = wrapOffset b k := by
  have hread := toInt_emod b
  rw [maskFF_eq_emod, wrapOffset]
  omega

theorem toNat_red_decodeYuv (yByte vByte uByte : JByte) :
    ((decodeYuv yByte vByte uByte).red.toNat : ℤ)
      = saturate (1164 * wrapOffset yByte 16 + 1596 * wrapOffset vByte 128) := by
  have hy := maskFF_toInt_sub yByte 16
  have hv := maskFF_toInt_sub vByte 128
  have hrange := wrapOffset_range yByte 16
  simp only [decodeYuv]
  push_cast at hy hv
  rw [toNat_ofInt_saturate, hy, hv, if_neg (by omega)]

theorem toNat_green_decodeYuv (yByte vByte uByte : JByte) :
    ((decodeYuv yByte vByte uByte).green.toNat : ℤ)
      = saturate (1164 * wrapOffset yByte 16 - 813 * wrapOffset vByte 128
          - 391 * wrapOffset uByte 128) := by
  have hy := maskFF_toInt_sub yByte 16
  have hv := maskFF_toInt_sub vByte 128
  have hu := maskFF_toInt_sub uByte 128
  have hrange := wrapOffset_range yByte 16
  simp only [decodeYuv]
  push_cast at hy hv hu
  rw [toNat_ofInt_saturate, hy, hv, hu, if_neg (by omega)]

theorem toNat_blue_decodeYuv (yByte vByte uByte : JByte) :
    ((decodeYuv yByte vByte uByte).blue.toNat : ℤ)
      = saturate (1164 * wrapOffset yByte 16 + 2018 * wrapOffset uByte 128) := by
  have hy := maskFF_toInt_sub yByte 16
  have hu := maskFF_toInt_sub uByte 128
  have hrange := wrapOffset_range yByte 16
  simp only [decodeYuv]
  push_cast at hy hu
  rw [toNat_ofInt_saturate, hy, hu, if_neg (by omega)]

/-! ## The loop -/

/-- `frameSize + (row >> 1) * width + (column & ~1)`; clearing bit 0 of a column is rounding it down
to even. -/
def uvIndex (width height row column : ℕ) : ℕ :=
  width * height + (row >>> 1) * width + 2 * (column / 2)

theorem uvIndex_eq (width height row column : ℕ) :
    uvIndex width height row column = width * height + row / 2 * width + 2 * (column / 2) := by
  rw [uvIndex, Nat.shiftRight_eq_div_pow, pow_one]

def decodeReads (width height row column : ℕ) : List ℕ :=
  [row * width + column, uvIndex width height row column, uvIndex width height row column + 1]

/-- The loop body at one cell: three reads, then the colour arithmetic. -/
def decodePixel (yuv : List JByte) (width height row column : ℕ) : Option RgbPixel := do
  let yByte ← yuv[row * width + column]?
  let vByte ← yuv[uvIndex width height row column]?
  let uByte ← yuv[uvIndex width height row column + 1]?
  some (decodeYuv yByte vByte uByte)

/-- `dlib::array2d<rgb_pixel>`, as its rows. -/
abbrev Array2d := List (List RgbPixel)

/-- `img[row][column]`. -/
def Array2d.get? (img : Array2d) (row column : ℕ) : Option RgbPixel := do
  let pixels ← img[row]?
  pixels[column]?

/-- `convertNV21ToArray2d`: the image `out`, or nothing when a read misses the array. -/
def convertNV21ToArray2d (yuv : List JByte) (width height : ℕ) : Option Array2d :=
  Raster.tabulate? (fun row ↦ Raster.tabulate? (decodePixel yuv width height row) width) height

/-- Every index the decoder reads, over the whole image, is inside the array. -/
def ReadsInBounds (yuv : List JByte) (width height : ℕ) : Prop :=
  ∀ row < height, ∀ column < width, ∀ i ∈ decodeReads width height row column, i < yuv.length

private theorem exists_byte_iff {yuv : List JByte} {i : ℕ} :
    (∃ b, yuv[i]? = some b) ↔ i < yuv.length := by
  rw [← Option.isSome_iff_exists]
  simp

theorem decodePixel_isSome_iff {yuv : List JByte} {width height row column : ℕ} :
    (decodePixel yuv width height row column).isSome
      ↔ ∀ i ∈ decodeReads width height row column, i < yuv.length := by
  simp [decodePixel, decodeReads, Option.isSome_bind, Option.any_eq_true, exists_byte_iff]

theorem convertNV21ToArray2d_isSome_iff {yuv : List JByte} {width height : ℕ} :
    (convertNV21ToArray2d yuv width height).isSome ↔ ReadsInBounds yuv width height := by
  rw [convertNV21ToArray2d, Raster.tabulate?_isSome_iff, ReadsInBounds]
  refine forall₂_congr fun row _ ↦ ?_
  rw [Raster.tabulate?_isSome_iff]
  exact forall₂_congr fun column _ ↦ decodePixel_isSome_iff

theorem get?_convertNV21ToArray2d {yuv : List JByte} {width height row column : ℕ} {img : Array2d}
    (h : convertNV21ToArray2d yuv width height = some img) (hrow : row < height)
    (hcolumn : column < width) : img.get? row column = decodePixel yuv width height row column := by
  have hpixels := Raster.getElem?_of_tabulate?_eq_some h hrow
  cases htable : Raster.tabulate? (decodePixel yuv width height row) width with
  | none =>
    -- a row that does not exist would have taken the image with it
    have hsome := Raster.tabulate?_isSome_iff.mp (Option.isSome_of_mem h) row hrow
    rw [htable] at hsome
    exact absurd hsome (by simp)
  | some pixels =>
    rw [htable] at hpixels
    rw [Array2d.get?, hpixels]
    exact Raster.getElem?_of_tabulate?_eq_some htable hcolumn

end FacialLandmark
