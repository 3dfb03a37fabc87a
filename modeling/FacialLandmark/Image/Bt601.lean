import FacialLandmark.Image.Bounds
import Mathlib.Data.List.GetD

/-!
# The decoder against the BT.601 conversion

`bt601` is the conversion the decoder is meant to compute: the luma offset is cut off at zero and the
chroma offsets are signed. The code takes all three offsets modulo 256 instead, so it agrees with the
reference on the bytes whose offsets are not negative. That these are the *only* bytes on which it
agrees is `decodeYuv_eq_bt601_iff`: a wrapped offset moves the three channels by more than clamping
can hide in all of them at once.

On a frame, every byte is read by some pixel, so the per-pixel condition becomes a condition on the
two planes of the frame.
-/

namespace FacialLandmark

def clamp (x : ℤ) : ℤ := max 0 (min 255 x)

/-- The BT.601 conversion of three unsigned samples, as red, green and blue. -/
def bt601 (Y V U : ℕ) : ℤ × ℤ × ℤ :=
  let y : ℤ := 1164 * max ((Y : ℤ) - 16) 0
  let v : ℤ := V - 128
  let u : ℤ := U - 128
  (clamp ((y + 1596 * v).tdiv 1000), clamp ((y - 813 * v - 391 * u).tdiv 1000),
    clamp ((y + 2018 * u).tdiv 1000))

namespace RgbPixel

def toRgb (p : RgbPixel) : ℤ × ℤ × ℤ := (p.red.toNat, p.green.toNat, p.blue.toNat)

end RgbPixel

theorem clamp_tdiv (x : ℤ) : clamp (x.tdiv 1000) = saturate x := by
  rw [saturate_eq, clamp]
  rcases le_or_gt 0 x with hx | hx
  · rw [Int.tdiv_eq_ediv_of_nonneg hx]
  · have hneg : x.tdiv 1000 ≤ 0 := by
      rw [← Int.neg_neg x, Int.neg_tdiv, Int.tdiv_eq_ediv_of_nonneg (by omega)]
      omega
    omega

theorem saturate_eq_of_add_le {x x' : ℤ} (hfar : x + 1000 ≤ x') (h : saturate x = saturate x') :
    x' < 1000 ∨ 255000 ≤ x := by
  rw [saturate_eq, saturate_eq] at h
  omega

/-- **One pixel.** The decoder computes BT.601 exactly on the bytes with no negative offset. -/
theorem decodeYuv_eq_bt601_iff (yByte vByte uByte : JByte) :
    (decodeYuv yByte vByte uByte).toRgb = bt601 yByte.toNat vByte.toNat uByte.toNat
      ↔ 16 ≤ yByte.toNat ∧ 128 ≤ vByte.toNat ∧ 128 ≤ uByte.toNat := by
  have hY : yByte.toNat < 256 := yByte.isLt
  have hV : vByte.toNat < 256 := vByte.isLt
  have hU : uByte.toNat < 256 := uByte.isLt
  rw [RgbPixel.toRgb, toNat_red_decodeYuv, toNat_green_decodeYuv, toNat_blue_decodeYuv, bt601]
  simp only [clamp_tdiv, Prod.mk.injEq, wrapOffset]
  generalize yByte.toNat = Y at hY ⊢
  generalize vByte.toNat = V at hV ⊢
  generalize uByte.toNat = U at hU ⊢
  constructor
  · rintro ⟨hred, hgreen, hblue⟩
    by_contra hneg
    rcases lt_or_ge Y 16 with hlow | hhigh
    · -- a wrapped luma is brighter than any colour with no luma at all
      have hend := saturate_eq_of_add_le (by omega) hred.symm
      omega
    · rcases lt_or_ge V 128 with hv | hv
      · -- red can only agree above white, and there green moves down from white
        have hend := saturate_eq_of_add_le (by omega) hred.symm
        have hend' := saturate_eq_of_add_le (by omega) hgreen
        omega
      · have hend := saturate_eq_of_add_le (by omega) hblue.symm
        have hend' := saturate_eq_of_add_le (by omega) hgreen
        omega
  · rintro ⟨hy, hv, hu⟩
    refine ⟨?_, ?_, ?_⟩ <;> congr 1 <;> omega

/-! ## A whole frame -/

def unsignedAt (yuv : List JByte) (i : ℕ) : ℕ := (yuv.getD i 0#8).toNat

/-- The decoder gives an image, and each pixel of it is the BT.601 conversion of the three bytes at
the addresses of NV21. -/
def DecodesAsBt601 (yuv : List JByte) (w h : ℕ) : Prop :=
  ∃ img, convertNV21ToArray2d yuv w h = some img ∧ ∀ row < h, ∀ column < w,
    (img.get? row column).map RgbPixel.toRgb
      = some (bt601 (unsignedAt yuv (row * w + column))
          (unsignedAt yuv (w * h + row / 2 * w + 2 * (column / 2)))
          (unsignedAt yuv (w * h + row / 2 * w + 2 * (column / 2) + 1)))

/-- The planes of a frame that hold no byte below their zero level. -/
def NoNegativeOffset (yuv : List JByte) (w h : ℕ) : Prop :=
  (∀ p < w * h, 16 ≤ unsignedAt yuv p) ∧
    ∀ p < yuv.length, w * h ≤ p → 128 ≤ unsignedAt yuv p

instance (yuv : List JByte) (w h : ℕ) : Decidable (NoNegativeOffset yuv w h) :=
  inferInstanceAs (Decidable (_ ∧ _))

theorem decodePixel_eq_some {yuv : List JByte} {w h row column : ℕ}
    (hin : ∀ i ∈ decodeReads w h row column, i < yuv.length) :
    decodePixel yuv w h row column
      = some (decodeYuv (yuv.getD (row * w + column) 0#8) (yuv.getD (uvIndex w h row column) 0#8)
          (yuv.getD (uvIndex w h row column + 1) 0#8)) := by
  have hbyte : ∀ i ∈ decodeReads w h row column, yuv[i]? = some (yuv.getD i 0#8) := by
    intro i hi
    rw [List.getD_eq_getElem _ _ (hin i hi), List.getElem?_eq_getElem (hin i hi)]
  rw [decodePixel, hbyte _ (by simp [decodeReads]), hbyte _ (by simp [decodeReads]),
    hbyte _ (by simp [decodeReads])]
  rfl

theorem exists_convertNV21ToArray2d {yuv : List JByte} {w h : ℕ} (hsize : EvenSize w h)
    (hlength : yuv.length = 3 * w * h / 2) :
    ∃ img, convertNV21ToArray2d yuv w h = some img ∧ ∀ row < h, ∀ column < w,
      img.get? row column
        = some (decodeYuv (yuv.getD (row * w + column) 0#8) (yuv.getD (uvIndex w h row column) 0#8)
            (yuv.getD (uvIndex w h row column + 1) 0#8)) := by
  have hreads : ReadsInBounds yuv w h := by
    refine readsInBounds_of_even hsize ?_
    rw [hlength, Nat.mul_assoc, Nat.mul_comm 3]
  obtain ⟨img, himg⟩ := Option.isSome_iff_exists.mp (convertNV21ToArray2d_isSome_iff.mpr hreads)
  refine ⟨img, himg, fun row hrow column hcolumn ↦ ?_⟩
  rw [get?_convertNV21ToArray2d himg hrow hcolumn]
  exact decodePixel_eq_some (hreads row hrow column hcolumn)

def CellNonneg (yuv : List JByte) (w h row column : ℕ) : Prop :=
  16 ≤ unsignedAt yuv (row * w + column) ∧ 128 ≤ unsignedAt yuv (uvIndex w h row column) ∧
    128 ≤ unsignedAt yuv (uvIndex w h row column + 1)

/-- The decoder visits every byte of a frame of even size, so a condition on what it reads at each cell
is a condition on the two planes. -/
theorem forall_cellNonneg_iff {yuv : List JByte} {w h : ℕ} (hsize : EvenSize w h)
    (hlength : yuv.length = 3 * w * h / 2) :
    (∀ row < h, ∀ column < w, CellNonneg yuv w h row column) ↔ NoNegativeOffset yuv w h := by
  have harea := four_mul_blockCount hsize
  rw [Nat.mul_assoc] at hlength
  constructor
  · intro hcells
    refine ⟨fun p hp ↦ ?_, fun p hp hpw ↦ ?_⟩
    · obtain ⟨row, hrow, column, hcolumn, rfl⟩ :=
        Raster.exists_address_eq (Nat.mul_comm w h ▸ hp)
      exact (hcells row hrow column hcolumn).1
    · -- the byte belongs to the pair of some block, as its V or as its U
      have hk : (p - w * h) / 2 < blockCount w h := by omega
      obtain ⟨row, hrow, column, hcolumn, -, -, hblock⟩ := exists_blockIndex_eq hk
      have hpair := (hcells row hrow column hcolumn).2
      rw [uvIndex_eq_of_even hsize.even_width, hblock] at hpair
      rcases Nat.mod_two_eq_zero_or_one (p - w * h) with hv | hu
      · have hp' : w * h + 2 * ((p - w * h) / 2) = p := by omega
        rw [hp'] at hpair
        exact hpair.1
      · have hp' : w * h + 2 * ((p - w * h) / 2) + 1 = p := by omega
        rw [hp'] at hpair
        exact hpair.2
  · rintro ⟨hluma, hchroma⟩ row hrow column hcolumn
    have hblock := blockIndex_lt hrow hcolumn
    rw [CellNonneg, uvIndex_eq_of_even hsize.even_width]
    exact ⟨hluma _ (Raster.address_lt_area hrow hcolumn), hchroma _ (by omega) (by omega),
      hchroma _ (by omega) (by omega)⟩

/-- **The decoder computes BT.601 on a frame** exactly when no luma byte is below 16 and no chroma
byte is below 128. -/
theorem decodesAsBt601_iff {yuv : List JByte} {w h : ℕ} (hsize : EvenSize w h)
    (hlength : yuv.length = 3 * w * h / 2) :
    DecodesAsBt601 yuv w h ↔ NoNegativeOffset yuv w h := by
  obtain ⟨img, himg, hcells⟩ := exists_convertNV21ToArray2d hsize hlength
  have hcell : ∀ row < h, ∀ column < w, ((img.get? row column).map RgbPixel.toRgb
      = some (bt601 (unsignedAt yuv (row * w + column))
          (unsignedAt yuv (w * h + row / 2 * w + 2 * (column / 2)))
          (unsignedAt yuv (w * h + row / 2 * w + 2 * (column / 2) + 1)))
      ↔ CellNonneg yuv w h row column) := by
    intro row hrow column hcolumn
    rw [hcells row hrow column hcolumn, Option.map_some, Option.some_inj, CellNonneg, uvIndex_eq]
    exact decodeYuv_eq_bt601_iff _ _ _
  rw [← forall_cellNonneg_iff hsize hlength]
  constructor
  · rintro ⟨img', himg', hdecodes⟩ row hrow column hcolumn
    obtain rfl : img = img' := Option.some_inj.mp (himg.symm.trans himg')
    exact (hcell row hrow column hcolumn).mp (hdecodes row hrow column hcolumn)
  · intro hnonneg
    exact ⟨img, himg, fun row hrow column hcolumn ↦
      (hcell row hrow column hcolumn).mpr (hnonneg row hrow column hcolumn)⟩

theorem decodesAsBt601_grey :
    DecodesAsBt601 [128#8, 128#8, 128#8, 128#8, 128#8, 128#8] 2 2
      ↔ NoNegativeOffset [128#8, 128#8, 128#8, 128#8, 128#8, 128#8] 2 2 :=
  decodesAsBt601_iff evenSize_two_two (by decide)

/-- Four pixels whose luma is fine and whose chroma bytes are zero. -/
theorem not_forall_decodesAsBt601 :
    ¬∀ (w h : ℕ) (yuv : List JByte), EvenSize w h → yuv.length = 3 * w * h / 2 →
      DecodesAsBt601 yuv w h := by
  intro hall
  obtain ⟨img, himg, hcells⟩ :=
    hall 2 2 [128#8, 128#8, 128#8, 128#8, 0#8, 0#8] evenSize_two_two (by decide)
  have himg' : convertNV21ToArray2d [128#8, 128#8, 128#8, 128#8, 0#8, 0#8] 2 2
      = some (List.replicate 2 (List.replicate 2 ⟨255#8, 0#8, 255#8⟩)) := by decide
  obtain rfl := Option.some_inj.mp (himg.symm.trans himg')
  exact absurd (hcells 0 (by decide) 0 (by decide)) (by decide)

end FacialLandmark
