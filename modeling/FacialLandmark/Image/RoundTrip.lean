import FacialLandmark.Image.Bt601
import FacialLandmark.Image.Layout

/-!
# Encoding a picture and decoding it again

The encoder and the decoder disagree in two places. The chroma bytes are laid out plane by plane and
read as pairs, so a block is decoded with the samples that stand at its pair, `chromaSample (2 * k)`
and `chromaSample (2 * k + 1)`; and the decoder takes the offset of a chroma byte modulo 256. What
is left of the round trip is a question about each block alone: it has to *tolerate* the two bytes
it is decoded with (`roundTrip_iff_blocksTolerate`).

The quantisation errors of the two conversions are bounded once, for all colours
(`quantisation_error`), and leave room for one level of chroma. So a block tolerates two bytes that
are not below 128 and hardly differ from its own samples (`tolerates_of_inPlace`), and a colour away
from the ends of the range tolerates nothing that is far from them (`nearby_of_tolerates`). Where the
layouts agree, the bytes are the samples of the block, and all that counts is whether one of them is
below 128 (`blocksTolerate_iff_of_cycles`).
-/

namespace FacialLandmark

/-! ## Tolerance of one channel -/

/-- The values, in thousandths, that saturate to within 4 of a channel. At the two ends of the range
the window is open, because whatever is beyond the end is clamped to it. -/
def InWindow (channel : ℕ) (x : ℤ) : Prop :=
  (channel ≤ 4 ∨ 1000 * ((channel : ℤ) - 4) ≤ x) ∧ (251 ≤ channel ∨ x < 1000 * ((channel : ℤ) + 5))

instance (channel : ℕ) (x : ℤ) : Decidable (InWindow channel x) :=
  inferInstanceAs (Decidable (_ ∧ _))

theorem abs_saturate_sub_le_iff {channel : ℕ} (h : channel ≤ 255) (x : ℤ) :
    |saturate x - channel| ≤ 4 ↔ InWindow channel x := by
  rw [saturate_eq, InWindow, abs_le]
  omega

/-- A colour tolerates a pair of chroma bytes when its own luma and the wrapped offsets of the two
bytes put every channel in its window. -/
def Tolerates (argb : JInt) (v u : JByte) : Prop :=
  InWindow (red argb) (1164 * ((pixelYuv argb).Y - 16) + 1596 * wrapOffset v 128) ∧
    InWindow (green argb)
      (1164 * ((pixelYuv argb).Y - 16) - 813 * wrapOffset v 128 - 391 * wrapOffset u 128) ∧
    InWindow (blue argb) (1164 * ((pixelYuv argb).Y - 16) + 2018 * wrapOffset u 128)

instance (argb : JInt) (v u : JByte) : Decidable (Tolerates argb v u) :=
  inferInstanceAs (Decidable (_ ∧ _ ∧ _))

/-- A decoded pixel is within 4 of a pixel in each channel. -/
def Near (p : RgbPixel) (argb : JInt) : Prop :=
  |(p.red.toNat : ℤ) - red argb| ≤ 4 ∧ |(p.green.toNat : ℤ) - green argb| ≤ 4 ∧
    |(p.blue.toNat : ℤ) - blue argb| ≤ 4

instance (p : RgbPixel) (argb : JInt) : Decidable (Near p argb) :=
  inferInstanceAs (Decidable (_ ∧ _ ∧ _))

theorem wrapOffset_lumaByte (argb : JInt) :
    wrapOffset (lumaByte argb) 16 = (pixelYuv argb).Y - 16 := by
  have hrange := (pixelYuv_range argb).1
  rw [wrapOffset, toNat_lumaByte]
  omega

theorem near_decodeYuv_iff (argb : JInt) (v u : JByte) :
    Near (decodeYuv (lumaByte argb) v u) argb ↔ Tolerates argb v u := by
  rw [Near, toNat_red_decodeYuv, toNat_green_decodeYuv, toNat_blue_decodeYuv,
    abs_saturate_sub_le_iff (red_le argb), abs_saturate_sub_le_iff (green_le argb),
    abs_saturate_sub_le_iff (blue_le argb), wrapOffset_lumaByte, Tolerates]

/-! ## The two quantisations -/

/-- **The error bound.** With signed offsets, and before any clamping, the two fixed-point
conversions undo each other to within 2 levels of red and green and 2.6 levels of blue. -/
theorem quantisation_error (argb : JInt) :
    |1164 * ((pixelYuv argb).Y - 16) + 1596 * ((pixelYuv argb).V - 128) - 1000 * (red argb : ℤ)|
        ≤ 2000 ∧
      |1164 * ((pixelYuv argb).Y - 16) - 813 * ((pixelYuv argb).V - 128)
          - 391 * ((pixelYuv argb).U - 128) - 1000 * (green argb : ℤ)| ≤ 2000 ∧
      |1164 * ((pixelYuv argb).Y - 16) + 2018 * ((pixelYuv argb).U - 128) - 1000 * (blue argb : ℤ)|
        ≤ 2600 := by
  have hR := red_le argb
  have hG := green_le argb
  have hB := blue_le argb
  rw [pixelYuv_eq]
  generalize red argb = R at *
  generalize green argb = G at *
  generalize blue argb = B at *
  simp only [rgbToYuv, Int.shiftRight_eq_div_pow, abs_le]
  refine ⟨⟨?_, ?_⟩, ⟨?_, ?_⟩, ?_, ?_⟩ <;> omega

theorem wrapOffset_of_le {b : JByte} (h : 128 ≤ b.toNat) : wrapOffset b 128 = b.toNat - 128 := by
  have hlt : b.toNat < 2 ^ 8 := b.isLt
  rw [wrapOffset]
  omega

theorem wrapOffset_of_lt {b : JByte} (h : b.toNat < 128) : wrapOffset b 128 = b.toNat + 128 := by
  rw [wrapOffset]
  omega

theorem le_wrapOffset (b : JByte) : (b.toNat : ℤ) - 128 ≤ wrapOffset b 128 := by
  rw [wrapOffset]
  omega

/-- Two bytes that may stand in the place of the samples of a colour: neither is below 128, the first
is within one level of the V sample, and the second is the U sample or one level above. -/
def InPlace (argb : JInt) (v u : JByte) : Prop :=
  (128 ≤ v.toNat ∧ 128 ≤ u.toNat) ∧ |(v.toNat : ℤ) - (pixelYuv argb).V| ≤ 1 ∧
    (pixelYuv argb).U ≤ u.toNat ∧ (u.toNat : ℤ) ≤ (pixelYuv argb).U + 1

instance (argb : JInt) (v u : JByte) : Decidable (InPlace argb v u) :=
  inferInstanceAs (Decidable (_ ∧ _ ∧ _ ∧ _))

/-- Neither byte is below 128, and both are within a few levels of the samples of the colour. -/
def Nearby (argb : JInt) (v u : JByte) : Prop :=
  (128 ≤ v.toNat ∧ 128 ≤ u.toNat) ∧ |(v.toNat : ℤ) - (pixelYuv argb).V| ≤ 4 ∧
    |(u.toNat : ℤ) - (pixelYuv argb).U| ≤ 3

/-- Red and blue are away from the ends of the range, so that no clamping can hide an error there. -/
def Inner (argb : JInt) : Prop :=
  (5 ≤ red argb ∧ red argb ≤ 250) ∧ 5 ≤ blue argb ∧ blue argb ≤ 250

/-- One level of V moves red by less than 1.6 levels, and one level of U moves blue by about two: the
quantisation error leaves room for that in every channel. -/
theorem tolerates_of_inPlace {argb : JInt} {v u : JByte} (h : InPlace argb v u) :
    Tolerates argb v u := by
  obtain ⟨⟨hv, hu⟩, hV, hUlow, hUhigh⟩ := h
  obtain ⟨hred, hgreen, hblue⟩ := quantisation_error argb
  rw [abs_le] at hV hred hgreen hblue
  rw [Tolerates, wrapOffset_of_le hv, wrapOffset_of_le hu]
  refine ⟨⟨Or.inr ?_, Or.inr ?_⟩, ⟨Or.inr ?_, Or.inr ?_⟩, Or.inr ?_, Or.inr ?_⟩ <;> omega

theorem nearby_of_tolerates {argb : JInt} {v u : JByte} (hinner : Inner argb)
    (h : Tolerates argb v u) : Nearby argb v u := by
  obtain ⟨⟨hredlow, hredhigh⟩, hbluelow, hbluehigh⟩ := hinner
  obtain ⟨⟨hRlow, hRhigh⟩, -, hBlow, hBhigh⟩ := h
  obtain ⟨hred, -, hblue⟩ := quantisation_error argb
  obtain ⟨-, ⟨hUmin, hUmax⟩, hVmin, hVmax⟩ := pixelYuv_range argb
  rw [abs_le] at hred hblue
  have hv : 128 ≤ v.toNat := by
    by_contra hlt
    rw [wrapOffset_of_lt (not_le.mp hlt)] at hRhigh
    omega
  have hu : 128 ≤ u.toNat := by
    by_contra hlt
    rw [wrapOffset_of_lt (not_le.mp hlt)] at hBhigh
    omega
  rw [wrapOffset_of_le hv] at hRlow hRhigh
  rw [wrapOffset_of_le hu] at hBlow hBhigh
  refine ⟨⟨hv, hu⟩, abs_le.mpr ⟨?_, ?_⟩, abs_le.mpr ⟨?_, ?_⟩⟩ <;> omega

theorem le_V_of_red {argb : JInt} (hR : 251 ≤ red argb) (hG : green argb ≤ 4) :
    128 ≤ (pixelYuv argb).V := by
  have hB := blue_le argb
  rw [pixelYuv_eq]
  simp only [rgbToYuv, Int.shiftRight_eq_div_pow]
  omega

theorem le_U_of_blue {argb : JInt} (hB : 251 ≤ blue argb) (hG : green argb ≤ 4) :
    128 ≤ (pixelYuv argb).U := by
  have hR := red_le argb
  rw [pixelYuv_eq]
  simp only [rgbToYuv, Int.shiftRight_eq_div_pow]
  omega

/-- A colour tolerates its own chroma samples exactly when neither of them is below 128. A smaller
sample comes out too large by 256, and no colour with such a sample lies where clamping would hide
it. -/
theorem toleratesOwn_iff (argb : JInt) :
    Tolerates argb (vByte argb) (uByte argb)
      ↔ 128 ≤ (pixelYuv argb).V ∧ 128 ≤ (pixelYuv argb).U := by
  have hV : ((vByte argb).toNat : ℤ) = (pixelYuv argb).V := toNat_vByte argb
  have hU : ((uByte argb).toNat : ℤ) = (pixelYuv argb).U := toNat_uByte argb
  constructor
  · rintro ⟨⟨-, hred⟩, ⟨hgreen, -⟩, -, hblue⟩
    obtain ⟨hredError, hgreenError, hblueError⟩ := quantisation_error argb
    rw [abs_le] at hredError hgreenError hblueError
    by_contra hwrapped
    rcases lt_or_ge (vByte argb).toNat 128 with hVlow | hVlevel
    · -- red is far too large, which only full red hides; then green must be dark, but then V is not
      have hUoffset := le_wrapOffset (uByte argb)
      rw [wrapOffset_of_lt hVlow] at hred hgreen
      have hfull : 251 ≤ red argb := by omega
      have hdark : green argb ≤ 4 := by omega
      have hlevel := le_V_of_red hfull hdark
      omega
    · -- the same with blue in the place of red
      have hUlow : (uByte argb).toNat < 128 := by omega
      rw [wrapOffset_of_le hVlevel, wrapOffset_of_lt hUlow] at hgreen
      rw [wrapOffset_of_lt hUlow] at hblue
      have hfull : 251 ≤ blue argb := by omega
      have hdark : green argb ≤ 4 := by omega
      have hlevel := le_U_of_blue hfull hdark
      omega
  · rintro ⟨hVlevel, hUlevel⟩
    refine tolerates_of_inPlace ⟨⟨by omega, by omega⟩, ?_, by omega, by omega⟩
    rw [hV, sub_self, abs_zero]
    exact zero_le_one

/-! ## The round trip -/

theorem lumaByte_congr {p q : JInt} (h : SameRgb p q) : lumaByte p = lumaByte q := by
  rw [lumaByte, lumaByte, pixelYuv_eq, pixelYuv_eq, h.1, h.2.1, h.2.2]

theorem near_congr {pixel : RgbPixel} {p q : JInt} (h : SameRgb p q) : Near pixel p ↔ Near pixel q := by
  rw [Near, Near, h.1, h.2.1, h.2.2]

namespace Bitmap

variable {bmp : Bitmap}

def BlockConstant (bmp : Bitmap) : Prop :=
  ∀ row < bmp.height, ∀ column < bmp.width,
    SameRgb (bmp.pixelAt row column) (bmp.pixelAt (2 * (row / 2)) (2 * (column / 2)))

instance (bmp : Bitmap) : Decidable bmp.BlockConstant :=
  inferInstanceAs (Decidable (∀ row < bmp.height, ∀ column < bmp.width, _))

/-- Encoding and then decoding gives an image, each pixel of which is within 4 of the picture's in
red, in green and in blue. -/
def RoundTrip (bmp : Bitmap) : Prop :=
  ∃ yuv img, bmp.convertBitmapPixelToNV21 = some yuv ∧
    convertNV21ToArray2d yuv bmp.width bmp.height = some img ∧
    ∀ row < bmp.height, ∀ column < bmp.width,
      ∃ pixel, img.get? row column = some pixel ∧ Near pixel (bmp.pixelAt row column)

/-- What the decoder makes of the encoder's array, on even sizes: every pixel is decoded from its own
luma and the pair that stands at its block. -/
theorem exists_roundTrip (hsize : EvenSize bmp.width bmp.height) :
    ∃ yuv img, bmp.convertBitmapPixelToNV21 = some yuv ∧
      convertNV21ToArray2d yuv bmp.width bmp.height = some img ∧
      ∀ row < bmp.height, ∀ column < bmp.width,
        img.get? row column = some (decodeYuv (lumaByte (bmp.pixelAt row column))
          (bmp.chromaSample (2 * blockIndex bmp.width row column))
          (bmp.chromaSample (2 * blockIndex bmp.width row column + 1))) := by
  obtain ⟨yuv, hyuv, hframe⟩ := exists_encodedFrame hsize
  have hlength : yuv.length = 3 * bmp.width * bmp.height / 2 := by
    rw [hframe.length_eq, yuvLength, Nat.mul_comm, Nat.mul_assoc]
  obtain ⟨img, himg, hcells⟩ := exists_convertNV21ToArray2d hsize hlength
  refine ⟨yuv, img, hyuv, himg, fun row hrow column hcolumn ↦ ?_⟩
  have hblock : blockIndex bmp.width row column < bmp.blocks := blockIndex_lt hrow hcolumn
  have hv := hframe.chroma (2 * blockIndex bmp.width row column) (by omega)
  have hu := hframe.chroma (2 * blockIndex bmp.width row column + 1) (by omega)
  rw [hcells row hrow column hcolumn, uvIndex_eq_of_even hsize.even_width, ← frameSize,
    Nat.add_assoc, List.getD_eq_getElem?_getD, List.getD_eq_getElem?_getD,
    List.getD_eq_getElem?_getD, hframe.luma row hrow column hcolumn, hv, hu]
  rfl

/-- Every block tolerates the two chroma samples that stand at its pair: sample `2 * k` and sample
`2 * k + 1` of the U samples followed by the V samples. -/
def BlocksTolerate (bmp : Bitmap) : Prop :=
  ∀ k < bmp.blocks,
    Tolerates (bmp.blockPixel k) (bmp.chromaSample (2 * k)) (bmp.chromaSample (2 * k + 1))

instance (bmp : Bitmap) : Decidable bmp.BlocksTolerate :=
  inferInstanceAs (Decidable (∀ k < bmp.blocks, _))

/-- Each block is decoded with bytes that may stand in the place of its samples. -/
def ChromaInPlace (bmp : Bitmap) : Prop :=
  ∀ k < bmp.blocks,
    InPlace (bmp.blockPixel k) (bmp.chromaSample (2 * k)) (bmp.chromaSample (2 * k + 1))

instance (bmp : Bitmap) : Decidable bmp.ChromaInPlace :=
  inferInstanceAs (Decidable (∀ k < bmp.blocks, _))

/-- Where the two layouts agree every block is decoded with its own samples, and what remains is the
sign of the two chroma offsets. -/
theorem blocksTolerate_iff_of_cycles (hcycles : bmp.ChromaConstantOnCycles) :
    bmp.BlocksTolerate ↔ ∀ k < bmp.blocks,
      128 ≤ (pixelYuv (bmp.blockPixel k)).V ∧ 128 ≤ (pixelYuv (bmp.blockPixel k)).U := by
  have hsamples : ∀ p < 2 * bmp.blocks,
      bmp.chromaSample p = Riffle.interleaved bmp.vSample bmp.uSample p :=
    Riffle.planar_eq_interleaved_iff.mpr hcycles
  refine forall₂_congr fun k hk ↦ ?_
  rw [hsamples _ (by omega), hsamples _ (by omega), Riffle.interleaved_even, Riffle.interleaved_odd]
  exact toleratesOwn_iff _

theorem roundTrip_iff_blocksTolerate (hsize : EvenSize bmp.width bmp.height)
    (hconstant : bmp.BlockConstant) : bmp.RoundTrip ↔ bmp.BlocksTolerate := by
  obtain ⟨yuv, img, hyuv, himg, hcells⟩ := exists_roundTrip hsize
  have hcell : ∀ row < bmp.height, ∀ column < bmp.width,
      (∃ pixel, img.get? row column = some pixel ∧ Near pixel (bmp.pixelAt row column))
        ↔ Tolerates (bmp.blockPixel (blockIndex bmp.width row column))
            (bmp.chromaSample (2 * blockIndex bmp.width row column))
            (bmp.chromaSample (2 * blockIndex bmp.width row column + 1)) := by
    intro row hrow column hcolumn
    have hsame := hconstant row hrow column hcolumn
    rw [← blockPixel_blockIndex hcolumn] at hsame
    rw [hcells row hrow column hcolumn, ← near_decodeYuv_iff, lumaByte_congr hsame]
    simp only [Option.some_inj, exists_eq_left', near_congr hsame]
  constructor
  · rintro ⟨yuv', img', hyuv', himg', hnear⟩ k hk
    obtain rfl := Option.some_inj.mp (hyuv.symm.trans hyuv')
    obtain rfl := Option.some_inj.mp (himg.symm.trans himg')
    -- one pixel of the block is enough, all of them are decoded with the same pair
    obtain ⟨row, hrow, column, hcolumn, -, -, rfl⟩ := exists_blockIndex_eq hk
    exact (hcell row hrow column hcolumn).mp (hnear row hrow column hcolumn)
  · intro htolerate
    refine ⟨yuv, img, hyuv, himg, fun row hrow column hcolumn ↦ ?_⟩
    exact (hcell row hrow column hcolumn).mpr (htolerate _ (blockIndex_lt hrow hcolumn))

/-- **The round trip** of a picture with one colour in each block is faithful to within 4 levels if
each block is decoded with bytes in the place of its samples. Where the two layouts agree, it is
faithful exactly when no chroma sample is below 128. And on any picture where it is faithful, the
blocks whose colour is away from the ends of the range are decoded with bytes near their samples. -/
theorem roundTrip_of_chromaInPlace (hsize : EvenSize bmp.width bmp.height)
    (hconstant : bmp.BlockConstant) :
    (bmp.ChromaInPlace → bmp.RoundTrip) ∧
      (bmp.ChromaConstantOnCycles → (bmp.RoundTrip ↔ ∀ k < bmp.blocks,
        128 ≤ (pixelYuv (bmp.blockPixel k)).V ∧ 128 ≤ (pixelYuv (bmp.blockPixel k)).U)) ∧
      (bmp.RoundTrip → ∀ k < bmp.blocks, Inner (bmp.blockPixel k) →
        Nearby (bmp.blockPixel k) (bmp.chromaSample (2 * k)) (bmp.chromaSample (2 * k + 1))) := by
  have hblocks := roundTrip_iff_blocksTolerate hsize hconstant
  refine ⟨fun hplace ↦ ?_, fun hcycles ↦ ?_, fun hroundTrip k hk hinner ↦ ?_⟩
  · exact hblocks.mpr fun k hk ↦ tolerates_of_inPlace (hplace k hk)
  · exact hblocks.trans (blocksTolerate_iff_of_cycles hcycles)
  · exact nearby_of_tolerates hinner (hblocks.mp hroundTrip k hk)

/-- The three colours of the stripes have different samples, all of them at least 144. -/
theorem roundTrip_stripedBitmap : stripedBitmap.RoundTrip :=
  (roundTrip_of_chromaInPlace evenSize_stripedBitmap (by decide)).1 (by decide)

/-- A green picture comes back with full red: its block is decoded with the U sample 54 in the place
of V, and 54 is 74 below the zero level. -/
theorem not_forall_roundTrip :
    ¬∀ bmp : Bitmap, EvenSize bmp.width bmp.height → bmp.BlockConstant → bmp.RoundTrip := by
  intro hall
  obtain ⟨yuv, img, hyuv, himg, hnear⟩ :=
    hall (solidBitmap 2 2 0xff00ff00#32) evenSize_two_two (by decide)
  have hyuv' : (solidBitmap 2 2 0xff00ff00#32).convertBitmapPixelToNV21
      = some [144#8, 144#8, 144#8, 144#8, 54#8, 34#8] := by decide
  obtain rfl := Option.some_inj.mp (hyuv.symm.trans hyuv')
  have himg' : convertNV21ToArray2d [144#8, 144#8, 144#8, 144#8, 54#8, 34#8] 2 2
      = some (List.replicate 2 (List.replicate 2 ⟨255#8, 0#8, 255#8⟩)) := by decide
  obtain rfl := Option.some_inj.mp (himg.symm.trans himg')
  obtain ⟨pixel, hpixel, hred, -⟩ := hnear 0 (by decide) 0 (by decide)
  obtain rfl := Option.some_inj.mp (hpixel.symm.trans
    (by decide : Array2d.get? _ 0 0 = some ⟨255#8, 0#8, 255#8⟩))
  exact absurd hred (by decide)

end Bitmap

end FacialLandmark
