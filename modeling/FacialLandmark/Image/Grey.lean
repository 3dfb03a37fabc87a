import FacialLandmark.Image.RoundTrip

/-!
# Grey pictures

The landmark predictor looks at intensities only, so grey pictures are what it depends on. They are
the pictures the two disagreements between the encoder and the decoder cannot touch. All their chroma
samples are 128 (`chromaSample_of_grey`), so it does not matter at which of them the decoder looks,
and the offset of 128 is zero, so nothing wraps around.

What is left are the two fixed-point steps on the luma. They take the level `g` to `greyLevel g`,
pixel by pixel and at full resolution.
-/

namespace FacialLandmark

def Grey (argb : JInt) : Prop := red argb = green argb ∧ green argb = blue argb

instance (argb : JInt) : Decidable (Grey argb) :=
  inferInstanceAs (Decidable (_ ∧ _))

/-! ## One pixel -/

theorem pixelYuv_of_grey {argb : JInt} (h : Grey argb) :
    pixelYuv argb = ⟨(220 * (red argb : ℤ) + 128) / 256 + 16, 128, 128⟩ := by
  obtain ⟨hgreen, hblue⟩ := h
  rw [pixelYuv_eq, ← hblue, ← hgreen]
  simp only [rgbToYuv, Int.shiftRight_eq_div_pow, Yuv.mk.injEq]
  refine ⟨?_, ?_, ?_⟩ <;> omega

theorem uByte_of_grey {argb : JInt} (h : Grey argb) : uByte argb = 128#8 := by
  rw [uByte, pixelYuv_of_grey h]
  rfl

theorem vByte_of_grey {argb : JInt} (h : Grey argb) : vByte argb = 128#8 := by
  rw [vByte, pixelYuv_of_grey h]
  rfl

/-- The level a grey pixel of level `g` comes back with. -/
def greyLevel (g : ℕ) : ℕ := 1164 * ((220 * g + 128) / 256) / 1000

theorem greyLevel_mono {g g' : ℕ} (h : g ≤ g') : greyLevel g ≤ greyLevel g' := by
  have hluma : (220 * g + 128) / 256 ≤ (220 * g' + 128) / 256 := Nat.div_le_div_right (by omega)
  exact Nat.div_le_div_right (Nat.mul_le_mul_left 1164 hluma)

/-- The two quantisations lose at most one level, and never add one. -/
theorem greyLevel_bounds {g : ℕ} (h : g ≤ 255) : g ≤ greyLevel g + 1 ∧ greyLevel g ≤ g := by
  rw [greyLevel]
  omega

theorem saturate_of_grey {argb : JInt} (h : Grey argb) :
    saturate (1164 * wrapOffset (lumaByte argb) 16) = greyLevel (red argb) := by
  have hlevel := red_le argb
  rw [wrapOffset_lumaByte, pixelYuv_of_grey h, saturate_eq, greyLevel]
  push_cast
  omega

theorem toNat_decodeYuv_of_grey {argb : JInt} (h : Grey argb) :
    (decodeYuv (lumaByte argb) 128#8 128#8).red.toNat = greyLevel (red argb) ∧
      (decodeYuv (lumaByte argb) 128#8 128#8).green.toNat = greyLevel (red argb) ∧
      (decodeYuv (lumaByte argb) 128#8 128#8).blue.toNat = greyLevel (red argb) := by
  have hneutral : wrapOffset 128#8 128 = 0 := rfl
  have hsaturate := saturate_of_grey h
  have hred := toNat_red_decodeYuv (lumaByte argb) 128#8 128#8
  have hgreen := toNat_green_decodeYuv (lumaByte argb) 128#8 128#8
  have hblue := toNat_blue_decodeYuv (lumaByte argb) 128#8 128#8
  simp only [hneutral, mul_zero, add_zero, sub_zero, hsaturate] at hred hgreen hblue
  exact ⟨by exact_mod_cast hred, by exact_mod_cast hgreen, by exact_mod_cast hblue⟩

/-! ## The picture -/

namespace Bitmap

variable {bmp : Bitmap}

def Grey (bmp : Bitmap) : Prop := ∀ argb ∈ bmp.pixels, FacialLandmark.Grey argb

-- over the list of the pixels; `inferInstanceAs` would find the instance over all `2 ^ 32` of them
instance (bmp : Bitmap) : Decidable bmp.Grey :=
  List.decidableBAll FacialLandmark.Grey bmp.pixels

theorem grey_pixel (h : bmp.Grey) (index : ℕ) : FacialLandmark.Grey (bmp.pixel index) := by
  rw [pixel, List.getD_eq_getElem?_getD]
  cases hpixel : bmp.pixels[index]? with
  | none => decide
  | some argb => exact h argb (List.mem_of_getElem? hpixel)

theorem chromaSample_of_grey (h : bmp.Grey) (p : ℕ) : bmp.chromaSample p = 128#8 := by
  rw [chromaSample, Riffle.planar]
  split
  · exact uByte_of_grey (grey_pixel h _)
  · exact vByte_of_grey (grey_pixel h _)

/-- Encoding and decoding gives an achromatic image, each level of which is the picture's or one
below it, with the order of any two levels kept. -/
def GreyRoundTrip (bmp : Bitmap) : Prop :=
  ∃ yuv img, bmp.convertBitmapPixelToNV21 = some yuv ∧
    convertNV21ToArray2d yuv bmp.width bmp.height = some img ∧ ∃ level : ℕ → ℕ → ℕ,
      (∀ row < bmp.height, ∀ column < bmp.width, ∃ pixel, img.get? row column = some pixel ∧
        (pixel.red.toNat = level row column ∧ pixel.green.toNat = level row column ∧
          pixel.blue.toNat = level row column) ∧
        red (bmp.pixelAt row column) ≤ level row column + 1 ∧
        level row column ≤ red (bmp.pixelAt row column)) ∧
      ∀ row < bmp.height, ∀ column < bmp.width, ∀ row' < bmp.height, ∀ column' < bmp.width,
        red (bmp.pixelAt row column) ≤ red (bmp.pixelAt row' column') →
          level row column ≤ level row' column'

/-- **Grey pictures survive** the conversion pair up to one level, on every even size. -/
theorem greyRoundTrip (hsize : EvenSize bmp.width bmp.height) (hgrey : bmp.Grey) :
    bmp.GreyRoundTrip := by
  obtain ⟨yuv, img, hyuv, himg, hcells⟩ := exists_roundTrip hsize
  refine ⟨yuv, img, hyuv, himg, fun row column ↦ greyLevel (red (bmp.pixelAt row column)),
    fun row hrow column hcolumn ↦ ?_, fun _ _ _ _ _ _ _ _ hle ↦ greyLevel_mono hle⟩
  have hcell := hcells row hrow column hcolumn
  rw [chromaSample_of_grey hgrey, chromaSample_of_grey hgrey] at hcell
  exact ⟨_, hcell, toNat_decodeYuv_of_grey (grey_pixel hgrey _), greyLevel_bounds (red_le _)⟩

/-- Four grey levels in one block, with four alphas. -/
def greyBitmap : Bitmap where
  width := 2
  height := 2
  pixels := [0xff000000#32, 0x00ffffff#32, 0x80808080#32, 0xff7f7f7f#32]
  length_pixels := rfl

theorem greyRoundTrip_greyBitmap : greyBitmap.GreyRoundTrip :=
  greyRoundTrip evenSize_two_two (by decide)


end Bitmap

end FacialLandmark
