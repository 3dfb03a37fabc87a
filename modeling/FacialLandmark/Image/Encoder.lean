import FacialLandmark.Image.Pixel
import FacialLandmark.Library.Raster
import FacialLandmark.Library.StoreLog

/-!
# The encoder `convertBitmapPixelToNV21`

One scan over the bitmap with four running counters: `index` walks over the pixels, `yIndex`,
`uIndex` and `vIndex` over three places of the output array. The array is only ever written, so the
model keeps the log of the stores; `StoreLog.replay?` turns the log into the array the function
returns, or into nothing when a store misses the array.

## The cursors in closed form

The subsampling test is on the parity of the row and of the running pixel counter. On an even row the
counter `row * width + column` has the parity of the column whatever the width is, so the test picks
exactly the pixels at an even row and an even column, on images of every size. `chromaCount` counts
how many of these the scan has passed, and `encodeStep_invariant` gives all four cursors from it;
what the loop stores at one cell is then `cellStores`, with no cursor left in it.
-/

namespace FacialLandmark

/-! ## The colour of one pixel -/

structure Yuv where
  Y : ℤ
  U : ℤ
  V : ℤ
  deriving DecidableEq

/-- The "well known RGB to YUV algorithm" of the encoder. -/
def rgbToYuv (R G B : ℤ) : Yuv where
  Y := ((66 * R + 129 * G + 25 * B + 128) >>> (8 : ℕ)) + 16
  U := ((-38 * R - 74 * G + 112 * B + 128) >>> (8 : ℕ)) + 128
  V := ((112 * R - 94 * G - 18 * B + 128) >>> (8 : ℕ)) + 128

/-- `(x < 0) ? 0 : ((x > 255) ? 255 : x)`. -/
def clampByte (x : ℤ) : ℤ := if x < 0 then 0 else if x > 255 then 255 else x

def pixelYuv (argb : JInt) : Yuv :=
  rgbToYuv (extractChannel 0xff0000#32 16 argb) (extractChannel 0xff00#32 8 argb)
    (extractChannel 0xff#32 0 argb)

/-- The bytes the encoder stores for a pixel, each clamped before it is cut to eight bits. -/
def lumaByte (argb : JInt) : JByte := toJByte (clampByte (pixelYuv argb).Y)

def uByte (argb : JInt) : JByte := toJByte (clampByte (pixelYuv argb).U)

def vByte (argb : JInt) : JByte := toJByte (clampByte (pixelYuv argb).V)

theorem pixelYuv_eq (argb : JInt) :
    pixelYuv argb = rgbToYuv (red argb) (green argb) (blue argb) := by
  rw [pixelYuv, extractChannel_red, extractChannel_green, extractChannel_blue]

/-- The clamps of the encoder never act: eight-bit channels give samples inside the video range. -/
theorem pixelYuv_range (argb : JInt) :
    (16 ≤ (pixelYuv argb).Y ∧ (pixelYuv argb).Y ≤ 235) ∧
      (16 ≤ (pixelYuv argb).U ∧ (pixelYuv argb).U ≤ 240) ∧
      (16 ≤ (pixelYuv argb).V ∧ (pixelYuv argb).V ≤ 240) := by
  have hR := red_le argb
  have hG := green_le argb
  have hB := blue_le argb
  rw [pixelYuv_eq]
  simp only [rgbToYuv, Int.shiftRight_eq_div_pow]
  omega

private theorem toNat_toJByte_clampByte {x : ℤ} (h0 : 16 ≤ x) (h255 : x ≤ 240) :
    ((toJByte (clampByte x)).toNat : ℤ) = x := by
  rw [clampByte, if_neg (by omega), if_neg (by omega)]
  exact toNat_toJByte (by omega) (by omega)

theorem toNat_lumaByte (argb : JInt) : ((lumaByte argb).toNat : ℤ) = (pixelYuv argb).Y :=
  have h := (pixelYuv_range argb).1
  toNat_toJByte_clampByte h.1 (by omega)

theorem toNat_uByte (argb : JInt) : ((uByte argb).toNat : ℤ) = (pixelYuv argb).U :=
  have h := (pixelYuv_range argb).2.1
  toNat_toJByte_clampByte h.1 h.2

theorem toNat_vByte (argb : JInt) : ((vByte argb).toNat : ℤ) = (pixelYuv argb).V :=
  have h := (pixelYuv_range argb).2.2
  toNat_toJByte_clampByte h.1 h.2

/-! ## The loop -/

/-- The local variables of the encoder, with the stores into `yuv420sp` made so far. -/
structure EncoderState where
  stores : List (ℕ × JByte)
  yIndex : ℕ
  uIndex : ℕ
  vIndex : ℕ
  index : ℕ

namespace Bitmap

variable (bmp : Bitmap)

def frameSize : ℕ := bmp.width * bmp.height

/-- The length of the array the encoder allocates, `(width * height * 3) / 2`. -/
def yuvLength : ℕ := bmp.width * bmp.height * 3 / 2

/-- Where the encoder starts its V samples. -/
def vStart : ℕ := bmp.frameSize + (bmp.yuvLength - bmp.frameSize) / 2

def encoderInit : EncoderState where
  stores := []
  yIndex := 0
  uIndex := bmp.frameSize
  vIndex := bmp.vStart
  index := 0

def encodeStep (s : EncoderState) (j _i : ℕ) : EncoderState :=
  let argb := bmp.pixel s.index
  let s := { s with stores := s.stores ++ [(s.yIndex, lumaByte argb)], yIndex := s.yIndex + 1 }
  let s := if j % 2 = 0 ∧ s.index % 2 = 0 then
      { s with
        stores := s.stores ++ [(s.uIndex, uByte argb), (s.vIndex, vByte argb)]
        uIndex := s.uIndex + 1
        vIndex := s.vIndex + 1 }
    else s
  { s with index := s.index + 1 }

def encoderRun : EncoderState :=
  Raster.forRaster bmp.height bmp.width bmp.encodeStep bmp.encoderInit

/-- `convertBitmapPixelToNV21`: the bytes of the returned array, or nothing when the loop stores
outside the array it has allocated. -/
def convertBitmapPixelToNV21 : Option (List JByte) :=
  StoreLog.replay? (List.replicate bmp.yuvLength 0#8) bmp.encoderRun.stores

end Bitmap

/-! ## The cursors in closed form -/

/-- The number of pixels at an even row and an even column before `(j, i)`, in scan order. -/
def chromaCount (width j i : ℕ) : ℕ :=
  (j + 1) / 2 * ((width + 1) / 2) + if j % 2 = 0 then (i + 1) / 2 else 0

/-- The number of the 2×2 block of a pixel, blocks counted row by row. A row of odd width ends in a
block of one column. -/
def blockIndex (width j i : ℕ) : ℕ := j / 2 * ((width + 1) / 2) + i / 2

@[simp] theorem chromaCount_zero (width : ℕ) : chromaCount width 0 0 = 0 := by
  simp [chromaCount]

theorem chromaCount_of_even (width : ℕ) {j i : ℕ} (hj : j % 2 = 0) (hi : i % 2 = 0) :
    chromaCount width j i = blockIndex width j i := by
  have hrow : (j + 1) / 2 = j / 2 := by omega
  have hcolumn : (i + 1) / 2 = i / 2 := by omega
  rw [chromaCount, blockIndex, if_pos hj, hrow, hcolumn]

theorem chromaCount_succ_of_even (width : ℕ) {j i : ℕ} (hj : j % 2 = 0) (hi : i % 2 = 0) :
    chromaCount width j (i + 1) = chromaCount width j i + 1 := by
  rw [chromaCount, chromaCount, if_pos hj, if_pos hj]
  omega

theorem chromaCount_succ_of_odd (width : ℕ) {j i : ℕ} (h : ¬(j % 2 = 0 ∧ i % 2 = 0)) :
    chromaCount width j (i + 1) = chromaCount width j i := by
  rw [chromaCount, chromaCount]
  split <;> omega

theorem chromaCount_width (width j : ℕ) :
    chromaCount width j width = chromaCount width (j + 1) 0 := by
  rw [chromaCount, chromaCount]
  rcases Nat.mod_two_eq_zero_or_one j with hj | hj
  · -- an even row that is finished becomes one more complete row of the grid
    have hhalf : (j + 1 + 1) / 2 = (j + 1) / 2 + 1 := by omega
    rw [if_pos hj, if_neg (by omega), hhalf]
    ring
  · have hhalf : (j + 1 + 1) / 2 = (j + 1) / 2 := by omega
    rw [if_neg (by omega), if_pos (by omega), hhalf]

/-- On an even row the running pixel counter has the parity of the column, for every width. -/
theorem subsample_test (width : ℕ) {j : ℕ} (i : ℕ) :
    (j % 2 = 0 ∧ (j * width + i) % 2 = 0) ↔ (j % 2 = 0 ∧ i % 2 = 0) := by
  refine and_congr_right fun hj ↦ ?_
  rw [Nat.add_mod, Nat.mul_mod, hj, Nat.zero_mul, Nat.zero_mod, Nat.zero_add, Nat.mod_mod]

namespace Bitmap

variable (bmp : Bitmap)

def cellStores (cell : ℕ × ℕ) : List (ℕ × JByte) :=
  let argb := bmp.pixelAt cell.1 cell.2
  (cell.1 * bmp.width + cell.2, lumaByte argb) ::
    if cell.1 % 2 = 0 ∧ cell.2 % 2 = 0 then
      [(bmp.frameSize + blockIndex bmp.width cell.1 cell.2, uByte argb),
        (bmp.vStart + blockIndex bmp.width cell.1 cell.2, vByte argb)]
    else []

theorem mem_cellStores {j i : ℕ} {store : ℕ × JByte} :
    store ∈ bmp.cellStores (j, i) ↔
      store = (j * bmp.width + i, lumaByte (bmp.pixelAt j i)) ∨ (j % 2 = 0 ∧ i % 2 = 0) ∧
        (store = (bmp.frameSize + blockIndex bmp.width j i, uByte (bmp.pixelAt j i)) ∨
          store = (bmp.vStart + blockIndex bmp.width j i, vByte (bmp.pixelAt j i))) := by
  simp only [cellStores, List.mem_cons]
  split <;> simp [*]

/-- The loop invariant: every cursor, and the log, at the head that handles `(j, i)`. -/
structure EncoderInv (j i : ℕ) (s : EncoderState) : Prop where
  index_eq : s.index = j * bmp.width + i
  yIndex_eq : s.yIndex = j * bmp.width + i
  uIndex_eq : s.uIndex = bmp.frameSize + chromaCount bmp.width j i
  vIndex_eq : s.vIndex = bmp.vStart + chromaCount bmp.width j i
  stores_eq : s.stores = (Raster.before bmp.width j i).flatMap bmp.cellStores

theorem encoderInv_init : bmp.EncoderInv 0 0 bmp.encoderInit := by
  constructor <;> simp [encoderInit]

theorem encodeStep_invariant {j i : ℕ} {s : EncoderState} (h : bmp.EncoderInv j i s) :
    bmp.EncoderInv j (i + 1) (bmp.encodeStep s j i) := by
  obtain ⟨hindex, hy, hu, hv, hstores⟩ := h
  have hpixel : bmp.pixel s.index = bmp.pixelAt j i := by rw [hindex, pixelAt]
  have hlog := Raster.flatMap_before_succ bmp.cellStores bmp.width j i
  by_cases hcell : j % 2 = 0 ∧ i % 2 = 0
  · -- a pixel of the sampling grid moves all cursors and contributes to all three planes
    have htest : j % 2 = 0 ∧ s.index % 2 = 0 := by rw [hindex, subsample_test]; exact hcell
    have hcount := chromaCount_of_even bmp.width hcell.1 hcell.2
    have hsucc := chromaCount_succ_of_even bmp.width hcell.1 hcell.2
    simp only [encodeStep, if_pos htest, hpixel]
    refine ⟨by rw [hindex]; ring, by rw [hy]; ring, by rw [hu, hsucc]; ring,
      by rw [hv, hsucc]; ring, ?_⟩
    rw [hlog, hstores, hy, hu, hv, hcount, List.append_assoc, cellStores, if_pos hcell]
    rfl
  · -- any other pixel contributes its luma only
    have htest : ¬(j % 2 = 0 ∧ s.index % 2 = 0) := by rw [hindex, subsample_test]; exact hcell
    have hsucc := chromaCount_succ_of_odd bmp.width hcell
    simp only [encodeStep, if_neg htest, hpixel]
    refine ⟨by rw [hindex]; ring, by rw [hy]; ring, by rw [hu, hsucc], by rw [hv, hsucc], ?_⟩
    rw [hlog, hstores, hy, cellStores, if_neg hcell]

theorem encoderInv_carry {j : ℕ} {s : EncoderState} (h : bmp.EncoderInv j bmp.width s) :
    bmp.EncoderInv (j + 1) 0 s := by
  obtain ⟨hindex, hy, hu, hv, hstores⟩ := h
  refine ⟨by rw [hindex]; ring, by rw [hy]; ring, ?_, ?_, ?_⟩
  · rw [hu, chromaCount_width]
  · rw [hv, chromaCount_width]
  · rw [hstores, Raster.before_width]

theorem encoderRun_invariant : bmp.EncoderInv bmp.height 0 bmp.encoderRun :=
  Raster.forRaster_induction bmp.EncoderInv bmp.encoderInv_init
    (fun _ _ _ _ _ ht ↦ bmp.encodeStep_invariant ht) fun _ _ _ ht ↦ bmp.encoderInv_carry ht

/-- **The log of the encoder**: each cell contributes its luma store, and each cell at an even row
and an even column the two chroma stores of its block. -/
theorem stores_encoderRun :
    bmp.encoderRun.stores = (Raster.before bmp.width bmp.height 0).flatMap bmp.cellStores :=
  bmp.encoderRun_invariant.stores_eq

theorem mem_stores_encoderRun {store : ℕ × JByte} :
    store ∈ bmp.encoderRun.stores ↔
      ∃ j < bmp.height, ∃ i < bmp.width, store ∈ bmp.cellStores (j, i) := by
  rw [stores_encoderRun, List.mem_flatMap]
  constructor
  · rintro ⟨⟨j, i⟩, hcell, hstore⟩
    obtain ⟨hj, hi⟩ := Raster.mem_before_height.mp hcell
    exact ⟨j, hj, i, hi, hstore⟩
  · rintro ⟨j, hj, i, hi, hstore⟩
    exact ⟨(j, i), Raster.mem_before_height.mpr ⟨hj, hi⟩, hstore⟩

theorem pixelAt_mem_pixels {j i : ℕ} (hj : j < bmp.height) (hi : i < bmp.width) :
    bmp.pixelAt j i ∈ bmp.pixels := by
  have hlt : j * bmp.width + i < bmp.pixels.length := by
    rw [bmp.length_pixels, Nat.mul_comm bmp.width]
    exact Raster.address_lt hj hi
  rw [pixelAt, pixel, List.getD_eq_getElem?_getD, List.getElem?_eq_getElem hlt, Option.getD_some]
  exact List.getElem_mem hlt

/-- The loop reads inside the pixel array: each byte it stores is the luma or a chroma sample of a
pixel of the picture. -/
theorem exists_mem_pixels_of_mem_stores {store : ℕ × JByte} (h : store ∈ bmp.encoderRun.stores) :
    ∃ argb ∈ bmp.pixels,
      store.2 = lumaByte argb ∨ store.2 = uByte argb ∨ store.2 = vByte argb := by
  obtain ⟨j, hj, i, hi, hcell⟩ := bmp.mem_stores_encoderRun.mp h
  refine ⟨bmp.pixelAt j i, bmp.pixelAt_mem_pixels hj hi, ?_⟩
  rcases bmp.mem_cellStores.mp hcell with rfl | ⟨-, rfl | rfl⟩
  · exact Or.inl rfl
  · exact Or.inr (Or.inl rfl)
  · exact Or.inr (Or.inr rfl)

end Bitmap

end FacialLandmark
