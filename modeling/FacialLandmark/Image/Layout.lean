import FacialLandmark.Image.Bounds
import FacialLandmark.Library.Riffle

/-!
# The frame the encoder writes, and the NV21 layout

On even sizes the log of the encoder has one store for each byte of its array, so the array can be
read off from the log: the luma plane row by row, then the U samples of all blocks, then their V
samples (`exists_encodedFrame`). The decoder, the function names and the comment in the loop all
speak of NV21, where the chroma bytes come as one `V, U` pair for each block.

The two layouts agree on some pictures. Which ones is a question about the samples alone, and
`Riffle` answers it: the U samples followed by the V samples have to be constant along the cycles of
doubling modulo `2 * n + 1`, for `n` blocks.
-/

namespace FacialLandmark

namespace Bitmap

variable (bmp : Bitmap)

def blocks : ℕ := blockCount bmp.width bmp.height

def blockPixel (k : ℕ) : JInt :=
  bmp.pixelAt (2 * (k / ((bmp.width + 1) / 2))) (2 * (k % ((bmp.width + 1) / 2)))

def uSample (k : ℕ) : JByte := uByte (bmp.blockPixel k)

def vSample (k : ℕ) : JByte := vByte (bmp.blockPixel k)

/-- The chroma samples of the picture in the order in which the encoder lays them out: the U samples
of all blocks, then their V samples. -/
def chromaSample (p : ℕ) : JByte := Riffle.planar bmp.blocks bmp.uSample bmp.vSample p

variable {bmp}

theorem blockPixel_blockIndex {row column : ℕ} (hcolumn : column < bmp.width) :
    bmp.blockPixel (blockIndex bmp.width row column)
      = bmp.pixelAt (2 * (row / 2)) (2 * (column / 2)) := by
  have hhalf : column / 2 < (bmp.width + 1) / 2 := by omega
  rw [blockPixel, blockIndex, Raster.address_div _ hhalf, Raster.address_mod _ hhalf]

/-- The log of the encoder without the loop: a luma store for each cell, and a U and a V store for
each block, on a bitmap of any size. -/
theorem mem_stores_iff {store : ℕ × JByte} :
    store ∈ bmp.encoderRun.stores ↔
      (∃ j < bmp.height, ∃ i < bmp.width,
        store = (j * bmp.width + i, lumaByte (bmp.pixelAt j i))) ∨
      ∃ k < bmp.blocks,
        store = (bmp.frameSize + k, bmp.uSample k) ∨ store = (bmp.vStart + k, bmp.vSample k) := by
  have hpixel : ∀ {j i : ℕ}, i < bmp.width → j % 2 = 0 → i % 2 = 0 →
      bmp.pixelAt j i = bmp.blockPixel (blockIndex bmp.width j i) := by
    intro j i hi hjeven hieven
    have hj : 2 * (j / 2) = j := by omega
    have hi' : 2 * (i / 2) = i := by omega
    rw [blockPixel_blockIndex hi, hj, hi']
  rw [mem_stores_encoderRun]
  constructor
  · rintro ⟨j, hj, i, hi, hstore⟩
    rcases bmp.mem_cellStores.mp hstore with hluma | ⟨⟨hjeven, hieven⟩, hchroma⟩
    · exact Or.inl ⟨j, hj, i, hi, hluma⟩
    · rw [hpixel hi hjeven hieven] at hchroma
      exact Or.inr ⟨blockIndex bmp.width j i, blockIndex_lt hj hi, hchroma⟩
  · rintro (⟨j, hj, i, hi, hluma⟩ | ⟨k, hk, hchroma⟩)
    · exact ⟨j, hj, i, hi, bmp.mem_cellStores.mpr (Or.inl hluma)⟩
    · obtain ⟨j, hj, i, hi, hjeven, hieven, rfl⟩ := exists_blockIndex_eq hk
      rw [uSample, vSample, ← hpixel hi hjeven hieven] at hchroma
      exact ⟨j, hj, i, hi, bmp.mem_cellStores.mpr (Or.inr ⟨⟨hjeven, hieven⟩, hchroma⟩)⟩

/-! ## The array on even sizes -/

/-- What the encoder's array holds: the luma plane, then the chroma samples. -/
structure EncodedFrame (bmp : Bitmap) (yuv : List JByte) : Prop where
  length_eq : yuv.length = bmp.yuvLength
  luma : ∀ j < bmp.height, ∀ i < bmp.width,
    yuv[j * bmp.width + i]? = some (lumaByte (bmp.pixelAt j i))
  chroma : ∀ p < 2 * bmp.blocks, yuv[bmp.frameSize + p]? = some (bmp.chromaSample p)

theorem frameSize_eq_of_even (hsize : EvenSize bmp.width bmp.height) :
    bmp.frameSize = 4 * bmp.blocks :=
  (four_mul_blockCount hsize).symm

theorem vStart_eq_of_even (hsize : EvenSize bmp.width bmp.height) :
    bmp.vStart = bmp.frameSize + bmp.blocks := by
  rw [vStart_eq, frameSize_eq_of_even hsize]
  omega

theorem yuvLength_eq_of_even (hsize : EvenSize bmp.width bmp.height) :
    bmp.yuvLength = bmp.frameSize + 2 * bmp.blocks := by
  rw [yuvLength_eq, frameSize_eq_of_even hsize]
  omega

def encodedByte (bmp : Bitmap) (p : ℕ) : JByte :=
  if p < bmp.frameSize then lumaByte (bmp.pixel p) else bmp.chromaSample (p - bmp.frameSize)

theorem encodedByte_add (bmp : Bitmap) (p : ℕ) :
    bmp.encodedByte (bmp.frameSize + p) = bmp.chromaSample p := by
  rw [encodedByte, if_neg (by omega), Nat.add_sub_cancel_left]

/-- On even sizes every store is of the byte that belongs there, so no two stores disagree. -/
theorem value_of_mem_stores (hsize : EvenSize bmp.width bmp.height) {p : ℕ} {v : JByte}
    (h : (p, v) ∈ bmp.encoderRun.stores) : v = bmp.encodedByte p := by
  simp only [mem_stores_iff, Prod.mk.injEq] at h
  rcases h with ⟨j, hj, i, hi, rfl, rfl⟩ | ⟨k, hk, ⟨rfl, rfl⟩ | ⟨rfl, rfl⟩⟩
  · have hluma : j * bmp.width + i < bmp.frameSize := Raster.address_lt_area hj hi
    rw [encodedByte, if_pos hluma, pixelAt]
  · rw [encodedByte_add, chromaSample, Riffle.planar_of_lt hk]
  · -- only here does the size matter: behind the U samples of all blocks come the V samples
    rw [vStart_eq_of_even hsize, Nat.add_assoc, encodedByte_add, chromaSample, Riffle.planar_add]

theorem getElem?_replay_of_mem (hsize : EvenSize bmp.width bmp.height) {cells : List JByte} {p : ℕ}
    {v : JByte} (hin : StoreLog.InBounds cells.length bmp.encoderRun.stores)
    (h : (p, v) ∈ bmp.encoderRun.stores) :
    (StoreLog.replay cells bmp.encoderRun.stores)[p]? = some v :=
  StoreLog.getElem?_replay_of_agree (hin _ h) h fun _ h' ↦
    (value_of_mem_stores hsize h').trans (value_of_mem_stores hsize h).symm

/-- **The frame.** On even sizes the encoder returns its array, and the array holds the luma plane,
the U samples and the V samples. -/
theorem exists_encodedFrame (hsize : EvenSize bmp.width bmp.height) :
    ∃ yuv, bmp.convertBitmapPixelToNV21 = some yuv ∧ bmp.EncodedFrame yuv := by
  have hw := hsize.two_le_width
  have hh := hsize.two_le_height
  have hframe := frameSize_eq_of_even hsize
  have hvStart := vStart_eq_of_even hsize
  have hlength := yuvLength_eq_of_even hsize
  have hin : StoreLog.InBounds (List.replicate bmp.yuvLength 0#8).length bmp.encoderRun.stores := by
    rw [List.length_replicate, inBounds_encoderRun_iff (by omega) (by omega), ← blocks]
    omega
  refine ⟨_, StoreLog.replay?_of_inBounds hin, ?_, fun j hj i hi ↦ ?_, fun p hp ↦ ?_⟩
  · rw [StoreLog.length_replay, List.length_replicate]
  · exact getElem?_replay_of_mem hsize hin (mem_stores_iff.mpr (Or.inl ⟨j, hj, i, hi, rfl⟩))
  · refine getElem?_replay_of_mem hsize hin ?_
    by_cases hlt : p < bmp.blocks
    · rw [chromaSample, Riffle.planar_of_lt hlt]
      exact mem_stores_iff.mpr (Or.inr ⟨p, hlt, Or.inl rfl⟩)
    · obtain ⟨k, rfl⟩ := Nat.exists_eq_add_of_le (not_lt.mp hlt)
      rw [chromaSample, Riffle.planar_add, ← Nat.add_assoc, ← hvStart]
      exact mem_stores_iff.mpr (Or.inr ⟨k, by omega, Or.inr rfl⟩)

/-! ## The NV21 layout -/

/-- The encoder's array is in NV21 layout: at the address the decoder takes for the V of a pixel
stands the V sample of the top left pixel of its block, and the U sample of that pixel follows. -/
def Nv21Layout (bmp : Bitmap) : Prop :=
  ∃ yuv, bmp.convertBitmapPixelToNV21 = some yuv ∧ ∀ row < bmp.height, ∀ column < bmp.width,
    yuv[bmp.width * bmp.height + row / 2 * bmp.width + 2 * (column / 2)]?
        = some (vByte (bmp.pixelAt (2 * (row / 2)) (2 * (column / 2)))) ∧
      yuv[bmp.width * bmp.height + row / 2 * bmp.width + 2 * (column / 2) + 1]?
        = some (uByte (bmp.pixelAt (2 * (row / 2)) (2 * (column / 2))))

/-- The chroma samples of the picture, in the encoder's order and counted from one, are constant
along every cycle of doubling modulo `2 * n + 1`, where `n` is the number of blocks. -/
def ChromaConstantOnCycles (bmp : Bitmap) : Prop :=
  ∀ p < 2 * bmp.blocks, ∀ m,
    bmp.chromaSample ((2 ^ m * (p + 1) - 1) % (2 * bmp.blocks + 1)) = bmp.chromaSample p

theorem nv21Layout_iff_interleaved (hsize : EvenSize bmp.width bmp.height) :
    bmp.Nv21Layout
      ↔ ∀ p < 2 * bmp.blocks,
        bmp.chromaSample p = Riffle.interleaved bmp.vSample bmp.uSample p := by
  obtain ⟨yuv, hyuv, hframe⟩ := exists_encodedFrame hsize
  have haddress : ∀ row column, bmp.width * bmp.height + row / 2 * bmp.width + 2 * (column / 2)
      = bmp.frameSize + 2 * blockIndex bmp.width row column := by
    intro row column
    rw [frameSize, ← uvIndex_eq_of_even hsize.even_width, uvIndex_eq]
  constructor
  · rintro ⟨yuv', hyuv', hlayout⟩ p hp
    obtain rfl : yuv = yuv' := Option.some_inj.mp (hyuv.symm.trans hyuv')
    -- the sample is one of the pair of the block `p / 2`, which any pixel of the block shows
    have hk : p / 2 < bmp.blocks := by omega
    obtain ⟨row, hrow, column, hcolumn, -, -, hblock⟩ := exists_blockIndex_eq hk
    have hpair := hlayout row hrow column hcolumn
    rw [haddress, ← blockPixel_blockIndex hcolumn, hblock] at hpair
    rcases Nat.even_or_odd' p with ⟨k, rfl | rfl⟩
    · have hhalf : 2 * k / 2 = k := by omega
      rw [hhalf, hframe.chroma _ hp, Option.some_inj] at hpair
      rw [Riffle.interleaved_even, hpair.1, vSample]
    · have hhalf : (2 * k + 1) / 2 = k := by omega
      rw [hhalf, Nat.add_assoc, hframe.chroma _ hp, Option.some_inj] at hpair
      rw [Riffle.interleaved_odd, hpair.2, uSample]
  · intro hsamples
    refine ⟨yuv, hyuv, fun row hrow column hcolumn ↦ ?_⟩
    have hblock : blockIndex bmp.width row column < bmp.blocks := blockIndex_lt hrow hcolumn
    rw [haddress, ← blockPixel_blockIndex hcolumn, Nat.add_assoc, hframe.chroma _ (by omega),
      hframe.chroma _ (by omega), hsamples _ (by omega), hsamples _ (by omega),
      Riffle.interleaved_even, Riffle.interleaved_odd]
    exact ⟨rfl, rfl⟩

/-- **The layouts agree** on a picture exactly when its chroma samples are constant along the cycles
of doubling. -/
theorem nv21Layout_iff (hsize : EvenSize bmp.width bmp.height) :
    bmp.Nv21Layout ↔ bmp.ChromaConstantOnCycles :=
  (nv21Layout_iff_interleaved hsize).trans Riffle.planar_eq_interleaved_iff

/-- The U samples of the stripes are 144, 144, 160 and the V samples 144, 160, 160. -/
theorem chromaConstantOnCycles_stripedBitmap : stripedBitmap.ChromaConstantOnCycles :=
  (nv21Layout_iff evenSize_stripedBitmap).mp
    ((nv21Layout_iff_interleaved evenSize_stripedBitmap).mpr (by decide))

/-- On a red picture of one block the U byte stands where the V byte is read. -/
theorem not_forall_nv21Layout :
    ¬∀ bmp : Bitmap, EvenSize bmp.width bmp.height → bmp.Nv21Layout := by
  intro hall
  obtain ⟨yuv, hyuv, hlayout⟩ := hall (solidBitmap 2 2 0xffff0000#32) evenSize_two_two
  have hyuv' : (solidBitmap 2 2 0xffff0000#32).convertBitmapPixelToNV21
      = some [82#8, 82#8, 82#8, 82#8, 90#8, 240#8] := by decide
  obtain rfl := Option.some_inj.mp (hyuv.symm.trans hyuv')
  exact absurd (hlayout 0 (by decide) 0 (by decide)).1 (by decide)

end Bitmap

end FacialLandmark
