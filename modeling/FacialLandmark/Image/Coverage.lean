import FacialLandmark.Image.Layout

/-!
# The encoder loses no sample and stores none twice

`exists_encodedFrame` says what the array holds in the end. It does not say how it got there: a loop
that stored a byte twice, or a sample of the wrong pixel first and of the right one later, could end
with the same array. Here the loop itself is followed, from each loop head to the next.

At a loop head the log has as many stores as the three write cursors have moved
(`length_stores_encoderRun` at the last one). So over the whole double loop there are exactly as many
stores as bytes, and since every byte is reached, none is left for a second visit.
-/

namespace FacialLandmark

namespace Bitmap

variable (bmp : Bitmap)

/-! ## The loop heads -/

/-- The state of the double loop when it is about to handle the cell `(j, i)`. -/
def encoderHead (j i : ℕ) : EncoderState :=
  Raster.forRange i (fun s column ↦ bmp.encodeStep s j column)
    (Raster.forRaster j bmp.width bmp.encodeStep bmp.encoderInit)

theorem encoderHead_succ (j i : ℕ) :
    bmp.encoderHead j (i + 1) = bmp.encodeStep (bmp.encoderHead j i) j i := by
  rw [encoderHead, Raster.forRange_succ, ← encoderHead]

theorem encoderHead_width (j : ℕ) : bmp.encoderHead j bmp.width = bmp.encoderHead (j + 1) 0 := by
  rw [encoderHead, encoderHead, Raster.forRaster, Raster.forRaster, Raster.forRange_succ]
  rfl

theorem encoderHead_height : bmp.encoderHead bmp.height 0 = bmp.encoderRun := rfl

theorem encoderHead_invariant (j i : ℕ) : bmp.EncoderInv j i (bmp.encoderHead j i) := by
  refine Raster.head_induction (fun j i ↦ bmp.EncoderInv j i (bmp.encoderHead j i)) bmp.width
    bmp.encoderInv_init (fun j i h ↦ ?_) (fun j h ↦ ?_) j i
  · rw [encoderHead_succ]
    exact bmp.encodeStep_invariant h
  · rw [← encoderHead_width]
    exact bmp.encoderInv_carry h

theorem stores_encoderHead_succ (j i : ℕ) :
    (bmp.encoderHead j (i + 1)).stores = (bmp.encoderHead j i).stores ++ bmp.cellStores (j, i) := by
  rw [(bmp.encoderHead_invariant j (i + 1)).stores_eq, (bmp.encoderHead_invariant j i).stores_eq,
    Raster.flatMap_before_succ]

/-! ## As many stores as bytes -/

theorem length_cellStores (j i : ℕ) :
    (bmp.cellStores (j, i)).length + 2 * chromaCount bmp.width j i
      = 1 + 2 * chromaCount bmp.width j (i + 1) := by
  by_cases hcell : j % 2 = 0 ∧ i % 2 = 0
  · rw [cellStores, if_pos hcell, chromaCount_succ_of_even bmp.width hcell.1 hcell.2]
    simp only [List.length_cons, List.length_nil]
    ring
  · rw [cellStores, if_neg hcell, chromaCount_succ_of_odd bmp.width hcell]
    rfl

theorem length_stores_encoderHead (j i : ℕ) :
    (bmp.encoderHead j i).stores.length = j * bmp.width + i + 2 * chromaCount bmp.width j i := by
  refine Raster.head_induction (fun j i ↦ (bmp.encoderHead j i).stores.length
    = j * bmp.width + i + 2 * chromaCount bmp.width j i) bmp.width ?_ (fun j i h ↦ ?_)
    (fun j h ↦ ?_) j i
  · rw [chromaCount_zero]
    simp [encoderHead, Raster.forRaster, Raster.forRange, encoderInit]
  · have hcell := bmp.length_cellStores j i
    rw [stores_encoderHead_succ, List.length_append, h]
    omega
  · rw [← encoderHead_width, h, chromaCount_width]
    ring

theorem length_stores_encoderRun :
    bmp.encoderRun.stores.length = bmp.frameSize + 2 * bmp.blocks := by
  rw [← encoderHead_height, length_stores_encoderHead, frameSize, blocks, blockCount, chromaCount]
  split <;> simp [Nat.mul_comm]

variable {bmp}

theorem exists_mem_stores (hsize : EvenSize bmp.width bmp.height) {p : ℕ}
    (hp : p < bmp.yuvLength) : ∃ v, (p, v) ∈ bmp.encoderRun.stores := by
  have hvStart := vStart_eq_of_even hsize
  have hlength := yuvLength_eq_of_even hsize
  rcases lt_or_ge p bmp.frameSize with hluma | hchroma
  · rw [frameSize, Nat.mul_comm] at hluma
    obtain ⟨j, hj, i, hi, rfl⟩ := Raster.exists_address_eq hluma
    exact ⟨_, mem_stores_iff.mpr (Or.inl ⟨j, hj, i, hi, rfl⟩)⟩
  · rcases lt_or_ge p bmp.vStart with hu | hv
    · obtain ⟨k, rfl⟩ := Nat.exists_eq_add_of_le hchroma
      exact ⟨_, mem_stores_iff.mpr (Or.inr ⟨k, by omega, Or.inl rfl⟩)⟩
    · obtain ⟨k, rfl⟩ := Nat.exists_eq_add_of_le hv
      exact ⟨_, mem_stores_iff.mpr (Or.inr ⟨k, by omega, Or.inr rfl⟩)⟩

theorem writesOnce_encoderRun (hsize : EvenSize bmp.width bmp.height) :
    StoreLog.WritesOnce bmp.yuvLength bmp.encoderRun.stores := by
  refine StoreLog.writesOnce_of_reaches (fun p hp ↦ exists_mem_stores hsize hp) ?_
  rw [length_stores_encoderRun, yuvLength_eq_of_even hsize]

/-! ## What one round stores, and where -/

/-- The samples leave the lowest levels free, so no stored byte is the zero the array starts with. -/
theorem ne_zero_of_mem_stores {store : ℕ × JByte} (h : store ∈ bmp.encoderRun.stores) :
    store.2 ≠ 0#8 := by
  have hbyte : ∀ {b : JByte} {x : ℤ}, (b.toNat : ℤ) = x → 16 ≤ x → b ≠ 0#8 := by
    rintro b x hb hx rfl
    rw [BitVec.toNat_ofNat] at hb
    omega
  obtain ⟨argb, -, hsample⟩ := bmp.exists_mem_pixels_of_mem_stores h
  have hrange := pixelYuv_range argb
  rcases hsample with heq | heq | heq <;> rw [heq]
  · exact hbyte (toNat_lumaByte _) hrange.1.1
  · exact hbyte (toNat_uByte _) hrange.2.1.1
  · exact hbyte (toNat_vByte _) hrange.2.2.1

theorem exists_returned (hsize : EvenSize bmp.width bmp.height) :
    ∃ yuv, bmp.convertBitmapPixelToNV21 = some yuv ∧
      yuv.length = 3 * bmp.width * bmp.height / 2 ∧
      (∀ store ∈ bmp.encoderRun.stores, yuv[store.1]? = some store.2) ∧
      (∀ p < bmp.width * bmp.height, yuv[p]? = some (lumaByte (bmp.pixel p))) ∧
      ∀ byte ∈ yuv, byte ≠ 0#8 := by
  have honce : StoreLog.WritesOnce (List.replicate bmp.yuvLength 0#8).length
      bmp.encoderRun.stores := by
    rw [List.length_replicate]
    exact writesOnce_encoderRun hsize
  have hstored : ∀ store ∈ bmp.encoderRun.stores, (StoreLog.replay
      (List.replicate bmp.yuvLength 0#8) bmp.encoderRun.stores)[store.1]? = some store.2 :=
    fun store hstore ↦ honce.getElem?_replay hstore
  refine ⟨_, StoreLog.replay?_of_inBounds honce.inBounds, ?_, hstored, fun p hp ↦ ?_,
    fun byte hbyte ↦ ?_⟩
  · rw [StoreLog.length_replay, List.length_replicate, yuvLength, Nat.mul_comm, Nat.mul_assoc]
  · rw [Nat.mul_comm] at hp
    obtain ⟨j, hj, i, hi, rfl⟩ := Raster.exists_address_eq hp
    exact hstored _ (mem_stores_iff.mpr (Or.inl ⟨j, hj, i, hi, rfl⟩))
  · -- every byte has its store, and no store is of a zero
    obtain ⟨p, hp, rfl⟩ := List.mem_iff_getElem.mp hbyte
    rw [StoreLog.length_replay] at hp
    obtain ⟨v, hv⟩ := honce.exists_mem hp
    have hcell := hstored _ hv
    rw [List.getElem?_eq_getElem (by rw [StoreLog.length_replay]; exact hp), Option.some_inj]
      at hcell
    rw [hcell]
    exact ne_zero_of_mem_stores hv

end Bitmap

theorem chromaCount_le {width height j i : ℕ} (hj : j < height) (hi : i ≤ width) :
    chromaCount width j i ≤ blockCount width height := by
  rw [chromaCount, blockCount]
  split
  · have hrows : (j + 1) / 2 + 1 ≤ (height + 1) / 2 := by omega
    have hcolumns : (i + 1) / 2 ≤ (width + 1) / 2 := by omega
    calc (j + 1) / 2 * ((width + 1) / 2) + (i + 1) / 2
        ≤ (j + 1) / 2 * ((width + 1) / 2) + (width + 1) / 2 := by omega
      _ = ((j + 1) / 2 + 1) * ((width + 1) / 2) := by ring
      _ ≤ (height + 1) / 2 * ((width + 1) / 2) := Nat.mul_le_mul_right _ hrows
  · rw [Nat.add_zero]
    exact Nat.mul_le_mul_right _ (by omega)

namespace Bitmap

/-- The counters are exact: on a picture of any size, where the `int` product `width * height * 3` is
formed without overflow, no counter overflows at any loop head either. -/
theorem counters_lt (bmp : Bitmap) {j i : ℕ} (hproduct : bmp.width * bmp.height * 3 < 2 ^ 31)
    (hj : j < bmp.height) (hi : i ≤ bmp.width) :
    (bmp.encoderHead j i).index < 2 ^ 31 ∧ (bmp.encoderHead j i).yIndex < 2 ^ 31 ∧
      (bmp.encoderHead j i).uIndex < 2 ^ 31 ∧ (bmp.encoderHead j i).vIndex < 2 ^ 31 := by
  have hinv := bmp.encoderHead_invariant j i
  have haddress : j * bmp.width + i ≤ bmp.width * bmp.height := by
    calc j * bmp.width + i ≤ j * bmp.width + bmp.width := by omega
      _ = bmp.width * (j + 1) := by ring
      _ ≤ bmp.width * bmp.height := Nat.mul_le_mul_left _ hj
  have hcount : chromaCount bmp.width j i ≤ bmp.width * bmp.height := by
    calc chromaCount bmp.width j i ≤ blockCount bmp.width bmp.height := chromaCount_le hj hi
      _ ≤ bmp.height * bmp.width := Nat.mul_le_mul (by omega) (by omega)
      _ = bmp.width * bmp.height := Nat.mul_comm _ _
  rw [hinv.index_eq, hinv.yIndex_eq, hinv.uIndex_eq, hinv.vIndex_eq, vStart_eq, frameSize]
  refine ⟨?_, ?_, ?_, ?_⟩ <;> omega

/-- The encoder neither loses nor duplicates a sample. -/
structure CoversOnce (bmp : Bitmap) : Prop where
  /-- Over the whole double loop every index of the array is stored exactly once, and no other. -/
  writesOnce : StoreLog.WritesOnce bmp.yuvLength bmp.encoderRun.stores
  /-- The round of a pixel at an even row and an even column stores its luma at the place of the
  pixel, one U sample of it in the U area and one V sample of it in the V area. -/
  sampled : ∀ j < bmp.height, ∀ i < bmp.width, j % 2 = 0 → i % 2 = 0 → ∃ p q,
    (bmp.encodeStep (bmp.encoderHead j i) j i).stores = (bmp.encoderHead j i).stores
        ++ [(j * bmp.width + i, lumaByte (bmp.pixelAt j i)), (p, uByte (bmp.pixelAt j i)),
          (q, vByte (bmp.pixelAt j i))] ∧
      (bmp.frameSize ≤ p ∧ p < bmp.vStart) ∧ (bmp.vStart ≤ q ∧ q < bmp.yuvLength)
  /-- The round of any other pixel stores its luma and nothing else. -/
  unsampled : ∀ j < bmp.height, ∀ i < bmp.width, ¬(j % 2 = 0 ∧ i % 2 = 0) →
    (bmp.encodeStep (bmp.encoderHead j i) j i).stores = (bmp.encoderHead j i).stores
      ++ [(j * bmp.width + i, lumaByte (bmp.pixelAt j i))]
  /-- At every loop head the U cursor is in the U area, or at its end. -/
  uIndex_le : ∀ j < bmp.height, ∀ i ≤ bmp.width,
    bmp.frameSize ≤ (bmp.encoderHead j i).uIndex ∧ (bmp.encoderHead j i).uIndex ≤ bmp.vStart
  /-- The array is returned, every byte of it is the one that was stored there, a luma byte is that
  of its pixel, and no byte is the zero it was before the loop. -/
  returned : ∃ yuv, bmp.convertBitmapPixelToNV21 = some yuv ∧
    yuv.length = 3 * bmp.width * bmp.height / 2 ∧
    (∀ store ∈ bmp.encoderRun.stores, yuv[store.1]? = some store.2) ∧
    (∀ p < bmp.width * bmp.height, yuv[p]? = some (lumaByte (bmp.pixel p))) ∧
    ∀ byte ∈ yuv, byte ≠ 0#8

variable {bmp : Bitmap}

/-- **The encoder covers its array** exactly once, on every even size. -/
theorem coversOnce (hsize : EvenSize bmp.width bmp.height) : bmp.CoversOnce := by
  have hvStart := vStart_eq_of_even hsize
  have hlength := yuvLength_eq_of_even hsize
  have hround : ∀ j i, (bmp.encodeStep (bmp.encoderHead j i) j i).stores
      = (bmp.encoderHead j i).stores ++ bmp.cellStores (j, i) := by
    intro j i
    rw [← encoderHead_succ, stores_encoderHead_succ]
  refine ⟨writesOnce_encoderRun hsize, fun j hj i hi hjeven hieven ↦ ?_,
    fun j _ i _ hodd ↦ ?_, fun j hj i hi ↦ ?_, exists_returned hsize⟩
  · have hblock : blockIndex bmp.width j i < bmp.blocks := blockIndex_lt hj hi
    refine ⟨bmp.frameSize + blockIndex bmp.width j i, bmp.vStart + blockIndex bmp.width j i,
      ?_, ⟨Nat.le_add_right _ _, ?_⟩, ⟨Nat.le_add_right _ _, ?_⟩⟩
    · rw [hround, cellStores, if_pos ⟨hjeven, hieven⟩]
    · omega
    · omega
  · rw [hround, cellStores, if_neg hodd]
  · have hcount : chromaCount bmp.width j i ≤ bmp.blocks := chromaCount_le hj hi
    rw [(bmp.encoderHead_invariant j i).uIndex_eq]
    omega

theorem coversOnce_two_two : (solidBitmap 2 2 0xff808080#32).CoversOnce :=
  coversOnce evenSize_two_two

end Bitmap

end FacialLandmark
