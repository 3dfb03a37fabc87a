import FacialLandmark.Image.Encoder
import FacialLandmark.Image.Decoder

/-!
# Which sizes keep the two loops inside their arrays

The frame array has `(width * height * 3) / 2` bytes. The encoder fills `width * height` of them with
luma and stores one U and one V sample for each 2×2 block, blocks at the right and lower edge
included, so it needs `2 * ⌈width / 2⌉ * ⌈height / 2⌉` chroma bytes where only
`⌊width * height / 2⌋` are there. The decoder reads a pair for each of the same blocks, with the
unrounded width as its stride. Both questions come down to the last block: if its stores, or its
reads, hit the array then all do.

The two answers differ. The decoder needs both dimensions to be even. The encoder also gets away with
one odd dimension when the other is two, because rounding `⌊width * height / 2⌋ / 2` down then moves
its V plane by exactly the sample that is missing.
-/

namespace FacialLandmark

/-- `⌈width / 2⌉ * ⌈height / 2⌉`, the number of 2×2 blocks, cut ones included. -/
def blockCount (width height : ℕ) : ℕ := (height + 1) / 2 * ((width + 1) / 2)

theorem blockIndex_lt {width height j i : ℕ} (hj : j < height) (hi : i < width) :
    blockIndex width j i < blockCount width height := by
  have hrow : j / 2 < (height + 1) / 2 := by omega
  have hcolumn : i / 2 < (width + 1) / 2 := by omega
  exact Raster.address_lt hrow hcolumn

private theorem half_even (a : ℕ) : (2 * a + 1) / 2 = a := by omega

private theorem half_odd (a : ℕ) : (2 * a + 1 + 1) / 2 = a + 1 := by omega

theorem uvIndex_eq_of_even {w : ℕ} (hw : w % 2 = 0) (h row column : ℕ) :
    uvIndex w h row column = w * h + 2 * blockIndex w row column := by
  have hhalf : w = 2 * ((w + 1) / 2) := by omega
  rw [uvIndex_eq, blockIndex, Nat.mul_add]
  nth_rewrite 2 [hhalf]
  ring

theorem four_mul_blockCount {w h : ℕ} (hsize : EvenSize w h) : 4 * blockCount w h = w * h := by
  obtain ⟨a, rfl⟩ : ∃ a, w = 2 * a := ⟨w / 2, by have := hsize.even_width; omega⟩
  obtain ⟨b, rfl⟩ : ∃ b, h = 2 * b := ⟨h / 2, by have := hsize.even_height; omega⟩
  rw [blockCount, half_even, half_even]
  ring

theorem exists_blockIndex_eq {w h k : ℕ} (hk : k < blockCount w h) :
    ∃ j < h, ∃ i < w, j % 2 = 0 ∧ i % 2 = 0 ∧ blockIndex w j i = k := by
  obtain ⟨row, hrow, column, hcolumn, rfl⟩ := Raster.exists_address_eq hk
  refine ⟨2 * row, by omega, 2 * column, by omega, by omega, by omega, ?_⟩
  rw [blockIndex, Nat.mul_div_cancel_left _ two_pos, Nat.mul_div_cancel_left _ two_pos]

/-! ## The encoder -/

namespace Bitmap

variable {bmp : Bitmap}

theorem yuvLength_eq (bmp : Bitmap) : bmp.yuvLength = bmp.frameSize + bmp.frameSize / 2 := by
  rw [yuvLength, frameSize]
  omega

theorem vStart_eq (bmp : Bitmap) : bmp.vStart = bmp.frameSize + bmp.frameSize / 2 / 2 := by
  rw [vStart, yuvLength_eq, Nat.add_sub_cancel_left]

/-- The stores of the encoder hit its array exactly when the V samples of all blocks fit behind
`vStart`: the V plane is the last one, and the U plane starts no later. -/
theorem inBounds_encoderRun_iff (hw : 1 ≤ bmp.width) (hh : 1 ≤ bmp.height) :
    StoreLog.InBounds bmp.yuvLength bmp.encoderRun.stores
      ↔ bmp.vStart + blockCount bmp.width bmp.height ≤ bmp.yuvLength := by
  have hlength := bmp.yuvLength_eq
  have hvStart := bmp.vStart_eq
  constructor
  · intro h
    -- the V store of the last block is the furthest of all
    have hpos : 0 < blockCount bmp.width bmp.height := Nat.mul_pos (by omega) (by omega)
    obtain ⟨j, hj, i, hi, hjeven, hieven, hlast⟩ :=
      exists_blockIndex_eq (Nat.sub_one_lt_of_lt hpos)
    have hstore : (bmp.vStart + blockIndex bmp.width j i, vByte (bmp.pixelAt j i))
        ∈ bmp.encoderRun.stores := by
      refine bmp.mem_stores_encoderRun.mpr ⟨j, hj, i, hi, ?_⟩
      exact bmp.mem_cellStores.mpr (Or.inr ⟨⟨hjeven, hieven⟩, Or.inr rfl⟩)
    have hlt : bmp.vStart + blockIndex bmp.width j i < bmp.yuvLength := h _ hstore
    omega
  · intro hfit store hstore
    obtain ⟨j, hj, i, hi, hstore⟩ := bmp.mem_stores_encoderRun.mp hstore
    have hluma : j * bmp.width + i < bmp.frameSize := Raster.address_lt_area hj hi
    have hblock := blockIndex_lt hj hi
    rcases bmp.mem_cellStores.mp hstore with rfl | ⟨-, rfl | rfl⟩
    · exact Nat.lt_of_lt_of_le hluma (by omega)
    · change bmp.frameSize + blockIndex bmp.width j i < bmp.yuvLength
      omega
    · change bmp.vStart + blockIndex bmp.width j i < bmp.yuvLength
      omega

end Bitmap

/-- The size arithmetic of the encoder, by the parities of the two dimensions. The products of the
halves are the only nonlinear terms, and each case has just one of them. -/
theorem blocks_fit_iff {w h : ℕ} (hw : 1 ≤ w) (hh : 1 ≤ h) :
    w * h / 2 / 2 + blockCount w h ≤ w * h / 2 ↔ (w % 2 = 0 ∧ h % 2 = 0) ∨ w = 2 ∨ h = 2 := by
  rw [blockCount]
  obtain ⟨a, rfl | rfl⟩ := Nat.even_or_odd' w <;> obtain ⟨b, rfl | rfl⟩ := Nat.even_or_odd' h
  · have hsize : 2 * a * (2 * b) = 4 * (a * b) := by ring
    rw [half_even, half_even, hsize, Nat.mul_comm b]
    omega
  · have hsize : 2 * a * (2 * b + 1) = 4 * (a * b) + 2 * a := by ring
    have hblocks : (b + 1) * a = a * b + a := by ring
    rw [half_even, half_odd, hsize, hblocks]
    omega
  · have hsize : (2 * a + 1) * (2 * b) = 4 * (a * b) + 2 * b := by ring
    have hblocks : b * (a + 1) = a * b + b := by ring
    rw [half_even, half_odd, hsize, hblocks]
    omega
  · have hsize : (2 * a + 1) * (2 * b + 1) = 4 * (a * b) + 2 * a + 2 * b + 1 := by ring
    have hblocks : (b + 1) * (a + 1) = a * b + a + b + 1 := by ring
    rw [half_odd, half_odd, hsize, hblocks]
    omega

/-- **The encoder stays inside its array** exactly on the sizes where both dimensions are even or one
of them is two. -/
theorem Bitmap.stores_lt_yuvLength_iff (bmp : Bitmap) (hw : 1 ≤ bmp.width) (hh : 1 ≤ bmp.height) :
    (∀ store ∈ bmp.encoderRun.stores, store.1 < bmp.yuvLength)
      ↔ (bmp.width % 2 = 0 ∧ bmp.height % 2 = 0) ∨ bmp.width = 2 ∨ bmp.height = 2 := by
  have hlength := bmp.yuvLength_eq
  have hvStart := bmp.vStart_eq
  rw [← blocks_fit_iff hw hh, ← frameSize]
  refine (Bitmap.inBounds_encoderRun_iff hw hh).trans ?_
  omega

theorem stores_lt_yuvLength_two_three :
    (∀ store ∈ (solidBitmap 2 3 0#32).encoderRun.stores,
        store.1 < (solidBitmap 2 3 0#32).yuvLength)
      ↔ ((solidBitmap 2 3 0#32).width % 2 = 0 ∧ (solidBitmap 2 3 0#32).height % 2 = 0)
        ∨ (solidBitmap 2 3 0#32).width = 2 ∨ (solidBitmap 2 3 0#32).height = 2 :=
  (solidBitmap 2 3 0#32).stores_lt_yuvLength_iff (by decide) (by decide)

/-- On one pixel the array has one byte, and the chroma stores go to indices one and two. -/
theorem not_forall_stores_lt_yuvLength :
    ¬∀ bmp : Bitmap, 1 ≤ bmp.width → 1 ≤ bmp.height →
      ∀ store ∈ bmp.encoderRun.stores, store.1 < bmp.yuvLength := by
  intro h
  have hone := h (solidBitmap 1 1 0#32) (by decide) (by decide)
  revert hone
  decide

/-! ## The decoder -/

theorem readsInBounds_iff {yuv : List JByte} {w h : ℕ} (hw : 1 ≤ w) (hh : 1 ≤ h)
    (hluma : w * h ≤ yuv.length) :
    ReadsInBounds yuv w h ↔ w * h + ((h - 1) / 2 * w + 2 * ((w - 1) / 2) + 1) < yuv.length := by
  constructor
  · intro hreads
    have hlast := hreads (h - 1) (by omega) (w - 1) (by omega) (uvIndex w h (h - 1) (w - 1) + 1)
      (by simp [decodeReads])
    rw [uvIndex_eq] at hlast
    omega
  · intro hlast row hrow column hcolumn i hi
    have hfurther : row / 2 * w ≤ (h - 1) / 2 * w := Nat.mul_le_mul_right w (by omega)
    have hcell : row * w + column < w * h := Raster.address_lt_area hrow hcolumn
    have hhalf : column / 2 ≤ (w - 1) / 2 := by omega
    simp only [decodeReads, uvIndex_eq, List.mem_cons, List.not_mem_nil, or_false] at hi
    rcases hi with rfl | rfl | rfl <;> omega

theorem last_read_lt_iff {w h : ℕ} (hw : 1 ≤ w) (hh : 1 ≤ h) :
    (h - 1) / 2 * w + 2 * ((w - 1) / 2) + 1 < w * h / 2 ↔ w % 2 = 0 ∧ h % 2 = 0 := by
  obtain ⟨a, rfl | rfl⟩ := Nat.even_or_odd' w <;> obtain ⟨b, rfl | rfl⟩ := Nat.even_or_odd' h
  · obtain ⟨c, rfl⟩ : ∃ c, b = c + 1 := ⟨b - 1, by omega⟩
    have hrow : (2 * (c + 1) - 1) / 2 = c := by omega
    have hsize : 2 * a * (2 * (c + 1)) = 4 * (a * c) + 4 * a := by ring
    have hrows : c * (2 * a) = 2 * (a * c) := by ring
    rw [hrow, hsize, hrows]
    omega
  · have hrow : (2 * b + 1 - 1) / 2 = b := by omega
    have hsize : 2 * a * (2 * b + 1) = 4 * (a * b) + 2 * a := by ring
    have hrows : b * (2 * a) = 2 * (a * b) := by ring
    rw [hrow, hsize, hrows]
    omega
  · obtain ⟨c, rfl⟩ : ∃ c, b = c + 1 := ⟨b - 1, by omega⟩
    have hrow : (2 * (c + 1) - 1) / 2 = c := by omega
    have hsize : (2 * a + 1) * (2 * (c + 1)) = 4 * (a * c) + 4 * a + 2 * c + 2 := by ring
    have hrows : c * (2 * a + 1) = 2 * (a * c) + c := by ring
    rw [hrow, hsize, hrows]
    omega
  · have hrow : (2 * b + 1 - 1) / 2 = b := by omega
    have hsize : (2 * a + 1) * (2 * b + 1) = 4 * (a * b) + 2 * a + 2 * b + 1 := by ring
    have hrows : b * (2 * a + 1) = 2 * (a * b) + b := by ring
    rw [hrow, hsize, hrows]
    omega

theorem readsInBounds_of_even {yuv : List JByte} {w h : ℕ} (hsize : EvenSize w h)
    (hlength : yuv.length = w * h * 3 / 2) : ReadsInBounds yuv w h := by
  have hw := hsize.two_le_width
  have hh := hsize.two_le_height
  have hlast := (last_read_lt_iff (by omega) (by omega)).mpr
    ⟨hsize.even_width, hsize.even_height⟩
  exact (readsInBounds_iff (by omega) (by omega) (by omega)).mpr (by omega)

/-- **The decoder stays inside an array of the encoder's length** exactly when both dimensions are
even. -/
theorem readsInBounds_iff_even (yuv : List JByte) {w h : ℕ} (hw : 1 ≤ w) (hh : 1 ≤ h)
    (hlength : yuv.length = w * h * 3 / 2) :
    ReadsInBounds yuv w h ↔ w % 2 = 0 ∧ h % 2 = 0 := by
  rw [readsInBounds_iff hw hh (by omega), ← last_read_lt_iff hw hh]
  omega

theorem readsInBounds_two_two :
    ReadsInBounds (List.replicate 6 0#8) 2 2 ↔ 2 % 2 = 0 ∧ 2 % 2 = 0 :=
  readsInBounds_iff_even (List.replicate 6 0#8) (by decide) (by decide) (by decide)

/-- On two pixels in one row the array has three bytes, and the last U is read at index three. -/
theorem not_forall_readsInBounds :
    ¬∀ (w h : ℕ) (yuv : List JByte), 1 ≤ w → 1 ≤ h → yuv.length = w * h * 3 / 2 →
      ReadsInBounds yuv w h := by
  intro hall
  have hrow := hall 2 1 [0#8, 0#8, 0#8] (by decide) (by decide) (by decide)
  have hread := hrow 0 (by decide) 0 (by decide) 3 (by decide)
  exact absurd hread (by decide)

end FacialLandmark
