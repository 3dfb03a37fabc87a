import Mathlib.Data.Int.Basic
import Mathlib.Tactic.Ring

/-!
# Machine integers, ARGB pixels and bitmaps

The types both native conversion loops work on. A `jint` and a `jbyte` are their bits: the encoder
reads the channels of a pixel out of a `jint` with masks and shifts, and the decoder reads each byte
of the frame as a *signed* number. Everything between a read and a store is C `int` arithmetic on
values far below `2^31`, and is written on `ℤ`; the two places where a value is cut to eight bits,
the store into a `jbyte` and the mask `0xff & x`, are definitions of their own.

The channels the encoder extracts are tied once to `red`, `green` and `blue`, the channels of the
pixel as a number, and nothing later looks at masks again.
-/

namespace FacialLandmark

/-- A `jint`: 32 bits, read as a two's complement number. -/
abbrev JInt := BitVec 32

/-- A `jbyte`: eight bits, read as a two's complement number. -/
abbrev JByte := BitVec 8

/-- Storing an `int` in a `jbyte` keeps its low eight bits. -/
def toJByte (x : ℤ) : JByte := BitVec.ofInt 8 x

/-- `0xff & x` on an `int`. -/
def maskFF (x : ℤ) : ℤ := (BitVec.ofInt 32 x &&& 0xff#32).toInt

theorem maskFF_eq_emod (x : ℤ) : maskFF x = x % 256 := by
  have hnat : (BitVec.ofInt 32 x &&& 0xff#32).toNat = (x % 2 ^ 32).toNat % 256 := by
    rw [BitVec.toNat_and, BitVec.toNat_ofInt]
    exact Nat.and_two_pow_sub_one_eq_mod _ 8
  rw [maskFF, BitVec.toInt_eq_toNat_of_lt (by omega), hnat]
  omega

theorem toInt_emod (b : JByte) : b.toInt % 256 = b.toNat := by
  have hlt : b.toNat < 2 ^ 8 := b.isLt
  rw [BitVec.toInt_eq_toNat_bmod, Int.bmod_def]
  split <;> omega

theorem toNat_toJByte {x : ℤ} (h0 : 0 ≤ x) (h255 : x ≤ 255) : ((toJByte x).toNat : ℤ) = x := by
  rw [toJByte, BitVec.toNat_ofInt]
  omega

/-! ## ARGB pixels -/

/-- The channels of a pixel as numbers: `(pixel >> 16) & 0xff` and so on. -/
def red (pixel : JInt) : ℕ := pixel.toNat / 65536 % 256

def green (pixel : JInt) : ℕ := pixel.toNat / 256 % 256

def blue (pixel : JInt) : ℕ := pixel.toNat % 256

theorem red_le (pixel : JInt) : red pixel ≤ 255 := by rw [red]; omega

theorem green_le (pixel : JInt) : green pixel ≤ 255 := by rw [green]; omega

theorem blue_le (pixel : JInt) : blue pixel ≤ 255 := by rw [blue]; omega

/-- Two pixels of one colour; the alpha channels may differ. -/
def SameRgb (p q : JInt) : Prop := red p = red q ∧ green p = green q ∧ blue p = blue q

instance (p q : JInt) : Decidable (SameRgb p q) :=
  inferInstanceAs (Decidable (_ ∧ _ ∧ _))

/-- The encoder's extraction `(argb & mask) >> s`, an arithmetic shift of a `jint`. -/
def extractChannel (mask : JInt) (s : ℕ) (argb : JInt) : ℤ := ((argb &&& mask).sshiftRight s).toInt

/-- What the extraction computes, for a mask of eight bits from bit `s` on. The masked value is not
negative, so the arithmetic shift is the logical one. -/
theorem extractChannel_eq {mask : JInt} {s : ℕ} (argb : JInt) (hmask : mask >>> s = 0xff#32)
    (hsign : mask.msb = false) : extractChannel mask s argb = (argb.toNat / 2 ^ s % 256 : ℕ) := by
  have hmsb : (argb &&& mask).msb = false := by rw [BitVec.msb_and, hsign, Bool.and_false]
  have hnat : ((argb &&& mask) >>> s).toNat = argb.toNat / 2 ^ s % 256 := by
    rw [BitVec.ushiftRight_and_distrib, hmask, BitVec.toNat_and, BitVec.toNat_ushiftRight,
      Nat.shiftRight_eq_div_pow]
    exact Nat.and_two_pow_sub_one_eq_mod _ 8
  rw [extractChannel, BitVec.sshiftRight_eq_of_msb_false hmsb,
    BitVec.toInt_eq_toNat_of_lt (by omega), hnat]

theorem extractChannel_red (argb : JInt) : extractChannel 0xff0000#32 16 argb = red argb :=
  extractChannel_eq argb (by decide) (by decide)

theorem extractChannel_green (argb : JInt) : extractChannel 0xff00#32 8 argb = green argb :=
  extractChannel_eq argb (by decide) (by decide)

theorem extractChannel_blue (argb : JInt) : extractChannel 0xff#32 0 argb = blue argb := by
  rw [extractChannel_eq argb (by decide) (by decide), blue, pow_zero, Nat.div_one]

/-! ## Bitmaps -/

/-- A bitmap as `MainActivity` hands it over: `pixels` is the `IntArray(width * height)` that
`getPixels` has filled. Sizes are exact; no product of them wraps. -/
structure Bitmap where
  width : ℕ
  height : ℕ
  pixels : List JInt
  length_pixels : pixels.length = width * height

namespace Bitmap

variable (bmp : Bitmap)

def pixel (index : ℕ) : JInt := bmp.pixels.getD index 0#32

def pixelAt (row column : ℕ) : JInt := bmp.pixel (row * bmp.width + column)

end Bitmap

def solidBitmap (width height : ℕ) (argb : JInt) : Bitmap where
  width := width
  height := height
  pixels := List.replicate (width * height) argb
  length_pixels := List.length_replicate

/-- Three stripes of two columns, each in a colour of its own. -/
def stripedBitmap : Bitmap where
  width := 6
  height := 2
  pixels :=
    [0xff2c0034#32, 0xff2c0034#32, 0xff540040#32, 0xff540040#32, 0xff5a0068#32, 0xff5a0068#32,
      0xff2c0034#32, 0xff2c0034#32, 0xff540040#32, 0xff540040#32, 0xff5a0068#32, 0xff5a0068#32]
  length_pixels := by decide

/-- Both dimensions are even and at least two: the sizes 4:2:0 subsampling is meant for. -/
structure EvenSize (width height : ℕ) : Prop where
  even_width : width % 2 = 0
  even_height : height % 2 = 0
  two_le_width : 2 ≤ width
  two_le_height : 2 ≤ height

theorem evenSize_two_two : EvenSize 2 2 := ⟨by decide, by decide, by decide, by decide⟩

theorem evenSize_stripedBitmap : EvenSize stripedBitmap.width stripedBitmap.height :=
  ⟨by decide, by decide, by decide, by decide⟩

end FacialLandmark
