import FacialLandmark.Dlib.PackInt
import FacialLandmark.Dlib.Requests
import FacialLandmark.Library.BinaryFloat
import FacialLandmark.Library.Codes

/-!
# `float_details`

A `float` is written as an integer mantissa and an exponent. `convert_from_T` takes the 24 bits of the
fraction and shifts off the low bytes that are zero; for zero it does so until its loop runs out.
`convert_to_T` is `ldexp`, and since nothing of this rounds, a number comes back as it was. The one
thing that has no place in an integer mantissa is the sign of a zero.

Here `float` is the binary32 format. Reading a number from text and the contents of new memory are
parameters still.
-/

namespace FacialLandmark

open InPlace BinaryFloat

def singleFormat (extract : List Byte → Extraction Single) (uninitialised : ℕ → Single) :
    FloatFormat Single where
  zero := .finite false 0 binary32.emin (canonical_zero binary32)
  infinity := .infinity false
  negInfinity := .infinity true
  quietNaN := .nan
  ldexp mantissa exponent := (ofInt binary32 mantissa).ldexp exponent
  extract := extract
  uninitialised := uninitialised

/-- A stream in which there is no text. -/
def noText : List Byte → Extraction Single := fun _ ↦ .failed none

/-! ## `convert_from_T` -/

/-- `for (i = 0; i < n && ((mantissa&0xFF)==0); ++i) { mantissa >>= 8; exponent += 8; }`. -/
def compact : ℕ → ℤ → ℤ → ℤ × ℤ
  | 0, mantissa, exponent => (mantissa, exponent)
  | n + 1, mantissa, exponent =>
    if mantissa % 256 = 0 then compact n (mantissa >>> (8 : ℕ)) (exponent + 8)
    else (mantissa, exponent)

/-- `float_details(const float&)`: the mantissa and the exponent. -/
def convertFromFloat : Single → ℤ × ℤ
  | .infinity false => (0, 32000)
  | .infinity true => (0, 32001)
  | .nan => (0, 32002)
  | .finite negative m e h =>
    let (mantissa, exp) := (Number.finite negative m e h).frexp
    compact 8 mantissa (exp - binary32.precision)

/-- `serialize(const float_details&)`, of a `float`. -/
def serializeFloat (item : Single) : List Byte :=
  packSigned 8 (convertFromFloat item).1 ++ packSigned 2 (convertFromFloat item).2

/-- Shifting off zeros changes neither the value nor the sign. -/
theorem compact_spec (n : ℕ) (mantissa exponent : ℤ) :
    let d := compact n mantissa exponent
    d.1.natAbs ≤ mantissa.natAbs ∧ (d.1 < 0 ↔ mantissa < 0) ∧
      (d.1.natAbs : ℚ) * 2 ^ d.2 = mantissa.natAbs * 2 ^ exponent ∧
      exponent ≤ d.2 ∧ d.2 ≤ exponent + 8 * n := by
  induction n generalizing mantissa exponent with
  | zero => simp [compact]
  | succ n ih =>
    simp only [compact]
    split
    case isTrue hzero =>
      have hshift : mantissa >>> (8 : ℕ) = mantissa / 256 := Int.shiftRight_eq_div_pow mantissa 8
      have habs : mantissa.natAbs = (mantissa / 256).natAbs * 256 := by omega
      obtain ⟨hle, hsign, hvalue, hlow, hhigh⟩ := ih (mantissa >>> (8 : ℕ)) (exponent + 8)
      rw [hshift] at hle hsign hvalue hlow hhigh ⊢
      refine ⟨by omega, by omega, ?_, by omega, by push_cast; omega⟩
      rw [hvalue, habs, zpow_add₀ two_ne_zero]
      push_cast
      ring
    case isFalse hbyte =>
      refine ⟨le_refl _, Iff.rfl, rfl, le_refl _, by push_cast; omega⟩

theorem frexp_exponent_bounds (negative : Bool) {m : ℕ} {e : ℤ} (h : Canonical binary32 m e) :
    -149 ≤ (Number.finite negative m e h).frexp.2 ∧ (Number.finite negative m e h).frexp.2 ≤ 128 := by
  have hmin : -149 ≤ e := h.emin_le
  have hmax : e ≤ 104 := h.le_emax
  simp only [Number.frexp]
  split
  case isTrue hzero => decide
  case isFalse hzero =>
    have hlog : Nat.log2 m < 24 := (Nat.log2_lt hzero).mpr h.lt
    simp only
    omega

theorem inSigned_convertFromFloat (item : Single) :
    InSigned 8 (convertFromFloat item).1 ∧ InSigned 2 (convertFromFloat item).2 := by
  cases item with
  | nan => decide
  | infinity negative => cases negative <;> decide
  | finite negative m e h =>
    obtain ⟨hbits, -, -⟩ := Number.frexp_spec negative h
    have hexp := frexp_exponent_bounds negative h
    have hprecision : binary32.precision = 24 := rfl
    simp only [convertFromFloat, InSigned]
    rw [hprecision] at hbits ⊢
    obtain ⟨hle, -, -, hlow, hhigh⟩ := compact_spec 8 (Number.finite negative m e h).frexp.1
      ((Number.finite negative m e h).frexp.2 - (24 : ℕ))
    omega

/-- **`float_details`.** A `float` that is taken apart and put together again is the same, but for the
sign of a zero. -/
theorem convertToFloat_convertFromFloat (extract : List Byte → Extraction Single)
    (uninitialised : ℕ → Single) (item : Single) :
    convertToFloat (singleFormat extract uninitialised) (convertFromFloat item).1
      (convertFromFloat item).2 = item.unsignZero := by
  cases item with
  | nan => rfl
  | infinity negative => cases negative <;> rfl
  | finite negative m e h =>
    obtain ⟨hbits, hsign, hvalue⟩ := Number.frexp_spec negative h
    have hexp := frexp_exponent_bounds negative h
    have hprecision : (binary32.precision : ℤ) = 24 := rfl
    simp only [convertFromFloat]
    obtain ⟨hle, hsign', hvalue', -, hhigh⟩ := compact_spec 8 (Number.finite negative m e h).frexp.1
      ((Number.finite negative m e h).frexp.2 - binary32.precision)
    -- none of the special exponents comes out of a finite number
    rw [convertToFloat, if_pos (by omega), Number.unsignZero]
    have hldexp := ldexp_ofInt hasIntegers_binary32 (hle.trans_lt hbits) h (hvalue'.trans hvalue)
    rw [singleFormat]
    simp only [hldexp, hsign', hsign, Bool.decide_eq_true]

@[simp] theorem serializeFloat_unsignZero (item : Single) :
    serializeFloat item.unsignZero = serializeFloat item := by
  cases item with
  | nan => rfl
  | infinity negative => rfl
  | finite negative m e h =>
    by_cases hzero : m = 0
    · simp [serializeFloat, convertFromFloat, Number.unsignZero, Number.frexp, hzero]
    · simp [Number.unsignZero, hzero]

/-! ## Writing and reading -/

def LoadError.IsCaught (e : LoadError) : Prop := ¬e.IsStd

theorem LoadError.isCaught_withInfo {f : String → String} {e : LoadError} (h : e.IsCaught) :
    (e.withInfo f).IsCaught := mt (LoadError.isStd_withInfo f e).mp h

/-- A signed number is read modulo the range of the reader's type, if it has no more bytes. If it has
more, it is not read, and any value will do. -/
theorem codes_deserializeSigned (type : String) {a b : ℕ} {item value : ℤ} (ha : 0 < a)
    (ha' : a ≤ 8) (hb : 0 < b) (hb' : b ≤ 8) (h : InSigned a item)
    (hvalue : item.natAbs < 256 ^ b → item.bmod (2 ^ (8 * b)) = value) :
    Codes (item.natAbs < 256 ^ b) LoadError.IsCaught (deserializeSigned type b) (packSigned a item)
      value where
  eq_of_parse {rest result} hparse := by
    rw [deserializeSigned, unpackSigned_packSigned ha ha' hb hb' h] at hparse
    by_cases hitem : item.natAbs < 256 ^ b
    · rw [if_pos hitem, hvalue hitem] at hparse
      exact (Except.ok.inj hparse).symm
    · rw [if_neg hitem] at hparse
      exact absurd hparse (by simp)
  parse_append hitem rest := by
    rw [deserializeSigned, unpackSigned_packSigned ha ha' hb hb' h, if_pos hitem, hvalue hitem]
  cut_off hcut hne := by
    rw [deserializeSigned, unpackSigned_of_prefix_packSigned ha ha' h hcut hne]
    exact fun _ ↦ id

theorem codes_deserializeSigned_of_inSigned {Fits : Prop} (type : String) {a b : ℕ} {item : ℤ}
    (ha : 0 < a) (ha' : a ≤ 8) (hb : 0 < b) (hb' : b ≤ 8) (h : InSigned a item)
    (hitem : InSigned b item) :
    Codes Fits LoadError.IsCaught (deserializeSigned type b) (packSigned a item) item :=
  (codes_deserializeSigned type ha ha' hb hb' h fun _ ↦ bmod_of_inSigned hb hitem).mono
    fun _ ↦ natAbs_lt_of_inSigned hb hitem

theorem codes_deserializeFloatDetails {Fits : Prop} (item : Single) :
    Codes Fits LoadError.IsCaught deserializeFloatDetails (serializeFloat item)
      (convertFromFloat item) := by
  obtain ⟨hmantissa, hexponent⟩ := inSigned_convertFromFloat item
  refine (codes_andThen (fun hparse ↦ ?_) (fun hparse hparse' ↦ ?_) (fun hparse hparse' ↦ ?_)
    (codes_deserializeSigned_of_inSigned "int64" (by decide) (by decide) (by decide) (by decide)
      hmantissa hmantissa)
    (codes_deserializeSigned_of_inSigned "short" (by decide) (by decide) (by decide) (by decide)
      hexponent hexponent)).mono fun hfits ↦ ⟨hfits, hfits⟩
  · simp only [deserializeFloatDetails, hparse, bind, Except.bind]
  · simp only [deserializeFloatDetails, hparse, hparse', bind, Except.bind]
  · simp only [deserializeFloatDetails, hparse, hparse', bind, Except.bind, pure, Except.pure]

theorem isBinary_serializeFloat (item : Single) (rest : List Byte) :
    isBinary (serializeFloat item ++ rest) = true := by
  rw [serializeFloat, List.append_assoc]
  exact isBinary_packSigned (by decide) (by decide) (inSigned_convertFromFloat item).1 _

theorem isBinary_of_prefix_serializeFloat {item : Single} {cut : List Byte}
    (hcut : cut <+: serializeFloat item) (hne : cut ≠ []) : isBinary cut = true := by
  obtain ⟨rest, hrest⟩ := hcut
  have hwhole := isBinary_serializeFloat item []
  rw [List.append_nil, ← hrest] at hwhole
  obtain ⟨control, cut', rfl⟩ := List.exists_cons_of_ne_nil hne
  exact hwhole

section Float

variable {extract : List Byte → Extraction Single} {uninitialised : ℕ → Single}

theorem parse_serializeFloat_append (item : Single) (rest : List Byte) :
    (deserializeFloat (singleFormat extract uninitialised)).parse (serializeFloat item ++ rest)
      = .ok (item.unsignZero, rest) := by
  have hdetails := @codes_deserializeFloatDetails True item
  simp only [deserializeFloat, Loader.leaf, isBinary_serializeFloat,
    hdetails.parse_append trivial, if_true, convertToFloat_convertFromFloat]

/-- **All or nothing.** From the beginning of a `float` that `serialize` has written, the whole number
is stored, without the sign of a zero, or the variable keeps its value. -/
theorem run_deserializeFloat_of_prefix (item old : Single) {cut : List Byte}
    (hcut : cut <+: serializeFloat item) (hne : cut ≠ []) :
    ((deserializeFloat (singleFormat extract uninitialised)).run old cut).1
        = (if cut = serializeFloat item then item.unsignZero else old) ∧
      (((deserializeFloat (singleFormat extract uninitialised)).run old cut).2 = .ok []
        ↔ cut = serializeFloat item) := by
  by_cases hwhole : cut = serializeFloat item
  · have hparse := @parse_serializeFloat_append extract uninitialised item []
    rw [List.append_nil, ← hwhole] at hparse
    rw [Loader.run_of_parse _ hparse, if_pos hwhole]
    exact ⟨rfl, iff_of_true rfl hwhole⟩
  · obtain ⟨e, hparse, -⟩ := (@codes_deserializeFloatDetails True item).exists_error_of_cut hcut hwhole
    simp only [deserializeFloat, Loader.leaf, isBinary_of_prefix_serializeFloat hcut hne, hparse,
      if_true, if_neg hwhole]
    exact ⟨rfl, iff_of_false (by simp) hwhole⟩

theorem run_deserializeFloat_of_cut_infinity :
    ((deserializeFloat (singleFormat noText fun _ ↦ .nan)).run .nan [0x01#8]).1 = .nan ∧
      (((deserializeFloat (singleFormat noText fun _ ↦ .nan)).run .nan [0x01#8]).2 = .ok []
        ↔ [0x01#8] = serializeFloat (.infinity true)) :=
  run_deserializeFloat_of_prefix (.infinity true) .nan (by decide) (by decide)

/-- **`float`.** What `serialize` has written is read as the number without the sign of a zero, as
long as a stream that is exhausted has no text for a number. -/
theorem codes_deserializeFloat {Fits : Prop} (hextract : ∃ left, extract [] = .failed left)
    (item : Single) :
    Codes Fits LoadError.IsCaught (deserializeFloat (singleFormat extract uninitialised)).parse
      (serializeFloat item) item.unsignZero := by
  refine codes_of_append (parse_serializeFloat_append item) (fun {cut} hcut hne ↦ ?_)
  obtain ⟨e, hparse, hcaught⟩ :=
    (@codes_deserializeFloatDetails True item).exists_error_of_cut hcut hne
  by_cases hempty : cut = []
  · -- not even the control byte is there, so this is no binary number
    subst hempty
    obtain ⟨left, hleft⟩ := hextract
    simp only [deserializeFloat, Loader.leaf, isBinary, oldDeserializeFloatingPoint, oldExtract,
      singleFormat, hleft]
    exact id
  · simp only [deserializeFloat, Loader.leaf, isBinary_of_prefix_serializeFloat hcut hempty, hparse,
      if_true]
    exact LoadError.isCaught_withInfo (hcaught trivial)

end Float

end FacialLandmark
