import FacialLandmark.Dlib.Serialize
import Mathlib.Data.Nat.Digits.Defs

/-!
# `pack_int`

`serialize` of an integer writes the fewest bytes that hold its magnitude, the low one first, behind a
control byte with their number and the sign. The size of the type only bounds the loop, so the bytes
do not tell which type has written them (`packUnsigned_eq`, `packSigned_eq`). The magnitude of the
smallest number of a signed type is one more than that of the largest: negating it gives the number
itself, and the shift, which keeps the sign, never gets to zero. The loop then runs to its end, and
what it has written is the magnitude all the same.

The reader has a type of its own. It refuses a number with more bytes than it has itself and takes
the others modulo its range.
-/

namespace FacialLandmark

/-- `buf[i] = item & 0xFF; item >>= 8; if (item == 0) { size = i; break; }`, `n` times at most. The
shift is the one of the type. -/
def packLoop {w : ℕ} (shift : BitVec w → BitVec w) : ℕ → BitVec w → List Byte
  | 0, _ => []
  | n + 1, item =>
    item.setWidth 8 :: if shift item = 0 then [] else packLoop shift n (shift item)

/-- `pack_int` for a signed `T`. -/
def packSigned (sizeofT : ℕ) (item : ℤ) : List Byte :=
  let value := BitVec.ofInt (8 * sizeofT) item
  let neg := if item < 0 then 0x80#8 else 0
  let buf := packLoop (·.sshiftRight 8) sizeofT (if item < 0 then -value else value)
  (BitVec.ofNat 8 buf.length ||| neg) :: buf

/-- `pack_int` for an unsigned `T`. -/
def packUnsigned (sizeofT : ℕ) (item : ℕ) : List Byte :=
  let buf := packLoop (· >>> (8 : ℕ)) sizeofT (BitVec.ofNat (8 * sizeofT) item)
  BitVec.ofNat 8 buf.length :: buf

/-! ## The bytes of a number -/

/-- The bytes of `v` below `256 ^ n`, low one first, up to the last that is not zero; at least one. -/
def lowBytes : ℕ → ℕ → List Byte
  | 0, _ => []
  | n + 1, v => BitVec.ofNat 8 v :: if v / 256 = 0 then [] else lowBytes n (v / 256)

theorem length_lowBytes_le (n v : ℕ) : (lowBytes n v).length ≤ n := by
  induction n generalizing v with
  | zero => exact le_refl 0
  | succ n ih =>
    rw [lowBytes, List.length_cons, Nat.add_le_add_iff_right]
    split
    · exact Nat.zero_le n
    · exact ih (v / 256)

theorem length_lowBytes_pos {n : ℕ} (hn : 0 < n) (v : ℕ) : 0 < (lowBytes n v).length := by
  obtain ⟨n, rfl⟩ := Nat.exists_eq_add_one.mpr hn
  rw [lowBytes, List.length_cons]
  exact Nat.succ_pos _

theorem length_lowBytes_le_iff {n b v : ℕ} (hb : 0 < b) (hv : v < 256 ^ n) :
    (lowBytes n v).length ≤ b ↔ v < 256 ^ b := by
  induction n generalizing b v with
  | zero =>
    rw [Nat.pow_zero, Nat.lt_one_iff] at hv
    subst hv
    exact iff_of_true (Nat.zero_le b) (Nat.pow_pos (by decide))
  | succ n ih =>
    have hdiv : v / 256 < 256 ^ n := by
      rw [Nat.div_lt_iff_lt_mul (by decide), ← Nat.pow_succ]
      exact hv
    obtain ⟨b, rfl⟩ := Nat.exists_eq_add_one.mpr hb
    have hstep : v < 256 ^ (b + 1) ↔ v / 256 < 256 ^ b := by
      rw [Nat.div_lt_iff_lt_mul (by decide), ← Nat.pow_succ]
    rw [lowBytes, List.length_cons, Nat.add_le_add_iff_right, hstep]
    by_cases hzero : v / 256 = 0
    · rw [if_pos hzero, hzero]
      exact iff_of_true (Nat.zero_le b) (Nat.pow_pos (by decide))
    · rw [if_neg hzero]
      by_cases hb' : b = 0
      · subst hb'
        have hpos : 0 < n := by
          rcases Nat.eq_zero_or_pos n with rfl | hpos
          · exact absurd (Nat.lt_one_iff.mp hdiv) hzero
          · exact hpos
        have hlength := length_lowBytes_pos hpos (v / 256)
        rw [Nat.pow_zero, Nat.lt_one_iff]
        exact iff_of_false (Nat.not_le.mpr hlength) hzero
      · exact ih (Nat.pos_of_ne_zero hb') hdiv

theorem ofDigits_lowBytes {n v : ℕ} (hv : v < 256 ^ n) :
    Nat.ofDigits 256 ((lowBytes n v).map BitVec.toNat) = v := by
  induction n generalizing v with
  | zero =>
    rw [Nat.pow_zero, Nat.lt_one_iff] at hv
    rw [hv]
    rfl
  | succ n ih =>
    have hdiv : v / 256 < 256 ^ n := by
      rw [Nat.div_lt_iff_lt_mul (by decide), ← Nat.pow_succ]
      exact hv
    rw [lowBytes, List.map_cons, Nat.ofDigits_cons, BitVec.toNat_ofNat]
    split
    case isTrue hzero =>
      rw [List.map_nil, Nat.ofDigits_nil]
      omega
    case isFalse hpos =>
      rw [ih hdiv]
      exact Nat.mod_add_div v 256

theorem lowBytes_congr {n k v : ℕ} (hn : 0 < n) (hk : 0 < k) (hvn : v < 256 ^ n)
    (hvk : v < 256 ^ k) : lowBytes n v = lowBytes k v := by
  induction n generalizing k v with
  | zero => exact absurd hn (lt_irrefl 0)
  | succ n ih =>
    obtain ⟨k, rfl⟩ := Nat.exists_eq_add_one.mpr hk
    rw [lowBytes, lowBytes]
    by_cases hzero : v / 256 = 0
    · rw [if_pos hzero, if_pos hzero]
    · have hdiv : v / 256 < 256 ^ n := by
        rw [Nat.div_lt_iff_lt_mul (by decide), ← Nat.pow_succ]
        exact hvn
      have hdiv' : v / 256 < 256 ^ k := by
        rw [Nat.div_lt_iff_lt_mul (by decide), ← Nat.pow_succ]
        exact hvk
      have hpos : ∀ {j : ℕ}, v / 256 < 256 ^ j → 0 < j := by
        intro j hj
        rcases Nat.eq_zero_or_pos j with rfl | hpos
        · exact absurd (Nat.lt_one_iff.mp hj) hzero
        · exact hpos
      rw [if_neg hzero, if_neg hzero, ih (hpos hdiv) (hpos hdiv') hdiv hdiv']

/-! ## What the loop writes -/

theorem packLoop_ushiftRight {w : ℕ} (n : ℕ) (item : BitVec w) :
    packLoop (· >>> (8 : ℕ)) n item = lowBytes n item.toNat := by
  induction n generalizing item with
  | zero => rfl
  | succ n ih =>
    have hbyte : item.setWidth 8 = BitVec.ofNat 8 item.toNat := BitVec.eq_of_toNat_eq (by simp)
    have hshift : (item >>> (8 : ℕ)).toNat = item.toNat / 256 := by
      rw [BitVec.toNat_ushiftRight, Nat.shiftRight_eq_div_pow]
    have hzero : item >>> (8 : ℕ) = 0 ↔ item.toNat / 256 = 0 := by
      rw [← hshift]
      exact BitVec.toNat_eq
    simp only [packLoop, lowBytes, ih, hbyte, hshift, hzero]

/-- Of a number that is not negative, the shift of a signed type does the same. -/
theorem packLoop_sshiftRight_of_msb {w : ℕ} (n : ℕ) {item : BitVec w} (h : item.msb = false) :
    packLoop (·.sshiftRight 8) n item = packLoop (· >>> (8 : ℕ)) n item := by
  induction n generalizing item with
  | zero => rfl
  | succ n ih =>
    have hshift : item.sshiftRight 8 = item >>> (8 : ℕ) := BitVec.sshiftRight_eq_of_msb_false h
    have hmsb : (item >>> (8 : ℕ)).msb = false := by
      rw [BitVec.msb_ushiftRight, h, Bool.and_false]
    simp only [packLoop, hshift, ih hmsb]

theorem setWidth_eq_ofInt {w : ℕ} (hw : 8 ≤ w) (item : BitVec w) :
    item.setWidth 8 = BitVec.ofInt 8 item.toInt := by
  apply BitVec.eq_of_toNat_eq
  obtain ⟨k, rfl⟩ := Nat.exists_eq_add_of_le hw
  have hpow : (2 : ℕ) ^ (8 + k) = 256 * 2 ^ k := pow_add 2 8 k
  rw [BitVec.toNat_setWidth, BitVec.toNat_ofInt, BitVec.toInt_eq_toNat_cond, hpow]
  split <;> push_cast <;> omega

/-- The smallest number of a type of `n + 1` bytes is one that negation leaves alone, and that no
shift makes zero. -/
theorem packLoop_sshiftRight_min {w n : ℕ} (hw : 8 ≤ w) {item : BitVec w}
    (h : item.toInt = -(128 * 256 ^ n)) :
    packLoop (·.sshiftRight 8) (n + 1) item = lowBytes (n + 1) (128 * 256 ^ n) := by
  have hshift : (item.sshiftRight 8).toInt = item.toInt / 256 := by
    rw [BitVec.toInt_sshiftRight, Int.shiftRight_eq_div_pow]
    rfl
  have hne : item.sshiftRight 8 ≠ 0 := by
    intro hzero
    have hquotient := hshift
    have hpos : (0 : ℤ) < 256 ^ n := by positivity
    rw [hzero, h] at hquotient
    simp only [BitVec.ofNat_eq_ofNat, BitVec.toInt_zero] at hquotient
    omega
  rw [packLoop, lowBytes, if_neg hne, setWidth_eq_ofInt hw, h]
  cases n with
  | zero => rfl
  | succ n =>
    have hpow : (256 : ℤ) ^ (n + 1) = 256 ^ n * 256 := pow_succ _ _
    have hpow' : 256 ^ (n + 1) = 256 ^ n * 256 := pow_succ _ _
    have hpos : 0 < 256 ^ n := Nat.pow_pos (by decide)
    have hnext : (item.sshiftRight 8).toInt = -(128 * 256 ^ n) := by
      rw [hshift, h]
      omega
    have hdiv : 128 * 256 ^ (n + 1) / 256 = 128 * 256 ^ n := by omega
    rw [packLoop_sshiftRight_min hw hnext, hdiv, if_neg (by omega)]
    congr 1
    apply BitVec.eq_of_toNat_eq
    rw [BitVec.toNat_ofInt, BitVec.toNat_ofNat, hpow, hpow']
    omega

/-! ## The two writers -/

theorem packUnsigned_eq {sizeofT item : ℕ} (h : item < 256 ^ sizeofT) :
    packUnsigned sizeofT item
      = BitVec.ofNat 8 (lowBytes sizeofT item).length :: lowBytes sizeofT item := by
  have hvalue : (BitVec.ofNat (8 * sizeofT) item).toNat = item := by
    rw [BitVec.toNat_ofNat, pow_mul]
    exact Nat.mod_eq_of_lt h
  simp only [packUnsigned, packLoop_ushiftRight, hvalue]

/-- The numbers of a signed type. -/
def InSigned (sizeofT : ℕ) (item : ℤ) : Prop :=
  -(2 ^ (8 * sizeofT - 1)) ≤ item ∧ item < 2 ^ (8 * sizeofT - 1)

instance (sizeofT : ℕ) (item : ℤ) : Decidable (InSigned sizeofT item) :=
  inferInstanceAs (Decidable (_ ∧ _))

theorem two_pow_sign_bit (n : ℕ) : (2 : ℤ) ^ (8 * (n + 1) - 1) = 128 * 256 ^ n := by
  rw [Nat.mul_succ, Nat.add_sub_assoc (by decide), pow_add, pow_mul, mul_comm]
  rfl

theorem two_pow_range (n : ℕ) : 2 ^ (8 * (n + 1)) = 256 * 256 ^ n := by
  rw [pow_mul, pow_succ, mul_comm]
  rfl

theorem natAbs_le_of_inSigned {n : ℕ} {item : ℤ} (h : InSigned (n + 1) item) :
    item.natAbs ≤ 128 * 256 ^ n := by
  rw [InSigned, two_pow_sign_bit] at h
  zify
  rw [abs_le]
  exact ⟨h.1, h.2.le⟩

theorem natAbs_lt_of_inSigned {sizeofT : ℕ} (hpos : 0 < sizeofT) {item : ℤ}
    (h : InSigned sizeofT item) : item.natAbs < 256 ^ sizeofT := by
  obtain ⟨n, rfl⟩ := Nat.exists_eq_add_one.mpr hpos
  have hle := natAbs_le_of_inSigned h
  have hpos' := Nat.pow_pos (n := n) (show 0 < 256 by decide)
  rw [pow_succ]
  omega

/-- Negation takes a negative number to its magnitude and back. -/
theorem negate_ofInt (w : ℕ) (item : ℤ) :
    (if item < 0 then -BitVec.ofInt w item else BitVec.ofInt w item)
      = BitVec.ofNat w item.natAbs := by
  rw [← BitVec.ofInt_natCast]
  split
  · rw [← BitVec.ofInt_neg, Int.ofNat_natAbs_of_nonpos (by omega)]
  · rw [Int.natAbs_of_nonneg (by omega)]

theorem negate_ofNat_natAbs (w : ℕ) (item : ℤ) :
    (if item < 0 then -BitVec.ofNat w item.natAbs else BitVec.ofNat w item.natAbs)
      = BitVec.ofInt w item := by
  rw [← negate_ofInt]
  split
  · exact BitVec.neg_neg
  · rfl

theorem packSigned_eq {sizeofT : ℕ} (hpos : 0 < sizeofT) {item : ℤ} (h : InSigned sizeofT item) :
    packSigned sizeofT item
      = (BitVec.ofNat 8 (lowBytes sizeofT item.natAbs).length ||| if item < 0 then 0x80#8 else 0)
        :: lowBytes sizeofT item.natAbs := by
  obtain ⟨n, rfl⟩ := Nat.exists_eq_add_one.mpr hpos
  have hw : 8 ≤ 8 * (n + 1) := by omega
  have hpow := two_pow_range n
  have habs := natAbs_le_of_inSigned h
  have hpos' : 0 < 256 ^ n := Nat.pow_pos (by decide)
  have hnat : (BitVec.ofNat (8 * (n + 1)) item.natAbs).toNat = item.natAbs := by
    rw [BitVec.toNat_ofNat]
    exact Nat.mod_eq_of_lt (by omega)
  have hloop : packLoop (·.sshiftRight 8) (n + 1) (BitVec.ofNat (8 * (n + 1)) item.natAbs)
      = lowBytes (n + 1) item.natAbs := by
    rcases habs.lt_or_eq with hlt | heq
    · have hmsb : (BitVec.ofNat (8 * (n + 1)) item.natAbs).msb = false := by
        rw [BitVec.msb_eq_false_iff_two_mul_lt, hnat, hpow]
        omega
      rw [packLoop_sshiftRight_of_msb _ hmsb, packLoop_ushiftRight, hnat]
    · rw [heq]
      refine packLoop_sshiftRight_min hw ?_
      rw [heq] at hnat
      rw [BitVec.toInt_eq_toNat_cond, hnat, hpow, if_neg (by omega)]
      push_cast
      ring
  simp only [packSigned, negate_ofInt, hloop]

theorem packUnsigned_congr {a b item : ℕ} (ha : 0 < a) (hb : 0 < b) (h : item < 256 ^ a)
    (h' : item < 256 ^ b) : packUnsigned a item = packUnsigned b item := by
  rw [packUnsigned_eq h, packUnsigned_eq h', lowBytes_congr ha hb h h']

theorem packSigned_congr {a b : ℕ} {item : ℤ} (ha : 0 < a) (hb : 0 < b) (h : InSigned a item)
    (h' : InSigned b item) : packSigned a item = packSigned b item := by
  have hlt : item.natAbs < 256 ^ a := natAbs_lt_of_inSigned ha h
  have hlt' : item.natAbs < 256 ^ b := natAbs_lt_of_inSigned hb h'
  rw [packSigned_eq ha h, packSigned_eq hb h', lowBytes_congr ha hb hlt hlt']

/-! ## Reading it back -/

theorem assemble_eq_ofDigits (w : ℕ) (buf : List Byte) :
    assemble w buf = BitVec.ofNat w (Nat.ofDigits 256 (buf.map BitVec.toNat)) := by
  induction buf with
  | nil => rfl
  | cons b buf ih =>
    rw [assemble, List.foldr_cons, ← assemble, ih, List.map_cons, Nat.ofDigits_cons]
    apply BitVec.eq_of_getLsbD_eq
    intro i hi
    rw [BitVec.getLsbD_or, BitVec.getLsbD_shiftLeft, BitVec.getLsbD_setWidth, BitVec.getLsbD_ofNat,
      BitVec.getLsbD_ofNat, Nat.add_comm b.toNat,
      show (256 : ℕ) = 2 ^ 8 from rfl, Nat.testBit_two_pow_mul_add _ b.isLt]
    by_cases hlow : i < 8
    · simp [hi, hlow, BitVec.getLsbD]
    · have hbyte : b.getLsbD i = false := BitVec.getLsbD_of_ge b i (by omega)
      simp [hi, hlow, hbyte]
      omega

theorem assemble_lowBytes (w : ℕ) {n v : ℕ} (hv : v < 256 ^ n) :
    assemble w (lowBytes n v) = BitVec.ofNat w v := by
  rw [assemble_eq_ofDigits, ofDigits_lowBytes hv]

theorem control_masks {k : ℕ} (hk : k ≤ 8) :
    (BitVec.ofNat 8 k &&& 0x8F#8).toNat = k ∧
      ∀ neg ∈ [0x80#8, 0#8], ((BitVec.ofNat 8 k ||| neg) &&& 0x0F#8).toNat = k ∧
        ((BitVec.ofNat 8 k ||| neg) &&& 0x80#8 = 0#8 ↔ neg = 0#8) := by
  have hall : ∀ k : Fin 9, (BitVec.ofNat 8 k &&& 0x8F#8).toNat = k ∧
      ∀ neg ∈ [0x80#8, 0#8], ((BitVec.ofNat 8 k ||| neg) &&& 0x0F#8).toNat = k ∧
        ((BitVec.ofNat 8 k ||| neg) &&& 0x80#8 = 0#8 ↔ neg = 0#8) := by decide
  exact hall ⟨k, by omega⟩

/-- **Unsigned numbers** between two types: a number comes back as it was, if the reader's type has
it, and is refused if not. -/
theorem unpackUnsigned_packUnsigned {a b item : ℕ} (ha : 0 < a) (ha' : a ≤ 8) (hb : 0 < b)
    (hb' : b ≤ 8) (h : item < 256 ^ a) (rest : List Byte) :
    unpackUnsigned b (packUnsigned a item ++ rest)
      = if item < 256 ^ b then some (item, rest) else none := by
  have hle := length_lowBytes_le a item
  have hpos := length_lowBytes_pos ha item
  have hfits := length_lowBytes_le_iff hb h
  have hsize := (control_masks (hle.trans ha')).1
  rw [packUnsigned_eq h, List.cons_append]
  simp only [unpackUnsigned, hsize, List.length_append, min_eq_left hb', List.take_left,
    List.drop_left, assemble_lowBytes _ h]
  by_cases hitem : item < 256 ^ b
  · have hlength := hfits.mpr hitem
    have hvalue : (BitVec.ofNat (8 * b) item).toNat = item := by
      rw [BitVec.toNat_ofNat, pow_mul]
      exact Nat.mod_eq_of_lt hitem
    rw [if_neg (by omega), if_neg (by omega), if_pos hitem, hvalue]
  · have hlength := mt hfits.mp hitem
    rw [if_pos (by omega), if_neg hitem]

/-- **Signed numbers** between two types: a number that has no more bytes than the reader's type is
taken modulo the range of that type, and any other is refused. -/
theorem unpackSigned_packSigned {a b : ℕ} {item : ℤ} (ha : 0 < a) (ha' : a ≤ 8) (hb : 0 < b)
    (hb' : b ≤ 8) (h : InSigned a item) (rest : List Byte) :
    unpackSigned b (packSigned a item ++ rest)
      = if item.natAbs < 256 ^ b then some (item.bmod (2 ^ (8 * b)), rest) else none := by
  have habs := natAbs_lt_of_inSigned ha h
  have hle := length_lowBytes_le a item.natAbs
  have hpos := length_lowBytes_pos ha item.natAbs
  have hfits := length_lowBytes_le_iff hb habs
  have hmem : (if item < 0 then 0x80#8 else 0#8) ∈ [0x80#8, 0#8] := by split <;> simp
  have hsign : (if item < 0 then 0x80#8 else 0#8) = 0#8 ↔ ¬item < 0 := by split <;> simp [*]
  have hmasks := (control_masks (hle.trans ha')).2 _ hmem
  rw [hsign] at hmasks
  rw [packSigned_eq ha h, List.cons_append]
  simp only [unpackSigned, BitVec.ofNat_eq_ofNat, hmasks, ne_eq, not_not, List.length_append,
    min_eq_left hb', List.take_left, List.drop_left, assemble_lowBytes _ habs,
    negate_ofNat_natAbs, BitVec.toInt_ofInt]
  by_cases hitem : item.natAbs < 256 ^ b
  · have hlength := hfits.mpr hitem
    rw [if_neg (by omega), if_neg (by omega), if_pos hitem]
  · have hlength := mt hfits.mp hitem
    rw [if_pos (by omega), if_neg hitem]

/-- In particular a number that the reader's type has comes back as it was. -/
theorem bmod_of_inSigned {b : ℕ} {item : ℤ} (hb : 0 < b) (h : InSigned b item) :
    item.bmod (2 ^ (8 * b)) = item := by
  rw [← BitVec.toInt_ofInt, BitVec.toInt_ofInt_eq_self (by omega) h.1 h.2]

/-! ## Numbers that are cut off -/

theorem unpackUnsigned_of_prefix {b : ℕ} {control : Byte} {buf cut : List Byte}
    (hsize : (control &&& 0x8F#8).toNat = buf.length) (hcut : cut <+: control :: buf)
    (hne : cut ≠ control :: buf) : unpackUnsigned b cut = none := by
  rcases List.prefix_cons_iff.mp hcut with rfl | ⟨cut', rfl, hcut'⟩
  · rfl
  · have hlength : cut'.length < buf.length :=
      lt_of_le_of_ne hcut'.length_le fun heq ↦ hne (by rw [hcut'.eq_of_length heq])
    simp only [unpackUnsigned, hsize, if_pos hlength, ite_self]

theorem unpackSigned_of_prefix {b : ℕ} {control : Byte} {buf cut : List Byte}
    (hsize : (control &&& 0x0F#8).toNat = buf.length) (hcut : cut <+: control :: buf)
    (hne : cut ≠ control :: buf) : unpackSigned b cut = none := by
  rcases List.prefix_cons_iff.mp hcut with rfl | ⟨cut', rfl, hcut'⟩
  · rfl
  · have hlength : cut'.length < buf.length :=
      lt_of_le_of_ne hcut'.length_le fun heq ↦ hne (by rw [hcut'.eq_of_length heq])
    simp only [unpackSigned, hsize, if_pos hlength, ite_self]

theorem unpackUnsigned_of_prefix_packUnsigned {a b item : ℕ} {cut : List Byte} (ha : a ≤ 8)
    (h : item < 256 ^ a) (hcut : cut <+: packUnsigned a item) (hne : cut ≠ packUnsigned a item) :
    unpackUnsigned b cut = none := by
  rw [packUnsigned_eq h] at hcut hne
  exact unpackUnsigned_of_prefix (control_masks ((length_lowBytes_le a item).trans ha)).1 hcut hne

theorem unpackSigned_of_prefix_packSigned {a b : ℕ} {item : ℤ} {cut : List Byte} (ha : 0 < a)
    (ha' : a ≤ 8) (h : InSigned a item) (hcut : cut <+: packSigned a item)
    (hne : cut ≠ packSigned a item) : unpackSigned b cut = none := by
  rw [packSigned_eq ha h] at hcut hne
  have hmem : (if item < 0 then 0x80#8 else 0#8) ∈ [0x80#8, 0#8] := by split <;> simp
  have hmasks := (control_masks ((length_lowBytes_le a item.natAbs).trans ha')).2 _ hmem
  exact unpackSigned_of_prefix hmasks.1 hcut hne

/-- The control byte of a number tells a `float` in the binary format from text. -/
theorem isBinary_packSigned {a : ℕ} {item : ℤ} (ha : 0 < a) (ha' : a ≤ 8) (h : InSigned a item)
    (rest : List Byte) : isBinary (packSigned a item ++ rest) = true := by
  have hall : ∀ k : Fin 9, ∀ neg ∈ [0x80#8, 0#8],
      (BitVec.ofNat 8 k ||| neg) &&& 0x70#8 = 0#8 := by decide
  have hmem : (if item < 0 then 0x80#8 else 0#8) ∈ [0x80#8, 0#8] := by split <;> simp
  have hlength := (length_lowBytes_le a item.natAbs).trans ha'
  have hmask := hall ⟨(lowBytes a item.natAbs).length, by omega⟩ _ hmem
  rw [packSigned_eq ha h, List.cons_append]
  simp only [isBinary, BitVec.ofNat_eq_ofNat, hmask, decide_true]

/-! ## What the reader accepts -/

theorem lt_of_unpackUnsigned {b : ℕ} {input rest : List Byte} {item : ℕ}
    (h : unpackUnsigned b input = some (item, rest)) : item < 256 ^ b := by
  cases input with
  | nil => exact absurd h (by simp [unpackUnsigned])
  | cons control tail =>
    simp only [unpackUnsigned, Option.ite_none_left_eq_some, Option.some_inj, Prod.mk.injEq] at h
    obtain ⟨-, -, rfl, -⟩ := h
    rw [show 256 ^ b = 2 ^ (8 * b) from (pow_mul 2 8 b).symm]
    exact BitVec.isLt _

theorem inSigned_toInt {b : ℕ} (value : BitVec (8 * b)) : InSigned b value.toInt :=
  ⟨BitVec.le_toInt value, BitVec.toInt_lt⟩

/-- The bytes that are put together bound the magnitude of what comes of them, whichever sign it is
given. -/
theorem natAbs_toInt_assemble {b : ℕ} (hb : 0 < b) {buf : List Byte} (hbuf : buf.length ≤ b)
    (negative : Prop) [Decidable negative] :
    (if negative then -assemble (8 * b) buf else assemble (8 * b) buf).toInt.natAbs
      < 256 ^ buf.length := by
  rcases hbuf.lt_or_eq with hlt | heq
  · -- there is room for the sign
    obtain ⟨n, rfl⟩ := Nat.exists_eq_add_one.mpr hb
    obtain ⟨v, hv⟩ : ∃ v, Nat.ofDigits 256 (buf.map BitVec.toNat) = v := ⟨_, rfl⟩
    have hdigits : v < 256 ^ buf.length := by
      rw [← hv, ← List.length_map (f := BitVec.toNat)]
      exact Nat.ofDigits_lt_base_pow_length (by decide) (List.forall_mem_map.mpr fun byte _ ↦ byte.isLt)
    have hsmall : v < 256 ^ n := hdigits.trans_le (Nat.pow_le_pow_right (by decide) (by omega))
    have hvalue : (if negative then -assemble (8 * (n + 1)) buf else assemble (8 * (n + 1)) buf)
        = BitVec.ofInt (8 * (n + 1)) (if negative then -(v : ℤ) else v) := by
      rw [assemble_eq_ofDigits, hv]
      split
      · rw [BitVec.ofInt_neg, BitVec.ofInt_natCast]
      · rw [BitVec.ofInt_natCast]
    have hrange : InSigned (n + 1) (if negative then -(v : ℤ) else v) := by
      rw [InSigned, two_pow_sign_bit]
      zify at hsmall
      split <;> omega
    rw [hvalue, BitVec.toInt_ofInt_eq_self (by omega) hrange.1 hrange.2]
    split <;> omega
  · rw [heq]
    exact natAbs_lt_of_inSigned hb (inSigned_toInt _)

/-- **Numbers that are read** are numbers of the type, and however they were written, the writer needs
no more bytes for them. -/
theorem length_packSigned_le_of_unpackSigned {b : ℕ} (hb : 0 < b) {input rest : List Byte} {item : ℤ}
    (h : unpackSigned b input = some (item, rest)) :
    InSigned b item ∧ ∃ code, input = code ++ rest ∧ (packSigned b item).length ≤ code.length := by
  cases input with
  | nil => exact absurd h (by simp [unpackSigned])
  | cons control tail =>
    obtain ⟨size, hcontrol⟩ : ∃ size, (control &&& 0x0F#8).toNat = size := ⟨_, rfl⟩
    simp only [unpackSigned, hcontrol] at h
    by_cases hbig : size > min b 8 ∨ size = 0
    · rw [if_pos hbig] at h
      exact absurd h (by simp)
    by_cases hshort : tail.length < size
    · rw [if_neg hbig, if_pos hshort] at h
      exact absurd h (by simp)
    rw [if_neg hbig, if_neg hshort, Option.some_inj, Prod.mk.injEq] at h
    obtain ⟨hitem, rfl⟩ := h
    have hrange : InSigned b item := hitem ▸ inSigned_toInt _
    have htake : (tail.take size).length = size := by
      rw [List.length_take, Nat.min_eq_left (Nat.not_lt.mp hshort)]
    have hnumber : item.natAbs < 256 ^ size := by
      have hassemble := @natAbs_toInt_assemble b hb (tail.take size) (by omega)
        (control &&& 0x80#8 ≠ 0) _
      rwa [hitem, htake] at hassemble
    refine ⟨hrange, control :: tail.take size, ?_, ?_⟩
    · rw [List.cons_append, List.take_append_drop]
    · rw [packSigned_eq hb hrange, List.length_cons, List.length_cons, htake,
        Nat.add_le_add_iff_right,
        length_lowBytes_le_iff (by omega) (natAbs_lt_of_inSigned hb hrange)]
      exact hnumber

theorem length_packSigned_le_of_padded :
    InSigned 4 (-5) ∧ ∃ code, [0x82#8, 0x05#8, 0x00#8, 0x2A#8] = code ++ [0x2A#8] ∧
      (packSigned 4 (-5)).length ≤ code.length :=
  length_packSigned_le_of_unpackSigned (by decide) (by decide)

end FacialLandmark
