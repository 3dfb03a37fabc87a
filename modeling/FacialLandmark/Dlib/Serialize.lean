import FacialLandmark.Library.InPlace
import Mathlib.Data.Int.Basic
import Mathlib.Order.Basic

/-!
# `dlib::deserialize` for numbers and containers

A number is stored as a control byte, which gives its length and its sign, and as many bytes, the low
one first. A `float` is two such numbers, a mantissa and an exponent, unless the control byte gives
it away as text of the older format. A container is its size and then its elements.

All of these overwrite the variable they are given. Which of them have already written to it when
they throw is part of what they do: reading an `unsigned long` starts by setting it to zero, reading
a `float` in the binary format stores nothing before both numbers are there, and `vector<float,2>`
goes back to the origin.

The C++ library is a parameter. `Platform` has the size of a `long` and what an allocation throws;
`FloatFormat` has the operations on `float` that are not written in terms of others.
-/

namespace FacialLandmark

open InPlace

abbrev Byte := BitVec 8

inductive StdException where
  | length_error
  | bad_alloc
  | bad_array_new_length
  deriving DecidableEq

inductive LoadError where
  | serialization_error (info : String)
  | std (e : StdException)
  deriving DecidableEq

/-- `catch (serialization_error& e) { throw serialization_error(f(e.info)); }`. -/
def LoadError.withInfo (f : String → String) : LoadError → LoadError
  | .serialization_error info => .serialization_error (f info)
  | .std e => .std e

/-- `allocate size n` is what the request for `n` elements of `size` bytes throws, if anything. The
answer is a matter of the request alone; it is asked for also where the memory at hand would do. -/
structure Platform where
  sizeofLong : ℕ
  allocate : ℕ → ℕ → Option StdException

/-- How `in >> item` ends on a `float`: with a value, or with the fail bit set, and then with what it
has stored in `item`, if anything. -/
inductive Extraction (F : Type) where
  | value (item : F) (rest : List Byte)
  | failed (left : Option F)

structure FloatFormat (F : Type) where
  zero : F
  infinity : F
  negInfinity : F
  quietNaN : F
  /-- `std::ldexp((float) mantissa, exponent)`. -/
  ldexp : ℤ → ℤ → F
  extract : List Byte → Extraction F
  /-- What a new array of `float`s holds before anything is stored in it. -/
  uninitialised : ℕ → F

/-! ## Integers -/

/-- `for (i = size-1; true; --i) { item <<= 8; item |= buf[i]; if (i == 0) break; }`, from zero. -/
def assemble (w : ℕ) (buf : List Byte) : BitVec w :=
  buf.foldr (fun b item ↦ (item <<< 8) ||| b.setWidth w) 0

/-- `unpack_int` for a signed `T`: the value and what is left of the stream, or nothing where the
function reports a problem. -/
def unpackSigned (sizeofT : ℕ) : List Byte → Option (ℤ × List Byte)
  | [] => none
  | control :: rest =>
    let size := (control &&& 0x0F#8).toNat
    if size > min sizeofT 8 ∨ size = 0 then none
    else if rest.length < size then none
    else
      let item := assemble (8 * sizeofT) (rest.take size)
      let item := if control &&& 0x80#8 ≠ 0 then -item else item
      some (item.toInt, rest.drop size)

/-- `unpack_int` for an unsigned `T`. The sign bit stays in the size here, which makes it too big. -/
def unpackUnsigned (sizeofT : ℕ) : List Byte → Option (ℕ × List Byte)
  | [] => none
  | control :: rest =>
    let size := (control &&& 0x8F#8).toNat
    if size > min sizeofT 8 ∨ size = 0 then none
    else if rest.length < size then none
    else some ((assemble (8 * sizeofT) (rest.take size)).toNat, rest.drop size)

def deserializationError (type : String) : LoadError :=
  .serialization_error ("Error deserializing object of type " ++ type)

/-- `deserialize` of a signed local variable. -/
def deserializeSigned (type : String) (sizeofT : ℕ) (input : List Byte) :
    Except LoadError (ℤ × List Byte) :=
  match unpackSigned sizeofT input with
  | none => .error (deserializationError type)
  | some result => .ok result

/-- `deserialize(unsigned long& item, in)`: the item is zero from the start on. -/
def deserializeUnsignedLong (platform : Platform) : Loader Byte LoadError ℕ :=
  .leaf fun input ↦ match unpackUnsigned platform.sizeofLong input with
    | none => .failed (deserializationError "unsigned long") (some 0)
    | some (item, rest) => .done item rest

/-! ## Floating point -/

section Float

variable {F : Type} (format : FloatFormat F)

/-- `float_details`: the mantissa and the exponent. -/
def deserializeFloatDetails (input : List Byte) : Except LoadError ((ℤ × ℤ) × List Byte) := do
  let (mantissa, rest) ← deserializeSigned "int64" 8 input
  let (exponent, rest) ← deserializeSigned "short" 2 rest
  return ((mantissa, exponent), rest)

/-- `float_details::convert_to_T`, with its three special exponents. -/
def convertToFloat (mantissa exponent : ℤ) : F :=
  if exponent < 32000 then format.ldexp mantissa exponent
  else if exponent = 32000 then format.infinity
  else if exponent = 32001 then format.negInfinity
  else format.quietNaN

/-- The text of the older format: `i`, `n` and `N` begin `inf`, `ninf` and `NaN`. -/
def oldExtract (input : List Byte) : Extraction F :=
  if input.head? = some 0x69#8 then .value format.infinity (input.drop 3)
  else if input.head? = some 0x6E#8 then .value format.negInfinity (input.drop 4)
  else if input.head? = some 0x4E#8 then .value format.quietNaN (input.drop 3)
  else format.extract input

/-- `old_deserialize_floating_point`: the text must be followed by a blank. -/
def oldDeserializeFloatingPoint (input : List Byte) : Read Byte LoadError F :=
  let error := LoadError.serialization_error "Error deserializing a floating point number."
  match oldExtract format input with
  | .value item (0x20#8 :: rest) => .done item rest
  | .value item _ => .failed error (some item)
  | .failed left => .failed error left

/-- `(in.rdbuf()->sgetc() & 0x70) == 0`; at the end of the stream `sgetc` gives `-1`. -/
def isBinary : List Byte → Bool
  | [] => false
  | control :: _ => control &&& 0x70#8 = 0#8

/-- `deserialize_floating_point`. -/
def deserializeFloat : Loader Byte LoadError F :=
  .leaf fun input ↦
    if isBinary input then
      match deserializeFloatDetails input with
      | .error e =>
        .failed (e.withInfo (· ++ "\n   while deserializing a floating point number.")) none
      | .ok ((mantissa, exponent), rest) => .done (convertToFloat format mantissa exponent) rest
    else oldDeserializeFloatingPoint format input

/-- `dlib::vector<float,2>`. -/
structure FloatPoint (F : Type) where
  x : F
  y : F
  deriving DecidableEq

def FloatPoint.equiv : F × F ≃ FloatPoint F where
  toFun p := ⟨p.1, p.2⟩
  invFun p := (p.x, p.y)
  left_inv _ := rfl
  right_inv _ := rfl

def FloatPoint.origin : FloatPoint F := ⟨format.zero, format.zero⟩

/-- `deserialize(vector<float,2>& item, in)`. Its two reads throw `serialization_error` only. -/
def deserializeFloatPoint : Loader Byte LoadError (FloatPoint F) :=
  (((deserializeFloat format).pair (deserializeFloat format)).congr FloatPoint.equiv)
    |>.resetOnError (.origin format)
    |>.rethrow (.withInfo (· ++ "\n   while deserializing object of type vector"))

end Float

/-! ## Containers -/

section Containers

variable {σ : Type} (platform : Platform)

/-- `std::vector::resize`: new elements are value-initialised. -/
def resize (init : σ) (size : ℕ) (items : List σ) : List σ :=
  items.take size ++ List.replicate (size - items.length) init

theorem length_resize (init : σ) (size : ℕ) (items : List σ) :
    (resize init size items).length = size := by
  rw [resize, List.length_append, List.length_take, List.length_replicate]
  omega

theorem resize_of_length_eq (init : σ) {size : ℕ} {items : List σ} (h : items.length = size) :
    resize init size items = items := by
  rw [resize, h, Nat.sub_self, List.replicate_zero, List.append_nil, List.take_of_length_le h.le]

/-- `deserialize(std::vector<T>& item, in)`. -/
def deserializeVector (sizeofT : ℕ) (init : σ) (element : Loader Byte LoadError σ) :
    Loader Byte LoadError (List σ) :=
  .rethrow (.withInfo (· ++ "\n   while deserializing object of type std::vector"))
    (.after (deserializeUnsignedLong platform).parse fun size ↦
      match platform.allocate sizeofT size with
      | some e => .throwing (.std e)
      | none => .list size (resize init size) (length_resize init size)
          (fun _ ↦ resize_of_length_eq init) element)

variable {F : Type} (format : FloatFormat F)

/-- `matrix<float,0,1>::set_size`: a different size gets new memory. -/
def setSize (rows : ℕ) (items : List F) : List F :=
  if items.length = rows then items else (List.range rows).map format.uninitialised

theorem length_setSize (rows : ℕ) (items : List F) : (setSize format rows items).length = rows := by
  rw [setSize]
  split
  · assumption
  · rw [List.length_map, List.length_range]

/-- The dimensions of a matrix; the newer format stores them negated. A `matrix<float,0,1>` fixes the
number of columns. -/
def deserializeRows (input : List Byte) : Except LoadError (ℤ × List Byte) := do
  let (nr, rest) ← deserializeSigned "long" platform.sizeofLong input
  let (nc, rest) ← deserializeSigned "long" platform.sizeofLong rest
  let (nr, nc) := if nr < 0 ∨ nc < 0 then (-nr, -nc) else (nr, nc)
  if nc ≠ 1 then
    throw (.serialization_error "Error while deserializing a dlib::matrix.  Invalid columns")
  return (nr, rest)

/-- `deserialize(matrix<float,0,1>& item, in)`. A negative number of rows becomes a huge `size_t`. -/
def deserializeMatrix : Loader Byte LoadError (List F) :=
  .rethrow (.withInfo (· ++ "\n   while deserializing a dlib::matrix"))
    (.after (deserializeRows platform) fun rows ↦
      if rows < 0 then .throwing (.std .bad_array_new_length)
      else match platform.allocate 4 rows.toNat with
      | some e => .throwing (.std e)
      | none => .list rows.toNat (setSize format rows.toNat) (length_setSize format rows.toNat)
          (fun _ h ↦ if_pos h) (deserializeFloat format))

end Containers

end FacialLandmark
