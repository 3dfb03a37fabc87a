import FacialLandmark.Dlib.Serialize

/-!
# The model file of a `shape_predictor`

A predictor is a mean shape, a forest of regression trees for each level of its cascade, and for each
level the pixels its trees look at, given by an anchor in the mean shape and an offset from it. The
file has a version number and then the four fields, and `deserialize` loads them in place, in this
order.

Whether a load fails depends on the file alone (`parseFile`). What a failed load leaves behind
depends on the old predictor too (`KeepsModel`). But the first thing that is stored is the size of
the mean shape: a file that fails before it is read leaves every predictor alone, and one that fails
behind it none whose mean shape has another size.
-/

namespace FacialLandmark

open InPlace

/-! ## The predictor -/

structure SplitFeature (F : Type) where
  idx1 : ℕ
  idx2 : ℕ
  thresh : F
  deriving DecidableEq

structure RegressionTree (F : Type) where
  splits : List (SplitFeature F)
  leaf_values : List (List F)
  deriving DecidableEq

structure ShapePredictor (F : Type) where
  initial_shape : List F
  forests : List (List (RegressionTree F))
  anchor_idx : List (List ℕ)
  deltas : List (List (FloatPoint F))
  deriving DecidableEq

variable {F : Type}

/-- `shape_predictor()`. -/
def ShapePredictor.empty : ShapePredictor F := ⟨[], [], [], []⟩

/-- A predictor of one part and of one test, in which a pixel is compared with itself. -/
def ShapePredictor.stump (x : F) : ShapePredictor F where
  initial_shape := [x, x]
  forests := [[{ splits := [⟨0, 0, x⟩], leaf_values := [[x, x], [x, x]] }]]
  anchor_idx := [[0]]
  deltas := [[⟨x, x⟩]]

def SplitFeature.equiv : ℕ × ℕ × F ≃ SplitFeature F where
  toFun p := ⟨p.1, p.2.1, p.2.2⟩
  invFun s := (s.idx1, s.idx2, s.thresh)
  left_inv _ := rfl
  right_inv _ := rfl

def RegressionTree.equiv : List (SplitFeature F) × List (List F) ≃ RegressionTree F where
  toFun p := ⟨p.1, p.2⟩
  invFun t := (t.splits, t.leaf_values)
  left_inv _ := rfl
  right_inv _ := rfl

def ShapePredictor.equiv :
    List F × List (List (RegressionTree F)) × List (List ℕ) × List (List (FloatPoint F))
      ≃ ShapePredictor F where
  toFun p := ⟨p.1, p.2.1, p.2.2.1, p.2.2.2⟩
  invFun s := (s.initial_shape, s.forests, s.anchor_idx, s.deltas)
  left_inv _ := rfl
  right_inv _ := rfl

/-! ## `deserialize`

The sizes of the element types follow from the size of a `long`, which is that of a pointer. -/

variable (platform : Platform) (format : FloatFormat F)

def deserializeSplitFeature : Loader Byte LoadError (SplitFeature F) :=
  ((deserializeUnsignedLong platform).pair
    ((deserializeUnsignedLong platform).pair (deserializeFloat format))).congr SplitFeature.equiv

def deserializeRegressionTree : Loader Byte LoadError (RegressionTree F) :=
  ((deserializeVector platform (3 * platform.sizeofLong) ⟨0, 0, format.zero⟩
      (deserializeSplitFeature platform format)).pair
    (deserializeVector platform (3 * platform.sizeofLong) []
      (deserializeMatrix platform format))).congr RegressionTree.equiv

/-- The four fields, in the order of `deserialize(shape_predictor& item, in)`. -/
def deserializeFields : Loader Byte LoadError (ShapePredictor F) :=
  ((deserializeMatrix platform format).pair
    ((deserializeVector platform (3 * platform.sizeofLong) []
        (deserializeVector platform (6 * platform.sizeofLong) ⟨[], []⟩
          (deserializeRegressionTree platform format))).pair
      ((deserializeVector platform (3 * platform.sizeofLong) []
          (deserializeVector platform platform.sizeofLong 0
            (deserializeUnsignedLong platform))).pair
        (deserializeVector platform (3 * platform.sizeofLong) []
          (deserializeVector platform 8 (.origin format)
            (deserializeFloatPoint format)))))).congr ShapePredictor.equiv

def deserializeShapePredictor : Loader Byte LoadError (ShapePredictor F) :=
  .after (deserializeSigned "int" 4) fun version ↦
    if version ≠ 1 then
      .throwing (.serialization_error
        "Unexpected version found while deserializing dlib::shape_predictor.")
    else deserializeFields platform format

/-! ## The file -/

/-- The header of a file compressed by `bzip2`. -/
def looksLikeACompressedFile (bytes : List Byte) : Bool :=
  bytes.take 3 = [0x42#8, 0x5A#8, 0x68#8] ∧
    ∃ b ∈ bytes[3]?, 0x30#8 ≤ b ∧ b ≤ 0x39#8

/-- What `proxy_deserialize` makes of an error in the first object of a file. -/
def firstObjectError (filename : String) (bytes : List Byte) (info : String) : String :=
  let suffix :=
    if looksLikeACompressedFile bytes then
      "\n *** THIS LOOKS LIKE A COMPRESSED FILE.  DID YOU FORGET TO DECOMPRESS IT? *** \n"
    else ""
  "An error occurred while trying to read the first object from the file " ++ filename
    ++ ".\nERROR: " ++ info ++ "\n" ++ suffix

/-- `proxy_deserialize::doit`, for the first object of an open file. -/
def deserializeFirst (filename : String) (bytes : List Byte) :
    Loader Byte LoadError (ShapePredictor F) :=
  .rethrow (.withInfo (firstObjectError filename bytes))
    (.after
      (fun input ↦
        if input = [] then .error (.serialization_error "No more objects were in the file!")
        else .ok ((), input))
      fun _ ↦ deserializeShapePredictor platform format)

def unableToOpen (filename : String) : LoadError :=
  .serialization_error ("Unable to open " ++ filename ++ " for reading.")

/-- `deserialize(filename) >> item`: the item afterwards, and what is left of the file or the
exception. A file that cannot be opened is `none`. -/
def deserializeFile (filename : String) (file : Option (List Byte)) (item : ShapePredictor F) :
    ShapePredictor F × Except LoadError (List Byte) :=
  match file with
  | none => (item, .error (unableToOpen filename))
  | some bytes => (deserializeFirst platform format filename bytes).run item bytes

/-- The predictor a file has in it, or the exception. -/
def parseFile (filename : String) (file : Option (List Byte)) :
    Except LoadError (ShapePredictor F × List Byte) :=
  match file with
  | none => .error (unableToOpen filename)
  | some bytes => (deserializeFirst platform format filename bytes).parse bytes

/-- Everything a load of the file stores, up to its end or up to where it fails, is what the predictor
has there: each length that is read is the length of the vector at that place, each number that is
read is the number at that place, and so are the zeros that a failed `unsigned long` or
`vector<float,2>` leaves. -/
def KeepsModel (filename : String) (file : Option (List Byte)) (item : ShapePredictor F) : Prop :=
  match file with
  | none => True
  | some bytes => (deserializeFirst platform format filename bytes).Keeps item bytes

/-- The number of rows of the mean shape, if a file is read so far. -/
def meanShapeRows : Option (List Byte) → Option ℤ
  | none => none
  | some bytes =>
    match deserializeSigned "int" 4 bytes with
    | .error _ => none
    | .ok (version, rest) =>
      if version ≠ 1 then none
      else match deserializeRows platform rest with
        | .error _ => none
        | .ok (rows, _) => some rows

variable {platform format}

/-- Whether a load succeeds does not depend on what it is loaded over. -/
theorem snd_deserializeFile (filename : String) (file : Option (List Byte))
    (item : ShapePredictor F) :
    (deserializeFile platform format filename file item).2
      = (parseFile platform format filename file).map Prod.snd := by
  cases file with
  | none => rfl
  | some bytes => exact (deserializeFirst platform format filename bytes).snd_run item bytes

theorem deserializeFile_of_parse {filename : String} {file : Option (List Byte)}
    {model : ShapePredictor F} {rest : List Byte}
    (h : parseFile platform format filename file = .ok (model, rest)) (item : ShapePredictor F) :
    deserializeFile platform format filename file item = (model, .ok rest) := by
  cases file with
  | none => exact absurd h (by simp [parseFile])
  | some bytes => exact (deserializeFirst platform format filename bytes).run_of_parse h item

theorem deserializeFile_of_parse_eq_error {filename : String} {file : Option (List Byte)}
    {e : LoadError} (h : parseFile platform format filename file = .error e)
    (item : ShapePredictor F) :
    deserializeFile platform format filename file item
      = ((deserializeFile platform format filename file item).1, .error e) := by
  have houtcome := @snd_deserializeFile F platform format filename file item
  rw [h] at houtcome
  exact Prod.ext rfl houtcome

/-- **A load leaves the predictor as it was** exactly when all it stores is there already. -/
theorem fst_deserializeFile_eq_iff (filename : String) (file : Option (List Byte))
    (item : ShapePredictor F) :
    (deserializeFile platform format filename file item).1 = item
      ↔ KeepsModel platform format filename file item := by
  cases file with
  | none => exact iff_of_true rfl trivial
  | some bytes => exact (deserializeFirst platform format filename bytes).fst_run_eq_iff item bytes

/-! ## Where a failed load does damage -/

section Damage

variable {filename : String} {file : Option (List Byte)} {item : ShapePredictor F} {rows : ℤ}

theorem ne_nil_of_version {bytes rest : List Byte}
    (hversion : deserializeSigned "int" 4 bytes = .ok (1, rest)) : bytes ≠ [] := by
  rintro rfl
  exact absurd hversion (by simp [deserializeSigned, unpackSigned])

theorem parseFile_of_version {bytes rest : List Byte}
    (hversion : deserializeSigned "int" 4 bytes = .ok (1, rest)) :
    parseFile platform format filename (some bytes)
      = ((deserializeFields platform format).parse rest).mapError
          (.withInfo (firstObjectError filename bytes)) := by
  simp [parseFile, deserializeFirst, deserializeShapePredictor, Loader.rethrow, Loader.after,
    ne_nil_of_version hversion, hversion]

theorem keepsModel_of_version {bytes rest : List Byte}
    (hversion : deserializeSigned "int" 4 bytes = .ok (1, rest)) :
    KeepsModel platform format filename (some bytes) item
      ↔ (deserializeFields platform format).Keeps item rest := by
  simp [KeepsModel, deserializeFirst, deserializeShapePredictor, Loader.rethrow, Loader.after,
    ne_nil_of_version hversion, hversion]

theorem keepsModel_of_not_version {bytes : List Byte} (item : ShapePredictor F)
    (h : ∀ rest, deserializeSigned "int" 4 bytes ≠ .ok (1, rest)) :
    KeepsModel platform format filename (some bytes) item := by
  simp only [KeepsModel, deserializeFirst, deserializeShapePredictor, Loader.rethrow, Loader.after]
  by_cases hempty : bytes = []
  · rw [if_pos hempty]
    trivial
  · rw [if_neg hempty]
    cases hversion : deserializeSigned "int" 4 bytes with
    | error e => simp only [hversion]
    | ok result =>
      obtain ⟨version, rest⟩ := result
      have hne : version ≠ 1 := fun heq ↦ h rest (heq ▸ hversion)
      simp only [hversion, if_pos hne]
      trivial

theorem meanShapeRows_of_version {bytes rest : List Byte}
    (hversion : deserializeSigned "int" 4 bytes = .ok (1, rest)) :
    meanShapeRows platform (some bytes)
      = (deserializeRows platform rest).toOption.map Prod.fst := by
  simp only [meanShapeRows, hversion]
  cases deserializeRows platform rest <;> simp [Except.toOption]

theorem exists_version_of_meanShapeRows {bytes : List Byte}
    (h : meanShapeRows platform (some bytes) = some rows) :
    ∃ rest, deserializeSigned "int" 4 bytes = .ok (1, rest) := by
  rw [meanShapeRows] at h
  cases hversion : deserializeSigned "int" 4 bytes with
  | error e => simp [hversion] at h
  | ok result =>
    obtain ⟨version, rest⟩ := result
    by_cases hone : version = 1
    · exact ⟨rest, by rw [hone]⟩
    · simp [hversion, hone] at h

/-- A file that is not read as far as the size of the mean shape leaves the predictor alone. -/
theorem keepsModel_of_meanShapeRows (item : ShapePredictor F)
    (h : meanShapeRows platform file = none) : KeepsModel platform format filename file item := by
  cases file with
  | none => trivial
  | some bytes =>
    by_cases hversion : ∃ rest, deserializeSigned "int" 4 bytes = .ok (1, rest)
    · obtain ⟨rest, hversion⟩ := hversion
      rw [meanShapeRows_of_version hversion] at h
      rw [keepsModel_of_version hversion]
      cases hrows : deserializeRows platform rest with
      | error e =>
        -- the first field fails in its header, and the others are not reached
        simp [deserializeFields, deserializeMatrix, Loader.congr, Loader.pair, Loader.rethrow,
          Loader.after, hrows, Except.mapError]
      | ok result => simp [hrows, Except.toOption] at h
    · exact keepsModel_of_not_version item (not_exists.mp hversion)

theorem parse_deserializeMatrix_of_refused {rest rest' : List Byte}
    (hrows : deserializeRows platform rest = .ok (rows, rest'))
    (hrefused : rows < 0 ∨ platform.allocate 4 rows.toNat ≠ none) :
    ∃ e, (deserializeMatrix platform format).parse rest = .error (.std e) := by
  simp only [deserializeMatrix, Loader.rethrow, Loader.after, hrows]
  by_cases hneg : rows < 0
  · rw [if_pos hneg]
    exact ⟨_, rfl⟩
  · rw [if_neg hneg]
    obtain ⟨e, he⟩ := Option.ne_none_iff_exists'.mp (hrefused.resolve_left hneg)
    rw [he]
    exact ⟨e, rfl⟩

theorem keeps_deserializeMatrix_iff {rest rest' : List Byte} {items : List F}
    (hrows : deserializeRows platform rest = .ok (rows, rest')) (hnonneg : 0 ≤ rows)
    (halloc : platform.allocate 4 rows.toNat = none) :
    (deserializeMatrix platform format).Keeps items rest
      ↔ items.length = rows.toNat ∧ (deserializeFloat format).KeepsAll items rest' := by
  simp only [deserializeMatrix, Loader.rethrow, Loader.after, hrows, if_neg (Int.not_lt.mpr hnonneg),
    halloc]
  rfl

/-- Once the number of rows is read, a mean shape of another length is lost. -/
theorem length_initial_shape_of_keepsModel {info : String}
    (hrows : meanShapeRows platform file = some rows)
    (hfail : parseFile platform format filename file = .error (.serialization_error info))
    (h : KeepsModel platform format filename file item) : (item.initial_shape.length : ℤ) = rows := by
  cases file with
  | none => exact absurd hrows (by simp [meanShapeRows])
  | some bytes =>
    obtain ⟨rest, hversion⟩ := exists_version_of_meanShapeRows hrows
    rw [meanShapeRows_of_version hversion] at hrows
    rw [parseFile_of_version hversion] at hfail
    rw [keepsModel_of_version hversion] at h
    cases hdims : deserializeRows platform rest with
    | error e => simp [hdims, Except.toOption] at hrows
    | ok result =>
      obtain ⟨rows', rest'⟩ := result
      obtain rfl : rows' = rows := by simpa [hdims, Except.toOption] using hrows
      have hgranted : ¬(rows' < 0 ∨ platform.allocate 4 rows'.toNat ≠ none) := by
        intro hrefused
        obtain ⟨e, he⟩ := @parse_deserializeMatrix_of_refused F platform format _ _ _ hdims hrefused
        simp [deserializeFields, Loader.congr, Loader.pair, he, Except.map, Except.mapError,
          LoadError.withInfo] at hfail
      obtain ⟨hnonneg, halloc⟩ := not_or.mp hgranted
      have hlength := ((keeps_deserializeMatrix_iff hdims (Int.not_lt.mp hnonneg)
        (not_not.mp halloc)).mp h.1).1
      rw [← Int.toNat_of_nonneg (Int.not_lt.mp hnonneg), ← hlength]
      rfl

end Damage

end FacialLandmark
