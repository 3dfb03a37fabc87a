import FacialLandmark.Dlib.FloatDetails

/-!
# Writing a `shape_predictor`

`serialize` follows `deserialize` field by field, so each piece of a file is the code of the piece of
the predictor that is read from it (`Codes`), and the rules for putting codes together lead from the
numbers to the whole file.

The platform that writes and the one that reads may differ: a model is trained on one machine and
loaded on another, whose `long` may be shorter. Of the writer only the sizes of its numbers matter.
What the reader needs for a given predictor is `Platform.memory`: that the lengths and the indices are
numbers of its types, and that the memory is granted. A stream that takes no more bytes is left out;
the file is a `List Byte`.
-/

namespace FacialLandmark

open InPlace BinaryFloat

/-! ## `serialize` -/

section Serialize

variable {σ : Type} (platform : Platform)

/-- `serialize(const std::vector<T>& item, out)`. -/
def serializeVector (element : σ → List Byte) (items : List σ) : List Byte :=
  packUnsigned platform.sizeofLong items.length ++ items.flatMap element

/-- The dimensions of a `matrix<float,0,1>`, negated. -/
def serializeRows (rows : ℕ) : List Byte :=
  packSigned platform.sizeofLong (-rows) ++ packSigned platform.sizeofLong (-1)

/-- `serialize(const matrix<float,0,1>& item, out)`. -/
def serializeMatrix (items : List Single) : List Byte :=
  serializeRows platform items.length ++ items.flatMap serializeFloat

/-- `serialize(const vector<float,2>& item, out)`. -/
def serializeFloatPoint (item : FloatPoint Single) : List Byte :=
  serializeFloat item.x ++ serializeFloat item.y

def serializeSplitFeature (item : SplitFeature Single) : List Byte :=
  packUnsigned platform.sizeofLong item.idx1 ++
    (packUnsigned platform.sizeofLong item.idx2 ++ serializeFloat item.thresh)

def serializeRegressionTree (item : RegressionTree Single) : List Byte :=
  serializeVector platform (serializeSplitFeature platform) item.splits ++
    serializeVector platform (serializeMatrix platform) item.leaf_values

def serializeFields (item : ShapePredictor Single) : List Byte :=
  serializeMatrix platform item.initial_shape ++
    (serializeVector platform (serializeVector platform (serializeRegressionTree platform))
        item.forests ++
      (serializeVector platform
          (serializeVector platform (packUnsigned platform.sizeofLong)) item.anchor_idx ++
        serializeVector platform (serializeVector platform serializeFloatPoint) item.deltas))

/-- `serialize(const shape_predictor& item, out)`. -/
def serializeShapePredictor (item : ShapePredictor Single) : List Byte :=
  packSigned 4 1 ++ serializeFields platform item

end Serialize

/-! ## What a file keeps of a predictor -/

section Map

variable {F G : Type} (f : F → G)

def FloatPoint.map (p : FloatPoint F) : FloatPoint G := ⟨f p.x, f p.y⟩

def SplitFeature.map (s : SplitFeature F) : SplitFeature G := ⟨s.idx1, s.idx2, f s.thresh⟩

def RegressionTree.map (t : RegressionTree F) : RegressionTree G :=
  ⟨t.splits.map (·.map f), t.leaf_values.map (·.map f)⟩

def ShapePredictor.map (m : ShapePredictor F) : ShapePredictor G :=
  ⟨m.initial_shape.map f, m.forests.map (·.map (·.map f)), m.anchor_idx,
    m.deltas.map (·.map (·.map f))⟩

end Map

/-- The predictor without the signs of its zeros. -/
def ShapePredictor.unsignZeros (m : ShapePredictor Single) : ShapePredictor Single :=
  m.map Number.unsignZero

/-! ## What a platform has room for -/

/-- Conditions on the lengths and the indices of a predictor. -/
structure Room where
  sizeofLong : ℕ
  vector : (sizeofT size : ℕ) → Prop
  column : (rows : ℕ) → Prop
  index : ℕ → Prop

namespace Room

variable {F σ : Type} (room : Room)

def HasVector (sizeofT : ℕ) (HasElement : σ → Prop) (items : List σ) : Prop :=
  room.vector sizeofT items.length ∧ ∀ x ∈ items, HasElement x

def HasSplit (item : SplitFeature F) : Prop := room.index item.idx1 ∧ room.index item.idx2

def HasTree (item : RegressionTree F) : Prop :=
  room.HasVector (3 * room.sizeofLong) room.HasSplit item.splits ∧
    room.HasVector (3 * room.sizeofLong) (fun leaf ↦ room.column leaf.length) item.leaf_values

def HasModel (item : ShapePredictor F) : Prop :=
  room.column item.initial_shape.length ∧
    room.HasVector (3 * room.sizeofLong) (room.HasVector (6 * room.sizeofLong) room.HasTree)
      item.forests ∧
    room.HasVector (3 * room.sizeofLong) (room.HasVector room.sizeofLong room.index)
      item.anchor_idx ∧
    room.HasVector (3 * room.sizeofLong) (room.HasVector 8 fun _ ↦ True) item.deltas

section Mono

variable {room} {room' : Room}

theorem HasVector.mono
    (hvector : ∀ {sizeofT sizeofT' size}, room.vector sizeofT size → room'.vector sizeofT' size)
    {sizeofT sizeofT' : ℕ} {P P' : σ → Prop} {items : List σ} (hP : ∀ x, P x → P' x)
    (h : room.HasVector sizeofT P items) : room'.HasVector sizeofT' P' items :=
  ⟨hvector h.1, fun x hx ↦ hP x (h.2 x hx)⟩

theorem HasModel.mono
    (hvector : ∀ {sizeofT sizeofT' size}, room.vector sizeofT size → room'.vector sizeofT' size)
    (hcolumn : ∀ {rows}, room.column rows → room'.column rows)
    (hindex : ∀ {i}, room.index i → room'.index i) {item : ShapePredictor F}
    (h : room.HasModel item) : room'.HasModel item := by
  have htree : ∀ tree : RegressionTree F, room.HasTree tree → room'.HasTree tree :=
    fun tree ht ↦ ⟨ht.1.mono hvector fun _ hs ↦ ⟨hindex hs.1, hindex hs.2⟩,
      ht.2.mono hvector fun _ hl ↦ hcolumn hl⟩
  exact ⟨hcolumn h.1, h.2.1.mono hvector fun _ hf ↦ hf.mono hvector htree,
    h.2.2.1.mono hvector fun _ hl ↦ hl.mono hvector fun _ hi ↦ hindex hi,
    h.2.2.2.mono hvector fun _ hl ↦ hl.mono hvector fun _ _ ↦ trivial⟩

end Mono

end Room

/-- The lengths and the indices are numbers of the types that they have in the source. -/
def Platform.numbers (platform : Platform) : Room where
  sizeofLong := platform.sizeofLong
  vector _ size := size < 256 ^ platform.sizeofLong
  column rows := InSigned platform.sizeofLong rows
  index i := i < 256 ^ platform.sizeofLong

/-- And the memory for them is granted. -/
def Platform.memory (platform : Platform) : Room where
  sizeofLong := platform.sizeofLong
  vector sizeofT size :=
    size < 256 ^ platform.sizeofLong ∧ platform.allocate sizeofT size = none
  column rows := InSigned platform.sizeofLong rows ∧ platform.allocate 4 rows = none
  index i := i < 256 ^ platform.sizeofLong

/-- A `long` has one to eight bytes. -/
structure Platform.Sized (platform : Platform) : Prop where
  pos : 0 < platform.sizeofLong
  le : platform.sizeofLong ≤ 8

/-- A platform with the longest `long` and memory for everything. -/
def roomy : Platform where
  sizeofLong := 8
  allocate _ _ := none

theorem sized_roomy : roomy.Sized := ⟨by decide, by decide⟩

/-- A platform with `long`s of four bytes, and vectors of no more elements than these can count. -/
def phone : Platform where
  sizeofLong := 4
  allocate _ size := if size < 2 ^ 31 then none else some .bad_alloc

theorem sized_phone : phone.Sized := ⟨by decide, by decide⟩

theorem hasModel_stump {F : Type} (x : F) :
    roomy.numbers.HasModel (.stump x) ∧ phone.memory.HasModel (.stump x) := by
  simp [Room.HasModel, Room.HasVector, Room.HasTree, Room.HasSplit, ShapePredictor.stump,
    Platform.numbers, Platform.memory, roomy, phone, InSigned]

/-! ## The pieces of a file -/

theorem inSigned_neg_of_natCast {b rows : ℕ} (h : InSigned b rows) : InSigned b (-rows) := by
  rw [InSigned] at h ⊢
  omega

theorem inSigned_neg_one (b : ℕ) : InSigned b (-1) := by
  have hpos : (0 : ℤ) < 2 ^ (8 * b - 1) := by positivity
  rw [InSigned]
  omega

/-- A number of rows that is too big for the reader's `long` is negative there, if it is read at all. -/
theorem exists_negative_rows {b rows : ℕ} (hb : 0 < b) (h : ¬InSigned b (-rows)) :
    ∃ value < 0, rows < 256 ^ b → -((-(rows : ℤ)).bmod (2 ^ (8 * b))) = value := by
  by_cases hrows : rows < 256 ^ b
  · refine ⟨_, ?_, fun _ ↦ rfl⟩
    obtain ⟨n, rfl⟩ := Nat.exists_eq_add_one.mpr hb
    rw [InSigned, two_pow_sign_bit] at h
    rw [pow_succ] at hrows
    zify at hrows
    rw [two_pow_range, ← Int.add_bmod_right, Int.bmod_eq_of_le] <;> push_cast <;> omega
  · exact ⟨-1, by decide, fun hlt ↦ absurd hlt hrows⟩

section Pieces

variable {writer reader : Platform} (hw : writer.Sized) (hr : reader.Sized)
include hw hr

theorem codes_deserializeUnsignedLong {item : ℕ} (h : writer.numbers.index item) :
    Codes (reader.memory.index item) LoadError.IsCaught (deserializeUnsignedLong reader).parse
      (packUnsigned writer.sizeofLong item) item := by
  have hunpack := unpackUnsigned_packUnsigned hw.pos hw.le hr.pos hr.le h
  refine ⟨fun {rest result} hparse ↦ ?_, fun hitem rest ↦ ?_, fun hcut hne ↦ ?_⟩
  · simp only [deserializeUnsignedLong, Loader.leaf, hunpack] at hparse
    by_cases hitem : item < 256 ^ reader.sizeofLong
    · simp only [if_pos hitem] at hparse
      exact (Except.ok.inj hparse).symm
    · simp only [if_neg hitem] at hparse
      exact absurd hparse (by simp)
  · have hlt : item < 256 ^ reader.sizeofLong := hitem
    simp only [deserializeUnsignedLong, Loader.leaf, hunpack, if_pos hlt]
  · simp only [deserializeUnsignedLong, Loader.leaf,
      unpackUnsigned_of_prefix_packUnsigned hw.le h hcut hne]
    exact fun _ ↦ id

/-- **Unsigned numbers** between two machines: over whatever was there, the number is loaded if the
reader's type has it, and a zero and an error if not. -/
theorem run_deserializeUnsignedLong_packUnsigned {item : ℕ} (h : writer.numbers.index item) (old : ℕ)
    (rest : List Byte) :
    (deserializeUnsignedLong reader).run old (packUnsigned writer.sizeofLong item ++ rest)
      = if item < 256 ^ reader.sizeofLong then (item, .ok rest)
        else (0, .error (deserializationError "unsigned long")) := by
  simp only [deserializeUnsignedLong, Loader.leaf,
    unpackUnsigned_packUnsigned hw.pos hw.le hr.pos hr.le h]
  by_cases hitem : item < 256 ^ reader.sizeofLong
  · rw [if_pos hitem, if_pos hitem]
  · rw [if_neg hitem, if_neg hitem]
    rfl

omit hw hr in
theorem run_deserializeUnsignedLong_two_pow :
    (deserializeUnsignedLong phone).run 7 (packUnsigned 8 (2 ^ 32) ++ [0x2A#8])
      = (0, .error (deserializationError "unsigned long")) := by
  have hrun := run_deserializeUnsignedLong_packUnsigned sized_roomy sized_phone
    (show roomy.numbers.index (2 ^ 32) by simp [Platform.numbers, roomy]) 7 [0x2A#8]
  rwa [if_neg (by simp [phone])] at hrun

theorem codes_deserializeVector {σ τ : Type} {sizeofT : ℕ} {init : σ} {element : Loader Byte LoadError σ}
    {encode : τ → List Byte} {value : τ → σ} {fits : τ → Prop} {items : List τ}
    (hlength : items.length < 256 ^ writer.sizeofLong)
    (h : ∀ x ∈ items, Codes (fits x) LoadError.IsCaught element.parse (encode x) (value x)) :
    Codes (reader.memory.HasVector sizeofT fits items) LoadError.IsCaught
      (deserializeVector reader sizeofT init element).parse (serializeVector writer encode items)
      (items.map value) := by
  refine Codes.mono (codes_rethrow (fun e ↦ LoadError.isCaught_withInfo)
    (codes_after (codes_deserializeUnsignedLong hw hr hlength)
      (?_ : Codes (reader.allocate sizeofT items.length = none ∧ ∀ x ∈ items, fits x) _ _ _ _))) ?_
  · cases hrequest : reader.allocate sizeofT items.length with
    | some e => exact codes_throwing (by simp) _ _
    | none => exact (codes_parseAll h).mono And.right
  · rintro ⟨⟨hnumber, hgranted⟩, hfits⟩
    exact ⟨hnumber, hgranted, hfits⟩

theorem codes_deserializeVector_self {σ : Type} {sizeofT : ℕ} {init : σ}
    {element : Loader Byte LoadError σ} {encode : σ → List Byte} {fits : σ → Prop} {items : List σ}
    (hlength : items.length < 256 ^ writer.sizeofLong)
    (h : ∀ x ∈ items, Codes (fits x) LoadError.IsCaught element.parse (encode x) x) :
    Codes (reader.memory.HasVector sizeofT fits items) LoadError.IsCaught
      (deserializeVector reader sizeofT init element).parse (serializeVector writer encode items)
      items := by
  have hcodes := @codes_deserializeVector writer reader hw hr σ σ sizeofT init element encode id fits
    items hlength h
  rwa [List.map_id] at hcodes

/-- What a reader makes of the number of rows. The file has it negated, and the `long` that it is read
into may be shorter than the one it was in. -/
theorem codes_deserializeRows {rows : ℕ} {value : ℤ} (h : InSigned writer.sizeofLong rows)
    (hvalue : rows < 256 ^ reader.sizeofLong →
      -((-(rows : ℤ)).bmod (2 ^ (8 * reader.sizeofLong))) = value) :
    Codes (rows < 256 ^ reader.sizeofLong) LoadError.IsCaught (deserializeRows reader)
      (serializeRows writer rows) value := by
  have hminus := inSigned_neg_of_natCast h
  have habs : (-(rows : ℤ)).natAbs = rows := by rw [Int.natAbs_neg, Int.natAbs_natCast]
  have hnr : (-(rows : ℤ)).natAbs < 256 ^ reader.sizeofLong →
      (-(rows : ℤ)).bmod (2 ^ (8 * reader.sizeofLong)) = -value := by
    rw [habs]
    intro hrows
    rw [← hvalue hrows, neg_neg]
  refine (codes_andThen (fun hparse ↦ ?_) (fun hparse hparse' ↦ ?_) (fun hparse hparse' ↦ ?_)
    (codes_deserializeSigned "long" hw.pos hw.le hr.pos hr.le hminus hnr)
    (codes_deserializeSigned_of_inSigned "long" hw.pos hw.le hr.pos hr.le (inSigned_neg_one _)
      (inSigned_neg_one _))).mono fun hfits ↦ ⟨by rwa [habs], hfits⟩
  · simp only [deserializeRows, hparse, bind, Except.bind]
  · simp only [deserializeRows, hparse, hparse', bind, Except.bind]
  · simp [deserializeRows, hparse, hparse', bind, Except.bind, pure, Except.pure]

variable {extract : List Byte → Extraction Single} {uninitialised : ℕ → Single}
  (hextract : ∃ left, extract [] = .failed left)
include hextract

theorem codes_deserializeMatrix {items : List Single} (h : writer.numbers.column items.length) :
    Codes (reader.memory.column items.length) LoadError.IsCaught
      (deserializeMatrix reader (singleFormat extract uninitialised)).parse
      (serializeMatrix writer items) (items.map Number.unsignZero) := by
  have hlongest : InSigned reader.sizeofLong items.length → items.length < 256 ^ reader.sizeofLong := by
    intro hlong
    have hlt := natAbs_lt_of_inSigned hr.pos hlong
    rwa [Int.natAbs_natCast] at hlt
  by_cases hlong : InSigned reader.sizeofLong (-items.length)
  · have hvalue : -((-(items.length : ℤ)).bmod (2 ^ (8 * reader.sizeofLong))) = items.length := by
      rw [bmod_of_inSigned hr.pos hlong, neg_neg]
    refine Codes.mono (codes_rethrow (fun e ↦ LoadError.isCaught_withInfo)
      (codes_after (codes_deserializeRows hw hr h fun _ ↦ hvalue)
        (?_ : Codes (reader.memory.column items.length) _ _ _ _)))
      fun hmemory ↦ ⟨hlongest hmemory.1, hmemory⟩
    rw [if_neg (Int.not_lt.mpr (Int.natCast_nonneg _))]
    simp only [Int.toNat_natCast]
    cases hrequest : reader.allocate 4 items.length with
    | some e => exact codes_throwing (fun hmemory ↦ absurd hmemory.2 (by rw [hrequest]; simp)) _ _
    | none =>
      have hfloats : ∀ x ∈ items, Codes True LoadError.IsCaught
          (deserializeFloat (singleFormat extract uninitialised)).parse (serializeFloat x)
          x.unsignZero := fun x _ ↦ codes_deserializeFloat hextract x
      exact (codes_parseAll hfloats).mono fun _ _ _ ↦ trivial
  · -- a column that is too long is refused at its length
    have hlong' : ¬InSigned reader.sizeofLong items.length := by
      rw [InSigned] at hlong ⊢
      omega
    obtain ⟨value, hneg, hvalue⟩ := exists_negative_rows hr.pos hlong
    refine Codes.mono (codes_rethrow (fun e ↦ LoadError.isCaught_withInfo)
      (codes_after (codes_deserializeRows hw hr h hvalue) (?_ : Codes False _ _ _ _)))
      fun hmemory ↦ absurd hmemory.1 hlong'
    rw [if_pos hneg]
    exact codes_throwing id _ _

omit hw hr in
theorem codes_deserializeFloatPoint {Fits : Prop} (item : FloatPoint Single) :
    Codes Fits LoadError.IsCaught
      (deserializeFloatPoint (singleFormat extract uninitialised)).parse (serializeFloatPoint item)
      (item.map Number.unsignZero) :=
  codes_rethrow (fun _ ↦ LoadError.isCaught_withInfo) (codes_resetOnError
    (codes_congr ((codes_pair (codes_deserializeFloat hextract item.x)
      (codes_deserializeFloat hextract item.y)).mono fun hfits ↦ ⟨hfits, hfits⟩)))

theorem codes_deserializeSplitFeature {item : SplitFeature Single}
    (h : writer.numbers.HasSplit item) :
    Codes (reader.memory.HasSplit item) LoadError.IsCaught
      (deserializeSplitFeature reader (singleFormat extract uninitialised)).parse
      (serializeSplitFeature writer item) (item.map Number.unsignZero) :=
  codes_congr ((codes_pair (codes_deserializeUnsignedLong hw hr h.1)
    (codes_pair (codes_deserializeUnsignedLong hw hr h.2)
      (codes_deserializeFloat hextract item.thresh))).mono fun hfits ↦ ⟨hfits.1, hfits.2, hfits⟩)

theorem codes_deserializeRegressionTree {item : RegressionTree Single}
    (h : writer.numbers.HasTree item) :
    Codes (reader.memory.HasTree item) LoadError.IsCaught
      (deserializeRegressionTree reader (singleFormat extract uninitialised)).parse
      (serializeRegressionTree writer item) (item.map Number.unsignZero) :=
  codes_congr (codes_pair
    (codes_deserializeVector hw hr h.1.1
      fun x hx ↦ codes_deserializeSplitFeature hw hr hextract (h.1.2 x hx))
    (codes_deserializeVector hw hr h.2.1
      fun x hx ↦ codes_deserializeMatrix hw hr hextract (h.2.2 x hx)))

theorem codes_deserializeForests {forests : List (List (RegressionTree Single))}
    (h : writer.numbers.HasVector (3 * writer.sizeofLong)
      (writer.numbers.HasVector (6 * writer.sizeofLong) writer.numbers.HasTree) forests) :
    Codes (reader.memory.HasVector (3 * reader.sizeofLong)
        (reader.memory.HasVector (6 * reader.sizeofLong) reader.memory.HasTree) forests)
      LoadError.IsCaught
      (deserializeVector reader (3 * reader.sizeofLong) []
        (deserializeForest reader (singleFormat extract uninitialised))).parse
      (serializeVector writer (serializeVector writer (serializeRegressionTree writer)) forests)
      (forests.map (·.map (·.map Number.unsignZero))) :=
  codes_deserializeVector hw hr h.1 fun forest hforest ↦
    codes_deserializeVector hw hr (h.2 forest hforest).1 fun tree htree ↦
      codes_deserializeRegressionTree hw hr hextract ((h.2 forest hforest).2 tree htree)

omit hextract in
theorem codes_deserializeAnchorLists {anchor_idx : List (List ℕ)}
    (h : writer.numbers.HasVector (3 * writer.sizeofLong)
      (writer.numbers.HasVector writer.sizeofLong writer.numbers.index) anchor_idx) :
    Codes (reader.memory.HasVector (3 * reader.sizeofLong)
        (reader.memory.HasVector reader.sizeofLong reader.memory.index) anchor_idx)
      LoadError.IsCaught
      (deserializeVector reader (3 * reader.sizeofLong) [] (deserializeAnchors reader)).parse
      (serializeVector writer (serializeVector writer (packUnsigned writer.sizeofLong)) anchor_idx)
      anchor_idx :=
  codes_deserializeVector_self hw hr h.1 fun level hlevel ↦
    codes_deserializeVector_self hw hr (h.2 level hlevel).1 fun i hi ↦
      codes_deserializeUnsignedLong hw hr ((h.2 level hlevel).2 i hi)

theorem codes_deserializeDeltas {deltas : List (FloatPoint Single)}
    (h : writer.numbers.vector 8 deltas.length) :
    Codes (reader.memory.HasVector 8 (fun _ ↦ True) deltas) LoadError.IsCaught
      (deserializeDeltas reader (singleFormat extract uninitialised)).parse
      (serializeVector writer serializeFloatPoint deltas) (deltas.map (·.map Number.unsignZero)) :=
  codes_deserializeVector hw hr h fun point _ ↦ codes_deserializeFloatPoint hextract point

theorem codes_deserializeFields {item : ShapePredictor Single} (h : writer.numbers.HasModel item) :
    Codes (reader.memory.HasModel item) LoadError.IsCaught
      (deserializeFields reader (singleFormat extract uninitialised)).parse
      (serializeFields writer item) item.unsignZeros := by
  obtain ⟨hshape, hforests, hanchors, hdeltas⟩ := h
  exact codes_congr (codes_pair (codes_deserializeMatrix hw hr hextract hshape)
    (codes_pair (codes_deserializeForests hw hr hextract hforests)
      (codes_pair (codes_deserializeAnchorLists hw hr hanchors)
        (codes_deserializeVector hw hr hdeltas.1 fun level hlevel ↦
          codes_deserializeDeltas hw hr hextract (hdeltas.2 level hlevel).1))))

/-- **The code of a predictor.** What is read from it, on whatever platform, is the predictor without
the signs of its zeros; the platforms that have room for the predictor do read it; and no part of the
file will do. -/
theorem codes_deserializeShapePredictor {item : ShapePredictor Single}
    (h : writer.numbers.HasModel item) :
    Codes (reader.memory.HasModel item) LoadError.IsCaught
      (deserializeShapePredictor reader (singleFormat extract uninitialised)).parse
      (serializeShapePredictor writer item) item.unsignZeros := by
  refine (codes_after (codes_deserializeSigned_of_inSigned "int" (by decide) (by decide) (by decide)
    (by decide) (by decide) (by decide)) ?_).mono fun hfits ↦ ⟨hfits, hfits⟩
  rw [if_neg (by decide)]
  exact codes_deserializeFields hw hr hextract h

/-- The header of the file is not in the way: an empty file is not the code of anything. -/
theorem codes_deserializeFirst (filename : String) (bytes : List Byte) {item : ShapePredictor Single}
    (h : writer.numbers.HasModel item) :
    Codes (reader.memory.HasModel item) LoadError.IsCaught
      (deserializeFirst reader (singleFormat extract uninitialised) filename bytes).parse
      (serializeShapePredictor writer item) item.unsignZeros := by
  have hmodel := @codes_deserializeShapePredictor writer reader hw hr extract uninitialised hextract
    item h
  have hcode : ∀ rest, serializeShapePredictor writer item ++ rest ≠ [] := by
    intro rest
    simp [serializeShapePredictor, packSigned]
  refine codes_rethrow (fun _ ↦ LoadError.isCaught_withInfo)
    ⟨fun {rest result} hparse ↦ ?_, fun hfits rest ↦ ?_, fun {cut} hcut hne ↦ ?_⟩
  · simp only [Loader.after, if_neg (hcode rest)] at hparse
    exact hmodel.eq_of_parse hparse
  · simp only [Loader.after, if_neg (hcode rest)]
    exact hmodel.parse_append hfits rest
  · by_cases hempty : cut = []
    · simp only [Loader.after, if_pos hempty]
      exact fun _ ↦ id
    · simp only [Loader.after, if_neg hempty]
      exact hmodel.cut_off hcut hne

end Pieces

/-! ## What a file tells of its predictor and of its writer -/

section File

variable {writer writer' : Platform}

theorem serializeVector_congr {σ : Type} (hw : writer.Sized) (hw' : writer'.Sized)
    {encode encode' : σ → List Byte} {items : List σ}
    (h : items.length < 256 ^ writer.sizeofLong) (h' : items.length < 256 ^ writer'.sizeofLong)
    (hencode : ∀ x ∈ items, encode x = encode' x) :
    serializeVector writer encode items = serializeVector writer' encode' items := by
  rw [serializeVector, serializeVector, packUnsigned_congr hw.pos hw'.pos h h',
    List.flatMap_congr hencode]

theorem serializeRows_congr (hw : writer.Sized) (hw' : writer'.Sized) {rows : ℕ}
    (h : writer.numbers.column rows) (h' : writer'.numbers.column rows) :
    serializeRows writer rows = serializeRows writer' rows := by
  rw [serializeRows, serializeRows,
    packSigned_congr hw.pos hw'.pos (inSigned_neg_of_natCast h) (inSigned_neg_of_natCast h'),
    packSigned_congr hw.pos hw'.pos (inSigned_neg_one _) (inSigned_neg_one _)]

theorem serializeSplitFeature_congr (hw : writer.Sized) (hw' : writer'.Sized)
    {item : SplitFeature Single} (h : writer.numbers.HasSplit item)
    (h' : writer'.numbers.HasSplit item) :
    serializeSplitFeature writer item = serializeSplitFeature writer' item := by
  rw [serializeSplitFeature, serializeSplitFeature, packUnsigned_congr hw.pos hw'.pos h.1 h'.1,
    packUnsigned_congr hw.pos hw'.pos h.2 h'.2]

theorem serializeRegressionTree_congr (hw : writer.Sized) (hw' : writer'.Sized)
    {item : RegressionTree Single} (h : writer.numbers.HasTree item)
    (h' : writer'.numbers.HasTree item) :
    serializeRegressionTree writer item = serializeRegressionTree writer' item := by
  have hsplits := serializeVector_congr hw hw' h.1.1 h'.1.1 fun x hx ↦
    serializeSplitFeature_congr hw hw' (h.1.2 x hx) (h'.1.2 x hx)
  have hleaves := serializeVector_congr hw hw' h.2.1 h'.2.1 fun x hx ↦
    congrArg (· ++ x.flatMap serializeFloat)
      (serializeRows_congr hw hw' (h.2.2 x hx) (h'.2.2 x hx))
  exact congrArg₂ (· ++ ·) hsplits hleaves

/-- **Portable files.** Two platforms that can hold a predictor write the same file for it. -/
theorem serializeShapePredictor_congr (hw : writer.Sized) (hw' : writer'.Sized)
    {item : ShapePredictor Single} (h : writer.numbers.HasModel item)
    (h' : writer'.numbers.HasModel item) :
    serializeShapePredictor writer item = serializeShapePredictor writer' item := by
  have hshape : serializeMatrix writer item.initial_shape = serializeMatrix writer' item.initial_shape := by
    rw [serializeMatrix, serializeMatrix, serializeRows_congr hw hw' h.1 h'.1]
  have hforests := serializeVector_congr hw hw' h.2.1.1 h'.2.1.1 fun forest hforest ↦
    serializeVector_congr hw hw' (h.2.1.2 forest hforest).1 (h'.2.1.2 forest hforest).1
      fun tree htree ↦ serializeRegressionTree_congr hw hw'
        ((h.2.1.2 forest hforest).2 tree htree) ((h'.2.1.2 forest hforest).2 tree htree)
  have hanchors := serializeVector_congr hw hw' h.2.2.1.1 h'.2.2.1.1 fun level hlevel ↦
    serializeVector_congr hw hw' (h.2.2.1.2 level hlevel).1 (h'.2.2.1.2 level hlevel).1
      fun i hi ↦ packUnsigned_congr hw.pos hw'.pos
        ((h.2.2.1.2 level hlevel).2 i hi) ((h'.2.2.1.2 level hlevel).2 i hi)
  have hdeltas := serializeVector_congr hw hw' h.2.2.2.1 h'.2.2.2.1 fun level hlevel ↦
    serializeVector_congr hw hw' (h.2.2.2.2 level hlevel).1 (h'.2.2.2.2 level hlevel).1
      fun point _ ↦ (rfl : serializeFloatPoint point = serializeFloatPoint point)
  rw [serializeShapePredictor, serializeShapePredictor, serializeFields, serializeFields, hshape,
    hforests, hanchors, hdeltas]

/-! ### The signs of zeros -/

theorem serializeVector_map {σ τ : Type} (platform : Platform) (f : σ → τ)
    (encode : τ → List Byte) (items : List σ) :
    serializeVector platform encode (items.map f) = serializeVector platform (fun x ↦ encode (f x)) items := by
  rw [serializeVector, serializeVector, List.length_map, List.flatMap_map]

theorem serializeShapePredictor_unsignZeros (platform : Platform) (item : ShapePredictor Single) :
    serializeShapePredictor platform item.unsignZeros = serializeShapePredictor platform item := by
  simp only [serializeShapePredictor, serializeFields, ShapePredictor.unsignZeros, ShapePredictor.map,
    serializeVector_map, serializeMatrix, serializeRegressionTree, serializeSplitFeature,
    serializeFloatPoint, RegressionTree.map, SplitFeature.map, FloatPoint.map, List.length_map,
    List.flatMap_map, serializeFloat_unsignZero]
  rfl

theorem hasModel_unsignZeros_iff {room : Room} {item : ShapePredictor Single} :
    room.HasModel item.unsignZeros ↔ room.HasModel item := by
  simp only [Room.HasModel, Room.HasVector, Room.HasTree, Room.HasSplit, ShapePredictor.unsignZeros,
    ShapePredictor.map, RegressionTree.map, SplitFeature.map, List.length_map, List.forall_mem_map]

end File

end FacialLandmark
