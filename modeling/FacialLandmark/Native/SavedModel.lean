import FacialLandmark.App.ModelFile
import FacialLandmark.Dlib.Accepted
import FacialLandmark.Native.DetectLandmark
import FacialLandmark.Native.LoadModel
import FacialLandmark.Predict.Transport

/-!
# Loading a model that was saved

The file at the model path is a predictor written by `serialize`, or what an interrupted copy has left
of it. This is the whole way of a model: trained and written on one machine, copied from the assets
of the app, in as many attempts as it takes, and loaded by `loadModel` on a device. What the device
detects with it is what the model detects where it was trained.
-/

namespace FacialLandmark

open InPlace BinaryFloat

structure Loaded {F : Type} (model : ShapePredictor F) (call : Call F) : Prop where
  returned : call.ending = .returned
  globals : call.globals = { shapePredictor := model, mutexLocked := false }
  logged : .log "JNI: model loaded" ∈ call.actions

/-- The call has come back and has said that it failed. It still holds the mutex. -/
structure Failed {F : Type} (call : Call F) : Prop where
  returned : call.ending = .returned
  mutex_locked : call.globals.mutexLocked = true
  logged : ∃ info, .log ("JNI: failed to model -> " ++ info) ∈ call.actions

section Calls

variable {F : Type} {platform : Platform} {format : FloatFormat F} {path : String}
  {file : Option (List Byte)} {s : NativeState F}

theorem loaded_of_parse {model : ShapePredictor F} {rest : List Byte} (hfree : s.mutexLocked = false)
    (h : parseFile platform format path file = .ok (model, rest)) :
    Loaded model (loadModel platform format path file s) := by
  have hload := deserializeFile_of_parse h s.shapePredictor
  rw [loadModel, hfree, hload]
  exact ⟨rfl, rfl, by simp⟩

theorem failed_of_parse_eq_error {e : LoadError} (hfree : s.mutexLocked = false)
    (h : parseFile platform format path file = .error e) (hcaught : e.IsCaught) :
    Failed (loadModel platform format path file s) := by
  cases e with
  | std e => exact absurd trivial hcaught
  | serialization_error info =>
    have hload := deserializeFile_of_parse_eq_error h s.shapePredictor
    simp only [loadModel, hfree]
    rw [hload]
    exact ⟨rfl, rfl, info, by simp⟩

theorem exists_parse_of_loaded {model : ShapePredictor F}
    (h : Loaded model (loadModel platform format path file s)) :
    ∃ rest, parseFile platform format path file = .ok (model, rest) := by
  cases hlocked : s.mutexLocked with
  | true =>
    have hreturned := h.returned
    rw [loadModel, if_pos hlocked] at hreturned
    exact absurd hreturned (by simp)
  | false =>
    cases hparse : parseFile platform format path file with
    | ok result =>
      have hglobals := (loaded_of_parse hlocked hparse).globals
      rw [h.globals, NativeState.mk.injEq] at hglobals
      exact ⟨result.2, by rw [hglobals.1]⟩
    | error e =>
      cases e with
      | serialization_error info =>
        have hglobals := (loadModel_of_parse_eq_error hlocked hparse).2.1
        rw [h.globals] at hglobals
        exact absurd hglobals (by simp)
      | std e =>
        have hload := deserializeFile_of_parse_eq_error hparse s.shapePredictor
        have hreturned := h.returned
        simp only [loadModel, hlocked] at hreturned
        rw [hload] at hreturned
        exact absurd hreturned (by simp)

end Calls

/-! ## One file -/

section Files

variable {writer reader : Platform} {extract : List Byte → Extraction Single}
  {uninitialised : ℕ → Single} {path : String} {model : ShapePredictor Single}
  {s : NativeState Single}

theorem parseFile_serializeShapePredictor_append (hw : writer.Sized) (hr : reader.Sized)
    (hextract : ∃ left, extract [] = .failed left) (hwrite : writer.numbers.HasModel model)
    (hread : reader.memory.HasModel model) (path : String) (rest : List Byte) :
    parseFile reader (singleFormat extract uninitialised) path
      (some (serializeShapePredictor writer model ++ rest)) = .ok (model.unsignZeros, rest) :=
  (codes_deserializeFirst hw hr hextract path _ hwrite).parse_append hread rest

/-- **The round trip of a model.** A device that has room for the model loads the predictor that was
written, without the signs of its zeros, whatever predictor was there before. -/
theorem loaded_serializeShapePredictor (hw : writer.Sized) (hr : reader.Sized)
    (hextract : ∃ left, extract [] = .failed left) (hwrite : writer.numbers.HasModel model)
    (hread : reader.memory.HasModel model) (hfree : s.mutexLocked = false) (rest : List Byte) :
    Loaded model.unsignZeros (loadModel reader (singleFormat extract uninitialised) path
      (some (serializeShapePredictor writer model ++ rest)) s) :=
  loaded_of_parse hfree
    (parseFile_serializeShapePredictor_append hw hr hextract hwrite hread path rest)

/-- From a computer to a phone, over an older model. -/
theorem loaded_serializeShapePredictor_stump :
    Loaded (ShapePredictor.stump (ofInt binary32 0)).unsignZeros
      (loadModel phone (singleFormat noText fun _ ↦ .nan) "model.dat"
        (some (serializeShapePredictor roomy (.stump (ofInt binary32 0)) ++ [0x2A#8]))
        { shapePredictor := .stump .nan, mutexLocked := false }) :=
  loaded_serializeShapePredictor sized_roomy sized_phone ⟨none, rfl⟩ (hasModel_stump _).1
    (hasModel_stump _).2 rfl [0x2A#8]

/-- **No other model.** Whatever the device, its memory and the size of its `long`: if it loads
something from the file of a model, it is this model. -/
theorem eq_of_loaded_serializeShapePredictor (hw : writer.Sized) (hr : reader.Sized)
    (hextract : ∃ left, extract [] = .failed left) (hwrite : writer.numbers.HasModel model)
    {loaded : ShapePredictor Single} {rest : List Byte}
    (h : Loaded loaded (loadModel reader (singleFormat extract uninitialised) path
      (some (serializeShapePredictor writer model ++ rest)) s)) : loaded = model.unsignZeros := by
  obtain ⟨rest', hparse⟩ := exists_parse_of_loaded h
  have hresult := (codes_deserializeFirst hw hr hextract path _ hwrite).eq_of_parse hparse
  exact congrArg Prod.fst hresult

theorem eq_of_loaded_serializeShapePredictor_stump :
    ∃ loaded, Loaded loaded (loadModel phone (singleFormat noText fun _ ↦ .nan) "model.dat"
        (some (serializeShapePredictor roomy (.stump (ofInt binary32 0)) ++ []))
        { shapePredictor := .empty, mutexLocked := false }) ∧
      loaded = (ShapePredictor.stump (ofInt binary32 0)).unsignZeros := by
  have hloaded := @loaded_of_parse Single phone (singleFormat noText fun _ ↦ .nan) "model.dat" _
    { shapePredictor := .empty, mutexLocked := false } _ _ rfl
    (parseFile_serializeShapePredictor_append sized_roomy sized_phone ⟨none, rfl⟩
      (hasModel_stump (ofInt binary32 0)).1 (hasModel_stump _).2 "model.dat" [])
  exact ⟨_, hloaded, eq_of_loaded_serializeShapePredictor sized_roomy sized_phone ⟨none, rfl⟩
    (hasModel_stump _).1 hloaded⟩

/-- **A file that is cut off** is not loaded, and a device that would have had room for the model says
so and keeps the mutex. -/
theorem failed_of_prefix_serializeShapePredictor (hw : writer.Sized) (hr : reader.Sized)
    (hextract : ∃ left, extract [] = .failed left) (hwrite : writer.numbers.HasModel model)
    (hfree : s.mutexLocked = false) {cut : List Byte}
    (hcut : cut <+: serializeShapePredictor writer model)
    (hne : cut ≠ serializeShapePredictor writer model) :
    (∀ loaded, ¬Loaded loaded
        (loadModel reader (singleFormat extract uninitialised) path (some cut) s)) ∧
      (reader.memory.HasModel model →
        Failed (loadModel reader (singleFormat extract uninitialised) path (some cut) s)) := by
  have hcodes := @codes_deserializeFirst writer reader hw hr extract uninitialised hextract path cut
    model hwrite
  obtain ⟨e, hparse, hcaught⟩ := hcodes.exists_error_of_cut hcut hne
  have hfile : parseFile reader (singleFormat extract uninitialised) path (some cut) = .error e :=
    hparse
  refine ⟨fun loaded hloaded ↦ ?_, fun hread ↦ failed_of_parse_eq_error hfree hfile (hcaught hread)⟩
  obtain ⟨rest, hparse'⟩ := exists_parse_of_loaded hloaded
  rw [hfile] at hparse'
  exact absurd hparse' (by simp)

/-- A file that ends behind the version number. -/
theorem failed_of_version_only :
    (∀ loaded, ¬Loaded loaded (loadModel phone (singleFormat noText fun _ ↦ .nan) "model.dat"
        (some (packSigned 4 1)) { shapePredictor := .empty, mutexLocked := false })) ∧
      (phone.memory.HasModel (.stump (ofInt binary32 0)) →
        Failed (loadModel phone (singleFormat noText fun _ ↦ .nan) "model.dat"
          (some (packSigned 4 1)) { shapePredictor := .empty, mutexLocked := false })) :=
  failed_of_prefix_serializeShapePredictor sized_roomy sized_phone ⟨none, rfl⟩ (hasModel_stump _).1
    rfl (List.prefix_append ..) (by
      simp [serializeShapePredictor, serializeFields, serializeMatrix, serializeRows, packSigned])

/-- **Saving what was loaded.** Whatever the file was that a predictor has come from, written by
`serialize` on the same machine it can be loaded again, by any later call that gets the mutex. The
library must not grant a column longer than a `long` can say. -/
theorem loaded_again (hr : reader.Sized) (hextract : ∃ left, extract [] = .failed left)
    (hmax : ∀ rows, reader.allocate 4 rows = none → InSigned reader.sizeofLong rows)
    {file : Option (List Byte)}
    (hloaded : Loaded model (loadModel reader (singleFormat extract uninitialised) path file s))
    {s' : NativeState Single} (hfree : s'.mutexLocked = false) (path' : String) (rest : List Byte) :
    Loaded model.unsignZeros (loadModel reader (singleFormat extract uninitialised) path'
      (some (serializeShapePredictor reader model ++ rest)) s') := by
  obtain ⟨rest', hparse⟩ := exists_parse_of_loaded hloaded
  have hread : reader.memory.HasModel model := hasModel_of_parseFile hmax hparse
  exact loaded_of_parse hfree (parseFile_serializeShapePredictor_append hr hr hextract
    (hasModel_numbers_of_memory hread) hread path' rest)

theorem loaded_again_stump :
    ∃ model, Loaded model (loadModel phone (singleFormat noText fun _ ↦ .nan) "model.dat"
        (some (serializeShapePredictor roomy (.stump (ofInt binary32 0)) ++ []))
        { shapePredictor := .empty, mutexLocked := false }) ∧
      Loaded model.unsignZeros (loadModel phone (singleFormat noText fun _ ↦ .nan) "copy.dat"
        (some (serializeShapePredictor phone model ++ []))
        { shapePredictor := .empty, mutexLocked := false }) := by
  have hloaded := @loaded_of_parse Single phone (singleFormat noText fun _ ↦ .nan) "model.dat" _
    { shapePredictor := .empty, mutexLocked := false } _ _ rfl
    (parseFile_serializeShapePredictor_append sized_roomy sized_phone ⟨none, rfl⟩
      (hasModel_stump (ofInt binary32 0)).1 (hasModel_stump _).2 "model.dat" [])
  have hmax : ∀ rows : ℕ, phone.allocate 4 rows = none → InSigned phone.sizeofLong rows := by
    intro rows hrows
    simp only [phone, ite_eq_left_iff, reduceCtorEq, imp_false, not_not] at hrows
    simp only [phone, InSigned]
    omega
  exact ⟨_, hloaded, loaded_again sized_phone ⟨none, rfl⟩ hmax hloaded rfl "copy.dat" []⟩

end Files

/-! ## What it detects -/

section Detection

variable {writer reader : Platform} {extract : List Byte → Extraction Single}
  {uninitialised : ℕ → Single} {path : String}
  {model : ShapePredictor Single} {s : NativeState Single}
  {find_similarity_transform :
    List (FloatPoint Single) → List (FloatPoint Single) → Matrix22 Single}
  {unnormalizing_tform : Rectangle → FloatPoint Single → Point}

/-- **The same detections.** A model that was written on one machine and loaded on another finds the
landmarks that the trained one finds, in every bitmap, although the signs of its zeros are gone. -/
theorem detectLandmark_loadModel_serializeShapePredictor
    (h : IgnoreZeroSigns find_similarity_transform unnormalizing_tform)
    (hw : writer.Sized) (hr : reader.Sized) (hextract : ∃ left, extract [] = .failed left)
    (hwrite : writer.numbers.HasModel model) (hread : reader.memory.HasModel model)
    (hfree : s.mutexLocked = false) (rest : List Byte) (bmp : Bitmap) :
    detectLandmark (singleArithmetic find_similarity_transform unnormalizing_tform)
        (loadModel reader (singleFormat extract uninitialised) path
          (some (serializeShapePredictor writer model ++ rest)) s).globals.shapePredictor bmp
      = detectLandmark (singleArithmetic find_similarity_transform unnormalizing_tform) model bmp := by
  have hloaded := @loaded_of_parse Single reader (singleFormat extract uninitialised) path _ s _ _ hfree
    (parseFile_serializeShapePredictor_append hw hr hextract hwrite hread path rest)
  rw [hloaded.globals]
  simp only [detectLandmark, apply_unsignZeros h]

/-- A model with negative zeros in it. -/
theorem detectLandmark_loadModel_serializeShapePredictor_stump :
    detectLandmark uprightArithmetic (loadModel phone (singleFormat noText fun _ ↦ .nan) "model.dat"
        (some (serializeShapePredictor roomy
          (.stump (.finite true 0 binary32.emin (canonical_zero binary32))) ++ []))
        { shapePredictor := .empty, mutexLocked := false }).globals.shapePredictor
        (solidBitmap 2 2 0xff102030#32)
      = detectLandmark uprightArithmetic
        (.stump (.finite true 0 binary32.emin (canonical_zero binary32)))
        (solidBitmap 2 2 0xff102030#32) := by
  refine detectLandmark_loadModel_serializeShapePredictor ⟨fun _ _ ↦ rfl, fun rect p ↦ ?_⟩ sized_roomy
    sized_phone ⟨none, rfl⟩ (hasModel_stump _).1 (hasModel_stump _).2 rfl [] _
  simp only [FloatPoint.map, Number.value_unsignZero]

end Detection

/-! ## Files and models -/

theorem hasModel_roomy {platform : Platform} (h : platform.Sized) {model : ShapePredictor Single}
    (hmodel : platform.numbers.HasModel model) : roomy.memory.HasModel model := by
  have hpow : ∀ {v : ℕ}, v < 256 ^ platform.sizeofLong → v < 256 ^ 8 :=
    fun hv ↦ hv.trans_le (Nat.pow_le_pow_right (by decide) h.le)
  have hlong : (2 : ℤ) ^ (8 * platform.sizeofLong - 1) ≤ 2 ^ (8 * 8 - 1) :=
    pow_le_pow_right₀ (by decide) (Nat.sub_le_sub_right (Nat.mul_le_mul_left 8 h.le) 1)
  have hvector : ∀ {sizeofT sizeofT' size : ℕ}, platform.numbers.vector sizeofT size →
      roomy.memory.vector sizeofT' size := fun hv ↦ ⟨hpow hv, rfl⟩
  have hcolumn : ∀ {rows : ℕ}, platform.numbers.column rows → roomy.memory.column rows := by
    intro rows hrows
    have hpos : (0 : ℤ) < 2 ^ (8 * 8 - 1) := by positivity
    exact ⟨⟨by simp only [roomy]; omega, hrows.2.trans_le hlong⟩, rfl⟩
  exact hmodel.mono hvector hcolumn hpow

/-- **A file and its model.** Two files that begin the same, whoever wrote them, have the same model in
them, but for the signs of zeros, and the same behind it; and two models with this in common have the
same file on any two platforms. -/
theorem serializeShapePredictor_append_eq_iff {writer writer' : Platform} (hw : writer.Sized)
    (hw' : writer'.Sized) {model model' : ShapePredictor Single}
    (h : writer.numbers.HasModel model) (h' : writer'.numbers.HasModel model')
    {rest rest' : List Byte} :
    serializeShapePredictor writer model ++ rest = serializeShapePredictor writer' model' ++ rest'
      ↔ model.unsignZeros = model'.unsignZeros ∧ rest = rest' := by
  constructor
  · intro heq
    have hextract : ∃ left, noText [] = .failed left := ⟨none, rfl⟩
    have hcodes := @codes_deserializeShapePredictor writer roomy hw sized_roomy noText
      (fun _ ↦ .nan) hextract model h
    have hcodes' := @codes_deserializeShapePredictor writer' roomy hw' sized_roomy noText
      (fun _ ↦ .nan) hextract model' h'
    exact hcodes.unique hcodes' (hasModel_roomy hw h) heq
  · rintro ⟨heq, rfl⟩
    have hzeros : writer'.numbers.HasModel model := by
      rw [← hasModel_unsignZeros_iff, heq, hasModel_unsignZeros_iff]
      exact h'
    have hsame : serializeShapePredictor writer model = serializeShapePredictor writer' model' :=
      calc serializeShapePredictor writer model
          = serializeShapePredictor writer' model := serializeShapePredictor_congr hw hw' h hzeros
        _ = serializeShapePredictor writer' model.unsignZeros :=
            (serializeShapePredictor_unsignZeros writer' model).symm
        _ = serializeShapePredictor writer' model' := by
            rw [heq, serializeShapePredictor_unsignZeros]
    rw [hsame]

/-- A zero with a sign, on one platform, and one without, on another. -/
theorem serializeShapePredictor_append_eq_iff_zero :
    serializeShapePredictor roomy (.stump (.finite true 0 binary32.emin (canonical_zero binary32)))
          ++ [0x2A#8]
        = serializeShapePredictor phone
          (.stump (.finite false 0 binary32.emin (canonical_zero binary32))) ++ [0x2A#8] ↔
      (ShapePredictor.stump (Number.finite true 0 binary32.emin (canonical_zero binary32))).unsignZeros
        = (ShapePredictor.stump
            (Number.finite false 0 binary32.emin (canonical_zero binary32))).unsignZeros ∧
      [0x2A#8] = [0x2A#8] :=
  serializeShapePredictor_append_eq_iff sized_roomy sized_phone (hasModel_stump _).1
    (hasModel_numbers_of_memory (hasModel_stump _).2)

end FacialLandmark
