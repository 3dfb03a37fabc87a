import FacialLandmark.Dlib.ShapePredictor
import FacialLandmark.Library.Requests

/-!
# The memory a model file asks for

`deserialize` reports what it does not understand with a `serialization_error`. The lengths it does
understand it passes on, to `std::vector::resize` and to the memory behind a matrix, and what those
throw is not a `serialization_error`. So of all the ways in which a model file can be broken only one
leads to another exception: a length for which the memory is refused, before a single element of it is
read. `failsBy_deserializeShapePredictor` says so for the whole format.
-/

namespace FacialLandmark

open InPlace

/-- What the reading of a model asks the C++ library for: the memory of a `std::vector` with elements
of `sizeofT` bytes, or of a column of `float`s. -/
inductive Request where
  | vector (sizeofT size : ℕ)
  | matrix (rows : ℤ)
  deriving DecidableEq

def Platform.Refuses (platform : Platform) : Request → Prop
  | .vector sizeofT size => platform.allocate sizeofT size ≠ none
  | .matrix rows => rows < 0 ∨ platform.allocate 4 rows.toNat ≠ none

def LoadError.IsStd : LoadError → Prop
  | .serialization_error _ => False
  | .std _ => True

theorem LoadError.isStd_withInfo (f : String → String) (e : LoadError) :
    (e.withInfo f).IsStd ↔ e.IsStd := by
  cases e <;> rfl

variable {F : Type} (platform : Platform) (format : FloatFormat F)

/-! ## The requests, along the format -/

section Requests

/-- A vector asks for its memory as soon as its length is known, and then for what its elements need. -/
def vectorRequests {σ : Type} (sizeofT : ℕ) (element : Loader Byte LoadError σ)
    (t : Requests Byte Request) : Requests Byte Request :=
  .after (deserializeUnsignedLong platform).parse fun size ↦
    .ask (.vector sizeofT size) (.all element.parse t size)

def matrixRequests : Requests Byte Request :=
  .after (deserializeRows platform) fun rows ↦ .ask (.matrix rows) .nothing

def regressionTreeRequests : Requests Byte Request :=
  .andThen
    (deserializeVector platform (3 * platform.sizeofLong) ⟨0, 0, format.zero⟩
      (deserializeSplitFeature platform format)).parse
    (vectorRequests platform (3 * platform.sizeofLong) (deserializeSplitFeature platform format)
      .nothing)
    (vectorRequests platform (3 * platform.sizeofLong) (deserializeMatrix platform format)
      (matrixRequests platform))

def deserializeForest : Loader Byte LoadError (List (RegressionTree F)) :=
  deserializeVector platform (6 * platform.sizeofLong) ⟨[], []⟩
    (deserializeRegressionTree platform format)

def deserializeAnchors : Loader Byte LoadError (List ℕ) :=
  deserializeVector platform platform.sizeofLong 0 (deserializeUnsignedLong platform)

def deserializeDeltas : Loader Byte LoadError (List (FloatPoint F)) :=
  deserializeVector platform 8 (.origin format) (deserializeFloatPoint format)

def forestRequests : Requests Byte Request :=
  vectorRequests platform (6 * platform.sizeofLong) (deserializeRegressionTree platform format)
    (regressionTreeRequests platform format)

def fieldsRequests : Requests Byte Request :=
  .andThen (deserializeMatrix platform format).parse (matrixRequests platform)
    (.andThen
      (deserializeVector platform (3 * platform.sizeofLong) []
        (deserializeForest platform format)).parse
      (vectorRequests platform (3 * platform.sizeofLong) (deserializeForest platform format)
        (forestRequests platform format))
      (.andThen
        (deserializeVector platform (3 * platform.sizeofLong) []
          (deserializeAnchors platform)).parse
        (vectorRequests platform (3 * platform.sizeofLong) (deserializeAnchors platform)
          (vectorRequests platform platform.sizeofLong (deserializeUnsignedLong platform) .nothing))
        (vectorRequests platform (3 * platform.sizeofLong) (deserializeDeltas platform format)
          (vectorRequests platform 8 (deserializeFloatPoint format) .nothing))))

/-- The requests of the four fields are made behind a version number that is known. -/
def modelRequests : Requests Byte Request :=
  .after (deserializeSigned "int" 4) fun version ↦
    if version ≠ 1 then .nothing else fieldsRequests platform format

end Requests

/-! ## What throws no exception of the library -/

theorem not_endsBadly_deserializeSigned (type : String) (sizeofT : ℕ) (input : List Byte) :
    ¬EndsBadly LoadError.IsStd (deserializeSigned type sizeofT input) := by
  rw [deserializeSigned]
  cases unpackSigned sizeofT input <;> exact id

theorem not_endsBadly_deserializeUnsignedLong (input : List Byte) :
    ¬EndsBadly LoadError.IsStd ((deserializeUnsignedLong platform).parse input) := by
  refine not_endsBadly_leaf (fun input e left hread ↦ ?_) input
  cases hunpack : unpackUnsigned platform.sizeofLong input with
  | none =>
    rw [hunpack, Read.failed.injEq] at hread
    rw [← hread.1]
    exact id
  | some result =>
    rw [hunpack] at hread
    exact absurd hread (by simp)

theorem not_endsBadly_deserializeFloatDetails (input : List Byte) :
    ¬EndsBadly LoadError.IsStd (deserializeFloatDetails input) :=
  not_endsBadly_bind (not_endsBadly_deserializeSigned "int64" 8 input) fun result ↦
    not_endsBadly_bind (not_endsBadly_deserializeSigned "short" 2 result.2) fun _ ↦
      not_endsBadly_ok

theorem not_endsBadly_deserializeRows (input : List Byte) :
    ¬EndsBadly LoadError.IsStd (deserializeRows platform input) := by
  refine not_endsBadly_bind (not_endsBadly_deserializeSigned "long" _ input) fun result ↦
    not_endsBadly_bind (not_endsBadly_deserializeSigned "long" _ result.2) fun result' ↦ ?_
  simp only
  split <;> split <;> exact id

theorem not_endsBadly_deserializeFloat (input : List Byte) :
    ¬EndsBadly LoadError.IsStd ((deserializeFloat format).parse input) := by
  refine not_endsBadly_leaf (fun input e left hread ↦ ?_) input
  split at hread
  · have hdetails := not_endsBadly_deserializeFloatDetails input
    cases hparse : deserializeFloatDetails input with
    | error e' =>
      rw [hparse] at hread hdetails
      rw [Read.failed.injEq] at hread
      rw [← hread.1, LoadError.isStd_withInfo]
      exact hdetails
    | ok result =>
      rw [hparse] at hread
      exact absurd hread (by simp)
  · -- the older format reports every problem with the one error
    rw [oldDeserializeFloatingPoint] at hread
    split at hread
    · exact absurd hread (by simp)
    · rw [Read.failed.injEq] at hread
      rw [← hread.1]
      exact id
    · rw [Read.failed.injEq] at hread
      rw [← hread.1]
      exact id

/-! ## The format -/

theorem failsBy_deserializeUnsignedLong :
    FailsBy LoadError.IsStd platform.Refuses (deserializeUnsignedLong platform).parse .nothing :=
  failsBy_nothing (not_endsBadly_deserializeUnsignedLong platform)

theorem failsBy_deserializeFloat :
    FailsBy LoadError.IsStd platform.Refuses (deserializeFloat format).parse .nothing :=
  failsBy_nothing (not_endsBadly_deserializeFloat format)

variable {platform format}

theorem failsBy_deserializeFloatPoint :
    FailsBy LoadError.IsStd platform.Refuses (deserializeFloatPoint format).parse .nothing := by
  have hpair := failsBy_pair (failsBy_deserializeFloat platform format)
    (failsBy_deserializeFloat platform format)
  rw [Requests.andThen_nothing] at hpair
  exact failsBy_rethrow (LoadError.isStd_withInfo _) (failsBy_resetOnError (failsBy_congr hpair))

theorem failsBy_deserializeSplitFeature :
    FailsBy LoadError.IsStd platform.Refuses (deserializeSplitFeature platform format).parse
      .nothing := by
  have hfields := failsBy_pair (failsBy_deserializeUnsignedLong platform)
    (failsBy_pair (failsBy_deserializeUnsignedLong platform)
      (failsBy_deserializeFloat platform format))
  rw [Requests.andThen_nothing, Requests.andThen_nothing] at hfields
  exact failsBy_congr hfields

theorem failsBy_deserializeVector {σ : Type} {sizeofT : ℕ} {init : σ}
    {element : Loader Byte LoadError σ} {t : Requests Byte Request}
    (h : FailsBy LoadError.IsStd platform.Refuses element.parse t) :
    FailsBy LoadError.IsStd platform.Refuses
      (deserializeVector platform sizeofT init element).parse
      (vectorRequests platform sizeofT element t) := by
  refine failsBy_rethrow (LoadError.isStd_withInfo _)
    (failsBy_after (not_endsBadly_deserializeUnsignedLong platform) fun size ↦ ?_)
  cases hrequest : platform.allocate sizeofT size with
  | some e =>
    have hrefused : platform.Refuses (.vector sizeofT size) := by simp [Platform.Refuses, hrequest]
    have hstd : (LoadError.std e).IsStd := trivial
    exact failsBy_ask_of_refused hrefused hstd _
  | none =>
    have hgranted : ¬platform.Refuses (.vector sizeofT size) := by simp [Platform.Refuses, hrequest]
    exact failsBy_ask_of_granted hgranted (failsBy_parseAll h size)

theorem failsBy_deserializeMatrix :
    FailsBy LoadError.IsStd platform.Refuses (deserializeMatrix platform format).parse
      (matrixRequests platform) := by
  refine failsBy_rethrow (LoadError.isStd_withInfo _)
    (failsBy_after (not_endsBadly_deserializeRows platform) fun rows ↦ ?_)
  by_cases hnegative : rows < 0
  · have hrefused : platform.Refuses (.matrix rows) := Or.inl hnegative
    have hstd : (LoadError.std .bad_array_new_length).IsStd := trivial
    rw [if_pos hnegative]
    exact failsBy_ask_of_refused hrefused hstd _
  · rw [if_neg hnegative]
    cases hrequest : platform.allocate 4 rows.toNat with
    | some e =>
      have hrefused : platform.Refuses (.matrix rows) := Or.inr (by rw [hrequest]; simp)
      have hstd : (LoadError.std e).IsStd := trivial
      exact failsBy_ask_of_refused hrefused hstd _
    | none =>
      have hgranted : ¬platform.Refuses (.matrix rows) := by
        simp [Platform.Refuses, hnegative, hrequest]
      have hfloats := failsBy_parseAll (failsBy_deserializeFloat platform format) rows.toNat
      rw [Requests.all_nothing] at hfloats
      exact failsBy_ask_of_granted hgranted hfloats

theorem failsBy_deserializeRegressionTree :
    FailsBy LoadError.IsStd platform.Refuses (deserializeRegressionTree platform format).parse
      (regressionTreeRequests platform format) :=
  failsBy_congr (failsBy_pair (failsBy_deserializeVector failsBy_deserializeSplitFeature)
    (failsBy_deserializeVector failsBy_deserializeMatrix))

theorem failsBy_deserializeForest :
    FailsBy LoadError.IsStd platform.Refuses (deserializeForest platform format).parse
      (forestRequests platform format) :=
  failsBy_deserializeVector failsBy_deserializeRegressionTree

theorem failsBy_deserializeFields :
    FailsBy LoadError.IsStd platform.Refuses (deserializeFields platform format).parse
      (fieldsRequests platform format) :=
  failsBy_congr (failsBy_pair failsBy_deserializeMatrix
    (failsBy_pair (failsBy_deserializeVector failsBy_deserializeForest)
      (failsBy_pair
        (failsBy_deserializeVector
          (failsBy_deserializeVector (failsBy_deserializeUnsignedLong platform)))
        (failsBy_deserializeVector (failsBy_deserializeVector failsBy_deserializeFloatPoint)))))

/-- **Exceptions of the library** come out of the reading of a model exactly when it makes a request
that is refused. -/
theorem failsBy_deserializeShapePredictor :
    FailsBy LoadError.IsStd platform.Refuses (deserializeShapePredictor platform format).parse
      (modelRequests platform format) := by
  refine failsBy_after (not_endsBadly_deserializeSigned "int" 4) fun version ↦ ?_
  by_cases hversion : version ≠ 1
  · rw [if_pos hversion, if_pos hversion]
    exact failsBy_nothing fun _ ↦ id
  · rw [if_neg hversion, if_neg hversion]
    exact failsBy_deserializeFields

end FacialLandmark
