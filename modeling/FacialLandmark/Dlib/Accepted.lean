import FacialLandmark.Dlib.Save
import FacialLandmark.Library.Yields

/-!
# What is accepted as a predictor

Whatever bytes a predictor comes from, its indices are numbers of the reader's types and its lengths
are lengths for which the reader has got the memory. These are all the conditions there are for
writing the predictor and reading it again.
-/

namespace FacialLandmark

open InPlace BinaryFloat

section Accepted

variable {F : Type} {reader : Platform} {format : FloatFormat F}

theorem yields_deserializeUnsignedLong :
    Yields reader.memory.index (deserializeUnsignedLong reader).parse := by
  intro input item rest hparse
  simp only [deserializeUnsignedLong, Loader.leaf] at hparse
  cases hunpack : unpackUnsigned reader.sizeofLong input with
  | none =>
    rw [hunpack] at hparse
    exact absurd hparse (by simp)
  | some result =>
    rw [hunpack, Except.ok.injEq, Prod.mk.injEq] at hparse
    rw [← hparse.1]
    exact lt_of_unpackUnsigned hunpack

theorem yields_deserializeVector {σ : Type} {P : σ → Prop} {sizeofT : ℕ} {init : σ}
    {element : Loader Byte LoadError σ} (h : Yields P element.parse) :
    Yields (reader.memory.HasVector sizeofT P)
      (deserializeVector reader sizeofT init element).parse := by
  refine yields_rethrow (yields_after yields_deserializeUnsignedLong fun size hsize ↦ ?_)
  cases hrequest : reader.allocate sizeofT size with
  | some e => exact yields_throwing (LoadError.std e)
  | none =>
    exact (yields_parseAll h size).mono fun items hitems ↦
      ⟨hitems.1.symm ▸ ⟨hsize, hrequest⟩, hitems.2⟩

theorem yields_deserializeSplitFeature :
    Yields reader.memory.HasSplit (deserializeSplitFeature reader format).parse :=
  have hthresh : Yields (fun _ : F ↦ True) (deserializeFloat format).parse := fun _ _ _ _ ↦ trivial
  yields_congr ((yields_pair yields_deserializeUnsignedLong
    (yields_pair yields_deserializeUnsignedLong hthresh)).mono
      fun _ hitem ↦ ⟨hitem.1, hitem.2.1⟩)

-- a column for which there is memory has a length that is a `long`
variable (hmax : ∀ rows, reader.allocate 4 rows = none → InSigned reader.sizeofLong rows)
include hmax

theorem yields_deserializeMatrix :
    Yields (fun items : List F ↦ reader.memory.column items.length)
      (deserializeMatrix reader format).parse := by
  refine yields_rethrow (yields_after (Q := fun _ ↦ True) (fun _ _ _ _ ↦ trivial) fun rows _ ↦ ?_)
  by_cases hneg : rows < 0
  · rw [if_pos hneg]
    exact yields_throwing _
  · rw [if_neg hneg]
    cases hrequest : reader.allocate 4 rows.toNat with
    | some e => exact yields_throwing (LoadError.std e)
    | none =>
      have hfloats : Yields (fun _ : F ↦ True) (deserializeFloat format).parse :=
        fun _ _ _ _ ↦ trivial
      exact (yields_parseAll hfloats rows.toNat).mono fun items hitems ↦
        hitems.1.symm ▸ ⟨hmax _ hrequest, hrequest⟩

theorem yields_deserializeShapePredictor :
    Yields reader.memory.HasModel (deserializeShapePredictor reader format).parse := by
  refine yields_after (Q := fun _ ↦ True) (fun _ _ _ _ ↦ trivial) fun version _ ↦ ?_
  by_cases hversion : version ≠ 1
  · rw [if_pos hversion]
    exact yields_throwing _
  · rw [if_neg hversion]
    have htree : Yields reader.memory.HasTree (deserializeRegressionTree reader format).parse :=
      yields_congr (yields_pair (yields_deserializeVector yields_deserializeSplitFeature)
        (yields_deserializeVector (yields_deserializeMatrix hmax)))
    have hpoints : Yields (fun _ : FloatPoint F ↦ True) (deserializeFloatPoint format).parse :=
      fun _ _ _ _ ↦ trivial
    exact yields_congr (yields_pair (yields_deserializeMatrix hmax)
      (yields_pair (yields_deserializeVector (yields_deserializeVector htree))
        (yields_pair
          (yields_deserializeVector (yields_deserializeVector yields_deserializeUnsignedLong))
          (yields_deserializeVector (yields_deserializeVector hpoints)))))

theorem hasModel_of_parseFile {path : String} {file : Option (List Byte)} {model : ShapePredictor F}
    {rest : List Byte} (h : parseFile reader format path file = .ok (model, rest)) :
    reader.memory.HasModel model := by
  cases file with
  | none => exact absurd h (by simp [parseFile])
  | some bytes =>
    refine yields_rethrow (yields_after (Q := fun _ ↦ True) (fun _ _ _ _ ↦ trivial) fun _ _ ↦ ?_) _ _ _ h
    exact yields_deserializeShapePredictor hmax

end Accepted

/-- What there is memory for can be written. -/
theorem hasModel_numbers_of_memory {F : Type} {platform : Platform} {model : ShapePredictor F}
    (h : platform.memory.HasModel model) : platform.numbers.HasModel model := by
  have hvector : ∀ {sizeofT sizeofT' size : ℕ}, platform.memory.vector sizeofT size →
      platform.numbers.vector sizeofT' size := fun hv ↦ hv.1
  have hcolumn : ∀ {rows : ℕ}, platform.memory.column rows → platform.numbers.column rows :=
    fun hrows ↦ hrows.1
  exact h.mono hvector hcolumn id

end FacialLandmark
