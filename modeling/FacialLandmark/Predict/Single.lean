import FacialLandmark.Dlib.FloatDetails
import FacialLandmark.Library.BinaryArith
import FacialLandmark.Predict.Bounds

/-!
# Trees of `float`s

The features of a level are bytes, and what a test compares with its threshold is the difference of
two of them. Nothing of this is rounded, so a tree goes the way that it would go in exact arithmetic.
The leaf it selects depends on the differences of the bytes alone: light that falls on all of them
alike does not change it.

The sums that make up a shape are rounded, and so are the two fits, which remain parameters.
-/

namespace FacialLandmark

open BinaryFloat

/-! ## The tests, exactly -/

/-- `z > thresh`, of an integer. -/
def exceeds (z : ℤ) : Single → Bool
  | .nan => false
  | .infinity negative => negative
  | .finite negative m e h => (Number.finite negative m e h).value < z

namespace RegressionTree

/-- The test at a node, on bytes and without rounding. -/
def exactTest (tree : RegressionTree Single) (bytes : List (BitVec 8)) (i : ℕ) : Option Bool := do
  let split ← tree.splits[i]?
  let a ← bytes[split.idx1]?
  let b ← bytes[split.idx2]?
  some (exceeds ((a.toNat : ℤ) - b.toNat) split.thresh)

def exactApply (tree : RegressionTree Single) (bytes : List (BitVec 8)) :
    Option (ℕ × List Single) := do
  let i ← HeapTree.descend? tree.splits.length (tree.exactTest bytes) 0
  let i := i - tree.splits.length
  let leaf ← tree.leaf_values[i]?
  some (i, leaf)

end RegressionTree

theorem lt_eq_exceeds {x : Single} (hx : x.IsFinite) {z : ℤ} (hvalue : x.value = z) (thresh : Single) :
    thresh.lt x = exceeds z thresh := by
  cases thresh with
  | nan => rfl
  | infinity negative =>
    cases x with
    | nan => exact absurd hx id
    | infinity negative' => exact absurd hx id
    | finite negative' m e h => rfl
  | finite negative m e h =>
    have hthresh : (Number.finite negative m e h).IsFinite := trivial
    rw [Bool.eq_iff_iff, Number.lt_iff hthresh hx, hvalue, exceeds, decide_eq_true_eq]

section Tests

variable {find_similarity_transform :
    List (FloatPoint Single) → List (FloatPoint Single) → Matrix22 Single}
  {unnormalizing_tform : Rectangle → FloatPoint Single → Point}

theorem lt_sub_ofByte (thresh : Single) (a b : BitVec 8) :
    thresh.lt ((ofInt binary32 a.toNat).sub (ofInt binary32 b.toNat))
      = exceeds ((a.toNat : ℤ) - b.toNat) thresh := by
  have ha := a.isLt
  have hb := b.isLt
  have hroom : (256 : ℕ) ≤ 2 ^ binary32.precision := by decide
  obtain ⟨hfinite, hvalue⟩ := Number.sub_ofInt hasIntegers_binary32 (x := a.toNat) (y := b.toNat)
    (by omega) (by omega) (by omega)
  exact lt_eq_exceeds hfinite (by rw [hvalue]; push_cast; rfl) thresh

theorem test_map_ofByte (tree : RegressionTree Single) (bytes : List (BitVec 8)) (i : ℕ) :
    tree.test (singleArithmetic find_similarity_transform unnormalizing_tform)
      (bytes.map fun b ↦ ofInt binary32 b.toNat) i = tree.exactTest bytes i := by
  simp only [RegressionTree.test, RegressionTree.exactTest, List.getElem?_map, Option.bind_eq_bind]
  cases tree.splits[i]? with
  | none => rfl
  | some split =>
    simp only [Option.bind_some]
    cases bytes[split.idx1]? with
    | none => rfl
    | some a =>
      cases bytes[split.idx2]? with
      | none => rfl
      | some b => exact congrArg some (lt_sub_ofByte split.thresh a b)

theorem apply_map_ofByte (tree : RegressionTree Single) (bytes : List (BitVec 8)) :
    tree.apply (singleArithmetic find_similarity_transform unnormalizing_tform)
      (bytes.map fun b ↦ ofInt binary32 b.toNat) = tree.exactApply bytes := by
  rw [RegressionTree.apply, RegressionTree.exactApply,
    funext (@test_map_ofByte find_similarity_transform unnormalizing_tform tree bytes)]

/-! ## The features of a level -/

theorem exists_byte_of_valueAt {img : Array2d} {p : Point} {value : Single}
    (h : valueAt (singleArithmetic find_similarity_transform unnormalizing_tform) img p = some value) :
    ∃ b : BitVec 8, value = ofInt binary32 b.toNat := by
  rw [valueAt] at h
  split at h
  case isTrue hinside =>
    obtain ⟨pixel, -, hvalue⟩ := Option.bind_eq_some_iff.mp h
    exact ⟨pixel.intensity, (Option.some_inj.mp hvalue).symm⟩
  case isFalse houtside => exact ⟨0, (Option.some_inj.mp h).symm⟩

theorem exists_bytes_of_extractFeaturePixelValues {img : Array2d} {rect : Rectangle}
    {current_shape reference_shape : List Single} {anchor_idx : List ℕ}
    {deltas : List (FloatPoint Single)} {values : List Single}
    (h : extractFeaturePixelValues (singleArithmetic find_similarity_transform unnormalizing_tform) img
      rect current_shape reference_shape anchor_idx deltas = some values) :
    ∃ bytes : List (BitVec 8), values = bytes.map fun b ↦ ofInt binary32 b.toNat := by
  obtain ⟨tform, -, htable⟩ := Option.bind_eq_some_iff.mp h
  have hbytes : ∀ value ∈ values, value ∈ Set.range fun b : BitVec 8 ↦ ofInt binary32 b.toNat := by
    intro value hvalue
    obtain ⟨i, hi, rfl⟩ := List.getElem_of_mem hvalue
    have hentry := Raster.getElem?_of_tabulate?_eq_some htable
      (Raster.length_of_tabulate?_eq_some htable ▸ hi)
    simp only [featurePixelValue, List.getElem?_eq_getElem hi, Option.bind_eq_bind,
      eq_comm (a := some values[i]), Option.bind_eq_some_iff] at hentry
    obtain ⟨_, -, _, -, _, -, hvalue⟩ := hentry
    obtain ⟨b, hb⟩ := exists_byte_of_valueAt hvalue
    exact ⟨b, hb.symm⟩
  have hrange : values ∈ Set.range (List.map fun b : BitVec 8 ↦ ofInt binary32 b.toNat) := by
    rw [Set.range_list_map]
    exact hbytes
  obtain ⟨bytes, hvalues⟩ := hrange
  exact ⟨bytes, hvalues.symm⟩

/-- **No test is rounded.** The features of a level are bytes, and every tree selects the leaf that it
would select in exact arithmetic. -/
theorem exists_exactApply_of_levelValues {model : ShapePredictor Single} {img : Array2d}
    {rect : Rectangle} {current_shape : List Single} {iter : ℕ} {values : List Single}
    (h : model.levelValues (singleArithmetic find_similarity_transform unnormalizing_tform) img rect
      current_shape iter = some values) :
    ∃ bytes : List (BitVec 8), values = (bytes.map fun b ↦ ofInt binary32 b.toNat) ∧
      ∀ tree : RegressionTree Single,
        tree.apply (singleArithmetic find_similarity_transform unnormalizing_tform) values
          = tree.exactApply bytes := by
  simp only [ShapePredictor.levelValues, Option.bind_eq_bind, Option.bind_eq_some_iff] at h
  obtain ⟨anchors, -, deltas, -, hvalues⟩ := h
  obtain ⟨bytes, rfl⟩ := exists_bytes_of_extractFeaturePixelValues hvalues
  exact ⟨bytes, rfl, fun tree ↦ apply_map_ofByte tree bytes⟩

theorem exists_exactApply_of_levelValues_stump :
    ∃ (values : List Single) (bytes : List (BitVec 8)),
      (ShapePredictor.stump (ofInt binary32 0)).levelValues uprightArithmetic [[⟨10, 20, 30⟩]]
          (getRect 1 1) [ofInt binary32 0, ofInt binary32 0] 0 = some values ∧
        values = (bytes.map fun b ↦ ofInt binary32 b.toNat) ∧
        ∀ tree : RegressionTree Single, tree.apply uprightArithmetic values = tree.exactApply bytes := by
  obtain ⟨values, -, hvalues, -⟩ := @ShapePredictor.exists_levelValues Single uprightArithmetic
    (.stump (ofInt binary32 0)) [[⟨10, 20, 30⟩]] (ShapePredictor.wellFormed_stump _)
    (by simp [Array2d.Rectangular, Array2d.numColumns]) (getRect 1 1)
    [ofInt binary32 0, ofInt binary32 0] rfl 0 (by decide)
  obtain ⟨bytes, hbytes, happly⟩ := exists_exactApply_of_levelValues hvalues
  exact ⟨values, bytes, hvalues, hbytes, happly⟩

/-! ## Light -/

theorem value_ofByte (b : BitVec 8) : (ofInt binary32 b.toNat).value = b.toNat := by
  have hb := b.isLt
  have hroom : (256 : ℕ) ≤ 2 ^ binary32.precision := by decide
  exact_mod_cast (Number.isFinite_ofInt hasIntegers_binary32 (x := b.toNat) (by omega)).2

theorem exactTest_of_shift {bytes bytes' : List (BitVec 8)} {c : ℚ}
    (h : List.Forall₂ (fun b b' : BitVec 8 ↦ (b'.toNat : ℚ) = b.toNat + c) bytes bytes')
    (tree : RegressionTree Single) (i : ℕ) : tree.exactTest bytes' i = tree.exactTest bytes i := by
  have hentry : ∀ k : ℕ, bytes[k]? = none ∧ bytes'[k]? = none ∨ ∃ b b' : BitVec 8,
      bytes[k]? = some b ∧ bytes'[k]? = some b' ∧ (b'.toNat : ℚ) = b.toNat + c := by
    intro k
    rcases Nat.lt_or_ge k bytes.length with hk | hk
    · have hk' : k < bytes'.length := h.length_eq ▸ hk
      exact Or.inr ⟨_, _, List.getElem?_eq_getElem hk, List.getElem?_eq_getElem hk', h.get hk hk'⟩
    · exact Or.inl ⟨List.getElem?_eq_none hk, List.getElem?_eq_none (h.length_eq ▸ hk)⟩
  simp only [RegressionTree.exactTest, Option.bind_eq_bind]
  cases tree.splits[i]? with
  | none => rfl
  | some split =>
    simp only [Option.bind_some]
    rcases hentry split.idx1 with ⟨hnone, hnone'⟩ | ⟨a, a', ha, ha', hshift⟩
    · rw [hnone, hnone']
      rfl
    rcases hentry split.idx2 with ⟨hnone, hnone'⟩ | ⟨b, b', hb, hb', hshift'⟩
    · rw [ha, ha', hnone, hnone']
      rfl
    -- the shift drops out of the difference
    have hdifference : (a'.toNat : ℤ) - b'.toNat = a.toNat - b.toNat := by
      have hcast : ((a'.toNat : ℤ) - b'.toNat : ℚ) = (a.toNat : ℤ) - b.toNat := by
        push_cast
        linarith
      exact_mod_cast hcast
    simp only [ha, ha', hb, hb', Option.bind_some, hdifference]

/-- **Light makes no difference.** Where all the features of a level are brighter or darker by the
same amount, be it in another picture, in another rectangle or of another shape, every tree selects
the same leaf. -/
theorem apply_of_brighter_levelValues {model model' : ShapePredictor Single} {img img' : Array2d}
    {rect rect' : Rectangle} {current_shape current_shape' : List Single} {iter iter' : ℕ}
    {values values' : List Single}
    (h : model.levelValues (singleArithmetic find_similarity_transform unnormalizing_tform) img rect
      current_shape iter = some values)
    (h' : model'.levelValues (singleArithmetic find_similarity_transform unnormalizing_tform) img' rect'
      current_shape' iter' = some values')
    {c : ℚ} (hshift : List.Forall₂ (fun v v' : Single ↦ v'.value = v.value + c) values values')
    (tree : RegressionTree Single) :
    tree.apply (singleArithmetic find_similarity_transform unnormalizing_tform) values'
      = tree.apply (singleArithmetic find_similarity_transform unnormalizing_tform) values := by
  simp only [ShapePredictor.levelValues, Option.bind_eq_bind, Option.bind_eq_some_iff] at h h'
  obtain ⟨_, -, _, -, hvalues⟩ := h
  obtain ⟨_, -, _, -, hvalues'⟩ := h'
  obtain ⟨bytes, rfl⟩ := exists_bytes_of_extractFeaturePixelValues hvalues
  obtain ⟨bytes', rfl⟩ := exists_bytes_of_extractFeaturePixelValues hvalues'
  rw [List.forall₂_map_left_iff, List.forall₂_map_right_iff] at hshift
  simp only [value_ofByte] at hshift
  rw [apply_map_ofByte, apply_map_ofByte, RegressionTree.exactApply, RegressionTree.exactApply,
    funext (exactTest_of_shift hshift tree)]

/-- Two pictures of one pixel, which is where the shape is. -/
theorem apply_of_brighter_levelValues_stump :
    let A := singleArithmetic uprightArithmetic.find_similarity_transform
      (fun rect _ ↦ ⟨BitVec.ofInt 64 rect.left, BitVec.ofInt 64 rect.top⟩)
    let tree := RegressionTree.mk [⟨0, 0, ofInt binary32 1⟩] [[ofInt binary32 2], [ofInt binary32 3]]
    tree.apply A [ofInt binary32 12] = tree.apply A [ofInt binary32 10] := by
  have hvalues : ∀ b : BitVec 8, (ShapePredictor.stump (ofInt binary32 0)).levelValues
      (singleArithmetic uprightArithmetic.find_similarity_transform
        (fun rect _ ↦ ⟨BitVec.ofInt 64 rect.left, BitVec.ofInt 64 rect.top⟩))
      [[⟨b, b, b⟩]] (getRect 1 1) [ofInt binary32 0, ofInt binary32 0] 0
        = some [ofInt binary32 (RgbPixel.intensity ⟨b, b, b⟩).toNat] := fun b ↦ rfl
  have hshift : (ofInt binary32 (RgbPixel.intensity ⟨12, 12, 12⟩).toNat).value
      = (ofInt binary32 (RgbPixel.intensity ⟨10, 10, 10⟩).toNat).value + 2 := by
    rw [value_ofByte, value_ofByte, show RgbPixel.intensity ⟨12, 12, 12⟩ = 12#8 from rfl,
      show RgbPixel.intensity ⟨10, 10, 10⟩ = 10#8 from rfl]
    norm_num
  exact apply_of_brighter_levelValues (hvalues 10) (hvalues 12) (.cons hshift .nil) _

end Tests

end FacialLandmark
