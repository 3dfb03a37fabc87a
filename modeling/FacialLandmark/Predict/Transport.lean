import FacialLandmark.Dlib.Save
import FacialLandmark.Predict.Single

/-!
# Predictors with other numbers in them

An evaluation makes a shape of the numbers of a predictor, and the shape is taken to pixels. So a map
of numbers that respects the arithmetic can be moved through the evaluation, from the predictor to
the shape, and disappears with the pixels: the predictor with the mapped numbers in it has the same
detections (`apply_map`).

To take the sign from a zero is such a map, as long as the two fits do not see it. What `serialize`
leaves out of a predictor does not change what it detects.
-/

namespace FacialLandmark

open BinaryFloat

variable {F G : Type} {f : F → G}

def Matrix22.map (f : F → G) (m : Matrix22 F) : Matrix22 G := ⟨f m.m00, f m.m01, f m.m10, f m.m11⟩

/-- A map that respects what an evaluation does with numbers. -/
structure FloatArithmetic.Hom (f : F → G) (A : FloatArithmetic F) (B : FloatArithmetic G) : Prop where
  map_zero : f A.zero = B.zero
  map_one : f A.one = B.one
  map_add : ∀ x y, f (A.add x y) = B.add (f x) (f y)
  map_sub : ∀ x y, f (A.sub x y) = B.sub (f x) (f y)
  map_mul : ∀ x y, f (A.mul x y) = B.mul (f x) (f y)
  lt_map : ∀ x y, B.lt (f x) (f y) = A.lt x y
  map_ofByte : ∀ b, f (A.ofByte b) = B.ofByte b
  map_similarity : ∀ from_points to_points,
    (A.find_similarity_transform from_points to_points).map f
      = B.find_similarity_transform (from_points.map (·.map f)) (to_points.map (·.map f))
  tform_map : ∀ rect p, B.unnormalizing_tform rect (p.map f) = A.unnormalizing_tform rect p

theorem location_map (shape : List F) (idx : ℕ) :
    location (shape.map f) idx = (location shape idx).map (·.map f) := by
  simp only [location, List.getElem?_map, Option.bind_eq_bind]
  cases shape[idx * 2]? with
  | none => rfl
  | some x => cases shape[idx * 2 + 1]? <;> rfl

namespace FloatArithmetic.Hom

variable {A : FloatArithmetic F} {B : FloatArithmetic G} (h : Hom f A B)

include h

/-! ## Shapes -/

theorem map_add_point (p q : FloatPoint F) : (p.add A q).map f = (p.map f).add B (q.map f) := by
  simp only [FloatPoint.add, FloatPoint.map, h.map_add]

theorem map_mulPoint (m : Matrix22 F) (p : FloatPoint F) :
    (m.mulPoint A p).map f = (m.map f).mulPoint B (p.map f) := by
  simp only [Matrix22.mulPoint, Matrix22.map, FloatPoint.map, h.map_add, h.map_mul]

theorem findTformBetweenShapes_map (from_shape to_shape : List F) :
    findTformBetweenShapes B (from_shape.map f) (to_shape.map f)
      = (findTformBetweenShapes A from_shape to_shape).map (·.map f) := by
  simp only [findTformBetweenShapes, List.length_map, funext (location_map (f := f) _),
    ← Raster.tabulate?_map, Option.bind_eq_bind]
  split
  case isTrue =>
    simp only [Option.map_some, Matrix22.identity, Matrix22.map, h.map_zero, h.map_one]
  case isFalse =>
    cases Raster.tabulate? (location from_shape) (from_shape.length / 2) with
    | none => rfl
    | some from_points =>
      cases Raster.tabulate? (location to_shape) (from_shape.length / 2) with
      | none => rfl
      | some to_points => exact congrArg some (h.map_similarity from_points to_points).symm

theorem map_addAssign (shape leaf : List F) :
    (addAssign A shape leaf).map f = addAssign B (shape.map f) (leaf.map f) := by
  rw [addAssign, addAssign, List.length_map, List.length_map]
  split
  · rw [List.map_zipWith, List.zipWith_map]
    simp only [h.map_add]
  · rfl

theorem partsOf_map (rect : Rectangle) (shape : List F) :
    partsOf B rect (shape.map f) = partsOf A rect shape := by
  rw [partsOf, partsOf, List.length_map]
  refine Raster.tabulate?_congr fun i _ ↦ ?_
  rw [location_map, Option.map_map]
  exact congrArg (Option.map · _) (funext fun p ↦ h.tform_map rect p)

/-! ## Features -/

theorem map_valueAt (img : Array2d) (p : Point) : (valueAt A img p).map f = valueAt B img p := by
  rw [valueAt, valueAt]
  split
  · cases img.get? p.y.toInt.toNat p.x.toInt.toNat with
    | none => rfl
    | some pixel => exact congrArg some (h.map_ofByte pixel.intensity)
  · exact congrArg some h.map_zero

theorem map_featurePixelValue (img : Array2d) (rect : Rectangle) (tform : Matrix22 F)
    (current_shape : List F) (anchor_idx : List ℕ) (deltas : List (FloatPoint F)) (i : ℕ) :
    (featurePixelValue A img rect tform current_shape anchor_idx deltas i).map f
      = featurePixelValue B img rect (tform.map f) (current_shape.map f) anchor_idx
        (deltas.map (·.map f)) i := by
  simp only [featurePixelValue, List.getElem?_map, location_map, Option.bind_eq_bind]
  cases deltas[i]? with
  | none => rfl
  | some delta =>
    cases anchor_idx[i]? with
    | none => rfl
    | some anchor =>
      simp only [Option.bind_some, Option.map_some]
      cases location current_shape anchor with
      | none => rfl
      | some base =>
        simp only [Option.bind_some, Option.map_some]
        rw [h.map_valueAt, ← h.map_mulPoint, ← h.map_add_point, h.tform_map]

theorem extractFeaturePixelValues_map (img : Array2d) (rect : Rectangle)
    (current_shape reference_shape : List F) (anchor_idx : List ℕ) (deltas : List (FloatPoint F)) :
    extractFeaturePixelValues B img rect (current_shape.map f) (reference_shape.map f) anchor_idx
        (deltas.map (·.map f))
      = (extractFeaturePixelValues A img rect current_shape reference_shape anchor_idx deltas).map
        (·.map f) := by
  simp only [extractFeaturePixelValues, h.findTformBetweenShapes_map, List.length_map,
    Option.bind_eq_bind]
  cases findTformBetweenShapes A reference_shape current_shape with
  | none => rfl
  | some tform =>
    simp only [Option.bind_some, Option.map_some, Raster.tabulate?_map, h.map_featurePixelValue]

/-! ## Trees -/

theorem test_map (tree : RegressionTree F) (values : List F) (i : ℕ) :
    (tree.map f).test B (values.map f) i = tree.test A values i := by
  simp only [RegressionTree.test, RegressionTree.map, List.getElem?_map, Option.bind_eq_bind]
  cases tree.splits[i]? with
  | none => rfl
  | some split =>
    simp only [Option.map_some, Option.bind_some, SplitFeature.map]
    cases values[split.idx1]? with
    | none => rfl
    | some a =>
      cases values[split.idx2]? with
      | none => rfl
      | some b =>
        simp only [Option.map_some, Option.bind_some]
        rw [← h.map_sub, h.lt_map]

theorem apply_tree_map (tree : RegressionTree F) (values : List F) :
    (tree.map f).apply B (values.map f)
      = (tree.apply A values).map fun selected ↦ (selected.1, selected.2.map f) := by
  simp only [RegressionTree.apply, funext (h.test_map tree values), Option.bind_eq_bind]
  simp only [RegressionTree.map, List.length_map, List.getElem?_map]
  cases HeapTree.descend? tree.splits.length (tree.test A values) 0 with
  | none => rfl
  | some i =>
    simp only [Option.bind_some]
    cases tree.leaf_values[i - tree.splits.length]? <;> rfl

theorem map_treeStep (forest : List (RegressionTree F)) (values current_shape : List F) (i : ℕ) :
    (ShapePredictor.treeStep A forest values current_shape i).map (·.map f)
      = ShapePredictor.treeStep B (forest.map (·.map f)) (values.map f) (current_shape.map f) i := by
  simp only [ShapePredictor.treeStep, List.getElem?_map, Option.bind_eq_bind]
  cases forest[i]? with
  | none => rfl
  | some tree =>
    simp only [Option.map_some, Option.bind_some, h.apply_tree_map]
    cases tree.apply A values with
    | none => rfl
    | some selected => exact congrArg some (h.map_addAssign current_shape selected.2)

/-! ## The predictor -/

variable (model : ShapePredictor F)

theorem levelValues_map (img : Array2d) (rect : Rectangle) (current_shape : List F) (iter : ℕ) :
    (model.map f).levelValues B img rect (current_shape.map f) iter
      = (model.levelValues A img rect current_shape iter).map (·.map f) := by
  simp only [ShapePredictor.levelValues, ShapePredictor.map, List.getElem?_map, Option.bind_eq_bind]
  cases model.anchor_idx[iter]? with
  | none => rfl
  | some anchors =>
    cases model.deltas[iter]? with
    | none => rfl
    | some deltas => exact h.extractFeaturePixelValues_map ..

theorem map_levelStep (img : Array2d) (rect : Rectangle) (iter : ℕ) (current_shape : List F) :
    (model.levelStep A img rect current_shape iter).map (·.map f)
      = (model.map f).levelStep B img rect (current_shape.map f) iter := by
  simp only [ShapePredictor.levelStep, h.levelValues_map, Option.bind_eq_bind]
  cases model.levelValues A img rect current_shape iter with
  | none => rfl
  | some values =>
    simp only [Option.bind_some, Option.map_some, ShapePredictor.map, List.getElem?_map]
    cases model.forests[iter]? with
    | none => rfl
    | some forest =>
      simp only [Option.bind_some, Option.map_some, List.length_map]
      exact Raster.forRange?_map _ (fun i t _ ↦ h.map_treeStep forest values t i) current_shape

/-- The mapped predictor has the same detections. -/
theorem apply_map (img : Array2d) (rect : Rectangle) :
    (model.map f).apply B img rect = model.apply A img rect := by
  have hloop := Raster.forRange?_map (n := model.forests.length) (·.map f)
    (fun iter t _ ↦ h.map_levelStep model img rect iter t) model.initial_shape
  have hlevels : (model.map f).forests.length = model.forests.length := List.length_map _
  have hinitial : (model.map f).initial_shape = model.initial_shape.map f := rfl
  simp only [ShapePredictor.apply, hlevels, hinitial, ← hloop, Option.bind_eq_bind]
  cases Raster.forRange? model.forests.length (model.levelStep A img rect) model.initial_shape with
  | none => rfl
  | some shape => simp only [Option.map_some, Option.bind_some, h.partsOf_map]

end FloatArithmetic.Hom

/-! ## The sign of a zero -/

/-- The two fits do not see the sign of a zero. They start from the sums of the points, to which a zero
of either sign adds nothing, and end with rounding to a pixel. -/
structure IgnoreZeroSigns
    (find_similarity_transform :
      List (FloatPoint Single) → List (FloatPoint Single) → Matrix22 Single)
    (unnormalizing_tform : Rectangle → FloatPoint Single → Point) : Prop where
  similarity : ∀ from_points to_points,
    find_similarity_transform (from_points.map (·.map Number.unsignZero))
        (to_points.map (·.map Number.unsignZero))
      = find_similarity_transform from_points to_points
  tform : ∀ rect p, unnormalizing_tform rect (p.map Number.unsignZero) = unnormalizing_tform rect p

section Zeros

variable {find_similarity_transform :
    List (FloatPoint Single) → List (FloatPoint Single) → Matrix22 Single}
  {unnormalizing_tform : Rectangle → FloatPoint Single → Point}

/-- The arithmetic of `float` whose results have no negative zeros. -/
def unsignedArithmetic (A : FloatArithmetic Single) : FloatArithmetic Single where
  zero := A.zero.unsignZero
  one := A.one.unsignZero
  infinity := A.infinity
  add x y := (A.add x y).unsignZero
  sub x y := (A.sub x y).unsignZero
  mul x y := (A.mul x y).unsignZero
  lt := A.lt
  ofByte b := (A.ofByte b).unsignZero
  find_similarity_transform from_points to_points :=
    (A.find_similarity_transform from_points to_points).map Number.unsignZero
  unnormalizing_tform := A.unnormalizing_tform

theorem hom_unsignZero (h : IgnoreZeroSigns find_similarity_transform unnormalizing_tform) :
    FloatArithmetic.Hom Number.unsignZero
      (singleArithmetic find_similarity_transform unnormalizing_tform)
      (unsignedArithmetic (singleArithmetic find_similarity_transform unnormalizing_tform)) where
  map_zero := rfl
  map_one := rfl
  map_add x y := (Number.unsignZero_add x y).symm
  map_sub x y := (Number.unsignZero_sub x y).symm
  map_mul x y := (Number.unsignZero_mul x y).symm
  lt_map := Number.lt_unsignZero
  map_ofByte _ := rfl
  map_similarity from_points to_points :=
    congrArg (Matrix22.map Number.unsignZero) (h.similarity from_points to_points).symm
  tform_map := h.tform

theorem unsignZeros_unsignZeros (model : ShapePredictor Single) :
    model.unsignZeros.unsignZeros = model.unsignZeros := by
  simp [ShapePredictor.unsignZeros, ShapePredictor.map, RegressionTree.map, SplitFeature.map,
    FloatPoint.map, Function.comp_def]

theorem apply_unsignZeros (h : IgnoreZeroSigns find_similarity_transform unnormalizing_tform)
    (model : ShapePredictor Single) (img : Array2d) (rect : Rectangle) :
    model.unsignZeros.apply (singleArithmetic find_similarity_transform unnormalizing_tform) img rect
      = model.apply (singleArithmetic find_similarity_transform unnormalizing_tform) img rect := by
  have hmodel := (hom_unsignZero h).apply_map model img rect
  have hunsigned := (hom_unsignZero h).apply_map model.unsignZeros img rect
  rw [← ShapePredictor.unsignZeros] at hmodel hunsigned
  rw [← hunsigned, unsignZeros_unsignZeros, hmodel]

end Zeros

end FacialLandmark
