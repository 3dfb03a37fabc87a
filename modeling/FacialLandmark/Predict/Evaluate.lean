import FacialLandmark.Detect.HandOff
import FacialLandmark.Detect.Resize
import FacialLandmark.Dlib.ShapePredictor
import FacialLandmark.Library.HeapTree

/-!
# The evaluation of a `shape_predictor`

A predictor starts from its mean shape. At each level of its cascade it looks at the pixels of the
level, which move with the current shape, and each tree of the level compares differences of their
intensities with thresholds on its way to a leaf. The leaves are added to the shape.

All that an evaluation reads, it reads by an index that comes out of the model or out of the picture,
and none of these is checked. A read outside a vector or an image is the end of the meaning of the
program; here it is `none`.

The arithmetic of `float`s is a parameter. So are the two least-squares fits, `find_similarity_transform`
and the transform of the unit square to the rectangle, which takes a point to a pixel: whatever they
compute, it is a matrix and a pixel.
-/

namespace FacialLandmark

open BinaryFloat

/-- `matrix<float,2,2>`. -/
structure Matrix22 (F : Type) where
  m00 : F
  m01 : F
  m10 : F
  m11 : F

structure FloatArithmetic (F : Type) where
  zero : F
  one : F
  infinity : F
  add : F → F → F
  sub : F → F → F
  mul : F → F → F
  /-- `<`, which is false of a NaN. -/
  lt : F → F → Bool
  ofByte : BitVec 8 → F
  /-- `matrix_cast<float>(find_similarity_transform(from_points, to_points).get_m())`. -/
  find_similarity_transform : List (FloatPoint F) → List (FloatPoint F) → Matrix22 F
  /-- `unnormalizing_tform(rect)(p)`, converted to a `point`. -/
  unnormalizing_tform : Rectangle → FloatPoint F → Point

variable {F : Type} (A : FloatArithmetic F)

def Matrix22.identity : Matrix22 F := ⟨A.one, A.zero, A.zero, A.one⟩

def Matrix22.mulPoint (m : Matrix22 F) (p : FloatPoint F) : FloatPoint F :=
  ⟨A.add (A.mul m.m00 p.x) (A.mul m.m01 p.y), A.add (A.mul m.m10 p.x) (A.mul m.m11 p.y)⟩

def FloatPoint.add (p q : FloatPoint F) : FloatPoint F := ⟨A.add p.x q.x, A.add p.y q.y⟩

def FloatPoint.sub (p q : FloatPoint F) : FloatPoint F := ⟨A.sub p.x q.x, A.sub p.y q.y⟩

/-! ## Images -/

/-- `rectangle::contains(p)`. -/
def Rectangle.contains (r : Rectangle) (p : Point) : Bool :=
  !(p.x.toInt < r.left || r.right < p.x.toInt || p.y.toInt < r.top || r.bottom < p.y.toInt)

/-- `get_pixel_intensity`: the mean of the three channels, rounded down. -/
def RgbPixel.intensity (p : RgbPixel) : BitVec 8 :=
  BitVec.ofNat 8 ((p.red.toNat + p.green.toNat + p.blue.toNat) / 3)

/-! ## Shapes -/

/-- `location(shape, idx)`. -/
def location (shape : List F) (idx : ℕ) : Option (FloatPoint F) := do
  let x ← shape[idx * 2]?
  let y ← shape[idx * 2 + 1]?
  some ⟨x, y⟩

/-- The matrix of `find_tform_between_shapes`, as floats. -/
def findTformBetweenShapes (from_shape to_shape : List F) : Option (Matrix22 F) :=
  let num := from_shape.length / 2
  if num = 1 then some (.identity A)
  else do
    let from_points ← Raster.tabulate? (location from_shape) num
    let to_points ← Raster.tabulate? (location to_shape) num
    some (A.find_similarity_transform from_points to_points)

/-- `shape += leaf`: a matrix of another size is overwritten. -/
def addAssign (shape leaf : List F) : List F :=
  if shape.length = leaf.length then List.zipWith A.add shape leaf else leaf

/-- The parts of the detection a shape stands for. -/
def partsOf (rect : Rectangle) (shape : List F) : Option (List Point) :=
  Raster.tabulate? (fun i ↦ (location shape i).map (A.unnormalizing_tform rect)) (shape.length / 2)

/-! ## Features -/

/-- The value at a point, which may be outside the picture. -/
def valueAt (img : Array2d) (p : Point) : Option F :=
  if (getRect img.numColumns img.numRows).contains p then do
    let pixel ← img.get? p.y.toInt.toNat p.x.toInt.toNat
    some (A.ofByte pixel.intensity)
  else some A.zero

/-- The body of the loop of `extract_feature_pixel_values`. -/
def featurePixelValue (img : Array2d) (rect : Rectangle) (tform : Matrix22 F)
    (current_shape : List F) (anchor_idx : List ℕ) (deltas : List (FloatPoint F)) (i : ℕ) :
    Option F := do
  let delta ← deltas[i]?
  let anchor ← anchor_idx[i]?
  let base ← location current_shape anchor
  valueAt A img (A.unnormalizing_tform rect ((tform.mulPoint A delta).add A base))

def extractFeaturePixelValues (img : Array2d) (rect : Rectangle)
    (current_shape reference_shape : List F) (anchor_idx : List ℕ) (deltas : List (FloatPoint F)) :
    Option (List F) := do
  let tform ← findTformBetweenShapes A reference_shape current_shape
  Raster.tabulate? (featurePixelValue A img rect tform current_shape anchor_idx deltas) deltas.length

/-! ## Trees -/

/-- The test at a node: whether the walk goes on to the left child. -/
def RegressionTree.test (tree : RegressionTree F) (feature_pixel_values : List F) (i : ℕ) :
    Option Bool := do
  let split ← tree.splits[i]?
  let a ← feature_pixel_values[split.idx1]?
  let b ← feature_pixel_values[split.idx2]?
  some (A.lt split.thresh (A.sub a b))

def RegressionTree.numLeaves (tree : RegressionTree F) : ℕ := tree.leaf_values.length

/-- `operator()` of a tree: the index of the leaf, and the leaf. -/
def RegressionTree.apply (tree : RegressionTree F) (feature_pixel_values : List F) :
    Option (ℕ × List F) := do
  let i ← HeapTree.descend? tree.splits.length (tree.test A feature_pixel_values) 0
  let i := i - tree.splits.length
  let leaf ← tree.leaf_values[i]?
  some (i, leaf)

/-! ## The predictor -/

/-- `full_object_detection`. -/
structure FullObjectDetection where
  rect : Rectangle
  parts : List Point
  deriving DecidableEq

namespace ShapePredictor

variable (model : ShapePredictor F)

def numParts : ℕ := model.initial_shape.length / 2

def numFeatures : ℕ := (model.forests.flatten.map RegressionTree.numLeaves).sum

def levelValues (img : Array2d) (rect : Rectangle) (current_shape : List F) (iter : ℕ) :
    Option (List F) := do
  let anchors ← model.anchor_idx[iter]?
  let deltas ← model.deltas[iter]?
  extractFeaturePixelValues A img rect current_shape model.initial_shape anchors deltas

def treeStep (forest : List (RegressionTree F)) (feature_pixel_values : List F)
    (current_shape : List F) (i : ℕ) : Option (List F) := do
  let tree ← forest[i]?
  let selected ← tree.apply A feature_pixel_values
  some (addAssign A current_shape selected.2)

def levelStep (img : Array2d) (rect : Rectangle) (current_shape : List F) (iter : ℕ) :
    Option (List F) := do
  let feature_pixel_values ← model.levelValues A img rect current_shape iter
  let forest ← model.forests[iter]?
  Raster.forRange? forest.length (treeStep A forest feature_pixel_values) current_shape

/-- `operator()(img, rect)`. -/
def apply (img : Array2d) (rect : Rectangle) : Option FullObjectDetection := do
  let shape ← Raster.forRange? model.forests.length (model.levelStep A img rect) model.initial_shape
  let parts ← partsOf A rect shape
  some { rect := rect, parts := parts }

/-! ### The overload with features

`operator()(img, rect, feats)` computes the same and also says which leaf of which tree was selected,
the leaves of all trees being numbered one after the other. -/

structure FeatState (F : Type) where
  current_shape : List F
  feats : List (ℕ × ℕ)
  feat_offset : ℕ

def featTreeStep (forest : List (RegressionTree F)) (feature_pixel_values : List F)
    (s : FeatState F) (i : ℕ) : Option (FeatState F) := do
  let tree ← forest[i]?
  let selected ← tree.apply A feature_pixel_values
  some
    { current_shape := addAssign A s.current_shape selected.2
      feats := s.feats ++ [(s.feat_offset + selected.1, 1)]
      feat_offset := s.feat_offset + tree.numLeaves }

def featLevelStep (img : Array2d) (rect : Rectangle) (s : FeatState F) (iter : ℕ) :
    Option (FeatState F) := do
  let feature_pixel_values ← model.levelValues A img rect s.current_shape iter
  let forest ← model.forests[iter]?
  Raster.forRange? forest.length (featTreeStep A forest feature_pixel_values) s

def applyFeats (img : Array2d) (rect : Rectangle) :
    Option (FullObjectDetection × List (ℕ × ℕ)) := do
  let s ← Raster.forRange? model.forests.length (model.featLevelStep A img rect)
    { current_shape := model.initial_shape, feats := [], feat_offset := 0 }
  let parts ← partsOf A rect s.current_shape
  some ({ rect := rect, parts := parts }, s.feats)

end ShapePredictor

/-! ## `float` -/

/-- The arithmetic of `float`. -/
def singleArithmetic
    (find_similarity_transform :
      List (FloatPoint Single) → List (FloatPoint Single) → Matrix22 Single)
    (unnormalizing_tform : Rectangle → FloatPoint Single → Point) : FloatArithmetic Single where
  zero := ofInt binary32 0
  one := ofInt binary32 1
  infinity := .infinity false
  add := Number.add
  sub := Number.sub
  mul := Number.mul
  lt := Number.lt
  ofByte b := ofInt binary32 b.toNat
  find_similarity_transform := find_similarity_transform
  unnormalizing_tform := unnormalizing_tform

/-- The transform of the unit square computed without rounding, and a fit for faces that are upright. -/
def uprightArithmetic : FloatArithmetic Single :=
  singleArithmetic
    (fun _ _ ↦ ⟨ofInt binary32 1, ofInt binary32 0, ofInt binary32 0, ofInt binary32 1⟩)
    (fun rect p ↦
      { x := BitVec.ofInt 64 (roundPoint (unnormalizingTform rect (p.x.value, p.y.value)).1)
        y := BitVec.ofInt 64 (roundPoint (unnormalizingTform rect (p.x.value, p.y.value)).2) })

/-! ## Well-formed predictors -/

/-- What the walk through a tree needs, for features of which there are `features` and shapes of
`shape` numbers. -/
structure RegressionTree.WellFormed (features shape : ℕ) (tree : RegressionTree F) : Prop where
  idx1_lt : ∀ split ∈ tree.splits, split.idx1 < features
  idx2_lt : ∀ split ∈ tree.splits, split.idx2 < features
  leaves : tree.leaf_values.length = tree.splits.length + 1
  leaf_size : ∀ leaf ∈ tree.leaf_values, leaf.length = shape

/-- A predictor whose evaluation stays inside its vectors: each level has its pixels, each pixel an
anchor among the parts, and each tree of the level compares pixels of the level. -/
structure ShapePredictor.WellFormed (model : ShapePredictor F) : Prop where
  numParts_pos : 0 < model.numParts
  levels : model.forests.length = model.deltas.length
  anchors : model.anchor_idx.map List.length = model.deltas.map List.length
  anchor_lt : ∀ anchors ∈ model.anchor_idx, ∀ anchor ∈ anchors, anchor < model.numParts
  trees : ∀ (iter : ℕ) (forest : List (RegressionTree F)) (deltas : List (FloatPoint F)),
    model.forests[iter]? = some forest → model.deltas[iter]? = some deltas →
      ∀ tree ∈ forest, tree.WellFormed deltas.length model.initial_shape.length

theorem ShapePredictor.wellFormed_stump (x : F) : (stump x).WellFormed where
  numParts_pos := by simp [stump, numParts]
  levels := rfl
  anchors := rfl
  anchor_lt := by simp [stump, numParts]
  trees iter forest deltas hforest hdeltas := by
    cases iter with
    | zero =>
      obtain rfl := Option.some_inj.mp hforest
      obtain rfl := Option.some_inj.mp hdeltas
      simp only [List.mem_singleton, forall_eq]
      exact ⟨by simp, by simp, rfl, by simp [stump]⟩
    | succ iter => exact absurd hforest (by simp [stump])

end FacialLandmark
