import FacialLandmark.Predict.Evaluate
import Mathlib.Data.List.TakeDrop

/-!
# A well-formed predictor stays inside its vectors

`ShapePredictor.WellFormed` is a condition on the model alone. It is enough for an evaluation on any
picture and in any rectangle: the shape keeps its size from leaf to leaf, so the anchors of a level
are always among its parts, and a point that falls outside the picture is not looked up.
-/

namespace FacialLandmark

open BinaryFloat

variable {F : Type} {A : FloatArithmetic F}

/-! ## Shapes and pixels -/

theorem exists_location {shape : List F} {idx : ℕ} (h : idx < shape.length / 2) :
    ∃ p, location shape idx = some p := by
  have hx : idx * 2 < shape.length := by omega
  have hy : idx * 2 + 1 < shape.length := by omega
  refine ⟨⟨shape[idx * 2], shape[idx * 2 + 1]⟩, ?_⟩
  simp only [location, List.getElem?_eq_getElem hx, List.getElem?_eq_getElem hy,
    Option.bind_eq_bind, Option.bind_some]

theorem exists_locations {shape : List F} {num : ℕ} (h : num ≤ shape.length / 2) :
    ∃ points, Raster.tabulate? (location shape) num = some points := by
  rw [← Option.isSome_iff_exists, Raster.tabulate?_isSome_iff]
  intro i hi
  exact Option.isSome_iff_exists.mpr (exists_location (by omega))

theorem exists_findTformBetweenShapes {from_shape to_shape : List F}
    (h : from_shape.length = to_shape.length) :
    ∃ tform, findTformBetweenShapes A from_shape to_shape = some tform := by
  rw [findTformBetweenShapes]
  split
  · exact ⟨_, rfl⟩
  · obtain ⟨from_points, hfrom⟩ := exists_locations (le_refl (from_shape.length / 2))
    obtain ⟨to_points, hto⟩ := exists_locations (show from_shape.length / 2 ≤ to_shape.length / 2 by rw [h])
    rw [hfrom, hto]
    exact ⟨_, rfl⟩

theorem exists_partsOf (rect : Rectangle) (shape : List F) :
    ∃ parts, partsOf A rect shape = some parts ∧ parts.length = shape.length / 2 := by
  obtain ⟨parts, hparts⟩ : ∃ parts, partsOf A rect shape = some parts := by
    rw [partsOf, ← Option.isSome_iff_exists, Raster.tabulate?_isSome_iff]
    intro i hi
    obtain ⟨p, hp⟩ := exists_location hi
    rw [hp, Option.map_some, Option.isSome_some]
  exact ⟨parts, hparts, Raster.length_of_tabulate?_eq_some hparts⟩

theorem length_addAssign {shape leaf : List F} (h : leaf.length = shape.length) :
    (addAssign A shape leaf).length = shape.length := by
  rw [addAssign, if_pos h.symm, List.length_zipWith, h, Nat.min_self]

theorem contains_iff {r : Rectangle} {p : Point} :
    r.contains p = true ↔
      (r.left ≤ p.x.toInt ∧ p.x.toInt ≤ r.right) ∧ r.top ≤ p.y.toInt ∧ p.y.toInt ≤ r.bottom := by
  simp only [Rectangle.contains, Bool.not_eq_true', Bool.or_eq_false_iff, decide_eq_false_iff_not,
    not_lt]
  tauto

theorem exists_pixel {img : Array2d} (himg : img.Rectangular) {p : Point}
    (h : (getRect img.numColumns img.numRows).contains p = true) :
    ∃ pixel, img.get? p.y.toInt.toNat p.x.toInt.toNat = some pixel := by
  rw [contains_iff] at h
  simp only [getRect] at h
  have hrow : p.y.toInt.toNat < img.length := by
    rw [Array2d.numRows] at h
    omega
  have hcolumn : p.x.toInt.toNat < img[p.y.toInt.toNat].length := by
    rw [himg _ (List.getElem_mem hrow)]
    omega
  refine ⟨img[p.y.toInt.toNat][p.x.toInt.toNat], ?_⟩
  simp only [Array2d.get?, List.getElem?_eq_getElem hrow, Option.bind_eq_bind, Option.bind_some,
    List.getElem?_eq_getElem hcolumn]

/-! ## Features -/

theorem isSome_valueAt {img : Array2d} (himg : img.Rectangular) (p : Point) :
    (valueAt A img p).isSome := by
  rw [valueAt]
  split
  case isTrue hinside =>
    obtain ⟨pixel, hpixel⟩ := exists_pixel himg hinside
    rw [hpixel]
    rfl
  case isFalse => rfl

theorem exists_extractFeaturePixelValues {img : Array2d} (himg : img.Rectangular) (rect : Rectangle)
    {current_shape reference_shape : List F} (hsize : reference_shape.length = current_shape.length)
    {anchor_idx : List ℕ} {deltas : List (FloatPoint F)} (hlength : anchor_idx.length = deltas.length)
    (hanchor : ∀ anchor ∈ anchor_idx, anchor < current_shape.length / 2) :
    ∃ values, extractFeaturePixelValues A img rect current_shape reference_shape anchor_idx deltas
        = some values ∧ values.length = deltas.length := by
  obtain ⟨tform, htform⟩ := @exists_findTformBetweenShapes F A _ _ hsize
  have hvalues : ∀ i < deltas.length,
      (featurePixelValue A img rect tform current_shape anchor_idx deltas i).isSome := by
    intro i hi
    have hi' : i < anchor_idx.length := hlength ▸ hi
    obtain ⟨base, hbase⟩ := exists_location (hanchor _ (List.getElem_mem hi'))
    simp only [featurePixelValue, List.getElem?_eq_getElem hi, List.getElem?_eq_getElem hi',
      Option.bind_eq_bind, Option.bind_some, hbase]
    exact isSome_valueAt himg _
  obtain ⟨values, htable⟩ := Option.isSome_iff_exists.mp (Raster.tabulate?_isSome_iff.mpr hvalues)
  refine ⟨values, ?_, Raster.length_of_tabulate?_eq_some htable⟩
  rw [extractFeaturePixelValues, htform]
  exact htable

/-! ## Trees -/

namespace RegressionTree

variable {tree : RegressionTree F} {values : List F} {shape : ℕ}

theorem isSome_test (h : tree.WellFormed values.length shape) {i : ℕ} (hi : i < tree.splits.length) :
    (tree.test A values i).isSome := by
  have hsplit := List.getElem_mem hi
  simp only [test, List.getElem?_eq_getElem hi, Option.bind_eq_bind, Option.bind_some,
    List.getElem?_eq_getElem (h.idx1_lt _ hsplit), List.getElem?_eq_getElem (h.idx2_lt _ hsplit),
    Option.isSome_some]

theorem exists_apply (h : tree.WellFormed values.length shape) :
    ∃ leaf_idx leaf, tree.apply A values = some (leaf_idx, leaf) ∧ leaf.length = shape := by
  obtain ⟨node, hnode⟩ := Option.isSome_iff_exists.mp
    (HeapTree.isSome_descend? (fun k hk ↦ @isSome_test F A tree values shape h k hk) 0)
  have hrange := HeapTree.range_of_descend? hnode (Nat.zero_le _)
  have hleaf : node - tree.splits.length < tree.leaf_values.length := by
    rw [h.leaves]
    omega
  refine ⟨node - tree.splits.length, tree.leaf_values[node - tree.splits.length], ?_,
    h.leaf_size _ (List.getElem_mem hleaf)⟩
  simp only [apply, hnode, Option.bind_eq_bind, Option.bind_some, List.getElem?_eq_getElem hleaf]

theorem getElem?_of_apply {selected : ℕ × List F} (h : tree.apply A values = some selected) :
    tree.leaf_values[selected.1]? = some selected.2 := by
  simp only [apply, Option.bind_eq_bind, Option.bind_eq_some_iff, Option.some_inj] at h
  obtain ⟨node, -, leaf, hleaf, rfl⟩ := h
  exact hleaf

theorem fst_lt_of_apply {selected : ℕ × List F} (h : tree.apply A values = some selected) :
    selected.1 < tree.numLeaves :=
  (List.getElem?_eq_some_iff.mp (getElem?_of_apply h)).1

/-- **The selected leaf** of a tree with `d` full levels: the outcomes of the tests on the way to it
are the binary digits of its index. -/
theorem apply_eq_some_iff {d leaf_idx : ℕ} {leaf : List F} (hsplits : tree.splits.length = 2 ^ d - 1)
    (hleaf : leaf_idx < 2 ^ d) :
    tree.apply A values = some (leaf_idx, leaf) ↔
      tree.leaf_values[leaf_idx]? = some leaf ∧ ∀ l < d,
        tree.test A values (2 ^ l - 1 + leaf_idx / 2 ^ (d - l))
          = some (decide (leaf_idx / 2 ^ (d - l - 1) % 2 = 0)) := by
  rw [← HeapTree.descend?_full_eq_some_iff hleaf]
  simp only [apply, hsplits, Option.bind_eq_bind, Option.bind_eq_some_iff, Option.some_inj,
    Prod.mk.injEq]
  constructor
  · rintro ⟨node, hnode, leaf', hleaf', rfl, rfl⟩
    have hrange := HeapTree.range_of_descend? hnode (Nat.zero_le _)
    exact ⟨hleaf', by rw [hnode, Nat.add_sub_cancel' hrange.1]⟩
  · rintro ⟨hvalue, hnode⟩
    exact ⟨_, hnode, leaf, by rwa [Nat.add_sub_cancel_left], Nat.add_sub_cancel_left .., rfl⟩

/-- The tree with one test, on a level with one pixel. -/
theorem apply_eq_some_iff_stump :
    (RegressionTree.mk [⟨0, 0, single 0⟩] [[single 1, single 2], [single 3, single 4]]).apply
          uprightArithmetic [single 5] = some (1, [single 3, single 4]) ↔
      [[single 1, single 2], [single 3, single 4]][1]? = some [single 3, single 4] ∧ ∀ l < 1,
        (RegressionTree.mk [⟨0, 0, single 0⟩] [[single 1, single 2], [single 3, single 4]]).test
          uprightArithmetic [single 5] (2 ^ l - 1 + 1 / 2 ^ (1 - l))
          = some (decide (1 / 2 ^ (1 - l - 1) % 2 = 0)) :=
  apply_eq_some_iff rfl (by decide)

end RegressionTree

/-! ## The cascade -/

namespace ShapePredictor

variable {model : ShapePredictor F} {img : Array2d}

theorem exists_treeStep {forest : List (RegressionTree F)} {values : List F} {shape : List F} {i : ℕ}
    (hforest : ∀ tree ∈ forest, tree.WellFormed values.length shape.length) (hi : i < forest.length) :
    ∃ shape', treeStep A forest values shape i = some shape' ∧ shape'.length = shape.length := by
  obtain ⟨leaf_idx, leaf, happly, hleaf⟩ :=
    @RegressionTree.exists_apply F A _ _ _ (hforest _ (List.getElem_mem hi))
  refine ⟨addAssign A shape leaf, ?_, length_addAssign hleaf⟩
  simp only [treeStep, List.getElem?_eq_getElem hi, Option.bind_eq_bind, Option.bind_some, happly]

theorem WellFormed.exists_level (h : model.WellFormed) {iter : ℕ} (hiter : iter < model.forests.length) :
    ∃ anchors deltas forest, model.anchor_idx[iter]? = some anchors ∧
      model.deltas[iter]? = some deltas ∧ model.forests[iter]? = some forest ∧
      anchors.length = deltas.length := by
  have hlengths : model.anchor_idx.length = model.deltas.length := by
    simpa using congrArg List.length h.anchors
  have hdeltas : iter < model.deltas.length := h.levels ▸ hiter
  have hanchors : iter < model.anchor_idx.length := hlengths ▸ hdeltas
  have hsame := congrArg (·[iter]?) h.anchors
  simp only [List.getElem?_map, List.getElem?_eq_getElem hdeltas, List.getElem?_eq_getElem hanchors,
    Option.map_some, Option.some_inj] at hsame
  exact ⟨_, _, _, List.getElem?_eq_getElem hanchors, List.getElem?_eq_getElem hdeltas,
    List.getElem?_eq_getElem hiter, hsame⟩

theorem exists_levelValues (h : model.WellFormed) (himg : img.Rectangular) (rect : Rectangle)
    {shape : List F} (hshape : shape.length = model.initial_shape.length) {iter : ℕ}
    (hiter : iter < model.forests.length) :
    ∃ values forest, model.levelValues A img rect shape iter = some values ∧
      model.forests[iter]? = some forest ∧
      ∀ tree ∈ forest, tree.WellFormed values.length model.initial_shape.length := by
  obtain ⟨anchors, deltas, forest, hanchors, hdeltas, hforest, hlength⟩ := h.exists_level hiter
  have hlt : ∀ anchor ∈ anchors, anchor < shape.length / 2 := by
    rw [hshape]
    exact h.anchor_lt _ (List.mem_of_getElem? hanchors)
  obtain ⟨values, hvalues, hcount⟩ := @exists_extractFeaturePixelValues F A img himg rect shape
    model.initial_shape hshape.symm anchors deltas hlength hlt
  refine ⟨values, forest, ?_, hforest, ?_⟩
  · simp only [levelValues, hanchors, hdeltas, Option.bind_eq_bind, Option.bind_some]
    exact hvalues
  · rw [hcount]
    exact h.trees iter forest deltas hforest hdeltas

theorem exists_levelStep (h : model.WellFormed) (himg : img.Rectangular) (rect : Rectangle)
    {shape : List F} (hshape : shape.length = model.initial_shape.length) {iter : ℕ}
    (hiter : iter < model.forests.length) :
    ∃ shape', model.levelStep A img rect shape iter = some shape' ∧
      shape'.length = model.initial_shape.length := by
  obtain ⟨values, forest, hvalues, hforest, htrees⟩ :=
    @exists_levelValues F A model img h himg rect shape hshape iter hiter
  obtain ⟨shape', hloop, hshape'⟩ :
      ∃ shape', Raster.forRange? forest.length (treeStep A forest values) shape = some shape' ∧
        shape'.length = model.initial_shape.length := by
    refine Raster.forRange?_total (fun _ (shape : List F) ↦ shape.length = model.initial_shape.length) hshape ?_
    intro i shape hi hsize
    obtain ⟨shape', hstep, hsize'⟩ := @exists_treeStep F A forest values shape i (hsize ▸ htrees) hi
    exact ⟨shape', hstep, hsize'.trans hsize⟩
  refine ⟨shape', ?_, hshape'⟩
  simp only [levelStep, hvalues, hforest, Option.bind_eq_bind, Option.bind_some]
  exact hloop

/-- **No evaluation leaves the vectors** of a well-formed predictor, whatever the picture, the
rectangle and the arithmetic. The detection has all the parts. -/
theorem exists_apply_of_wellFormed (h : model.WellFormed) (himg : img.Rectangular) (rect : Rectangle) :
    ∃ detection, model.apply A img rect = some detection ∧ detection.rect = rect ∧
      detection.parts.length = model.numParts := by
  obtain ⟨shape, hloop, hshape⟩ :
      ∃ shape, Raster.forRange? model.forests.length (model.levelStep A img rect) model.initial_shape
          = some shape ∧ shape.length = model.initial_shape.length :=
    Raster.forRange?_total (fun _ (shape : List F) ↦ shape.length = model.initial_shape.length) rfl
      fun iter shape hiter hsize ↦ exists_levelStep h himg rect hsize hiter
  obtain ⟨parts, hparts, hlength⟩ := @exists_partsOf F A rect shape
  refine ⟨{ rect := rect, parts := parts }, ?_, rfl, ?_⟩
  · simp only [apply, hloop, hparts, Option.bind_eq_bind, Option.bind_some]
  · rw [hlength, hshape, numParts]

/-! ## The overload with features -/

theorem map_featTreeStep (forest : List (RegressionTree F)) (values : List F) (s : FeatState F) (i : ℕ) :
    (featTreeStep A forest values s i).map FeatState.current_shape
      = treeStep A forest values s.current_shape i := by
  simp only [featTreeStep, treeStep, Option.bind_eq_bind]
  cases forest[i]? with
  | none => rfl
  | some tree =>
    simp only [Option.bind_some]
    cases tree.apply A values <;> rfl

theorem map_featLevelStep (img : Array2d) (rect : Rectangle) (s : FeatState F) (iter : ℕ) :
    (model.featLevelStep A img rect s iter).map FeatState.current_shape
      = model.levelStep A img rect s.current_shape iter := by
  simp only [featLevelStep, levelStep, Option.bind_eq_bind]
  cases model.levelValues A img rect s.current_shape iter with
  | none => rfl
  | some values =>
    simp only [Option.bind_some]
    cases model.forests[iter]? with
    | none => rfl
    | some forest =>
      exact Raster.forRange?_map _ (fun i t _ ↦ map_featTreeStep forest values t i) s

/-- **The two overloads agree**: they read the same, and where one has a detection so has the other,
the same one. -/
theorem map_fst_applyFeats (model : ShapePredictor F) (img : Array2d) (rect : Rectangle) :
    (model.applyFeats A img rect).map Prod.fst = model.apply A img rect := by
  have hloop := Raster.forRange?_map FeatState.current_shape (n := model.forests.length)
    (fun iter t _ ↦ @map_featLevelStep F A model img rect t iter)
    { current_shape := model.initial_shape, feats := [], feat_offset := 0 }
  simp only [applyFeats, apply, Option.bind_eq_bind]
  rw [← hloop]
  cases Raster.forRange? model.forests.length (model.featLevelStep A img rect) _ with
  | none => rfl
  | some s =>
    simp only [Option.bind_some, Option.map_some]
    cases partsOf A rect s.current_shape <;> rfl

/-- The feature of a tree is one of its leaves, counted behind the leaves of the trees before it. -/
structure SelectsLeaves (trees : List (RegressionTree F)) (feats : List (ℕ × ℕ)) : Prop where
  length_eq : feats.length = trees.length
  getElem? : ∀ (k : ℕ) (tree : RegressionTree F), trees[k]? = some tree →
    ∃ leaf_idx < tree.numLeaves,
      feats[k]? = some (((trees.take k).map RegressionTree.numLeaves).sum + leaf_idx, 1)

/-- The loop invariant behind the trees handled so far. -/
structure FeatInv (trees : List (RegressionTree F)) (s : FeatState F) : Prop where
  selects : SelectsLeaves trees s.feats
  feat_offset_eq : s.feat_offset = (trees.map RegressionTree.numLeaves).sum

theorem featInv_featTreeStep {trees forest : List (RegressionTree F)} {values : List F}
    {s s' : FeatState F} {i : ℕ} (hi : i < forest.length) (hs : FeatInv trees s)
    (h : featTreeStep A forest values s i = some s') : FeatInv (trees ++ [forest[i]]) s' := by
  simp only [featTreeStep, List.getElem?_eq_getElem hi, Option.bind_eq_bind, Option.bind_some,
    Option.bind_eq_some_iff, Option.some_inj] at h
  obtain ⟨selected, hselected, rfl⟩ := h
  have hlt := RegressionTree.fst_lt_of_apply hselected
  refine ⟨⟨?_, fun k tree htree ↦ ?_⟩, ?_⟩
  · simp only [List.length_append, List.length_singleton, hs.selects.length_eq]
  · have hk : k < trees.length + 1 := by
      simpa using (List.getElem?_eq_some_iff.mp htree).1
    rcases Nat.lt_succ_iff_lt_or_eq.mp hk with hk | rfl
    · rw [List.getElem?_append_left hk] at htree
      rw [List.take_append_of_le_length hk.le,
        List.getElem?_append_left (by rw [hs.selects.length_eq]; exact hk)]
      exact hs.selects.getElem? k tree htree
    · rw [List.getElem?_concat_length, Option.some_inj] at htree
      subst htree
      refine ⟨selected.1, hlt, ?_⟩
      rw [List.take_left, ← hs.feat_offset_eq, ← hs.selects.length_eq, List.getElem?_concat_length]
  · simp only [hs.feat_offset_eq, List.map_append, List.map_singleton, List.sum_append,
      List.sum_singleton]

theorem featInv_featLevelStep {rect : Rectangle} {s s' : FeatState F} {iter : ℕ}
    (hiter : iter < model.forests.length) (hs : FeatInv (model.forests.take iter).flatten s)
    (h : model.featLevelStep A img rect s iter = some s') :
    FeatInv (model.forests.take (iter + 1)).flatten s' := by
  simp only [featLevelStep, List.getElem?_eq_getElem hiter, Option.bind_eq_bind, Option.bind_some,
    Option.bind_eq_some_iff] at h
  obtain ⟨values, -, hloop⟩ := h
  rw [List.take_succ_eq_append_getElem hiter, List.flatten_append, List.flatten_singleton]
  have hinner := Raster.forRange?_induction
    (fun i t ↦ FeatInv ((model.forests.take iter).flatten ++ model.forests[iter].take i) t)
    (by rwa [List.take_zero, List.append_nil])
    (fun i t t' hi ht hstep ↦ by
      rw [List.take_succ_eq_append_getElem hi, ← List.append_assoc]
      exact featInv_featTreeStep hi ht hstep) hloop
  rwa [List.take_length] at hinner

theorem selectsLeaves_applyFeats {rect : Rectangle} {detection : FullObjectDetection}
    {feats : List (ℕ × ℕ)} (h : model.applyFeats A img rect = some (detection, feats)) :
    SelectsLeaves model.forests.flatten feats := by
  simp only [applyFeats, Option.bind_eq_bind, Option.bind_eq_some_iff, Option.some_inj,
    Prod.mk.injEq] at h
  obtain ⟨s, hloop, parts, -, -, rfl⟩ := h
  have hrun := Raster.forRange?_induction
    (fun iter t ↦ FeatInv (model.forests.take iter).flatten t)
    ⟨⟨rfl, fun k tree htree ↦ absurd htree (by simp)⟩, rfl⟩
    (fun iter t t' hiter ht hstep ↦ featInv_featLevelStep hiter ht hstep) hloop
  rw [List.take_length] at hrun
  exact hrun.selects

/-! ### Features are numbers of their own -/

theorem sum_take_le (counts : List ℕ) {k k' : ℕ} (h : k ≤ k') :
    (counts.take k).sum ≤ (counts.take k').sum := by
  obtain ⟨d, rfl⟩ := Nat.exists_eq_add_of_le h
  rw [List.take_add, List.sum_append]
  exact Nat.le_add_right _ _

theorem SelectsLeaves.range {trees : List (RegressionTree F)} {feats : List (ℕ × ℕ)}
    (h : SelectsLeaves trees feats) {k : ℕ} (hk : k < feats.length) :
    ((trees.map RegressionTree.numLeaves).take k).sum ≤ feats[k].1 ∧
      feats[k].1 < ((trees.map RegressionTree.numLeaves).take (k + 1)).sum ∧ feats[k].2 = 1 := by
  have hk' : k < trees.length := h.length_eq ▸ hk
  obtain ⟨leaf_idx, hlt, hfeat⟩ := h.getElem? k trees[k] (List.getElem?_eq_getElem hk')
  rw [List.getElem?_eq_getElem hk, Option.some_inj] at hfeat
  rw [List.take_succ_eq_append_getElem (by simpa using hk'), List.sum_append, List.sum_singleton,
    List.getElem_map, ← List.map_take, hfeat]
  exact ⟨Nat.le_add_right _ _, Nat.add_lt_add_left hlt _, rfl⟩

/-- **The features of a detection**: one for each tree, in increasing order, and all of them below
`num_features()`. -/
theorem feats_applyFeats {rect : Rectangle} {detection : FullObjectDetection} {feats : List (ℕ × ℕ)}
    (h : model.applyFeats A img rect = some (detection, feats)) :
    feats.length = model.forests.flatten.length ∧ feats.Pairwise (fun f g ↦ f.1 < g.1) ∧
      ∀ f ∈ feats, f.1 < model.numFeatures ∧ f.2 = 1 := by
  have hselects := selectsLeaves_applyFeats h
  refine ⟨hselects.length_eq, ?_, fun f hf ↦ ?_⟩
  · rw [List.pairwise_iff_getElem]
    intro k k' hk hk' hlt
    calc feats[k].1 < _ := (hselects.range hk).2.1
      _ ≤ _ := sum_take_le _ hlt
      _ ≤ feats[k'].1 := (hselects.range hk').1
  · obtain ⟨k, hk, rfl⟩ := List.getElem_of_mem hf
    refine ⟨(hselects.range hk).2.1.trans_le ?_, (hselects.range hk).2.2⟩
    calc _ ≤ ((model.forests.flatten.map RegressionTree.numLeaves).take
          (model.forests.flatten.map RegressionTree.numLeaves).length).sum :=
          sum_take_le _ (by rw [List.length_map, ← hselects.length_eq]; exact hk)
      _ = model.numFeatures := by rw [List.take_length, numFeatures]

/-- Two trees without tests. -/
theorem feats_applyFeats_leaves :
    ∃ detection feats,
      (ShapePredictor.mk [single 0, single 0]
          [[⟨[], [[single 1, single 2]]⟩, ⟨[], [[single 3, single 4]]⟩]] [[]] [[]]).applyFeats
          uprightArithmetic [] (getRect 4 4) = some (detection, feats) ∧
        feats.length = 2 ∧ feats.Pairwise (fun f g ↦ f.1 < g.1) ∧ ∀ f ∈ feats, f.1 < 2 ∧ f.2 = 1 := by
  have hleaf : ∀ leaf : List Single, (RegressionTree.mk [] [leaf]).apply uprightArithmetic []
      = some (0, leaf) := by
    simp [RegressionTree.apply, HeapTree.descend?_of_le]
  obtain ⟨⟨detection, feats⟩, hfeats⟩ : ∃ result,
      (ShapePredictor.mk [single 0, single 0]
        [[⟨[], [[single 1, single 2]]⟩, ⟨[], [[single 3, single 4]]⟩]] [[]] [[]]).applyFeats
        uprightArithmetic [] (getRect 4 4) = some result := by
    simp [applyFeats, featLevelStep, featTreeStep, levelValues, extractFeaturePixelValues,
      findTformBetweenShapes, Raster.forRange?, Raster.tabulate?, partsOf, location, addAssign, hleaf,
      List.range_succ]
  exact ⟨detection, feats, hfeats, feats_applyFeats hfeats⟩

end ShapePredictor

end FacialLandmark
