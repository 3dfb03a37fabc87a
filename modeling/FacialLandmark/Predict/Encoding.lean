import FacialLandmark.Predict.Bounds

/-!
# Pixels relative to a shape

A predictor is built from pixel coordinates. `create_shape_relative_encoding` turns each of them into
the nearest landmark of the mean shape and an offset from it, and `extract_feature_pixel_values`
turns these back into pixels, relative to the current shape.

The constructor asks for less than an evaluation needs: a mean shape may be empty, where the encoding
of a pixel reads a landmark all the same, and nothing is said about the size of the leaves. In `float`
the nearest landmark is the first one of the smallest distance that is computed, and an offset is the
difference that is computed, so a pixel need not be the sum of its landmark and its offset.
-/

namespace FacialLandmark

open BinaryFloat

/-! ## The encoding -/

section Encoding

variable {F : Type} (A : FloatArithmetic F)

def FloatPoint.lengthSquared (p : FloatPoint F) : F := A.add (A.mul p.x p.x) (A.mul p.y p.y)

/-- The body of the loop of `nearest_shape_point`, on `best_dist` and `best_idx`. -/
def nearestStep (shape : List F) (pt : FloatPoint F) (best : F × ℕ) (j : ℕ) : Option (F × ℕ) := do
  let p ← location shape j
  let dist := (p.sub A pt).lengthSquared A
  some (if A.lt dist best.1 then (dist, j) else best)

def nearestShapePoint (shape : List F) (pt : FloatPoint F) : Option ℕ := do
  let best ← Raster.forRange? (shape.length / 2) (nearestStep A shape pt) (A.infinity, 0)
  some best.2

/-- The body of the loop of `create_shape_relative_encoding`: `anchor_idx[i]` and `deltas[i]`. -/
def encodePixel (shape : List F) (pixel_coordinates : List (FloatPoint F)) (i : ℕ) :
    Option (ℕ × FloatPoint F) := do
  let pixel ← pixel_coordinates[i]?
  let anchor ← nearestShapePoint A shape pixel
  let base ← location shape anchor
  some (anchor, pixel.sub A base)

def createShapeRelativeEncoding (shape : List F) (pixel_coordinates : List (FloatPoint F)) :
    Option (List ℕ × List (FloatPoint F)) := do
  let encoded ← Raster.tabulate? (encodePixel A shape pixel_coordinates) pixel_coordinates.length
  some (encoded.map Prod.fst, encoded.map Prod.snd)

/-- `shape_predictor(initial_shape_, forests_, pixel_coordinates)`. -/
def ShapePredictor.construct (initial_shape : List F) (forests : List (List (RegressionTree F)))
    (pixel_coordinates : List (List (FloatPoint F))) : Option (ShapePredictor F) := do
  let encodings ← Raster.tabulate?
    (fun i ↦ do
      let pixels ← pixel_coordinates[i]?
      createShapeRelativeEncoding A initial_shape pixels)
    pixel_coordinates.length
  some
    { initial_shape := initial_shape
      forests := forests
      anchor_idx := encodings.map Prod.fst
      deltas := encodings.map Prod.snd }

variable {A} {shape : List F}

theorem exists_nearestShapePoint (h : 0 < shape.length / 2) (pt : FloatPoint F) :
    ∃ idx < shape.length / 2, nearestShapePoint A shape pt = some idx := by
  obtain ⟨best, hloop, hbest⟩ :
      ∃ best, Raster.forRange? (shape.length / 2) (nearestStep A shape pt) (A.infinity, 0) = some best ∧
        best.2 < shape.length / 2 := by
    refine Raster.forRange?_total (fun _ (best : F × ℕ) ↦ best.2 < shape.length / 2) h ?_
    intro j best hj hbest
    obtain ⟨p, hp⟩ := exists_location hj
    refine ⟨_, by rw [nearestStep, hp]; rfl, ?_⟩
    split
    · exact hj
    · exact hbest
  exact ⟨best.2, hbest, by rw [nearestShapePoint, hloop]; rfl⟩

theorem encodePixel_of_encoding {pixels deltas : List (FloatPoint F)} {anchors : List ℕ}
    (h : createShapeRelativeEncoding A shape pixels = some (anchors, deltas)) :
    anchors.length = pixels.length ∧ deltas.length = pixels.length ∧
      ∀ (i : ℕ) (anchor : ℕ) (delta : FloatPoint F), anchors[i]? = some anchor → deltas[i]? = some delta →
        encodePixel A shape pixels i = some (anchor, delta) := by
  simp only [createShapeRelativeEncoding, Option.bind_eq_bind, Option.bind_eq_some_iff, Option.some_inj,
    Prod.mk.injEq] at h
  obtain ⟨encoded, htable, rfl, rfl⟩ := h
  have hlength := Raster.length_of_tabulate?_eq_some htable
  refine ⟨by rw [List.length_map, hlength], by rw [List.length_map, hlength], ?_⟩
  intro i anchor delta hanchor hdelta
  rw [List.getElem?_map, Option.map_eq_some_iff] at hanchor hdelta
  obtain ⟨code, hcode, rfl⟩ := hanchor
  obtain ⟨code', hcode', rfl⟩ := hdelta
  rw [hcode, Option.some_inj] at hcode'
  have hi : i < pixels.length := by
    rw [← hlength]
    exact (List.getElem?_eq_some_iff.mp hcode).1
  rw [← Raster.getElem?_of_tabulate?_eq_some htable hi, hcode, hcode']

theorem exists_encoding (h : 0 < shape.length / 2) (pixels : List (FloatPoint F)) :
    ∃ anchors deltas, createShapeRelativeEncoding A shape pixels = some (anchors, deltas) ∧
      anchors.length = pixels.length ∧ deltas.length = pixels.length ∧
      ∀ anchor ∈ anchors, anchor < shape.length / 2 := by
  have hentries : ∀ i < pixels.length, ∃ anchor < shape.length / 2, ∃ delta,
      encodePixel A shape pixels i = some (anchor, delta) := by
    intro i hi
    obtain ⟨anchor, hlt, hanchor⟩ := @exists_nearestShapePoint F A shape h pixels[i]
    obtain ⟨base, hbase⟩ := exists_location hlt
    refine ⟨anchor, hlt, pixels[i].sub A base, ?_⟩
    simp only [encodePixel, List.getElem?_eq_getElem hi, Option.bind_eq_bind, Option.bind_some, hanchor,
      hbase]
  obtain ⟨encoded, htable, hlength⟩ := Raster.exists_tabulate? fun i hi ↦ by
    obtain ⟨anchor, -, delta, hcode⟩ := hentries i hi
    exact ⟨_, hcode⟩
  have hencoding : createShapeRelativeEncoding A shape pixels
      = some (encoded.map Prod.fst, encoded.map Prod.snd) := by
    rw [createShapeRelativeEncoding, htable]
    rfl
  refine ⟨_, _, hencoding, by rw [List.length_map, hlength], by rw [List.length_map, hlength], ?_⟩
  intro anchor hanchor
  obtain ⟨code, hcode, rfl⟩ := List.mem_map.mp hanchor
  obtain ⟨i, hi, rfl⟩ := List.getElem_of_mem hcode
  obtain ⟨anchor, hlt, delta, hentry⟩ := hentries i (hlength ▸ hi)
  rw [← Raster.getElem?_of_tabulate?_eq_some htable (hlength ▸ hi), List.getElem?_eq_getElem hi,
    Option.some_inj] at hentry
  rw [hentry]
  exact hlt

/-! ## The predictor that is built -/

/-- What the constructor asks of a tree, for a level with so many pixels. -/
structure RegressionTree.Fits (pixels : ℕ) (tree : RegressionTree F) : Prop where
  idx1_lt : ∀ split ∈ tree.splits, split.idx1 < pixels
  idx2_lt : ∀ split ∈ tree.splits, split.idx2 < pixels
  full : ∃ d, tree.leaf_values.length = 2 ^ d
  leaves : tree.leaf_values.length = tree.splits.length + 1

/-- The requires clause of the constructor. -/
structure ShapePredictor.Requires (initial_shape : List F) (forests : List (List (RegressionTree F)))
    (pixel_coordinates : List (List (FloatPoint F))) : Prop where
  even : initial_shape.length % 2 = 0
  levels : forests.length = pixel_coordinates.length
  trees : ∀ (iter : ℕ) (forest : List (RegressionTree F)) (pixels : List (FloatPoint F)),
    forests[iter]? = some forest → pixel_coordinates[iter]? = some pixels →
      ∀ tree ∈ forest, tree.Fits pixels.length

theorem encoding_of_construct {model : ShapePredictor F} {forests : List (List (RegressionTree F))}
    {pixel_coordinates : List (List (FloatPoint F))}
    (h : ShapePredictor.construct A shape forests pixel_coordinates = some model) :
    model.initial_shape = shape ∧ model.forests = forests ∧
      model.anchor_idx.length = pixel_coordinates.length ∧
      model.deltas.length = pixel_coordinates.length ∧
      ∀ (iter : ℕ) (pixels : List (FloatPoint F)), pixel_coordinates[iter]? = some pixels →
        ∃ anchors deltas, model.anchor_idx[iter]? = some anchors ∧ model.deltas[iter]? = some deltas ∧
          createShapeRelativeEncoding A shape pixels = some (anchors, deltas) := by
  simp only [ShapePredictor.construct, Option.bind_eq_bind, Option.bind_eq_some_iff,
    Option.some_inj] at h
  obtain ⟨encodings, htable, rfl⟩ := h
  have hlength := Raster.length_of_tabulate?_eq_some htable
  refine ⟨rfl, rfl, by rw [List.length_map, hlength], by rw [List.length_map, hlength], ?_⟩
  intro iter pixels hpixels
  have hiter : iter < pixel_coordinates.length := (List.getElem?_eq_some_iff.mp hpixels).1
  have hentry := Raster.getElem?_of_tabulate?_eq_some htable hiter
  rw [hpixels, Option.bind_some, List.getElem?_eq_getElem (by rw [hlength]; exact hiter)] at hentry
  have hget : encodings[iter]? = some encodings[iter] := List.getElem?_eq_getElem _
  refine ⟨encodings[iter].1, encodings[iter].2, ?_, ?_, hentry.symm⟩
  · rw [List.getElem?_map, hget, Option.map_some]
  · rw [List.getElem?_map, hget, Option.map_some]

theorem encoding_bounds (h : 0 < shape.length / 2) {pixels deltas : List (FloatPoint F)}
    {anchors : List ℕ} (hencoding : createShapeRelativeEncoding A shape pixels = some (anchors, deltas)) :
    anchors.length = pixels.length ∧ deltas.length = pixels.length ∧
      ∀ anchor ∈ anchors, anchor < shape.length / 2 := by
  obtain ⟨anchors', deltas', hencoding', hbounds⟩ := @exists_encoding F A shape h pixels
  rw [hencoding, Option.some_inj, Prod.mk.injEq] at hencoding'
  obtain ⟨rfl, rfl⟩ := hencoding'
  exact hbounds

theorem isSome_createShapeRelativeEncoding_iff (heven : shape.length % 2 = 0)
    (pixels : List (FloatPoint F)) :
    (createShapeRelativeEncoding A shape pixels).isSome ↔ shape ≠ [] ∨ pixels = [] := by
  by_cases hshape : shape = []
  · subst hshape
    rw [createShapeRelativeEncoding]
    cases pixels with
    | nil => exact iff_of_true rfl (Or.inr rfl)
    | cons pixel pixels =>
      refine iff_of_false ?_ (by simp)
      rw [Option.bind_eq_bind, Option.isSome_bind, Option.any_eq_true]
      rintro ⟨encoded, htable, -⟩
      have hfirst := Raster.tabulate?_isSome_iff.mp (Option.isSome_of_mem htable) 0 (by simp)
      simp [encodePixel, nearestShapePoint, Raster.forRange?, location] at hfirst
  · have hpos : 0 < shape.length / 2 := by
      have hlength := List.length_pos_iff.mpr hshape
      omega
    obtain ⟨anchors, deltas, hencoding, -⟩ := @exists_encoding F A shape hpos pixels
    exact iff_of_true (Option.isSome_of_mem hencoding) (Or.inl hshape)

theorem isSome_construct_iff (heven : shape.length % 2 = 0) (forests : List (List (RegressionTree F)))
    (pixel_coordinates : List (List (FloatPoint F))) :
    (ShapePredictor.construct A shape forests pixel_coordinates).isSome
      ↔ shape ≠ [] ∨ ∀ pixels ∈ pixel_coordinates, pixels = [] := by
  have htable : (ShapePredictor.construct A shape forests pixel_coordinates).isSome
      ↔ ∀ i < pixel_coordinates.length, (do
          let pixels ← pixel_coordinates[i]?
          createShapeRelativeEncoding A shape pixels).isSome := by
    rw [← Raster.tabulate?_isSome_iff, ShapePredictor.construct, Option.bind_eq_bind,
      Option.isSome_bind, Option.any_eq_true]
    constructor
    · rintro ⟨encodings, htable, -⟩
      exact Option.isSome_of_mem htable
    · intro hsome
      obtain ⟨encodings, htable⟩ := Option.isSome_iff_exists.mp hsome
      exact ⟨encodings, htable, rfl⟩
  rw [htable]
  constructor
  · intro hall
    by_cases hshape : shape = []
    · refine Or.inr fun pixels hmem ↦ ?_
      obtain ⟨i, hi, rfl⟩ := List.getElem_of_mem hmem
      have hlevel := hall i hi
      rw [List.getElem?_eq_getElem hi, Option.bind_eq_bind, Option.bind_some,
        isSome_createShapeRelativeEncoding_iff heven] at hlevel
      exact hlevel.resolve_left (not_not_intro hshape)
    · exact Or.inl hshape
  · intro h i hi
    rw [List.getElem?_eq_getElem hi, Option.bind_eq_bind, Option.bind_some,
      isSome_createShapeRelativeEncoding_iff heven]
    exact h.imp_right fun hempty ↦ hempty _ (List.getElem_mem hi)

/-- A predictor that was built for at least one landmark, from trees with leaves of its size. -/
theorem wellFormed_of_construct {forests : List (List (RegressionTree F))}
    {pixel_coordinates : List (List (FloatPoint F))} {model : ShapePredictor F}
    (h : ShapePredictor.Requires shape forests pixel_coordinates)
    (hmodel : ShapePredictor.construct A shape forests pixel_coordinates = some model)
    (hpos : 0 < shape.length / 2)
    (hleaves : ∀ forest ∈ forests, ∀ tree ∈ forest, ∀ leaf ∈ tree.leaf_values,
      leaf.length = shape.length) : model.WellFormed := by
  obtain ⟨hshape, hforests, hanchors, hdeltas, hlevels⟩ := encoding_of_construct hmodel
  have hlevel : ∀ {iter : ℕ}, iter < pixel_coordinates.length → ∃ pixels anchors deltas,
      pixel_coordinates[iter]? = some pixels ∧ model.anchor_idx[iter]? = some anchors ∧
        model.deltas[iter]? = some deltas ∧ anchors.length = pixels.length ∧
        deltas.length = pixels.length ∧ ∀ anchor ∈ anchors, anchor < shape.length / 2 := by
    intro iter hiter
    obtain ⟨anchors, deltas, hanchor, hdelta, hencoding⟩ :=
      hlevels iter _ (List.getElem?_eq_getElem hiter)
    exact ⟨_, anchors, deltas, List.getElem?_eq_getElem hiter, hanchor, hdelta,
      encoding_bounds hpos hencoding⟩
  constructor
  case numParts_pos =>
    rw [ShapePredictor.numParts, hshape]
    exact hpos
  case levels => rw [hforests, hdeltas, h.levels]
  case anchors =>
    refine List.ext_getElem? fun iter ↦ ?_
    rw [List.getElem?_map, List.getElem?_map]
    rcases Nat.lt_or_ge iter pixel_coordinates.length with hiter | hiter
    · obtain ⟨pixels, anchors, deltas, -, hanchor, hdelta, hlength, hlength', -⟩ := hlevel hiter
      rw [hanchor, hdelta, Option.map_some, Option.map_some, hlength, hlength']
    · rw [List.getElem?_eq_none (by rw [hanchors]; exact hiter),
        List.getElem?_eq_none (by rw [hdeltas]; exact hiter)]
      rfl
  case anchor_lt =>
    intro anchors hmem anchor hanchor
    obtain ⟨iter, hiter, rfl⟩ := List.getElem_of_mem hmem
    obtain ⟨pixels, anchors, deltas, -, hfound, -, -, -, hlt⟩ := hlevel (hanchors ▸ hiter)
    rw [List.getElem?_eq_getElem hiter, Option.some_inj] at hfound
    rw [ShapePredictor.numParts, hshape]
    exact hlt anchor (hfound ▸ hanchor)
  case trees =>
    intro iter forest deltas hforest hdelta tree htree
    have hiter : iter < pixel_coordinates.length := by
      rw [← hdeltas]
      exact (List.getElem?_eq_some_iff.mp hdelta).1
    obtain ⟨pixels, anchors, deltas', hpixels, -, hdelta', -, hlength, -⟩ := hlevel hiter
    rw [hdelta, Option.some_inj] at hdelta'
    rw [hdelta', hlength, hshape]
    rw [hforests] at hforest
    have hfits := h.trees iter forest pixels hforest hpixels tree htree
    exact ⟨hfits.idx1_lt, hfits.idx2_lt, hfits.leaves,
      hleaves forest (List.mem_of_getElem? hforest) tree htree⟩

/-- **What the requires clause is worth.** On arguments that satisfy it, the constructor reads a
landmark that is not there exactly if the mean shape is empty and a level has a pixel; and what it
builds is well-formed exactly if there is a landmark and all leaves are of the size of the shape. -/
theorem construct_of_requires {forests : List (List (RegressionTree F))}
    {pixel_coordinates : List (List (FloatPoint F))}
    (h : ShapePredictor.Requires shape forests pixel_coordinates) :
    ((ShapePredictor.construct A shape forests pixel_coordinates).isSome
      ↔ shape ≠ [] ∨ ∀ pixels ∈ pixel_coordinates, pixels = []) ∧
    ∀ model, ShapePredictor.construct A shape forests pixel_coordinates = some model →
      (model.WellFormed ↔ shape ≠ [] ∧ ∀ forest ∈ forests, ∀ tree ∈ forest, ∀ leaf ∈ tree.leaf_values,
        leaf.length = shape.length) := by
  refine ⟨isSome_construct_iff h.even forests pixel_coordinates, fun model hmodel ↦ ⟨fun hwell ↦ ?_, ?_⟩⟩
  · obtain ⟨hshape, hforests, -, -, -⟩ := encoding_of_construct hmodel
    have hpos := hwell.numParts_pos
    rw [ShapePredictor.numParts, hshape] at hpos
    refine ⟨fun hempty ↦ absurd hpos (by simp [hempty]), fun forest hforest tree htree ↦ ?_⟩
    obtain ⟨iter, hiter, rfl⟩ := List.getElem_of_mem hforest
    have hlevel : model.forests[iter]? = some forests[iter] := by
      rw [hforests, List.getElem?_eq_getElem hiter]
    have hdelta : iter < model.deltas.length := by
      rw [← hwell.levels, hforests]
      exact hiter
    have hsize := (hwell.trees iter _ _ hlevel (List.getElem?_eq_getElem hdelta) tree htree).leaf_size
    rwa [hshape] at hsize
  · rintro ⟨hshape, hleaves⟩
    have hpos : 0 < shape.length / 2 := by
      have hlength := List.length_pos_iff.mpr hshape
      have heven := h.even
      omega
    exact wellFormed_of_construct h hmodel hpos hleaves

/-- Two pixels around one landmark, and a tree whose leaves are too short. -/
theorem construct_of_requires_two :
    ((ShapePredictor.construct uprightArithmetic [single 1, single 2]
        [[⟨[⟨0, 1, single 5⟩], [[single 1], [single 2]]⟩]]
        [[⟨single 0, single 0⟩, ⟨single 3, single 3⟩]]).isSome
      ↔ [single 1, single 2] ≠ [] ∨ ∀ pixels ∈
          [[(⟨single 0, single 0⟩ : FloatPoint Single), ⟨single 3, single 3⟩]], pixels = []) ∧
    ∀ model, ShapePredictor.construct uprightArithmetic [single 1, single 2]
        [[⟨[⟨0, 1, single 5⟩], [[single 1], [single 2]]⟩]]
        [[⟨single 0, single 0⟩, ⟨single 3, single 3⟩]] = some model →
      (model.WellFormed ↔ [single 1, single 2] ≠ [] ∧
        ∀ forest ∈ [[(⟨[⟨0, 1, single 5⟩], [[single 1], [single 2]]⟩ : RegressionTree Single)]],
          ∀ tree ∈ forest, ∀ leaf ∈ tree.leaf_values, leaf.length = 2) := by
  refine construct_of_requires ⟨rfl, rfl, fun iter forest pixels hforest hpixels ↦ ?_⟩
  cases iter with
  | zero =>
    obtain rfl := Option.some_inj.mp hforest
    obtain rfl := Option.some_inj.mp hpixels
    simp only [List.mem_singleton, forall_eq]
    exact ⟨by simp, by simp, ⟨1, rfl⟩, rfl⟩
  | succ iter => exact absurd hforest (by simp)

end Encoding

/-! ## In `float` -/

section Floats

variable {find_similarity_transform :
    List (FloatPoint Single) → List (FloatPoint Single) → Matrix22 Single}
  {unnormalizing_tform : Rectangle → FloatPoint Single → Point} {shape : List Single}

def squaredDistance? {F : Type} (A : FloatArithmetic F) (shape : List F) (pt : FloatPoint F) (j : ℕ) :
    Option F :=
  (location shape j).map fun p ↦ (p.sub A pt).lengthSquared A

/-- Of the first `n` distances, `idx` is the first one of the smallest; or none of them is below
infinity, and `idx` is zero. -/
def FirstSmallest (distance? : ℕ → Option Single) (n idx : ℕ) : Prop :=
  (idx = 0 ∧ ∀ j < n, ∀ d ∈ distance? j, ¬d.lt (.infinity false) = true) ∨
    idx < n ∧ ∃ best ∈ distance? idx, best.lt (.infinity false) = true ∧
      ∀ j < n, ∀ d ∈ distance? j, ¬d.lt best = true ∧ (j < idx → d = .nan ∨ best.lt d = true)

/-- The loop head that looks at distance `n`. -/
def SmallestHead (distance? : ℕ → Option Single) (n : ℕ) (best : Single × ℕ) : Prop :=
  (best = (.infinity false, 0) ∧ ∀ j < n, ∀ d ∈ distance? j, ¬d.lt (.infinity false) = true) ∨
    best.2 < n ∧ distance? best.2 = some best.1 ∧ best.1.lt (.infinity false) = true ∧
      ∀ j < n, ∀ d ∈ distance? j, ¬d.lt best.1 = true ∧ (j < best.2 → d = .nan ∨ best.1.lt d = true)

theorem SmallestHead.step {distance? : ℕ → Option Single} {n : ℕ} {best : Single × ℕ} {d : Single}
    (h : SmallestHead distance? n best) (hd : distance? n = some d) :
    SmallestHead distance? (n + 1) (if d.lt best.1 then (d, n) else best) := by
  have hlast : ∀ {P : ℕ → Single → Prop}, (∀ j < n, ∀ e ∈ distance? j, P j e) → P n d →
      ∀ j < n + 1, ∀ e ∈ distance? j, P j e := by
    intro P hbefore hn j hj e he
    rcases Nat.lt_succ_iff_lt_or_eq.mp hj with hj | rfl
    · exact hbefore j hj e he
    · rw [hd, Option.mem_some_iff] at he
      exact he ▸ hn
  split
  case isTrue hlt =>
    -- smaller than all before it, which are not below the best of them
    have hbelow : d.lt (.infinity false) = true ∧
        ∀ j < n, ∀ e ∈ distance? j, ¬e.lt best.1 = true := by
      rcases h with ⟨rfl, hall⟩ | ⟨-, -, hinfinity, hall⟩
      · exact ⟨hlt, hall⟩
      · refine ⟨?_, fun j hj e he ↦ (hall j hj e he).1⟩
        rcases Number.lt_of_lt_of_not_lt hlt (Number.not_lt_of_lt hinfinity) with hnan | hd'
        · exact absurd hnan (by simp)
        · exact hd'
    refine Or.inr ⟨Nat.lt_succ_self n, hd, hbelow.1, hlast (fun j hj e he ↦ ?_) ⟨?_, ?_⟩⟩
    · have hlarger := Number.lt_of_lt_of_not_lt hlt (hbelow.2 j hj e he)
      refine ⟨?_, fun _ ↦ hlarger⟩
      rcases hlarger with rfl | hlarger
      · simp [Number.lt]
      · exact Number.not_lt_of_lt hlarger
    · exact fun hself ↦ Number.not_lt_of_lt hself hself
    · exact fun hn ↦ absurd hn (lt_irrefl n)
  case isFalse hge =>
    rcases h with ⟨rfl, hall⟩ | ⟨hidx, hbest, hinfinity, hall⟩
    · exact Or.inl ⟨rfl, hlast hall hge⟩
    · exact Or.inr ⟨by omega, hbest, hinfinity, hlast hall ⟨hge, fun hn ↦ by omega⟩⟩

theorem exists_firstSmallest (hshape : 0 < shape.length / 2) (pt : FloatPoint Single) :
    ∃ idx < shape.length / 2,
      nearestShapePoint (singleArithmetic find_similarity_transform unnormalizing_tform) shape pt
        = some idx ∧
      FirstSmallest (squaredDistance? (singleArithmetic find_similarity_transform unnormalizing_tform)
        shape pt) (shape.length / 2) idx := by
  obtain ⟨A, hA⟩ : ∃ A, singleArithmetic find_similarity_transform unnormalizing_tform = A := ⟨_, rfl⟩
  have hinfinity : A.infinity = .infinity false := by rw [← hA]; rfl
  have hlt : A.lt = Number.lt := by rw [← hA]; rfl
  rw [hA]
  have hbody : ∀ j best, j < shape.length / 2 → SmallestHead (squaredDistance? A shape pt) j best →
      ∃ best', nearestStep A shape pt best j = some best' ∧
        SmallestHead (squaredDistance? A shape pt) (j + 1) best' := by
    intro j best hj hbest
    obtain ⟨p, hp⟩ := exists_location hj
    refine ⟨_, ?_, hbest.step (show squaredDistance? A shape pt j = some _ by
      rw [squaredDistance?, hp, Option.map_some])⟩
    simp only [nearestStep, hp, hlt, Option.bind_eq_bind, Option.bind_some]
  obtain ⟨best, hloop, hbest⟩ := Raster.forRange?_total (s := (A.infinity, 0)) _
    (Or.inl ⟨by rw [hinfinity], fun j hj ↦ absurd hj (Nat.not_lt_zero j)⟩) hbody
  have hvalue : nearestShapePoint A shape pt = some best.2 := by
    rw [nearestShapePoint, hloop]
    rfl
  rcases hbest with ⟨rfl, hall⟩ | ⟨hidx, hfound, hbelow, hall⟩
  · exact ⟨0, hshape, hvalue, Or.inl ⟨rfl, hall⟩⟩
  · exact ⟨best.2, hidx, hvalue, Or.inr ⟨hidx, best.1, hfound, hbelow, hall⟩⟩

/-- `z` is the difference of `x` and `y`, rounded, as long as this is not too large. -/
def IsDifference (x y z : Single) : Prop :=
  ∀ v w, HasValue x v → HasValue y w → |v - w| ≤ binary32.limit →
    HasValue z (binary32.nearest (v - w))

/-- **The encoding of pixels**: each anchor is the first landmark of the smallest distance that is
computed, and the offset is the difference between the pixel and this landmark, rounded. -/
theorem exists_createShapeRelativeEncoding (hshape : 0 < shape.length / 2)
    (pixels : List (FloatPoint Single)) :
    ∃ anchors deltas, createShapeRelativeEncoding
        (singleArithmetic find_similarity_transform unnormalizing_tform) shape pixels
        = some (anchors, deltas) ∧
      anchors.length = pixels.length ∧ deltas.length = pixels.length ∧
      ∀ (i : ℕ) (pixel : FloatPoint Single), pixels[i]? = some pixel →
        ∃ anchor delta base, anchors[i]? = some anchor ∧ deltas[i]? = some delta ∧
          FirstSmallest (squaredDistance?
            (singleArithmetic find_similarity_transform unnormalizing_tform) shape pixel)
            (shape.length / 2) anchor ∧
          location shape anchor = some base ∧
          IsDifference pixel.x base.x delta.x ∧ IsDifference pixel.y base.y delta.y := by
  obtain ⟨anchors, deltas, hencoding, hanchors, hdeltas, -⟩ := @exists_encoding Single
    (singleArithmetic find_similarity_transform unnormalizing_tform) shape hshape pixels
  refine ⟨anchors, deltas, hencoding, hanchors, hdeltas, fun i pixel hpixel ↦ ?_⟩
  have hi := (List.getElem?_eq_some_iff.mp hpixel).1
  have hanchor : anchors[i]? = some anchors[i] := List.getElem?_eq_getElem _
  have hdelta : deltas[i]? = some deltas[i] := List.getElem?_eq_getElem _
  have hcode := (encodePixel_of_encoding hencoding).2.2 i _ _ hanchor hdelta
  simp only [encodePixel, hpixel, Option.bind_eq_bind, Option.bind_some, Option.bind_eq_some_iff,
    Option.some_inj, Prod.mk.injEq] at hcode
  obtain ⟨idx, hidx, base, hbase, hanchor', hdiff⟩ := hcode
  obtain ⟨idx', -, hidx', hfirst⟩ := @exists_firstSmallest find_similarity_transform
    unnormalizing_tform shape hshape pixel
  rw [hidx, Option.some_inj] at hidx'
  subst hidx'
  refine ⟨_, _, base, hanchor, hdelta, hanchor' ▸ hfirst, hanchor' ▸ hbase, ?_, ?_⟩
  · rw [← hdiff]
    exact fun v w hv hw hlimit ↦ hv.sub hw hlimit
  · rw [← hdiff]
    exact fun v w hv hw hlimit ↦ hv.sub hw hlimit

/-- A pixel one away from zero, and a landmark so far away that the offset loses it. -/
theorem exists_createShapeRelativeEncoding_far :
    ∃ anchors deltas, createShapeRelativeEncoding uprightArithmetic [single 100000000, single 0]
        [⟨single 1, single 0⟩] = some (anchors, deltas) ∧
      anchors.length = 1 ∧ deltas.length = 1 ∧
      ∀ (i : ℕ) (pixel : FloatPoint Single), [(⟨single 1, single 0⟩ : FloatPoint Single)][i]?
          = some pixel →
        ∃ anchor delta base, anchors[i]? = some anchor ∧ deltas[i]? = some delta ∧
          FirstSmallest (squaredDistance? uprightArithmetic [single 100000000, single 0] pixel) 1
            anchor ∧
          location [single 100000000, single 0] anchor = some base ∧
          IsDifference pixel.x base.x delta.x ∧ IsDifference pixel.y base.y delta.y :=
  exists_createShapeRelativeEncoding (by decide) [⟨single 1, single 0⟩]

end Floats

end FacialLandmark
