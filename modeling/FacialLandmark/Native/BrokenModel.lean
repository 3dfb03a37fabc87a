import FacialLandmark.Dlib.Partial
import FacialLandmark.Native.DetectLandmark
import FacialLandmark.Native.SavedModel
import FacialLandmark.Predict.Single

/-!
# Detection with a model that was not loaded

`loadModel` catches the error of a file that is cut off, and `detectLandmark` does not ask whether
there was one: it evaluates what the load has left. Up to the number of levels that is a mean shape
without trees. From there on the predictor has levels whose pixels are not there, and an evaluation
looks them up, until the number of pixels of the last level is reached: then everything has its
length, and what is missing is zero.
-/

namespace FacialLandmark

open InPlace BinaryFloat

variable {F G : Type}

/-! ## Models with the same lengths -/

theorem RegressionTree.WellFormed.map {features shape : ℕ} {tree : RegressionTree F}
    (h : tree.WellFormed features shape) (f : F → G) : (tree.map f).WellFormed features shape where
  idx1_lt := List.forall_mem_map.mpr h.idx1_lt
  idx2_lt := List.forall_mem_map.mpr h.idx2_lt
  leaves := by simp only [RegressionTree.map, List.length_map, h.leaves]
  leaf_size := List.forall_mem_map.mpr fun leaf hleaf ↦ by
    rw [List.length_map, h.leaf_size leaf hleaf]

namespace ShapePredictor

/-- Of a predictor it is the trees and the lengths that make it well-formed. -/
theorem WellFormed.of_lengths {model : ShapePredictor F} {model' : ShapePredictor G}
    (h : model.WellFormed) (f : F → G)
    (hshape : model'.initial_shape.length = model.initial_shape.length)
    (hforests : model'.forests = (model.map f).forests) (hanchors : model'.anchor_idx = model.anchor_idx)
    (hdeltas : model'.deltas.map List.length = model.deltas.map List.length) : model'.WellFormed := by
  have hparts : model'.numParts = model.numParts := by rw [numParts, numParts, hshape]
  have hlevels : model'.deltas.length = model.deltas.length := by
    rw [← List.length_map, hdeltas, List.length_map]
  refine ⟨hparts ▸ h.numParts_pos, ?_, ?_, ?_, fun iter forest deltas hforest hlevel ↦ ?_⟩
  · rw [hforests, hlevels, ← h.levels, map, List.length_map]
  · rw [hanchors, hdeltas, h.anchors]
  · rw [hanchors, hparts]
    exact h.anchor_lt
  · rw [hforests, map, List.getElem?_map, Option.map_eq_some_iff] at hforest
    obtain ⟨forest, hforest, rfl⟩ := hforest
    have hlength : (model.deltas.map List.length)[iter]? = some deltas.length := by
      rw [← hdeltas, List.getElem?_map, hlevel, Option.map_some]
    rw [List.getElem?_map, Option.map_eq_some_iff] at hlength
    obtain ⟨deltas', hlevel', hlength⟩ := hlength
    rw [← hlength, hshape]
    exact List.forall_mem_map.mpr fun tree htree ↦
      (h.trees iter forest deltas' hforest hlevel' tree htree).map f

theorem WellFormed.map {model : ShapePredictor F} (h : model.WellFormed) (f : F → G) :
    (model.map f).WellFormed := by
  refine h.of_lengths f (List.length_map _) rfl rfl ?_
  rw [ShapePredictor.map, List.map_map]
  exact List.map_congr_left fun deltas _ ↦ List.length_map _

end ShapePredictor

theorem ShapePredictor.WellFormed.deltas_ne_nil {model : ShapePredictor F} (h : model.WellFormed)
    (hlevels : model.forests ≠ []) : model.deltas ≠ [] := by
  rw [← List.length_pos_iff] at hlevels ⊢
  rwa [← h.levels]

/-! ## Levels that cannot be evaluated -/

theorem RegressionTree.apply_nil {A : FloatArithmetic F} {tree : RegressionTree F}
    (h : tree.splits ≠ []) :
    tree.apply A [] = none := by
  have hpos : 0 < tree.splits.length := List.length_pos_iff.mpr h
  have htest : tree.test A [] 0 = none := by
    rw [RegressionTree.test, List.getElem?_eq_getElem hpos]
    rfl
  rw [RegressionTree.apply, HeapTree.descend?_of_none hpos htest]
  rfl

namespace ShapePredictor

variable {A : FloatArithmetic F} {model : ShapePredictor F} {img : Array2d} {rect : Rectangle}

theorem apply_eq_none {iter : ℕ} (hiter : iter < model.forests.length)
    (h : ∀ shape, model.levelStep A img rect shape iter = none) : model.apply A img rect = none := by
  rw [apply, Raster.forRange?_eq_none hiter h]
  rfl

theorem levelStep_of_no_deltas {iter : ℕ} (h : model.deltas[iter]? = none) (shape : List F) :
    model.levelStep A img rect shape iter = none := by
  have hvalues : model.levelValues A img rect shape iter = none := by
    rw [levelValues, h]
    cases model.anchor_idx[iter]? <;> rfl
  rw [levelStep, hvalues]
  rfl

theorem levelStep_of_no_pixels {iter : ℕ} {forest : List (RegressionTree F)} {tree : RegressionTree F}
    (hdeltas : model.deltas[iter]? = some []) (hforest : model.forests[iter]? = some forest)
    (htree : tree ∈ forest) (hsplits : tree.splits ≠ []) (shape : List F) :
    model.levelStep A img rect shape iter = none := by
  rw [levelStep, Option.bind_eq_bind, Option.bind_eq_none_iff]
  intro values hvalues
  have hnil : values = [] := by
    simp only [levelValues, hdeltas, extractFeaturePixelValues, Option.bind_eq_bind,
      Option.bind_eq_some_iff, Option.bind_some] at hvalues
    obtain ⟨_, -, _, -, htable⟩ := hvalues
    exact List.length_eq_zero_iff.mp (Raster.length_of_tabulate?_eq_some htable)
  obtain ⟨i, hi, rfl⟩ := List.getElem_of_mem htree
  rw [hnil, hforest, Option.bind_eq_bind, Option.bind_some]
  refine Raster.forRange?_eq_none hi (fun shape ↦ ?_) shape
  rw [treeStep, List.getElem?_eq_getElem hi, Option.bind_eq_bind, Option.bind_some,
    RegressionTree.apply_nil hsplits]
  rfl

theorem exists_apply_of_no_levels (h : model.forests = []) (img : Array2d) (rect : Rectangle) :
    ∃ detection, model.apply A img rect = some detection ∧
      detection.parts.length = model.initial_shape.length / 2 := by
  obtain ⟨parts, hparts, hlength⟩ := @exists_partsOf F A rect model.initial_shape
  refine ⟨{ rect := rect, parts := parts }, ?_, hlength⟩
  rw [apply, h, List.length_nil]
  simp only [Raster.forRange?, List.range_zero, List.foldlM_nil, hparts, Option.bind_eq_bind,
    Option.pure_def, Option.bind_some]

end ShapePredictor

/-! ## What comes of a piece of a file -/

section Pieces

variable {writer reader : Platform} {extract : List Byte → Extraction Single}
  {uninitialised : ℕ → Single} {path : String} {model r : ShapePredictor Single} {cut : List Byte}
  {A : FloatArithmetic Single} {img : Array2d}

/-- The predictor from a piece of a file is evaluated, to all parts or to none, or it is not, and that
depends on the piece. -/
theorem LoadedPart.apply (hpart : LoadedPart writer model cut r) (h : model.WellFormed)
    (hlevels : model.forests ≠ [])
    (hsplits : ∀ forest ∈ model.forests, ∃ tree ∈ forest, tree.splits ≠ [])
    (himg : img.Rectangular) (rect : Rectangle) :
    EndsInLevels writer model cut ∧ r.apply A img rect = none ∨
      ¬EndsInLevels writer model cut ∧ ∃ detection, r.apply A img rect = some detection ∧
        (¬throughRows writer model <+: cut ∧ detection.parts.length = 0 ∨
          throughRows writer model <+: cut ∧ detection.parts.length = model.numParts) := by
  have hpos : 0 < model.forests.length := List.length_pos_iff.mpr hlevels
  cases hpart with
  | beforeLevels hcut hforests hshape =>
    obtain ⟨detection, happly, hlength⟩ :=
      ShapePredictor.exists_apply_of_no_levels (A := A) hforests img rect
    refine Or.inr ⟨fun hmarks ↦ hcut hmarks.1, detection, happly, ?_⟩
    rw [hlength, ShapePredictor.numParts]
    exact hshape.imp (And.imp_right fun hnone ↦ by rw [hnone]) (And.imp_right fun hall ↦ by rw [hall])
  | beforePixels hcut hforests hdeltas =>
    refine Or.inl ⟨hcut, ?_⟩
    rcases hdeltas with hdeltas | ⟨hsame, hdeltas⟩
    · exact ShapePredictor.apply_eq_none (hforests ▸ hpos)
        (ShapePredictor.levelStep_of_no_deltas (by rw [hdeltas, List.getElem?_nil]))
    · -- the last level has its trees, and no pixels for them
      have hlast : model.deltas.length - 1 < model.forests.length := by
        have := h.levels
        omega
      obtain ⟨tree, htree, hne⟩ := hsplits _ (List.getElem_mem hlast)
      have hforest : r.forests[model.deltas.length - 1]?
          = some (model.forests[model.deltas.length - 1].map (·.map Number.unsignZero)) := by
        rw [hsame, ShapePredictor.unsignZeros, ShapePredictor.map, List.getElem?_map,
          List.getElem?_eq_getElem hlast, Option.map_some]
      have hne' : (tree.map Number.unsignZero).splits ≠ [] := by
        rwa [RegressionTree.map, Ne, List.map_eq_nil_iff]
      exact ShapePredictor.apply_eq_none (hforests ▸ hlast)
        (ShapePredictor.levelStep_of_no_pixels hdeltas hforest (List.mem_map_of_mem htree) hne')
  | behindPixels hcut hshape hforests hanchors hdeltas =>
    have hwell : r.WellFormed := h.of_lengths Number.unsignZero hshape hforests hanchors hdeltas
    obtain ⟨detection, happly, -, hlength⟩ :=
      ShapePredictor.exists_apply_of_wellFormed (A := A) hwell himg rect
    refine Or.inr ⟨fun hmarks ↦ hmarks.2 hcut, detection, happly,
      Or.inr ⟨(throughRows_prefix_append writer model _).trans hcut, ?_⟩⟩
    rw [hlength, ShapePredictor.numParts, hshape, ShapePredictor.numParts]

theorem loadedPart_unsignZeros (hdeltas : model.deltas ≠ []) :
    LoadedPart writer model (serializeShapePredictor writer model) model.unsignZeros := by
  refine .behindPixels (throughPixels_prefix_serialize writer hdeltas) (List.length_map _) rfl rfl ?_
  rw [ShapePredictor.unsignZeros, ShapePredictor.map, List.map_map]
  exact List.map_congr_left fun deltas _ ↦ List.length_map _

/-- Whatever comes of the load, the predictor is what it has stored. -/
theorem shapePredictor_loadModel {file : Option (List Byte)} {format : FloatFormat Single}
    {s : NativeState Single} (hfree : s.mutexLocked = false) :
    (loadModel reader format path file s).globals.shapePredictor
      = (deserializeFile reader format path file s.shapePredictor).1 := by
  rw [loadModel, hfree, if_neg (by decide)]
  split
  case h_1 predictor rest hload => rw [hload]
  case h_2 predictor info hload => rw [hload]
  case h_3 predictor e hload => rw [hload]

variable {bmp : Bitmap} {s : NativeState Single}

/-- The circles of a predictor from a piece of a file: all of them or none. -/
theorem LoadedPart.showLandmarks (hpart : LoadedPart writer model cut r) (h : model.WellFormed)
    (hlevels : model.forests ≠ [])
    (hsplits : ∀ forest ∈ model.forests, ∃ tree ∈ forest, tree.splits ≠ [])
    (hcount : model.numParts < 2 ^ 30) (hmoderate : bmp.Moderate)
    (hsize : EvenSize bmp.width bmp.height) :
    (throughRows writer model <+: cut ∧ ¬EndsInLevels writer model cut) ∧
        (∃ circles, showLandmarks A r bmp = some circles ∧ circles.length = model.numParts) ∨
      ¬(throughRows writer model <+: cut ∧ ¬EndsInLevels writer model cut) ∧
        showLandmarks A r bmp = none := by
  obtain ⟨yuv, img, out, hyuv, himg, hout, hrect, -, -⟩ := exists_picture hmoderate hsize
  rw [showLandmarks_eq A r hyuv himg hout]
  rcases hpart.apply (A := A) h hlevels hsplits hrect (region bmp.width bmp.height) with
    ⟨hends, hnone⟩ | ⟨hends, detection, hsome, ⟨hrows, hlength⟩ | ⟨hrows, hlength⟩⟩
  · exact Or.inr ⟨fun hboth ↦ hboth.2 hends, by rw [hnone, Option.bind_none]⟩
  · refine Or.inr ⟨fun hboth ↦ hrows hboth.1, ?_⟩
    rw [hsome, Option.bind_some, List.length_eq_zero_iff.mp hlength, handOff_nil]
  · have hpos : 0 < detection.parts.length := hlength ▸ h.numParts_pos
    rw [hsome, Option.bind_some, handOff_eq hpos (hlength ▸ hcount)]
    exact Or.inl ⟨⟨hrows, hends⟩, _, rfl, by rw [List.length_map, hlength]⟩

/-- **Detection after a copy that broke off.** In a process that has not loaded a model, `loadModel`
is called on a piece of the file of a model, of which each level has a tree that asks for pixels.
Then `detectLandmark` comes to its end on a moderate bitmap of even size, unless the piece ends between the number of
levels and the number of pixels of the last level. -/
theorem isSome_detectLandmark_loadModel_iff (hw : writer.Sized) (hr : reader.Sized)
    (hextract : ∃ left, extract [] = .failed left) (hwrite : writer.numbers.HasModel model)
    (hread : reader.memory.HasModel model) (h : model.WellFormed) (hlevels : model.forests ≠ [])
    (hsplits : ∀ forest ∈ model.forests, ∃ tree ∈ forest, tree.splits ≠ [])
    (hcount : model.numParts < 2 ^ 30) (hfree : s.mutexLocked = false)
    (hfresh : s.shapePredictor = .empty) (hcut : cut <+: serializeShapePredictor writer model)
    (hmoderate : bmp.Moderate) (hsize : EvenSize bmp.width bmp.height) :
    (detectLandmark A (loadModel reader (singleFormat extract uninitialised) path (some cut)
        s).globals.shapePredictor bmp).isSome
      ↔ ¬EndsInLevels writer model cut := by
  have hpart := @loadedPart_deserializeFile writer reader hw hr extract uninitialised hextract model
    (h.deltas_ne_nil hlevels) hwrite hread path cut hcut
  rw [shapePredictor_loadModel hfree, hfresh]
  obtain ⟨yuv, img, out, hyuv, himg, hout, hrect, -, -⟩ := exists_picture hmoderate hsize
  rw [detectLandmark_eq A _ hyuv himg hout]
  rcases hpart.apply (A := A) h hlevels hsplits hrect (region bmp.width bmp.height) with
    ⟨hmarks, hnone⟩ | ⟨hmarks, detection, hsome, hlength⟩
  · rw [hnone, Option.bind_none]
    exact iff_of_false (by simp) (not_not_intro hmarks)
  · have hshort : detection.parts.length < 2 ^ 30 := by
      rcases hlength with ⟨-, hlength⟩ | ⟨-, hlength⟩ <;> omega
    obtain ⟨landmarks, hpack, -⟩ := exists_packLandmarks hshort
    rw [hsome, Option.bind_some, hpack]
    exact iff_of_true rfl hmarks

/-- A copy that broke off behind the number of levels. -/
theorem isSome_detectLandmark_loadModel_iff_stump :
    (detectLandmark uprightArithmetic (loadModel phone (singleFormat noText fun _ ↦ .nan) "model.dat"
        (some (throughLevels roomy (.stump (ofInt binary32 0))))
        { shapePredictor := .empty, mutexLocked := false }).globals.shapePredictor
        (solidBitmap 2 2 0xff102030#32)).isSome
      ↔ ¬EndsInLevels roomy (.stump (ofInt binary32 0))
        (throughLevels roomy (.stump (ofInt binary32 0))) :=
  isSome_detectLandmark_loadModel_iff sized_roomy sized_phone ⟨none, rfl⟩ (hasModel_stump _).1
    (hasModel_stump _).2 (ShapePredictor.wellFormed_stump _) (by simp [ShapePredictor.stump])
    (by simp [ShapePredictor.stump]) (by simp [ShapePredictor.stump, ShapePredictor.numParts]) rfl rfl
    (throughLevels_prefix_append roomy _ _) ⟨by decide, by decide⟩ evenSize_two_two

end Pieces

end FacialLandmark
