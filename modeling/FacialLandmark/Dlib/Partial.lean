import FacialLandmark.Dlib.Save

/-!
# What a file that is cut off leaves of a predictor

`deserialize` fills the fields one after the other, so from a file that is cut off the predictor gets
what stands before the cut. Three places in the file matter for what can be done with such a
predictor: the number of rows of the mean shape, from which on it has parts (`throughRows`), the number
of levels, from which on it has levels (`throughLevels`), and the number of pixels of the last level,
from which on all its vectors have their lengths (`throughPixels`).
-/

namespace FacialLandmark

open InPlace BinaryFloat

/-- The beginning of a file, down to the number of rows of the mean shape. -/
def throughRows (platform : Platform) (item : ShapePredictor Single) : List Byte :=
  packSigned 4 1 ++ serializeRows platform item.initial_shape.length

/-- The beginning of a file, down to the number of levels. -/
def throughLevels (platform : Platform) (item : ShapePredictor Single) : List Byte :=
  packSigned 4 1 ++ (serializeMatrix platform item.initial_shape ++
    packUnsigned platform.sizeofLong item.forests.length)

/-- The beginning of a file, down to the number of pixels of the last level. -/
def throughPixels (platform : Platform) (item : ShapePredictor Single) : List Byte :=
  packSigned 4 1 ++ (serializeMatrix platform item.initial_shape ++
    (serializeVector platform (serializeVector platform (serializeRegressionTree platform))
        item.forests ++
      (serializeVector platform
          (serializeVector platform (packUnsigned platform.sizeofLong)) item.anchor_idx ++
        (packUnsigned platform.sizeofLong item.deltas.length ++
          (item.deltas.dropLast.flatMap (serializeVector platform serializeFloatPoint) ++
            packUnsigned platform.sizeofLong (item.deltas.getLastD []).length)))))

def EndsInLevels (platform : Platform) (item : ShapePredictor Single) (cut : List Byte) : Prop :=
  throughLevels platform item <+: cut ∧ ¬throughPixels platform item <+: cut

/-- A predictor `r` that was loaded over the empty one, from a piece of the file of `item`. -/
inductive LoadedPart (writer : Platform) (item : ShapePredictor Single) (cut : List Byte)
    (r : ShapePredictor Single) : Prop where
  | beforeLevels (hcut : ¬throughLevels writer item <+: cut) (forests : r.forests = [])
    (shape : ¬throughRows writer item <+: cut ∧ r.initial_shape.length = 0 ∨
      throughRows writer item <+: cut ∧ r.initial_shape.length = item.initial_shape.length)
  | beforePixels (hcut : EndsInLevels writer item cut) (forests : r.forests.length = item.forests.length)
    (deltas : r.deltas = [] ∨
      r.forests = item.unsignZeros.forests ∧ r.deltas[item.deltas.length - 1]? = some [])
  | behindPixels (hcut : throughPixels writer item <+: cut)
    (shape : r.initial_shape.length = item.initial_shape.length)
    (forests : r.forests = item.unsignZeros.forests) (anchor_idx : r.anchor_idx = item.anchor_idx)
    (deltas : r.deltas.map List.length = item.deltas.map List.length)

theorem throughLevels_prefix_append (platform : Platform) (item : ShapePredictor Single) (rest : List Byte) :
    throughLevels platform item <+: packSigned 4 1 ++ (serializeMatrix platform item.initial_shape ++
      (serializeVector platform (serializeVector platform (serializeRegressionTree platform))
        item.forests ++ rest)) := by
  rw [throughLevels, List.prefix_append_right_inj, List.prefix_append_right_inj, serializeVector,
    List.append_assoc]
  exact List.prefix_append ..

theorem throughRows_prefix_append (platform : Platform) (item : ShapePredictor Single) (rest : List Byte) :
    throughRows platform item
      <+: packSigned 4 1 ++ (serializeMatrix platform item.initial_shape ++ rest) := by
  rw [throughRows, List.prefix_append_right_inj, serializeMatrix, List.append_assoc]
  exact List.prefix_append ..

theorem throughPixels_of_concat (platform : Platform) {item : ShapePredictor Single}
    {levels : List (List (FloatPoint Single))} {last : List (FloatPoint Single)}
    (h : item.deltas = levels ++ [last]) :
    throughPixels platform item = packSigned 4 1 ++ (serializeMatrix platform item.initial_shape ++
      (serializeVector platform (serializeVector platform (serializeRegressionTree platform))
          item.forests ++
        (serializeVector platform
            (serializeVector platform (packUnsigned platform.sizeofLong)) item.anchor_idx ++
          (packUnsigned platform.sizeofLong (levels ++ [last]).length ++
            (levels.flatMap (serializeVector platform serializeFloatPoint) ++
              packUnsigned platform.sizeofLong last.length))))) := by
  rw [throughPixels, h, List.dropLast_concat, List.getLastD_concat]

theorem throughPixels_prefix_serialize (platform : Platform) {item : ShapePredictor Single}
    (h : item.deltas ≠ []) : throughPixels platform item <+: serializeShapePredictor platform item := by
  obtain ⟨levels, last, hlevels⟩ := (List.eq_nil_or_concat item.deltas).resolve_left h
  rw [List.concat_eq_append] at hlevels
  rw [throughPixels_of_concat platform hlevels, serializeShapePredictor, serializeFields]
  simp only [List.prefix_append_right_inj]
  rw [hlevels, serializeVector, List.prefix_append_right_inj, List.flatMap_append,
    List.prefix_append_right_inj, List.flatMap_singleton, serializeVector]
  exact List.prefix_append ..

theorem not_prefix_of_prefix_of_ne {β : Type*} {a b cut : List β} (hcut : cut <+: a) (hne : cut ≠ a) :
    ¬a ++ b <+: cut := by
  intro h
  have hle := h.length_le
  rw [List.length_append] at hle
  exact hne (hcut.eq_of_length_le (by omega))

/-- Four fields in a row. The cut is in one of them. -/
theorem fst_run_fields_of_prefix {β ε σ₁ σ₂ σ₃ σ₄ : Type} {Fits₁ Fits₂ Fits₃ : Prop} {Cut : ε → Prop}
    {L₁ : Loader β ε σ₁} {L₂ : Loader β ε σ₂} {L₃ : Loader β ε σ₃} (L₄ : Loader β ε σ₄)
    {code₁ code₂ code₃ code₄ cut : List β} {v₁ : σ₁} {v₂ : σ₂} {v₃ : σ₃}
    (h₁ : Codes Fits₁ Cut L₁.parse code₁ v₁) (h₂ : Codes Fits₂ Cut L₂.parse code₂ v₂)
    (h₃ : Codes Fits₃ Cut L₃.parse code₃ v₃) (hfits₁ : Fits₁) (hfits₂ : Fits₂) (hfits₃ : Fits₃)
    (hcut : cut <+: code₁ ++ (code₂ ++ (code₃ ++ code₄))) (x : σ₁ × σ₂ × σ₃ × σ₄)
    {r : σ₁ × σ₂ × σ₃ × σ₄} (hr : ((L₁.pair (L₂.pair (L₃.pair L₄))).run x cut).1 = r) :
    (cut <+: code₁ ∧ cut ≠ code₁ ∧ r = ((L₁.run x.1 cut).1, x.2)) ∨
      (∃ q, cut = code₁ ++ q ∧ q <+: code₂ ∧ q ≠ code₂ ∧
        r = (v₁, (L₂.run x.2.1 q).1, x.2.2)) ∨
      (∃ q, cut = code₁ ++ (code₂ ++ q) ∧ q <+: code₃ ∧ q ≠ code₃ ∧
        r = (v₁, v₂, (L₃.run x.2.2.1 q).1, x.2.2.2)) ∨
      ∃ q, cut = code₁ ++ (code₂ ++ (code₃ ++ q)) ∧ q <+: code₄ ∧
        r = (v₁, v₂, v₃, (L₄.run x.2.2.2 q).1) := by
  rcases fst_run_pair_of_prefix (L₂.pair (L₃.pair L₄)) h₁ hfits₁ hcut x with
    ⟨hpiece, hne, hrun⟩ | ⟨q, rfl, hcut, hrun⟩
  · exact Or.inl ⟨hpiece, hne, hr ▸ hrun⟩
  rcases fst_run_pair_of_prefix (L₃.pair L₄) h₂ hfits₂ hcut x.2 with
    ⟨hpiece, hne, hrun'⟩ | ⟨q, rfl, hcut, hrun'⟩
  · exact Or.inr (Or.inl ⟨q, rfl, hpiece, hne, by rw [← hr, hrun, hrun']⟩)
  rcases fst_run_pair_of_prefix L₄ h₃ hfits₃ hcut x.2.2 with
    ⟨hpiece, hne, hrun''⟩ | ⟨q, rfl, hcut, hrun''⟩
  · exact Or.inr (Or.inr (Or.inl ⟨q, rfl, hpiece, hne, by rw [← hr, hrun, hrun', hrun'']⟩))
  · exact Or.inr (Or.inr (Or.inr ⟨q, rfl, hcut, by rw [← hr, hrun, hrun', hrun'']⟩))

section Pieces

variable {writer reader : Platform} (hw : writer.Sized) (hr : reader.Sized)
include hw hr

theorem fst_run_deserializeVector_of_prefix {σ τ : Type} {sizeofT : ℕ} {init : σ}
    {element : Loader Byte LoadError σ} {encode : τ → List Byte} {items : List τ} {cut : List Byte}
    (hlength : items.length < 256 ^ writer.sizeofLong)
    (hroom : reader.memory.vector sizeofT items.length)
    (hcut : cut <+: serializeVector writer encode items) (old : List σ) :
    (cut <+: packUnsigned writer.sizeofLong items.length ∧
        cut ≠ packUnsigned writer.sizeofLong items.length ∧
        ((deserializeVector reader sizeofT init element).run old cut).1 = old) ∨
      ∃ piece, cut = packUnsigned writer.sizeofLong items.length ++ piece ∧
        piece <+: items.flatMap encode ∧
        ((deserializeVector reader sizeofT init element).run old cut).1
          = (element.runAll (resize init items.length old) piece).1 := by
  have hcodes := codes_deserializeUnsignedLong hw hr hlength
  rcases prefix_append_cases hcut with ⟨hpiece, hne⟩ | ⟨piece, rfl, hpiece⟩
  · obtain ⟨e, hparse, -⟩ := hcodes.exists_error_of_cut hpiece hne
    refine Or.inl ⟨hpiece, hne, ?_⟩
    simp only [deserializeVector, Loader.rethrow, Loader.after, hparse]
  · refine Or.inr ⟨piece, rfl, hpiece, ?_⟩
    simp only [deserializeVector, Loader.rethrow, Loader.after, hcodes.parse_append hroom.1 piece,
      hroom.2]
    rfl

variable {extract : List Byte → Extraction Single} {uninitialised : ℕ → Single}

/-- A column gets its length as soon as the number of rows is there. -/
theorem length_fst_run_deserializeMatrix_of_prefix {items : List Single}
    (hlength : writer.numbers.column items.length) (hroom : reader.memory.column items.length)
    {cut : List Byte} (hcut : cut <+: serializeMatrix writer items) :
    (¬serializeRows writer items.length <+: cut ∧
        ((deserializeMatrix reader (singleFormat extract uninitialised)).run [] cut).1.length = 0) ∨
      (serializeRows writer items.length <+: cut ∧
        ((deserializeMatrix reader (singleFormat extract uninitialised)).run [] cut).1.length
          = items.length) := by
  have hminus : InSigned reader.sizeofLong (-items.length) := inSigned_neg_of_natCast hroom.1
  have hrows : items.length < 256 ^ reader.sizeofLong := by
    have hlt := natAbs_lt_of_inSigned hr.pos hroom.1
    rwa [Int.natAbs_natCast] at hlt
  have hcodes := @codes_deserializeRows writer reader hw hr items.length items.length hlength fun _ ↦ by
    rw [bmod_of_inSigned hr.pos hminus, neg_neg]
  rcases prefix_append_cases hcut with ⟨hpiece, hne⟩ | ⟨piece, rfl, -⟩
  · obtain ⟨e, hparse, -⟩ := hcodes.exists_error_of_cut hpiece hne
    refine Or.inl ⟨fun h ↦ hne (hpiece.eq_of_length_le h.length_le), ?_⟩
    simp only [deserializeMatrix, Loader.rethrow, Loader.after, hparse, List.length_nil]
  · refine Or.inr ⟨List.prefix_append .., ?_⟩
    simp only [deserializeMatrix, Loader.rethrow, Loader.after, hcodes.parse_append hrows piece]
    rw [if_neg (Int.not_lt.mpr (Int.natCast_nonneg _))]
    simp only [Int.toNat_natCast, hroom.2, Loader.list, Loader.length_fst_runAll, length_setSize]

variable (hextract : ∃ left, extract [] = .failed left)
include hextract

omit hextract in
theorem fst_run_level_of_piece {level : List (FloatPoint Single)}
    (hwrite : writer.numbers.vector 8 level.length) (hread : reader.memory.vector 8 level.length)
    {cut : List Byte} (hcut : cut <+: serializeVector writer serializeFloatPoint level) :
    (¬packUnsigned writer.sizeofLong level.length <+: cut ∧
        ((deserializeDeltas reader (singleFormat extract uninitialised)).run [] cut).1 = []) ∨
      (packUnsigned writer.sizeofLong level.length <+: cut ∧
        ((deserializeDeltas reader (singleFormat extract uninitialised)).run [] cut).1.length
          = level.length) := by
  rcases fst_run_deserializeVector_of_prefix hw hr hwrite hread hcut [] with
    ⟨hpiece, hproper, hold⟩ | ⟨piece, rfl, -, hold⟩
  · refine Or.inl ⟨fun h ↦ hproper (hpiece.eq_of_length_le h.length_le), hold⟩
  · refine Or.inr ⟨List.prefix_append .., ?_⟩
    rw [deserializeDeltas, hold, Loader.length_fst_runAll, length_resize]

/-- The last field: it is not there, or its last level has no pixels, or all lengths are right. -/
theorem fst_run_deltas_of_prefix {levels : List (List (FloatPoint Single))}
    {last : List (FloatPoint Single)}
    (hwrite : writer.numbers.HasVector (3 * writer.sizeofLong)
      (writer.numbers.HasVector 8 fun _ ↦ True) (levels ++ [last]))
    (hread : reader.memory.HasVector (3 * reader.sizeofLong)
      (reader.memory.HasVector 8 fun _ ↦ True) (levels ++ [last])) {cut : List Byte}
    (hcut : cut <+: serializeVector writer (serializeVector writer serializeFloatPoint)
      (levels ++ [last])) {r : List (List (FloatPoint Single))}
    (hrun : ((deserializeVector reader (3 * reader.sizeofLong) []
      (deserializeDeltas reader (singleFormat extract uninitialised))).run [] cut).1 = r) :
    (¬packUnsigned writer.sizeofLong (levels ++ [last]).length ++
          (levels.flatMap (serializeVector writer serializeFloatPoint) ++
            packUnsigned writer.sizeofLong last.length) <+: cut ∧
        (r = [] ∨ r[levels.length]? = some [])) ∨
      (packUnsigned writer.sizeofLong (levels ++ [last]).length ++
          (levels.flatMap (serializeVector writer serializeFloatPoint) ++
            packUnsigned writer.sizeofLong last.length) <+: cut ∧
        r.map List.length = (levels ++ [last]).map List.length) := by
  rcases fst_run_deserializeVector_of_prefix hw hr hwrite.1 hread.1 hcut [] with
    ⟨hpiece, hproper, hold⟩ | ⟨piece, rfl, hpiece, hold⟩
  · exact Or.inl ⟨not_prefix_of_prefix_of_ne hpiece hproper, Or.inl (hrun ▸ hold)⟩
  rw [hrun, resize, List.take_nil, List.nil_append, List.length_nil, Nat.sub_zero] at hold
  rw [List.prefix_append_right_inj]
  have hcodes := fun level hlevel ↦ @codes_deserializeDeltas writer reader hw hr extract
    uninitialised hextract level (hwrite.2 level hlevel).1
  have hlength : ∀ before : List (List (FloatPoint Single)),
      (before.map fun level ↦ level.map (·.map Number.unsignZero)).map List.length
        = before.map List.length := by
    intro before
    rw [List.map_map]
    exact List.map_congr_left fun level _ ↦ List.length_map _
  rcases fst_runAll_of_prefix hcodes hread.2 hpiece [] with
    ⟨rfl, hall⟩ | ⟨before, level, after, piece, heq, rfl, hlevel, hproper, hall⟩
  · refine Or.inr ⟨?_, by rw [hold, hall, hlength]⟩
    rw [List.flatMap_append, List.flatMap_singleton, List.prefix_append_right_inj, serializeVector]
    exact List.prefix_append ..
  rw [hall] at hold
  rcases List.eq_nil_or_concat after with rfl | ⟨between, last', rfl⟩
  · -- the cut is in the last level
    obtain ⟨rfl, hlast⟩ := List.append_inj' heq rfl
    obtain rfl := List.singleton_inj.mp hlast
    rw [List.prefix_append_right_inj]
    have hmem := List.mem_append_right levels (List.mem_singleton_self last)
    rcases @fst_run_level_of_piece writer reader hw hr extract uninitialised last
      (hwrite.2 last hmem).1 (hread.2 last hmem).1 piece hlevel with ⟨hcount, hrest⟩ | ⟨hcount, hrest⟩
    · refine Or.inl ⟨hcount, Or.inr ?_⟩
      rw [hold, hrest, List.getElem?_append_right (by rw [List.length_map]), List.length_map,
        Nat.sub_self, List.getElem?_cons_zero]
    · refine Or.inr ⟨hcount, ?_⟩
      rw [hold, List.map_append, hlength, List.map_append, List.map_cons, hrest]
      rfl
  · -- there are levels behind the one with the cut, and they are empty
    have hsplit : levels ++ [last] = (before ++ level :: between) ++ [last'] := by
      rw [heq, List.concat_eq_append, List.append_assoc, List.cons_append]
    obtain ⟨rfl, -⟩ := List.append_inj' hsplit rfl
    refine Or.inl ⟨fun h ↦ ?_, Or.inr ?_⟩
    · rw [List.flatMap_append, List.append_assoc, List.prefix_append_right_inj, List.flatMap_cons,
        List.append_assoc] at h
      exact not_prefix_of_prefix_of_ne hlevel hproper h
    · rw [hold, List.concat_eq_append, List.length_append, List.length_singleton,
        List.getElem?_append_right (by simp), List.length_map, List.length_append, List.length_cons,
        Nat.add_sub_cancel_left, List.getElem?_cons_succ, List.getElem?_replicate,
        if_pos (Nat.lt_succ_self _)]

theorem loadedPart_fst_run_deserializeFields {item : ShapePredictor Single}
    (hdeltas : item.deltas ≠ []) (hwrite : writer.numbers.HasModel item)
    (hread : reader.memory.HasModel item) {cut : List Byte} (hcut : cut <+: serializeFields writer item) :
    LoadedPart writer item (packSigned 4 1 ++ cut)
      ((deserializeFields reader (singleFormat extract uninitialised)).run .empty cut).1 := by
  have hmatrix := @codes_deserializeMatrix writer reader hw hr extract uninitialised hextract _ hwrite.1
  have hforests := @codes_deserializeForests writer reader hw hr extract uninitialised hextract _
    hwrite.2.1
  have hanchors := codes_deserializeAnchorLists hw hr hwrite.2.2.1
  obtain ⟨r, hrun⟩ : ∃ r, ((deserializeFields reader (singleFormat extract uninitialised)).run .empty
    cut).1 = ShapePredictor.equiv r := ⟨_, rfl⟩
  rw [hrun]
  rcases fst_run_fields_of_prefix _ hmatrix hforests hanchors hread.1 hread.2.1 hread.2.2.1 hcut
    ([], [], [], []) (ShapePredictor.equiv.injective hrun)
    with ⟨hpiece, hne, rfl⟩ | ⟨q, rfl, hpiece, hne, rfl⟩ | ⟨q, rfl, hpiece, hne, rfl⟩ | ⟨q, rfl, hq, rfl⟩
  · -- in the mean shape
    refine .beforeLevels (fun h ↦ ?_) rfl ?_
    · rw [throughLevels, List.prefix_append_right_inj] at h
      exact not_prefix_of_prefix_of_ne hpiece hne h
    · rw [throughRows, List.prefix_append_right_inj]
      exact length_fst_run_deserializeMatrix_of_prefix hw hr hwrite.1 hread.1 hpiece
  · -- in the forests
    rcases fst_run_deserializeVector_of_prefix hw hr hwrite.2.1.1 hread.2.1.1 hpiece [] with
      ⟨hcount, hproper, hold⟩ | ⟨piece, rfl, -, hold⟩
    · refine .beforeLevels (fun h ↦ ?_) hold
        (Or.inr ⟨throughRows_prefix_append writer item q, List.length_map _⟩)
      rw [throughLevels, List.prefix_append_right_inj, List.prefix_append_right_inj] at h
      exact hproper (hcount.eq_of_length_le h.length_le)
    · refine .beforePixels ⟨?_, fun h ↦ ?_⟩ ?_ (Or.inl rfl)
      · rw [throughLevels, List.prefix_append_right_inj, List.prefix_append_right_inj]
        exact List.prefix_append ..
      · rw [throughPixels, List.prefix_append_right_inj, List.prefix_append_right_inj] at h
        exact not_prefix_of_prefix_of_ne hpiece hne h
      · exact (congrArg List.length hold).trans (by rw [Loader.length_fst_runAll, length_resize])
  · -- in the anchors
    refine .beforePixels ⟨throughLevels_prefix_append writer item q, fun h ↦ ?_⟩ (List.length_map _)
      (Or.inl rfl)
    rw [throughPixels, List.prefix_append_right_inj, List.prefix_append_right_inj,
      List.prefix_append_right_inj] at h
    exact not_prefix_of_prefix_of_ne hpiece hne h
  · -- in the offsets, or at the end of the file
    obtain ⟨levels, last, hlevels⟩ := (List.eq_nil_or_concat item.deltas).resolve_left hdeltas
    rw [List.concat_eq_append] at hlevels
    have hpixels := throughPixels_of_concat writer hlevels
    rcases fst_run_deltas_of_prefix hw hr hextract (hlevels ▸ hwrite.2.2.2) (hlevels ▸ hread.2.2.2)
      (hlevels ▸ hq) rfl with ⟨hcount, hrest⟩ | ⟨hcount, hrest⟩
    · refine .beforePixels ⟨throughLevels_prefix_append writer item _, fun h ↦ hcount ?_⟩
        (List.length_map _) (hrest.imp_right fun h ↦ ⟨rfl, ?_⟩)
      · rwa [hpixels, List.prefix_append_right_inj, List.prefix_append_right_inj,
          List.prefix_append_right_inj, List.prefix_append_right_inj] at h
      · rw [hlevels, List.length_append, List.length_singleton, Nat.add_sub_cancel]
        exact h
    · refine .behindPixels ?_ (List.length_map _) rfl rfl (hlevels ▸ hrest)
      rwa [hpixels, List.prefix_append_right_inj, List.prefix_append_right_inj,
        List.prefix_append_right_inj, List.prefix_append_right_inj]

/-- **A piece of a file, loaded.** Over the empty predictor, from a file that is cut off wherever it
may be, or is whole. -/
theorem loadedPart_deserializeFile {item : ShapePredictor Single} (hdeltas : item.deltas ≠ [])
    (hwrite : writer.numbers.HasModel item) (hread : reader.memory.HasModel item) (filename : String)
    {cut : List Byte} (hcut : cut <+: serializeShapePredictor writer item) :
    LoadedPart writer item cut
      (deserializeFile reader (singleFormat extract uninitialised) filename (some cut) .empty).1 := by
  have hversion : Codes True LoadError.IsCaught (deserializeSigned "int" 4) (packSigned 4 1) 1 :=
    codes_deserializeSigned_of_inSigned "int" (by decide) (by decide) (by decide) (by decide)
      (by decide) (by decide)
  rcases prefix_append_cases hcut with ⟨hpiece, hne⟩ | ⟨q, rfl, hq⟩
  · have hempty : (deserializeFile reader (singleFormat extract uninitialised) filename (some cut)
        .empty).1 = .empty := by
      obtain ⟨e, hparse, -⟩ := hversion.exists_error_of_cut hpiece hne
      simp only [deserializeFile, deserializeFirst, deserializeShapePredictor, Loader.rethrow,
        Loader.after]
      by_cases hnil : cut = []
      · rw [if_pos hnil]
      · simp only [if_neg hnil, hparse]
    rw [hempty]
    exact .beforeLevels (not_prefix_of_prefix_of_ne hpiece hne) rfl
      (Or.inl ⟨not_prefix_of_prefix_of_ne hpiece hne, rfl⟩)
  · have hfirst : packSigned 4 1 ++ q ≠ [] := by simp [packSigned]
    have hfields : (deserializeFile reader (singleFormat extract uninitialised) filename
        (some (packSigned 4 1 ++ q)) .empty).1
          = ((deserializeFields reader (singleFormat extract uninitialised)).run .empty q).1 := by
      simp only [deserializeFile, deserializeFirst, deserializeShapePredictor, Loader.rethrow,
        Loader.after, if_neg hfirst, hversion.parse_append trivial q]
      rfl
    rw [hfields]
    exact loadedPart_fst_run_deserializeFields hw hr hextract hdeltas hwrite hread hq

end Pieces

end FacialLandmark
