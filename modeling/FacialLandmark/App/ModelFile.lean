import FacialLandmark.App.AssetCopy

/-!
# The model file over the starts of the app

At each start `onCreate` copies the asset to the model path if there is no file yet, and then calls
`loadModel` with this path. The copy writes to the final path from its first call on, so a file that
is there is not for that reason complete: the first copy that gets its output open decides what all
later starts will load.

A run is the schedules of its starts. A start whose copy has not ended when its schedule has run out
is killed there, and does not come to its `loadModel`.
-/

namespace FacialLandmark

/-- What a start leaves at the model path, and what its `loadModel` finds there, if it comes to it. -/
structure Start where
  file : Option (List JByte)
  loaded : Option (Option (List JByte))

/-- `onCreate`, down to `Native.loadModel(modelPath)`. -/
def appStart (asset : List JByte) (file : Option (List JByte)) (ios : List Io) : Start :=
  if file.isSome then { file := file, loaded := some file }
  else
    let s := copyRun asset ios
    { file := s.file, loaded := if s.Ended then some s.file else none }

def loads (asset : List JByte) : Option (List JByte) → List (List Io) → List (Option (List JByte))
  | _, [] => []
  | file, ios :: starts =>
    (appStart asset file ios).loaded.toList ++ loads asset (appStart asset file ios).file starts

/-- Whenever `loadModel` finds a file, it is the whole asset. -/
def LoadsWholeAsset (asset : List JByte) (starts : List (List Io)) : Prop :=
  ∀ content, some content ∈ loads asset none starts → content = asset

def afterOpening : List Io → Option (List Io)
  | .returns _ :: .returns _ :: ios => some ios
  | _ => none

/-- The first copy that gets its output open has `n` bytes to copy and copies all of them, or it is
killed and there is no further start. -/
def FirstCopyCompletes (n : ℕ) : List (List Io) → Prop
  | [] => True
  | ios :: starts => match afterOpening ios with
    | some ios => unwritten n ios = 0 ∨ ((∀ count, .throws count ∉ ios) ∧ starts = [])
    | none => FirstCopyCompletes n starts

/-! ## One start -/

theorem file_copyRun_of_not_open {asset : List JByte} {ios : List Io}
    (h : afterOpening ios = none) : (copyRun asset ios).file = none := by
  match ios with
  | [] => rfl
  | .throws count :: ios =>
    rw [copyRun, List.foldl_cons, foldl_copyStep_of_ended (Or.inl rfl)]
    rfl
  | [.returns count] => rfl
  | .returns count :: .throws count' :: ios =>
    rw [copyRun, List.foldl_cons, List.foldl_cons, foldl_copyStep_of_ended (Or.inl rfl)]
    rfl
  | .returns count :: .returns count' :: ios => exact absurd h (by simp [afterOpening])

theorem exists_atRead_of_open (asset : List JByte) {ios rest : List Io}
    (h : afterOpening ios = some rest) :
    ∃ s, AtRead asset s ∧ s.position = 0 ∧ copyRun asset ios = rest.foldl (copyStep asset) s := by
  match ios with
  | [] => exact absurd h (by simp [afterOpening])
  | .throws count :: ios => exact absurd h (by simp [afterOpening])
  | [.returns count] => exact absurd h (by simp [afterOpening])
  | .returns count :: .throws count' :: ios => exact absurd h (by simp [afterOpening])
  | .returns count :: .returns count' :: ios =>
    obtain rfl := Option.some_inj.mp h
    exact ⟨_, ⟨rfl, rfl⟩, rfl, rfl⟩

theorem copiedBut_copyRun {asset : List JByte} {ios rest : List Io}
    (h : afterOpening ios = some rest) :
    CopiedBut asset (unwritten asset.length rest) rest (copyRun asset ios) := by
  obtain ⟨s, hat, hposition, hrun⟩ := exists_atRead_of_open asset h
  have hcopied := copiedBut_foldl_copyStep rest hat
  rw [hposition, Nat.sub_zero] at hcopied
  rw [hrun]
  exact hcopied

/-! ## A run -/

theorem mem_loads_some {asset content : List JByte} {starts : List (List Io)}
    {found : Option (List JByte)} :
    found ∈ loads asset (some content) starts ↔ starts ≠ [] ∧ found = some content := by
  induction starts with
  | nil => simp [loads]
  | cons ios starts ih =>
    simp only [loads, appStart, Option.isSome_some, if_true, Option.toList_some,
      List.singleton_append, List.mem_cons, ih]
    tauto

theorem mem_loads_of_not_open {asset content : List JByte} {ios : List Io} {starts : List (List Io)}
    (h : afterOpening ios = none) :
    some content ∈ loads asset none (ios :: starts) ↔ some content ∈ loads asset none starts := by
  simp only [loads, appStart, Option.isSome_none, Bool.false_eq_true, if_false,
    file_copyRun_of_not_open h, List.mem_append]
  split <;> simp

/-- The first copy that gets its output open decides what is loaded, in this start if it comes to
that, and in all later ones. -/
theorem mem_loads_of_open {asset content : List JByte} {ios rest : List Io}
    {starts : List (List Io)} (h : afterOpening ios = some rest) :
    some content ∈ loads asset none (ios :: starts) ↔
      ((copyRun asset ios).Ended ∨ starts ≠ []) ∧
        content = asset.take (asset.length - unwritten asset.length rest) := by
  simp only [loads, appStart, Option.isSome_none, Bool.false_eq_true, if_false,
    (copiedBut_copyRun h).file_eq, List.mem_append, mem_loads_some, Option.some_inj]
  by_cases hended : (copyRun asset ios).Ended
  · rw [if_pos hended]
    simp [hended]
  · rw [if_neg hended]
    simp [hended]

/-- **The model file is never a partial copy** in the runs whose first copy completes, and in no
others. -/
theorem loadsWholeAsset_iff (asset : List JByte) (starts : List (List Io)) :
    LoadsWholeAsset asset starts ↔ FirstCopyCompletes asset.length starts := by
  induction starts with
  | nil => simp [LoadsWholeAsset, FirstCopyCompletes, loads]
  | cons ios starts ih =>
    rw [FirstCopyCompletes]
    cases hopen : afterOpening ios with
    | none =>
      rw [← ih]
      exact forall_congr' fun content ↦ imp_congr_left (mem_loads_of_not_open hopen)
    | some rest =>
      simp only [LoadsWholeAsset, mem_loads_of_open hopen]
      by_cases hcomplete : unwritten asset.length rest = 0
      · -- the file is the whole asset, whoever loads it
        rw [hcomplete, Nat.sub_zero, List.take_length]
        exact iff_of_true (fun content h ↦ h.2) (Or.inl rfl)
      · -- the file is shorter than the asset, and nobody may load it
        have hshort : asset.take (asset.length - unwritten asset.length rest) ≠ asset := by
          intro heq
          have hle := unwritten_le asset.length rest
          have hlength := congrArg List.length heq
          rw [List.length_take] at hlength
          omega
        rw [(copiedBut_copyRun hopen).ended_iff hcomplete, or_iff_right hcomplete]
        constructor
        · intro hall
          have hnobody : ¬((∃ count, Io.throws count ∈ rest) ∨ starts ≠ []) :=
            fun hsomebody ↦ hshort (hall _ ⟨hsomebody, rfl⟩)
          rw [not_or, not_exists, not_not] at hnobody
          exact hnobody
        · rintro ⟨hreturns, hlast⟩ content ⟨⟨count, hcount⟩ | hlater, -⟩
          · exact absurd hcount (hreturns count)
          · exact absurd hlast hlater

/-- An asset of 1025 bytes, a first start that is killed after the first full chunk, and a second start:
it loads 1024 bytes. -/
theorem not_forall_loadsWholeAsset : ¬∀ asset starts, LoadsWholeAsset asset starts := by
  intro hall
  obtain ⟨asset, hasset⟩ : ∃ asset : List JByte, asset.length = 1025 :=
    ⟨List.replicate 1025 0#8, List.length_replicate⟩
  have hloaded := hall asset [[.returns 0, .returns 0, .returns 1024, .returns 0], []] _
    ((mem_loads_of_open rfl).mpr ⟨Or.inr (by simp), rfl⟩)
  have hlength := congrArg List.length hloaded
  have hunwritten : unwritten 1025 [.returns 1024, .returns 0] = 1 := by decide
  rw [hasset, hunwritten, List.length_take, hasset] at hlength
  exact absurd hlength (by decide)

end FacialLandmark
