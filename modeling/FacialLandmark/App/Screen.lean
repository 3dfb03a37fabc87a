import FacialLandmark.App.Lifecycle
import FacialLandmark.Native.BrokenModel

/-!
# What the app shows

An `onCreate` that gets past `loadModel` goes on to `detectLandmark`, with whatever predictor there is,
and to the circles. What is on the screen therefore depends on all that the app went through: on the
copies that broke off, on the loads that failed and on the processes that were killed.
-/

namespace FacialLandmark

open InPlace BinaryFloat

/-- `onCreate` from the copy to the drawing: the circles, if it gets as far as that. -/
def App.onCreate (A : FloatArithmetic Single) (device : Platform) (format : FloatFormat Single) (path : String) (asset : List JByte) (s : App)
    (ios : List Io) (bmp : Bitmap) : Option (List Circle) :=
  if s.halted then none
  else do
    let found ← (appStart asset s.file ios).loaded
    let call := loadModel device format path found s.globals
    if call.ending = .returned then showLandmarks A call.globals.shapePredictor bmp else none

/-- The `onCreate` comes to show circles: it is called, `loadModel` gets the mutex, and the file that
is there or that the copy has made has the number of rows of the mean shape in it, and does not end
in the levels. -/
structure App.Shows (writer : Platform) (model : ShapePredictor Single) (s : App) (ios : List Io) :
    Prop where
  running : s.halted = false
  mutex_free : s.globals.mutexLocked = false
  found : ∃ cut, (appStart (serializeShapePredictor writer model) s.file ios).loaded
      = some (some cut) ∧ throughRows writer model <+: cut ∧ ¬EndsInLevels writer model cut

section OneCreate

variable {A : FloatArithmetic Single} {writer device : Platform} {extract : List Byte → Extraction Single}
  {uninitialised : ℕ → Single} {path : String} {model : ShapePredictor Single} {s : App}
  {ios : List Io} {bmp : Bitmap}

variable (hw : writer.Sized) (hd : device.Sized) (hextract : ∃ left, extract [] = .failed left)
  (hwrite : writer.numbers.HasModel model) (hread : device.memory.HasModel model)
include hw hd hextract hwrite hread

/-- A `loadModel` of a sound app, on an unlocked mutex: it returns, and the predictor is what comes of
the file that it finds, whatever was there before. -/
theorem loadModel_of_sound (hdeltas : model.deltas ≠ [])
    (hs : s.Sound (serializeShapePredictor writer model) model) (hfree : s.globals.mutexLocked = false)
    {found : Option (List JByte)} {call : Call Single}
    (hfound : (appStart (serializeShapePredictor writer model) s.file ios).loaded = some found)
    (hcall : loadModel device (singleFormat extract uninitialised) path found s.globals = call) :
    call.ending = .returned ∧
      (found = none ∧ call.globals.shapePredictor = .empty ∨
        ∃ cut, found = some cut ∧ LoadedPart writer model cut call.globals.shapePredictor) := by
  have hfile := loaded_appStart hfound
  have hbegin := isPrefix_appStart ios hs.isPrefix
  rw [hfile] at hbegin
  rcases @sound_loadModel writer device extract uninitialised path model hw hd hextract hwrite hread
    found s.globals hbegin hfree with ⟨rfl, hloaded⟩ | ⟨hpiece, hfailed⟩
  · rw [hcall] at hloaded
    refine ⟨hloaded.returned, Or.inr ⟨_, rfl, ?_⟩⟩
    rw [hloaded.globals]
    exact loadedPart_unsignZeros hdeltas
  · rw [hcall] at hfailed
    refine ⟨hfailed.returned, ?_⟩
    rcases hs.predictor hfree with hempty | ⟨-, hwhole⟩
    · rw [← hcall, shapePredictor_loadModel hfree, hempty]
      cases found with
      | none => exact Or.inl ⟨rfl, rfl⟩
      | some cut =>
        exact Or.inr ⟨cut, rfl,
          loadedPart_deserializeFile hw hd hextract hdeltas hwrite hread path (hbegin cut rfl)⟩
    · -- a file that is whole is what is found
      rw [hwhole, appStart_some] at hfile
      exact absurd hfile.symm hpiece

theorem onCreate_of_sound (h : model.WellFormed) (hlevels : model.forests ≠ [])
    (hsplits : ∀ forest ∈ model.forests, ∃ tree ∈ forest, tree.splits ≠ [])
    (hcount : model.numParts < 2 ^ 30) (hmoderate : bmp.Moderate)
    (hsize : EvenSize bmp.width bmp.height)
    (hs : s.Sound (serializeShapePredictor writer model) model) {shown : Option (List Circle)}
    (hshown : s.onCreate A device (singleFormat extract uninitialised) path
      (serializeShapePredictor writer model) ios bmp = shown) :
    s.Shows writer model ios ∧ (∃ circles, shown = some circles ∧ circles.length = model.numParts) ∨
      ¬s.Shows writer model ios ∧ shown = none := by
  have hdeltas : model.deltas ≠ [] := h.deltas_ne_nil hlevels
  rw [App.onCreate] at hshown
  by_cases hhalted : s.halted = true
  · rw [if_pos hhalted] at hshown
    exact Or.inr ⟨fun hshows ↦ by simp [hshows.running] at hhalted, hshown.symm⟩
  rw [if_neg hhalted, Option.bind_eq_bind] at hshown
  cases hfound : (appStart (serializeShapePredictor writer model) s.file ios).loaded with
  | none =>
    rw [hfound, Option.bind_none] at hshown
    refine Or.inr ⟨fun hshows ↦ ?_, hshown.symm⟩
    obtain ⟨cut, hcut, -⟩ := hshows.found
    rw [hfound] at hcut
    exact absurd hcut (by simp)
  | some found =>
    rw [hfound, Option.bind_some] at hshown
    simp only at hshown
    obtain ⟨call, hcall⟩ :
        ∃ call, loadModel device (singleFormat extract uninitialised) path found s.globals = call :=
      ⟨_, rfl⟩
    rw [hcall] at hshown
    by_cases hfree : s.globals.mutexLocked = false
    · obtain ⟨hreturned, hpredictor⟩ :=
        loadModel_of_sound hw hd hextract hwrite hread hdeltas hs hfree hfound hcall
      rw [if_pos hreturned] at hshown
      rcases hpredictor with ⟨rfl, hempty⟩ | ⟨cut, rfl, hpart⟩
      · rw [hempty, showLandmarks_empty] at hshown
        refine Or.inr ⟨fun hshows ↦ ?_, hshown.symm⟩
        obtain ⟨cut, hcut, -⟩ := hshows.found
        rw [hfound] at hcut
        exact absurd hcut (by simp)
      · have hcut : (throughRows writer model <+: cut ∧ ¬EndsInLevels writer model cut)
            ↔ s.Shows writer model ios := by
          refine ⟨fun hmarks ↦ ⟨by simpa using hhalted, hfree, cut, hfound, hmarks⟩, fun hshows ↦ ?_⟩
          obtain ⟨cut', hcut', hmarks⟩ := hshows.found
          rw [hfound, Option.some_inj, Option.some_inj] at hcut'
          rwa [hcut']
        rw [← hshown, ← hcut]
        exact hpart.showLandmarks h hlevels hsplits hcount hmoderate hsize
    · -- the call waits for the mutex
      rw [loadModel, if_pos (by simpa using hfree)] at hcall
      rw [← hcall, if_neg (by simp)] at hshown
      exact Or.inr ⟨fun hshows ↦ hfree hshows.mutex_free, hshown.symm⟩

end OneCreate

/-! ## Whole runs -/

section Runs

variable {A : FloatArithmetic Single} {writer device : Platform} {extract : List Byte → Extraction Single}
  {uninitialised : ℕ → Single} {path : String} {model : ShapePredictor Single} {ios : List Io}
  {bmp : Bitmap}

/-- **What is on the screen.** Whatever creations and kills the app went through, and wherever its
copies broke off, an `onCreate` shows circles exactly in the case that `App.Shows` describes, and then
there are as many as the model has parts. -/
theorem isSome_onCreate_run_iff (hw : writer.Sized) (hd : device.Sized)
    (hextract : ∃ left, extract [] = .failed left) (hwrite : writer.numbers.HasModel model)
    (hread : device.memory.HasModel model) (h : model.WellFormed) (hlevels : model.forests ≠ [])
    (hsplits : ∀ forest ∈ model.forests, ∃ tree ∈ forest, tree.splits ≠ [])
    (hcount : model.numParts < 2 ^ 30) (hmoderate : bmp.Moderate)
    (hsize : EvenSize bmp.width bmp.height) (events : List Event) :
    let s := App.installed.run device (singleFormat extract uninitialised) path
      (serializeShapePredictor writer model) events
    let shown := s.onCreate A device (singleFormat extract uninitialised) path
      (serializeShapePredictor writer model) ios bmp
    (shown.isSome ↔ s.Shows writer model ios) ∧
      ∀ circles ∈ shown, circles.length = model.numParts := by
  intro s shown
  have hs : s.Sound (serializeShapePredictor writer model) model :=
    sound_run hw hd hextract hwrite hread events sound_installed
  have hshown : s.onCreate A device (singleFormat extract uninitialised) path
    (serializeShapePredictor writer model) ios bmp = shown := rfl
  rcases onCreate_of_sound hw hd hextract hwrite hread h hlevels hsplits hcount hmoderate hsize hs hshown with
    ⟨hshows, circles, hsome, hlength⟩ | ⟨hshows, hnone⟩
  · refine ⟨iff_of_true (Option.isSome_of_mem hsome) hshows, fun circles' hcircles' ↦ ?_⟩
    rw [Option.mem_unique hcircles' hsome, hlength]
  · refine ⟨iff_of_false ?_ hshows, fun circles hcircles ↦ ?_⟩
    · simp only [shown, hnone, Option.isSome_none, Bool.false_eq_true, not_false_eq_true]
    · exact absurd (hcircles.symm.trans hnone) (by simp)

/-- A process that is killed as soon as the output is open, and a start after that. -/
theorem isSome_onCreate_run_iff_stump :
    let s := App.installed.run phone (singleFormat noText fun _ ↦ .nan) "model.dat"
      (serializeShapePredictor roomy (.stump (ofInt binary32 0)))
      [.create [.returns 0, .returns 0], .kill]
    let shown := s.onCreate uprightArithmetic phone (singleFormat noText fun _ ↦ .nan) "model.dat"
      (serializeShapePredictor roomy (.stump (ofInt binary32 0))) [] (solidBitmap 2 2 0xff102030#32)
    (shown.isSome ↔ s.Shows roomy (.stump (ofInt binary32 0)) []) ∧
      ∀ circles ∈ shown, circles.length = 1 :=
  isSome_onCreate_run_iff sized_roomy sized_phone ⟨none, rfl⟩ (hasModel_stump _).1 (hasModel_stump _).2
    (ShapePredictor.wellFormed_stump _) (by simp [ShapePredictor.stump])
    (by simp [ShapePredictor.stump]) (by simp [ShapePredictor.stump, ShapePredictor.numParts])
    ⟨by decide, by decide⟩ evenSize_two_two [.create [.returns 0, .returns 0], .kill]

end Runs

end FacialLandmark
