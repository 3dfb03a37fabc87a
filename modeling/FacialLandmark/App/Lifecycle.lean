import FacialLandmark.App.CopyPrefix
import FacialLandmark.Native.SavedModel

/-!
# The app over its life

`onCreate` runs each time the activity is created: after the start of a process, and again in the same
process when the screen is turned. The model file outlives processes and the native globals outlive
activities, so what a `loadModel` finds, at the path and in the globals, is what earlier ones and
earlier copies have left. A process may be killed at any time, also in the middle of a copy.

The asset is a model written by `serialize`. `Sound` is what holds in between: the file is a piece of
the asset, and a thread that got the mutex would find no predictor or the whole model.
-/

namespace FacialLandmark

open InPlace BinaryFloat

/-- The model file, the globals of the process, and whether its main thread has come to a halt in
`loadModel`: it waits for the mutex, or an exception has ended it. -/
structure App where
  file : Option (List JByte)
  globals : NativeState Single
  halted : Bool

def freshGlobals : NativeState Single := { shapePredictor := .empty, mutexLocked := false }

def App.installed : App := { file := none, globals := freshGlobals, halted := false }

/-- `create ios` is an `onCreate` whose copy, if it makes one, gets to do the calls `ios`. -/
inductive Event where
  | create (ios : List Io)
  | kill

section Step

variable (device : Platform) (format : FloatFormat Single) (path : String) (asset : List JByte)

/-- `onCreate`, down to `Native.loadModel(modelPath)`, in the process as it is. A copy that does not
get to its end is one in which the process is killed. What the rest of `onCreate` does to the process
is not looked at here: one that it ends, at `landmarks[0]` or in a read outside an array, counts as
killed. -/
def App.create (s : App) (ios : List Io) : App :=
  let start := appStart asset s.file ios
  match start.loaded with
  | none => { file := start.file, globals := freshGlobals, halted := false }
  | some found =>
    let call := loadModel device format path found s.globals
    { file := start.file, globals := call.globals, halted := call.ending ≠ .returned }

def App.step (s : App) : Event → App
  | .create ios => if s.halted then s else s.create device format path asset ios
  | .kill => { s with globals := freshGlobals, halted := false }

def App.run (s : App) (events : List Event) : App :=
  events.foldl (App.step device format path asset) s

end Step

/-- The file is a piece of the asset, and the predictor, unless the mutex is locked, is none or the
whole model. -/
structure App.Sound (asset : List JByte) (model : ShapePredictor Single) (s : App) : Prop where
  isPrefix : ∀ content ∈ s.file, content <+: asset
  predictor : s.globals.mutexLocked = false →
    s.globals.shapePredictor = .empty ∨
      (s.globals.shapePredictor = model.unsignZeros ∧ s.file = some asset)

/-! ## One `onCreate` -/

theorem isPrefix_appStart {asset : List JByte} {file : Option (List JByte)} (ios : List Io)
    (h : ∀ content ∈ file, content <+: asset) :
    ∀ content ∈ (appStart asset file ios).file, content <+: asset := by
  intro content hcontent
  rw [appStart] at hcontent
  split at hcontent
  · exact h content hcontent
  · exact isPrefix_of_copyInv (copyInv_copyRun asset ios) hcontent

theorem appStart_some (asset content : List JByte) (ios : List Io) :
    appStart asset (some content) ios = { file := some content, loaded := some (some content) } := rfl

theorem loaded_appStart {asset : List JByte} {file found : Option (List JByte)} {ios : List Io}
    (h : (appStart asset file ios).loaded = some found) :
    (appStart asset file ios).file = found := by
  rw [appStart] at h ⊢
  split at h
  case isTrue hsome =>
    rw [if_pos hsome]
    exact Option.some_inj.mp h
  case isFalse hnone =>
    rw [if_neg hnone]
    simp only at h ⊢
    split at h
    · exact Option.some_inj.mp h
    · exact absurd h (by simp)

theorem isPrefix_step {device : Platform} {format : FloatFormat Single} {path : String}
    {asset : List JByte} {s : App} (e : Event) (h : ∀ content ∈ s.file, content <+: asset) :
    ∀ content ∈ (s.step device format path asset e).file, content <+: asset := by
  cases e with
  | kill => exact h
  | create ios =>
    have hstart := isPrefix_appStart ios h
    rw [App.step]
    split
    · exact h
    · rw [App.create]
      cases (appStart asset s.file ios).loaded with
      | none => exact hstart
      | some found => exact hstart

section Sound

variable {writer device : Platform} {extract : List Byte → Extraction Single}
  {uninitialised : ℕ → Single} {path : String} {model : ShapePredictor Single} {s : App}
  (hw : writer.Sized) (hd : device.Sized) (hextract : ∃ left, extract [] = .failed left)
  (hwrite : writer.numbers.HasModel model) (hread : device.memory.HasModel model)
include hw hd hextract hwrite hread

theorem sound_loadModel {found : Option (List JByte)} {globals : NativeState Single}
    (hfound : ∀ content ∈ found, content <+: serializeShapePredictor writer model)
    (hfree : globals.mutexLocked = false) :
    (found = some (serializeShapePredictor writer model) ∧ Loaded model.unsignZeros
        (loadModel device (singleFormat extract uninitialised) path found globals)) ∨
      (found ≠ some (serializeShapePredictor writer model) ∧
        Failed (loadModel device (singleFormat extract uninitialised) path found globals)) := by
  have hcodes := fun bytes ↦ @codes_deserializeFirst writer device hw hd extract uninitialised
    hextract path bytes model hwrite
  cases found with
  | none => exact Or.inr ⟨by simp, failed_of_parse_eq_error hfree rfl id⟩
  | some content =>
    by_cases hwhole : content = serializeShapePredictor writer model
    · subst hwhole
      exact Or.inl ⟨rfl, loaded_of_parse hfree (hcodes _ |>.parse_code hread)⟩
    · refine Or.inr ⟨by simpa using hwhole, ?_⟩
      obtain ⟨e, hparse, hcaught⟩ := (hcodes content).exists_error_of_cut (hfound content rfl) hwhole
      exact failed_of_parse_eq_error hfree hparse (hcaught hread)

theorem sound_create (ios : List Io) (h : s.Sound (serializeShapePredictor writer model) model) :
    (s.create device (singleFormat extract uninitialised) path
      (serializeShapePredictor writer model) ios).Sound (serializeShapePredictor writer model) model := by
  have hbegin := isPrefix_appStart ios h.isPrefix
  rw [App.create]
  cases hloaded : (appStart (serializeShapePredictor writer model) s.file ios).loaded with
  | none => exact ⟨hbegin, fun _ ↦ Or.inl rfl⟩
  | some found =>
    have hfile := loaded_appStart hloaded
    refine ⟨hbegin, fun hunlocked ↦ ?_⟩
    simp only at hunlocked ⊢
    cases hlocked : s.globals.mutexLocked with
    | true =>
      -- the call waits, and the globals are the ones it has found
      rw [loadModel, if_pos hlocked, hlocked] at hunlocked
      exact absurd hunlocked (by simp)
    | false =>
      rcases @sound_loadModel writer device extract uninitialised path model hw hd hextract hwrite
        hread found s.globals (hfile ▸ hbegin) hlocked with ⟨hwhole, hcall⟩ | ⟨-, hcall⟩
      · exact Or.inr ⟨by rw [hcall.globals], hfile.trans hwhole⟩
      · rw [hcall.mutex_locked] at hunlocked
        exact absurd hunlocked (by simp)

theorem sound_step (e : Event) (h : s.Sound (serializeShapePredictor writer model) model) :
    (s.step device (singleFormat extract uninitialised) path (serializeShapePredictor writer model)
      e).Sound (serializeShapePredictor writer model) model := by
  cases e with
  | kill => exact ⟨h.isPrefix, fun _ ↦ Or.inl rfl⟩
  | create ios =>
    rw [App.step]
    split
    · exact h
    · exact sound_create hw hd hextract hwrite hread ios h

theorem sound_run (events : List Event) (h : s.Sound (serializeShapePredictor writer model) model) :
    (s.run device (singleFormat extract uninitialised) path (serializeShapePredictor writer model)
      events).Sound (serializeShapePredictor writer model) model := by
  induction events generalizing s with
  | nil => exact h
  | cons e events ih => exact ih (sound_step hw hd hextract hwrite hread e h)

end Sound

/-! ## Whole runs -/

theorem run_append (device : Platform) (format : FloatFormat Single) (path : String)
    (asset : List JByte) (s : App) (events later : List Event) :
    s.run device format path asset (events ++ later)
      = (s.run device format path asset events).run device format path asset later :=
  List.foldl_append

theorem file_run_of_some (device : Platform) (format : FloatFormat Single) (path : String)
    (asset : List JByte) {s : App} {content : List JByte} (h : s.file = some content) (events : List Event) :
    (s.run device format path asset events).file = some content := by
  induction events generalizing s with
  | nil => exact h
  | cons e events ih =>
    refine ih ?_
    cases e with
    | kill => exact h
    | create ios =>
      rw [App.step]
      split
      · exact h
      · rw [App.create, h, appStart_some]

theorem sound_installed {asset : List JByte} {model : ShapePredictor Single} :
    App.installed.Sound asset model :=
  ⟨fun _ hcontent ↦ absurd hcontent (by simp [App.installed]), fun _ ↦ Or.inl rfl⟩

section Runs

variable {writer device : Platform} {extract : List Byte → Extraction Single}
  {uninitialised : ℕ → Single} {path : String} {model : ShapePredictor Single}

/-- **The predictor behind the mutex.** Whatever creations and kills the app goes through, and
wherever its copies break off: the model file is a piece of the asset, and as long as the mutex is
not locked for good, the predictor is the empty one or the whole model of the asset. -/
theorem sound_run_installed (hw : writer.Sized) (hd : device.Sized)
    (hextract : ∃ left, extract [] = .failed left) (hwrite : writer.numbers.HasModel model)
    (hread : device.memory.HasModel model) (events : List Event) :
    (App.installed.run device (singleFormat extract uninitialised) path
        (serializeShapePredictor writer model) events).Sound
      (serializeShapePredictor writer model) model :=
  sound_run hw hd hextract hwrite hread events sound_installed

theorem sound_run_installed_stump :
    (App.installed.run phone (singleFormat noText fun _ ↦ .nan) "model.dat"
        (serializeShapePredictor roomy (.stump (ofInt binary32 0)))
        [.create [.returns 0, .throws 0], .kill, .create [.returns 0, .returns 0]]).Sound
      (serializeShapePredictor roomy (.stump (ofInt binary32 0))) (.stump (ofInt binary32 0)) :=
  sound_run_installed sized_roomy sized_phone ⟨none, rfl⟩ (hasModel_stump _).1 (hasModel_stump _).2
    [.create [.returns 0, .throws 0], .kill, .create [.returns 0, .returns 0]]

/-- **A broken copy is for ever.** Once an incomplete file is at the model path, it stays there, and
no `loadModel` of the app succeeds any more, in this process or in any other. -/
theorem predictor_run_of_partial_file (hw : writer.Sized) (hd : device.Sized)
    (hextract : ∃ left, extract [] = .failed left) (hwrite : writer.numbers.HasModel model)
    (hread : device.memory.HasModel model) {events : List Event} {cut : List JByte}
    (hfile : (App.installed.run device (singleFormat extract uninitialised) path
      (serializeShapePredictor writer model) events).file = some cut)
    (hcut : cut ≠ serializeShapePredictor writer model) (later : List Event) :
    let s := App.installed.run device (singleFormat extract uninitialised) path
      (serializeShapePredictor writer model) (events ++ later)
    s.file = some cut ∧
      (s.globals.mutexLocked = false → s.globals.shapePredictor = .empty) := by
  have hrun := file_run_of_some device (singleFormat extract uninitialised) path
    (serializeShapePredictor writer model) hfile later
  rw [← run_append] at hrun
  refine ⟨hrun, fun hfree ↦ ?_⟩
  rcases (sound_run hw hd hextract hwrite hread (events ++ later) sound_installed).predictor hfree
    with hempty | ⟨-, hwhole⟩
  · exact hempty
  · rw [hrun] at hwhole
    exact absurd (Option.some_inj.mp hwhole) hcut

/-- The process is killed as soon as the output is open. -/
theorem predictor_run_of_empty_file :
    let s := App.installed.run phone (singleFormat noText fun _ ↦ .nan) "model.dat"
      (serializeShapePredictor roomy (.stump (ofInt binary32 0)))
      ([.create [.returns 0, .returns 0]] ++ [.create [], .kill])
    s.file = some [] ∧ (s.globals.mutexLocked = false → s.globals.shapePredictor = .empty) := by
  have hfile : (App.installed.run phone (singleFormat noText fun _ ↦ .nan) "model.dat"
      (serializeShapePredictor roomy (.stump (ofInt binary32 0)))
      [.create [.returns 0, .returns 0]]).file = some [] := rfl
  exact predictor_run_of_partial_file sized_roomy sized_phone ⟨none, rfl⟩ (hasModel_stump _).1
    (hasModel_stump _).2 hfile (by simp [serializeShapePredictor, packSigned]) [.create [], .kill]

end Runs

end FacialLandmark
