import FacialLandmark.App.Lifecycle

/-!
# The stages of a process

What a process has come to, as far as the model is concerned, is one of four things, and how it goes
on from there depends on no more than whether the next `onCreate` finds the whole asset at the model
path. `Stage.step` is that machine; `inStage_run` says that the app, with its file, its predictor and
its mutex, follows it.

Whether there is a way back to the model, if need be by way of a new process, the file alone decides.
-/

namespace FacialLandmark

open InPlace BinaryFloat

/-- `fresh`: nothing has been loaded. `ready`: the model has. `broken`: a load has failed, and holds
the mutex. `stuck`: another load waits for it. -/
inductive Stage where
  | fresh
  | ready
  | broken
  | stuck
  deriving DecidableEq

/-- What an `onCreate` has at the model path when it comes to load: it has been killed before that, or
the file is not the asset, or it is. -/
inductive Found where
  | killed
  | piece
  | whole
  deriving DecidableEq

inductive StageEvent where
  | create (found : Found)
  | kill
  deriving DecidableEq

def Stage.step : Stage → StageEvent → Stage
  | _, .kill => .fresh
  | .stuck, .create _ => .stuck
  | _, .create .killed => .fresh
  | .broken, .create _ => .stuck
  | _, .create .piece => .broken
  | _, .create .whole => .ready

/-- An event of the app, as the machine sees it. -/
def App.stageEvent (asset : List JByte) (s : App) : Event → StageEvent
  | .create ios =>
    match (appStart asset s.file ios).loaded with
    | none => .create .killed
    | some found => if found = some asset then .create .whole else .create .piece
  | .kill => .kill

def App.stages (device : Platform) (format : FloatFormat Single) (path : String) (asset : List JByte) :
    App → Stage → List Event → Stage
  | _, stage, [] => stage
  | s, stage, e :: events =>
    App.stages device format path asset (s.step device format path asset e)
      (stage.step (s.stageEvent asset e)) events

/-- What the stages mean for the app. -/
def App.InStage (asset : List JByte) (model : ShapePredictor Single) (s : App) : Stage → Prop
  | .fresh => s.halted = false ∧ s.globals = freshGlobals
  | .ready => s.halted = false ∧ s.file = some asset ∧
      s.globals = { shapePredictor := model.unsignZeros, mutexLocked := false }
  | .broken => s.halted = false ∧ s.globals.mutexLocked = true
  | .stuck => s.halted = true ∧ s.globals.mutexLocked = true

def App.HasLoaded (model : ShapePredictor Single) (s : App) : Prop :=
  s.halted = false ∧ s.globals = { shapePredictor := model.unsignZeros, mutexLocked := false }

section Steps

variable {writer device : Platform} {extract : List Byte → Extraction Single}
  {uninitialised : ℕ → Single} {path : String} {model : ShapePredictor Single} {s : App}
  {stage : Stage} (hw : writer.Sized) (hd : device.Sized)
  (hextract : ∃ left, extract [] = .failed left) (hwrite : writer.numbers.HasModel model)
  (hread : device.memory.HasModel model)

theorem create_of_locked {format : FloatFormat Single} {asset : List JByte} {ios : List Io}
    (hlocked : s.globals.mutexLocked = true) {found : Option (List JByte)}
    (hfound : (appStart asset s.file ios).loaded = some found) :
    (s.create device format path asset ios).halted = true ∧
      (s.create device format path asset ios).globals = s.globals := by
  simp [App.create, hfound, loadModel, hlocked]

include hw hd hextract hwrite hread

theorem inStage_create_of_free {ios : List Io}
    (hbegin : ∀ content ∈ s.file, content <+: serializeShapePredictor writer model)
    (hfree : s.globals.mutexLocked = false) {found : Option (List JByte)}
    (hfound : (appStart (serializeShapePredictor writer model) s.file ios).loaded = some found) :
    (s.create device (singleFormat extract uninitialised) path
      (serializeShapePredictor writer model) ios).InStage (serializeShapePredictor writer model) model
      (if found = some (serializeShapePredictor writer model) then .ready else .broken) := by
  have hfile := loaded_appStart hfound
  have hpiece := isPrefix_appStart ios hbegin
  rw [hfile] at hpiece
  rcases @sound_loadModel writer device extract uninitialised path model hw hd hextract hwrite hread
    found s.globals hpiece hfree with ⟨hwhole, hcall⟩ | ⟨hne, hcall⟩
  · rw [if_pos hwhole]
    simp only [App.create, hfound]
    exact ⟨by simp [hcall.returned], hfile.trans hwhole, hcall.globals⟩
  · rw [if_neg hne]
    simp only [App.create, hfound]
    exact ⟨by simp [hcall.returned], hcall.mutex_locked⟩

theorem inStage_step (hbegin : ∀ content ∈ s.file, content <+: serializeShapePredictor writer model)
    (hs : s.InStage (serializeShapePredictor writer model) model stage) (e : Event) :
    (s.step device (singleFormat extract uninitialised) path (serializeShapePredictor writer model)
      e).InStage (serializeShapePredictor writer model) model
      (stage.step (s.stageEvent (serializeShapePredictor writer model) e)) := by
  cases e with
  | kill => cases stage <;> exact ⟨rfl, rfl⟩
  | create ios =>
    by_cases hstuck : stage = .stuck
    · subst hstuck
      rw [App.step, if_pos hs.1, App.stageEvent]
      split
      · exact hs
      · split <;> exact hs
    have hrunning : s.halted = false := by
      cases stage with
      | fresh => exact hs.1
      | ready => exact hs.1
      | broken => exact hs.1
      | stuck => exact absurd rfl hstuck
    rw [App.step, hrunning, if_neg (by decide), App.stageEvent]
    cases hfound : (appStart (serializeShapePredictor writer model) s.file ios).loaded with
    | none =>
      -- the process is killed in the copy
      have hkilled : stage.step (.create .killed) = .fresh := by
        cases stage <;> first | rfl | exact absurd rfl hstuck
      simp only [hkilled, App.create, hfound]
      exact ⟨rfl, rfl⟩
    | some found =>
      by_cases hbroken : stage = .broken
      · subst hbroken
        have hwaits := @create_of_locked device path s (singleFormat extract uninitialised)
          (serializeShapePredictor writer model) ios hs.2 found hfound
        have hnext : Stage.step .broken (if found = some (serializeShapePredictor writer model)
            then .create .whole else .create .piece) = .stuck := by split <;> rfl
        simp only [hnext]
        exact ⟨hwaits.1, by rw [hwaits.2]; exact hs.2⟩
      · have hfree : s.globals.mutexLocked = false := by
          cases stage with
          | fresh => rw [hs.2, freshGlobals]
          | ready => rw [hs.2.2]
          | broken => exact absurd rfl hbroken
          | stuck => exact absurd rfl hstuck
        have hnext : stage.step (if found = some (serializeShapePredictor writer model)
              then .create .whole else .create .piece)
            = if found = some (serializeShapePredictor writer model) then .ready else .broken := by
          cases stage with
          | fresh => split <;> rfl
          | ready => split <;> rfl
          | broken => exact absurd rfl hbroken
          | stuck => exact absurd rfl hstuck
        simp only [hnext]
        exact inStage_create_of_free hw hd hextract hwrite hread hbegin hfree hfound

theorem inStage_run (hbegin : ∀ content ∈ s.file, content <+: serializeShapePredictor writer model)
    (hs : s.InStage (serializeShapePredictor writer model) model stage) (events : List Event) :
    (s.run device (singleFormat extract uninitialised) path (serializeShapePredictor writer model)
      events).InStage (serializeShapePredictor writer model) model
      (s.stages device (singleFormat extract uninitialised) path
        (serializeShapePredictor writer model) stage events) := by
  induction events generalizing s stage with
  | nil => exact hs
  | cons e events ih =>
    exact ih (isPrefix_step e hbegin) (inStage_step hw hd hextract hwrite hread hbegin hs e)

/-- **Four stages.** From the installation on, through all creations and kills, the app does what the
machine of four stages does: it has loaded nothing, or the whole model, or has failed and keeps the
mutex, or waits for it, and which of these it is follows from what the creations have found. -/
theorem inStage_run_installed (events : List Event) :
    (App.installed.run device (singleFormat extract uninitialised) path
      (serializeShapePredictor writer model) events).InStage
      (serializeShapePredictor writer model) model
      (App.installed.stages device (singleFormat extract uninitialised) path
        (serializeShapePredictor writer model) .fresh events) := by
  have hinstalled : App.installed.InStage (serializeShapePredictor writer model) model .fresh :=
    ⟨rfl, rfl⟩
  exact inStage_run hw hd hextract hwrite hread
    (fun _ hcontent ↦ absurd hcontent (by simp [App.installed])) hinstalled events

omit hw hd hextract hwrite hread in
theorem inStage_run_installed_stump :
    (App.installed.run phone (singleFormat noText fun _ ↦ .nan) "model.dat"
      (serializeShapePredictor roomy (.stump (ofInt binary32 0)))
      [.create [.throws 0], .create []]).InStage
      (serializeShapePredictor roomy (.stump (ofInt binary32 0))) (.stump (ofInt binary32 0))
      (App.installed.stages phone (singleFormat noText fun _ ↦ .nan) "model.dat"
        (serializeShapePredictor roomy (.stump (ofInt binary32 0))) .fresh
        [.create [.throws 0], .create []]) :=
  inStage_run_installed sized_roomy sized_phone ⟨none, rfl⟩ (hasModel_stump _).1 (hasModel_stump _).2
    [.create [.throws 0], .create []]

/-! ## The way back -/

omit hw hd hextract hwrite hread in
theorem eq_empty_of_unsignZeros (h : model.unsignZeros = .empty) : model = .empty := by
  obtain ⟨initial_shape, forests, anchor_idx, deltas⟩ := model
  simpa [ShapePredictor.unsignZeros, ShapePredictor.map, ShapePredictor.empty] using h

theorem exists_hasLoaded_of_file (h : s.file = none ∨ s.file = some (serializeShapePredictor writer model)) :
    ∃ ios, (s.run device (singleFormat extract uninitialised) path
      (serializeShapePredictor writer model) [.kill, .create ios]).HasLoaded model := by
  have hstart : ∃ ios, (appStart (serializeShapePredictor writer model) s.file ios).loaded
      = some (some (serializeShapePredictor writer model)) := by
    rcases h with hnone | hwhole
    · obtain ⟨ios, hended, hfile⟩ := exists_complete_copyRun (serializeShapePredictor writer model)
      refine ⟨ios, ?_⟩
      simp only [appStart, hnone, Option.isSome_none, Bool.false_eq_true, if_false, if_pos hended,
        hfile]
    · exact ⟨[], by rw [hwhole, appStart_some]⟩
  obtain ⟨ios, hfound⟩ := hstart
  refine ⟨ios, ?_⟩
  rcases @sound_loadModel writer device extract uninitialised path model hw hd hextract hwrite hread
    (some (serializeShapePredictor writer model)) freshGlobals (fun content hcontent ↦ by
      rw [← Option.some_inj.mp hcontent]) rfl with ⟨-, hloaded⟩ | ⟨hpiece, -⟩
  · simp only [App.run, List.foldl_cons, List.foldl_nil, App.step, App.create, hfound,
      Bool.false_eq_true, if_false]
    exact ⟨by simp [hloaded.returned], hloaded.globals⟩
  · exact absurd rfl hpiece

/-- **When there is a way back.** Whatever has happened, the app can still come to its model, in this
process or in another, exactly if no file or the whole asset is at the model path. -/
theorem exists_hasLoaded_run_iff (hmodel : model ≠ .empty) (events : List Event) :
    let s := App.installed.run device (singleFormat extract uninitialised) path
      (serializeShapePredictor writer model) events
    (∃ later, (s.run device (singleFormat extract uninitialised) path
        (serializeShapePredictor writer model) later).HasLoaded model)
      ↔ s.file = none ∨ s.file = some (serializeShapePredictor writer model) := by
  intro s
  constructor
  · rintro ⟨later, -, hglobals⟩
    cases hfile : s.file with
    | none => exact Or.inl rfl
    | some cut =>
      have hrun := file_run_of_some device (singleFormat extract uninitialised) path
        (serializeShapePredictor writer model) hfile later
      have hsound : (App.installed.run device (singleFormat extract uninitialised) path
          (serializeShapePredictor writer model) (events ++ later)).Sound
          (serializeShapePredictor writer model) model :=
        sound_run hw hd hextract hwrite hread (events ++ later) sound_installed
      rw [run_append] at hsound
      rcases hsound.predictor (by rw [hglobals]) with hempty | ⟨-, hwhole⟩
      · rw [hglobals] at hempty
        exact absurd (eq_empty_of_unsignZeros hempty) hmodel
      · exact Or.inr (hrun.symm.trans hwhole)
  · intro hfile
    obtain ⟨ios, hloaded⟩ := @exists_hasLoaded_of_file writer device extract uninitialised path model s
      hw hd hextract hwrite hread hfile
    exact ⟨_, hloaded⟩

omit hw hd hextract hwrite hread in
/-- A copy that fails before there is a file, and a load that keeps the mutex. -/
theorem exists_hasLoaded_run_iff_stump :
    let s := App.installed.run phone (singleFormat noText fun _ ↦ .nan) "model.dat"
      (serializeShapePredictor roomy (.stump (ofInt binary32 0))) [.create [.throws 0], .create []]
    (∃ later, (s.run phone (singleFormat noText fun _ ↦ .nan) "model.dat"
        (serializeShapePredictor roomy (.stump (ofInt binary32 0))) later).HasLoaded
          (.stump (ofInt binary32 0)))
      ↔ s.file = none ∨ s.file = some (serializeShapePredictor roomy (.stump (ofInt binary32 0))) :=
  exists_hasLoaded_run_iff sized_roomy sized_phone ⟨none, rfl⟩ (hasModel_stump _).1 (hasModel_stump _).2
    (by simp [ShapePredictor.stump, ShapePredictor.empty]) [.create [.throws 0], .create []]

end Steps

end FacialLandmark
