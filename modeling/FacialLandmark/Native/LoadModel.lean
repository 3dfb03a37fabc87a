import FacialLandmark.Dlib.ShapePredictor
import Mathlib.Data.Rat.Defs
import Mathlib.Algebra.Field.Rat

/-!
# `loadModel`

The native side has two global variables, the predictor and a mutex. `loadModel` fetches the path as
a UTF string, takes the mutex, loads the predictor in place, gives the mutex back and releases the
string. All of this stands in one `try` block whose handler catches `serialization_error` and logs
it, so on that edge the last two steps are left out, and the predictor is what the load has made of
it. Any other exception leaves the function.

A call is described by what it does to the resources, by how it ends and by the globals it leaves. In
a sequence of calls each one finds the globals of the one before, and after a call that does not
return there is no other.
-/

namespace FacialLandmark

variable {F : Type}

structure NativeState (F : Type) where
  shapePredictor : ShapePredictor F
  mutexLocked : Bool

inductive Action where
  | getStringUTFChars
  | lock
  | unlock
  | releaseStringUTFChars
  | log (message : String)
  deriving DecidableEq

/-- `blocked`: the call waits for the mutex for ever. -/
inductive Ending where
  | returned
  | blocked
  | escaped (e : StdException)
  deriving DecidableEq

structure Call (F : Type) where
  actions : List Action
  ending : Ending
  globals : NativeState F

variable (platform : Platform) (format : FloatFormat F) (path : String)

/-- `loadModel(detectorPath)`, where `file` is what is at the path. -/
def loadModel (file : Option (List Byte)) (s : NativeState F) : Call F :=
  if s.mutexLocked then { actions := [.getStringUTFChars], ending := .blocked, globals := s }
  else
    match deserializeFile platform format path file s.shapePredictor with
    | (predictor, .ok _) =>
      { actions :=
          [.getStringUTFChars, .lock, .unlock, .releaseStringUTFChars, .log "JNI: model loaded"]
        ending := .returned
        globals := { shapePredictor := predictor, mutexLocked := false } }
    | (predictor, .error (.serialization_error info)) =>
      -- the handler knows neither the mutex nor the string
      { actions := [.getStringUTFChars, .lock, .log ("JNI: failed to model -> " ++ info)]
        ending := .returned
        globals := { shapePredictor := predictor, mutexLocked := true } }
    | (predictor, .error (.std e)) =>
      { actions := [.getStringUTFChars, .lock]
        ending := .escaped e
        globals := { shapePredictor := predictor, mutexLocked := true } }

/-- The calls of one process, for what each of them finds at the path. -/
def loadModels : List (Option (List Byte)) → NativeState F → List (Call F)
  | [], _ => []
  | file :: files, s =>
    let call := loadModel platform format path file s
    call :: if call.ending = .returned then loadModels files call.globals else []

/-- A call that returns leaves the mutex free and has released the one string it has fetched. -/
structure CleansUp (call : Call F) : Prop where
  mutex_free : call.globals.mutexLocked = false
  fetched_once : call.actions.count .getStringUTFChars = 1
  released_once : call.actions.count .releaseStringUTFChars = 1

/-- Every call that returns cleans up, and no call waits for a mutex that is not given back. -/
def Disciplined (calls : List (Call F)) : Prop :=
  ∀ call ∈ calls, call.ending ≠ .blocked ∧ (call.ending = .returned → CleansUp call)

theorem disciplined_cons {call : Call F} {calls : List (Call F)} :
    Disciplined (call :: calls) ↔
      (call.ending ≠ .blocked ∧ (call.ending = .returned → CleansUp call)) ∧ Disciplined calls :=
  List.forall_mem_cons

/-- A 64-bit platform whose memory never runs short. -/
def lp64 : Platform where
  sizeofLong := 8
  allocate size n := if (2 ^ 63 - 1) / size < n then some .length_error else none

/-- Exact numbers in the place of `float`s, `none` for what is not finite. No text of the older format
is a number. -/
def exactFormat : FloatFormat (Option ℚ) where
  zero := some 0
  infinity := none
  negInfinity := none
  quietNaN := none
  ldexp mantissa exponent := some (mantissa * 2 ^ exponent)
  extract _ := .failed none
  uninitialised _ := none

/-! ## One call -/

variable {platform format path} {file : Option (List Byte)} {s : NativeState F}

theorem loadModel_of_parse {result : ShapePredictor F × List Byte} (hfree : s.mutexLocked = false)
    (h : parseFile platform format path file = .ok result) :
    (loadModel platform format path file s).ending = .returned
      ∧ CleansUp (loadModel platform format path file s) := by
  have hload := deserializeFile_of_parse h s.shapePredictor
  rw [loadModel, hfree, hload]
  exact ⟨rfl, rfl, rfl, rfl⟩

theorem loadModel_of_parse_eq_error {info : String} (hfree : s.mutexLocked = false)
    (h : parseFile platform format path file = .error (.serialization_error info)) :
    (loadModel platform format path file s).ending = .returned ∧
      (loadModel platform format path file s).globals.mutexLocked = true ∧
      (loadModel platform format path file s).globals.shapePredictor
        = (deserializeFile platform format path file s.shapePredictor).1 := by
  have hload := deserializeFile_of_parse_eq_error h s.shapePredictor
  rw [loadModel, hfree, hload]
  exact ⟨rfl, rfl, rfl⟩

/-- The model after a failed load is the one from before when all that was stored on the way to the
failure was there already. -/
theorem shapePredictor_loadModel_eq_iff_keepsModel {info : String} (hfree : s.mutexLocked = false)
    (hfail : parseFile platform format path file = .error (.serialization_error info)) :
    (loadModel platform format path file s).globals.shapePredictor = s.shapePredictor
      ↔ KeepsModel platform format path file s.shapePredictor := by
  rw [(loadModel_of_parse_eq_error hfree hfail).2.2]
  exact fst_deserializeFile_eq_iff path file s.shapePredictor

theorem length_initial_shape_of_kept {info : String} {rows : ℤ} (hfree : s.mutexLocked = false)
    (hfail : parseFile platform format path file = .error (.serialization_error info))
    (hrows : meanShapeRows platform file = some rows)
    (hkept : (loadModel platform format path file s).globals.shapePredictor = s.shapePredictor) :
    (s.shapePredictor.initial_shape.length : ℤ) = rows := by
  rw [shapePredictor_loadModel_eq_iff_keepsModel hfree hfail] at hkept
  exact length_initial_shape_of_keepsModel hrows hfail hkept

/-- **The model after a failed load.** The model of every process survives a broken file exactly when
the file is not read as far as the size of its mean shape. Behind that point only a model with a mean
shape of the same size can survive. -/
theorem shapePredictor_loadModel_eq_iff {info : String}
    (hfail : parseFile platform format path file = .error (.serialization_error info)) :
    ((∀ s : NativeState F, s.mutexLocked = false →
        (loadModel platform format path file s).ending = .returned ∧
          (loadModel platform format path file s).globals.shapePredictor = s.shapePredictor)
      ↔ meanShapeRows platform file = none) ∧
    ∀ s : NativeState F, s.mutexLocked = false → ∀ rows, meanShapeRows platform file = some rows →
      (loadModel platform format path file s).globals.shapePredictor = s.shapePredictor →
      (s.shapePredictor.initial_shape.length : ℤ) = rows := by
  refine ⟨⟨fun hall ↦ ?_, fun hnone s hfree ↦ ⟨?_, ?_⟩⟩, fun s hfree rows hrows hkept ↦ ?_⟩
  · -- two models with mean shapes of different sizes cannot both survive
    by_contra hsome
    obtain ⟨rows, hsome⟩ := Option.ne_none_iff_exists'.mp hsome
    have hempty := length_initial_shape_of_kept (s := ⟨.empty, false⟩) rfl hfail hsome
      (hall _ rfl).2
    have hstump := length_initial_shape_of_kept (s := ⟨.stump format.zero, false⟩) rfl hfail hsome
      (hall _ rfl).2
    exact absurd (hempty.trans hstump.symm) (by simp [ShapePredictor.empty, ShapePredictor.stump])
  · exact (loadModel_of_parse_eq_error hfree hfail).1
  · exact (shapePredictor_loadModel_eq_iff_keepsModel hfree hfail).mpr
      (keepsModel_of_meanShapeRows s.shapePredictor hnone)
  · exact length_initial_shape_of_kept hfree hfail hrows hkept

/-- A file of another version is given up before anything is stored. -/
theorem shapePredictor_loadModel_version_two :
    (loadModel lp64 exactFormat "model.dat" (some [1#8, 2#8]) ⟨.stump (some 0), false⟩).ending
        = .returned ∧
      (loadModel lp64 exactFormat "model.dat" (some [1#8, 2#8])
        ⟨.stump (some 0), false⟩).globals.shapePredictor = .stump (some 0) :=
  (shapePredictor_loadModel_eq_iff rfl).1.mpr rfl ⟨.stump (some 0), false⟩ rfl

/-- A file that is cut off after the size of the mean shape, two rows and one column: the predictor,
which had no model before, then has a mean shape of two numbers and no trees. -/
theorem not_forall_shapePredictor_loadModel_eq :
    ¬∀ (file : Option (List Byte)) (s : NativeState (Option ℚ)) (info : String),
      s.mutexLocked = false →
      parseFile lp64 exactFormat "model.dat" file = .error (.serialization_error info) →
      (loadModel lp64 exactFormat "model.dat" file s).globals.shapePredictor = s.shapePredictor := by
  intro hall
  obtain ⟨info, hfail⟩ : ∃ info, parseFile lp64 exactFormat "model.dat"
      (some [1#8, 1#8, 1#8, 2#8, 1#8, 1#8]) = .error (.serialization_error info) := ⟨_, rfl⟩
  have hsame := hall _ ⟨.empty, false⟩ info rfl hfail
  have hlength : ((.empty : ShapePredictor (Option ℚ)).initial_shape.length : ℤ) = 2 :=
    length_initial_shape_of_kept rfl hfail rfl hsame
  exact absurd hlength (by decide)

/-! ## Sequences of calls -/

/-- **The discipline of a process** whose loads succeed or fail with `serialization_error`: it is kept
exactly when none of them fails. -/
theorem disciplined_loadModels_iff {files : List (Option (List Byte))}
    (hfree : s.mutexLocked = false)
    (hfiles : ∀ file ∈ files, ∀ e, parseFile platform format path file ≠ .error (.std e)) :
    Disciplined (loadModels platform format path files s)
      ↔ ∀ file ∈ files, ∃ result, parseFile platform format path file = .ok result := by
  induction files generalizing s with
  | nil => simp [loadModels, Disciplined]
  | cons file files ih =>
    rw [List.forall_mem_cons] at hfiles ⊢
    rw [loadModels, disciplined_cons]
    cases hparse : parseFile platform format path file with
    | ok result =>
      obtain ⟨hreturned, hclean⟩ := loadModel_of_parse hfree hparse
      rw [if_pos hreturned, ih hclean.mutex_free hfiles.2]
      exact and_congr_left fun _ ↦
        iff_of_true ⟨by rw [hreturned]; decide, fun _ ↦ hclean⟩ ⟨result, rfl⟩
    | error e =>
      cases e with
      | serialization_error info =>
        -- this call returns, and it has not cleaned up
        obtain ⟨hreturned, hlocked, -⟩ := loadModel_of_parse_eq_error hfree hparse
        refine iff_of_false ?_ ?_
        · rintro ⟨⟨-, hclean⟩, -⟩
          exact absurd (hclean hreturned).mutex_free (by rw [hlocked]; decide)
        · rintro ⟨⟨result, hresult⟩, -⟩
          exact absurd hresult (by simp)
      | std e => exact absurd hparse (hfiles.1 e)

/-- Two calls, and no file at the path. -/
theorem disciplined_loadModels_two :
    Disciplined (loadModels lp64 exactFormat "model.dat" [none, none] ⟨.empty, false⟩)
      ↔ ∀ file ∈ [none, none], ∃ result, parseFile lp64 exactFormat "model.dat" file = .ok result :=
  disciplined_loadModels_iff rfl (by simp [parseFile, unableToOpen])

/-- The second of them finds the mutex as the first has left it. -/
theorem not_forall_disciplined_loadModels :
    ¬∀ (files : List (Option (List Byte))) (s : NativeState (Option ℚ)), s.mutexLocked = false →
      (∀ file ∈ files, ∀ e, parseFile lp64 exactFormat "model.dat" file ≠ .error (.std e)) →
      Disciplined (loadModels lp64 exactFormat "model.dat" files s) := by
  intro hall
  have hdisciplined := hall [none, none] ⟨.empty, false⟩ rfl (by simp [parseFile, unableToOpen])
  have hblocked := (disciplined_cons.mp (disciplined_cons.mp hdisciplined).2).1.1
  exact absurd hblocked (by decide)

end FacialLandmark
