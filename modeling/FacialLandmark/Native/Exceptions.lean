import FacialLandmark.Dlib.Requests
import FacialLandmark.Native.LoadModel

/-!
# Which exceptions leave `loadModel`

The handler of `loadModel` catches `serialization_error`, and what the reading of a model throws
besides comes from the requests it makes (`failsBy_deserializeShapePredictor`). So whether a call comes
back to Java is a matter of the lengths in the file: those that the reading gets to see are passed to
the C++ library, and one that the library refuses ends the process.
-/

namespace FacialLandmark

open InPlace

variable {F : Type} (platform : Platform) (format : FloatFormat F) (path : String)

/-- The call comes back to its Java caller, with the model loaded or with the failure logged. -/
def ReturnsNormally (file : Option (List Byte)) (call : Call F) : Prop :=
  call.ending = .returned ∧
    ((∃ rest, parseFile platform format path file = .ok (call.globals.shapePredictor, rest) ∧
        .log "JNI: model loaded" ∈ call.actions) ∨
      ∃ info, .log ("JNI: failed to model -> " ++ info) ∈ call.actions)

variable {platform format path}

theorem endsBadly_parseFile_iff {bytes : List Byte} :
    EndsBadly LoadError.IsStd (parseFile platform format path (some bytes))
      ↔ ∃ r ∈ modelRequests platform format bytes, platform.Refuses r := by
  have hfirst : FailsBy LoadError.IsStd platform.Refuses
      (deserializeFirst platform format path bytes).parse _ :=
    failsBy_rethrow (LoadError.isStd_withInfo _)
      (failsBy_after (fun input ↦ by split <;> exact id) fun _ ↦ failsBy_deserializeShapePredictor)
  rw [parseFile, hfirst bytes]
  by_cases hempty : bytes = []
  · subst hempty
    rfl
  · simp only [Requests.after, if_neg hempty]

theorem returnsNormally_loadModel_of_free {file : Option (List Byte)} {s : NativeState F}
    (hfree : s.mutexLocked = false) :
    ReturnsNormally platform format path file (loadModel platform format path file s)
      ↔ ¬EndsBadly LoadError.IsStd (parseFile platform format path file) := by
  cases hparse : parseFile platform format path file with
  | ok result =>
    have hload := deserializeFile_of_parse hparse s.shapePredictor
    refine iff_of_true ?_ not_endsBadly_ok
    simp only [ReturnsNormally, loadModel, hfree, hload, hparse]
    exact ⟨rfl, Or.inl ⟨result.2, rfl, by simp⟩⟩
  | error e =>
    have hload := deserializeFile_of_parse_eq_error hparse s.shapePredictor
    cases e with
    | serialization_error info =>
      refine iff_of_true ?_ id
      simp only [ReturnsNormally, loadModel, hfree, hparse]
      rw [hload]
      exact ⟨rfl, Or.inr ⟨info, by simp⟩⟩
    | std e =>
      -- the handler does not fit
      refine iff_of_false ?_ (not_not_intro trivial)
      rintro ⟨hreturned, -⟩
      simp only [loadModel, hfree] at hreturned
      rw [hload] at hreturned
      exact absurd hreturned (by simp)

/-- **No exception leaves `loadModel`** exactly when the mutex is free and every request that the
reading of the file makes is granted. -/
theorem returnsNormally_loadModel_iff (bytes : List Byte) (s : NativeState F) :
    ReturnsNormally platform format path (some bytes)
        (loadModel platform format path (some bytes) s)
      ↔ s.mutexLocked = false ∧ ∀ r ∈ modelRequests platform format bytes, ¬platform.Refuses r := by
  cases hlocked : s.mutexLocked with
  | true =>
    refine iff_of_false ?_ (by simp)
    rintro ⟨hreturned, -⟩
    rw [loadModel, if_pos hlocked] at hreturned
    exact absurd hreturned (by simp)
  | false =>
    rw [returnsNormally_loadModel_of_free hlocked, endsBadly_parseFile_iff]
    simp

/-- A file with an empty mean shape, in which the number of levels of the cascade is `2 ^ 64 - 1`. -/
def hugeForests : List Byte :=
  [1#8, 1#8, 1#8, 0#8, 1#8, 1#8, 8#8, 0xFF#8, 0xFF#8, 0xFF#8, 0xFF#8, 0xFF#8, 0xFF#8, 0xFF#8, 0xFF#8]

/-- `resize` throws a `length_error` for that number, and nothing on the way out of `loadModel` catches
it. -/
theorem not_forall_returnsNormally :
    ¬∀ (bytes : List Byte) (s : NativeState (Option ℚ)), s.mutexLocked = false →
      ReturnsNormally lp64 exactFormat "model.dat" (some bytes)
        (loadModel lp64 exactFormat "model.dat" (some bytes) s) := by
  intro hall
  obtain ⟨hreturned, -⟩ := hall hugeForests ⟨.empty, false⟩ rfl
  have hescaped : (loadModel lp64 exactFormat "model.dat" (some hugeForests)
      ⟨.empty, false⟩).ending = .escaped .length_error := rfl
  rw [hescaped] at hreturned
  exact absurd hreturned (by decide)

end FacialLandmark
