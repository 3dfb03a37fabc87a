import FacialLandmark.Library.Raster
import FacialLandmark.Library.Significand
import FacialLandmark.Library.StoreLog
import Mathlib.Data.List.GetD

/-!
# From the predictor's parts to circles on the view

The points of a detection pass through four hands: `detectLandmark` packs them into a buffer of
`jlong`s and copies the buffer into a Java array, `onCreate` logs the first element of the array and
gives it to the view, and `onDrawForeground` walks over it in steps of two. An index outside an
array ends the run in each of them, and so does copying a cell of the buffer that was never written;
all of these are `none`.

The length of the buffer is `num_points * sizeof(short)`, which is two for each point as long as the
product fits into a `jsize`. The circles are drawn at `float` coordinates, so a coordinate is kept
exactly when binary32 has it (`Significand.Representable`).
-/

namespace FacialLandmark

/-- A `jlong`, and the `long` of a `dlib::point`. -/
abbrev JLong := BitVec 64

structure Point where
  x : JLong
  y : JLong
  deriving DecidableEq, Inhabited

/-- A circle that `drawCircle` is called for; the values are those of the `float` arguments. -/
structure Circle where
  cx : ℤ
  cy : ℤ
  radius : ℤ
  deriving DecidableEq

structure ImageWithLandmark where
  landmarks : Option (List JLong)

/-! ## `detectLandmark`, after the prediction -/

/-- `(jsize) (num_points * sizeof(short))`. -/
def bufferLength (num_points : ℕ) : ℤ := (BitVec.ofNat 32 (num_points * 2)).toInt

/-- The cursor `k`, with the stores into `buffer` made so far. A cell of `buffer` holds nothing until
it is written. -/
structure PackState where
  stores : List (ℕ × Option JLong)
  k : ℕ

def packStep (parts : List Point) (s : PackState) (i : ℕ) : PackState :=
  let p := parts.getD i default
  let s := { stores := s.stores ++ [(s.k, some p.x)], k := s.k + 1 : PackState }
  { stores := s.stores ++ [(s.k, some p.y)], k := s.k + 1 }

def packRun (parts : List Point) : PackState :=
  Raster.forRange parts.length (packStep parts) { stores := [], k := 0 }

/-- The array `detectLandmark` returns for the parts of a detection. `SetLongArrayRegion` copies all
`len` cells of the buffer. The stack is taken to have room for the buffer, 16 bytes for each part. -/
def packLandmarks (parts : List Point) : Option (List JLong) := do
  let len := bufferLength parts.length
  if len < 0 then none
  else
    let buffer ← StoreLog.replay? (List.replicate len.toNat none) (packRun parts).stores
    Raster.tabulate? (fun i ↦ buffer.getD i none) len.toNat

/-! ## The Kotlin side -/

/-- `Long.toFloat()`: the value of the nearest binary32 number, ties to even. -/
def JLong.toFloat (x : JLong) : ℤ := Significand.roundInt 24 x.toInt

def ImageWithLandmark.setLendmarks (landmarks : List JLong) : ImageWithLandmark :=
  { landmarks := some landmarks }

/-- The end of `MainActivity.onCreate`: the log line reads `landmarks[0]`. -/
def onCreateLandmarks (landmarks : List JLong) : Option ImageWithLandmark := do
  let _ ← landmarks[0]?
  some (ImageWithLandmark.setLendmarks landmarks)

/-- The body of the drawing loop at index `i`. -/
def drawLandmark (landmarks : List JLong) (i : ℕ) : Option Circle := do
  let x ← landmarks[i]?
  let y ← landmarks[i + 1]?
  some { cx := x.toFloat, cy := y.toFloat, radius := 8 }

/-- `onDrawForeground`: the circles drawn, for `i` in `landmarks.indices step 2`. -/
def ImageWithLandmark.onDrawForeground (view : ImageWithLandmark) : Option (List Circle) :=
  match view.landmarks with
  | none => some []
  | some landmarks =>
    Raster.tabulate? (fun m ↦ drawLandmark landmarks (2 * m)) ((landmarks.length + 1) / 2)

def handOff (parts : List Point) : Option (List Circle) := do
  let landmarks ← packLandmarks parts
  let view ← onCreateLandmarks landmarks
  view.onDrawForeground

/-- No index misses an array, and the circles drawn are those of the parts, in order. -/
def DrawsParts (parts : List Point) : Prop :=
  handOff parts = some (parts.map fun p ↦ { cx := p.x.toInt, cy := p.y.toInt, radius := 8 })

instance (parts : List Point) : Decidable (DrawsParts parts) :=
  inferInstanceAs (Decidable (_ = _))

/-! ## The buffer -/

theorem bufferLength_eq {n : ℕ} (h : n < 2 ^ 30) : bufferLength n = 2 * n := by
  rw [bufferLength, BitVec.toInt_ofNat', Int.bmod_def]
  split <;> omega

theorem lt_of_le_bufferLength {n : ℕ} (h : 2 * (n : ℤ) ≤ bufferLength n) : n < 2 ^ 30 := by
  rw [bufferLength, BitVec.toInt_ofNat', Int.bmod_def] at h
  split at h <;> omega

def partStores (parts : List Point) (m : ℕ) : List (ℕ × Option JLong) :=
  [(2 * m, some (parts.getD m default).x), (2 * m + 1, some (parts.getD m default).y)]

/-- The loop invariant at the head that handles part `i`. -/
structure PackInv (parts : List Point) (i : ℕ) (s : PackState) : Prop where
  k_eq : s.k = 2 * i
  stores_eq : s.stores = (List.range i).flatMap (partStores parts)

theorem packStep_invariant {parts : List Point} {i : ℕ} {s : PackState}
    (h : PackInv parts i s) : PackInv parts (i + 1) (packStep parts s i) := by
  obtain ⟨hk, hstores⟩ := h
  refine ⟨by simp only [packStep, hk]; ring, ?_⟩
  rw [List.range_succ, List.flatMap_append, List.flatMap_singleton, ← hstores]
  simp only [packStep, partStores, hk, List.append_assoc, List.cons_append, List.nil_append]

theorem packRun_invariant (parts : List Point) : PackInv parts parts.length (packRun parts) :=
  Raster.forRange_induction (PackInv parts) ⟨rfl, rfl⟩ fun _ _ _ hs ↦ packStep_invariant hs

theorem mem_stores_packRun {parts : List Point} {store : ℕ × Option JLong} :
    store ∈ (packRun parts).stores ↔ ∃ m < parts.length, store ∈ partStores parts m := by
  simp only [(packRun_invariant parts).stores_eq, List.mem_flatMap, List.mem_range]

theorem inBounds_packRun_iff {parts : List Point} {length : ℕ} :
    StoreLog.InBounds length (packRun parts).stores ↔ 2 * parts.length ≤ length := by
  constructor
  · intro h
    by_contra hshort
    have hlast : (2 * (parts.length - 1) + 1, some (parts.getD (parts.length - 1) default).y)
        ∈ (packRun parts).stores :=
      mem_stores_packRun.mpr ⟨parts.length - 1, by omega, by simp [partStores]⟩
    have hlt := h _ hlast
    simp only at hlt
    omega
  · intro hlength store hstore
    obtain ⟨m, hm, hstore⟩ := mem_stores_packRun.mp hstore
    simp only [partStores, List.mem_cons, List.not_mem_nil, or_false] at hstore
    rcases hstore with rfl | rfl <;> simp only <;> omega

/-! ## What arrives -/

def JLong.Exact (x : JLong) : Prop := Significand.Representable 24 x.toInt.natAbs

instance (x : JLong) : Decidable x.Exact :=
  inferInstanceAs (Decidable (Significand.Representable _ _))

theorem JLong.toFloat_eq_iff {x : JLong} : x.toFloat = x.toInt ↔ x.Exact :=
  Significand.roundInt_eq_self_iff

theorem x_mem_stores_packRun {parts : List Point} {m : ℕ} (hm : m < parts.length) :
    (2 * m, some (parts.getD m default).x) ∈ (packRun parts).stores :=
  mem_stores_packRun.mpr ⟨m, hm, by simp [partStores]⟩

theorem y_mem_stores_packRun {parts : List Point} {m : ℕ} (hm : m < parts.length) :
    (2 * m + 1, some (parts.getD m default).y) ∈ (packRun parts).stores :=
  mem_stores_packRun.mpr ⟨m, hm, by simp [partStores]⟩

/-- Two stores for each part, and each cell of a buffer of that length is reached: none is stored
twice. -/
theorem writesOnce_packRun (parts : List Point) :
    StoreLog.WritesOnce (2 * parts.length) (packRun parts).stores := by
  refine StoreLog.writesOnce_of_reaches (fun p hp ↦ ?_) ?_
  · obtain ⟨m, rfl | rfl⟩ := Nat.even_or_odd' p
    · exact ⟨_, x_mem_stores_packRun (by omega)⟩
    · exact ⟨_, y_mem_stores_packRun (by omega)⟩
  · rw [(packRun_invariant parts).stores_eq, List.length_flatMap]
    simp [partStores, Nat.mul_comm]

def packedBuffer (parts : List Point) : List (Option JLong) :=
  StoreLog.replay (List.replicate (2 * parts.length) none) (packRun parts).stores

theorem getD_packedBuffer {parts : List Point} {p : ℕ} {v : Option JLong}
    (h : (p, v) ∈ (packRun parts).stores) : (packedBuffer parts).getD p none = v := by
  have honce : StoreLog.WritesOnce
      (List.replicate (2 * parts.length) (none : Option JLong)).length (packRun parts).stores := by
    rw [List.length_replicate]
    exact writesOnce_packRun parts
  rw [packedBuffer, List.getD_eq_getElem?_getD, honce.getElem?_replay h, Option.getD_some]

theorem isSome_getD_packedBuffer {parts : List Point} {i : ℕ} (hi : i < 2 * parts.length) :
    ((packedBuffer parts).getD i none).isSome := by
  obtain ⟨m, rfl | rfl⟩ := Nat.even_or_odd' i
  · rw [getD_packedBuffer (x_mem_stores_packRun (by omega)), Option.isSome_some]
  · rw [getD_packedBuffer (y_mem_stores_packRun (by omega)), Option.isSome_some]

theorem packLandmarks_eq {parts : List Point} (h : parts.length < 2 ^ 30) :
    packLandmarks parts
      = Raster.tabulate? (fun i ↦ (packedBuffer parts).getD i none) (2 * parts.length) := by
  have hlen := bufferLength_eq h
  have htoNat : (bufferLength parts.length).toNat = 2 * parts.length := by omega
  have hbounds : StoreLog.InBounds (List.replicate (2 * parts.length) (none : Option JLong)).length
      (packRun parts).stores := by
    rw [List.length_replicate, inBounds_packRun_iff]
  rw [packLandmarks, if_neg (by omega), htoNat, StoreLog.replay?_of_inBounds hbounds]
  rfl

theorem exists_packLandmarks {parts : List Point} (h : parts.length < 2 ^ 30) :
    ∃ landmarks, packLandmarks parts = some landmarks ∧ landmarks.length = 2 * parts.length ∧
      ∀ m < parts.length, landmarks[2 * m]? = some (parts.getD m default).x ∧
        landmarks[2 * m + 1]? = some (parts.getD m default).y := by
  have htable : (Raster.tabulate? (fun i ↦ (packedBuffer parts).getD i none)
      (2 * parts.length)).isSome :=
    Raster.tabulate?_isSome_iff.mpr fun _ hi ↦ isSome_getD_packedBuffer hi
  obtain ⟨landmarks, hlandmarks⟩ := Option.isSome_iff_exists.mp htable
  refine ⟨landmarks, ?_, Raster.length_of_tabulate?_eq_some hlandmarks, fun m hm ↦ ⟨?_, ?_⟩⟩
  · rw [packLandmarks_eq h, hlandmarks]
  · rw [Raster.getElem?_of_tabulate?_eq_some hlandmarks (by omega),
      getD_packedBuffer (x_mem_stores_packRun hm)]
  · rw [Raster.getElem?_of_tabulate?_eq_some hlandmarks (by omega),
      getD_packedBuffer (y_mem_stores_packRun hm)]

theorem length_lt_of_packLandmarks {parts : List Point} {landmarks : List JLong}
    (h : packLandmarks parts = some landmarks) : parts.length < 2 ^ 30 := by
  by_contra hlong
  have hshort : ¬2 * (parts.length : ℤ) ≤ bufferLength parts.length :=
    fun hle ↦ hlong (lt_of_le_bufferLength hle)
  rw [packLandmarks] at h
  split at h
  · exact absurd h (by simp)
  · -- a buffer that is too short is stored past its end
    rw [StoreLog.replay?, if_neg] at h
    · exact absurd h (by simp)
    · rw [List.length_replicate, inBounds_packRun_iff]
      omega

theorem onDrawForeground_eq {parts : List Point} {landmarks : List JLong}
    (hlength : landmarks.length = 2 * parts.length)
    (hparts : ∀ m < parts.length, landmarks[2 * m]? = some (parts.getD m default).x ∧
      landmarks[2 * m + 1]? = some (parts.getD m default).y) :
    (ImageWithLandmark.setLendmarks landmarks).onDrawForeground
      = some (parts.map fun p ↦ { cx := p.x.toFloat, cy := p.y.toFloat, radius := 8 }) := by
  have hhalf : (landmarks.length + 1) / 2 = parts.length := by omega
  simp only [ImageWithLandmark.setLendmarks, ImageWithLandmark.onDrawForeground, hhalf]
  rw [Raster.tabulate?_eq_some_iff, List.length_map]
  refine ⟨rfl, fun m hm ↦ ?_⟩
  obtain ⟨hx, hy⟩ := hparts m hm
  rw [drawLandmark, hx, hy, List.getElem?_map, List.getElem?_eq_getElem hm,
    List.getD_eq_getElem _ _ hm]
  rfl

theorem handOff_nil : handOff [] = none := by decide

theorem handOff_eq {parts : List Point} (hpos : 0 < parts.length) (hlong : parts.length < 2 ^ 30) :
    handOff parts
      = some (parts.map fun p ↦ { cx := p.x.toFloat, cy := p.y.toFloat, radius := 8 }) := by
  obtain ⟨landmarks, hpack, hlength, hparts⟩ := exists_packLandmarks hlong
  have hview : onCreateLandmarks landmarks = some (.setLendmarks landmarks) := by
    rw [onCreateLandmarks, (hparts 0 hpos).1]
    rfl
  rw [handOff, hpack, Option.bind_eq_bind, Option.bind_some, hview]
  exact onDrawForeground_eq hlength hparts

theorem length_lt_of_handOff {parts : List Point} {circles : List Circle}
    (h : handOff parts = some circles) : parts.length < 2 ^ 30 := by
  cases hpack : packLandmarks parts with
  | none =>
    rw [handOff, hpack] at h
    exact absurd h (by simp)
  | some landmarks => exact length_lt_of_packLandmarks hpack

/-- **The hand-off** draws the parts of a detection exactly when there is at least one, the length of
the buffer does not wrap, and `float` has every coordinate. -/
theorem drawsParts_iff (parts : List Point) :
    DrawsParts parts ↔ 0 < parts.length ∧ parts.length < 2 ^ 30 ∧
      ∀ p ∈ parts, p.x.Exact ∧ p.y.Exact := by
  have hexact (hpos : 0 < parts.length) (hlong : parts.length < 2 ^ 30) :
      DrawsParts parts ↔ ∀ p ∈ parts, p.x.Exact ∧ p.y.Exact := by
    rw [DrawsParts, handOff_eq hpos hlong, Option.some_inj, List.map_inj_left]
    simp only [Circle.mk.injEq, and_true, JLong.toFloat_eq_iff]
  constructor
  · intro h
    have hpos : 0 < parts.length := by
      by_contra hzero
      rw [DrawsParts, List.length_eq_zero_iff.mp (Nat.eq_zero_of_not_pos hzero), handOff_nil] at h
      exact absurd h (by simp)
    have hlong : parts.length < 2 ^ 30 := length_lt_of_handOff h
    exact ⟨hpos, hlong, (hexact hpos hlong).mp h⟩
  · rintro ⟨hpos, hlong, h⟩
    exact (hexact hpos hlong).mpr h

/-- A predictor without a model returns no parts, and then `landmarks[0]` is out of bounds. -/
theorem not_forall_drawsParts : ¬∀ parts, DrawsParts parts := by
  intro hall
  exact absurd (hall []) (by decide)

end FacialLandmark
