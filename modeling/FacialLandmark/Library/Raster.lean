import Mathlib.Data.List.Basic
import Mathlib.Data.List.FinRange
import Mathlib.Data.List.Range
import Mathlib.Tactic.Ring
import Mathlib.Tactic.Linarith

/-!
# Row-major double loops

A scan `for (row) for (column) body` over a `height × width` grid is a left fold inside a left fold.
An invariant of such a scan speaks about the cell that comes next, so it has two ways to move: to
the next column, and from the end of one row to the start of the following one.
`forRaster_induction` is the one induction everything else is read off from.

The cells a scan has already passed form the list `before width row column`, in the order in which
the scan met them. A loop body that only appends to a log is therefore described by mapping over
that list, and the address arithmetic `row * width + column` is needed in one place only.
-/

namespace Raster

variable {σ : Type*}

/-- The counted loop `for (i = 0; i < n; i++) s = body(s, i)`. -/
def forRange (n : ℕ) (body : σ → ℕ → σ) (s : σ) : σ :=
  (List.range n).foldl body s

/-- The double loop `for (row = 0; row < height; row++) for (column = 0; column < width; column++)`. -/
def forRaster (height width : ℕ) (body : σ → ℕ → ℕ → σ) (s : σ) : σ :=
  forRange height (fun s row ↦ forRange width (fun s column ↦ body s row column) s) s

theorem forRange_succ (n : ℕ) (body : σ → ℕ → σ) (s : σ) :
    forRange (n + 1) body s = body (forRange n body s) n := by
  rw [forRange, forRange, List.range_succ, List.foldl_append, List.foldl_cons, List.foldl_nil]

/-- The loop rule: what holds at the first loop head and is carried by the body from each loop head
to the next holds when the counter has run out. -/
theorem forRange_induction (Inv : ℕ → σ → Prop) {n : ℕ} {body : σ → ℕ → σ} {s : σ}
    (hinit : Inv 0 s) (hstep : ∀ i t, i < n → Inv i t → Inv (i + 1) (body t i)) :
    Inv n (forRange n body s) := by
  have hloop : ∀ k ≤ n, Inv k (forRange k body s) := by
    intro k
    induction k with
    | zero => intro _; exact hinit
    | succ k ih =>
      intro hk
      rw [forRange_succ]
      exact hstep k _ (by omega) (ih (by omega))
  exact hloop n le_rfl

/-- The rule for the double loop. The invariant at `(row, column)` speaks about the loop head that is
about to handle that cell; `hcarry` is the step from the end of a row to the start of the next. -/
theorem forRaster_induction (Inv : ℕ → ℕ → σ → Prop) {height width : ℕ}
    {body : σ → ℕ → ℕ → σ} {s : σ} (hinit : Inv 0 0 s)
    (hstep : ∀ row column t, row < height → column < width → Inv row column t →
      Inv row (column + 1) (body t row column))
    (hcarry : ∀ row t, row < height → Inv row width t → Inv (row + 1) 0 t) :
    Inv height 0 (forRaster height width body s) := by
  -- the outer loop sees the invariant at the first column only, the inner one at every column
  refine forRange_induction (fun row t ↦ Inv row 0 t) hinit fun row t hrow ht ↦ ?_
  refine hcarry row _ hrow ?_
  exact forRange_induction (fun column t ↦ Inv row column t) ht
    fun column t hcolumn ht ↦ hstep row column t hrow hcolumn ht

/-- The same walk over the loop heads of a scan without a state: what holds at the first head, and
moves to the next column and from the end of a row to the start of the next, holds at every head. -/
theorem head_induction (Holds : ℕ → ℕ → Prop) (width : ℕ) (hinit : Holds 0 0)
    (hstep : ∀ row column, Holds row column → Holds row (column + 1))
    (hcarry : ∀ row, Holds row width → Holds (row + 1) 0) (row column : ℕ) : Holds row column := by
  have hrow : ∀ r, Holds r 0 → ∀ c, Holds r c := by
    intro r hstart c
    induction c with
    | zero => exact hstart
    | succ c ih => exact hstep r c ih
  have hstart : ∀ r, Holds r 0 := by
    intro r
    induction r with
    | zero => exact hinit
    | succ r ih => exact hcarry r (hrow r ih width)
  exact hrow row (hstart row) column

/-! ## The cells already passed -/

/-- The cells a scan has passed when it is about to handle `(row, column)`, in scan order. -/
def before (width row column : ℕ) : List (ℕ × ℕ) :=
  ((List.range row).flatMap fun r ↦ (List.range width).map fun c ↦ (r, c))
    ++ (List.range column).map fun c ↦ (row, c)

@[simp] theorem before_zero (width : ℕ) : before width 0 0 = [] := rfl

theorem before_succ (width row column : ℕ) :
    before width row (column + 1) = before width row column ++ [(row, column)] := by
  rw [before, before, List.range_succ, List.map_append, List.map_singleton, List.append_assoc]

theorem before_width (width row : ℕ) : before width row width = before width (row + 1) 0 := by
  rw [before, before, List.range_succ, List.flatMap_append, List.flatMap_singleton,
    List.range_zero, List.map_nil, List.append_nil]

theorem mem_before {width row column r c : ℕ} :
    (r, c) ∈ before width row column ↔ (r < row ∧ c < width) ∨ (r = row ∧ c < column) := by
  simp only [before, List.mem_append, List.mem_flatMap, List.mem_map, List.mem_range,
    Prod.mk.injEq]
  constructor
  · rintro (⟨r', hr', c', hc', rfl, rfl⟩ | ⟨c', hc', rfl, rfl⟩)
    · exact Or.inl ⟨hr', hc'⟩
    · exact Or.inr ⟨rfl, hc'⟩
  · rintro (⟨hr, hc⟩ | ⟨rfl, hc⟩)
    · exact Or.inl ⟨r, hr, c, hc, rfl, rfl⟩
    · exact Or.inr ⟨c, hc, rfl, rfl⟩

theorem mem_before_height {height width r c : ℕ} :
    (r, c) ∈ before width height 0 ↔ r < height ∧ c < width := by
  rw [mem_before]
  omega

/-- Appending bodies: a loop whose body appends `emit row column` to a log has, at each loop head,
logged what the cells before it emit. -/
theorem flatMap_before_succ {α : Type*} (emit : ℕ × ℕ → List α) (width row column : ℕ) :
    (before width row (column + 1)).flatMap emit
      = (before width row column).flatMap emit ++ emit (row, column) := by
  rw [before_succ, List.flatMap_append, List.flatMap_singleton]

/-! ## Row-major addresses -/

theorem address_lt {height width row column : ℕ} (hrow : row < height) (hcolumn : column < width) :
    row * width + column < height * width := by
  calc row * width + column < row * width + width := by omega
    _ = (row + 1) * width := by ring
    _ ≤ height * width := Nat.mul_le_mul_right width hrow

theorem address_lt_area {height width row column : ℕ} (hrow : row < height)
    (hcolumn : column < width) : row * width + column < width * height := by
  rw [Nat.mul_comm width]
  exact address_lt hrow hcolumn

theorem address_div {width column : ℕ} (row : ℕ) (hcolumn : column < width) :
    (row * width + column) / width = row := by
  rw [Nat.add_comm, Nat.add_mul_div_right _ _ (by omega), Nat.div_eq_of_lt hcolumn, Nat.zero_add]

theorem address_mod {width column : ℕ} (row : ℕ) (hcolumn : column < width) :
    (row * width + column) % width = column := by
  rw [Nat.add_comm, Nat.add_mul_mod_self_right, Nat.mod_eq_of_lt hcolumn]

theorem exists_address_eq {height width p : ℕ} (hp : p < height * width) :
    ∃ row < height, ∃ column < width, row * width + column = p := by
  have hwidth : 0 < width := Nat.pos_of_mul_pos_left (Nat.zero_lt_of_lt hp)
  refine ⟨p / width, (Nat.div_lt_iff_lt_mul hwidth).mpr hp, p % width, Nat.mod_lt p hwidth, ?_⟩
  rw [Nat.mul_comm]
  exact Nat.div_add_mod p width

/-! ## Tables of partial values

A loop that fills cell `i` of a table with `f i`, where computing `f i` may leave the domain of the
program. The table exists exactly when no entry fails. -/

variable {α : Type*}

/-- The table `f 0, …, f (n - 1)`, or nothing when some entry has no value. -/
def tabulate? (f : ℕ → Option α) : ℕ → Option (List α)
  | 0 => some []
  | n + 1 => do
    let table ← tabulate? f n
    let entry ← f n
    some (table ++ [entry])

theorem tabulate?_isSome_iff {f : ℕ → Option α} {n : ℕ} :
    (tabulate? f n).isSome ↔ ∀ i < n, (f i).isSome := by
  induction n with
  | zero => simp [tabulate?]
  | succ n ih =>
    rw [Nat.forall_lt_succ_right, ← ih, tabulate?]
    cases tabulate? f n <;> cases f n <;> simp

theorem length_of_tabulate?_eq_some {f : ℕ → Option α} {n : ℕ} {table : List α}
    (h : tabulate? f n = some table) : table.length = n := by
  induction n generalizing table with
  | zero =>
    rw [tabulate?, Option.some_inj] at h
    rw [← h, List.length_nil]
  | succ n ih =>
    simp only [tabulate?, Option.bind_eq_bind, Option.bind_eq_some_iff, Option.some_inj] at h
    obtain ⟨table', htable', entry, -, rfl⟩ := h
    rw [List.length_append, ih htable', List.length_singleton]

theorem getElem?_of_tabulate?_eq_some {f : ℕ → Option α} {n i : ℕ} {table : List α}
    (h : tabulate? f n = some table) (hi : i < n) : table[i]? = f i := by
  induction n generalizing table with
  | zero => exact absurd hi (Nat.not_lt_zero i)
  | succ n ih =>
    simp only [tabulate?, Option.bind_eq_bind, Option.bind_eq_some_iff, Option.some_inj] at h
    obtain ⟨table', htable', entry, hentry, rfl⟩ := h
    have hlength := length_of_tabulate?_eq_some htable'
    rcases Nat.lt_succ_iff_lt_or_eq.mp hi with hlt | rfl
    · rw [List.getElem?_append_left (by omega), ih htable' hlt]
    · rw [hentry, ← hlength, List.getElem?_concat_length]

theorem tabulate?_eq_some_iff {f : ℕ → Option α} {n : ℕ} {table : List α} :
    tabulate? f n = some table ↔ table.length = n ∧ ∀ i < n, f i = table[i]? := by
  constructor
  · intro h
    exact ⟨length_of_tabulate?_eq_some h, fun i hi ↦ (getElem?_of_tabulate?_eq_some h hi).symm⟩
  · rintro ⟨hlength, hentries⟩
    have hsome : (tabulate? f n).isSome := by
      rw [tabulate?_isSome_iff]
      intro i hi
      rw [hentries i hi, List.getElem?_eq_getElem (by omega), Option.isSome_some]
    obtain ⟨table', htable'⟩ := Option.isSome_iff_exists.mp hsome
    rw [htable', Option.some_inj]
    refine List.ext_getElem? fun i ↦ ?_
    rcases lt_or_ge i n with hi | hi
    · rw [getElem?_of_tabulate?_eq_some htable' hi, hentries i hi]
    · rw [List.getElem?_eq_none (by rw [length_of_tabulate?_eq_some htable']; exact hi),
        List.getElem?_eq_none (by omega)]

theorem tabulate?_congr {f g : ℕ → Option α} {n : ℕ} (h : ∀ i < n, f i = g i) :
    tabulate? f n = tabulate? g n := by
  induction n with
  | zero => rfl
  | succ n ih => rw [tabulate?, tabulate?, ih fun i hi ↦ h i (by omega), h n (by omega)]

theorem tabulate?_map {β : Type*} (g : α → β) (f : ℕ → Option α) (n : ℕ) :
    (tabulate? f n).map (List.map g) = tabulate? (fun i ↦ (f i).map g) n := by
  induction n with
  | zero => rfl
  | succ n ih =>
    rw [tabulate?, tabulate?, ← ih]
    cases tabulate? f n with
    | none => rfl
    | some table =>
      cases f n with
      | none => rfl
      | some entry => exact congrArg some List.map_append

theorem exists_tabulate? {f : ℕ → Option α} {n : ℕ} (h : ∀ i < n, ∃ a, f i = some a) :
    ∃ table, tabulate? f n = some table ∧ table.length = n := by
  obtain ⟨table, htable⟩ := Option.isSome_iff_exists.mp
    (tabulate?_isSome_iff.mpr fun i hi ↦ Option.isSome_iff_exists.mpr (h i hi))
  exact ⟨table, htable, length_of_tabulate?_eq_some htable⟩

/-! ## Loops that may leave the domain

The counted loop with a body that may have no value. -/

def forRange? (n : ℕ) (body : σ → ℕ → Option σ) (s : σ) : Option σ :=
  (List.range n).foldlM body s

theorem forRange?_succ (n : ℕ) (body : σ → ℕ → Option σ) (s : σ) :
    forRange? (n + 1) body s = (forRange? n body s).bind fun t ↦ body t n := by
  rw [forRange?, forRange?, List.range_succ, List.foldlM_append]
  simp only [List.foldlM_cons, List.foldlM_nil, Option.bind_eq_bind, Option.pure_def,
    Option.bind_fun_some]

/-- The loop rule for total correctness: a body that has a value wherever the invariant holds, and
keeps it, takes the loop to its end. -/
theorem forRange?_total (Inv : ℕ → σ → Prop) {n : ℕ} {body : σ → ℕ → Option σ} {s : σ}
    (hinit : Inv 0 s)
    (hstep : ∀ i t, i < n → Inv i t → ∃ t', body t i = some t' ∧ Inv (i + 1) t') :
    ∃ t, forRange? n body s = some t ∧ Inv n t := by
  induction n with
  | zero => exact ⟨s, rfl, hinit⟩
  | succ n ih =>
    obtain ⟨t, hloop, ht⟩ := ih fun i t hi ↦ hstep i t (by omega)
    obtain ⟨t', hbody, ht'⟩ := hstep n t (by omega) ht
    refine ⟨t', ?_, ht'⟩
    rw [forRange?_succ, hloop, Option.bind_some, hbody]

/-- The same rule for a body that is unrolled over `n` places. -/
theorem foldlM_finRange_total {n : ℕ} (Inv : ℕ → σ → Prop) {body : σ → Fin n → Option σ} {s : σ}
    (hinit : Inv 0 s)
    (hstep : ∀ (k : Fin n) (t : σ), Inv k t → ∃ t', body t k = some t' ∧ Inv (k + 1) t') :
    ∃ t, (List.finRange n).foldlM body s = some t ∧ Inv n t := by
  induction n generalizing Inv s with
  | zero => exact ⟨s, rfl, hinit⟩
  | succ n ih =>
    obtain ⟨t, hfirst, ht⟩ := hstep 0 s hinit
    obtain ⟨t', hrest, ht'⟩ := @ih (fun k ↦ Inv (k + 1)) (fun t k ↦ body t k.succ) t ht
      fun k t ↦ hstep k.succ t
    refine ⟨t', ?_, ht'⟩
    rw [List.finRange_succ, List.foldlM_cons, hfirst, Option.bind_eq_bind, Option.bind_some,
      List.foldlM_map]
    exact hrest

theorem forRange?_induction (Inv : ℕ → σ → Prop) {n : ℕ} {body : σ → ℕ → Option σ} {s t : σ}
    (hinit : Inv 0 s) (hstep : ∀ i t t', i < n → Inv i t → body t i = some t' → Inv (i + 1) t')
    (h : forRange? n body s = some t) : Inv n t := by
  induction n generalizing t with
  | zero =>
    rw [← Option.some_inj.mp h]
    exact hinit
  | succ n ih =>
    rw [forRange?_succ, Option.bind_eq_some_iff] at h
    obtain ⟨t', hloop, hbody⟩ := h
    exact hstep n t' t (by omega) (ih (fun i t t' hi ↦ hstep i t t' (by omega)) hloop) hbody

/-- A loop that computes more than another one, and the same as it on what they share. -/
theorem forRange?_map {τ : Type*} (f : σ → τ) {n : ℕ} {body : σ → ℕ → Option σ}
    {body' : τ → ℕ → Option τ} (h : ∀ i t, i < n → (body t i).map f = body' (f t) i) (s : σ) :
    (forRange? n body s).map f = forRange? n body' (f s) := by
  induction n with
  | zero => rfl
  | succ n ih =>
    rw [forRange?_succ, forRange?_succ, ← ih fun i t hi ↦ h i t (by omega)]
    cases forRange? n body s with
    | none => rfl
    | some t => exact h n t (by omega)

theorem forRange?_eq_none {n i : ℕ} {body : σ → ℕ → Option σ} (hi : i < n)
    (h : ∀ t, body t i = none) (s : σ) : forRange? n body s = none := by
  induction n with
  | zero => omega
  | succ n ih =>
    rw [forRange?_succ, Option.bind_eq_none_iff]
    intro t hloop
    rcases Nat.lt_succ_iff_lt_or_eq.mp hi with hi | rfl
    · rw [ih hi] at hloop
      exact absurd hloop (by simp)
    · exact h t

end Raster
