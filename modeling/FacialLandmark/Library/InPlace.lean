import Mathlib.Data.List.Basic
import Mathlib.Logic.Equiv.Defs

/-!
# Loading a value over an old one

A loader reads a value from an input and stores it, piece by piece, over the value that was there. If
the input gives out half way, the pieces stored so far stay stored. `Loader` couples the three things
one wants to say about that:

* `run`, the loading itself, which takes the old value and also says what is left of it on failure;
* `parse`, the reading alone, which knows no old value: whether a load succeeds, and with which
  value, is a matter of the input;
* `Keeps`, a condition on the old value and the input that holds exactly when the load leaves the old
  value as it was.

Loaders of single items are put together to loaders of pairs, of lists and of whatever is
equivalent to these, and the laws come along.
-/

namespace InPlace

variable {β ε σ τ γ : Type*}

structure Loader (β ε σ : Type*) where
  run : σ → List β → σ × Except ε (List β)
  parse : List β → Except ε (σ × List β)
  Keeps : σ → List β → Prop
  snd_run : ∀ x input, (run x input).2 = (parse input).map Prod.snd
  fst_run : ∀ {input v rest}, parse input = .ok (v, rest) → ∀ x, (run x input).1 = v
  fst_run_eq_iff : ∀ x input, (run x input).1 = x ↔ Keeps x input

/-- The reading of one item: a value, or an error together with what the failed attempt has put in
the place of the item, if it has touched it. -/
inductive Read (β ε σ : Type*) where
  | done (v : σ) (rest : List β)
  | failed (e : ε) (left : Option σ)

namespace Loader

theorem run_snd_eq_error_iff (L : Loader β ε σ) {x : σ} {input : List β} {e : ε} :
    (L.run x input).2 = .error e ↔ L.parse input = .error e := by
  rw [L.snd_run]
  cases L.parse input <;> simp [Except.map]

theorem run_snd_eq_ok_iff (L : Loader β ε σ) {x : σ} {input rest : List β} :
    (L.run x input).2 = .ok rest ↔ ∃ v, L.parse input = .ok (v, rest) := by
  rw [L.snd_run]
  cases hparse : L.parse input with
  | error e => simp [Except.map]
  | ok result =>
    obtain ⟨v, rest'⟩ := result
    simp [Except.map]

theorem run_of_parse (L : Loader β ε σ) {input rest : List β} {v : σ}
    (h : L.parse input = .ok (v, rest)) (x : σ) : L.run x input = (v, .ok rest) :=
  Prod.ext (L.fst_run h x) (L.run_snd_eq_ok_iff.mpr ⟨v, h⟩)

/-- A failed run: the outcome is that of the parse, what is left is up to the loader. -/
theorem run_of_parse_eq_error (L : Loader β ε σ) {input : List β} {e : ε}
    (h : L.parse input = .error e) (x : σ) : L.run x input = ((L.run x input).1, .error e) :=
  Prod.ext rfl (L.run_snd_eq_error_iff.mpr h)

theorem keeps_of_parse (L : Loader β ε σ) {input rest : List β} {v x : σ}
    (h : L.parse input = .ok (v, rest)) : L.Keeps x input ↔ v = x := by
  rw [← L.fst_run_eq_iff, L.fst_run h]

/-! ## Single items -/

def leaf (read : List β → Read β ε σ) : Loader β ε σ where
  run x input := match read input with
    | .done v rest => (v, .ok rest)
    | .failed e left => (left.getD x, .error e)
  parse input := match read input with
    | .done v rest => .ok (v, rest)
    | .failed e _ => .error e
  Keeps x input := match read input with
    | .done v _ => v = x
    | .failed _ left => ∀ v ∈ left, v = x
  snd_run x input := by cases read input <;> rfl
  fst_run {input v rest} h x := by
    cases hread : read input with
    | done v' rest' =>
      rw [hread] at h
      simp only [Except.ok.injEq, Prod.mk.injEq] at h ⊢
      exact h.1
    | failed e left =>
      rw [hread] at h
      exact absurd h (by simp)
  fst_run_eq_iff x input := by
    cases read input with
    | done v rest => rfl
    | failed e left => cases left <;> simp

/-- Nothing is read and nothing is stored. -/
def throwing (e : ε) : Loader β ε σ where
  run x _ := (x, .error e)
  parse _ := .error e
  Keeps _ _ := True
  snd_run _ _ := rfl
  fst_run h _ := absurd h (by simp)
  fst_run_eq_iff _ _ := by simp

/-! ## Locals, contexts and resets -/

/-- A local variable is read first, and what is loaded depends on it. -/
def after (header : List β → Except ε (γ × List β)) (body : γ → Loader β ε σ) :
    Loader β ε σ where
  run x input := match header input with
    | .error e => (x, .error e)
    | .ok (c, rest) => (body c).run x rest
  parse input := match header input with
    | .error e => .error e
    | .ok (c, rest) => (body c).parse rest
  Keeps x input := match header input with
    | .error _ => True
    | .ok (c, rest) => (body c).Keeps x rest
  snd_run x input := by
    cases header input with
    | error e => rfl
    | ok result => exact (body result.1).snd_run x result.2
  fst_run {input v rest} h x := by
    cases hheader : header input with
    | error e =>
      rw [hheader] at h
      exact absurd h (by simp)
    | ok result =>
      rw [hheader] at h
      exact (body result.1).fst_run h x
  fst_run_eq_iff x input := by
    cases header input with
    | error e => simp
    | ok result => exact (body result.1).fst_run_eq_iff x result.2

/-- Errors are caught and thrown again, changed. -/
def rethrow (f : ε → ε) (L : Loader β ε σ) : Loader β ε σ where
  run x input := ((L.run x input).1, (L.run x input).2.mapError f)
  parse input := (L.parse input).mapError f
  Keeps := L.Keeps
  snd_run x input := by
    simp only [L.snd_run]
    cases L.parse input <;> rfl
  fst_run {input v rest} h x := by
    cases hparse : L.parse input with
    | error e =>
      rw [hparse] at h
      exact absurd h (by simp [Except.mapError])
    | ok result =>
      rw [hparse] at h
      simp only [Except.mapError, Except.ok.injEq] at h
      exact L.fst_run (hparse.trans (congrArg Except.ok h)) x
  fst_run_eq_iff := L.fst_run_eq_iff

/-- On an error the item is set to a fixed value. -/
def resetOnError (reset : σ) (L : Loader β ε σ) : Loader β ε σ where
  run x input := match L.run x input with
    | (v, .ok rest) => (v, .ok rest)
    | (_, .error e) => (reset, .error e)
  parse := L.parse
  Keeps x input := match L.parse input with
    | .ok (v, _) => v = x
    | .error _ => reset = x
  snd_run x input := by
    rw [← L.snd_run x]
    cases L.run x input with
    | mk v outcome => cases outcome <;> rfl
  fst_run {input v rest} h x := by rw [L.run_of_parse h]
  fst_run_eq_iff x input := by
    cases hparse : L.parse input with
    | error e => rw [L.run_of_parse_eq_error hparse]
    | ok result =>
      rw [L.run_of_parse hparse]

/-! ## Pairs and lists -/

def pair (L : Loader β ε σ) (L' : Loader β ε τ) : Loader β ε (σ × τ) where
  run x input := match L.run x.1 input with
    | (v, .error e) => ((v, x.2), .error e)
    | (v, .ok rest) => ((v, (L'.run x.2 rest).1), (L'.run x.2 rest).2)
  parse input := match L.parse input with
    | .error e => .error e
    | .ok (v, rest) => match L'.parse rest with
      | .error e => .error e
      | .ok (v', rest') => .ok ((v, v'), rest')
  Keeps x input := L.Keeps x.1 input ∧ match L.parse input with
    | .error _ => True
    | .ok (_, rest) => L'.Keeps x.2 rest
  snd_run x input := by
    cases hparse : L.parse input with
    | error e =>
      rw [L.run_of_parse_eq_error hparse]
      rfl
    | ok result =>
      rw [L.run_of_parse hparse]
      simp only [L'.snd_run]
      cases L'.parse result.2 <;> rfl
  fst_run {input v rest} h x := by
    cases hparse : L.parse input with
    | error e =>
      rw [hparse] at h
      exact absurd h (by simp)
    | ok result =>
      rw [hparse] at h
      rw [L.run_of_parse hparse]
      cases hparse' : L'.parse result.2 with
      | error e =>
        simp only [hparse'] at h
        exact absurd h (by simp)
      | ok result' =>
        simp only [hparse', Except.ok.injEq, Prod.mk.injEq] at h
        simp only [L'.fst_run hparse', h.1]
  fst_run_eq_iff x input := by
    cases hparse : L.parse input with
    | error e =>
      -- the second item is not reached, and stays what it was
      rw [L.run_of_parse_eq_error hparse, and_true, ← L.fst_run_eq_iff]
      exact ⟨fun h ↦ congrArg Prod.fst h, fun h ↦ Prod.ext h rfl⟩
    | ok result =>
      rw [L.run_of_parse hparse, L.keeps_of_parse hparse]
      exact Prod.ext_iff.trans (and_congr_right' (L'.fst_run_eq_iff x.2 result.2))

def runAll (L : Loader β ε σ) : List σ → List β → List σ × Except ε (List β)
  | [], input => ([], .ok input)
  | x :: xs, input => match L.run x input with
    | (v, .error e) => (v :: xs, .error e)
    | (v, .ok rest) => (v :: (L.runAll xs rest).1, (L.runAll xs rest).2)

def parseAll (L : Loader β ε σ) : ℕ → List β → Except ε (List σ × List β)
  | 0, input => .ok ([], input)
  | n + 1, input => match L.parse input with
    | .error e => .error e
    | .ok (v, rest) => match L.parseAll n rest with
      | .error e => .error e
      | .ok (vs, rest') => .ok (v :: vs, rest')

def KeepsAll (L : Loader β ε σ) : List σ → List β → Prop
  | [], _ => True
  | x :: xs, input => L.Keeps x input ∧ match L.parse input with
    | .error _ => True
    | .ok (_, rest) => L.KeepsAll xs rest

theorem snd_runAll (L : Loader β ε σ) (xs : List σ) (input : List β) :
    (L.runAll xs input).2 = (L.parseAll xs.length input).map Prod.snd := by
  induction xs generalizing input with
  | nil => rfl
  | cons x xs ih =>
    rw [runAll, List.length_cons, parseAll]
    cases hparse : L.parse input with
    | error e =>
      rw [L.run_of_parse_eq_error hparse]
      rfl
    | ok result =>
      rw [L.run_of_parse hparse]
      simp only [ih]
      cases L.parseAll xs.length result.2 <;> rfl

theorem fst_runAll (L : Loader β ε σ) {xs vs : List σ} {input rest : List β}
    (h : L.parseAll xs.length input = .ok (vs, rest)) : (L.runAll xs input).1 = vs := by
  induction xs generalizing input vs rest with
  | nil =>
    rw [List.length_nil, parseAll, Except.ok.injEq, Prod.mk.injEq] at h
    exact h.1
  | cons x xs ih =>
    rw [List.length_cons, parseAll] at h
    rw [runAll]
    cases hparse : L.parse input with
    | error e =>
      rw [hparse] at h
      exact absurd h (by simp)
    | ok result =>
      simp only [hparse] at h
      rw [L.run_of_parse hparse]
      cases hparse' : L.parseAll xs.length result.2 with
      | error e =>
        rw [hparse'] at h
        exact absurd h (by simp)
      | ok result' =>
        simp only [hparse', Except.ok.injEq, Prod.mk.injEq] at h
        simp only [ih hparse', h.1]

theorem length_fst_runAll (L : Loader β ε σ) (xs : List σ) (input : List β) :
    (L.runAll xs input).1.length = xs.length := by
  induction xs generalizing input with
  | nil => rfl
  | cons x xs ih =>
    rw [runAll]
    cases hparse : L.parse input with
    | error e =>
      rw [L.run_of_parse_eq_error hparse]
      rfl
    | ok result =>
      rw [L.run_of_parse hparse]
      simp only [List.length_cons, ih]

theorem fst_runAll_eq_iff (L : Loader β ε σ) (xs : List σ) (input : List β) :
    (L.runAll xs input).1 = xs ↔ L.KeepsAll xs input := by
  induction xs generalizing input with
  | nil => simp [runAll, KeepsAll]
  | cons x xs ih =>
    rw [runAll, KeepsAll]
    cases hparse : L.parse input with
    | error e =>
      -- the items behind the one that fails are not reached
      rw [L.run_of_parse_eq_error hparse, and_true, ← L.fst_run_eq_iff, List.cons_eq_cons]
      exact and_iff_left rfl
    | ok result =>
      rw [L.run_of_parse hparse, L.keeps_of_parse hparse, List.cons_eq_cons]
      simp only [ih]

/-- A list that is brought to the length `n` first, whatever it takes, and then loaded item by item.
A list that has this length already is not touched by that. -/
def list (n : ℕ) (fit : List σ → List σ) (hlength : ∀ xs, (fit xs).length = n)
    (hfit : ∀ xs, xs.length = n → fit xs = xs) (L : Loader β ε σ) : Loader β ε (List σ) where
  run xs input := L.runAll (fit xs) input
  parse input := L.parseAll n input
  Keeps xs input := xs.length = n ∧ L.KeepsAll xs input
  snd_run xs input := by rw [snd_runAll, hlength]
  fst_run {input v rest} h xs := L.fst_runAll ((hlength xs).symm ▸ h)
  fst_run_eq_iff xs input := by
    rw [← fst_runAll_eq_iff]
    constructor
    · intro h
      -- a list of another length cannot come out as it was, whatever is loaded into it
      have hn : xs.length = n := by rw [← hlength xs, ← length_fst_runAll L (fit xs) input, h]
      rw [hfit xs hn] at h
      exact ⟨hn, h⟩
    · rintro ⟨hn, h⟩
      rw [hfit xs hn, h]

def congr (f : σ ≃ τ) (L : Loader β ε σ) : Loader β ε τ where
  run x input := (f (L.run (f.symm x) input).1, (L.run (f.symm x) input).2)
  parse input := (L.parse input).map fun result ↦ (f result.1, result.2)
  Keeps x input := L.Keeps (f.symm x) input
  snd_run x input := by
    simp only [L.snd_run]
    cases L.parse input <;> rfl
  fst_run {input v rest} h x := by
    cases hparse : L.parse input with
    | error e =>
      rw [hparse] at h
      exact absurd h (by simp [Except.map])
    | ok result =>
      rw [hparse] at h
      simp only [Except.map, Except.ok.injEq, Prod.mk.injEq] at h
      simp only [L.fst_run hparse, h.1]
  fst_run_eq_iff x input := by
    rw [← L.fst_run_eq_iff]
    exact f.eq_symm_apply.symm

end Loader

end InPlace
