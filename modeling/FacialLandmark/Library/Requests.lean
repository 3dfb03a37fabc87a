import FacialLandmark.Library.InPlace

/-!
# What a parse asks for on its way

A parse may depend on more than its input: it asks for something, memory say, in an amount it has just
read, and fails when that is refused. Which failures these are can be told from the requests alone.
`Requests` lists the requests a parse makes on an input, in the order in which it makes them, and
`FailsBy` says that the parse fails in the one way in question exactly when one of them is refused.

There is a rule for each way of putting loaders together, so the list of requests follows the format.
Behind a refused request the list may go on: what stands there does not matter any more.
-/

namespace InPlace

universe u

variable {β ε σ τ γ ρ α : Type*}

/-- The requests a parse makes while it reads an input. -/
abbrev Requests (β ρ : Type*) := List β → List ρ

namespace Requests

def nothing : Requests β ρ := fun _ ↦ []

/-- One request, and then those of `t`. -/
def ask (r : ρ) (t : Requests β ρ) : Requests β ρ := fun input ↦ r :: t input

/-- The requests of what comes behind a header, which makes none itself. -/
def after (header : List β → Except ε (γ × List β)) (t : γ → Requests β ρ) : Requests β ρ :=
  fun input ↦ match header input with
    | .error _ => []
    | .ok (c, rest) => t c rest

def andThen (parse : List β → Except ε (σ × List β)) (t t' : Requests β ρ) : Requests β ρ :=
  fun input ↦ t input ++ after parse (fun _ ↦ t') input

def all (parse : List β → Except ε (σ × List β)) (t : Requests β ρ) : ℕ → Requests β ρ
  | 0 => nothing
  | n + 1 => andThen parse t (all parse t n)

@[simp] theorem andThen_nothing (parse : List β → Except ε (σ × List β)) :
    andThen parse nothing (nothing : Requests β ρ) = nothing := by
  funext input
  simp only [andThen, nothing, after, List.nil_append]
  split <;> rfl

@[simp] theorem all_nothing (parse : List β → Except ε (σ × List β)) (n : ℕ) :
    all parse (nothing : Requests β ρ) n = nothing := by
  induction n with
  | zero => rfl
  | succ n ih => rw [all, ih, andThen_nothing]

end Requests

open Requests

/-- A result that is an error of the kind in question. -/
def EndsBadly (Bad : ε → Prop) : Except ε α → Prop
  | .error e => Bad e
  | .ok _ => False

section Rules

variable (Bad : ε → Prop) (Refused : ρ → Prop)

/-- The parse ends badly on exactly the inputs on which a request is refused. -/
def FailsBy (parse : List β → Except ε α) (t : Requests β ρ) : Prop :=
  ∀ input, EndsBadly Bad (parse input) ↔ ∃ r ∈ t input, Refused r

variable {Bad Refused}

@[simp] theorem endsBadly_error {e : ε} :
    EndsBadly Bad (.error e : Except ε α) ↔ Bad e := Iff.rfl

@[simp] theorem not_endsBadly_ok {v : α} : ¬EndsBadly Bad (.ok v : Except ε α) := id

theorem not_endsBadly_bind {ν ω : Type u} {x : Except ε ν} {f : ν → Except ε ω} (hx : ¬EndsBadly Bad x)
    (hf : ∀ v, ¬EndsBadly Bad (f v)) : ¬EndsBadly Bad (x >>= f) := by
  cases x with
  | error e => exact hx
  | ok v => exact hf v

/-! ## Single items and single requests -/

theorem not_endsBadly_leaf {read : List β → Read β ε σ}
    (h : ∀ input e left, read input = .failed e left → ¬Bad e) (input : List β) :
    ¬EndsBadly Bad ((Loader.leaf read).parse input) := by
  simp only [Loader.leaf]
  cases hread : read input with
  | done v rest => exact not_endsBadly_ok
  | failed e left => exact h input e left hread

theorem failsBy_nothing {parse : List β → Except ε α}
    (h : ∀ input, ¬EndsBadly Bad (parse input)) : FailsBy Bad Refused parse nothing := by
  intro input
  refine iff_of_false (h input) ?_
  rintro ⟨r, hr, -⟩
  exact List.not_mem_nil hr

theorem failsBy_ask_of_refused {r : ρ} {e : ε} (hr : Refused r) (he : Bad e) (t : Requests β ρ) :
    FailsBy Bad Refused (Loader.throwing e : Loader β ε σ).parse (ask r t) :=
  fun _ ↦ iff_of_true he ⟨r, List.mem_cons_self, hr⟩

theorem failsBy_ask_of_granted {r : ρ} {parse : List β → Except ε α} {t : Requests β ρ}
    (hr : ¬Refused r) (h : FailsBy Bad Refused parse t) :
    FailsBy Bad Refused parse (ask r t) := by
  intro input
  rw [h input, ask, List.exists_mem_cons_iff, or_iff_right hr]

/-! ## Loaders put together -/

theorem failsBy_after {header : List β → Except ε (γ × List β)} {body : γ → Loader β ε σ}
    {t : γ → Requests β ρ} (hheader : ∀ input, ¬EndsBadly Bad (header input))
    (hbody : ∀ c, FailsBy Bad Refused (body c).parse (t c)) :
    FailsBy Bad Refused (Loader.after header body).parse (after header t) := by
  intro input
  have hinput := hheader input
  simp only [Loader.after, after]
  cases hparse : header input with
  | error e =>
    rw [hparse] at hinput
    refine iff_of_false hinput ?_
    rintro ⟨r, hr, -⟩
    exact List.not_mem_nil hr
  | ok result => exact hbody result.1 result.2

theorem failsBy_rethrow {f : ε → ε} {L : Loader β ε σ} {t : Requests β ρ}
    (hf : ∀ e, Bad (f e) ↔ Bad e) (h : FailsBy Bad Refused L.parse t) :
    FailsBy Bad Refused (Loader.rethrow f L).parse t := by
  intro input
  rw [← h input]
  simp only [Loader.rethrow]
  cases L.parse input with
  | error e => exact hf e
  | ok result => rfl

theorem failsBy_resetOnError {reset : σ} {L : Loader β ε σ} {t : Requests β ρ}
    (h : FailsBy Bad Refused L.parse t) :
    FailsBy Bad Refused (Loader.resetOnError reset L).parse t := h

theorem failsBy_congr {f : σ ≃ τ} {L : Loader β ε σ} {t : Requests β ρ}
    (h : FailsBy Bad Refused L.parse t) : FailsBy Bad Refused (Loader.congr f L).parse t := by
  intro input
  rw [← h input]
  simp only [Loader.congr]
  cases L.parse input <;> rfl

/-- Two parses, the second on what the first has left. Whatever the whole makes of the two values, it
ends badly when one of the two does. -/
theorem failsBy_andThen {parse : List β → Except ε (σ × List β)} {parse' : List β → Except ε α}
    {whole : List β → Except ε τ} {t t' : Requests β ρ}
    (herror : ∀ {input e}, parse input = .error e → whole input = .error e)
    (hok : ∀ {input v rest}, parse input = .ok (v, rest) →
      (EndsBadly Bad (whole input) ↔ EndsBadly Bad (parse' rest)))
    (h : FailsBy Bad Refused parse t) (h' : FailsBy Bad Refused parse' t') :
    FailsBy Bad Refused whole (andThen parse t t') := by
  intro input
  have hfirst := h input
  simp only [andThen, after, List.mem_append, or_and_right, exists_or, ← hfirst]
  cases hparse : parse input with
  | error e =>
    rw [herror hparse, endsBadly_error, endsBadly_error]
    simp
  | ok result =>
    rw [hok hparse, h' result.2]
    simp

theorem failsBy_pair {L : Loader β ε σ} {L' : Loader β ε τ} {t t' : Requests β ρ}
    (h : FailsBy Bad Refused L.parse t) (h' : FailsBy Bad Refused L'.parse t') :
    FailsBy Bad Refused (L.pair L').parse (andThen L.parse t t') := by
  refine failsBy_andThen (fun hparse ↦ ?_) (fun {input v rest} hparse ↦ ?_) h h'
  · simp only [Loader.pair, hparse]
  · simp only [Loader.pair, hparse]
    cases L'.parse rest <;> rfl

theorem failsBy_parseAll {L : Loader β ε σ} {t : Requests β ρ} (h : FailsBy Bad Refused L.parse t)
    (n : ℕ) : FailsBy Bad Refused (L.parseAll n) (all L.parse t n) := by
  induction n with
  | zero => exact failsBy_nothing fun _ ↦ not_endsBadly_ok
  | succ n ih =>
    refine failsBy_andThen (fun hparse ↦ ?_) (fun {input v rest} hparse ↦ ?_) h ih
    · rw [Loader.parseAll, hparse]
    · rw [Loader.parseAll, hparse]
      simp only
      cases L.parseAll n rest <;> rfl

end Rules

end InPlace
