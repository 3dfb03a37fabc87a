import FacialLandmark.Library.InPlace

/-!
# What a parse yields

A condition that holds of every value a parse comes up with, from whatever input. As with codes and
with requests there is a rule for each way of putting loaders together.
-/

namespace InPlace

variable {β ε σ τ γ α : Type*}

def Yields (P : α → Prop) (parse : List β → Except ε (α × List β)) : Prop :=
  ∀ input v rest, parse input = .ok (v, rest) → P v

theorem Yields.mono {P Q : α → Prop} {parse : List β → Except ε (α × List β)} (h : Yields P parse)
    (himp : ∀ v, P v → Q v) : Yields Q parse :=
  fun input v rest hparse ↦ himp v (h input v rest hparse)

theorem yields_throwing {P : σ → Prop} (e : ε) :
    Yields P (Loader.throwing e : Loader β ε σ).parse :=
  fun _ _ _ hparse ↦ absurd hparse (by simp [Loader.throwing])

theorem yields_rethrow {P : σ → Prop} {f : ε → ε} {L : Loader β ε σ} (h : Yields P L.parse) :
    Yields P (L.rethrow f).parse := by
  intro input v rest hparse
  simp only [Loader.rethrow] at hparse
  cases hread : L.parse input with
  | error e =>
    rw [hread] at hparse
    exact absurd hparse (by simp [Except.mapError])
  | ok result =>
    rw [hread, Except.mapError, Except.ok.injEq] at hparse
    exact h _ _ _ (hread.trans (congrArg Except.ok hparse))

theorem yields_after {P : σ → Prop} {header : List β → Except ε (γ × List β)} {body : γ → Loader β ε σ}
    {Q : γ → Prop} (hheader : Yields Q header) (h : ∀ c, Q c → Yields P (body c).parse) :
    Yields P (Loader.after header body).parse := by
  intro input v rest hparse
  simp only [Loader.after] at hparse
  cases hread : header input with
  | error e =>
    rw [hread] at hparse
    exact absurd hparse (by simp)
  | ok result =>
    rw [hread] at hparse
    exact h result.1 (hheader _ _ _ hread) _ _ _ hparse

theorem yields_pair {P : σ → Prop} {Q : τ → Prop} {L : Loader β ε σ} {L' : Loader β ε τ}
    (h : Yields P L.parse) (h' : Yields Q L'.parse) :
    Yields (fun v : σ × τ ↦ P v.1 ∧ Q v.2) (L.pair L').parse := by
  intro input v rest hparse
  simp only [Loader.pair] at hparse
  cases hread : L.parse input with
  | error e =>
    rw [hread] at hparse
    exact absurd hparse (by simp)
  | ok result =>
    simp only [hread] at hparse
    cases hread' : L'.parse result.2 with
    | error e =>
      rw [hread'] at hparse
      exact absurd hparse (by simp)
    | ok result' =>
      simp only [hread', Except.ok.injEq, Prod.mk.injEq] at hparse
      rw [← hparse.1]
      exact ⟨h _ _ _ hread, h' _ _ _ hread'⟩

theorem yields_congr {P : τ → Prop} {f : σ ≃ τ} {L : Loader β ε σ}
    (h : Yields (fun v ↦ P (f v)) L.parse) : Yields P (L.congr f).parse := by
  intro input v rest hparse
  simp only [Loader.congr] at hparse
  cases hread : L.parse input with
  | error e =>
    rw [hread] at hparse
    exact absurd hparse (by simp [Except.map])
  | ok result =>
    rw [hread, Except.map, Except.ok.injEq, Prod.mk.injEq] at hparse
    rw [← hparse.1]
    exact h _ _ _ hread

theorem yields_parseAll {P : σ → Prop} {L : Loader β ε σ} (h : Yields P L.parse) (n : ℕ) :
    Yields (fun vs : List σ ↦ vs.length = n ∧ ∀ v ∈ vs, P v) (L.parseAll n) := by
  induction n with
  | zero =>
    intro input vs rest hparse
    rw [Loader.parseAll, Except.ok.injEq, Prod.mk.injEq] at hparse
    rw [← hparse.1]
    exact ⟨rfl, fun v hv ↦ absurd hv (by simp)⟩
  | succ n ih =>
    intro input vs rest hparse
    rw [Loader.parseAll] at hparse
    cases hread : L.parse input with
    | error e =>
      rw [hread] at hparse
      exact absurd hparse (by simp)
    | ok result =>
      simp only [hread] at hparse
      cases hread' : L.parseAll n result.2 with
      | error e =>
        rw [hread'] at hparse
        exact absurd hparse (by simp)
      | ok result' =>
        simp only [hread', Except.ok.injEq, Prod.mk.injEq] at hparse
        obtain ⟨hlength, hall⟩ := ih _ _ _ hread'
        rw [← hparse.1]
        exact ⟨by rw [List.length_cons, hlength], List.forall_mem_cons.mpr ⟨h _ _ _ hread, hall⟩⟩

end InPlace
