import FacialLandmark.Library.Requests
import Mathlib.Data.List.Infix

/-!
# Codes

The other direction of a parse: a value has a code, and the parse reads it back. `Codes` couples what
one wants to know of the pair.

* Whatever the parse makes of the code, with anything behind it, is the value.
* It makes something of it whenever it is able to hold the value, which is the condition `Fits`.
* A code that is cut off is not read at all, and if the value fits, the error says so (`Cut`).

The first and the last need no condition on the reader. As with requests there is a rule for each way
of putting loaders together, and the code of the whole is the codes of the parts in order.
-/

namespace InPlace

variable {β ε σ τ γ α : Type*}

structure Codes (Fits : Prop) (Cut : ε → Prop) (parse : List β → Except ε (α × List β))
    (code : List β) (v : α) : Prop where
  eq_of_parse : ∀ {rest result}, parse (code ++ rest) = .ok result → result = (v, rest)
  parse_append : Fits → ∀ rest, parse (code ++ rest) = .ok (v, rest)
  cut_off : ∀ {cut}, cut <+: code → cut ≠ code → EndsBadly (fun e ↦ Fits → Cut e) (parse cut)

variable {Fits Fits' : Prop} {Cut : ε → Prop}

/-- A piece of two codes ends in the first, or behind it. -/
theorem prefix_append_cases {p a b : List β} (h : p <+: a ++ b) :
    (p <+: a ∧ p ≠ a) ∨ ∃ q, p = a ++ q ∧ q <+: b := by
  rcases List.prefix_or_prefix_of_prefix h (List.prefix_append a b) with hpa | hap
  · by_cases heq : p = a
    · exact Or.inr ⟨[], by rw [heq, List.append_nil], List.nil_prefix⟩
    · exact Or.inl ⟨hpa, heq⟩
  · obtain ⟨q, rfl⟩ := hap
    exact Or.inr ⟨q, rfl, (List.prefix_append_right_inj a).mp h⟩

namespace Codes

variable {parse : List β → Except ε (α × List β)} {code code' : List β} {v v' : α}

theorem parse_code (h : Codes Fits Cut parse code v) (hfits : Fits) : parse code = .ok (v, []) := by
  have hparse := h.parse_append hfits []
  rwa [List.append_nil] at hparse

/-- A code that is cut off is not read, whether or not the value would fit. -/
theorem exists_error_of_cut (h : Codes Fits Cut parse code v) {cut : List β} (hcut : cut <+: code)
    (hne : cut ≠ code) : ∃ e, parse cut = .error e ∧ (Fits → Cut e) := by
  have hbad := h.cut_off hcut hne
  cases hparse : parse cut with
  | error e =>
    rw [hparse] at hbad
    exact ⟨e, rfl, hbad⟩
  | ok result =>
    rw [hparse] at hbad
    exact absurd hbad not_endsBadly_ok

/-- **Unique reading.** A stream begins with the code of one value only. -/
theorem unique (h : Codes Fits Cut parse code v) (h' : Codes Fits' Cut parse code' v')
    (hfits : Fits) {rest rest' : List β} (heq : code ++ rest = code' ++ rest') :
    v = v' ∧ rest = rest' := by
  have hparse := h.parse_append hfits rest
  rw [heq] at hparse
  exact Prod.mk.inj (h'.eq_of_parse hparse)

theorem mono (h : Codes Fits Cut parse code v) (himp : Fits' → Fits) :
    Codes Fits' Cut parse code v where
  eq_of_parse := h.eq_of_parse
  parse_append hfits := h.parse_append (himp hfits)
  cut_off hcut hne := by
    obtain ⟨e, hparse, hkind⟩ := h.exists_error_of_cut hcut hne
    rw [hparse]
    exact fun hfits ↦ hkind (himp hfits)

end Codes

theorem codes_of_append {parse : List β → Except ε (α × List β)} {code : List β} {v : α}
    (happend : ∀ rest, parse (code ++ rest) = .ok (v, rest))
    (hcut : ∀ {cut}, cut <+: code → cut ≠ code → EndsBadly Cut (parse cut)) :
    Codes Fits Cut parse code v where
  eq_of_parse hparse := (Except.ok.inj ((happend _).symm.trans hparse)).symm
  parse_append _ := happend
  cut_off {cut} hbegin hne := by
    have hbad := hcut hbegin hne
    cases hparse : parse cut with
    | error e =>
      rw [hparse] at hbad
      exact fun _ ↦ hbad
    | ok result =>
      rw [hparse] at hbad
      exact absurd hbad not_endsBadly_ok

/-! ## Loaders put together -/

theorem codes_throwing {e : ε} (h : ¬Fits) (code : List β) (v : σ) :
    Codes Fits Cut (Loader.throwing e : Loader β ε σ).parse code v where
  eq_of_parse hparse := absurd hparse (by simp [Loader.throwing])
  parse_append hfits := absurd hfits h
  cut_off _ _ := fun hfits ↦ absurd hfits h

theorem codes_rethrow {f : ε → ε} {L : Loader β ε σ} {code : List β} {v : σ}
    (hf : ∀ e, Cut e → Cut (f e)) (h : Codes Fits Cut L.parse code v) :
    Codes Fits Cut (Loader.rethrow f L).parse code v where
  eq_of_parse {rest result} hparse := by
    simp only [Loader.rethrow] at hparse
    cases hread : L.parse (code ++ rest) with
    | error e =>
      rw [hread] at hparse
      exact absurd hparse (by simp [Except.mapError])
    | ok result' =>
      rw [hread, Except.mapError, Except.ok.injEq] at hparse
      rw [← hparse]
      exact h.eq_of_parse hread
  parse_append hfits rest := by
    simp only [Loader.rethrow, h.parse_append hfits rest]
    rfl
  cut_off hcut hne := by
    obtain ⟨e, hparse, hkind⟩ := h.exists_error_of_cut hcut hne
    simp only [Loader.rethrow, hparse]
    exact fun hfits ↦ hf e (hkind hfits)

theorem codes_resetOnError {reset : σ} {L : Loader β ε σ} {code : List β} {v : σ}
    (h : Codes Fits Cut L.parse code v) : Codes Fits Cut (Loader.resetOnError reset L).parse code v :=
  h

/-- A value read by two parses, the second on what the first has left. -/
theorem codes_andThen {parse : List β → Except ε (γ × List β)} {parse' : List β → Except ε (τ × List β)}
    {whole : List β → Except ε (σ × List β)} {code code' : List β} {c : γ} {v : τ} {w : σ}
    (hfirst : ∀ {input e}, parse input = .error e → whole input = .error e)
    (hsecond : ∀ {input rest e}, parse input = .ok (c, rest) → parse' rest = .error e →
      whole input = .error e)
    (hok : ∀ {input rest rest'}, parse input = .ok (c, rest) → parse' rest = .ok (v, rest') →
      whole input = .ok (w, rest'))
    (h : Codes Fits Cut parse code c) (h' : Codes Fits' Cut parse' code' v) :
    Codes (Fits ∧ Fits') Cut whole (code ++ code') w where
  eq_of_parse {rest result} hparse := by
    rw [List.append_assoc] at hparse
    cases hread : parse (code ++ (code' ++ rest)) with
    | error e =>
      rw [hfirst hread] at hparse
      exact absurd hparse (by simp)
    | ok result₁ =>
      obtain rfl := h.eq_of_parse hread
      cases hread' : parse' (code' ++ rest) with
      | error e =>
        rw [hsecond hread hread'] at hparse
        exact absurd hparse (by simp)
      | ok result₂ =>
        obtain rfl := h'.eq_of_parse hread'
        rw [hok hread hread'] at hparse
        exact (Except.ok.inj hparse).symm
  parse_append hfits rest := by
    rw [List.append_assoc]
    exact hok (h.parse_append hfits.1 _) (h'.parse_append hfits.2 rest)
  cut_off {cut} hcut hne := by
    rcases prefix_append_cases hcut with ⟨hpiece, hne'⟩ | ⟨cut', rfl, hpiece⟩
    · obtain ⟨e, hparse, hkind⟩ := h.exists_error_of_cut hpiece hne'
      rw [hfirst hparse]
      exact fun hfits ↦ hkind hfits.1
    · -- the first code is all there
      cases hread : parse (code ++ cut') with
      | error e =>
        rw [hfirst hread]
        exact fun hfits ↦ absurd (h.parse_append hfits.1 cut') (by rw [hread]; simp)
      | ok result =>
        obtain rfl := h.eq_of_parse hread
        have hne' : cut' ≠ code' := fun heq ↦ hne (by rw [heq])
        obtain ⟨e, hparse, hkind⟩ := h'.exists_error_of_cut hpiece hne'
        rw [hsecond hread hparse]
        exact fun hfits ↦ hkind hfits.2

theorem codes_after {header : List β → Except ε (γ × List β)} {body : γ → Loader β ε σ}
    {code code' : List β} {c : γ} {v : σ} (h : Codes Fits Cut header code c)
    (h' : Codes Fits' Cut (body c).parse code' v) :
    Codes (Fits ∧ Fits') Cut (Loader.after header body).parse (code ++ code') v := by
  refine codes_andThen (fun hparse ↦ ?_) (fun hparse hparse' ↦ ?_) (fun hparse hparse' ↦ ?_) h h'
  · simp only [Loader.after, hparse]
  · simp only [Loader.after, hparse, hparse']
  · simp only [Loader.after, hparse, hparse']

theorem codes_pair {L : Loader β ε σ} {L' : Loader β ε τ} {code code' : List β} {v : σ} {v' : τ}
    (h : Codes Fits Cut L.parse code v) (h' : Codes Fits' Cut L'.parse code' v') :
    Codes (Fits ∧ Fits') Cut (L.pair L').parse (code ++ code') (v, v') := by
  refine codes_andThen (fun hparse ↦ ?_) (fun hparse hparse' ↦ ?_) (fun hparse hparse' ↦ ?_) h h'
  · simp only [Loader.pair, hparse]
  · simp only [Loader.pair, hparse, hparse']
  · simp only [Loader.pair, hparse, hparse']

theorem codes_congr {f : σ ≃ τ} {L : Loader β ε σ} {code : List β} {v : σ}
    (h : Codes Fits Cut L.parse code v) : Codes Fits Cut (Loader.congr f L).parse code (f v) where
  eq_of_parse {rest result} hparse := by
    simp only [Loader.congr] at hparse
    cases hread : L.parse (code ++ rest) with
    | error e =>
      rw [hread] at hparse
      exact absurd hparse (by simp [Except.map])
    | ok result' =>
      obtain rfl := h.eq_of_parse hread
      rw [hread, Except.map, Except.ok.injEq] at hparse
      exact hparse.symm
  parse_append hfits rest := by
    simp only [Loader.congr, h.parse_append hfits rest]
    rfl
  cut_off hcut hne := by
    obtain ⟨e, hparse, hkind⟩ := h.exists_error_of_cut hcut hne
    simp only [Loader.congr, hparse]
    exact hkind

/-- The items of a list. Each is read as what `value` makes of it. -/
theorem codes_parseAll {ω : Type*} {L : Loader β ε σ} {encode : ω → List β} {value : ω → σ}
    {fits : ω → Prop} {items : List ω}
    (h : ∀ x ∈ items, Codes (fits x) Cut L.parse (encode x) (value x)) :
    Codes (∀ x ∈ items, fits x) Cut (L.parseAll items.length) (items.flatMap encode)
      (items.map value) := by
  induction items with
  | nil =>
    refine ⟨fun hparse ↦ ?_, fun _ rest ↦ rfl, fun hcut hne ↦ ?_⟩
    · exact (Except.ok.inj hparse).symm
    · exact absurd (List.prefix_nil.mp hcut) hne
  | cons x items ih =>
    rw [List.forall_mem_cons] at h
    refine (codes_andThen (fun hparse ↦ ?_) (fun hparse hparse' ↦ ?_) (fun hparse hparse' ↦ ?_) h.1
      (ih h.2)).mono List.forall_mem_cons.mp
    · rw [List.length_cons, Loader.parseAll, hparse]
    · simp only [List.length_cons, Loader.parseAll, hparse, hparse']
    · simp only [List.length_cons, Loader.parseAll, hparse, hparse', List.map_cons]

/-! ## Loading from a code that is cut off

The pieces in front of the cut are those of the value. Where the cut is, the loader of that piece has
stored what it could, and behind it there are the old ones. -/

theorem fst_run_pair_of_prefix {L : Loader β ε σ} (L' : Loader β ε τ) {code code' cut : List β}
    {v : σ} (h : Codes Fits Cut L.parse code v) (hfits : Fits) (hcut : cut <+: code ++ code')
    (x : σ × τ) :
    (cut <+: code ∧ cut ≠ code ∧ ((L.pair L').run x cut).1 = ((L.run x.1 cut).1, x.2)) ∨
      ∃ piece, cut = code ++ piece ∧ piece <+: code' ∧
        ((L.pair L').run x cut).1 = (v, (L'.run x.2 piece).1) := by
  rcases prefix_append_cases hcut with ⟨hpiece, hne⟩ | ⟨piece, rfl, hpiece⟩
  · obtain ⟨e, hparse, -⟩ := h.exists_error_of_cut hpiece hne
    refine Or.inl ⟨hpiece, hne, ?_⟩
    simp only [Loader.pair]
    rw [L.run_of_parse_eq_error hparse]
  · refine Or.inr ⟨piece, rfl, hpiece, ?_⟩
    simp only [Loader.pair, L.run_of_parse (h.parse_append hfits piece)]

theorem fst_runAll_of_prefix {ω : Type*} {L : Loader β ε σ} {encode : ω → List β} {value : ω → σ}
    {fits : ω → Prop} {items : List ω}
    (h : ∀ x ∈ items, Codes (fits x) Cut L.parse (encode x) (value x))
    (hfits : ∀ x ∈ items, fits x) {cut : List β} (hcut : cut <+: items.flatMap encode) (old : σ) :
    (cut = items.flatMap encode ∧
        (L.runAll (List.replicate items.length old) cut).1 = items.map value) ∨
      ∃ before item after piece, items = before ++ item :: after ∧
        cut = before.flatMap encode ++ piece ∧ piece <+: encode item ∧ piece ≠ encode item ∧
        (L.runAll (List.replicate items.length old) cut).1
          = before.map value ++ (L.run old piece).1 :: List.replicate after.length old := by
  induction items generalizing cut with
  | nil => exact Or.inl ⟨List.prefix_nil.mp hcut, rfl⟩
  | cons x items ih =>
    rw [List.forall_mem_cons] at h hfits
    rw [List.length_cons, List.replicate_succ, Loader.runAll]
    rcases prefix_append_cases hcut with ⟨hpiece, hne⟩ | ⟨rest, rfl, hrest⟩
    · obtain ⟨e, hparse, -⟩ := h.1.exists_error_of_cut hpiece hne
      refine Or.inr ⟨[], x, items, cut, rfl, rfl, hpiece, hne, ?_⟩
      rw [L.run_of_parse_eq_error hparse]
      rfl
    · rw [L.run_of_parse (h.1.parse_append hfits.1 rest)]
      rcases ih h.2 hfits.2 hrest with
        ⟨rfl, hrun⟩ | ⟨before, item, after, piece, rfl, rfl, hpiece, hne, hrun⟩
      · exact Or.inl ⟨rfl, by simp only [hrun, List.map_cons]⟩
      · refine Or.inr ⟨x :: before, item, after, piece, rfl, ?_, hpiece, hne, ?_⟩
        · rw [List.flatMap_cons, List.append_assoc]
        · simp only [hrun, List.map_cons, List.cons_append]

end InPlace
