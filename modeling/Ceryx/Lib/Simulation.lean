import Mathlib.Logic.Basic
import Ceryx.Lib.Runs

/-!
# Ceryx.Lib.Simulation — runs with results against a specification

A machine whose steps return results is `step : σ → α → Option (β × σ)`. A
specification of it is a relation between a state, a label, a result and the
next state, which need not determine the last two.

* `trace`: the results of a run and the state it ends in.
* `SpecRun spec`: a run that the specification allows.
* `specRun_of_trace`: when a relation `R` between the states is kept by every
  step, with a step of the specification that has the same result, every run of
  the machine is one that the specification allows.
* `trace_map`: when a function between the states commutes with every step, as it
  need do in the states with an invariant only, the runs of the two machines have
  the same results.
* `foldl_related`: the same as the first for two machines that take every label.
* `trace_history`: an invariant that reads the results so far, and what it says of the
  next result.
-/

namespace Ceryx.Lib

universe u v w x

variable {σ : Type u} {τ : Type v} {α : Type w} {β : Type x}

/-- The results of a run and the state it ends in, `none` when one of its labels
cannot happen. -/
def trace (step : σ → α → Option (β × σ)) : σ → List α → Option (List β × σ)
  | s, [] => some ([], s)
  | s, a :: as =>
      (step s a).bind fun r => (trace step r.2 as).map fun rest => (r.1 :: rest.1, rest.2)

/-- The runs that a specification allows, with their results. -/
inductive SpecRun (spec : τ → α → β → τ → Prop) : τ → List α → List β → τ → Prop where
  | nil (t : τ) : SpecRun spec t [] [] t
  | cons {t t' t'' : τ} {a : α} {b : β} {as : List α} {bs : List β} (head : spec t a b t')
      (tail : SpecRun spec t' as bs t'') : SpecRun spec t (a :: as) (b :: bs) t''

variable {step : σ → α → Option (β × σ)} {spec : τ → α → β → τ → Prop}

theorem trace_cons {s s' : σ} {a : α} {as : List α} {bs : List β}
    (h : trace step s (a :: as) = some (bs, s')) :
    ∃ b s₁ rest, step s a = some (b, s₁) ∧ trace step s₁ as = some (rest, s') ∧
      bs = b :: rest := by
  rcases Option.bind_eq_some_iff.mp h with ⟨⟨b, s₁⟩, hstep, hmap⟩
  rcases Option.map_eq_some_iff.mp hmap with ⟨⟨rest, s₂⟩, htail, heq⟩
  cases heq
  exact ⟨b, s₁, rest, hstep, htail, rfl⟩

/-- Forward simulation. -/
theorem specRun_of_trace {R : σ → τ → Prop}
    (hstep : ∀ s t a b s', R s t → step s a = some (b, s') → ∃ t', spec t a b t' ∧ R s' t')
    {s s' : σ} {t : τ} {as : List α} {bs : List β} (hR : R s t)
    (hrun : trace step s as = some (bs, s')) : ∃ t', SpecRun spec t as bs t' ∧ R s' t' := by
  induction as generalizing s t bs with
  | nil =>
      cases hrun
      exact ⟨t, SpecRun.nil t, hR⟩
  | cons a as ih =>
      rcases trace_cons hrun with ⟨b, s₁, rest, hs, htail, rfl⟩
      rcases hstep s t a b s₁ hR hs with ⟨t₁, hspec, hR₁⟩
      rcases ih hR₁ htail with ⟨t', hrest, hR'⟩
      exact ⟨t', SpecRun.cons hspec hrest, hR'⟩

/-- A machine seen through a function of its states. -/
theorem trace_map {I : σ → Prop} {f : σ → τ} {step' : τ → α → Option (β × τ)}
    (hI : ∀ s a b s', I s → step s a = some (b, s') → I s')
    (hcomm : ∀ s a, I s → (step s a).map (Prod.map id f) = step' (f s) a) {s : σ} (hs : I s)
    (as : List α) : (trace step s as).map (Prod.map id f) = trace step' (f s) as := by
  induction as generalizing s with
  | nil => rfl
  | cons a as ih =>
      unfold trace
      rw [← hcomm s a hs]
      rcases Option.eq_none_or_eq_some (step s a) with hstep | ⟨⟨b, s₁⟩, hstep⟩
      · rw [hstep]
        rfl
      · have hrest := ih (hI s a b s₁ hs hstep)
        rw [hstep]
        simp only [Option.bind_some, Option.map_some, Prod.map_apply, id_eq, Option.map_map]
        rw [← hrest, Option.map_map]
        rfl

/-- Two machines whose steps keep a relation. -/
theorem foldl_related {R : σ → τ → Prop} {f : σ → α → σ} {g : τ → α → τ} {as : List α}
    (h : ∀ a ∈ as, ∀ s t, R s t → R (f s a) (g t a)) {s : σ} {t : τ} (hR : R s t) :
    R (as.foldl f s) (as.foldl g t) := by
  induction as generalizing s t with
  | nil => exact hR
  | cons a as ih =>
      have hhead := h a List.mem_cons_self s t hR
      exact ih (fun b hb => h b (List.mem_cons_of_mem a hb)) hhead

/-- An invariant of the results so far and the state: `P` says what it gives for the next
result. -/
theorem trace_history {I : List β → σ → Prop} {P : List β → β → Prop}
    (hstep : ∀ log s a b s', I log s → step s a = some (b, s') → P log b ∧ I (log ++ [b]) s')
    {log bs : List β} {s s' : σ} {as : List α} (hI : I log s)
    (hrun : trace step s as = some (bs, s')) :
    I (log ++ bs) s' ∧ ∀ before b after, bs = before ++ b :: after → P (log ++ before) b := by
  induction as generalizing s bs log with
  | nil =>
      cases hrun
      rw [List.append_nil]
      refine ⟨hI, fun before b after heq => ?_⟩
      exact absurd heq.symm (List.append_ne_nil_of_right_ne_nil _ (List.cons_ne_nil _ _))
  | cons a as ih =>
      rcases trace_cons hrun with ⟨b, s₁, rest, hs, htail, rfl⟩
      rcases hstep log s a b s₁ hI hs with ⟨hP, hI₁⟩
      rcases ih hI₁ htail with ⟨hI', hrest⟩
      rw [List.append_assoc] at hI'
      refine ⟨hI', fun before b' after heq => ?_⟩
      cases before with
      | nil =>
          -- the first result
          obtain ⟨rfl, -⟩ := List.cons.inj heq
          rwa [List.append_nil]
      | cons b₀ before =>
          obtain ⟨rfl, htail'⟩ := List.cons.inj heq
          have hP' := hrest before b' after htail'
          rwa [List.append_assoc] at hP'

/-- What holds before a run and not after it was lost at one of its steps. -/
theorem trace_lost {P : σ → Prop} {s s' : σ} {as : List α} {bs : List β}
    (hrun : trace step s as = some (bs, s')) (hP : P s) (hP' : ¬ P s') :
    ∃ as₁ a as₂ bs₁ s₁ b s₂, as = as₁ ++ a :: as₂ ∧ trace step s as₁ = some (bs₁, s₁) ∧ P s₁ ∧
      step s₁ a = some (b, s₂) ∧ ¬ P s₂ := by
  induction as generalizing s bs with
  | nil =>
      cases hrun
      exact absurd hP hP'
  | cons a as ih =>
      rcases trace_cons hrun with ⟨b, s₁, rest, hs, htail, rfl⟩
      by_cases h₁ : P s₁
      · -- it survives the first step
        rcases ih htail h₁ with ⟨as₁, a', as₂, bs₁, s₂, b', s₃, rfl, hpre, hP₂, hlost, hP₃⟩
        refine ⟨a :: as₁, a', as₂, b :: bs₁, s₂, b', s₃, rfl, ?_, hP₂, hlost, hP₃⟩
        simp [trace, hs, hpre]
      · -- the first step loses it
        exact ⟨[], a, as, [], s, b, s₁, rfl, rfl, hP, hs, h₁⟩

end Ceryx.Lib
