import Mathlib.Logic.Basic
import Mathlib.Data.List.Infix

/-!
# Ceryx.Lib.Runs — runs of a partial deterministic machine

A machine is a step function `step : σ → α → Option σ`: `step s a = none` says
that the label `a` cannot happen in `s` (a guard is off, or the program has
stopped or has no defined behaviour there). A run is a list of labels.

* `Always P`: the state predicate `P` holds in every state a run passes.
* `StepsMeet ok`: every step the run takes meets the condition `ok`, which
  looks at the state before the step and at the label.
* `always_of_stepsMeet`: an invariant kept by the steps that meet `ok` holds
  along every run whose steps meet it.
* `always_iff_stepsMeet`: when, in addition, a step that misses `ok` breaks
  `P`, the two are equivalent on every run, so `ok` is the exact condition.
-/

namespace Ceryx.Lib

universe u v

variable {σ : Type u} {α : Type v} (step : σ → α → Option σ)

/-- The state a run ends in, `none` when one of its labels cannot happen. -/
def run : σ → List α → Option σ
  | s, [] => some s
  | s, a :: as => (step s a).bind fun s' => run s' as

/-- `P` holds in every state the run passes, first and last included. -/
def Always (P : σ → Prop) : σ → List α → Prop
  | s, [] => P s
  | s, a :: as => P s ∧ ∀ s', step s a = some s' → Always P s' as

/-- Every step that the run takes meets `ok`. -/
def StepsMeet (ok : σ → α → Prop) : σ → List α → Prop
  | _, [] => True
  | s, a :: as => ∀ s', step s a = some s' → ok s a ∧ StepsMeet ok s' as

instance StepsMeet.decidable (ok : σ → α → Prop) [∀ s a, Decidable (ok s a)] :
    (s : σ) → (as : List α) → Decidable (StepsMeet step ok s as)
  | _, [] => isTrue trivial
  | s, a :: as =>
      match h : step s a with
      | none => isTrue fun s' hs' => absurd (h.symm.trans hs') (by simp)
      | some s₁ =>
          have : Decidable (StepsMeet step ok s₁ as) := StepsMeet.decidable ok s₁ as
          decidable_of_iff (ok s a ∧ StepsMeet step ok s₁ as) <| by
            constructor
            · intro hok s' hs'
              obtain rfl := Option.some.inj (h.symm.trans hs')
              exact hok
            · intro hok
              exact hok s₁ h

@[simp] theorem run_nil (s : σ) : run step s [] = some s := rfl

@[simp] theorem run_cons (s : σ) (a : α) (as : List α) :
    run step s (a :: as) = (step s a).bind fun s' => run step s' as := rfl

variable {step}

theorem stepsMeet_of_forall {ok : σ → α → Prop} (h : ∀ s a, ok s a) (s : σ) (as : List α) :
    StepsMeet step ok s as := by
  induction as generalizing s with
  | nil => trivial
  | cons a as ih =>
      intro s' _
      exact ⟨h s a, ih s'⟩

theorem StepsMeet.mono {ok ok' : σ → α → Prop} (h : ∀ s a, ok s a → ok' s a) {s : σ} {as : List α}
    (hok : StepsMeet step ok s as) : StepsMeet step ok' s as := by
  induction as generalizing s with
  | nil => trivial
  | cons a as ih =>
      intro s' hs'
      rcases hok s' hs' with ⟨hoka, hrest⟩
      exact ⟨h s a hoka, ih hrest⟩

/-- An invariant that gives the condition, along runs of labels of a set `L`. -/
theorem stepsMeet_of_inv {I : σ → Prop} {ok : σ → α → Prop} {L : α → Prop}
    (hstep : ∀ s a s', I s → L a → step s a = some s' → I s')
    (hmeet : ∀ s a, I s → L a → ok s a) {s : σ} {as : List α} (hinv : I s) (hL : ∀ a ∈ as, L a) :
    StepsMeet step ok s as := by
  induction as generalizing s with
  | nil => trivial
  | cons a as ih =>
      intro s' hs'
      have hLa := hL a List.mem_cons_self
      refine ⟨hmeet s a hinv hLa, ih (hstep s a s' hinv hLa hs') ?_⟩
      intro b hb
      exact hL b (List.mem_cons_of_mem a hb)

/-- Two conditions that agree in the states of `I`, which is kept where they hold. -/
theorem stepsMeet_iff {I : σ → Prop} {ok ok' : σ → α → Prop}
    (hiff : ∀ s a, I s → (ok s a ↔ ok' s a))
    (hkeep : ∀ s a s', I s → ok' s a → step s a = some s' → I s') {s : σ} {as : List α}
    (hinv : I s) : StepsMeet step ok s as ↔ StepsMeet step ok' s as := by
  induction as generalizing s with
  | nil => exact Iff.rfl
  | cons a as ih =>
      constructor
      · intro h s' hs'
        rcases h s' hs' with ⟨hok, hrest⟩
        have hok' := (hiff s a hinv).mp hok
        exact ⟨hok', (ih (hkeep s a s' hinv hok' hs')).mp hrest⟩
      · intro h s' hs'
        rcases h s' hs' with ⟨hok', hrest⟩
        exact ⟨(hiff s a hinv).mpr hok', (ih (hkeep s a s' hinv hok' hs')).mpr hrest⟩

/-- `Always` speaks about exactly the states that the initial parts of the run
end in. -/
theorem always_iff_run {P : σ → Prop} {s : σ} {as : List α} :
    Always step P s as ↔ ∀ bs s', bs <+: as → run step s bs = some s' → P s' := by
  induction as generalizing s with
  | nil =>
      constructor
      · intro h bs s' hbs hrun
        obtain rfl := List.prefix_nil.mp hbs
        cases hrun
        exact h
      · intro h
        exact h [] s (List.prefix_refl _) rfl
  -- the states of a run: the first, and those of the rest behind each step
  | cons a as ih =>
      constructor
      · rintro ⟨hs, htail⟩ bs s' hbs hrun
        cases bs with
        | nil =>
            cases hrun
            exact hs
        | cons b bs =>
            obtain ⟨rfl, hbs'⟩ := List.cons_prefix_cons.mp hbs
            obtain ⟨s₁, hstep, hrun'⟩ := Option.bind_eq_some_iff.mp hrun
            exact ih.mp (htail s₁ hstep) bs s' hbs' hrun'
      · intro h
        refine ⟨h [] s (List.nil_prefix) rfl, fun s₁ hstep => ih.mpr ?_⟩
        intro bs s' hbs hrun
        refine h (a :: bs) s' (List.cons_prefix_cons.mpr ⟨rfl, hbs⟩) ?_
        rw [run_cons, hstep]
        exact hrun

/-- The first state of a run. -/
theorem Always.head {P : σ → Prop} {s : σ} {as : List α} (h : Always step P s as) : P s := by
  cases as with
  | nil => exact h
  | cons a as => exact h.1

/-- Inductive invariance along runs whose steps meet `ok`. -/
theorem always_of_stepsMeet {I : σ → Prop} {ok : σ → α → Prop}
    (hstep : ∀ s a s', I s → ok s a → step s a = some s' → I s') {s : σ} {as : List α}
    (hinv : I s) (hok : StepsMeet step ok s as) : Always step I s as := by
  induction as generalizing s with
  | nil => exact hinv
  | cons a as ih =>
      refine ⟨hinv, fun s' hs' => ?_⟩
      obtain ⟨hoka, hrest⟩ := hok s' hs'
      exact ih (hstep s a s' hinv hoka hs') hrest

/-- Inductive invariance along runs of labels that meet `ok`. -/
theorem always_of_forall {I : σ → Prop} {ok : α → Prop}
    (hstep : ∀ s a s', I s → ok a → step s a = some s' → I s') {s : σ} {as : List α}
    (hinv : I s) (hok : ∀ a ∈ as, ok a) : Always step I s as := by
  induction as generalizing s with
  | nil => exact hinv
  | cons a as ih =>
      refine ⟨hinv, fun s' hs' => ?_⟩
      have hhead := hok a List.mem_cons_self
      exact ih (hstep s a s' hinv hhead hs') (fun b hb => hok b (List.mem_cons_of_mem a hb))

/-- Inductive invariance along every run. -/
theorem always_of_inv {I : σ → Prop}
    (hstep : ∀ s a s', I s → step s a = some s' → I s') {s : σ} (as : List α)
    (hinv : I s) : Always step I s as := by
  induction as generalizing s with
  | nil => exact hinv
  | cons a as ih => exact ⟨hinv, fun s' hs' => ih (hstep s a s' hinv hs')⟩

theorem Always.mono {P Q : σ → Prop} (hPQ : ∀ s, P s → Q s) {s : σ} {as : List α}
    (h : Always step P s as) : Always step Q s as := by
  induction as generalizing s with
  | nil => exact hPQ s h
  | cons a as ih => exact ⟨hPQ s h.1, fun s' hs' => ih (h.2 s' hs')⟩

theorem Always.and {P Q : σ → Prop} {s : σ} {as : List α} (hP : Always step P s as)
    (hQ : Always step Q s as) : Always step (fun s => P s ∧ Q s) s as := by
  induction as generalizing s with
  | nil => exact ⟨hP, hQ⟩
  | cons a as ih => exact ⟨⟨hP.1, hQ.1⟩, fun s' hs' => ih (hP.2 s' hs') (hQ.2 s' hs')⟩

/-- An invariant of all runs, read at the last state of one. -/
theorem inv_of_run {I : σ → Prop}
    (hstep : ∀ s a s', I s → step s a = some s' → I s') {s s' : σ} {as : List α}
    (hinv : I s) (hrun : run step s as = some s') : I s' :=
  always_iff_run.mp (always_of_inv hstep as hinv) as s' (List.prefix_refl _) hrun

/-- The exact condition, for runs over the labels of a set `L`: steps that meet
`ok` keep `I`, which gives `P`, and a step from an `I` state that misses `ok`
breaks `P`. Then a run keeps `P` throughout if and only if all its steps meet
`ok`. -/
theorem always_iff_stepsMeet_of {I P : σ → Prop} {ok : σ → α → Prop} {L : α → Prop}
    (hgives : ∀ s, I s → P s)
    (hkeep : ∀ s a s', L a → I s → ok s a → step s a = some s' → I s')
    (hbreak : ∀ s a s', L a → I s → ¬ ok s a → step s a = some s' → ¬ P s')
    {s : σ} (as : List α) (hL : ∀ a ∈ as, L a) (hI : I s) :
    Always step P s as ↔ StepsMeet step ok s as := by
  induction as generalizing s with
  | nil => exact ⟨fun _ => trivial, fun _ => hgives s hI⟩
  | cons a as ih =>
      have hLa : L a := hL a List.mem_cons_self
      have hLas : ∀ b ∈ as, L b := fun b hb => hL b (List.mem_cons_of_mem _ hb)
      constructor
      · rintro ⟨-, htail⟩ s' hs'
        -- a step that misses the condition would break `P`
        have hok : ok s a := by
          by_contra hne
          exact hbreak s a s' hLa hI hne hs' (htail s' hs').head
        exact ⟨hok, (ih hLas (hkeep s a s' hLa hI hok hs')).mp (htail s' hs')⟩
      · intro hok
        refine ⟨hgives s hI, fun s' hs' => ?_⟩
        obtain ⟨hoka, hrest⟩ := hok s' hs'
        exact (ih hLas (hkeep s a s' hLa hI hoka hs')).mpr hrest

/-- The same where `I` is `P` and an invariant `B` of all runs. -/
theorem always_iff_stepsMeet_on {B P : σ → Prop} {ok : σ → α → Prop} {L : α → Prop}
    (hbase : ∀ s a s', L a → B s → step s a = some s' → B s')
    (hkeep : ∀ s a s', L a → B s → P s → ok s a → step s a = some s' → P s')
    (hbreak : ∀ s a s', L a → B s → P s → ¬ ok s a → step s a = some s' → ¬ P s')
    {s : σ} (as : List α) (hL : ∀ a ∈ as, L a) (hB : B s) (hP : P s) :
    Always step P s as ↔ StepsMeet step ok s as := by
  refine always_iff_stepsMeet_of (I := fun s => B s ∧ P s) (fun s h => h.2) ?_ ?_ as hL ⟨hB, hP⟩
  · intro s a s' hLa h hok hs'
    exact ⟨hbase s a s' hLa h.1 hs', hkeep s a s' hLa h.1 h.2 hok hs'⟩
  · intro s a s' hLa h hne hs'
    exact hbreak s a s' hLa h.1 h.2 hne hs'

/-- The exact condition, for runs whose steps meet an assumption `given`. -/
theorem always_iff_stepsMeet_given {B P : σ → Prop} {ok given : σ → α → Prop}
    (hbase : ∀ s a s', given s a → B s → step s a = some s' → B s')
    (hkeep : ∀ s a s', given s a → B s → P s → ok s a → step s a = some s' → P s')
    (hbreak : ∀ s a s', given s a → B s → P s → ¬ ok s a → step s a = some s' → ¬ P s')
    {s : σ} (as : List α) (hgiven : StepsMeet step given s as) (hB : B s) (hP : P s) :
    Always step P s as ↔ StepsMeet step ok s as := by
  induction as generalizing s with
  | nil => exact ⟨fun _ => trivial, fun _ => hP⟩
  | cons a as ih =>
      constructor
      · rintro ⟨-, htail⟩ s' hs'
        obtain ⟨hgivena, hrest⟩ := hgiven s' hs'
        -- a step that misses the condition would break `P`
        have hok : ok s a := by
          by_contra hne
          exact hbreak s a s' hgivena hB hP hne hs' (htail s' hs').head
        exact ⟨hok, (ih hrest (hbase s a s' hgivena hB hs') (htail s' hs').head).mp (htail s' hs')⟩
      · intro hok
        refine ⟨hP, fun s' hs' => ?_⟩
        obtain ⟨hgivena, hrest⟩ := hgiven s' hs'
        obtain ⟨hoka, hoks⟩ := hok s' hs'
        have hP' := hkeep s a s' hgivena hB hP hoka hs'
        exact (ih hrest (hbase s a s' hgivena hB hs') hP').mpr hoks

/-- The exact condition for runs over all labels. -/
theorem always_iff_stepsMeet {B P : σ → Prop} {ok : σ → α → Prop}
    (hbase : ∀ s a s', B s → step s a = some s' → B s')
    (hkeep : ∀ s a s', B s → P s → ok s a → step s a = some s' → P s')
    (hbreak : ∀ s a s', B s → P s → ¬ ok s a → step s a = some s' → ¬ P s')
    {s : σ} (as : List α) (hB : B s) (hP : P s) :
    Always step P s as ↔ StepsMeet step ok s as :=
  always_iff_stepsMeet_on (L := fun _ => True) (fun s a s' _ => hbase s a s')
    (fun s a s' _ => hkeep s a s') (fun s a s' _ => hbreak s a s') as (fun _ _ => trivial) hB hP

/-! ## Runs on concrete states

A decidable fact about the start state of a machine that boots, or about the
state a run ends in, from one evaluation. -/

theorem exists_start {o : Option σ} {P : σ → Prop} [DecidablePred P]
    (h : (o.any fun s => decide (P s)) = true) : ∃ s, o = some s ∧ P s := by
  rcases (Option.any_eq_true _ _).mp h with ⟨s, hs, hP⟩
  exact ⟨s, hs, of_decide_eq_true hP⟩

theorem exists_run (step : σ → α → Option σ) (as : List α) {o : Option σ} {P : σ → Prop}
    [DecidablePred P]
    (h : (o.any fun s => (run step s as).any fun s' => decide (P s')) = true) :
    ∃ s s', o = some s ∧ run step s as = some s' ∧ P s' := by
  rcases (Option.any_eq_true _ _).mp h with ⟨s, hs, hrun⟩
  rcases (Option.any_eq_true _ _).mp hrun with ⟨s', hs', hP⟩
  exact ⟨s, s', hs, hs', of_decide_eq_true hP⟩

end Ceryx.Lib
