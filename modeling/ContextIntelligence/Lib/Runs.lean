import Mathlib

/-!
# Runs whose steps meet a condition

A run is the list of actions of a step function. `Along step C` says that every step of a run meets
`C`, which may speak about the state in which it is taken. `Along.invariant` is the one induction
over runs.
-/

namespace ContextIntelligence.Lib.Runs

universe u v

variable {σ : Type u} {α : Type v} {step : σ → α → σ} {C C' : σ → α → Prop}

def run (step : σ → α → σ) (s : σ) (actions : List α) : σ := actions.foldl step s

@[simp] theorem run_cons (s : σ) (a : α) (as : List α) :
    run step s (a :: as) = run step (step s a) as := rfl

/-- Every step of the run that starts in `s` meets the condition. -/
def Along (step : σ → α → σ) (C : σ → α → Prop) : σ → List α → Prop
  | _, [] => True
  | s, a :: as => C s a ∧ Along step C (step s a) as

instance Along.decidable [h : ∀ s a, Decidable (C s a)] :
    (s : σ) → (as : List α) → Decidable (Along step C s as)
  | _, [] => isTrue trivial
  | s, a :: as =>
    match h s a, Along.decidable (step s a) as with
    | isTrue hc, isTrue hr => isTrue ⟨hc, hr⟩
    | isFalse hc, _ => isFalse fun h => hc h.1
    | _, isFalse hr => isFalse fun h => hr h.2

variable {s : σ}

theorem along_append {as bs : List α} :
    Along step C s (as ++ bs) ↔ Along step C s as ∧ Along step C (run step s as) bs := by
  induction as generalizing s with
  | nil => exact ⟨fun h => ⟨trivial, h⟩, And.right⟩
  | cons a as ih => exact (and_congr_right' ih).trans and_assoc.symm

variable {I : σ → Prop} {as : List α}

theorem Along.invariant (hstep : ∀ s a, I s → C s a → I (step s a))
    (h : Along step C s as) (hs : I s) : I (run step s as) := by
  induction as generalizing s with
  | nil => exact hs
  | cons a as ih => exact ih h.2 (hstep s a hs h.1)

variable {Q : σ → α → Prop}

theorem Along.map_of_invariant
    (hstep : ∀ s a, I s → C s a → I (step s a)) (hgood : ∀ s a, I s → C s a → Q s a)
    (h : Along step C s as) (hs : I s) : Along step Q s as := by
  induction as generalizing s with
  | nil => trivial
  | cons a as ih => exact ⟨hgood s a hs h.1, ih h.2 (hstep s a hs h.1)⟩

theorem along_of_invariant (hstep : ∀ s a, I s → I (step s a))
    (hgood : ∀ s a, I s → Q s a) (hs : I s) (as : List α) : Along step Q s as := by
  induction as generalizing s with
  | nil => trivial
  | cons a as ih => exact ⟨hgood s a hs, ih (hstep s a hs)⟩

/-- The property holds in every state of the run after the first. -/
abbrev Always (step : σ → α → σ) (P : σ → Prop) (s : σ) (as : List α) : Prop :=
  Along step (fun s a => P (step s a)) s as

theorem Always.run_of_ne_nil {P : σ → Prop} (h : Always step P s as)
    (hne : as ≠ []) : P (run step s as) := by
  induction as generalizing s with
  | nil => exact absurd rfl hne
  | cons a as ih =>
    cases as with
    | nil => exact h.1
    | cons b bs => exact ih h.2 (List.cons_ne_nil b bs)

/-- When an invariant is kept by every step that meets the condition, and under it a step is good
exactly when it meets the condition, the good runs are those along the condition. -/
theorem along_iff_along
    (hstep : ∀ s a, I s → C s a → I (step s a)) (hiff : ∀ s a, I s → (Q s a ↔ C s a))
    (hs : I s) (as : List α) : Along step Q s as ↔ Along step C s as := by
  induction as generalizing s with
  | nil => exact Iff.rfl
  | cons a as ih =>
    constructor
    · rintro ⟨hq, hrest⟩
      have hc := (hiff s a hs).1 hq
      exact ⟨hc, (ih (hstep s a hs hc)).1 hrest⟩
    · rintro ⟨hc, hrest⟩
      exact ⟨(hiff s a hs).2 hc, (ih (hstep s a hs hc)).2 hrest⟩

/-- When the invariant implies a property and every step that violates the condition leaves a state
without it, the property holds throughout a run exactly when the condition does. -/
theorem always_iff_along {I P : σ → Prop} (hstep : ∀ s a, I s → C s a → I (step s a))
    (hsafe : ∀ s, I s → P s) (hneeds : ∀ s a, I s → P (step s a) → C s a) (hs : I s)
    (as : List α) : Always step P s as ↔ Along step C s as :=
  along_iff_along hstep (fun s a h => ⟨hneeds s a h, fun hc => hsafe _ (hstep s a h hc)⟩) hs as

end ContextIntelligence.Lib.Runs
