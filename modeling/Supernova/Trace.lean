/-
Runs of a deterministic step function over a list of events.  An event that
the state does not allow ends the run; interleavings and choices of the
environment are events, so a statement over all lists is one over all runs.
-/
import Mathlib.Tactic.Common

namespace Supernova

variable {σ ε : Type*}

/-- The state after all events, if each of them was allowed. -/
def run (step : σ → ε → Option σ) : σ → List ε → Option σ
  | s, [] => some s
  | s, e :: es =>
      match step s e with
      | none => none
      | some s' => run step s' es

/-- Every step of the run is taken from a state and by an event that `P` admits. -/
def Along (step : σ → ε → Option σ) (P : σ → ε → Prop) : σ → List ε → Prop
  | _, [] => True
  | s, e :: es =>
      match step s e with
      | none => True
      | some s' => P s e ∧ Along step P s' es

/-- What holds of every event of a list holds along its run. -/
theorem along_of_forall {step : σ → ε → Option σ} {P : ε → Prop} {s : σ} {es : List ε}
    (h : ∀ e ∈ es, P e) : Along step (fun _ e => P e) s es := by
  induction es generalizing s with
  | nil => trivial
  | cons e es ih =>
      rw [List.forall_mem_cons] at h
      rw [Along]
      split
      · trivial
      · exact ⟨h.1, ih h.2⟩

/-- Repeating one event leads from a state to another, by steps that `P` admits. -/
def Leads (step : σ → ε → Option σ) (P : σ → ε → Prop) (e : ε) (s s' : σ) : Prop :=
  ∃ n, run step s (List.replicate n e) = some s' ∧ Along step P s (List.replicate n e)

/-- Every state that the run reaches satisfies `Q`. -/
def Throughout (step : σ → ε → Option σ) (Q : σ → Prop) : σ → List ε → Prop
  | s, [] => Q s
  | s, e :: es =>
      Q s ∧ match step s e with
        | none => True
        | some s' => Throughout step Q s' es

section

variable {step : σ → ε → Option σ} {P : σ → ε → Prop} {Q I : σ → Prop}

theorem run_cons_eq_some {s s' : σ} {e : ε} {es : List ε} :
    run step s (e :: es) = some s' ↔ ∃ s₁, step s e = some s₁ ∧ run step s₁ es = some s' := by
  rw [run]
  cases step s e <;> simp

/-- A step that is always allowed is folded over the events. -/
theorem run_of_total (f : σ → ε → σ) (s : σ) (es : List ε) :
    run (fun s e => some (f s e)) s es = some (es.foldl f s) := by
  induction es generalizing s with
  | nil => rfl
  | cons e es ih =>
      rw [run, List.foldl_cons]
      exact ih (f s e)

theorem run_append {s s₁ : σ} {es es' : List ε} (h : run step s es = some s₁) :
    run step s (es ++ es') = run step s₁ es' := by
  induction es generalizing s with
  | nil =>
      cases h
      rfl
  | cons e es ih =>
      obtain ⟨s₂, hstep, hrun⟩ := run_cons_eq_some.1 h
      rw [List.cons_append, run, hstep]
      exact ih hrun

instance [∀ s e, Decidable (P s e)] : ∀ s es, Decidable (Along step P s es)
  | _, [] => instDecidableTrue
  | s, e :: es =>
      match hstep : step s e with
      | none => isTrue (by rw [Along, hstep]; trivial)
      | some s' =>
          have := instDecidableAlong s' es
          decidable_of_iff (P s e ∧ Along step P s' es) (by rw [Along, hstep])

theorem Leads.refl (e : ε) (s : σ) : Leads step P e s s :=
  ⟨0, rfl, trivial⟩

theorem Leads.head {s s₁ s' : σ} {e : ε} (hstep : step s e = some s₁) (hP : P s e)
    (h : Leads step P e s₁ s') : Leads step P e s s' := by
  obtain ⟨n, hrun, halong⟩ := h
  refine ⟨n + 1, ?_, ?_⟩
  · rw [List.replicate_succ, run, hstep]
    exact hrun
  · rw [List.replicate_succ, Along, hstep]
    exact ⟨hP, halong⟩

/-- What holds throughout a run holds where it ends. -/
theorem Throughout.last {s s' : σ} {es : List ε} (h : Throughout step Q s es)
    (hrun : run step s es = some s') : Q s' := by
  induction es generalizing s with
  | nil =>
      cases hrun
      exact h
  | cons e es ih =>
      obtain ⟨s₁, hstep, hrun⟩ := run_cons_eq_some.1 hrun
      rw [Throughout, hstep] at h
      exact ih h.2 hrun

/-- An invariant of the admitted steps holds in every state of an admitted run. -/
theorem throughout_of_along
    (hkeep : ∀ s e s', I s → P s e → step s e = some s' → I s')
    (hQ : ∀ s, I s → Q s) {s : σ} {es : List ε} (hs : I s)
    (halong : Along step P s es) : Throughout step Q s es := by
  induction es generalizing s with
  | nil => exact hQ s hs
  | cons e es ih =>
      rw [Along] at halong
      refine ⟨hQ s hs, ?_⟩
      cases hstep : step s e with
      | none => trivial
      | some s' =>
          rw [hstep] at halong
          exact ih (hkeep s e s' hs halong.1 hstep) halong.2

/-- What the admitted steps keep holds in the last state of an admitted run. -/
theorem run_invariant_of_along (hkeep : ∀ s e s', I s → P s e → step s e = some s' → I s')
    {s s' : σ} {es : List ε} (hs : I s) (hrun : run step s es = some s')
    (halong : Along step P s es) : I s' := by
  induction es generalizing s with
  | nil =>
      cases hrun
      exact hs
  | cons e es ih =>
      obtain ⟨s₁, hstep, hrun⟩ := run_cons_eq_some.1 hrun
      rw [Along, hstep] at halong
      exact ih (hkeep s e s₁ hs halong.1 hstep) hrun halong.2

/-- When every step that is not admitted shows, the runs that stay good are
exactly the admitted ones. -/
theorem throughout_iff_along
    (hkeep : ∀ s e s', I s → P s e → step s e = some s' → I s')
    (hQ : ∀ s, I s → Q s)
    (hbreak : ∀ s e s', I s → ¬ P s e → step s e = some s' → ¬ Q s')
    {s : σ} {es : List ε} (hs : I s) :
    Throughout step Q s es ↔ Along step P s es := by
  constructor
  · intro hthroughout
    induction es generalizing s with
    | nil => trivial
    | cons e es ih =>
        rw [Throughout] at hthroughout
        rw [Along]
        cases hstep : step s e with
        | none => trivial
        | some s' =>
            rw [hstep] at hthroughout
            have hgood : Q s' := by
              cases es with
              | nil => exact hthroughout.2
              | cons e' es => exact hthroughout.2.1
            have hadmitted : P s e := by
              by_contra hnot
              exact hbreak s e s' hs hnot hstep hgood
            exact ⟨hadmitted, ih (hkeep s e s' hs hadmitted hstep) hthroughout.2⟩
  · exact throughout_of_along hkeep hQ hs

/-- What all steps keep holds in the last state of a run. -/
theorem run_invariant (hkeep : ∀ s e s', I s → step s e = some s' → I s')
    {s s' : σ} {es : List ε} (hs : I s) (hrun : run step s es = some s') : I s' := by
  induction es generalizing s with
  | nil =>
      cases hrun
      exact hs
  | cons e es ih =>
      obtain ⟨s₁, hstep, hrun⟩ := run_cons_eq_some.1 hrun
      exact ih (hkeep s e s₁ hs hstep) hrun

/-- What all steps keep holds throughout every run. -/
theorem throughout_of_invariant (hkeep : ∀ s e s', I s → step s e = some s' → I s')
    (hQ : ∀ s, I s → Q s) {s : σ} (hs : I s) (es : List ε) : Throughout step Q s es := by
  induction es generalizing s with
  | nil => exact hQ s hs
  | cons e es ih =>
      refine ⟨hQ s hs, ?_⟩
      cases hstep : step s e with
      | none => trivial
      | some s' => exact ih (hkeep s e s' hs hstep)

end

end Supernova
