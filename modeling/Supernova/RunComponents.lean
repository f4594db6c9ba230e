/-
What a component goes through in a run of the system that it is part of: the steps
that leave the component alone are left out, and the others are a run of its own.
-/
import Mathlib.Data.Nat.Nth
import Supernova.FairRuns

namespace Supernova

variable {σ τ ε δ : Type*}

/-- A component of a system, with the step of its own that a step of the system is, if any. -/
structure Component (step : σ → ε → Option σ) (partStep : τ → δ → Option τ) where
  part : σ → τ
  event? : σ → ε → Option δ
  stays : ∀ {s e s'}, step s e = some s' → event? s e = none → part s' = part s
  acts : ∀ {s e s' d}, step s e = some s' → event? s e = some d →
    partStep (part s) d = some (part s')

namespace Component

variable {step : σ → ε → Option σ} {partStep : τ → δ → Option τ}
  (c : Component step partStep) (x : Execution step)

/-- The component takes a step at this point. -/
def Acts (n : ℕ) : Prop := (c.event? (x.state n) (x.event n)).isSome = true

instance : DecidablePred (c.Acts x) := fun _ => instDecidableEqBool _ true

variable {c x}

/-- What the steps of the component keep holds of it throughout the run. -/
theorem invariant {I : τ → Prop} (hkeep : ∀ t d t', I t → partStep t d = some t' → I t')
    (hinit : I (c.part (x.state 0))) (n : ℕ) : I (c.part (x.state n)) := by
  refine x.invariant (I := fun s => I (c.part s)) ?_ hinit n
  intro s e s' h hstep
  cases hevent : c.event? s e with
  | none =>
      rw [c.stays hstep hevent]
      exact h
  | some d => exact hkeep _ d _ h (c.acts hstep hevent)

theorem infinite_of_recurs (h : Recurs (c.Acts x)) : (Set.ofPred (c.Acts x)).Infinite := by
  rw [Set.infinite_iff_exists_gt]
  intro n
  obtain ⟨m, hm, hacts⟩ := h (n + 1)
  exact ⟨m, hacts, hm⟩

theorem part_eq_of_idle {n m : ℕ} (hnm : n ≤ m) (hidle : ∀ k, n ≤ k → k < m → ¬ c.Acts x k) :
    c.part (x.state m) = c.part (x.state n) := by
  induction m, hnm using Nat.le_induction with
  | base => rfl
  | succ m hnm ih =>
      have hlast := c.stays (x.step_state m)
        (Option.not_isSome_iff_eq_none.mp (hidle m hnm (Nat.lt_succ_self m)))
      rw [hlast]
      exact ih fun k hk hkm => hidle k hk (Nat.lt_succ_of_lt hkm)

/-- The component is the same until its next step. -/
theorem part_next (h : Recurs (c.Acts x)) (n : ℕ) :
    c.part (x.state (Nat.nth (c.Acts x) (Nat.count (c.Acts x) n))) = c.part (x.state n) := by
  have hinfinite := infinite_of_recurs h
  refine part_eq_of_idle (Nat.le_nth_count hinfinite n) ?_
  intro k hk hlt hacts
  rw [← Nat.nth_count hacts, Nat.nth_lt_nth hinfinite] at hlt
  exact absurd (Nat.count_monotone (c.Acts x) hk) (not_le.mpr hlt)

theorem acts_nth (h : Recurs (c.Acts x)) (k : ℕ) : c.Acts x (Nat.nth (c.Acts x) k) :=
  Nat.nth_mem_of_infinite (infinite_of_recurs h) k

/-- The run of the component. -/
noncomputable def execution (h : Recurs (c.Acts x)) : Execution partStep where
  state k := c.part (x.state (Nat.nth (c.Acts x) k))
  event k := (c.event? _ _).get (acts_nth h k)
  step_state k := by
    have hstep := c.acts (x.step_state (Nat.nth (c.Acts x) k)) (Option.some_get (acts_nth h k)).symm
    have hnext := part_next h (Nat.nth (c.Acts x) k + 1)
    rw [Nat.count_succ, if_pos (acts_nth h k), Nat.count_nth_of_infinite (infinite_of_recurs h)]
      at hnext
    rw [hstep, hnext]

variable (h : Recurs (c.Acts x))

theorem execution_state_zero : (execution h).state 0 = c.part (x.state 0) := by
  have hnext := part_next h 0
  rwa [Nat.count_zero] at hnext

/-- Every point of the run is one of the run of the component, and the later ones there are
later here. -/
theorem exists_index (n : ℕ) : ∃ k, (execution h).state k = c.part (x.state n) ∧
    ∀ k', k ≤ k' → ∃ m, n ≤ m ∧ (execution h).state k' = c.part (x.state m) := by
  refine ⟨Nat.count (c.Acts x) n, part_next h n, ?_⟩
  intro k' hk'
  have hinfinite := infinite_of_recurs h
  exact ⟨_, (Nat.le_nth_count hinfinite n).trans (Nat.nth_monotone hinfinite hk'), rfl⟩

/-- Steps of a kind that recur in the system recur in the component. -/
theorem recurs_event {Q : δ → Prop}
    (hQ : Recurs fun n => ∃ d, c.event? (x.state n) (x.event n) = some d ∧ Q d) :
    Recurs fun k => Q ((execution h).event k) := by
  intro k
  obtain ⟨n, hn, d, hevent, hd⟩ := hQ (Nat.nth (c.Acts x) k)
  have hacts : c.Acts x n := Option.isSome_iff_exists.mpr ⟨d, hevent⟩
  refine ⟨Nat.count (c.Acts x) n, ?_, ?_⟩
  · rw [← Nat.count_nth_of_infinite (infinite_of_recurs h) k]
    exact Nat.count_monotone _ hn
  · have hindex : Nat.nth (c.Acts x) (Nat.count (c.Acts x) n) = n := Nat.nth_count hacts
    have hsame : (execution h).event (Nat.count (c.Acts x) n) = d := by
      simp only [execution, hindex, hevent, Option.get_some]
    change Q _
    rw [hsame]
    exact hd

/-- What holds of the component throughout the run holds throughout its own. -/
theorem forall_state {Q : τ → Prop} (hQ : ∀ n, Q (c.part (x.state n))) (k : ℕ) :
    Q ((execution h).state k) :=
  hQ _

end Component

end Supernova
