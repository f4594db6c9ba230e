/-
Infinite runs of a step function, and what one kind of state leads to in them.
Fairness is what a run is assumed to do again and again; progress comes from a
variant that every step keeps from growing and a fair step makes smaller.
-/
import Mathlib.Data.List.GetD
import Mathlib.Data.Nat.Basic
import Supernova.Trace

namespace Supernova

variable {σ ε : Type*}

/-- An infinite run, with the states that it passes and the events between them. -/
structure Execution (step : σ → ε → Option σ) where
  state : ℕ → σ
  event : ℕ → ε
  step_state : ∀ n, step (state n) (event n) = some (state (n + 1))

/-- From every later point on, something of this kind still happens. -/
def Recurs (P : ℕ → Prop) : Prop := ∀ n, ∃ m, n ≤ m ∧ P m

/-- Whenever `P` holds, `Q` holds then or later. -/
def LeadsTo (P Q : ℕ → Prop) : Prop := ∀ n, P n → ∃ m, n ≤ m ∧ Q m

namespace LeadsTo

variable {P P' Q R : ℕ → Prop}

theorem of_imp (h : ∀ n, P n → Q n) : LeadsTo P Q := by
  intro n hP
  exact ⟨n, le_rfl, h n hP⟩

theorem trans (h : LeadsTo P Q) (h' : LeadsTo Q R) : LeadsTo P R := by
  intro n hP
  obtain ⟨m, hm, hQ⟩ := h n hP
  obtain ⟨k, hk, hR⟩ := h' m hQ
  exact ⟨k, Nat.le_trans hm hk, hR⟩

theorem or (h : LeadsTo P R) (h' : LeadsTo P' R) : LeadsTo (fun n => P n ∨ P' n) R := by
  intro n hP
  rcases hP with hP | hP
  · exact h n hP
  · exact h' n hP

/-- A way on from `Q` that may also end in what is wanted. -/
theorem trans_or (h : LeadsTo P fun n => R n ∨ Q n) (h' : LeadsTo Q R) : LeadsTo P R :=
  h.trans ((of_imp fun _ hR => hR).or h')

/-- Progress from each value of a variant to a smaller one goes on to the end. -/
theorem of_decreasing (f : ℕ → ℕ)
    (h : ∀ k, LeadsTo (fun n => P n ∧ f n = k) fun n => Q n ∨ P n ∧ f n < k) :
    LeadsTo P Q := by
  intro n hP
  induction hk : f n using Nat.strongRecOn generalizing n with
  | ind k ih =>
      obtain ⟨m, hm, hQ | ⟨hP', hlt⟩⟩ := h k n ⟨hP, hk⟩
      · exact ⟨m, hm, hQ⟩
      · obtain ⟨m', hm', hQ⟩ := ih (f m) hlt m hP' rfl
        exact ⟨m', Nat.le_trans hm hm', hQ⟩

/-- The condition stays, with a variant that does not grow, until what is wanted happens. -/
theorem stays {f : ℕ → ℕ}
    (hkeep : ∀ n, P n → Q (n + 1) ∨ P (n + 1) ∧ f (n + 1) ≤ f n) {n m : ℕ} (hnm : n ≤ m)
    (hP : P n) : (∃ k, n ≤ k ∧ Q k) ∨ P m ∧ f m ≤ f n := by
  induction m, hnm using Nat.le_induction with
  | base => exact .inr ⟨hP, le_rfl⟩
  | succ m hnm ih =>
      rcases ih with hQ | ⟨hPm, hle⟩
      · exact .inl hQ
      · rcases hkeep m hPm with hQ | ⟨hP', hle'⟩
        · exact .inl ⟨m + 1, Nat.le_succ_of_le hnm, hQ⟩
        · exact .inr ⟨hP', Nat.le_trans hle' hle⟩

/-- What every step keeps and a recurring step brings nearer is reached. -/
theorem of_variant {A : ℕ → Prop} (f : ℕ → ℕ)
    (hkeep : ∀ n, P n → Q (n + 1) ∨ P (n + 1) ∧ f (n + 1) ≤ f n)
    (hact : ∀ n, P n → A n → Q (n + 1) ∨ P (n + 1) ∧ f (n + 1) < f n) (hfair : Recurs A) :
    LeadsTo P Q := by
  refine of_decreasing f fun k n hn => ?_
  obtain ⟨m, hnm, hA⟩ := hfair n
  rcases stays hkeep hnm hn.1 with ⟨j, hj, hQ⟩ | ⟨hPm, hle⟩
  · exact ⟨j, hj, .inl hQ⟩
  · rcases hact m hPm hA with hQ | ⟨hP', hlt⟩
    · exact ⟨m + 1, Nat.le_succ_of_le hnm, .inl hQ⟩
    · exact ⟨m + 1, Nat.le_succ_of_le hnm, .inr ⟨hP', by omega⟩⟩

/-- While something lasts its variant does not grow, and a step that a strongly fair
scheduler takes makes it smaller: it comes to an end. -/
theorem ends {A E : ℕ → Prop} (f : ℕ → ℕ) (hkeep : ∀ n, P n → f (n + 1) ≤ f n)
    (hact : ∀ n, P n → A n → f (n + 1) < f n) (hable : LeadsTo P fun n => ¬ P n ∨ E n)
    (hfair : Recurs E → Recurs A) : LeadsTo P fun n => ¬ P n := by
  intro n hP
  by_contra hnever
  push Not at hnever
  -- It would last for ever, so the step would be possible again and again.
  have hrecurs : Recurs E := by
    intro k
    obtain ⟨m, hm, hends | hE⟩ := hable (max n k) (hnever _ (Nat.le_max_left n k))
    · exact absurd (hnever m (Nat.le_trans (Nat.le_max_left n k) hm)) hends
    · exact ⟨m, Nat.le_trans (Nat.le_max_right n k) hm, hE⟩
  have hleads : LeadsTo P fun n => ¬ P n := by
    refine of_variant f ?_ ?_ (hfair hrecurs)
    · intro m hm
      by_cases hnext : P (m + 1)
      · exact .inr ⟨hnext, hkeep m hm⟩
      · exact .inl hnext
    · intro m hm hA
      by_cases hnext : P (m + 1)
      · exact .inr ⟨hnext, hact m hm hA⟩
      · exact .inl hnext
  obtain ⟨m, hm, hends⟩ := hleads n hP
  exact hends (hnever m hm)

/-- What comes to an end lasts up to a point and not beyond. -/
theorem exists_last (h : LeadsTo P fun n => ¬ P n) {n : ℕ} (hP : P n) :
    ∃ m, n ≤ m ∧ (∀ k, n ≤ k → k ≤ m → P k) ∧ ¬ P (m + 1) := by
  obtain ⟨j, hj, hends⟩ := h n hP
  have hlasts : ∀ j, n ≤ j → (∀ k, n ≤ k → k ≤ j → P k) ∨
      ∃ m, n ≤ m ∧ (∀ k, n ≤ k → k ≤ m → P k) ∧ ¬ P (m + 1) := by
    intro j hj
    induction j, hj using Nat.le_induction with
    | base => exact .inl fun k hnk hkn => Nat.le_antisymm hnk hkn ▸ hP
    | succ j hj ih =>
        rcases ih with hbefore | hlast
        · by_cases hnext : P (j + 1)
          · refine .inl fun k hnk hk => ?_
            rcases Nat.le_or_eq_of_le_succ hk with hk | rfl
            · exact hbefore k hnk hk
            · exact hnext
          · exact .inr ⟨j, hj, hbefore, hnext⟩
        · exact .inr hlast
  exact (hlasts j hj).resolve_left fun hbefore => hends (hbefore j hj le_rfl)

/-- What stays once it has come has come for all of finitely many in the end. -/
theorem all {ι : Type*} {Q : ι → ℕ → Prop} (indices : List ι)
    (hP : ∀ n, P n → P (n + 1)) (hQ : ∀ i n, P n → Q i n → Q i (n + 1))
    (h : ∀ i ∈ indices, LeadsTo P (Q i)) : LeadsTo P fun n => P n ∧ ∀ i ∈ indices, Q i n := by
  induction indices with
  | nil => exact of_imp fun n hn => ⟨hn, fun i hi => absurd hi List.not_mem_nil⟩
  | cons i indices ih =>
      intro n hn
      obtain ⟨m, hm, hPm, hall⟩ := ih (fun j hj => h j (List.mem_cons_of_mem i hj)) n hn
      obtain ⟨k, hk, hi⟩ := h i List.mem_cons_self m hPm
      have hlater : ∀ d, P (m + d) ∧ ∀ j ∈ indices, Q j (m + d) := by
        intro d
        induction d with
        | zero => exact ⟨hPm, hall⟩
        | succ d ihd => exact ⟨hP _ ihd.1, fun j hj => hQ j _ ihd.1 (ihd.2 j hj)⟩
      obtain ⟨d, rfl⟩ := Nat.exists_eq_add_of_le hk
      refine ⟨m + d, Nat.le_trans hm hk, (hlater d).1, fun j hj => ?_⟩
      rcases List.mem_cons.mp hj with rfl | hj
      · exact hi
      · exact (hlater d).2 j hj

end LeadsTo

namespace Execution

variable {step : σ → ε → Option σ}

theorem run_range_succ (s : σ) (event : ℕ → ε) (n : ℕ) :
    run step s ((List.range (n + 1)).map event) =
      (run step s ((List.range n).map event)).bind fun s' => step s' (event n) := by
  rw [List.range_succ, List.map_append, List.map_singleton]
  generalize (List.range n).map event = events
  induction events generalizing s with
  | nil => cases hstep : step s (event n) <;> simp [run, hstep]
  | cons e events ih =>
      rw [List.cons_append, run, run]
      cases step s e with
      | none => rfl
      | some s' => exact ih s'

/-- The first steps of an execution are a run. -/
theorem run_events (x : Execution step) (n : ℕ) :
    run step (x.state 0) ((List.range n).map x.event) = some (x.state n) := by
  induction n with
  | zero => rfl
  | succ n ih => rw [run_range_succ, ih, Option.bind_some, x.step_state n]

theorem step_of_isSome {s : σ} {event : ℕ → ε}
    (h : ∀ n, (run step s ((List.range n).map event)).isSome) (n : ℕ) :
    step ((run step s ((List.range n).map event)).get (h n)) (event n) =
      some ((run step s ((List.range (n + 1)).map event)).get (h (n + 1))) := by
  have hnext : run step s ((List.range (n + 1)).map event) = _ := run_range_succ s event n
  obtain ⟨s', hs'⟩ := Option.isSome_iff_exists.mp (h n)
  simp only [hs', Option.bind_some] at hnext
  simp only [hs', Option.get_some, ← hnext, Option.some_get]

/-- The run of a sequence of events all of which are allowed. -/
def ofEvents {s : σ} {event : ℕ → ε}
    (h : ∀ n, (run step s ((List.range n).map event)).isSome) : Execution step where
  state n := (run step s ((List.range n).map event)).get (h n)
  event := event
  step_state := step_of_isSome h

variable {s s' : σ} {es : List ε} {e : ε}

theorem map_getD_range (es : List ε) (e : ε) :
    (List.range es.length).map (fun n => es.getD n e) = es :=
  List.ext_getElem (by simp) fun n _ hn => by simp [hn]

/-- Some events, and then one event for ever. -/
theorem run_settling (hrun : run step s es = some s') (hrest : step s' e = some s') (d : ℕ) :
    run step s ((List.range (es.length + d)).map fun n => es.getD n e) = some s' := by
  induction d with
  | zero =>
      rw [Nat.add_zero, map_getD_range]
      exact hrun
  | succ d ih =>
      rw [← Nat.add_assoc, run_range_succ, ih, Option.bind_some,
        List.getD_eq_default _ _ (Nat.le_add_right es.length d)]
      exact hrest

theorem isSome_of_isSome_add {event : ℕ → ε} (n d : ℕ)
    (h : (run step s ((List.range (n + d)).map event)).isSome) :
    (run step s ((List.range n).map event)).isSome := by
  induction d with
  | zero => exact h
  | succ d ih =>
      refine ih ?_
      rw [← Nat.add_assoc, run_range_succ] at h
      exact Option.isSome_of_isSome_bind h

theorem isSome_settling (hrun : run step s es = some s') (hrest : step s' e = some s') (n : ℕ) :
    (run step s ((List.range n).map fun n => es.getD n e)).isSome := by
  refine isSome_of_isSome_add n es.length ?_
  rw [Nat.add_comm, run_settling hrun hrest]
  rfl

/-- The run over some events that ends in a state which an event leaves alone, with that
event from then on. -/
def settling (hrun : run step s es = some s') (hrest : step s' e = some s') : Execution step :=
  ofEvents (isSome_settling hrun hrest)

theorem state_settling (hrun : run step s es = some s') (hrest : step s' e = some s') (d : ℕ) :
    (settling hrun hrest).state (es.length + d) = s' :=
  Option.some.inj ((Option.some_get _).trans (run_settling hrun hrest d))

theorem of_along {P : σ → ε → Prop} (x : Execution step) {n k : ℕ}
    (h : Along step P (x.state n) ((List.range k).map fun i => x.event (n + i))) {i : ℕ}
    (hi : i < k) : P (x.state (n + i)) (x.event (n + i)) := by
  induction k generalizing n i with
  | zero => exact absurd hi (Nat.not_lt_zero i)
  | succ k ih =>
      rw [List.range_succ_eq_map, List.map_cons, List.map_map, Along, Nat.add_zero,
        x.step_state n] at h
      cases i with
      | zero => exact h.1
      | succ i =>
          have hlater : Along step P (x.state (n + 1))
              ((List.range k).map fun i => x.event (n + 1 + i)) := by
            simpa only [Function.comp_def, Nat.succ_eq_add_one, Nat.add_assoc,
              Nat.add_comm 1] using h.2
          have hholds := ih hlater (Nat.lt_of_succ_lt_succ hi)
          rwa [Nat.add_assoc, Nat.add_comm 1] at hholds

/-- What holds along the first events, and of the last event, holds at every point. -/
theorem holds_settling {P : σ → ε → Prop} (hrun : run step s es = some s')
    (hrest : step s' e = some s') (halong : Along step P s es) (hlast : P s' e) (n : ℕ) :
    P ((settling hrun hrest).state n) ((settling hrun hrest).event n) := by
  rcases Nat.lt_or_ge n es.length with hlt | hge
  · rw [← Nat.zero_add n]
    refine (settling hrun hrest).of_along ?_ hlt
    simp only [Nat.zero_add]
    exact (map_getD_range es e).symm ▸ halong
  · obtain ⟨d, rfl⟩ := Nat.exists_eq_add_of_le hge
    have hevent : (settling hrun hrest).event (es.length + d) = e :=
      List.getD_eq_default _ _ hge
    rw [state_settling, hevent]
    exact hlast

/-- What all steps keep holds at every point. -/
theorem invariant {I : σ → Prop} (x : Execution step)
    (hkeep : ∀ s e s', I s → step s e = some s' → I s') (hinit : I (x.state 0)) (n : ℕ) :
    I (x.state n) :=
  run_invariant hkeep hinit (x.run_events n)

end Execution

end Supernova
