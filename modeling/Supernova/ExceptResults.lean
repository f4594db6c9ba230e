/-
What a computation that may fail has done when it succeeds: sequencing,
returning, and collecting the results of one call for each member of a list.
Then the same for computations on a state, which a failure leaves as it is then.
-/
import Mathlib.Data.List.Forall2

namespace Supernova

universe u

variable {ε : Type*} {α β : Type u}

theorem except_bind_eq_ok {x : Except ε α} {f : α → Except ε β} {b : β} :
    (x >>= f) = .ok b ↔ ∃ a, x = .ok a ∧ f a = .ok b := by
  cases x <;> simp [bind, Except.bind]

theorem except_pure_eq_ok {a b : α} : (pure a : Except ε α) = .ok b ↔ a = b := by
  simp [pure, Except.pure]

@[simp] theorem except_throw_eq_ok {e : ε} {a : α} :
    (throw e : Except ε α) = .ok a ↔ False := by
  simp [throw, throwThe, MonadExceptOf.throw]

theorem except_map_eq_ok {x : Except ε α} {f : α → β} {b : β} :
    x.map f = .ok b ↔ ∃ a, x = .ok a ∧ f a = b := by
  cases x <;> simp [Except.map]

/-- Collecting results in order succeeds exactly when every call succeeds. -/
theorem mapM_eq_ok {f : α → Except ε β} {as : List α} {bs : List β} :
    as.mapM f = .ok bs ↔ List.Forall₂ (fun a b => f a = .ok b) as bs := by
  induction as generalizing bs with
  | nil => cases bs <;> simp [except_pure_eq_ok]
  | cons a as ih =>
      simp only [List.mapM_cons, except_bind_eq_ok, except_pure_eq_ok]
      constructor
      · rintro ⟨b, hb, tail, htail, rfl⟩
        exact List.Forall₂.cons hb (ih.mp htail)
      · intro h
        cases h with
        | cons hhead htail => exact ⟨_, hhead, _, ih.mpr htail, rfl⟩

/-- A call that checks its argument and then computes, over a whole list. -/
theorem mapM_eq_ok_of_check {f : α → Except ε β} {check : α → Prop} {g : α → β}
    (h : ∀ a b, f a = .ok b ↔ check a ∧ g a = b) {as : List α} {bs : List β} :
    as.mapM f = .ok bs ↔ (∀ a ∈ as, check a) ∧ as.map g = bs := by
  rw [mapM_eq_ok]
  induction as generalizing bs with
  | nil => cases bs <;> simp
  | cons a as ih =>
      cases bs with
      | nil => simp
      | cons b bs =>
          rw [List.forall₂_cons, h, ih]
          simp only [List.forall_mem_cons, List.map_cons, List.cons.injEq]
          tauto

/-- The collection succeeds exactly when every call does. -/
theorem exists_mapM_eq_ok {f : α → Except ε β} {check : α → Prop}
    (h : ∀ a, (∃ b, f a = .ok b) ↔ check a) {as : List α} :
    (∃ bs, as.mapM f = .ok bs) ↔ ∀ a ∈ as, check a := by
  simp only [mapM_eq_ok]
  induction as with
  | nil => simp
  | cons a as ih =>
      rw [List.forall_mem_cons, ← h a, ← ih]
      constructor
      · rintro ⟨bs, hbs⟩
        cases hbs with
        | cons hhead htail => exact ⟨⟨_, hhead⟩, _, htail⟩
      · rintro ⟨⟨b, hb⟩, bs, hbs⟩
        exact ⟨b :: bs, hbs.cons hb⟩

theorem exists_of_mem_forall₂ {R : α → β → Prop} {as : List α} {bs : List β}
    (h : List.Forall₂ R as bs) {b : β} (hb : b ∈ bs) : ∃ a ∈ as, R a b := by
  induction h with
  | nil => cases hb
  | cons hhead _ ih =>
      rcases List.mem_cons.mp hb with rfl | hb
      · exact ⟨_, List.mem_cons_self, hhead⟩
      · obtain ⟨a, ha, hR⟩ := ih hb
        exact ⟨a, List.mem_cons_of_mem _ ha, hR⟩

theorem source_of_mem_mapM {f : α → Except ε β} {as : List α} {bs : List β}
    (h : as.mapM f = .ok bs) {b : β} (hb : b ∈ bs) : ∃ a ∈ as, f a = .ok b :=
  exists_of_mem_forall₂ (mapM_eq_ok.1 h) hb

/-- What each result measures is known from its argument. -/
theorem map_of_mapM_eq_ok {γ : Type*} {f : α → Except ε β} {measure : β → γ} {size : α → γ}
    (h : ∀ a b, f a = .ok b → measure b = size a) {as : List α} {bs : List β}
    (hbs : as.mapM f = .ok bs) : bs.map measure = as.map size := by
  rw [mapM_eq_ok] at hbs
  induction hbs with
  | nil => rfl
  | cons hhead _ ih => rw [List.map_cons, List.map_cons, h _ _ hhead, ih]

/-- A loop of checks succeeds exactly when every check does. -/
theorem forM_eq_ok {f : α → Except ε PUnit} {as : List α} {u : PUnit} :
    as.forM f = .ok u ↔ ∀ a ∈ as, f a = .ok ⟨⟩ := by
  induction as with
  | nil => simp [except_pure_eq_ok]
  | cons a as ih =>
      rw [List.forall_mem_cons, ← ih]
      change (f a >>= fun _ => as.forM f) = .ok u ↔ _
      rw [except_bind_eq_ok]
      constructor
      · rintro ⟨_, hhead, htail⟩
        exact ⟨hhead, htail⟩
      · rintro ⟨hhead, htail⟩
        exact ⟨_, hhead, htail⟩

/-- What every successful call keeps, a successful loop keeps. -/
theorem foldlM_keeps {σ : Type u} {f : σ → α → Except ε σ} {I : σ → Prop}
    (h : ∀ s a s', I s → f s a = .ok s' → I s') {as : List α} {s s' : σ} (hs : I s)
    (hfold : as.foldlM f s = .ok s') : I s' := by
  induction as generalizing s with
  | nil =>
      rw [List.foldlM_nil] at hfold
      exact except_pure_eq_ok.1 hfold ▸ hs
  | cons a as ih =>
      rw [List.foldlM_cons] at hfold
      obtain ⟨s₁, hhead, htail⟩ := except_bind_eq_ok.1 hfold
      exact ih (h s a s₁ hs hhead) htail

section Stateful

variable {ε σ α β : Type u} {p : EStateM ε σ α} {f : α → EStateM ε σ β} {s s' : σ}

theorem estate_bind_eq_ok {b : β} : (p >>= f) s = .ok b s' ↔
    ∃ a s₁, p s = .ok a s₁ ∧ f a s₁ = .ok b s' := by
  simp only [bind, EStateM.bind]
  rcases p s with ⟨a, s₁⟩ | ⟨error, s₁⟩
  · constructor
    · exact fun h => ⟨a, s₁, rfl, h⟩
    · rintro ⟨_, _, heq, h⟩
      cases heq
      exact h
  · simp

/-- A sequence fails in its first part, or in its second after the first. -/
theorem estate_bind_eq_error {error : ε} : (p >>= f) s = .error error s' ↔
    p s = .error error s' ∨ ∃ a s₁, p s = .ok a s₁ ∧ f a s₁ = .error error s' := by
  simp only [bind, EStateM.bind]
  rcases p s with ⟨a, s₁⟩ | ⟨error', s₁⟩
  · constructor
    · exact fun h => .inr ⟨a, s₁, rfl, h⟩
    · rintro (heq | ⟨_, _, heq, h⟩)
      · cases heq
      · cases heq
        exact h
  · simp

@[simp] theorem estate_pure_eq_ok {a b : α} :
    (pure a : EStateM ε σ α) s = .ok b s' ↔ a = b ∧ s = s' := by
  change EStateM.Result.ok a s = .ok b s' ↔ _
  simp

@[simp] theorem estate_pure_eq_error {a : α} {error : ε} :
    (pure a : EStateM ε σ α) s = .error error s' ↔ False := by
  change EStateM.Result.ok a s = .error error s' ↔ _
  simp

@[simp] theorem estate_throw_eq_ok {error : ε} {a : α} :
    (throw error : EStateM ε σ α) s = .ok a s' ↔ False := by
  change EStateM.Result.error error s = .ok a s' ↔ _
  simp

@[simp] theorem estate_throw_eq_error {error error' : ε} :
    (throw error : EStateM ε σ α) s = .error error' s' ↔ error = error' ∧ s = s' := by
  change EStateM.Result.error error s = .error error' s' ↔ _
  simp

@[simp] theorem estate_get_eq_ok {s₁ : σ} :
    (get : EStateM ε σ σ) s = .ok s₁ s' ↔ s = s₁ ∧ s = s' := by
  change EStateM.Result.ok s s = .ok s₁ s' ↔ _
  simp

@[simp] theorem estate_get_eq_error {error : ε} :
    (get : EStateM ε σ σ) s = .error error s' ↔ False := by
  change EStateM.Result.ok s s = .error error s' ↔ _
  simp

@[simp] theorem estate_set_eq_ok {s₁ : σ} {u : PUnit} :
    (set s₁ : EStateM ε σ PUnit) s = .ok u s' ↔ s₁ = s' := by
  change EStateM.Result.ok PUnit.unit s₁ = .ok u s' ↔ _
  simp

@[simp] theorem estate_set_eq_error {s₁ : σ} {error : ε} :
    (set s₁ : EStateM ε σ PUnit) s = .error error s' ↔ False := by
  change EStateM.Result.ok PUnit.unit s₁ = .error error s' ↔ _
  simp

@[simp] theorem estate_modify_eq_ok {g : σ → σ} {u : PUnit} :
    (modify g : EStateM ε σ PUnit) s = .ok u s' ↔ g s = s' := by
  change EStateM.Result.ok PUnit.unit (g s) = .ok u s' ↔ _
  simp

@[simp] theorem estate_modify_eq_error {g : σ → σ} {error : ε} :
    (modify g : EStateM ε σ PUnit) s = .error error s' ↔ False := by
  change EStateM.Result.ok PUnit.unit (g s) = .error error s' ↔ _
  simp

theorem estate_ofExcept_eq_ok {result : Except ε α} {a : α} :
    (ofExcept result : EStateM ε σ α) s = .ok a s' ↔ result = .ok a ∧ s = s' := by
  rcases result with error | value
  · change EStateM.Result.error error s = .ok a s' ↔ _
    simp
  · change EStateM.Result.ok value s = .ok a s' ↔ _
    simp

/-- What every successful turn keeps, a successful loop keeps. -/
theorem forM_keeps {step : α → EStateM ε σ PUnit} {I : σ → Prop} {as : List α}
    (h : ∀ a ∈ as, ∀ s u s', I s → step a s = .ok u s' → I s') {u : PUnit} (hs : I s)
    (hrun : as.forM step s = .ok u s') : I s' := by
  induction as generalizing s with
  | nil =>
      exact (estate_pure_eq_ok.1 hrun).2 ▸ hs
  | cons a as ih =>
      rw [List.forall_mem_cons] at h
      obtain ⟨u, s₁, hhead, htail⟩ := estate_bind_eq_ok.1 hrun
      exact ih h.2 (h.1 s u s₁ hs hhead) htail

/-- A loop whose turns each add to a view of the state adds everything in order. -/
theorem forM_appends {τ : Type*} {view : σ → List τ} {added : α → List τ}
    {step : α → EStateM ε σ PUnit} {as : List α}
    (h : ∀ a ∈ as, ∀ s u s', step a s = .ok u s' → view s' = view s ++ added a) {u : PUnit}
    (hrun : as.forM step s = .ok u s') : view s' = view s ++ as.flatMap added := by
  induction as generalizing s with
  | nil =>
      rw [(estate_pure_eq_ok.1 hrun).2, List.flatMap_nil, List.append_nil]
  | cons a as ih =>
      rw [List.forall_mem_cons] at h
      obtain ⟨u, s₁, hhead, htail⟩ := estate_bind_eq_ok.1 hrun
      rw [ih h.2 htail, h.1 s u s₁ hhead, List.flatMap_cons, List.append_assoc]

/-- A loop follows another, turn by turn, through a view of its state. -/
theorem forM_simulates {τ : Type u} {view : σ → τ} {step : α → EStateM ε σ PUnit}
    {step' : α → EStateM ε τ PUnit} {I : σ → Prop} {as : List α}
    (h : ∀ a ∈ as, ∀ s u s', I s → step a s = .ok u s' →
      I s' ∧ step' a (view s) = .ok u (view s'))
    {u : PUnit} (hs : I s) (hrun : as.forM step s = .ok u s') :
    I s' ∧ as.forM step' (view s) = .ok u (view s') := by
  induction as generalizing s with
  | nil =>
      obtain ⟨rfl, rfl⟩ := estate_pure_eq_ok.1 hrun
      exact ⟨hs, rfl⟩
  | cons a as ih =>
      rw [List.forall_mem_cons] at h
      obtain ⟨u, s₁, hhead, htail⟩ := estate_bind_eq_ok.1 hrun
      obtain ⟨hs₁, hhead'⟩ := h.1 s u s₁ hs hhead
      obtain ⟨hs', htail'⟩ := ih h.2 hs₁ htail
      exact ⟨hs', estate_bind_eq_ok.2 ⟨u, view s₁, hhead', htail'⟩⟩

/-- The state that a call leaves behind, whether it returned or threw. -/
def stateAfter : EStateM.Result ε σ α → σ
  | .ok _ s => s
  | .error _ s => s

/-- A change of the state that either happens or fails and changes nothing. -/
def attempt (change : σ → Except ε σ) : EStateM ε σ PUnit := fun s =>
  match change s with
  | .ok s' => .ok ⟨⟩ s'
  | .error error => .error error s

theorem attempt_of_ok {change : σ → Except ε σ} (h : change s = .ok s') :
    attempt change s = .ok ⟨⟩ s' := by
  rw [attempt, h]

theorem attempt_of_error {change : σ → Except ε σ} {error : ε} (h : change s = .error error) :
    attempt change s = .error error s := by
  rw [attempt, h]

theorem attempt_eq_ok {change : σ → Except ε σ} {u : PUnit} :
    attempt change s = .ok u s' ↔ change s = .ok s' := by
  rcases h : change s with error | s₁
  · simp [attempt_of_error h]
  · simp [attempt_of_ok h]

theorem forM_attempt_eq_ok {change : α → σ → Except ε σ} {as : List α} {u : PUnit} :
    as.forM (fun a => attempt (change a)) s = .ok u s' ↔
      as.foldlM (fun s a => change a s) s = .ok s' := by
  induction as generalizing s with
  | nil =>
      rw [List.foldlM_nil, except_pure_eq_ok]
      exact Iff.trans estate_pure_eq_ok (and_iff_right rfl)
  | cons a as ih =>
      rw [List.foldlM_cons, except_bind_eq_ok]
      refine Iff.trans estate_bind_eq_ok ⟨?_, ?_⟩
      · rintro ⟨_, s₁, hchange, hrun⟩
        exact ⟨s₁, attempt_eq_ok.1 hchange, ih.mp hrun⟩
      · rintro ⟨s₁, hchange, hrun⟩
        exact ⟨⟨⟩, s₁, attempt_eq_ok.2 hchange, ih.mpr hrun⟩

/-- A loop of attempts makes its changes up to the first that fails. -/
theorem forM_attempt {change : α → σ → Except ε σ} (as : List α) (s : σ) :
    ∃ done rest s', as = done ++ rest ∧ done.foldlM (fun s a => change a s) s = .ok s' ∧
      (rest = [] ∧ as.forM (fun a => attempt (change a)) s = .ok ⟨⟩ s' ∨
        ∃ a later error, rest = a :: later ∧ change a s' = .error error ∧
          as.forM (fun a => attempt (change a)) s = .error error s') := by
  induction as generalizing s with
  | nil => exact ⟨[], [], s, rfl, rfl, .inl ⟨rfl, rfl⟩⟩
  | cons a as ih =>
      rcases hchange : change a s with error | s₁
      · refine ⟨[], a :: as, s, rfl, rfl, .inr ⟨a, as, error, rfl, hchange, ?_⟩⟩
        exact estate_bind_eq_error.2 (.inl (attempt_of_error hchange))
      · have hrun : (a :: as).forM (fun a => attempt (change a)) s =
            as.forM (fun a => attempt (change a)) s₁ := by
          change ((attempt (change a)) >>= fun _ => as.forM fun a => attempt (change a)) s = _
          simp only [bind, EStateM.bind, attempt_of_ok hchange]
        obtain ⟨done, rest, s', heq, hdone, hend⟩ := ih s₁
        refine ⟨a :: done, rest, s', by rw [heq, List.cons_append], ?_, by rwa [hrun]⟩
        rw [List.foldlM_cons, hchange]
        exact hdone

end Stateful

end Supernova
