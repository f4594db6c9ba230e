/-
Loops whose body may give up: what every turn keeps, what two loops over the same list
keep between them, and when a loop comes to its end.
-/
import Mathlib.Data.Option.Basic

namespace Supernova

universe u v w

variable {α : Type w} {σ : Type u} {τ : Type v} {as : List α}

/-- What every turn that succeeds keeps, the loop keeps. -/
theorem loop_keeps {f : σ → α → Option σ} {I : σ → Prop}
    (h : ∀ a ∈ as, ∀ s s', I s → f s a = some s' → I s') {s s' : σ} (hs : I s)
    (hloop : as.foldlM f s = some s') : I s' := by
  induction as generalizing s with
  | nil =>
      rw [List.foldlM_nil] at hloop
      cases hloop
      exact hs
  | cons a as ih =>
      rw [List.foldlM_cons] at hloop
      obtain ⟨s₁, hhead, htail⟩ := Option.bind_eq_some_iff.mp hloop
      exact ih (fun b hb => h b (List.mem_cons_of_mem _ hb))
        (h a List.mem_cons_self s s₁ hs hhead) htail

/-- Two loops whose turns stay related stay related, and give up together. -/
theorem loop_relates {f : σ → α → Option σ} {g : τ → α → Option τ} {R : σ → τ → Prop}
    (h : ∀ a ∈ as, ∀ s t, R s t → Option.Rel R (f s a) (g t a)) {s : σ} {t : τ} (hst : R s t) :
    Option.Rel R (as.foldlM f s) (as.foldlM g t) := by
  induction as generalizing s t with
  | nil => exact .some hst
  | cons a as ih =>
      rw [List.foldlM_cons, List.foldlM_cons]
      have hhead := h a List.mem_cons_self s t hst
      revert hhead
      rcases f s a with _ | s₁
      · rcases g t a with _ | t₁
        · exact fun _ => .none
        · rintro ⟨⟩
      · rcases g t a with _ | t₁
        · rintro ⟨⟩
        · rintro (hrelated | _)
          exact ih (fun b hb => h b (List.mem_cons_of_mem _ hb)) hrelated

/-- A loop each of whose turns succeeds comes to its end; the invariant speaks of the
turns behind it. -/
theorem loop_succeeds (as : List α) {f : σ → α → Option σ} {I : List α → σ → Prop}
    (h : ∀ done a rest s, as = done ++ a :: rest → I done s →
      ∃ s', f s a = some s' ∧ I (done ++ [a]) s') {s : σ} (hs : I [] s) :
    ∃ s', as.foldlM f s = some s' ∧ I as s' := by
  have hfrom : ∀ rest done s, as = done ++ rest → I done s →
      ∃ s', rest.foldlM f s = some s' ∧ I as s' := by
    intro rest
    induction rest with
    | nil =>
        intro done s has hI
        rw [List.append_nil] at has
        exact ⟨s, rfl, has ▸ hI⟩
    | cons a rest ih =>
        intro done s has hI
        obtain ⟨s₁, hhead, hI₁⟩ := h done a rest s has hI
        obtain ⟨s', htail, hI'⟩ := ih (done ++ [a]) s₁ (by rw [has, List.append_assoc]; rfl) hI₁
        refine ⟨s', ?_, hI'⟩
        rw [List.foldlM_cons]
        exact Option.bind_eq_some_iff.mpr ⟨s₁, hhead, htail⟩
  exact hfrom as [] s rfl hs

/-- The same where the turns need no invariant. -/
theorem loop_ends {f : σ → α → Option σ} (h : ∀ a ∈ as, ∀ s, ∃ s', f s a = some s') (s : σ) :
    ∃ s', as.foldlM f s = some s' := by
  obtain ⟨s', hloop, -⟩ := loop_succeeds as (f := f) (I := fun _ _ => True)
    (fun done a rest s has _ => by
      obtain ⟨s', hs'⟩ := h a (by rw [has]; simp) s
      exact ⟨s', hs', trivial⟩) (s := s) trivial
  exact ⟨s', hloop⟩

end Supernova
