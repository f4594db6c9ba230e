/-
Substitution of all matches of a pattern in one pass from left to right.  The pattern is
given by what it matches at the front of a text.
-/
import Mathlib.Data.List.Infix

namespace Supernova

variable {α : Type*}

/-- `step` gives the match at the front of a text with what it is replaced by; `skip`
characters still belong to the last match. -/
def substituteFrom (step : List α → Option (List α × List α)) : Nat → List α → List α
  | _, [] => []
  | skip + 1, _ :: s => substituteFrom step skip s
  | 0, c :: s =>
      match step (c :: s) with
      | some (matched, replacement) =>
          replacement ++ substituteFrom step (matched.length - 1) s
      | none => c :: substituteFrom step 0 s

def substituteMatches (step : List α → Option (List α × List α)) (s : List α) : List α :=
  substituteFrom step 0 s

section Substitute

variable {step : List α → Option (List α × List α)}

@[simp] theorem substituteMatches_nil : substituteMatches step [] = [] := rfl

theorem substituteFrom_append (skipped s : List α) :
    substituteFrom step skipped.length (skipped ++ s) = substituteMatches step s := by
  induction skipped with
  | nil => rfl
  | cons c skipped ih => exact ih

theorem substituteMatches_of_match {matched replacement rest : List α} (hmatched : matched ≠ [])
    (h : step (matched ++ rest) = some (matched, replacement)) :
    substituteMatches step (matched ++ rest) = replacement ++ substituteMatches step rest := by
  obtain ⟨c, tail, rfl⟩ := List.exists_cons_of_ne_nil hmatched
  rw [List.cons_append] at h ⊢
  rw [substituteMatches, substituteFrom, h]
  simp only [List.length_cons, Nat.add_sub_cancel]
  rw [substituteFrom_append]

theorem substituteMatches_cons_of_none {c : α} {s : List α} (h : step (c :: s) = none) :
    substituteMatches step (c :: s) = c :: substituteMatches step s := by
  rw [substituteMatches, substituteFrom, h]
  rfl

/-- Characters at which no match begins are copied. -/
theorem substituteMatches_append_of_none {front s : List α}
    (h : ∀ back, back <:+ front → back ≠ [] → step (back ++ s) = none) :
    substituteMatches step (front ++ s) = front ++ substituteMatches step s := by
  induction front with
  | nil => rfl
  | cons c front ih =>
      rw [List.cons_append, substituteMatches_cons_of_none, List.cons_append, ih]
      · intro back hback hne
        exact h back (hback.trans (List.suffix_cons c front)) hne
      · exact h (c :: front) List.suffix_rfl (List.cons_ne_nil _ _)

end Substitute

end Supernova
