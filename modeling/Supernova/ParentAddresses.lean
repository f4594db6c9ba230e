/-
The address of a parent some levels up.  `elaborateParent` searches for dots
from the back, one for each level; what it returns is read here in the
components between the dots.
-/
import Supernova.ExceptResults
import Supernova.FormulaElaboration

namespace Supernova

namespace CalculatedVariables

/-- The last dot of an address, where there is one. -/
theorem exists_last_dot {input : Bytes} (h : dotByte ∈ input) :
    ∃ before after, input = before ++ dotByte :: after ∧ dotByte ∉ after := by
  rcases hfind : rfind dotByte input with _ | i
  · exact absurd h (rfind_eq_none_iff.1 hfind)
  · obtain ⟨before, after, hinput, hafter, -⟩ := rfind_eq_some_iff.1 hfind
    exact ⟨before, after, hinput, hafter⟩

theorem rfind_last_dot {after : Bytes} (before : Bytes) (hafter : dotByte ∉ after) :
    rfind dotByte (before ++ dotByte :: after) = some before.length :=
  rfind_eq_some_iff.2 ⟨before, after, rfl, hafter, rfl⟩

theorem rfind_take_le {input : Bytes} {k j : Nat} (h : rfind dotByte (input.take k) = some j) :
    j < k := by
  obtain ⟨before, after, htake, -, hj⟩ := rfind_eq_some_iff.1 h
  have hlength := congrArg List.length htake
  rw [List.length_take, List.length_append, List.length_cons] at hlength
  omega

/-- Searching on from an index is searching from the end of what stands up to
there.  The loop searches on from one index less in both. -/
theorem cutOffLoop_some (input : Bytes) (levels i : Nat) :
    cutOffLoop input (levels + 1) (some i) =
      cutOffLoop (input.take (i + 1)) (levels + 1) none := by
  induction levels generalizing input i with
  | zero => simp [cutOffLoop]
  | succ levels ih =>
      rw [cutOffLoop, cutOffLoop]
      rcases hfind : rfind dotByte (input.take (i + 1)) with _ | j
      · rfl
      · have hj := rfind_take_le hfind
        by_cases hzero : 0 < j
        · have htake : (input.take (i + 1)).take (j - 1 + 1) = input.take (j - 1 + 1) := by
            rw [List.take_take, min_eq_left (by omega)]
          simp only [Nat.succ_ne_zero, hzero, if_true, if_false]
          rw [ih, ih, htake]
        · simp only [Nat.succ_ne_zero, hzero, if_false]

/-- An index that the loop cuts at lies inside the address. -/
theorem exists_cutOffIndex {input : Bytes} {levels : Nat} {cutOffIndex : Option Nat}
    (h : cutOffLoop input (levels + 1) none = .ok cutOffIndex) :
    ∃ i, cutOffIndex = some i ∧ i < input.length := by
  induction levels generalizing input with
  | zero =>
      rw [cutOffLoop] at h
      rcases hfind : rfind dotByte input with _ | j
      · simp only [hfind] at h
        cases h
      · obtain ⟨before, after, rfl, -, rfl⟩ := rfind_eq_some_iff.1 hfind
        simp only [hfind, if_true, cutOffLoop] at h
        refine ⟨before.length, (except_pure_eq_ok.1 h).symm, ?_⟩
        rw [List.length_append, List.length_cons]
        omega
  | succ levels ih =>
      rw [cutOffLoop] at h
      rcases hfind : rfind dotByte input with _ | j
      · simp only [hfind] at h
        cases h
      · simp only [hfind, Nat.succ_ne_zero, if_false] at h
        by_cases hzero : 0 < j
        · rw [if_pos hzero, cutOffLoop_some] at h
          obtain ⟨i, hi, hlt⟩ := ih h
          exact ⟨i, hi, hlt.trans_le (List.length_take_le' _ _)⟩
        · rw [if_neg hzero] at h
          cases h

theorem elaborateParent_zero (input : Bytes) : elaborateParent input 0 = .ok input := by
  rw [elaborateParent, cutOffLoop]
  rfl

theorem elaborateParent_of_not_mem {input : Bytes} (h : dotByte ∉ input) (levels : Nat) :
    elaborateParent input (levels + 1) = .error (text "Not enough levels to go up!") := by
  have hfind := rfind_eq_none_iff.2 h
  rw [elaborateParent, cutOffLoop]
  simp only [hfind]
  rfl

/-- One level up is one component less. -/
theorem elaborateParent_append {after : Bytes} (before : Bytes) (hafter : dotByte ∉ after)
    (levels : Nat) :
    elaborateParent (before ++ dotByte :: after) (levels + 1) =
      elaborateParent before levels := by
  rw [elaborateParent, cutOffLoop]
  simp only [rfind_last_dot before hafter]
  rcases levels with _ | levels
  · rw [if_pos rfl, cutOffLoop, elaborateParent_zero]
    show Except.ok ((before ++ dotByte :: after).take before.length) = Except.ok before
    rw [List.take_left]
  · simp only [Nat.succ_ne_zero, if_false]
    by_cases hbefore : 0 < before.length
    · have htake : (before ++ dotByte :: after).take (before.length - 1 + 1) = before := by
        rw [Nat.sub_add_cancel hbefore, List.take_left]
      rw [if_pos hbefore, cutOffLoop_some, htake, elaborateParent]
      rcases hloop : cutOffLoop before (levels + 1) none with error | cutOffIndex
      · rfl
      · obtain ⟨i, rfl, hlt⟩ := exists_cutOffIndex hloop
        show Except.ok ((before ++ dotByte :: after).take i) = Except.ok (before.take i)
        rw [List.take_append_of_le_length hlt.le]
    · -- the dot is the first character and nothing is left to go up from
      have hnil : before = [] := List.eq_nil_of_length_eq_zero (by omega)
      rw [if_neg hbefore, hnil, elaborateParent_of_not_mem List.not_mem_nil]
      rfl

theorem splitOn_last_dot {after : Bytes} (before : Bytes) (hafter : dotByte ∉ after) :
    (before ++ dotByte :: after).splitOn dotByte = before.splitOn dotByte ++ [after] := by
  rw [List.splitOn_append_cons_self, List.splitOn_eq_singleton hafter]

theorem splitOn_dot_injective {input parent : Bytes}
    (h : input.splitOn dotByte = parent.splitOn dotByte) : input = parent := by
  have hjoined := congrArg [dotByte].intercalate h
  rwa [List.intercalate_splitOn, List.intercalate_splitOn] at hjoined

/-- What an address loses on the way up are its last components. -/
theorem elaborateParent_eq_ok_iff {input parent : Bytes} {levels : Nat} :
    elaborateParent input levels = .ok parent ↔
      ∃ removed, input.splitOn dotByte = parent.splitOn dotByte ++ removed ∧
        removed.length = levels := by
  induction levels generalizing input with
  | zero =>
      rw [elaborateParent_zero]
      constructor
      · intro h
        cases h
        exact ⟨[], (List.append_nil _).symm, rfl⟩
      · rintro ⟨removed, hsplit, hlength⟩
        rw [List.eq_nil_of_length_eq_zero hlength, List.append_nil] at hsplit
        rw [splitOn_dot_injective hsplit]
  | succ levels ih =>
      by_cases hdot : dotByte ∈ input
      · obtain ⟨before, after, rfl, hafter⟩ := exists_last_dot hdot
        rw [elaborateParent_append before hafter, splitOn_last_dot before hafter, ih]
        constructor
        · rintro ⟨removed, hsplit, hlength⟩
          refine ⟨removed ++ [after], ?_, by rw [List.length_append, hlength]; rfl⟩
          rw [hsplit, List.append_assoc]
        · rintro ⟨removed, hsplit, hlength⟩
          have hne : removed ≠ [] := List.ne_nil_of_length_eq_add_one hlength
          rw [← List.dropLast_append_getLast hne, ← List.append_assoc] at hsplit
          refine ⟨removed.dropLast, (List.append_inj' hsplit rfl).1, ?_⟩
          rw [List.length_dropLast, hlength, Nat.add_sub_cancel]
      · rw [elaborateParent_of_not_mem hdot]
        constructor
        · intro h
          cases h
        · rintro ⟨removed, hsplit, hlength⟩
          rw [List.splitOn_eq_singleton hdot] at hsplit
          have hparent := List.length_pos_of_ne_nil (List.splitOn_ne_nil dotByte parent)
          have hsum := congrArg List.length hsplit
          rw [List.length_append, hlength, List.length_singleton] at hsum
          omega

theorem elaborateParent_eq_error_iff {input : Bytes} {levels : Nat} :
    (∃ error, elaborateParent input levels = .error error) ↔
      input.count dotByte < levels := by
  induction levels generalizing input with
  | zero =>
      rw [elaborateParent_zero]
      constructor
      · rintro ⟨error, h⟩
        cases h
      · intro h
        omega
  | succ levels ih =>
      by_cases hdot : dotByte ∈ input
      · obtain ⟨before, after, rfl, hafter⟩ := exists_last_dot hdot
        rw [elaborateParent_append before hafter, ih, List.count_append, List.count_cons_self,
          List.count_eq_zero_of_not_mem hafter]
        omega
      · rw [elaborateParent_of_not_mem hdot, List.count_eq_zero_of_not_mem hdot]
        exact ⟨fun _ => Nat.succ_pos levels, fun _ => ⟨_, rfl⟩⟩

theorem elaborateParent_add (input : Bytes) (n m : Nat) :
    (elaborateParent input n >>= fun parent => elaborateParent parent m) =
      elaborateParent input (n + m) := by
  induction n generalizing input with
  | zero =>
      rw [elaborateParent_zero, Nat.zero_add]
      rfl
  | succ n ih =>
      rw [Nat.succ_add]
      by_cases hdot : dotByte ∈ input
      · obtain ⟨before, after, rfl, hafter⟩ := exists_last_dot hdot
        rw [elaborateParent_append before hafter, elaborateParent_append before hafter, ih]
      · rw [elaborateParent_of_not_mem hdot, elaborateParent_of_not_mem hdot]
        rfl

/-- The parent some levels up is the address without as many of its last
components; it exists when there are as many dots, and going up twice is going
up by the sum. -/
theorem parentAddresses :
    (∀ (input parent : Bytes) (levels : Nat),
      elaborateParent input levels = .ok parent ↔
        ∃ removed, input.splitOn dotByte = parent.splitOn dotByte ++ removed ∧
          removed.length = levels) ∧
    (∀ (input : Bytes) (levels : Nat),
      (∃ error, elaborateParent input levels = .error error) ↔
        input.count dotByte < levels) ∧
    (∀ (input : Bytes) (n m : Nat),
      (elaborateParent input n >>= fun parent => elaborateParent parent m) =
        elaborateParent input (n + m)) :=
  ⟨fun _ _ _ => elaborateParent_eq_ok_iff, fun _ _ => elaborateParent_eq_error_iff,
    elaborateParent_add⟩

example : elaborateParent (text ".a..b") 3 = .ok [] := by decide +kernel

end CalculatedVariables

end Supernova
