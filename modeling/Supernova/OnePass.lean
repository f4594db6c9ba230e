/-
Replacing a pattern in one pass from left to right, and when the loop that searches from
the start again after every replacement does the same: the pattern and the replacement
have no byte in common.
-/
import Supernova.StandardString

namespace Supernova

/-- One pass: behind an occurrence, the rest of the occurrence is skipped. -/
def passFrom (pattern replacement : Bytes) : Nat → Bytes → Bytes
  | _, [] => []
  | skip + 1, _ :: s => passFrom pattern replacement skip s
  | 0, c :: s =>
      if pattern.isPrefixOf (c :: s) then
        replacement ++ passFrom pattern replacement (pattern.length - 1) s
      else c :: passFrom pattern replacement 0 s

def onePass (pattern replacement s : Bytes) : Bytes := passFrom pattern replacement 0 s

section OnePass

variable {pattern replacement : Bytes}

theorem passFrom_append (skipped s : Bytes) :
    passFrom pattern replacement skipped.length (skipped ++ s) =
      passFrom pattern replacement 0 s := by
  induction skipped with
  | nil => rfl
  | cons c skipped ih => exact ih

theorem onePass_of_splitAtFirst_eq_none {s : Bytes} (h : splitAtFirst pattern s = none) :
    onePass pattern replacement s = s := by
  induction s with
  | nil => rfl
  | cons c s ih =>
      rw [splitAtFirst] at h
      split_ifs at h with hstarts
      rw [Option.map_eq_none_iff] at h
      rw [onePass, passFrom, if_neg hstarts]
      exact congrArg _ (ih h)

theorem onePass_of_splitAtFirst_eq_some (hpattern : pattern ≠ []) {s before after : Bytes}
    (h : splitAtFirst pattern s = some (before, after)) :
    onePass pattern replacement s = before ++ replacement ++ onePass pattern replacement after := by
  induction s generalizing before with
  | nil =>
      rw [splitAtFirst, if_neg hpattern] at h
      cases h
  | cons c s ih =>
      rw [splitAtFirst] at h
      split_ifs at h with hstarts
      · cases h
        obtain ⟨rest, hrest⟩ := List.isPrefixOf_iff_prefix.mp hstarts
        obtain ⟨b, pattern', rfl⟩ := List.exists_cons_of_ne_nil hpattern
        rw [onePass, passFrom, if_pos hstarts, ← hrest, List.drop_left, List.nil_append]
        rw [List.cons_append, List.cons.injEq] at hrest
        rw [← hrest.2, List.length_cons, Nat.add_sub_cancel, passFrom_append]
        rfl
      · obtain ⟨⟨before', after'⟩, hsplit, heq⟩ := Option.map_eq_some_iff.mp h
        cases heq
        rw [onePass, passFrom, if_neg hstarts]
        exact congrArg _ (ih hsplit)

/-- No occurrence begins in this text, whatever follows it. -/
def Settles (pattern s : Bytes) : Prop :=
  ∀ t, splitAtFirst pattern (s ++ t) =
    (splitAtFirst pattern t).map fun parts => (s ++ parts.1, parts.2)

/-- Behind a text that settles, the loop goes on as if it was not there. -/
theorem Settles.replaceLoop {s : Bytes} (h : Settles pattern s) (turns : Nat) (t : Bytes) :
    replaceLoop pattern replacement turns (s ++ t) =
      s ++ Supernova.replaceLoop pattern replacement turns t := by
  induction turns generalizing t with
  | zero => rfl
  | succ turns ih =>
      rw [Supernova.replaceLoop, Supernova.replaceLoop, h]
      rcases splitAtFirst pattern t with _ | ⟨before, after⟩
      · rfl
      · simp only [Option.map_some]
        rw [List.append_assoc, List.append_assoc, ← List.append_assoc before, ih]

variable (hpattern : pattern ≠ []) (hreplacement : replacement ≠ [])
  (hdisjoint : ∀ c ∈ pattern, c ∉ replacement)
include hpattern hdisjoint

theorem settles_replacement : Settles pattern replacement := by
  intro t
  obtain ⟨b, pattern', rfl⟩ := List.exists_cons_of_ne_nil hpattern
  have hb := hdisjoint b List.mem_cons_self
  clear hdisjoint
  induction replacement with
  | nil => simp
  | cons c replacement ih =>
      simp only [List.mem_cons, not_or] at hb
      have hstarts : ¬(b :: pattern').isPrefixOf (c :: (replacement ++ t)) := by
        simp [List.isPrefixOf, hb.1]
      rw [List.cons_append, splitAtFirst, if_neg hstarts, ih hb.2]
      rcases splitAtFirst (b :: pattern') t with _ | parts
      · rfl
      · rfl

include hreplacement

theorem splitAtFirst_before_replacement {s before after : Bytes}
    (h : splitAtFirst pattern s = some (before, after)) (u : Bytes) :
    splitAtFirst pattern (before ++ (replacement ++ u)) =
      (splitAtFirst pattern (replacement ++ u)).map
        fun parts => (before ++ parts.1, parts.2) := by
  induction s generalizing before with
  | nil =>
      rw [splitAtFirst, if_neg hpattern] at h
      cases h
  | cons c s ih =>
      have hs := splitAtFirst_eq_some h
      rw [splitAtFirst] at h
      split_ifs at h with hstarts
      · cases h
        simp
      · obtain ⟨⟨before', after'⟩, hsplit, heq⟩ := Option.map_eq_some_iff.mp h
        cases heq
        -- a pattern that reached into the replacement would have its first byte
        have hnot : ¬pattern.isPrefixOf (c :: (before' ++ (replacement ++ u))) := by
          intro hfound
          rw [List.isPrefixOf_iff_prefix, ← List.cons_append] at hfound
          have hstarts' : ¬pattern <+: c :: before' := by
            intro hshort
            refine hstarts (List.isPrefixOf_iff_prefix.mpr (hshort.trans ?_))
            rw [hs]
            exact List.prefix_append (c :: before') _
          rcases List.prefix_or_prefix_of_prefix hfound (List.prefix_append _ _) with
            hshort | hlong
          · exact hstarts' hshort
          · obtain ⟨m, rfl⟩ := hlong
            rw [List.prefix_append_right_inj] at hfound
            cases m with
            | nil => exact hstarts' (by simp)
            | cons d m =>
                obtain ⟨e, replacement', rfl⟩ := List.exists_cons_of_ne_nil hreplacement
                rw [List.cons_append, List.cons_prefix_cons] at hfound
                exact hdisjoint d (by simp) (by simp [hfound.1])
        rw [List.cons_append, splitAtFirst, if_neg hnot, ih hsplit]
        rcases splitAtFirst pattern (replacement ++ u) with _ | parts
        · rfl
        · rfl

/-- Nothing occurs in front of the first occurrence, nor across a replacement for it. -/
theorem settles_before_replacement {s before after : Bytes}
    (h : splitAtFirst pattern s = some (before, after)) :
    Settles pattern (before ++ replacement) := by
  intro t
  rw [List.append_assoc,
    splitAtFirst_before_replacement hpattern hreplacement hdisjoint h,
    settles_replacement hpattern hdisjoint]
  rcases splitAtFirst pattern t with _ | parts
  · rfl
  · simp

/-- The loop makes one pass, when its turns outnumber a byte of the pattern. -/
theorem replaceLoop_eq_onePass {k : UInt8} (hk : k ∈ pattern) (turns : Nat) (s : Bytes)
    (hturns : s.count k < turns) :
    replaceLoop pattern replacement turns s = onePass pattern replacement s := by
  induction turns generalizing s with
  | zero => omega
  | succ turns ih =>
      rw [replaceLoop]
      rcases hsplit : splitAtFirst pattern s with _ | ⟨before, after⟩
      · exact (onePass_of_splitAtFirst_eq_none hsplit).symm
      · have hcount : after.count k < turns := by
          have hpos := List.count_pos_iff.mpr hk
          rw [splitAtFirst_eq_some hsplit, List.count_append, List.count_append] at hturns
          omega
        rw [onePass_of_splitAtFirst_eq_some hpattern hsplit, ← ih after hcount]
        exact (settles_before_replacement hpattern hreplacement hdisjoint hsplit).replaceLoop
          turns after

theorem replaceAll_eq_onePass (s : Bytes) :
    replaceAll s pattern replacement = onePass pattern replacement s :=
  replaceLoop_eq_onePass hpattern hreplacement hdisjoint (List.head_mem hpattern) _ s
    (Nat.lt_succ_of_le List.count_le_length)

end OnePass

end Supernova
