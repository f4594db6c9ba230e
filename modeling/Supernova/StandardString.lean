/-
Byte strings with the members of `std::string` that the code uses: literals,
decimal numbers, `rfind` of a character and the replacement of a pattern by
searching from the start again until the pattern is gone.  The bytes of a literal
are listed by the loop of `ByteArray.toList`, a well-founded recursion: modules
with closed goals about literals make it reducible, so that `decide` computes them.
-/
import Supernova.LittleEndian

namespace Supernova

/-- The bytes of a source literal. -/
def text (s : String) : Bytes := s.toUTF8.toList

/-- The decimal digits that a stream writes for a natural number. -/
def decimal (n : Nat) : Bytes := text (toString n)

/-- `std::string::rfind` of one character. -/
def rfind (c : UInt8) : Bytes → Option Nat
  | [] => none
  | b :: s =>
      match rfind c s with
      | some i => some (i + 1)
      | none => if b = c then some 0 else none

/-- What stands in front of the first occurrence of a pattern and behind it. -/
def splitAtFirst (pattern : Bytes) : Bytes → Option (Bytes × Bytes)
  | [] => if pattern = [] then some ([], []) else none
  | c :: s =>
      if pattern.isPrefixOf (c :: s) then some ([], (c :: s).drop pattern.length)
      else (splitAtFirst pattern s).map fun parts => (c :: parts.1, parts.2)

/-- The loop of `replaceAll`, with a bound on its turns. -/
def replaceLoop (pattern replacement : Bytes) : Nat → Bytes → Bytes
  | 0, replica => replica
  | turns + 1, replica =>
      match splitAtFirst pattern replica with
      | none => replica
      | some (before, after) =>
          replaceLoop pattern replacement turns (before ++ replacement ++ after)

/-- `replaceAll`; the bound is enough whenever a turn takes away an occurrence
of the pattern's first character. -/
def replaceAll (input pattern replacement : Bytes) : Bytes :=
  replaceLoop pattern replacement (input.length + 1) input

theorem splitAtFirst_eq_some {pattern s before after : Bytes}
    (h : splitAtFirst pattern s = some (before, after)) :
    s = before ++ (pattern ++ after) := by
  induction s generalizing before with
  | nil =>
      unfold splitAtFirst at h
      split at h
      · rename_i hnil
        cases h
        simp [hnil]
      · cases h
  | cons c s ih =>
      unfold splitAtFirst at h
      split at h
      · rename_i hprefix
        cases h
        obtain ⟨rest, hrest⟩ := List.isPrefixOf_iff_prefix.mp hprefix
        rw [List.nil_append, ← hrest, List.drop_left]
      · obtain ⟨⟨before', after'⟩, hparts, heq⟩ := Option.map_eq_some_iff.mp h
        cases heq
        rw [List.cons_append, ← ih hparts]

/-- The loop leaves no occurrence behind when its turns outnumber the
occurrences of a character of the pattern that the replacement does not have. -/
theorem splitAtFirst_replaceLoop {pattern replacement : Bytes} {c : UInt8}
    (hpattern : c ∈ pattern) (hreplacement : c ∉ replacement) (turns : Nat) (s : Bytes)
    (hturns : s.count c < turns) :
    splitAtFirst pattern (replaceLoop pattern replacement turns s) = none := by
  induction turns generalizing s with
  | zero => omega
  | succ turns ih =>
      rw [replaceLoop]
      cases hsplit : splitAtFirst pattern s with
      | none => exact hsplit
      | some parts =>
          obtain ⟨before, after⟩ := parts
          apply ih
          have hs := splitAtFirst_eq_some hsplit
          have hpos := List.count_pos_iff.mpr hpattern
          have hzero := List.count_eq_zero_of_not_mem hreplacement
          rw [hs, List.count_append, List.count_append] at hturns
          rw [List.count_append, List.count_append, hzero]
          omega

/-- `replaceAll` ends with the pattern gone. -/
theorem splitAtFirst_replaceAll {input pattern replacement : Bytes} {c : UInt8}
    (hpattern : c ∈ pattern) (hreplacement : c ∉ replacement) :
    splitAtFirst pattern (replaceAll input pattern replacement) = none :=
  splitAtFirst_replaceLoop hpattern hreplacement _ input
    (Nat.lt_succ_of_le List.count_le_length)

theorem rfind_eq_none_iff {c : UInt8} {s : Bytes} : rfind c s = none ↔ c ∉ s := by
  induction s with
  | nil => simp [rfind]
  | cons b s ih =>
      rw [rfind, List.mem_cons, not_or]
      cases hrest : rfind c s with
      | some j =>
          rw [hrest] at ih
          simp [ih.symm]
      | none =>
          have hs : c ∉ s := ih.mp hrest
          by_cases hb : b = c
          · simp [hb]
          · simp [hb, hs, Ne.symm hb]

/-- `rfind` finds the occurrence that no other one follows. -/
theorem rfind_eq_some_iff {c : UInt8} {s : Bytes} {i : Nat} :
    rfind c s = some i ↔
      ∃ before after, s = before ++ c :: after ∧ c ∉ after ∧ before.length = i := by
  constructor
  · intro h
    induction s generalizing i with
    | nil => cases h
    | cons b s ih =>
        rw [rfind] at h
        cases hrest : rfind c s with
        | some j =>
            rw [hrest] at h
            cases h
            obtain ⟨before, after, rfl, hafter, rfl⟩ := ih hrest
            exact ⟨b :: before, after, rfl, hafter, rfl⟩
        | none =>
            rw [hrest] at h
            by_cases hb : b = c
            · rw [if_pos hb] at h
              cases h
              refine ⟨[], s, by rw [hb, List.nil_append], ?_, rfl⟩
              exact rfind_eq_none_iff.1 hrest
            · rw [if_neg hb] at h
              cases h
  · rintro ⟨before, after, rfl, hafter, rfl⟩
    induction before with
    | nil => simp [rfind, rfind_eq_none_iff.2 hafter]
    | cons b before ih => rw [List.cons_append, rfind, ih, List.length_cons]

/-- Every byte `k` of a string replaced by `w`. -/
def substitute (k : UInt8) (w s : Bytes) : Bytes :=
  s.flatMap fun c => if c = k then w else [c]

theorem substitute_append (k : UInt8) (w s t : Bytes) :
    substitute k w (s ++ t) = substitute k w s ++ substitute k w t :=
  List.flatMap_append

theorem substitute_singleton_self (k : UInt8) (w : Bytes) : substitute k w [k] = w := by
  simp [substitute]

theorem substitute_singleton_of_ne {k c : UInt8} (hc : c ≠ k) (w : Bytes) :
    substitute k w [c] = [c] := by
  simp [substitute, hc]

theorem substitute_of_not_mem {k : UInt8} {w s : Bytes} (hk : k ∉ s) :
    substitute k w s = s := by
  induction s with
  | nil => rfl
  | cons c s ih =>
      simp only [List.mem_cons, not_or] at hk
      simp only [substitute, List.flatMap_cons, if_neg (Ne.symm hk.1)] at ih ⊢
      rw [ih hk.2]
      rfl

theorem substitute_self (k : UInt8) (s : Bytes) : substitute k [k] s = s := by
  induction s with
  | nil => rfl
  | cons c s ih =>
      have hc : (if c = k then [k] else [c]) = [c] := by
        by_cases hck : c = k <;> simp [hck]
      simp only [substitute, List.flatMap_cons, hc] at ih ⊢
      rw [ih]
      rfl

theorem substitute_comm {j k : UInt8} {v w : Bytes} (hjk : j ≠ k) (hv : k ∉ v) (hw : j ∉ w)
    (s : Bytes) :
    substitute k w (substitute j v s) = substitute j v (substitute k w s) := by
  induction s with
  | nil => rfl
  | cons c s ih =>
      have hsplit : ∀ (l : UInt8) (u : Bytes), substitute l u (c :: s) =
          substitute l u [c] ++ substitute l u s := fun l u => substitute_append l u [c] s
      rw [hsplit, hsplit, substitute_append, substitute_append, ih]
      congr 1
      by_cases hcj : c = j
      · subst hcj
        rw [substitute_singleton_self, substitute_singleton_of_ne hjk,
          substitute_singleton_self, substitute_of_not_mem hv]
      · by_cases hck : c = k
        · subst hck
          rw [substitute_singleton_self, substitute_singleton_of_ne hcj,
            substitute_singleton_self, substitute_of_not_mem hw]
        · rw [substitute_singleton_of_ne hcj, substitute_singleton_of_ne hck,
            substitute_singleton_of_ne hcj]

/-- A pattern that ends in `k` first occurs where `k` does. -/
theorem splitAtFirst_of_first {k : UInt8} {pre : Bytes} (hpre : k ∉ pre)
    (before after : Bytes) (hbefore : k ∉ before) :
    splitAtFirst (pre ++ [k]) (before ++ ((pre ++ [k]) ++ after)) = some (before, after) := by
  induction before with
  | nil =>
      have hprefix : (pre ++ [k]).isPrefixOf ((pre ++ [k]) ++ after) = true := by simp
      rw [List.nil_append]
      cases htext : (pre ++ [k]) ++ after with
      | nil => simp at htext
      | cons c s =>
          rw [htext] at hprefix
          rw [splitAtFirst, if_pos hprefix, ← htext, List.drop_left]
  | cons c before ih =>
      have hnot : ¬ (pre ++ [k]).isPrefixOf (c :: (before ++ ((pre ++ [k]) ++ after))) := by
        intro hprefix
        obtain ⟨rest, hrest⟩ := List.isPrefixOf_iff_prefix.mp hprefix
        have hlt : pre.length < (c :: before ++ pre).length := by
          rw [List.length_append, List.length_cons]
          omega
        have hassoc : c :: (before ++ ((pre ++ [k]) ++ after)) =
            (c :: before ++ pre) ++ (k :: after) := by simp
        have hget : (c :: before ++ pre)[pre.length]? = some k := by
          rw [← List.getElem?_append_left hlt, ← hassoc, ← hrest]
          simp
        have hmem := List.mem_of_getElem? hget
        simp only [List.mem_append] at hmem
        rcases hmem with hmem | hmem
        · exact hbefore hmem
        · exact hpre hmem
      simp only [List.mem_cons, not_or] at hbefore
      rw [List.cons_append, splitAtFirst, if_neg hnot, ih hbefore.2]
      rfl

theorem splitAtFirst_of_not_mem {k : UInt8} {pattern s : Bytes} (hpattern : k ∈ pattern)
    (hs : k ∉ s) : splitAtFirst pattern s = none := by
  by_contra hsome
  obtain ⟨⟨before, after⟩, hsplit⟩ := Option.ne_none_iff_exists'.mp hsome
  apply hs
  rw [splitAtFirst_eq_some hsplit]
  simp [hpattern]

theorem replaceLoop_substitute {k : UInt8} {pre replacement : Bytes} (hpre : k ∉ pre)
    (hreplacement : k ∉ replacement) (turns : Nat) (s : Bytes) (hturns : s.count k < turns) :
    replaceLoop (pre ++ [k]) replacement turns (substitute k (pre ++ [k]) s) =
      substitute k replacement s := by
  induction turns generalizing s with
  | zero => omega
  | succ turns ih =>
      rw [replaceLoop]
      by_cases hk : k ∈ s
      · obtain ⟨before, after, rfl, hbefore⟩ := List.append_of_mem hk |>.elim fun _ _ =>
          List.eq_append_cons_of_mem hk
        have hsplit : ∀ w, substitute k w (before ++ k :: after) =
            before ++ (w ++ substitute k w after) := by
          intro w
          rw [substitute_append, substitute_of_not_mem hbefore]
          simp [substitute]
        have hwork : before ++ replacement ++ substitute k (pre ++ [k]) after =
            substitute k (pre ++ [k]) (before ++ replacement ++ after) := by
          rw [substitute_append, substitute_append, substitute_of_not_mem hbefore,
            substitute_of_not_mem hreplacement]
        rw [hsplit, splitAtFirst_of_first hpre _ _ hbefore]
        simp only [hwork]
        rw [ih, substitute_append, substitute_append, substitute_of_not_mem hbefore,
          substitute_of_not_mem hreplacement, hsplit, List.append_assoc]
        have hzero := List.count_eq_zero_of_not_mem hreplacement
        simp only [List.count_append, List.count_cons_self, hzero] at hturns ⊢
        omega
      · rw [substitute_of_not_mem hk, substitute_of_not_mem hk,
          splitAtFirst_of_not_mem (k := k) (by simp) hk]

/-- `replaceAll` undoes a substitution by the pattern and makes that by the replacement. -/
theorem replaceAll_substitute {k : UInt8} {pre replacement : Bytes} (hpre : k ∉ pre)
    (hreplacement : k ∉ replacement) (s : Bytes) :
    replaceAll (substitute k (pre ++ [k]) s) (pre ++ [k]) replacement =
      substitute k replacement s := by
  have hlength : s.length ≤ (substitute k (pre ++ [k]) s).length := by
    induction s with
    | nil => simp
    | cons c s ih =>
        simp only [substitute, List.flatMap_cons, List.length_append, List.length_cons] at ih ⊢
        by_cases hc : c = k
        · simp only [hc, if_true, List.length_append, List.length_singleton]
          omega
        · simp only [hc, if_false, List.length_singleton]
          omega
  apply replaceLoop_substitute hpre hreplacement
  have hcount : s.count k ≤ s.length := List.count_le_length
  omega

end Supernova
