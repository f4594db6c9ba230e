/-
References to registered variables and constants in a formula: the pass that the two
escaping substitutions make, the text that a reference becomes, and whether this text has
the name under which the address was registered.
-/
import Supernova.FormulaBinding
import Supernova.OnePass

namespace Supernova

attribute [local semireducible] ByteArray.toList.loop

namespace CalculatedVariables

section Unescaped

/-- One pass over a formula: an escaped dash or slash becomes its representation. -/
def unescaped : Bytes → Bytes
  | [] => []
  | [c] => [c]
  | c :: d :: s =>
      if c = 92 ∧ d = 45 then DashSignVariableRepr ++ unescaped s
      else if c = 92 ∧ d = 47 then SlashSignVariableRepr ++ unescaped s
      else c :: unescaped (d :: s)

theorem escapes_eq : text "\\-" = [92, 45] ∧ text "\\/" = [92, 47] := by
  decide

theorem onePass_pair (c d : UInt8) (replacement s : Bytes) :
    onePass [c, d] replacement (c :: d :: s) = replacement ++ onePass [c, d] replacement s := by
  simp [onePass, passFrom]

theorem onePass_singleton (c d b : UInt8) (replacement : Bytes) :
    onePass [c, d] replacement [b] = [b] := by
  simp [onePass, passFrom]

theorem onePass_cons_of_ne {c d : UInt8} {replacement : Bytes} {b : UInt8} {s : Bytes}
    (h : b = c → s.head? ≠ some d) :
    onePass [c, d] replacement (b :: s) = b :: onePass [c, d] replacement s := by
  have hstarts : ¬[c, d].isPrefixOf (b :: s) := by
    rcases s with _ | ⟨b', s⟩
    · simp
    · simp only [List.head?_cons, ne_eq, Option.some.injEq] at h
      simp only [List.isPrefixOf, Bool.and_eq_true, beq_iff_eq, and_true, not_and]
      intro hb hb'
      exact h hb.symm hb'.symm
  rw [onePass, passFrom, if_neg hstarts]
  rfl

theorem onePass_append_of_not_mem {c d : UInt8} {replacement s : Bytes} (hs : c ∉ s)
    (t : Bytes) : onePass [c, d] replacement (s ++ t) = s ++ onePass [c, d] replacement t := by
  induction s with
  | nil => rfl
  | cons b s ih =>
      simp only [List.mem_cons, not_or] at hs
      rw [List.cons_append, onePass_cons_of_ne fun hb => absurd hb.symm hs.1, ih hs.2,
        List.cons_append]

/-- The first pass makes no slash out of another byte. -/
theorem head_onePass {d : UInt8} (hd : d ≠ 47) (s : Bytes) :
    (onePass [92, 45] DashSignVariableRepr (d :: s)).head? ≠ some 47 := by
  rcases s with _ | ⟨b, s⟩
  · rw [onePass_singleton]
    simpa using hd
  by_cases hescape : d = 92 ∧ b = 45
  · rw [hescape.1, hescape.2, onePass_pair, List.head?_append]
    have hhead : DashSignVariableRepr.head? = some 95 := by
      decide
    rw [hhead, Option.some_or]
    decide
  · rw [onePass_cons_of_ne]
    · simpa using hd
    · intro hd' hb
      exact hescape ⟨hd', by simpa using hb⟩

theorem onePass_onePass (s : Bytes) :
    onePass [92, 47] SlashSignVariableRepr (onePass [92, 45] DashSignVariableRepr s) =
      unescaped s := by
  have hdash : (92 : UInt8) ∉ DashSignVariableRepr := by
    decide
  induction s using unescaped.induct with
  | case1 => rfl
  | case2 c => rw [onePass_singleton, onePass_singleton, unescaped]
  | case3 c d s hescape ih =>
      rw [unescaped, if_pos hescape, hescape.1, hescape.2, onePass_pair,
        onePass_append_of_not_mem hdash, ih]
  | case4 c d s hdash hescape ih =>
      have hslash : onePass [92, 45] DashSignVariableRepr (47 :: s) =
          47 :: onePass [92, 45] DashSignVariableRepr s :=
        onePass_cons_of_ne (by simp)
      rw [unescaped, if_neg hdash, if_pos hescape, hescape.1, hescape.2,
        onePass_cons_of_ne (by simp), hslash, onePass_pair, ih]
  | case5 c d s hdash hslash ih =>
      rw [unescaped, if_neg hdash, if_neg hslash, onePass_cons_of_ne, onePass_cons_of_ne, ih]
      · intro hc
        exact head_onePass (fun hd => hslash ⟨hc, hd⟩) s
      · intro hc hd
        exact hdash ⟨hc, by simpa using hd⟩

theorem escapeSpecialCharactersInFormula_eq (inputFormula : Bytes) :
    escapeSpecialCharactersInFormula inputFormula = unescaped inputFormula := by
  simp only [escapeSpecialCharactersInFormula, escapes_eq.1, escapes_eq.2]
  rw [replaceAll_eq_onePass (by simp) (by decide) (List.forall_iff_forall_mem.1 (by decide)),
    replaceAll_eq_onePass (by simp) (by decide) (List.forall_iff_forall_mem.1 (by decide)),
    onePass_onePass]

/-- Operators and all other text stay as they are. -/
theorem unescaped_of_not_mem {s : Bytes} (hs : 92 ∉ s) : unescaped s = s := by
  rw [← onePass_onePass]
  have hpass := fun d replacement =>
    @onePass_append_of_not_mem 92 d replacement s hs []
  simp only [List.append_nil] at hpass
  rw [hpass, show onePass [92, 45] DashSignVariableRepr [] = [] from rfl, List.append_nil, hpass,
    show onePass [92, 47] SlashSignVariableRepr [] = [] from rfl, List.append_nil]

theorem unescaped_append {s t : Bytes}
    (h : s.getLast? = some 92 → t.head? ≠ some 45 ∧ t.head? ≠ some 47) :
    unescaped (s ++ t) = unescaped s ++ unescaped t := by
  induction s using unescaped.induct with
  | case1 => rfl
  | case2 c =>
      rcases t with _ | ⟨d, t⟩
      · rfl
      · simp only [List.getLast?_singleton, Option.some.injEq, List.head?_cons, ne_eq] at h
        have hdash : ¬(c = 92 ∧ d = 45) := fun hescape => (h hescape.1).1 hescape.2
        have hslash : ¬(c = 92 ∧ d = 47) := fun hescape => (h hescape.1).2 hescape.2
        change unescaped (c :: d :: t) = c :: unescaped (d :: t)
        rw [unescaped, if_neg hdash, if_neg hslash]
  | case3 c d s hescape ih =>
      rw [List.cons_append, List.cons_append, unescaped, if_pos hescape, unescaped,
        if_pos hescape, ih, List.append_assoc]
      intro hlast
      rcases s with _ | ⟨b, s⟩
      · cases hlast
      · exact h (by simpa using hlast)
  | case4 c d s hdash hescape ih =>
      rw [List.cons_append, List.cons_append, unescaped, if_neg hdash, if_pos hescape, unescaped,
        if_neg hdash, if_pos hescape, ih, List.append_assoc]
      intro hlast
      rcases s with _ | ⟨b, s⟩
      · cases hlast
      · exact h (by simpa using hlast)
  | case5 c d s hdash hslash ih =>
      rw [List.cons_append, List.cons_append, unescaped, if_neg hdash, if_neg hslash, unescaped,
        if_neg hdash, if_neg hslash, ← List.cons_append, ih, List.cons_append]
      intro hlast
      exact h (by simpa using hlast)

end Unescaped

section Insertions

theorem mem_substitute {k b : UInt8} {w s : Bytes} (h : b ∈ substitute k w s) :
    b ∈ s ∧ b ≠ k ∨ b ∈ w := by
  obtain ⟨c, hc, hb⟩ := List.mem_flatMap.mp h
  by_cases hck : c = k
  · rw [if_pos hck] at hb
    exact .inr hb
  · rw [if_neg hck, List.mem_singleton] at hb
    rw [hb]
    exact .inl ⟨hc, hck⟩

/-- A parser name has no dash or slash, and of other bytes besides those of the
representations only what the address has. -/
theorem mem_escapeSpecialCharactersInParserVariableName {b : UInt8} {A : Bytes}
    (h : b ∈ escapeSpecialCharactersInParserVariableName A) :
    b ≠ 45 ∧ b ≠ 47 ∧ (b ∈ A ∨ b ∈ DashSignVariableRepr ++ SlashSignVariableRepr) := by
  have hrepr : ∀ c ∈ DashSignVariableRepr ++ SlashSignVariableRepr, c ≠ 45 ∧ c ≠ 47 :=
    List.forall_iff_forall_mem.1 (by decide)
  rw [escapeSpecialCharactersInParserVariableName_eq] at h
  rcases mem_substitute h with ⟨hdash, hslash⟩ | hslash
  · rcases mem_substitute hdash with ⟨hA, hb⟩ | hdash
    · exact ⟨hb, hslash, .inl hA⟩
    · have hb := List.mem_append_left SlashSignVariableRepr hdash
      exact ⟨(hrepr b hb).1, (hrepr b hb).2, .inr hb⟩
  · have hb := List.mem_append_right DashSignVariableRepr hslash
    exact ⟨(hrepr b hb).1, (hrepr b hb).2, .inr hb⟩

theorem not_mem_escape {b : UInt8} (hb : b = 92 ∨ b = dollarByte) {A : Bytes} (hA : b ∉ A) :
    b ∉ escapeSpecialCharactersInParserVariableName A := by
  intro h
  have hrepr : ∀ c ∈ DashSignVariableRepr ++ SlashSignVariableRepr, c ≠ 92 ∧ c ≠ dollarByte :=
    List.forall_iff_forall_mem.1 (by decide)
  rcases (mem_escapeSpecialCharactersInParserVariableName h).2.2 with hA' | hrepr'
  · exact hA hA'
  · rcases hb with rfl | rfl
    · exact (hrepr _ hrepr').1 rfl
    · exact (hrepr _ hrepr').2 rfl

theorem escapeSpecialCharactersInParserVariableName_append (s t : Bytes) :
    escapeSpecialCharactersInParserVariableName (s ++ t) =
      escapeSpecialCharactersInParserVariableName s ++
        escapeSpecialCharactersInParserVariableName t := by
  simp only [escapeSpecialCharactersInParserVariableName_eq, substitute_append]

theorem escapeSpecialCharactersInParserVariableName_eq_self_iff (A : Bytes) :
    escapeSpecialCharactersInParserVariableName A = A ↔ 45 ∉ A ∧ 47 ∉ A := by
  constructor
  · intro h
    rw [← h]
    exact ⟨fun hdash => (mem_escapeSpecialCharactersInParserVariableName hdash).1 rfl,
      fun hslash => (mem_escapeSpecialCharactersInParserVariableName hslash).2.1 rfl⟩
  · intro h
    rw [escapeSpecialCharactersInParserVariableName_eq, substitute_of_not_mem h.1,
      substitute_of_not_mem h.2]

theorem unescaped_escapedInFormula (A : Bytes) :
    unescaped (escapedInFormula A) = escapeSpecialCharactersInParserVariableName A := by
  rw [← escapeSpecialCharactersInFormula_eq]
  exact operandOf_eq A

theorem escapedInFormula_append (s t : Bytes) :
    escapedInFormula (s ++ t) = escapedInFormula s ++ escapedInFormula t := by
  simp only [escapedInFormula, substitute_append]

theorem escapedInFormula_singleton (c : UInt8) :
    escapedInFormula [c] = [92, c] ∧ (c = 45 ∨ c = 47) ∨
      escapedInFormula [c] = [c] ∧ c ≠ 45 ∧ c ≠ 47 := by
  by_cases hdash : c = 45
  · subst hdash
    exact .inl ⟨by decide, .inl rfl⟩
  by_cases hslash : c = 47
  · subst hslash
    exact .inl ⟨by decide, .inr rfl⟩
  · refine .inr ⟨?_, hdash, hslash⟩
    rw [escapedInFormula, substitute_singleton_of_ne hslash, substitute_singleton_of_ne hdash]

theorem not_mem_escapedInFormula {b : UInt8} (hb : b = dollarByte) {A : Bytes} (hA : b ∉ A) :
    b ∉ escapedInFormula A := by
  have hescapes : dollarByte ∉ text "\\-" ∧ dollarByte ∉ text "\\/" := by
    decide
  intro h
  rcases mem_substitute h with ⟨h, -⟩ | h
  · rcases mem_substitute h with ⟨h, -⟩ | h
    · exact hA h
    · exact hescapes.2 (hb ▸ h)
  · exact hescapes.1 (hb ▸ h)

/-- A text that begins with no dash or slash and ends with no backslash, so that no escape
reaches across its ends. -/
structure Closed (s : Bytes) : Prop where
  head_ne : s.head? ≠ some 45 ∧ s.head? ≠ some 47
  getLast_ne : s.getLast? ≠ some 92

theorem closed_escapedInFormula {A : Bytes} (hA : 92 ∉ A) : Closed (escapedInFormula A) := by
  constructor
  · rcases A with _ | ⟨c, A⟩
    · decide
    · rw [← List.singleton_append, escapedInFormula_append]
      rcases escapedInFormula_singleton c with ⟨hc, -⟩ | ⟨hc, hdash, hslash⟩
      · rw [hc]
        simp
      · rw [hc]
        simp [hdash, hslash]
  · rcases List.eq_nil_or_concat' A with rfl | ⟨A, c, rfl⟩
    · decide
    · simp only [List.mem_append, List.mem_singleton, not_or] at hA
      rw [escapedInFormula_append]
      rcases escapedInFormula_singleton c with ⟨hc, -⟩ | ⟨hc, -⟩
      · rw [hc]
        simpa using Ne.symm hA.2
      · rw [hc]
        simpa using Ne.symm hA.2

/-- The escaping of a formula goes on before and behind such a text. -/
theorem Closed.unescaped_insert {s : Bytes} (h : Closed s) (hs : s ≠ []) (pre post : Bytes) :
    unescaped (pre ++ (s ++ post)) = unescaped pre ++ (unescaped s ++ unescaped post) := by
  rw [unescaped_append, unescaped_append]
  · intro hlast
    exact absurd hlast h.getLast_ne
  · intro _
    rw [List.head?_append_of_ne_nil s hs]
    exact h.head_ne

end Insertions

section Elaboration

variable {context : Context}

theorem regexSearch_append_of_not_mem {s : Bytes} (hs : dollarByte ∉ s) (t : Bytes) :
    regexSearch (s ++ t) = (regexSearch t).map fun e => { e with before := s ++ e.before } := by
  induction s with
  | nil => simp
  | cons c s ih =>
      simp only [List.mem_cons, not_or] at hs
      rw [List.cons_append, regexSearch, if_neg fun h => hs.1 h.1.symm, ih hs.2, Option.map_map]
      rfl

/-- Behind text without a dollar the loop goes on as if it was not there. -/
theorem elaborateLoop_append_of_not_mem {s : Bytes} (hs : dollarByte ∉ s) (turns : Nat)
    (t : Bytes) : elaborateLoop context turns (s ++ t) =
      (elaborateLoop context turns t).map fun result => result.map (s ++ ·) := by
  induction turns generalizing t with
  | zero => rfl
  | succ turns ih =>
      rw [elaborateLoop, elaborateLoop, regexSearch_append_of_not_mem hs]
      rcases regexSearch t with _ | e
      · rfl
      · simp only [Option.map_some]
        rw [show substitution context { e with before := s ++ e.before } =
          substitution context e from rfl]
        rcases substitution context e with error | replacement
        · rfl
        · simp only [List.append_assoc]
          rw [← ih]

/-- The texts that `formulaInWork` goes through. -/
inductive InWork (context : Context) (rawFormula : Bytes) : Bytes → Prop
  | start : InWork context rawFormula rawFormula
  | turn {formulaInWork replacement : Bytes} {e : Expression}
      (inWork : InWork context rawFormula formulaInWork)
      (matches_ : regexSearch formulaInWork = some e)
      (substitutes : substitution context e = .ok replacement) :
      InWork context rawFormula (e.before ++ replacement ++ e.after)

theorem InWork.exists_turns {rawFormula formulaInWork : Bytes}
    (h : InWork context rawFormula formulaInWork) :
    ∃ n, ∀ turns, elaborateLoop context (turns + n) rawFormula =
      elaborateLoop context turns formulaInWork := by
  induction h with
  | start => exact ⟨0, fun _ => rfl⟩
  | turn inWork hsearch hsubstitution ih =>
      obtain ⟨n, hn⟩ := ih
      refine ⟨n + 1, fun turns => ?_⟩
      rw [Nat.add_comm n, ← Nat.add_assoc, hn, elaborateLoop, hsearch]
      simp only [hsubstitution]

/-- What a formula writes for an address: all of it escaped, or an expression for its object
part and the rest escaped. -/
inductive RefersTo (context : Context) : Bytes → Bytes → Prop
  | written (A : Bytes) : RefersTo context A (escapedInFormula A)
  | thisObject (operation member : Bytes)
      (isThisObject : operation = text "_" ∨ operation = text "thisObjectAddress") :
      RefersTo context (context.parentObjectAddress ++ dotByte :: member)
        (dollarByte :: (operation ++ dotByte :: escapedInFormula member))
  | parentObject (argument parent member : Bytes) (levels : Nat)
      (isLevels : numLevelsUp argument = .ok levels)
      (isParent : elaborateParent context.parentObjectAddress levels = .ok parent) :
      RefersTo context (parent ++ dotByte :: member)
        (dollarByte :: (text "parentObjectAddress" ++ 40 :: (argument ++ 41 ::
          (dotByte :: escapedInFormula member))))

theorem takeWhile_append_cons {p : UInt8 → Bool} {s : Bytes} (hs : ∀ c ∈ s, p c = true)
    {d : UInt8} (hd : p d = false) (t : Bytes) :
    (s ++ d :: t).takeWhile p = s ∧ (s ++ d :: t).dropWhile p = d :: t := by
  constructor
  · rw [List.takeWhile_append_of_pos hs, List.takeWhile_cons_of_neg (by simp [hd]),
      List.append_nil]
  · rw [List.dropWhile_append_of_pos hs, List.dropWhile_cons_of_neg (by simp [hd])]

theorem regexSearch_member {operation : Bytes} (hword : ∀ c ∈ operation, isWordByte c = true)
    (hoperation : operation ≠ []) (t : Bytes) :
    regexSearch (dollarByte :: (operation ++ dotByte :: t)) = some
      { before := [], operation := operation, argument := none, after := dotByte :: t } := by
  obtain ⟨htake, hdrop⟩ := takeWhile_append_cons hword (d := dotByte) (by decide) t
  have hscan : scanArgument (dotByte :: t) = none := by
    simp [scanArgument, dotByte]
  rw [regexSearch, htake, hdrop, if_pos ⟨rfl, hoperation⟩, hscan]

theorem regexSearch_argument {operation argument : Bytes}
    (hword : ∀ c ∈ operation, isWordByte c = true) (hoperation : operation ≠ [])
    (hbytes : ∀ c ∈ argument, isArgumentByte c = true) (hargument : argument ≠ []) (t : Bytes) :
    regexSearch (dollarByte :: (operation ++ 40 :: (argument ++ 41 :: t))) = some
      { before := [], operation := operation, argument := some argument, after := t } := by
  obtain ⟨htake, hdrop⟩ := takeWhile_append_cons hword (d := 40) (by decide)
    (argument ++ 41 :: t)
  obtain ⟨htake', hdrop'⟩ := takeWhile_append_cons hbytes (d := 41) (by decide) t
  have hscan : scanArgument (40 :: (argument ++ 41 :: t)) = some (argument, t) := by
    rw [scanArgument, htake', hdrop', if_pos ⟨rfl, hargument⟩]
    rfl
  rw [regexSearch, htake, hdrop, if_pos ⟨rfl, hoperation⟩, hscan]

theorem isArgumentByte_of_numLevelsUp {argument : Bytes} {levels : Nat}
    (h : numLevelsUp argument = .ok levels) :
    (∀ c ∈ argument, isArgumentByte c = true) ∧ argument ≠ [] := by
  have hstarts : ∀ c ∈ text "numLevelsUp=", isArgumentByte c = true :=
    List.all_eq_true.1 (by decide)
  have hdigit : ∀ c : UInt8, 48 ≤ c → isArgumentByte c = true := by
    intro c hc
    simp only [isArgumentByte, decide_not, Bool.and_eq_true, Bool.not_eq_true', decide_eq_false_iff_not]
    refine ⟨⟨⟨⟨⟨?_, ?_⟩, ?_⟩, ?_⟩, ?_⟩, ?_⟩ <;>
      · rintro rfl
        exact absurd hc (by decide)
  rw [numLevelsUp] at h
  split at h
  · rename_i hsyntax
    obtain ⟨hnumLevelsUp, hdigits, hall⟩ := hsyntax
    obtain ⟨digits, rfl⟩ := List.isPrefixOf_iff_prefix.mp hnumLevelsUp
    rw [List.drop_left] at hdigits hall
    constructor
    · intro c hc
      rcases List.mem_append.mp hc with hc | hc
      · exact hstarts c hc
      · have hc' := List.all_eq_true.mp hall c hc
        simp only [Bool.and_eq_true, decide_eq_true_eq] at hc'
        exact hdigit c hc'.1
    · simp [hdigits]
  · cases h

/-- What elaboration leaves in place of a reference that begins with an object part. -/
theorem closed_member {parent member : Bytes} (hbackslash : 92 ∉ parent ++ dotByte :: member) :
    Closed (escapeSpecialCharactersInParserVariableName parent ++
      dotByte :: escapedInFormula member) := by
  simp only [List.mem_append, List.mem_cons, not_or] at hbackslash
  constructor
  · rcases hparent : escapeSpecialCharactersInParserVariableName parent with _ | ⟨c, s⟩
    · simp [dotByte]
    · have hc := mem_escapeSpecialCharactersInParserVariableName
        (hparent.symm ▸ List.mem_cons_self : c ∈ escapeSpecialCharactersInParserVariableName parent)
      simp [hc.1, hc.2.1]
  · rw [List.getLast?_append_cons]
    have hlast := (closed_escapedInFormula hbackslash.2.2).getLast_ne
    rcases hmember : (escapedInFormula member).getLast? with _ | c
    · simp [List.getLast?_cons, hmember, dotByte]
    · rw [hmember] at hlast
      simpa [List.getLast?_cons, hmember] using hlast

theorem unescaped_member {parent member : Bytes} (hbackslash : 92 ∉ parent) :
    unescaped (escapeSpecialCharactersInParserVariableName parent ++
        dotByte :: escapedInFormula member) =
      escapeSpecialCharactersInParserVariableName (parent ++ dotByte :: member) := by
  have hdot : escapeSpecialCharactersInParserVariableName [dotByte] = [dotByte] :=
    (escapeSpecialCharactersInParserVariableName_eq_self_iff _).mpr (by decide)
  have hparent := not_mem_escape (.inl rfl) hbackslash
  rw [← List.singleton_append, ← List.singleton_append (l := member),
    escapeSpecialCharactersInParserVariableName_append,
    escapeSpecialCharactersInParserVariableName_append, hdot, ← unescaped_escapedInFormula member,
    unescaped_append fun _ => by simp [dotByte], unescaped_append, unescaped_of_not_mem hparent]
  · rfl
  · simp [dotByte]

theorem elaborateLoop_thisObject {operation : Bytes}
    (hoperation : operation = text "_" ∨ operation = text "thisObjectAddress") (turns : Nat)
    (t : Bytes) :
    elaborateLoop context (turns + 1) (dollarByte :: (operation ++ dotByte :: t)) =
      elaborateLoop context turns
        (escapeSpecialCharactersInParserVariableName context.parentObjectAddress ++
          dotByte :: t) := by
  have hword : (∀ c ∈ operation, isWordByte c = true) ∧ operation ≠ [] := by
    rcases hoperation with rfl | rfl
    · exact ⟨List.all_eq_true.1 (by decide), by decide⟩
    · exact ⟨List.all_eq_true.1 (by decide), by decide⟩
  have hsubstitution : ∀ after, substitution context
      { before := [], operation := operation, argument := none, after := after } =
      .ok (escapeSpecialCharactersInParserVariableName context.parentObjectAddress) := by
    intro after
    rw [substitution, if_pos hoperation]
    rfl
  rw [elaborateLoop, regexSearch_member hword.1 hword.2]
  simp only [hsubstitution, List.nil_append]

theorem elaborateLoop_parentObject {argument parent : Bytes} {levels : Nat}
    (hlevels : numLevelsUp argument = .ok levels)
    (hparent : elaborateParent context.parentObjectAddress levels = .ok parent) (turns : Nat)
    (t : Bytes) :
    elaborateLoop context (turns + 1)
        (dollarByte :: (text "parentObjectAddress" ++ 40 :: (argument ++ 41 :: t))) =
      elaborateLoop context turns
        (escapeSpecialCharactersInParserVariableName parent ++ t) := by
  have hword : (∀ c ∈ text "parentObjectAddress", isWordByte c = true) ∧
      text "parentObjectAddress" ≠ [] :=
    ⟨List.all_eq_true.1 (by decide), by decide⟩
  have hother : ¬(text "parentObjectAddress" = text "_" ∨
      text "parentObjectAddress" = text "thisObjectAddress") ∧
      text "parentObjectAddress" ≠ text "applyGenericFormula" := by
    decide
  have hsubstitution : ∀ after, substitution context
      { before := [], operation := text "parentObjectAddress", argument := some argument
        after := after } = .ok (escapeSpecialCharactersInParserVariableName parent) := by
    intro after
    rw [substitution, if_neg hother.1, if_neg hother.2, if_pos rfl]
    exact except_bind_eq_ok.2 ⟨levels, hlevels,
      except_bind_eq_ok.2 ⟨parent, hparent, rfl⟩⟩
  obtain ⟨hbytes, hargument⟩ := isArgumentByte_of_numLevelsUp hlevels
  rw [elaborateLoop, regexSearch_argument hword.1 hword.2 hbytes hargument]
  simp only [hsubstitution, List.nil_append]

/-- An expression for the object part takes one turn, which leaves this part escaped. -/
theorem elaborated_of_turn {parent member reference : Bytes}
    (hbackslash : 92 ∉ parent ++ dotByte :: member)
    (hdollar : dollarByte ∉ parent ++ dotByte :: member)
    (hturn : ∀ turns post, elaborateLoop context (turns + 1) (reference ++ post) =
      elaborateLoop context turns (escapeSpecialCharactersInParserVariableName parent ++
        dotByte :: escapedInFormula member ++ post)) :
    ∃ s n, dollarByte ∉ s ∧ s ≠ [] ∧ Closed s ∧
      unescaped s = escapeSpecialCharactersInParserVariableName (parent ++ dotByte :: member) ∧
      ∀ turns post, elaborateLoop context (turns + n) (reference ++ post) =
        elaborateLoop context turns (s ++ post) := by
  have hbackslash' := hbackslash
  simp only [List.mem_append, List.mem_cons, not_or] at hbackslash' hdollar
  refine ⟨_, 1, ?_, by simp, closed_member hbackslash, unescaped_member hbackslash'.1, hturn⟩
  simp only [List.mem_append, List.mem_cons, not_or]
  exact ⟨not_mem_escape (.inr rfl) hdollar.1, hdollar.2.1,
    not_mem_escapedInFormula rfl hdollar.2.2⟩

/-- In place of a reference, elaboration leaves text that the escaping turns into the parser
name of the address. -/
theorem RefersTo.elaborated {A reference : Bytes} (h : RefersTo context A reference) (hA : A ≠ [])
    (hbackslash : 92 ∉ A) (hdollar : dollarByte ∉ A) :
    ∃ s n, dollarByte ∉ s ∧ s ≠ [] ∧ Closed s ∧
      unescaped s = escapeSpecialCharactersInParserVariableName A ∧
      ∀ turns post, elaborateLoop context (turns + n) (reference ++ post) =
        elaborateLoop context turns (s ++ post) := by
  cases h with
  | written =>
      obtain ⟨c, A, rfl⟩ := List.exists_cons_of_ne_nil hA
      refine ⟨_, 0, not_mem_escapedInFormula rfl hdollar, ?_,
        closed_escapedInFormula hbackslash, unescaped_escapedInFormula _, fun _ _ => rfl⟩
      rw [← List.singleton_append, escapedInFormula_append]
      rcases escapedInFormula_singleton c with ⟨hc, -⟩ | ⟨hc, -⟩
      · simp [hc]
      · simp [hc]
  | thisObject operation member isThisObject =>
      refine elaborated_of_turn hbackslash hdollar fun turns post => ?_
      rw [List.cons_append, List.append_assoc, List.cons_append,
        elaborateLoop_thisObject isThisObject, List.append_assoc]
      rfl
  | parentObject argument parent member levels isLevels isParent =>
      refine elaborated_of_turn hbackslash hdollar fun turns post => ?_
      have hloop := elaborateLoop_parentObject isLevels isParent turns
        (dotByte :: escapedInFormula member ++ post)
      simpa only [List.cons_append, List.append_assoc] using hloop

end Elaboration

section Agreement

/-- The address that an entry of the configuration registers, and the name that formulas
find it under: that of a constant is the address as it is. -/
def Engine.Declaration.registers? : Engine.Declaration → Option (Bytes × Bytes)
  | .notifyingVariable nodeId =>
      some (nodeId, escapeSpecialCharactersInParserVariableName nodeId)
  | .calculatedVariable nodeId _ _ =>
      some (nodeId, escapeSpecialCharactersInParserVariableName nodeId)
  | .constant name => some (name, name)
  | .changeListener _ => none

def Engine.Declaration.isConstant : Engine.Declaration → Bool
  | .constant _ => true
  | _ => false

/-- A name that the parser finds a constant or a variable for. -/
def Engine.Finds (e : Engine) (name : Bytes) : Prop :=
  e.isConstantDefined name = true ∨ (e.boundTo name).isSome

/-- The loop of `replaceAll` comes to its end, with what one pass from left to right makes. -/
def ReplacesInOnePass (pattern replacement : Bytes) : Prop :=
  ∀ input, replaceAll input pattern replacement = onePass pattern replacement input ∧
    splitAtFirst pattern (replaceAll input pattern replacement) = none

/-- The substitutions of both escapes make one pass, and that over a formula touches escaped
signs only. -/
def EscapesInOnePass : Prop :=
  ReplacesInOnePass (text "\\-") DashSignVariableRepr ∧
    ReplacesInOnePass (text "\\/") SlashSignVariableRepr ∧
    ReplacesInOnePass (text "-") DashSignVariableRepr ∧
    ReplacesInOnePass (text "/") SlashSignVariableRepr ∧
    ∀ inputFormula, escapeSpecialCharactersInFormula inputFormula = unescaped inputFormula

/-- Wherever a formula in work refers to the address next, behind text with all expressions
gone, the elaborated formula has the name there, and the rest of it as it is elaborated on
its own. -/
def ReferencesBecome (A name : Bytes) : Prop :=
  ∀ context rawFormula pre reference post, RefersTo context A reference →
    InWork context rawFormula (pre ++ (reference ++ post)) → dollarByte ∉ pre →
    ∀ turns elaborated, elaborateLoop context turns post = some (.ok elaborated) →
      ∃ turns', elaborateFormula context turns' rawFormula =
        some (.ok (unescaped pre ++ (name ++ unescaped elaborated)))

theorem replacesInOnePass_of_disjoint {pattern replacement : Bytes} {c : UInt8}
    (hc : c ∈ pattern) (hreplacement : replacement ≠ [])
    (hdisjoint : pattern.Forall fun d => d ∉ replacement) :
    ReplacesInOnePass pattern replacement := by
  rw [List.forall_iff_forall_mem] at hdisjoint
  intro input
  exact ⟨replaceAll_eq_onePass (List.ne_nil_of_mem hc) hreplacement hdisjoint input,
    splitAtFirst_replaceAll hc (hdisjoint c hc)⟩

theorem escapesInOnePass : EscapesInOnePass := by
  refine ⟨?_, ?_, ?_, ?_, escapeSpecialCharactersInFormula_eq⟩
  · exact replacesInOnePass_of_disjoint (c := 45) (by decide) (by decide) (by decide)
  · exact replacesInOnePass_of_disjoint (c := 47) (by decide) (by decide) (by decide)
  · exact replacesInOnePass_of_disjoint (c := 45) (by decide) (by decide) (by decide)
  · exact replacesInOnePass_of_disjoint (c := 47) (by decide) (by decide) (by decide)

variable {A : Bytes} (hA : A ≠ []) (hbackslash : 92 ∉ A) (hdollar : dollarByte ∉ A)
include hA hbackslash hdollar

theorem referencesBecome_escaped :
    ReferencesBecome A (escapeSpecialCharactersInParserVariableName A) := by
  intro context rawFormula pre reference post hrefers hinWork hpre turns elaborated hpost
  obtain ⟨s, n, hs, hne, hclosed, hunescaped, hloop⟩ := hrefers.elaborated hA hbackslash hdollar
  obtain ⟨m, hm⟩ := hinWork.exists_turns
  refine ⟨turns + n + m, ?_⟩
  rw [elaborateFormula, hm, elaborateLoop_append_of_not_mem hpre, hloop,
    elaborateLoop_append_of_not_mem hs, hpost]
  simp only [Option.map_some, Except.map, escapeSpecialCharactersInFormula_eq]
  rw [hclosed.unescaped_insert hne, hunescaped]

omit hA hbackslash in
/-- No other name is in the elaborated formula: the address alone is one. -/
theorem eq_of_referencesBecome {name : Bytes} (h : ReferencesBecome A name) :
    escapeSpecialCharactersInParserVariableName A = name := by
  have hescaped := not_mem_escapedInFormula rfl hdollar
  have hloop : ∀ turns, elaborateLoop ⟨[], []⟩ turns (escapedInFormula A) = none ∨
      elaborateLoop ⟨[], []⟩ turns (escapedInFormula A) = some (.ok (escapedInFormula A)) := by
    intro turns
    have hstarts := @elaborateLoop_append_of_not_mem ⟨[], []⟩ _ hescaped turns []
    rw [List.append_nil] at hstarts
    rw [hstarts]
    rcases turns with _ | turns
    · exact .inl rfl
    · right
      simp [elaborateLoop, regexSearch, Except.map]
  obtain ⟨turns, hturns⟩ := h ⟨[], []⟩ (escapedInFormula A) [] (escapedInFormula A) []
    (.written A) (by simpa using InWork.start) (by simp) 1 [] rfl
  rw [elaborateFormula] at hturns
  rcases hloop turns with hnone | hsome
  · simp [hnone] at hturns
  · simp only [hsome, Option.map_some, Except.map, escapeSpecialCharactersInFormula_eq,
      unescaped_escapedInFormula, Option.some.injEq, Except.ok.injEq] at hturns
    simpa [unescaped] using hturns

end Agreement

namespace Engine

theorem declare_keeps_isConstantDefined {e e' : Engine} {declaration : Declaration} {name : Bytes}
    (hconstant : e.isConstantDefined name = true) (h : declare e declaration = .ok e') :
    e'.isConstantDefined name = true := by
  rcases declaration with nodeId | name' | ⟨nodeId, valueOperands, statusOperands⟩ | v
  · rw [← except_pure_eq_ok.1 h]
    exact hconstant
  · rw [← except_pure_eq_ok.1 h]
    simp only [registerConstantForCalculatedVariables, isConstantDefined, List.contains_cons,
      Bool.or_eq_true] at hconstant ⊢
    exact .inr hconstant
  · obtain ⟨e₁, hvalue, h⟩ := except_bind_eq_ok.1 h
    obtain ⟨e₂, hstatus, h⟩ := except_bind_eq_ok.1 h
    have hconstants : e'.parserConstants = e.parserConstants := by
      have hparsed := (isConstantDefined_of_requests hstatus).trans
        (isConstantDefined_of_requests hvalue)
      simp only [registered_calculatedVariable] at h
      rcases hcv : e₂.calculatedVariable e.numParserVariables with _ | cv
      · simp only [hcv] at h
        rw [← except_pure_eq_ok.1 h]
        exact hparsed
      · simp only [hcv] at h
        rw [← except_pure_eq_ok.1 h]
        exact hparsed
    rw [isConstantDefined, hconstants]
    exact hconstant
  · rw [← except_pure_eq_ok.1 h]
    exact hconstant

/-- Every name that the configuration registers is found. -/
theorem finds_of_configure {declarations : List Declaration} {e : Engine}
    (hconfigure : configure declarations = .ok e) {declaration : Declaration}
    (hmem : declaration ∈ declarations) {A name : Bytes}
    (hregisters : declaration.registers? = some (A, name)) : e.Finds name := by
  have hbound : ∀ nodeId ∈ registeredNodeIds declarations,
      e.Finds (escapeSpecialCharactersInParserVariableName nodeId) := by
    intro nodeId hnodeId
    have hnamed := named_of_configure hconfigure
    obtain ⟨p, hp⟩ := List.getElem?_of_mem hnodeId
    refine .inr (List.find?_isSome.mpr ⟨p, ?_, ?_⟩)
    · rw [hnamed.parserVariables_eq, List.mem_range]
      exact (List.getElem?_eq_some_iff.mp hp).1
    · simpa using hnamed.name_eq p nodeId hp
  rcases declaration with nodeId | constant | ⟨nodeId, valueOperands, statusOperands⟩ | v
  · cases hregisters
    exact hbound _ (List.mem_filterMap.mpr ⟨_, hmem, rfl⟩)
  · cases hregisters
    obtain ⟨before, after, rfl⟩ := List.append_of_mem hmem
    rw [configure, List.foldlM_append] at hconfigure
    obtain ⟨e₁, -, hconfigure⟩ := except_bind_eq_ok.1 hconfigure
    rw [List.foldlM_cons] at hconfigure
    obtain ⟨e₂, hdeclared, hrest⟩ := except_bind_eq_ok.1 hconfigure
    refine .inl (foldlM_keeps (I := fun s : Engine => s.isConstantDefined A = true) ?_ ?_ hrest)
    · intro s declaration s' hs hdeclare
      exact declare_keeps_isConstantDefined hs hdeclare
    · rw [← except_pure_eq_ok.1 hdeclared]
      simp [registerConstantForCalculatedVariables, isConstantDefined]
  · cases hregisters
    exact hbound _ (List.mem_filterMap.mpr ⟨_, hmem, rfl⟩)
  · cases hregisters

/-- References to a registered address become the name that it is found under, exactly
unless it is a constant with a dash or a slash in its address. -/
theorem referencesAgree_iff {declarations : List Declaration} {e : Engine}
    (hconfigure : configure declarations = .ok e) {declaration : Declaration}
    (hmem : declaration ∈ declarations) {A name : Bytes}
    (hregisters : declaration.registers? = some (A, name)) (hA : A ≠ []) (hbackslash : 92 ∉ A)
    (hdollar : dollarByte ∉ A) :
    EscapesInOnePass ∧ ReferencesBecome A name ∧ e.Finds name ↔
      declaration.isConstant = false ∨ 45 ∉ A ∧ 47 ∉ A := by
  have hescaped := referencesBecome_escaped hA hbackslash hdollar
  have hfinds := finds_of_configure hconfigure hmem hregisters
  rcases declaration with nodeId | constant | ⟨nodeId, valueOperands, statusOperands⟩ | v
  · cases hregisters
    exact ⟨fun _ => .inl rfl, fun _ => ⟨escapesInOnePass, hescaped, hfinds⟩⟩
  · cases hregisters
    constructor
    · rintro ⟨-, hbecome, -⟩
      exact .inr ((escapeSpecialCharactersInParserVariableName_eq_self_iff A).mp
        (eq_of_referencesBecome hdollar hbecome))
    · rintro (hvariable | hsigns)
      · cases hvariable
      · rw [(escapeSpecialCharactersInParserVariableName_eq_self_iff A).mpr hsigns] at hescaped
        exact ⟨escapesInOnePass, hescaped, hfinds⟩
  · cases hregisters
    exact ⟨fun _ => .inl rfl, fun _ => ⟨escapesInOnePass, hescaped, hfinds⟩⟩
  · cases hregisters

/-- A numeric configuration entry of the device that the documentation escapes. -/
def dashedConstant : Declaration :=
  .constant (text "Bus1/Device2-A.gain")

theorem dashedConstant_not_agree : ∃ e, configure [dashedConstant] = .ok e ∧
    dashedConstant.registers? = some (text "Bus1/Device2-A.gain", text "Bus1/Device2-A.gain") ∧
    92 ∉ text "Bus1/Device2-A.gain" ∧ dollarByte ∉ text "Bus1/Device2-A.gain" ∧
    ¬(EscapesInOnePass ∧
      ReferencesBecome (text "Bus1/Device2-A.gain") (text "Bus1/Device2-A.gain") ∧
      e.Finds (text "Bus1/Device2-A.gain")) := by
  refine ⟨_, rfl, rfl, by decide, by decide, ?_⟩
  rintro ⟨-, hbecome, -⟩
  have hname := eq_of_referencesBecome (by decide) hbecome
  revert hname
  decide

theorem referencesAgree_iff_voltage : ∃ e,
    configure [.notifyingVariable (text "Bus1/Device2-A.voltage")] = .ok e ∧
      EscapesInOnePass ∧
      ReferencesBecome (text "Bus1/Device2-A.voltage")
        (escapeSpecialCharactersInParserVariableName (text "Bus1/Device2-A.voltage")) ∧
      e.Finds (escapeSpecialCharactersInParserVariableName (text "Bus1/Device2-A.voltage")) := by
  obtain ⟨e, hconfigure⟩ : ∃ e,
      configure [.notifyingVariable (text "Bus1/Device2-A.voltage")] = .ok e := ⟨_, rfl⟩
  refine ⟨e, hconfigure, ?_⟩
  exact (referencesAgree_iff hconfigure List.mem_cons_self rfl (by decide)
    (by decide) (by decide)).mpr (.inl rfl)

end Engine

end CalculatedVariables

end Supernova
