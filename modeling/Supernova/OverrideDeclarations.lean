/-
When the migration of a header is complete and harmless: the declarations of the expected
methods get `override`, nothing else changes, and another run has nothing to do.
-/
import Supernova.OverrideUpgrade

namespace Supernova

namespace DeviceClassAnalyzer

section Promise

variable (platform : Platform) (expected : List MethodName)

def isWordCharacter (c : Char) : Bool := c.isAlphanum || c = '_'

/-- `UaStatus name(parameters` of an expected method, without nested parentheses. -/
def IsDeclaration (declaration : Text) : Prop :=
  ∃ method ∈ expected, ∃ head parameters, declaration = head ++ parameters ∧
    IsHead method head ∧ '(' ∉ parameters ∧ ')' ∉ parameters

/-- A declaration stands at the end, and `UaStatus` is not the end of another word. -/
def Declares (done : Text) : Prop :=
  ∃ before declaration, done = before ++ declaration ∧
    (∀ c ∈ before.getLast?, isWordCharacter c = false) ∧ IsDeclaration expected declaration

/-- What the migration promises of a header and of the same header afterwards. -/
structure Upgraded (header upgraded : Text) : Prop where
  harmless : closing.Marked (Declares expected) [] header upgraded
  complete : ¬closing.Bare (Declares expected) upgraded
  idempotent : upgradeHeader platform expected upgraded = upgraded

/-- The pattern of an expected method ends behind this piece, and the leftmost match has no
`override` in it. -/
def opened (piece : Text) : Bool := expected.any (opens · (readLines piece))

/-- What is left of a piece where `override` goes in front of it. -/
def kept (piece next : Text) : Text :=
  if opened expected piece = true ∧ closing.AtStop next then next.dropWhile isSpace else next

/-- The line ends of a header, piece by piece, are those of the platform, except in blanks
that give way to `override`. -/
def KeepsLineEnds (pieces : List Text) : Prop :=
  (∀ piece ∈ pieces.head?, Stable platform piece) ∧
    pieces.IsChain fun piece next => Stable platform (kept expected piece next)

/-- Before `);` stands a declaration exactly if there is such a match, and if there is one
anywhere, the line ends are kept. -/
structure FavourableHeader (header : Text) : Prop where
  declarations : (header.splitOn ')').IsChain fun piece next =>
    closing.AtStop next → (opened expected piece = true ↔ Declares expected piece)
  lineEnds : ¬(header.splitOn ')').IsChain
      (fun piece next => closing.AtStop next → opened expected piece = false) →
    KeepsLineEnds platform expected (header.splitOn ')')

end Promise

section Declarations

variable {expected : List MethodName}

theorem IsDeclaration.closeParenthesis_notMem {declaration : Text}
    (h : IsDeclaration expected declaration) : ')' ∉ declaration := by
  obtain ⟨method, -, head, parameters, rfl, hhead, -, hparameters⟩ := h
  rw [List.mem_append, not_or]
  exact ⟨hhead.closeParenthesis_notMem, hparameters⟩

theorem IsDeclaration.head? {declaration : Text} (h : IsDeclaration expected declaration) :
    declaration.head? = some 'U' := by
  obtain ⟨method, -, head, parameters, rfl, hhead, -, -⟩ := h
  exact hhead.head? parameters

/-- A text in which no declaration begins can be left out in front of a character that ends
a word. -/
theorem declares_append_cons {front : Text} {c : Char} {piece : Text}
    (hc : isWordCharacter c = false)
    (hfront : ∀ back, back <:+ front → ¬IsDeclaration expected (back ++ c :: piece)) :
    Declares expected (front ++ c :: piece) ↔ Declares expected piece := by
  constructor
  · rintro ⟨before, declaration, heq, hbefore, hdeclaration⟩
    rcases List.append_eq_append_iff.mp heq with ⟨m, rfl, hm⟩ | ⟨m, rfl, rfl⟩
    · cases m with
      | nil =>
          rw [List.nil_append] at hm
          exact absurd (hm ▸ hdeclaration) (hfront [] List.nil_suffix)
      | cons d m =>
          rw [List.cons_append, List.cons.injEq] at hm
          obtain ⟨rfl, rfl⟩ := hm
          refine ⟨m, declaration, rfl, ?_, hdeclaration⟩
          intro d hd
          refine hbefore d ?_
          rw [List.getLast?_append, List.getLast?_cons, Option.mem_def.mp hd]
          rfl
    · exact absurd hdeclaration (hfront m (List.suffix_append _ _))
  · rintro ⟨before, declaration, rfl, hbefore, hdeclaration⟩
    refine ⟨front ++ c :: before, declaration, by simp, ?_, hdeclaration⟩
    intro d hd
    rw [List.getLast?_append, List.getLast?_cons] at hd
    rcases hlast : before.getLast? with _ | last
    · rw [hlast] at hd
      cases hd
      exact hc
    · rw [hlast] at hd
      cases hd
      exact hbefore _ hlast

theorem declares_semicolon {front : Text} (hfront : 'U' ∉ front) (piece : Text) :
    Declares expected (front ++ ';' :: piece) ↔ Declares expected piece := by
  refine declares_append_cons (by decide) ?_
  intro back hback hdeclaration
  have hhead := hdeclaration.head?
  cases back with
  | nil => exact absurd hhead (by simp)
  | cons c back =>
      cases hhead
      exact hfront (hback.subset List.mem_cons_self)

theorem local_declares : closing.Local (Declares expected) where
  close before done := by
    refine declares_append_cons (by decide) ?_
    intro back _ hdeclaration
    exact hdeclaration.closeParenthesis_notMem
      (List.mem_append_right back List.mem_cons_self)
  mark gap piece hgap :=
    (declares_semicolon (by decide) piece).trans
      (declares_semicolon (notMem_blanks hgap) piece).symm

end Declarations

section Headers

variable {platform : Platform} {expected : List MethodName}

theorem upgradeHeader_of_eq {header : Text}
    (h : addOverrides expected (readLines header) = readLines header) :
    upgradeHeader platform expected header = header :=
  if_neg fun hne => hne h

theorem upgradeHeader_of_ne {header : Text}
    (h : addOverrides expected (readLines header) ≠ readLines header) :
    upgradeHeader platform expected header =
      writeLines platform (addOverrides expected (readLines header)) :=
  if_pos h

theorem return_notMem_addOverrides (header : Text) :
    '\r' ∉ addOverrides expected (readLines header) := by
  rw [addOverrides_eq_mendText]
  exact Marking.notMem_mendText (by decide) (return_notMem_readLines header)

/-- Another run reads what the first one wrote and finds nothing to do. -/
theorem upgradeHeader_upgradeHeader (platform : Platform) (expected : List MethodName)
    (header : Text) : upgradeHeader platform expected (upgradeHeader platform expected header) =
      upgradeHeader platform expected header := by
  by_cases h : addOverrides expected (readLines header) = readLines header
  · rw [upgradeHeader_of_eq h, upgradeHeader_of_eq h]
  · rw [upgradeHeader_of_ne h]
    apply upgradeHeader_of_eq
    rw [readLines_writeLines platform (return_notMem_addOverrides header),
      addOverrides_addOverrides]

variable {piece : Text} {pieces : List Text}

/-- Some expected method, without a look at line ends. -/
def opensSome (expected : List MethodName) (piece : Text) : Bool :=
  expected.any (opens · piece)

theorem addOverrides_readLines (hpiece : ')' ∉ piece) (hpieces : ∀ next ∈ pieces, ')' ∉ next) :
    addOverrides expected (readLines (closing.join piece pieces)) =
      closing.join (readLines piece)
        (closing.mendAll (opensSome expected) (readLines piece) (pieces.map readLines)) := by
  rw [addOverrides_eq_mendText, readLines_join, Marking.mendText_join]
  · rfl
  · exact closeParenthesis_notMem_readLines hpiece
  · rw [List.forall_mem_map]
    exact fun next hnext => closeParenthesis_notMem_readLines (hpieces next hnext)

theorem splitOn_readLines (header : Text) :
    (readLines header).splitOn ')' = (header.splitOn ')').map readLines := by
  obtain ⟨piece, pieces, hpiece, hpieces, rfl⟩ := closing.exists_join header
  have hread : ∀ next ∈ pieces.map readLines, closing.close ∉ next := by
    rw [List.forall_mem_map]
    exact fun next hnext => closeParenthesis_notMem_readLines (hpieces next hnext)
  have hsplit : (closing.join piece pieces).splitOn ')' = piece :: pieces :=
    Marking.splitOn_join hpiece hpieces
  rw [hsplit, readLines_join]
  exact Marking.splitOn_join (closeParenthesis_notMem_readLines hpiece) hread

theorem addOverrides_eq_iff (header : Text) :
    addOverrides expected (readLines header) = readLines header ↔
      (header.splitOn ')').IsChain fun piece next =>
        closing.AtStop next → opened expected piece = false := by
  have hsplit : (readLines header).splitOn closing.close = (header.splitOn ')').map readLines :=
    splitOn_readLines header
  rw [addOverrides_eq_mendText, Marking.mendText_eq_self_iff, hsplit, List.isChain_map]
  simp only [atStop_readLines]
  rfl

/-- One piece as it is written. -/
theorem writeLines_mend (next : Text) :
    writeLines platform (closing.mend (opened expected piece) (readLines next)) =
      if opened expected piece = true ∧ closing.AtStop next then
        closing.mark ++ writeLines platform (readLines (kept expected piece next))
      else writeLines platform (readLines (kept expected piece next)) := by
  by_cases h : opened expected piece = true ∧ closing.AtStop next
  · rw [if_pos h, kept, if_pos h, h.1, writeLines_mend_of_atStop platform h.2]
  · rw [if_neg h, kept, if_neg h, Marking.mend, if_neg]
    rwa [atStop_readLines]

theorem writeLines_mend_of_stable {next : Text} (h : Stable platform (kept expected piece next)) :
    writeLines platform (closing.mend (opened expected piece) (readLines next)) =
      closing.mend (opened expected piece) next := by
  rw [writeLines_mend, h, Marking.mend, kept]
  split_ifs
  · rfl
  · rfl

theorem atStop_writeLines {next : Text} (h : '\r' ∉ next) :
    closing.AtStop (writeLines platform next) ↔ closing.AtStop next := by
  rw [← atStop_readLines, readLines_writeLines platform h]

theorem stable_of_marked {D : Text → Prop} {next : Text}
    (h : writeLines platform (closing.mend (opened expected piece) (readLines next)) = next ∨
      D piece ∧ closing.AtStop next ∧
        writeLines platform (closing.mend (opened expected piece) (readLines next)) =
          closing.mark ++ next.dropWhile isSpace) :
    Stable platform (kept expected piece next) := by
  rw [writeLines_mend] at h
  by_cases hopened : opened expected piece = true ∧ closing.AtStop next
  · rw [if_pos hopened] at h
    rcases h with heq | ⟨-, -, heq⟩
    · exact absurd hopened.2 (heq ▸ Marking.not_atStop_mark _)
    · rw [List.append_cancel_left_eq] at heq
      rw [Stable, heq, kept, if_pos hopened]
  · rw [if_neg hopened, kept, if_neg hopened] at h
    rw [kept, if_neg hopened]
    rcases h with heq | ⟨-, hstop, heq⟩
    · exact heq
    · -- where nothing is written, a semicolon still follows
      have hstop' : closing.AtStop (writeLines platform (readLines next)) := by
        rwa [atStop_writeLines (return_notMem_readLines next), atStop_readLines]
      exact absurd hstop' (heq ▸ Marking.not_atStop_mark _)

theorem keepsLineEnds_of_marked {D : Text → Prop}
    (h : closing.MarkedPieces D piece pieces
      ((closing.mendAll (opensSome expected) (readLines piece) (pieces.map readLines)).map
        (writeLines platform))) :
    (piece :: pieces).IsChain fun piece next => Stable platform (kept expected piece next) := by
  induction pieces generalizing piece with
  | nil => exact List.isChain_singleton _
  | cons next pieces ih =>
      rw [List.map_cons, Marking.mendAll, List.map_cons, Marking.MarkedPieces] at h
      exact List.isChain_cons_cons.mpr ⟨stable_of_marked h.1, ih h.2⟩

theorem map_writeLines_mendAll
    (h : (piece :: pieces).IsChain fun piece next => Stable platform (kept expected piece next)) :
    (closing.mendAll (opensSome expected) (readLines piece) (pieces.map readLines)).map
      (writeLines platform) = closing.mendAll (opened expected) piece pieces := by
  induction pieces generalizing piece with
  | nil => rfl
  | cons next pieces ih =>
      rw [List.isChain_cons_cons] at h
      rw [List.map_cons, Marking.mendAll, List.map_cons, Marking.mendAll, ih h.2]
      exact congrArg (· :: _) (writeLines_mend_of_stable h.1)

/-- A header whose line ends are kept is upgraded as if it was not read and written. -/
theorem writeLines_addOverrides {header : Text}
    (h : KeepsLineEnds platform expected (header.splitOn ')')) :
    writeLines platform (addOverrides expected (readLines header)) =
      closing.mendText (opened expected) header := by
  obtain ⟨piece, pieces, hpiece, hpieces, rfl⟩ := closing.exists_join header
  have hsplit : (closing.join piece pieces).splitOn ')' = piece :: pieces :=
    Marking.splitOn_join hpiece hpieces
  rw [hsplit] at h
  rw [addOverrides_readLines hpiece hpieces, writeLines_join, map_writeLines_mendAll h.2,
    Marking.mendText_join hpiece hpieces, h.1 piece rfl]

theorem keepsLineEnds_of_harmless {header : Text}
    (h : closing.Marked (Declares expected) [] header
      (writeLines platform (addOverrides expected (readLines header)))) :
    KeepsLineEnds platform expected (header.splitOn ')') := by
  obtain ⟨piece, pieces, hpiece, hpieces, rfl⟩ := closing.exists_join header
  have hsplit : (closing.join piece pieces).splitOn ')' = piece :: pieces :=
    Marking.splitOn_join hpiece hpieces
  have hread : ∀ next ∈ pieces.map readLines, closing.close ∉ next := by
    rw [List.forall_mem_map]
    exact fun next hnext => closeParenthesis_notMem_readLines (hpieces next hnext)
  rw [addOverrides_readLines hpiece hpieces, writeLines_join,
    Marking.marked_join_iff local_declares hpieces _ hpiece _ Iff.rfl] at h
  · rw [hsplit]
    refine ⟨?_, keepsLineEnds_of_marked h.2⟩
    rintro _ ⟨⟩
    exact h.1.symm
  · rw [List.forall_mem_map]
    intro next hnext
    exact closeParenthesis_notMem_writeLines platform
      (Marking.close_notMem_mendAll hread next hnext)
  · exact closeParenthesis_notMem_writeLines platform (closeParenthesis_notMem_readLines hpiece)

/-- The promise is kept exactly for favourable headers. -/
theorem upgraded_upgradeHeader_iff (header : Text) :
    Upgraded platform expected header (upgradeHeader platform expected header) ↔
      FavourableHeader platform expected header := by
  have hmended := @Marking.marked_and_not_bare_iff _ closing _ (Declares expected)
    (opened expected) local_declares header
  have hagain := upgradeHeader_upgradeHeader platform expected header
  by_cases h : addOverrides expected (readLines header) = readLines header
  · -- nothing is written, and the line ends do not matter
    have huntouched := (addOverrides_eq_iff header).mp h
    rw [Marking.mendText_eq_self_iff.2 huntouched] at hmended
    rw [upgradeHeader_of_eq h] at hagain ⊢
    constructor
    · rintro ⟨hharmless, hcomplete, -⟩
      exact ⟨hmended.mp ⟨hharmless, hcomplete⟩, fun hopened => absurd huntouched hopened⟩
    · rintro ⟨hdeclarations, -⟩
      obtain ⟨hharmless, hcomplete⟩ := hmended.mpr hdeclarations
      exact ⟨hharmless, hcomplete, hagain⟩
  · rw [upgradeHeader_of_ne h] at hagain ⊢
    constructor
    · rintro ⟨hharmless, hcomplete, -⟩
      have hkeeps := keepsLineEnds_of_harmless hharmless
      rw [writeLines_addOverrides hkeeps] at hharmless hcomplete
      exact ⟨hmended.mp ⟨hharmless, hcomplete⟩, fun _ => hkeeps⟩
    · rintro ⟨hdeclarations, hlineEnds⟩
      obtain ⟨hharmless, hcomplete⟩ := hmended.mpr hdeclarations
      rw [addOverrides_eq_iff] at h
      have hwritten := writeLines_addOverrides (hlineEnds h)
      rw [hwritten] at hagain ⊢
      exact ⟨hharmless, hcomplete, hagain⟩

end Headers

section Classes

variable {platform : Platform}

theorem upgradeClass_self (headers : Headers) (this : DesignClass) :
    upgradeClass platform headers this this.name =
      (headers this.name).map (upgradeHeader platform (getExpectedVirtualMethods this)) := by
  rw [upgradeClass]
  rcases h : headers this.name with _ | header
  · exact h
  · exact Function.update_self _ _ _

theorem upgradeClass_of_ne (headers : Headers) {this : DesignClass} {name : Text}
    (h : name ≠ this.name) : upgradeClass platform headers this name = headers name := by
  rw [upgradeClass]
  rcases headers this.name with _ | header
  · rfl
  · exact Function.update_of_ne h _ _

theorem foldl_upgradeClass_of_notMem {classes : List DesignClass} {name : Text}
    (h : ∀ this ∈ classes, name ≠ this.name) (headers : Headers) :
    classes.foldl (upgradeClass platform) headers name = headers name := by
  induction classes generalizing headers with
  | nil => rfl
  | cons this classes ih =>
      rw [List.forall_mem_cons] at h
      rw [List.foldl_cons, ih h.2, upgradeClass_of_ne headers h.1]

theorem foldl_upgradeClass_of_mem {classes : List DesignClass}
    (hnodup : (classes.map DesignClass.name).Nodup) {this : DesignClass} (hthis : this ∈ classes)
    (headers : Headers) : classes.foldl (upgradeClass platform) headers this.name =
      (headers this.name).map (upgradeHeader platform (getExpectedVirtualMethods this)) := by
  induction classes generalizing headers with
  | nil => cases hthis
  | cons first classes ih =>
      rw [List.map_cons, List.nodup_cons] at hnodup
      have hne : ∀ other ∈ classes, first.name ≠ other.name := by
        intro other hother heq
        exact hnodup.1 (heq ▸ List.mem_map_of_mem hother)
      rw [List.foldl_cons]
      rcases List.mem_cons.mp hthis with rfl | hthis
      · rw [foldl_upgradeClass_of_notMem hne, upgradeClass_self]
      · rw [ih hnodup.2 hthis, upgradeClass_of_ne headers (hne this hthis).symm]

variable (platform) (design : Design) (headers : Headers)

theorem addOverrideToDeviceClasses_of_mem {this : DesignClass} (hthis : this ∈ design.classes)
    (hlogic : this.deviceLogic = true) :
    addOverrideToDeviceClasses platform design headers this.name =
      (headers this.name).map (upgradeHeader platform (getExpectedVirtualMethods this)) := by
  have hnodup : ((design.classes.filter DesignClass.deviceLogic).map DesignClass.name).Nodup :=
    design.classKey.sublist (List.filter_sublist.map _)
  exact foldl_upgradeClass_of_mem hnodup (List.mem_filter.mpr ⟨hthis, hlogic⟩) headers

theorem addOverrideToDeviceClasses_of_notMem {name : Text}
    (h : ∀ this ∈ design.classes, this.deviceLogic = true → name ≠ this.name) :
    addOverrideToDeviceClasses platform design headers name = headers name := by
  refine foldl_upgradeClass_of_notMem ?_ headers
  intro this hthis
  obtain ⟨hmem, hlogic⟩ := List.mem_filter.mp hthis
  exact h this hmem hlogic

/-- The migration of all classes upgrades the header of each class with device logic and
nothing else; the promise is kept exactly for favourable headers. -/
theorem overrideUpgrade_iff :
    (∀ (expected : List MethodName) (header : Text),
      Upgraded platform expected header (upgradeHeader platform expected header) ↔
        FavourableHeader platform expected header) ∧
    (∀ this ∈ design.classes, this.deviceLogic = true →
      addOverrideToDeviceClasses platform design headers this.name =
        (headers this.name).map (upgradeHeader platform (getExpectedVirtualMethods this))) ∧
    ∀ name, (∀ this ∈ design.classes, this.deviceLogic = true → name ≠ this.name) →
      addOverrideToDeviceClasses platform design headers name = headers name :=
  ⟨fun _ header => upgraded_upgradeHeader_iff header,
    fun _ hthis hlogic => addOverrideToDeviceClasses_of_mem platform design headers hthis hlogic,
    fun _ h => addOverrideToDeviceClasses_of_notMem platform design headers h⟩

theorem isNameCharacter_limit : ∀ c ∈ "imit".toList, isNameCharacter c = true :=
  List.all_eq_true.mp rfl

/-- A delegated variable `limit`. -/
def limitVariable : VariableName where
  first := 'l'
  rest := "imit".toList
  isAlpha_first := by decide
  isNameCharacter_rest := isNameCharacter_limit

/-- The parameter of this declaration is called `overrideLimit`. -/
def limitHeader : Text := "UaStatus writeLimit(OpcUa_Float overrideLimit);".toList

theorem upgradeHeader_limitHeader :
    upgradeHeader .posix [methodName .write limitVariable] limitHeader = limitHeader := by
  decide

theorem limitHeader_not_upgraded : ¬Upgraded .posix [methodName .write limitVariable] limitHeader
    (upgradeHeader .posix [methodName .write limitVariable] limitHeader) := by
  rw [upgradeHeader_limitHeader]
  intro h
  refine h.complete ⟨"UaStatus writeLimit(OpcUa_Float overrideLimit".toList, [], [], by decide,
    fun _ hc => absurd hc List.not_mem_nil, [],
    "UaStatus writeLimit(OpcUa_Float overrideLimit".toList, rfl, by simp,
    methodName .write limitVariable, List.mem_singleton.mpr rfl,
    "UaStatus writeLimit(".toList, "OpcUa_Float overrideLimit".toList, by decide, ?_,
    by decide, by decide⟩
  exact ⟨[' '], [], by decide, by decide, List.all_eq_true.mp rfl, List.forall_mem_nil _⟩

end Classes

end DeviceClassAnalyzer

end Supernova
