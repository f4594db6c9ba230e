/-
What the migration does to a header, piece by piece between its closing parentheses, and
when it is complete and harmless.
-/
import Supernova.DeviceClassAnalyzer
import Supernova.MarkedPieces

namespace Supernova

namespace DeviceClassAnalyzer

/-- `override` goes between a closing parenthesis and a semicolon. -/
def closing : Marking Char where
  close := ')'
  stop := ';'
  blank := isSpace
  mark := " override".toList
  stop_ne_close := by decide
  close_not_blank := by decide
  stop_not_blank := by decide
  close_notMem_mark := by decide
  mark_front := ⟨'o', "verride".toList, by decide, by decide⟩

/-- The leftmost match that begins in a piece, if there is one, has no `override` in it. -/
def opens (method : MethodName) : Text → Bool
  | [] => false
  | c :: s =>
      if (matchHead method (c :: s)).isSome then !decide (overrideWord <:+: c :: s)
      else opens method s

section Pieces

variable {method : MethodName}

theorem matchHead_eq_none {c : Char} (hc : c ≠ 'U') (text : Text) :
    matchHead method (c :: text) = none := by
  rw [Option.eq_none_iff_forall_ne_some]
  intro rest hrest
  obtain ⟨head, hhead, heq⟩ := matchHead_eq_some_iff.1 hrest
  have hU := hhead.head? rest
  rw [← heq] at hU
  exact hc (Option.some.inj hU)

theorem matchHead_append (piece tail : Text) :
    matchHead method (piece ++ ')' :: tail) =
      (matchHead method piece).map (· ++ ')' :: tail) := by
  ext rest
  rw [Option.map_eq_some_iff]
  simp only [matchHead_eq_some_iff]
  constructor
  · rintro ⟨head, hhead, heq⟩
    have hjoin : closing.join piece [tail] = head ++ rest := by
      rw [Marking.join_cons, Marking.join_nil]
      exact heq
    obtain ⟨rest', rfl, rfl⟩ := Marking.join_eq_append hhead.closeParenthesis_notMem hjoin
    refine ⟨rest', ⟨head, hhead, rfl⟩, ?_⟩
    rw [Marking.join_cons, Marking.join_nil]
    rfl
  · rintro ⟨rest, ⟨head, hhead, rfl⟩, rfl⟩
    exact ⟨head, hhead, List.append_assoc _ _ _⟩

theorem matchDeclaration_eq_none {text : Text} (h : matchHead method text = none) :
    matchDeclaration method text = none := by
  rw [matchDeclaration, h]
  rfl

/-- A match does not end before the closing parenthesis. -/
theorem matchDeclaration_piece {piece : Text} (hpiece : ')' ∉ piece) :
    matchDeclaration method piece = none := by
  rcases h : matchHead method piece with _ | rest
  · exact matchDeclaration_eq_none h
  · obtain ⟨head, -, rfl⟩ := matchHead_eq_some_iff.1 h
    have hnil : rest.dropWhile (· ≠ ')') = [] := by
      rw [List.dropWhile_eq_nil_iff]
      intro c hc
      rw [decide_eq_true_eq]
      rintro rfl
      exact hpiece (List.mem_append_right _ hc)
    rw [matchDeclaration, h]
    simp only [Option.bind_eq_bind, Option.bind_some, hnil]
    rfl

theorem dropWhile_closeParenthesis {rest : Text} (hrest : ')' ∉ rest) (tail : Text) :
    (rest ++ ')' :: tail).dropWhile (· ≠ ')') = ')' :: tail := by
  rw [List.dropWhile_append_of_pos, List.dropWhile_cons_of_neg]
  · simp
  · intro c hc
    rw [decide_eq_true_eq]
    rintro rfl
    exact hrest hc

theorem matchDeclaration_append {piece : Text} (hpiece : ')' ∉ piece)
    (hmatch : (matchHead method piece).isSome = true) {gap : Text}
    (hgap : ∀ c ∈ gap, isSpace c = true) (rest : Text) :
    matchDeclaration method (piece ++ ')' :: (gap ++ ';' :: rest)) =
      some (piece ++ [')'], piece ++ ')' :: (gap ++ [';'])) := by
  obtain ⟨parameters, hparameters⟩ := Option.isSome_iff_exists.mp hmatch
  obtain ⟨head, -, rfl⟩ := matchHead_eq_some_iff.1 hparameters
  rw [List.mem_append, not_or] at hpiece
  have hstop := closing.dropWhile_stop hgap rest
  have hgroup : ∀ front back : Text,
      (front ++ back).take ((front ++ back).length - back.length) = front := by
    intro front back
    rw [List.length_append, Nat.add_sub_cancel, List.take_left]
  rw [matchDeclaration, matchHead_append, hparameters]
  simp only [Option.bind_eq_bind, Option.map_some, Option.bind_some,
    dropWhile_closeParenthesis hpiece.2]
  have hclose : (')' :: (gap ++ ';' :: rest)).dropPrefix? [')'] = some (gap ++ ';' :: rest) :=
    dropPrefix?_eq_some.2 rfl
  have hsemicolon : ((gap ++ ';' :: rest).dropWhile isSpace).dropPrefix? [';'] = some rest :=
    dropPrefix?_eq_some.2 hstop
  rw [hclose, Option.bind_some, hsemicolon, Option.bind_some]
  refine congrArg some (Prod.ext ?_ ?_)
  · simpa only [List.append_assoc, List.cons_append, List.nil_append] using
      hgroup (head ++ parameters ++ [')']) (gap ++ ';' :: rest)
  · simpa only [List.append_assoc, List.cons_append, List.nil_append] using
      hgroup (head ++ parameters ++ ')' :: (gap ++ [';'])) rest

theorem matchDeclaration_of_not_atStop {piece tail : Text} (hpiece : ')' ∉ piece)
    (htail : ¬closing.AtStop tail) : matchDeclaration method (piece ++ ')' :: tail) = none := by
  rcases hmatch : matchHead method piece with _ | parameters
  · refine matchDeclaration_eq_none ?_
    rw [matchHead_append, hmatch]
    rfl
  · obtain ⟨head, -, rfl⟩ := matchHead_eq_some_iff.1 hmatch
    rw [List.mem_append, not_or] at hpiece
    rw [matchDeclaration, matchHead_append, hmatch]
    simp only [Option.bind_eq_bind, Option.map_some, Option.bind_some,
      dropWhile_closeParenthesis hpiece.2]
    have hclose : (')' :: tail).dropPrefix? [')'] = some tail := dropPrefix?_eq_some.2 rfl
    have hsemicolon : (tail.dropWhile isSpace).dropPrefix? [';'] = none := by
      rw [Option.eq_none_iff_forall_ne_some]
      intro rest hrest
      refine htail (List.head?_eq_some_iff.mpr ⟨rest, dropPrefix?_eq_some.1 hrest⟩)
    rw [hclose, Option.bind_some, hsemicolon, Option.bind_none]

theorem overrideWord_infix_append {s t : Text} (ht : ∀ c ∈ overrideWord, c ∉ t) :
    overrideWord <:+: s ++ t ↔ overrideWord <:+: s := by
  rw [List.infix_append_iff_ne_nil]
  refine or_iff_left ?_
  rintro (h | ⟨front, back, -, hback, hword, -, hstart⟩)
  · exact ht 'o' (by decide) (h.subset (by decide))
  · obtain ⟨c, back, rfl⟩ := List.exists_cons_of_ne_nil hback
    exact ht c (by simp [hword]) (hstart.subset List.mem_cons_self)

theorem addOverride_eq_none {text : Text} (h : matchDeclaration method text = none) :
    addOverride method text = none := by
  rw [addOverride, h]
  rfl

theorem overrideWord_letters :
    ∀ c ∈ overrideWord, isSpace c = false ∧ c ≠ ')' ∧ c ≠ ';' := by
  intro c hc
  have hword : (overrideWord.all fun c => !isSpace c && c ≠ ')' && c ≠ ';') = true := rfl
  simpa [and_assoc] using List.all_eq_true.mp hword c hc

theorem addOverride_append {piece : Text} (hpiece : ')' ∉ piece)
    (hmatch : (matchHead method piece).isSome = true) {gap : Text}
    (hgap : ∀ c ∈ gap, isSpace c = true) (rest : Text) :
    addOverride method (piece ++ ')' :: (gap ++ ';' :: rest)) =
      some (piece ++ ')' :: (gap ++ [';']), if overrideWord <:+: piece then
        piece ++ ')' :: (gap ++ [';']) else piece ++ ')' :: (closing.mark ++ [';'])) := by
  have hword : overrideWord <:+: piece ++ ')' :: (gap ++ [';']) ↔ overrideWord <:+: piece := by
    refine overrideWord_infix_append ?_
    intro c hc hmem
    obtain ⟨hspace, hclose, hsemicolon⟩ := overrideWord_letters c hc
    simp only [List.mem_cons, List.mem_append, List.not_mem_nil, hclose, hsemicolon, or_false,
      false_or] at hmem
    exact Bool.false_ne_true (hspace ▸ hgap c hmem)
  rw [addOverride, matchDeclaration_append hpiece hmatch hgap]
  simp only [Option.map_some, hword, List.append_assoc]
  rfl

theorem substitute_gap {gap : Text} (hgap : ∀ c ∈ gap, isSpace c = true) (rest : Text) :
    substituteMatches (addOverride method) (gap ++ ';' :: rest) =
      gap ++ ';' :: substituteMatches (addOverride method) rest := by
  rw [List.append_cons, substituteMatches_append_of_none, ← List.append_cons]
  intro back hback hne
  obtain ⟨c, back, rfl⟩ := List.exists_cons_of_ne_nil hne
  have hc : c ∈ gap ++ [';'] := hback.subset List.mem_cons_self
  refine addOverride_eq_none (matchDeclaration_eq_none (matchHead_eq_none ?_ _))
  rintro rfl
  rcases List.mem_append.mp hc with hspace | hsemicolon
  · exact absurd (hgap _ hspace) (by decide)
  · exact absurd hsemicolon (by decide)

/-- The text up to a semicolon behind a piece. -/
theorem substitute_atStop {piece : Text} (hpiece : ')' ∉ piece) {gap : Text}
    (hgap : ∀ c ∈ gap, isSpace c = true) (rest : Text) :
    substituteMatches (addOverride method) (piece ++ ')' :: (gap ++ ';' :: rest)) =
      piece ++ ')' :: ((if opens method piece = true then closing.mark else gap) ++
        ';' :: substituteMatches (addOverride method) rest) := by
  induction piece with
  | nil =>
      rw [List.nil_append, substituteMatches_cons_of_none, substitute_gap hgap]
      · rfl
      · exact addOverride_eq_none (matchDeclaration_eq_none (matchHead_eq_none (by decide) _))
  | cons c piece ih =>
      have hpiece' : ')' ∉ piece := fun hmem => hpiece (List.mem_cons_of_mem c hmem)
      rcases hmatch : (matchHead method (c :: piece)).isSome with _ | _
      · have hhead : matchHead method (c :: piece) = none := by simpa using hmatch
        rw [List.cons_append, substituteMatches_cons_of_none, ih hpiece', opens, hmatch]
        · rfl
        · refine addOverride_eq_none (matchDeclaration_eq_none ?_)
          rw [← List.cons_append, matchHead_append, hhead]
          rfl
      · have hmatched := addOverride_append hpiece hmatch hgap rest
        have hne : c :: piece ++ ')' :: (gap ++ [';']) ≠ [] := List.cons_ne_nil _ _
        rw [opens, hmatch]
        have hcut : c :: piece ++ ')' :: (gap ++ ';' :: rest) =
            c :: piece ++ ')' :: (gap ++ [';']) ++ rest := by simp
        rw [hcut] at hmatched ⊢
        rw [substituteMatches_of_match hne hmatched]
        by_cases hword : overrideWord <:+: c :: piece
        · simp [hword]
        · simp [hword, closing]

theorem substitute_of_not_atStop {piece tail : Text} (hpiece : ')' ∉ piece)
    (htail : ¬closing.AtStop tail) :
    substituteMatches (addOverride method) (piece ++ ')' :: tail) =
      piece ++ ')' :: substituteMatches (addOverride method) tail := by
  rw [List.append_cons, substituteMatches_append_of_none, ← List.append_cons]
  intro back hback hne
  apply addOverride_eq_none
  rcases List.eq_nil_or_concat back with rfl | ⟨front, c, rfl⟩
  · exact absurd rfl hne
  · rw [List.concat_eq_append] at hback ⊢
    obtain ⟨before, hbefore⟩ := hback
    rw [← List.append_assoc] at hbefore
    obtain ⟨rfl, hc⟩ := List.append_inj' hbefore rfl
    rw [List.cons.injEq] at hc
    rw [hc.1, List.append_assoc, List.singleton_append]
    exact matchDeclaration_of_not_atStop
      (fun hmem => hpiece (List.mem_append_right _ hmem)) htail

theorem substitute_piece {piece : Text} (hpiece : ')' ∉ piece) :
    substituteMatches (addOverride method) piece = piece := by
  have h := @substituteMatches_append_of_none _ (addOverride method) piece []
  rw [substituteMatches_nil, List.append_nil] at h
  refine h fun back hback _ => addOverride_eq_none ?_
  rw [List.append_nil]
  exact matchDeclaration_piece fun hmem => hpiece (hback.subset hmem)

theorem substitute_join {piece : Text} {pieces : List Text} (hpiece : ')' ∉ piece)
    (hpieces : ∀ next ∈ pieces, ')' ∉ next) :
    substituteMatches (addOverride method) (closing.join piece pieces) =
      closing.join piece (closing.mendAll (opens method) piece pieces) := by
  induction pieces generalizing piece with
  | nil =>
      rw [Marking.join_nil]
      exact (substitute_piece hpiece).trans (Marking.join_nil piece).symm
  | cons next pieces ih =>
      rw [List.forall_mem_cons] at hpieces
      have hnext := ih hpieces.1 hpieces.2
      rw [Marking.join_cons, Marking.mendAll, Marking.join_cons]
      by_cases hstop : closing.AtStop next
      · obtain ⟨gap, rest, rfl, hgap⟩ := Marking.atStop_iff.1 hstop
        -- what follows the semicolon is also the end of what follows the parenthesis
        have hrest : substituteMatches (addOverride method) (closing.join rest pieces) =
            closing.join rest (closing.mendAll (opens method) (gap ++ ';' :: rest) pieces) := by
          have hgap' := @substitute_gap method gap hgap (closing.join rest pieces)
          rw [← Marking.join_append_cons] at hgap'
          have heq := hgap'.symm.trans hnext
          rw [Marking.join_append_cons, List.append_cancel_left_eq, List.cons.injEq] at heq
          exact heq.2
        have hatStop := @substitute_atStop method piece hpiece gap hgap (closing.join rest pieces)
        rw [← Marking.join_append_cons, hrest] at hatStop
        refine hatStop.trans ?_
        rcases opens method piece with _ | _
        · rw [Marking.mend_false]
          exact congrArg (piece ++ ')' :: ·) (Marking.join_append_cons gap ';' rest _).symm
        · rw [closing.mend_of_atStop hgap]
          exact congrArg (piece ++ ')' :: ·) (Marking.join_append_cons closing.mark ';' rest _).symm
      · have hjoin : ¬closing.AtStop (closing.join next pieces) := by
          rwa [Marking.atStop_join_iff]
        rw [Marking.mend_of_not_atStop _ hstop, ← hnext]
        exact substitute_of_not_atStop hpiece hjoin

theorem opens_append {front : Text} (hfront : 'U' ∉ front) (piece : Text) :
    opens method (front ++ piece) = opens method piece := by
  induction front with
  | nil => rfl
  | cons c front ih =>
      rw [List.mem_cons, not_or] at hfront
      rw [List.cons_append, opens, matchHead_eq_none fun h => hfront.1 h.symm]
      exact ih hfront.2

theorem notMem_blanks {gap : Text} (hgap : ∀ c ∈ gap, isSpace c = true) : 'U' ∉ gap :=
  fun hmem => absurd (hgap _ hmem) (by decide)

theorem opens_mend (marked : Bool) (next : Text) :
    opens method (closing.mend marked next) = opens method next := by
  by_cases h : marked = true ∧ closing.AtStop next
  · obtain ⟨rfl, hstop⟩ := h
    obtain ⟨gap, rest, rfl, hgap⟩ := Marking.atStop_iff.1 hstop
    rw [Marking.mend_of_atStop hgap, opens_append (by decide), opens_append (notMem_blanks hgap)]
  · rw [Marking.mend, if_neg h]

/-- A method is upgraded wherever the pattern ends without `override`. -/
theorem substitute_eq_mendText (content : Text) :
    substituteMatches (addOverride method) content = closing.mendText (opens method) content := by
  obtain ⟨piece, pieces, hpiece, hpieces, rfl⟩ := closing.exists_join content
  rw [substitute_join hpiece hpieces, Marking.mendText_join hpiece hpieces]

theorem addOverrides_eq_mendText (expected : List MethodName) (content : Text) :
    addOverrides expected content =
      closing.mendText (fun piece => expected.any (opens · piece)) content := by
  rw [← Marking.foldl_mendText fun method marked next => opens_mend marked next]
  exact congrArg (List.foldl · content expected)
    (funext fun content => funext fun method => substitute_eq_mendText content)

/-- What has been upgraded stays as it is. -/
theorem addOverrides_addOverrides (expected : List MethodName) (content : Text) :
    addOverrides expected (addOverrides expected content) = addOverrides expected content := by
  rw [addOverrides_eq_mendText, addOverrides_eq_mendText, Marking.mendText_mendText]
  · simp only [Bool.or_self]
  · intro marked next
    simp only [opens_mend]

end Pieces

section LineEnds

/-- No `\n` nor `\r`. -/
def NoLineEnd (c : Char) : Prop := c ≠ '\n' ∧ c ≠ '\r'

theorem readLinesFrom_append (afterReturn : Bool) (before : Text) {c : Char} (hc : NoLineEnd c)
    (after : Text) : readLinesFrom afterReturn (before ++ c :: after) =
      readLinesFrom afterReturn before ++ c :: readLines after := by
  induction before generalizing afterReturn with
  | nil =>
      change readLinesFrom afterReturn (c :: after) = c :: readLines after
      rw [readLinesFrom, if_neg hc.2, if_neg fun h => hc.1 h.1]
      rfl
  | cons d before ih =>
      rw [List.cons_append, readLinesFrom, readLinesFrom, ih, ih]
      split_ifs
      · rfl
      · rfl
      · rfl

theorem readLines_append (before : Text) {c : Char} (hc : NoLineEnd c) (after : Text) :
    readLines (before ++ c :: after) = readLines before ++ c :: readLines after :=
  readLinesFrom_append false before hc after

theorem writeLines_append (platform : Platform) (before after : Text) :
    writeLines platform (before ++ after) =
      writeLines platform before ++ writeLines platform after :=
  List.flatMap_append

theorem writeLines_of_noLineEnd (platform : Platform) {t : Text} (h : '\n' ∉ t) :
    writeLines platform t = t := by
  induction t with
  | nil => rfl
  | cons c t ih =>
      rw [List.mem_cons, not_or] at h
      have htail := ih h.2
      rw [writeLines] at htail ⊢
      rw [List.flatMap_cons, if_neg fun hc => h.1 hc.symm, htail]
      rfl

theorem return_notMem_readLinesFrom (afterReturn : Bool) (t : Text) :
    '\r' ∉ readLinesFrom afterReturn t := by
  induction t generalizing afterReturn with
  | nil => exact List.not_mem_nil
  | cons c t ih =>
      rw [readLinesFrom]
      split_ifs with hreturn
      · simp [ih]
      · exact ih _
      · rw [List.mem_cons, not_or]
        exact ⟨fun h => hreturn h.symm, ih _⟩

theorem return_notMem_readLines (t : Text) : '\r' ∉ readLines t :=
  return_notMem_readLinesFrom false t

/-- What is written in text mode is read again. -/
theorem readLines_writeLines (platform : Platform) {t : Text} (h : '\r' ∉ t) :
    readLines (writeLines platform t) = t := by
  induction t with
  | nil => rfl
  | cons c t ih =>
      rw [List.mem_cons, not_or] at h
      have htail := ih h.2
      rw [writeLines] at htail ⊢
      rw [readLines] at htail
      rw [List.flatMap_cons, readLines]
      by_cases hc : c = '\n'
      · subst hc
        cases platform with
        | posix => exact congrArg _ htail
        | windows => exact congrArg _ htail
      · rw [if_neg hc, List.singleton_append, readLinesFrom, if_neg fun heq => h.1 heq.symm,
          if_neg fun heq => hc heq.1, htail]

theorem isSpace_readLinesFrom {t : Text} (h : ∀ c ∈ t, isSpace c = true) (afterReturn : Bool) :
    ∀ c ∈ readLinesFrom afterReturn t, isSpace c = true := by
  induction t generalizing afterReturn with
  | nil => exact h
  | cons c t ih =>
      rw [List.forall_mem_cons] at h
      rw [readLinesFrom]
      split_ifs
      · exact List.forall_mem_cons.mpr ⟨by decide, ih h.2 _⟩
      · exact ih h.2 _
      · exact List.forall_mem_cons.mpr ⟨h.1, ih h.2 _⟩

theorem noLineEnd_of_not_isSpace {c : Char} (h : isSpace c = false) : NoLineEnd c := by
  constructor
  · rintro rfl
    exact absurd h (by decide)
  · rintro rfl
    exact absurd h (by decide)

theorem readLines_cons {c : Char} (hc : NoLineEnd c) (t : Text) :
    readLines (c :: t) = c :: readLines t :=
  readLines_append [] hc t

theorem head?_dropWhile_isSpace (piece : Text) :
    ∀ c ∈ (piece.dropWhile isSpace).head?, isSpace c = false := by
  intro c hc
  have h := List.head?_dropWhile_not isSpace piece
  rw [Option.mem_def.mp hc] at h
  exact h

theorem dropWhile_readLines (piece : Text) :
    (readLines piece).dropWhile isSpace = readLines (piece.dropWhile isSpace) := by
  have hsplit := List.takeWhile_append_dropWhile (p := isSpace) (l := piece)
  have hblank : ∀ c ∈ readLines (piece.takeWhile isSpace), isSpace c = true :=
    isSpace_readLinesFrom (fun c hc => List.mem_takeWhile_imp hc) false
  have hhead := head?_dropWhile_isSpace piece
  rcases hrest : piece.dropWhile isSpace with _ | ⟨c, rest⟩
  · rw [hrest, List.append_nil] at hsplit
    rw [hsplit] at hblank
    exact List.dropWhile_eq_nil_iff.mpr hblank
  · rw [hrest] at hsplit hhead
    have hc := hhead c rfl
    have hlineEnd := noLineEnd_of_not_isSpace hc
    rw [← hsplit, readLines_append _ hlineEnd, readLines_cons hlineEnd,
      dropWhile_isSpace hblank]
    rintro _ ⟨⟩
    exact hc

theorem atStop_readLines {piece : Text} :
    closing.AtStop (readLines piece) ↔ closing.AtStop piece := by
  have hhead := head?_dropWhile_isSpace piece
  change ((readLines piece).dropWhile isSpace).head? = some ';' ↔
    (piece.dropWhile isSpace).head? = some ';'
  rw [dropWhile_readLines]
  rcases hrest : piece.dropWhile isSpace with _ | ⟨c, rest⟩
  · exact Iff.rfl
  · rw [hrest] at hhead
    rw [readLines_cons (noLineEnd_of_not_isSpace (hhead c rfl))]
    exact Iff.rfl

theorem closeParenthesis_notMem_readLines {piece : Text} (h : ')' ∉ piece) :
    ')' ∉ readLines piece := by
  rw [readLines]
  generalize false = afterReturn
  induction piece generalizing afterReturn with
  | nil => exact h
  | cons c piece ih =>
      rw [List.mem_cons, not_or] at h
      rw [readLinesFrom]
      split_ifs
      · exact List.not_mem_cons_of_ne_of_not_mem (by decide) (ih h.2 _)
      · exact ih h.2 _
      · exact List.not_mem_cons_of_ne_of_not_mem h.1 (ih h.2 _)

theorem closeParenthesis_notMem_writeLines (platform : Platform) {piece : Text}
    (h : ')' ∉ piece) : ')' ∉ writeLines platform piece := by
  rw [writeLines, List.mem_flatMap]
  rintro ⟨c, hc, hmem⟩
  split_ifs at hmem
  · revert hmem
    cases platform with
    | posix => decide
    | windows => decide
  · rw [List.mem_singleton] at hmem
    exact h (hmem ▸ hc)

theorem readLines_join (piece : Text) (pieces : List Text) :
    readLines (closing.join piece pieces) =
      closing.join (readLines piece) (pieces.map readLines) := by
  induction pieces generalizing piece with
  | nil => rw [Marking.join_nil, List.map_nil, Marking.join_nil]
  | cons next pieces ih =>
      rw [Marking.join_cons, List.map_cons, Marking.join_cons, ← ih]
      exact readLines_append piece ⟨by decide, by decide⟩ _

theorem writeLines_join (platform : Platform) (piece : Text) (pieces : List Text) :
    writeLines platform (closing.join piece pieces) =
      closing.join (writeLines platform piece) (pieces.map (writeLines platform)) := by
  induction pieces generalizing piece with
  | nil => rw [Marking.join_nil, List.map_nil, Marking.join_nil]
  | cons next pieces ih =>
      rw [Marking.join_cons, List.map_cons, Marking.join_cons, ← ih, writeLines_append]
      rfl

/-- The line ends of a text are those of the platform. -/
def Stable (platform : Platform) (t : Text) : Prop := writeLines platform (readLines t) = t

theorem writeLines_mend_of_atStop (platform : Platform) {next : Text}
    (h : closing.AtStop next) : writeLines platform (closing.mend true (readLines next)) =
      closing.mark ++ writeLines platform (readLines (next.dropWhile isSpace)) := by
  rw [Marking.mend, if_pos ⟨rfl, atStop_readLines.2 h⟩, writeLines_append,
    writeLines_of_noLineEnd platform (by decide)]
  exact congrArg (closing.mark ++ writeLines platform ·) (dropWhile_readLines next)

end LineEnds

end DeviceClassAnalyzer

end Supernova
