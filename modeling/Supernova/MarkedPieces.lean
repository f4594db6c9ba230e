/-
Texts that are cut at a closing character, and a mark that is written between some of the
closing characters and the stop behind them in place of the blanks there.
-/
import Mathlib.Data.List.Chain
import Mathlib.Data.List.TakeWhile

namespace Supernova

/-- Where a mark goes: between a `close` and a `stop` with only blanks between them.  The
mark is not read as such a place again. -/
structure Marking (α : Type*) where
  close : α
  stop : α
  blank : α → Bool
  mark : List α
  stop_ne_close : stop ≠ close
  close_not_blank : blank close = false
  stop_not_blank : blank stop = false
  close_notMem_mark : close ∉ mark
  mark_front : ∃ c rest, mark.dropWhile blank = c :: rest ∧ c ≠ stop

namespace Marking

variable {α : Type*} (M : Marking α)

/-- The text with these pieces between its closing characters. -/
def join (piece : List α) (pieces : List (List α)) : List α :=
  piece ++ pieces.flatMap (M.close :: ·)

/-- A closing character before this piece is followed by a stop. -/
def AtStop (piece : List α) : Prop := (piece.dropWhile M.blank).head? = some M.stop

instance [DecidableEq α] (piece : List α) : Decidable (M.AtStop piece) :=
  inferInstanceAs (Decidable (_ = _))

/-- The second text is the first one with marks behind parts with the property `D`;
`done` stands in front of the first text. -/
inductive Marked (D : List α → Prop) : List α → List α → List α → Prop
  | nil (done : List α) : Marked D done [] []
  | keep (done : List α) (c : α) (text marked : List α) :
      Marked D (done ++ [c]) text marked → Marked D done (c :: text) (c :: marked)
  | write (done gap text marked : List α) : D done → (∀ c ∈ gap, M.blank c = true) →
      Marked D (done ++ M.close :: (gap ++ [M.stop])) text marked →
      Marked D done (M.close :: (gap ++ M.stop :: text))
        (M.close :: (M.mark ++ M.stop :: marked))

/-- Only blanks stand between what has the property `D` and a stop. -/
def Bare (D : List α → Prop) (text : List α) : Prop :=
  ∃ done gap rest, text = done ++ M.close :: (gap ++ M.stop :: rest) ∧
    (∀ c ∈ gap, M.blank c = true) ∧ D done

/-- A property of the text in front of a closing character that does not look back over
another one, nor at what is blank or a mark. -/
structure Local (D : List α → Prop) : Prop where
  close : ∀ before done, D (before ++ M.close :: done) ↔ D done
  mark : ∀ gap piece, (∀ c ∈ gap, M.blank c = true) →
    (D (M.mark ++ M.stop :: piece) ↔ D (gap ++ M.stop :: piece))

section Pieces

variable {M}

@[simp] theorem join_nil (piece : List α) : M.join piece [] = piece := List.append_nil _

@[simp] theorem join_cons (piece next : List α) (pieces : List (List α)) :
    M.join piece (next :: pieces) = piece ++ M.close :: M.join next pieces := by
  simp [join]

theorem join_append (before piece : List α) (pieces : List (List α)) :
    M.join (before ++ piece) pieces = before ++ M.join piece pieces :=
  List.append_assoc _ _ _

theorem join_append_cons (before : List α) (c : α) (piece : List α) (pieces : List (List α)) :
    M.join (before ++ c :: piece) pieces = before ++ c :: M.join piece pieces :=
  List.append_assoc _ _ _

/-- Every text is cut into pieces. -/
theorem exists_join (M : Marking α) (text : List α) : ∃ piece pieces, M.close ∉ piece ∧
    (∀ next ∈ pieces, M.close ∉ next) ∧ text = M.join piece pieces := by
  induction text with
  | nil => exact ⟨[], [], List.not_mem_nil, fun _ h => absurd h List.not_mem_nil, rfl⟩
  | cons c text ih =>
      obtain ⟨piece, pieces, hpiece, hpieces, rfl⟩ := ih
      by_cases hc : c = M.close
      · refine ⟨[], piece :: pieces, List.not_mem_nil, ?_, by simp [hc]⟩
        exact List.forall_mem_cons.mpr ⟨hpiece, hpieces⟩
      · refine ⟨c :: piece, pieces, ?_, hpieces, (join_append [c] piece pieces).symm⟩
        rw [List.mem_cons, not_or]
        exact ⟨fun h => hc h.symm, hpiece⟩

theorem atStop_iff {piece : List α} : M.AtStop piece ↔
    ∃ gap rest, piece = gap ++ M.stop :: rest ∧ ∀ c ∈ gap, M.blank c = true := by
  constructor
  · intro h
    obtain ⟨rest, hrest⟩ := List.head?_eq_some_iff.mp h
    refine ⟨piece.takeWhile M.blank, rest, ?_, fun c hc => List.mem_takeWhile_imp hc⟩
    rw [← hrest, List.takeWhile_append_dropWhile]
  · rintro ⟨gap, rest, rfl, hgap⟩
    rw [AtStop, List.dropWhile_append_of_pos hgap, List.dropWhile_cons_of_neg]
    · rfl
    · simp [M.stop_not_blank]

theorem dropWhile_stop {gap : List α} (hgap : ∀ c ∈ gap, M.blank c = true) (rest : List α) :
    (gap ++ M.stop :: rest).dropWhile M.blank = M.stop :: rest := by
  rw [List.dropWhile_append_of_pos hgap, List.dropWhile_cons_of_neg]
  simp [M.stop_not_blank]

theorem close_notMem_gap {gap : List α} (hgap : ∀ c ∈ gap, M.blank c = true) :
    M.close ∉ gap ++ [M.stop] := by
  rw [List.mem_append, List.mem_singleton, not_or]
  refine ⟨fun hmem => ?_, M.stop_ne_close.symm⟩
  have hblank := hgap _ hmem
  rw [M.close_not_blank] at hblank
  exact Bool.false_ne_true hblank

theorem close_notMem_mark_stop : M.close ∉ M.mark ++ [M.stop] := by
  rw [List.mem_append, List.mem_singleton, not_or]
  exact ⟨M.close_notMem_mark, M.stop_ne_close.symm⟩

/-- What has no closing character comes from the first piece. -/
theorem join_eq_append {piece front rest : List α} {pieces : List (List α)}
    (hfront : M.close ∉ front) (h : M.join piece pieces = front ++ rest) :
    ∃ piece', piece = front ++ piece' ∧ rest = M.join piece' pieces := by
  rcases List.append_eq_append_iff.mp h with ⟨m, rfl, hm⟩ | ⟨m, rfl, rfl⟩
  · cases m with
    | nil => exact ⟨[], by simp, by simpa [join] using hm.symm⟩
    | cons c m =>
        -- the pieces behind the first one begin with a closing character
        cases pieces with
        | nil => cases hm
        | cons next pieces =>
            rw [List.flatMap_cons, List.cons_append, List.cons_append, List.cons.injEq] at hm
            simp [hm.1] at hfront
  · exact ⟨m, rfl, rfl⟩

theorem join_eq_close {piece rest : List α} {pieces : List (List α)} (hpiece : M.close ∉ piece)
    (h : M.join piece pieces = M.close :: rest) :
    piece = [] ∧ ∃ next pieces', pieces = next :: pieces' ∧ rest = M.join next pieces' := by
  cases piece with
  | cons c piece =>
      rw [join, List.cons_append, List.cons.injEq] at h
      simp [h.1] at hpiece
  | nil =>
      cases pieces with
      | nil => cases h
      | cons next pieces =>
          rw [join_cons, List.nil_append, List.cons.injEq] at h
          exact ⟨rfl, next, pieces, rfl, h.2.symm⟩

theorem atStop_join_iff {piece : List α} {pieces : List (List α)} :
    M.AtStop (M.join piece pieces) ↔ M.AtStop piece := by
  rw [atStop_iff, atStop_iff]
  constructor
  · rintro ⟨gap, rest, hjoin, hblank⟩
    rw [List.append_cons] at hjoin
    obtain ⟨after, rfl, -⟩ := join_eq_append (close_notMem_gap hblank) hjoin
    exact ⟨gap, after, (List.append_cons _ _ _).symm, hblank⟩
  · rintro ⟨gap, rest, rfl, hblank⟩
    exact ⟨gap, M.join rest pieces, join_append_cons _ _ _ _, hblank⟩

/-- No stop follows where the mark has been written. -/
theorem not_atStop_mark (rest : List α) : ¬M.AtStop (M.mark ++ rest) := by
  obtain ⟨c, tail, htail, hc⟩ := M.mark_front
  intro h
  rw [AtStop, List.dropWhile_append, htail] at h
  simp only [List.isEmpty_cons, Bool.false_eq_true, if_false, List.cons_append,
    List.head?_cons, Option.some.injEq] at h
  exact hc h

end Pieces

section Mending

variable [DecidableEq α]

/-- The piece behind one that is to be marked or not. -/
def mend (marked : Bool) (piece : List α) : List α :=
  if marked = true ∧ M.AtStop piece then M.mark ++ piece.dropWhile M.blank else piece

def mendAll (p : List α → Bool) : List α → List (List α) → List (List α)
  | _, [] => []
  | piece, next :: pieces => M.mend (p piece) next :: mendAll p next pieces

/-- The mark behind every piece with the property `p`. -/
def mendText (p : List α → Bool) (text : List α) : List α :=
  match text.splitOn M.close with
  | [] => []
  | piece :: pieces => M.join piece (M.mendAll p piece pieces)

variable {M} {piece : List α} {pieces : List (List α)} {p q : List α → Bool}

theorem splitOn_join {piece : List α} {pieces : List (List α)} (hpiece : M.close ∉ piece)
    (hpieces : ∀ next ∈ pieces, M.close ∉ next) :
    (M.join piece pieces).splitOn M.close = piece :: pieces := by
  induction pieces generalizing piece with
  | nil => rw [join_nil, List.splitOn_eq_singleton hpiece]
  | cons next pieces ih =>
      rw [List.forall_mem_cons] at hpieces
      rw [join_cons, List.splitOn_append_cons_self, List.splitOn_eq_singleton hpiece,
        ih hpieces.1 hpieces.2]
      rfl

theorem mendText_join (hpiece : M.close ∉ piece) (hpieces : ∀ next ∈ pieces, M.close ∉ next) :
    M.mendText p (M.join piece pieces) = M.join piece (M.mendAll p piece pieces) := by
  rw [mendText, splitOn_join hpiece hpieces]

theorem mend_of_atStop {gap : List α} (hgap : ∀ c ∈ gap, M.blank c = true) (rest : List α) :
    M.mend true (gap ++ M.stop :: rest) = M.mark ++ M.stop :: rest := by
  rw [mend, if_pos ⟨rfl, atStop_iff.2 ⟨gap, rest, rfl, hgap⟩⟩, dropWhile_stop hgap]

@[simp] theorem mend_false (piece : List α) : M.mend false piece = piece :=
  if_neg fun h => Bool.false_ne_true h.1

theorem mend_of_not_atStop (marked : Bool) (h : ¬M.AtStop piece) : M.mend marked piece = piece :=
  if_neg fun hmend => h hmend.2

theorem notMem_mend {c : α} (hmark : c ∉ M.mark) (marked : Bool) (h : c ∉ piece) :
    c ∉ M.mend marked piece := by
  rw [mend]
  split_ifs
  · rw [List.mem_append, not_or]
    exact ⟨hmark, fun hmem => h ((List.dropWhile_sublist _).mem hmem)⟩
  · exact h

theorem close_notMem_mendAll (hpieces : ∀ next ∈ pieces, M.close ∉ next) :
    ∀ next ∈ M.mendAll p piece pieces, M.close ∉ next := by
  induction pieces generalizing piece with
  | nil => exact hpieces
  | cons next pieces ih =>
      rw [List.forall_mem_cons] at hpieces
      exact List.forall_mem_cons.mpr
        ⟨notMem_mend M.close_notMem_mark _ hpieces.1, ih hpieces.2⟩

theorem notMem_join_mendAll {c : α} (hmark : c ∉ M.mark) {front : List α}
    (h : c ∉ M.join front pieces) : c ∉ M.join front (M.mendAll p piece pieces) := by
  induction pieces generalizing front piece with
  | nil => exact h
  | cons next pieces ih =>
      rw [join_cons, List.mem_append, List.mem_cons, not_or, not_or, join, List.mem_append,
        not_or] at h
      rw [mendAll, join_cons, List.mem_append, List.mem_cons, not_or, not_or]
      refine ⟨h.1, h.2.1, ih ?_⟩
      rw [join, List.mem_append, not_or]
      exact ⟨notMem_mend hmark _ h.2.2.1, h.2.2.2⟩

theorem notMem_mendText {c : α} (hmark : c ∉ M.mark) {text : List α} (h : c ∉ text) :
    c ∉ M.mendText p text := by
  obtain ⟨piece, pieces, hpiece, hpieces, rfl⟩ := exists_join M text
  rw [mendText_join hpiece hpieces]
  exact notMem_join_mendAll hmark h

theorem mend_mend (marked marked' : Bool) (piece : List α) :
    M.mend marked' (M.mend marked piece) = M.mend (marked || marked') piece := by
  by_cases hstop : M.AtStop piece
  · obtain ⟨gap, rest, rfl, hgap⟩ := atStop_iff.1 hstop
    cases marked with
    | true =>
        rw [Bool.true_or, mend_of_atStop hgap]
        exact mend_of_not_atStop _ (not_atStop_mark _)
    | false => rw [mend_false, Bool.false_or]
  · rw [mend_of_not_atStop _ hstop, mend_of_not_atStop _ hstop, mend_of_not_atStop _ hstop]

theorem mendAll_mendAll (hq : ∀ marked next, q (M.mend marked next) = q next) {piece' : List α}
    (hpiece : q piece' = q piece) :
    M.mendAll q piece' (M.mendAll p piece pieces) =
      M.mendAll (fun x => p x || q x) piece pieces := by
  induction pieces generalizing piece piece' with
  | nil => rfl
  | cons next pieces ih =>
      rw [mendAll, mendAll, mendAll, mend_mend, hpiece, ih (hq _ _)]

/-- Marking for one property and then for another one marks for both. -/
theorem mendText_mendText (hq : ∀ marked next, q (M.mend marked next) = q next)
    (text : List α) :
    M.mendText q (M.mendText p text) = M.mendText (fun x => p x || q x) text := by
  obtain ⟨piece, pieces, hpiece, hpieces, rfl⟩ := exists_join M text
  rw [mendText_join hpiece hpieces, mendText_join hpiece hpieces,
    mendText_join hpiece (close_notMem_mendAll hpieces), mendAll_mendAll hq rfl]

theorem mendAll_eq_self_iff : M.mendAll p piece pieces = pieces ↔
    (piece :: pieces).IsChain fun piece next => M.AtStop next → p piece = false := by
  induction pieces generalizing piece with
  | nil => simp [mendAll]
  | cons next pieces ih =>
      rw [mendAll, List.cons.injEq, List.isChain_cons_cons, ih]
      refine and_congr_left fun _ => ?_
      by_cases hstop : M.AtStop next
      · have hne : M.mend true next ≠ next := by
          obtain ⟨gap, rest, rfl, hgap⟩ := atStop_iff.1 hstop
          intro heq
          rw [← heq, mend_of_atStop hgap] at hstop
          exact not_atStop_mark _ hstop
        cases p piece
        · simp
        · simp [hstop, hne]
      · simp [mend_of_not_atStop _ hstop, hstop]

theorem mendText_eq_self_iff {text : List α} : M.mendText p text = text ↔
    (text.splitOn M.close).IsChain fun piece next => M.AtStop next → p piece = false := by
  obtain ⟨piece, pieces, hpiece, hpieces, rfl⟩ := exists_join M text
  rw [mendText_join hpiece hpieces, splitOn_join hpiece hpieces, ← mendAll_eq_self_iff]
  constructor
  · intro heq
    have hsplit := congrArg (List.splitOn M.close) heq
    rw [splitOn_join hpiece (close_notMem_mendAll hpieces), splitOn_join hpiece hpieces,
      List.cons.injEq] at hsplit
    exact hsplit.2
  · intro heq
    rw [heq]

theorem mendText_false (text : List α) : M.mendText (fun _ => false) text = text :=
  mendText_eq_self_iff.2 (List.pairwise_of_forall fun _ _ _ => rfl).isChain

/-- Marking for one property after the other. -/
theorem foldl_mendText {β : Type*} {f : β → List α → Bool}
    (hf : ∀ b marked next, f b (M.mend marked next) = f b next) (bs : List β) (text : List α) :
    bs.foldl (fun text b => M.mendText (f b) text) text =
      M.mendText (fun x => bs.any (f · x)) text := by
  induction bs generalizing text with
  | nil => exact (mendText_false text).symm
  | cons b bs ih =>
      rw [List.foldl_cons, ih, mendText_mendText]
      · rfl
      · intro marked next
        simp only [hf]

end Mending

section MarkedTexts

variable {M} {D : List α → Prop}

theorem marked_nil {done marked : List α} : M.Marked D done [] marked ↔ marked = [] := by
  constructor
  · intro h
    cases h
    rfl
  · rintro rfl
    exact .nil done

theorem marked_cons {c : α} (hc : c ≠ M.close) {done text marked : List α} :
    M.Marked D done (c :: text) marked ↔
      ∃ marked', marked = c :: marked' ∧ M.Marked D (done ++ [c]) text marked' := by
  constructor
  · intro h
    cases h with
    | keep _ _ _ marked' h => exact ⟨marked', rfl, h⟩
    | write => exact absurd rfl hc
  · rintro ⟨marked', rfl, h⟩
    exact .keep done c text marked' h

theorem marked_append {front : List α} (hfront : M.close ∉ front) {done text marked : List α} :
    M.Marked D done (front ++ text) marked ↔
      ∃ marked', marked = front ++ marked' ∧ M.Marked D (done ++ front) text marked' := by
  induction front generalizing done marked with
  | nil => simp
  | cons c front ih =>
      rw [List.mem_cons, not_or] at hfront
      rw [List.cons_append, marked_cons fun h => hfront.1 h.symm]
      simp only [ih hfront.2, List.append_assoc, List.singleton_append]
      constructor
      · rintro ⟨_, rfl, marked', rfl, h⟩
        exact ⟨marked', rfl, h⟩
      · rintro ⟨marked', rfl, h⟩
        exact ⟨front ++ marked', rfl, marked', rfl, h⟩

variable (M) in
/-- What has been done with the pieces behind the first one. -/
def MarkedPieces (D : List α → Prop) : List α → List (List α) → List (List α) → Prop
  | _, [], [] => True
  | piece, next :: pieces, next' :: pieces' =>
      (next' = next ∨ D piece ∧ M.AtStop next ∧ next' = M.mark ++ next.dropWhile M.blank) ∧
        MarkedPieces D next pieces pieces'
  | _, _, _ => False

theorem marked_close {done text marked : List α} :
    M.Marked D done (M.close :: text) marked ↔ ∃ marked', marked = M.close :: marked' ∧
      (M.Marked D (done ++ [M.close]) text marked' ∨
        ∃ gap rest rest', text = gap ++ M.stop :: rest ∧ marked' = M.mark ++ M.stop :: rest' ∧
          D done ∧ (∀ c ∈ gap, M.blank c = true) ∧
          M.Marked D (done ++ M.close :: (gap ++ [M.stop])) rest rest') := by
  constructor
  · intro h
    cases h with
    | keep _ _ _ marked' h => exact ⟨marked', rfl, .inl h⟩
    | write _ gap rest rest' hdone hgap h =>
        exact ⟨_, rfl, .inr ⟨gap, rest, rest', rfl, rfl, hdone, hgap, h⟩⟩
  · rintro ⟨marked', rfl, h | ⟨gap, rest, rest', rfl, rfl, hdone, hgap, h⟩⟩
    · exact .keep done M.close text marked' h
    · exact .write done gap rest rest' hdone hgap h

/-- One closing character, when it is known what marks make of the text behind it. -/
theorem marked_step (hD : M.Local D) {pieces pieces' : List (List α)}
    (ih : ∀ {done front front' piece : List α}, M.close ∉ front → M.close ∉ front' →
      (D (done ++ front) ↔ D piece) →
      (M.Marked D done (M.join front pieces) (M.join front' pieces') ↔
        front = front' ∧ M.MarkedPieces D piece pieces pieces'))
    {done piece next next' : List α} (hnext : M.close ∉ next) (hnext' : M.close ∉ next')
    (hdone : D done ↔ D piece) :
    M.Marked D done (M.close :: M.join next pieces) (M.close :: M.join next' pieces') ↔
      M.MarkedPieces D piece (next :: pieces) (next' :: pieces') := by
  have hlocal : ∀ before : List α, D (done ++ M.close :: before) ↔ D before := hD.close done
  rw [marked_close]
  simp only [List.cons.injEq, true_and, exists_eq_left']
  constructor
  · rintro (h | ⟨gap, rest, rest', hgap, hmark, hpiece, hblank, h⟩)
    · obtain ⟨rfl, hrest⟩ := (ih hnext hnext' (by simpa using hlocal next)).mp h
      exact ⟨.inl rfl, hrest⟩
    · rw [List.append_cons] at hgap hmark
      obtain ⟨after, rfl, rfl⟩ := join_eq_append (close_notMem_gap hblank) hgap
      obtain ⟨after', rfl, rfl⟩ := join_eq_append close_notMem_mark_stop hmark
      rw [List.mem_append, not_or] at hnext hnext'
      rw [← List.append_cons] at *
      obtain ⟨rfl, hrest⟩ := (ih hnext.2 hnext'.2
        (by simpa using hlocal (gap ++ M.stop :: after))).mp h
      refine ⟨.inr ⟨hdone.mp hpiece, atStop_iff.2 ⟨gap, after, rfl, hblank⟩, ?_⟩, hrest⟩
      rw [dropWhile_stop hblank, ← List.append_cons]
  · rintro ⟨rfl | ⟨hpiece, hstop, rfl⟩, hrest⟩
    · exact .inl ((ih hnext hnext' (by simpa using hlocal next')).mpr ⟨rfl, hrest⟩)
    · obtain ⟨gap, after, rfl, hblank⟩ := atStop_iff.1 hstop
      rw [dropWhile_stop hblank] at hnext' ⊢
      have hafter : M.close ∉ after := by
        intro hmem
        exact hnext' (List.mem_append_right _ (List.mem_cons_of_mem _ hmem))
      refine .inr ⟨gap, M.join after pieces, M.join after pieces', join_append_cons _ _ _ _,
        join_append_cons _ _ _ _, hdone.mpr hpiece, hblank,
        (ih hafter hafter ?_).mpr ⟨rfl, hrest⟩⟩
      simpa using hlocal (gap ++ M.stop :: after)

/-- Piece by piece, what marks make of a text. -/
theorem marked_join_iff (hD : M.Local D) {pieces pieces' : List (List α)}
    (hpieces : ∀ next ∈ pieces, M.close ∉ next) (hpieces' : ∀ next ∈ pieces', M.close ∉ next)
    {done front front' piece : List α} (hfront : M.close ∉ front) (hfront' : M.close ∉ front')
    (hdone : D (done ++ front) ↔ D piece) :
    M.Marked D done (M.join front pieces) (M.join front' pieces') ↔
      front = front' ∧ M.MarkedPieces D piece pieces pieces' := by
  induction pieces generalizing pieces' done front front' piece with
  | nil =>
      have happend := @marked_append α M D front hfront done [] (M.join front' pieces')
      rw [List.append_nil] at happend
      rw [join_nil, happend]
      simp only [marked_nil, exists_eq_right, List.append_nil]
      cases pieces' with
      | nil => simp [MarkedPieces, eq_comm]
      | cons next' pieces' =>
          simp only [MarkedPieces, and_false, iff_false]
          intro h
          rw [← h, join_cons] at hfront
          simp at hfront
  | cons next pieces ih =>
      rw [List.forall_mem_cons] at hpieces
      rw [join_cons, marked_append hfront]
      cases pieces' with
      | nil =>
          simp only [MarkedPieces, and_false, iff_false, join_nil]
          rintro ⟨_, rfl, h⟩
          obtain ⟨marked', rfl, -⟩ := marked_close.1 h
          simp at hfront'
      | cons next' pieces' =>
          rw [List.forall_mem_cons] at hpieces'
          have hstep := marked_step hD (ih hpieces.2 hpieces'.2) hpieces.1 hpieces'.1 hdone
          constructor
          · rintro ⟨marked, hmarked, h⟩
            obtain ⟨front'', rfl, rfl⟩ := join_eq_append hfront hmarked
            have hfront'' : M.close ∉ front'' :=
              fun hmem => hfront' (List.mem_append_right _ hmem)
            obtain ⟨marked', hclose, -⟩ := marked_close.1 h
            obtain ⟨rfl, -⟩ := join_eq_close hfront'' hclose
            rw [join_cons, List.nil_append] at h
            exact ⟨(List.append_nil _).symm, hstep.mp h⟩
          · rintro ⟨rfl, h⟩
            exact ⟨_, join_cons _ _ _, hstep.mpr h⟩

theorem bare_append_close (hD : M.Local D) {piece text : List α} (hpiece : M.close ∉ piece) :
    M.Bare D (piece ++ M.close :: text) ↔
      D piece ∧ M.AtStop text ∨ M.Bare D text := by
  rw [atStop_iff]
  constructor
  · rintro ⟨done, gap, rest, heq, hblank, hdone⟩
    rcases List.append_eq_append_iff.mp heq with ⟨m, rfl, hm⟩ | ⟨m, rfl, hm⟩
    · cases m with
      | nil =>
          rw [List.nil_append, List.cons.injEq] at hm
          rw [List.append_nil] at hdone
          exact .inl ⟨hdone, gap, rest, hm.2, hblank⟩
      | cons c m =>
          rw [List.cons_append, List.cons.injEq] at hm
          obtain ⟨rfl, rfl⟩ := hm
          exact .inr ⟨m, gap, rest, rfl, hblank, (hD.close _ _).mp hdone⟩
    · cases m with
      | nil =>
          rw [List.nil_append, List.cons.injEq] at hm
          rw [List.append_nil]
          exact .inl ⟨hdone, gap, rest, hm.2.symm, hblank⟩
      | cons c m =>
          rw [List.cons_append, List.cons.injEq] at hm
          simp [← hm.1] at hpiece
  · rintro (⟨hdone, gap, rest, rfl, hblank⟩ | ⟨done, gap, rest, rfl, hblank, hdone⟩)
    · exact ⟨piece, gap, rest, rfl, hblank, hdone⟩
    · exact ⟨piece ++ M.close :: done, gap, rest, by simp, hblank, (hD.close _ _).mpr hdone⟩

theorem not_bare_join_iff (hD : M.Local D) {piece : List α} {pieces : List (List α)}
    (hpiece : M.close ∉ piece) (hpieces : ∀ next ∈ pieces, M.close ∉ next) :
    ¬M.Bare D (M.join piece pieces) ↔
      (piece :: pieces).IsChain fun piece next => M.AtStop next → ¬D piece := by
  induction pieces generalizing piece with
  | nil =>
      refine iff_of_true ?_ (List.isChain_singleton _)
      rintro ⟨done, gap, rest, heq, -⟩
      rw [join_nil] at heq
      simp [heq] at hpiece
  | cons next pieces ih =>
      rw [List.forall_mem_cons] at hpieces
      rw [join_cons, bare_append_close hD hpiece, atStop_join_iff, not_or,
        ih hpieces.1 hpieces.2, List.isChain_cons_cons, not_and]
      exact and_congr_left fun _ => ⟨fun h hstop hpiece => h hpiece hstop,
        fun h hpiece hstop => h hstop hpiece⟩

end MarkedTexts

section MarkedForProperty

variable [DecidableEq α] {M} {D : List α → Prop} {p : List α → Bool}

theorem markedPieces_mendAll_iff {piece : List α} {pieces : List (List α)} :
    M.MarkedPieces D piece pieces (M.mendAll p piece pieces) ↔
      (piece :: pieces).IsChain fun piece next => M.AtStop next → p piece = true → D piece := by
  induction pieces generalizing piece with
  | nil => exact iff_of_true trivial (List.isChain_singleton _)
  | cons next pieces ih =>
      rw [mendAll, MarkedPieces, List.isChain_cons_cons, ih]
      refine and_congr_left fun _ => ?_
      by_cases hstop : M.AtStop next
      · cases p piece
        · simp
        · obtain ⟨gap, rest, rfl, hblank⟩ := atStop_iff.1 hstop
          have hne : M.mark ++ M.stop :: rest ≠ gap ++ M.stop :: rest := by
            intro heq
            rw [← heq] at hstop
            exact not_atStop_mark _ hstop
          simp [mend_of_atStop hblank, dropWhile_stop hblank, hne, hstop]
      · simp [mend_of_not_atStop _ hstop, hstop]

theorem Local.mend_iff (hD : M.Local D) (marked : Bool) (piece : List α) :
    D (M.mend marked piece) ↔ D piece := by
  by_cases h : marked = true ∧ M.AtStop piece
  · obtain ⟨rfl, hstop⟩ := h
    obtain ⟨gap, rest, rfl, hblank⟩ := atStop_iff.1 hstop
    rw [mend_of_atStop hblank]
    exact hD.mark gap rest hblank
  · rw [mend, if_neg h]

theorem isChain_mendAll_iff (hD : M.Local D) {piece piece' : List α} {pieces : List (List α)}
    (hpiece : D piece' ↔ D piece) :
    ((piece' :: M.mendAll p piece pieces).IsChain fun piece next => M.AtStop next → ¬D piece) ↔
      (piece :: pieces).IsChain fun piece next => M.AtStop next → D piece → p piece = true := by
  induction pieces generalizing piece piece' with
  | nil => exact iff_of_true (List.isChain_singleton _) (List.isChain_singleton _)
  | cons next pieces ih =>
      rw [mendAll, List.isChain_cons_cons, List.isChain_cons_cons, ih (hD.mend_iff _ _), hpiece]
      refine and_congr_left fun _ => ?_
      by_cases hstop : M.AtStop next
      · cases p piece
        · simp [hstop]
        · obtain ⟨gap, rest, rfl, hblank⟩ := atStop_iff.1 hstop
          simp [mend_of_atStop hblank, not_atStop_mark]
      · simp [mend_of_not_atStop _ hstop, hstop]

/-- Marks go only behind what has the property `D`, and no such part is left without one,
exactly when `p` says of every part in front of a stop whether it has the property. -/
theorem marked_and_not_bare_iff (hD : M.Local D) (text : List α) :
    M.Marked D [] text (M.mendText p text) ∧ ¬M.Bare D (M.mendText p text) ↔
      (text.splitOn M.close).IsChain fun piece next =>
        M.AtStop next → (p piece = true ↔ D piece) := by
  obtain ⟨piece, pieces, hpiece, hpieces, rfl⟩ := exists_join M text
  have hmended := @close_notMem_mendAll α M _ piece pieces p hpieces
  rw [mendText_join hpiece hpieces, splitOn_join hpiece hpieces,
    marked_join_iff hD hpieces hmended hpiece hpiece Iff.rfl, List.nil_append,
    markedPieces_mendAll_iff, not_bare_join_iff hD hpiece hmended,
    isChain_mendAll_iff hD Iff.rfl]
  simp only [true_and, List.isChain_iff_forall_rel_of_append_cons_cons]
  constructor
  · rintro ⟨hsound, hcomplete⟩ piece next before after hcut hstop
    exact ⟨hsound hcut hstop, hcomplete hcut hstop⟩
  · intro h
    exact ⟨fun _ _ _ _ hcut hstop => (h hcut hstop).mp,
      fun _ _ _ _ hcut hstop => (h hcut hstop).mpr⟩

end MarkedForProperty

end Marking

end Supernova
