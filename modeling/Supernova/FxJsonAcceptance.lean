/-
The JSON parser accepts exactly the documented subset: values, members, objects
up to the depth limit, and the document around them.
-/
import Mathlib
import Supernova.FxJsonNumbers

namespace Supernova

attribute [local semireducible] ByteArray.toList.loop

namespace Fx

open TextParser

section Values

theorem blank_iff (w : Bytes) : Blank w ↔ ∀ c ∈ w, isWhitespace c = true := by
  simp [Blank, isWhitespace, or_assoc]

/-- The parser skips whitespace up to a byte that is none. -/
theorem skipWhitespace_complete {w r : Bytes} (hw : Blank w)
    (hr : isWhitespace (r.headD 0) = false) : skipWhitespace.Parses (w ++ r) ⟨⟩ r := by
  rw [parses_skipWhitespace, List.dropWhile_append_of_pos ((blank_iff w).mp hw)]
  rcases r with _ | ⟨c, r⟩
  · rfl
  · rw [List.headD_cons] at hr
    simp [hr]

theorem skipWhitespace_sound {s r : Bytes} {x : PUnit} (h : skipWhitespace.Parses s x r) :
    ∃ w, Blank w ∧ s = w ++ r := by
  rw [parses_skipWhitespace] at h
  refine ⟨s.takeWhile isWhitespace, (blank_iff _).mpr fun _ hc => List.mem_takeWhile_imp hc, ?_⟩
  rw [h, List.takeWhile_append_dropWhile]

/-- Behind a value only whitespace, a comma or a brace may follow. -/
theorem endsNumber_of_delimiter {w r : Bytes} {c : UInt8} (hw : Blank w)
    (hc : c = 44 ∨ c = 125) : EndsNumber (w ++ c :: r) := by
  rcases w with _ | ⟨d, w⟩
  · rcases hc with rfl | rfl <;> refine ⟨?_, ?_, ?_, ?_⟩ <;> simp [isDigit]
  · rcases hw d List.mem_cons_self with rfl | rfl | rfl | rfl <;>
      refine ⟨?_, ?_, ?_, ?_⟩ <;> simp [isDigit]

theorem Numeral.text_cons (n : Numeral) :
    ∃ c t, n.text = c :: t ∧ (c = 45 ∨ isDigit c = true) := by
  obtain ⟨c, ds, hcons, hall⟩ := n.whole_cons
  rcases hnegative : n.negative with _ | _
  · refine ⟨c, ds ++ (fractionText n.fraction ++ exponentText n.exponent), ?_,
      .inr (hall c List.mem_cons_self)⟩
    simp [Numeral.text, signText, hnegative, Numeral.unsignedText, hcons]
  · exact ⟨45, n.unsignedText, by simp [Numeral.text, signText, hnegative], .inl rfl⟩

variable (size : Nat) {object : TextParser Bytes UInt8 JsonValue}
  {objectText : Bytes → JsonValue → Prop}

theorem accepts_parseValue (hobject : object.Accepts objectText fun _ => True)
    (hbrace : ∀ x value, objectText x value → x.head? = some 123) :
    (parseValue size object).Accepts (ValueText objectText) EndsNumber where
  complete := by
    intro x value r hx hr
    simp only [parseValue, parses_peek_bind]
    rcases hx with _ | value | ⟨n, rfl, hvalue⟩ | ⟨y, rfl, hy⟩ | hx
    · have hnull : text "null" = [110, 117, 108, 108] := by decide
      have hhead : (text "null" ++ r).headD 0 = 110 := by rw [hnull]; rfl
      simp only [hhead]
      simp
    · rcases value with _ | _
      · have hfalse : text "false" = [102, 97, 108, 115, 101] := by decide
        have hhead : (text "false" ++ r).headD 0 = 102 := by rw [hfalse]; rfl
        simp only [Bool.false_eq_true, if_false, hhead]
        simp
      · have htrue : text "true" = [116, 114, 117, 101] := by decide
        have hhead : (text "true" ++ r).headD 0 = 116 := by rw [htrue]; rfl
        simp only [if_true, hhead]
        simp
    · obtain ⟨c, t, htext, hc⟩ := n.text_cons
      have hhead : (n.text ++ r).headD 0 = c := by rw [htext]; rfl
      have hne : c ≠ 123 ∧ c ≠ 34 ∧ c ≠ 91 ∧ c ≠ 116 ∧ c ≠ 102 ∧ c ≠ 110 := by
        refine ⟨?_, ?_, ?_, ?_, ?_, ?_⟩ <;> rintro rfl <;> simp [isDigit] at hc
      simp only [hhead, hne.1, hne.2.1, hne.2.2.1, hne.2.2.2.1, hne.2.2.2.2.1, hne.2.2.2.2.2,
        or_self, if_false, hc, if_true]
      rw [parses_bind]
      exact ⟨_, r, (accepts_parseNumber size).complete _ _ r ⟨n, rfl, hvalue⟩ hr,
        parses_pure.2 ⟨rfl, rfl⟩⟩
    · simp only [List.cons_append, List.headD_cons, if_true]
      rw [if_neg (by decide), parses_bind]
      exact ⟨_, r, (parses_parseString size).mpr ⟨_, ⟨y, rfl, hy⟩, rfl⟩,
        parses_pure.2 ⟨rfl, rfl⟩⟩
    · have hhead : (x ++ r).headD 0 = 123 := by
        obtain ⟨t, rfl⟩ := List.head?_eq_some_iff.mp (hbrace x value hx)
        rfl
      rw [if_pos hhead]
      exact hobject.complete x value r hx trivial
  sound := by
    intro s value r h
    simp only [parseValue, parses_peek_bind] at h
    split at h
    · obtain ⟨x, hs, hx⟩ := hobject.sound s value r h
      exact ⟨x, hs, .object hx⟩
    split at h
    · rw [parses_bind] at h
      obtain ⟨y, s₁, hstring, h⟩ := h
      obtain ⟨rfl, rfl⟩ := parses_pure.1 h
      obtain ⟨x, hx, hs⟩ := (parses_parseString size).mp hstring
      exact ⟨x, hs, .string hx⟩
    split at h
    · exact ((parses_fail size).mp h).elim
    split at h
    · rw [parses_bind] at h
      obtain ⟨b, s₁, hkeyword, h⟩ := h
      obtain ⟨rfl, rfl⟩ := parses_pure.1 h
      exact ⟨_, (parses_parseKeyword size).mp hkeyword, .boolean b⟩
    split at h
    · rw [parses_bind] at h
      obtain ⟨_, s₁, hliteral, h⟩ := h
      obtain ⟨rfl, rfl⟩ := parses_pure.1 h
      exact ⟨_, (parses_parseLiteral size).mp hliteral, .null⟩
    split at h
    · rw [parses_bind] at h
      obtain ⟨d, s₁, hnumber, h⟩ := h
      obtain ⟨rfl, rfl⟩ := parses_pure.1 h
      obtain ⟨x, hs, hx⟩ := (accepts_parseNumber size).sound _ _ _ hnumber
      exact ⟨x, hs, .number hx⟩
    · exact ((parses_fail size).mp h).elim

end Values

section Members

variable (size : Nat) {object : TextParser Bytes UInt8 JsonValue}
  {objectText : Bytes → JsonValue → Prop}

theorem blank_nil : Blank [] := fun _ hc => absurd hc List.not_mem_nil

/-- A string starts with a quote, which is not whitespace. -/
theorem StringText.headD {x s : Bytes} (h : StringText x s) (r : Bytes) :
    (x ++ r).headD 0 = 34 := by
  obtain ⟨y, rfl, -⟩ := h
  rfl

theorem ValueText.isWhitespace_headD
    (hbrace : ∀ x value, objectText x value → x.head? = some 123) {x : Bytes} {value : JsonValue}
    (h : ValueText objectText x value) (r : Bytes) : isWhitespace ((x ++ r).headD 0) = false := by
  rcases h with _ | value | ⟨n, rfl, _⟩ | hs | hx
  · have hnull : text "null" = [110, 117, 108, 108] := by decide
    rw [hnull]
    rfl
  · rcases value with _ | _
    · have hfalse : text "false" = [102, 97, 108, 115, 101] := by decide
      simp [hfalse, isWhitespace]
    · have htrue : text "true" = [116, 114, 117, 101] := by decide
      simp [htrue, isWhitespace]
  · obtain ⟨c, t, htext, hc⟩ := n.text_cons
    rw [htext, List.cons_append, List.headD_cons]
    rcases hc with rfl | hc
    · rfl
    · simp only [isDigit, Bool.and_eq_true, decide_eq_true_eq, UInt8.le_iff_toNat_le,
        UInt8.reduceToNat] at hc
      simp only [isWhitespace, Bool.or_eq_false_iff, decide_eq_false_iff_not, ← UInt8.toNat_inj,
        UInt8.reduceToNat]
      omega
  · rw [hs.headD]
    rfl
  · obtain ⟨t, rfl⟩ := List.head?_eq_some_iff.mp (hbrace x value hx)
    rfl

theorem hasMember_eq_true_iff {members : List (Bytes × JsonValue)} {name : Bytes} :
    hasMember members name = true ↔ ∃ m ∈ members, m.1 = name := by
  rw [hasMember, List.any_eq_true]
  simp only [decide_eq_true_eq]

/-- A member whose name is new is read and put at its place. -/
theorem accepts_parseMember (hobject : object.Accepts objectText fun _ => True)
    (hbrace : ∀ x value, objectText x value → x.head? = some 123)
    (members : List (Bytes × JsonValue)) : (parseMember size object members).Accepts
      (fun x members' => ∃ m, MemberText objectText x m ∧ (∀ m' ∈ members, m'.1 ≠ m.1) ∧
        members' = OrderedMap.insertEntry m.1 m.2 members) EndsNumber where
  complete := by
    rintro _ _ r ⟨_, ⟨hw, hn, hw', hw'', hx⟩, hnew, rfl⟩ hr
    rename_i w n w' w'' x name value
    have htext : w ++ (n ++ (w' ++ 58 :: (w'' ++ x))) ++ r =
        w ++ (n ++ (w' ++ 58 :: (w'' ++ (x ++ r)))) := by simp
    rw [htext, parseMember, parses_bind]
    refine ⟨⟨⟩, _, skipWhitespace_complete hw (by rw [hn.headD]; rfl), ?_⟩
    simp only [parses_peek_bind, hn.headD, if_true]
    rw [parses_bind]
    refine ⟨name, _, (parses_parseString size).mpr ⟨n, hn, rfl⟩, ?_⟩
    have hname : ¬ hasMember members name = true := by
      rw [hasMember_eq_true_iff]
      rintro ⟨m', hm', heq⟩
      exact hnew m' hm' heq
    rw [if_neg hname, parses_bind]
    refine ⟨⟨⟩, _, skipWhitespace_complete hw' rfl, ?_⟩
    rw [parses_bind]
    refine ⟨⟨⟩, _, (parses_expect size).mpr rfl, ?_⟩
    rw [parses_bind]
    refine ⟨⟨⟩, _, skipWhitespace_complete hw'' (hx.isWhitespace_headD hbrace r), ?_⟩
    rw [parses_bind]
    exact ⟨value, r, (accepts_parseValue size hobject hbrace).complete x value r hx hr,
      parses_pure.2 ⟨rfl, rfl⟩⟩
  sound := by
    intro s members' r h
    rw [parseMember, parses_bind] at h
    obtain ⟨_, s₁, hskip, h⟩ := h
    simp only [parses_peek_bind] at h
    split at h
    · rw [parses_bind] at h
      obtain ⟨name, s₂, hname, h⟩ := h
      split at h
      · exact ((parses_fail size).mp h).elim
      · rename_i hnew
        rw [parses_bind] at h
        obtain ⟨_, s₃, hskip', h⟩ := h
        rw [parses_bind] at h
        obtain ⟨_, s₄, hcolon, h⟩ := h
        rw [parses_bind] at h
        obtain ⟨_, s₅, hskip'', h⟩ := h
        rw [parses_bind] at h
        obtain ⟨value, s₆, hvalue, h⟩ := h
        obtain ⟨rfl, rfl⟩ := parses_pure.1 h
        obtain ⟨x, rfl, hx⟩ := (accepts_parseValue size hobject hbrace).sound _ _ _ hvalue
        obtain ⟨w'', hw'', rfl⟩ := skipWhitespace_sound hskip''
        rw [parses_expect] at hcolon
        obtain ⟨w', hw', rfl⟩ := skipWhitespace_sound hskip'
        obtain ⟨n, hn, rfl⟩ := (parses_parseString size).mp hname
        obtain ⟨w, hw, rfl⟩ := skipWhitespace_sound hskip
        refine ⟨w ++ (n ++ (w' ++ 58 :: (w'' ++ x))), by rw [hcolon]; simp, (name, value),
          .mk hw hn hw' hw'' hx, ?_, rfl⟩
        intro m' hm' heq
        exact hnew (hasMember_eq_true_iff.2 ⟨m', hm', heq⟩)
    · exact ((parses_fail size).mp h).elim

/-- The members of a text put to some members one after the other. -/
def insertMembers (members ms : List (Bytes × JsonValue)) : List (Bytes × JsonValue) :=
  ms.foldl (fun members m => OrderedMap.insertEntry m.1 m.2 members) members

/-- The names are pairwise distinct, and distinct from those of the members. -/
def NewNames (members ms : List (Bytes × JsonValue)) : Prop :=
  (ms.map Prod.fst).Nodup ∧ ∀ m ∈ ms, ∀ m' ∈ members, m'.1 ≠ m.1

theorem newNames_cons {members ms : List (Bytes × JsonValue)} {m : Bytes × JsonValue} :
    NewNames members (m :: ms) ↔ (∀ m' ∈ members, m'.1 ≠ m.1) ∧
      NewNames (OrderedMap.insertEntry m.1 m.2 members) ms := by
  simp only [NewNames, List.map_cons, List.nodup_cons, List.mem_map, List.forall_mem_cons]
  constructor
  · rintro ⟨⟨hnot, hnodup⟩, hm, hms⟩
    refine ⟨hm, hnodup, ?_⟩
    intro m₁ hm₁ m' hm'
    rw [(OrderedMap.insertEntry_perm hm m.2).mem_iff, List.mem_cons] at hm'
    rcases hm' with rfl | hm'
    · exact fun heq => hnot ⟨m₁, hm₁, heq.symm⟩
    · exact hms m₁ hm₁ m' hm'
  · rintro ⟨hm, hnodup, hms⟩
    simp only [(OrderedMap.insertEntry_perm hm m.2).mem_iff, List.forall_mem_cons] at hms
    refine ⟨⟨?_, hnodup⟩, hm, fun m₁ hm₁ => (hms m₁ hm₁).2⟩
    rintro ⟨m₁, hm₁, heq⟩
    exact (hms m₁ hm₁).1 heq.symm

/-- New members come to those there are, in the order of the names. -/
theorem insertMembers_perm {members ms : List (Bytes × JsonValue)} (h : NewNames members ms) :
    (insertMembers members ms).Perm (ms ++ members) := by
  induction ms generalizing members with
  | nil => exact List.Perm.refl _
  | cons m ms ih =>
      obtain ⟨hm, hms⟩ := newNames_cons.1 h
      exact ((ih hms).trans ((OrderedMap.insertEntry_perm hm m.2).append_left ms)).trans
        List.perm_middle

theorem insertMembers_sorted {members ms : List (Bytes × JsonValue)}
    (h : members.Pairwise fun e e' => MapKey.sortKey e.1 < MapKey.sortKey e'.1) :
    (insertMembers members ms).Pairwise
      fun e e' => MapKey.sortKey e.1 < MapKey.sortKey e'.1 := by
  induction ms generalizing members with
  | nil => exact h
  | cons m ms ih => exact ih (OrderedMap.insertEntry_sorted h)

/-- There is one way to put members with distinct names in order. -/
theorem inOrder_iff {ms entries : List (Bytes × JsonValue)} (h : (ms.map Prod.fst).Nodup) :
    InOrder ms entries ↔ entries = insertMembers [] ms := by
  have hperm : (insertMembers [] ms).Perm ms := by
    simpa using insertMembers_perm (⟨h, by simp⟩ : NewNames [] ms)
  have hsorted : (insertMembers [] ms).Pairwise
      fun e e' => MapKey.sortKey e.1 < MapKey.sortKey e'.1 :=
    insertMembers_sorted List.Pairwise.nil
  constructor
  · rintro ⟨hentries, hms⟩
    apply (hms.trans hperm.symm).eq_of_pairwise ?_ hentries hsorted
    intro e e' _ _ hlt hlt'
    exact absurd (hlt.trans hlt') (lt_irrefl _)
  · rintro rfl
    exact ⟨hsorted, hperm⟩

/-- The loop over the members reads up to the closing brace. -/
theorem parseMembers_complete (hobject : object.Accepts objectText fun _ => True)
    (hbrace : ∀ x value, objectText x value → x.head? = some 123) {turns : Nat}
    {y r : Bytes} {members ms : List (Bytes × JsonValue)} (hy : MembersText objectText y ms)
    (hnew : NewNames members ms) (hturns : ms.length ≤ turns) :
    (parseMembers size object turns members).Parses (y ++ 125 :: r)
      (.object (insertMembers members ms)) r := by
  induction hy generalizing turns members with
  | @one x w m hx hw =>
      obtain ⟨turns, rfl⟩ := Nat.exists_eq_succ_of_ne_zero (Nat.ne_of_gt hturns)
      rw [parseMembers, parses_bind, List.append_assoc]
      refine ⟨_, _, (accepts_parseMember size hobject hbrace members).complete _ _ _
        ⟨m, hx, (newNames_cons.1 hnew).1, rfl⟩ (endsNumber_of_delimiter hw (.inr rfl)), ?_⟩
      rw [parses_bind]
      refine ⟨⟨⟩, _, skipWhitespace_complete hw rfl, ?_⟩
      simp only [parses_peek_bind, List.headD_cons]
      rw [if_neg (by decide)]
      simp only [if_true, parses_advance_bind, List.tail_cons]
      exact parses_pure.2 ⟨rfl, rfl⟩
  | @more x w y m ms hx hw hy ih =>
      obtain ⟨turns, rfl⟩ := Nat.exists_eq_succ_of_ne_zero
        (Nat.ne_of_gt (Nat.lt_of_lt_of_le (Nat.succ_pos _) hturns))
      obtain ⟨hm, hms⟩ := newNames_cons.1 hnew
      have htext : x ++ (w ++ 44 :: y) ++ 125 :: r = x ++ (w ++ 44 :: (y ++ 125 :: r)) := by simp
      rw [parseMembers, parses_bind, htext]
      refine ⟨_, _, (accepts_parseMember size hobject hbrace members).complete _ _ _
        ⟨m, hx, hm, rfl⟩ (endsNumber_of_delimiter hw (.inl rfl)), ?_⟩
      rw [parses_bind]
      refine ⟨⟨⟩, _, skipWhitespace_complete hw rfl, ?_⟩
      simp only [parses_peek_bind, List.headD_cons, if_true, parses_advance_bind, List.tail_cons]
      exact ih hms (Nat.le_of_succ_le_succ hturns)

theorem parseMembers_sound (hobject : object.Accepts objectText fun _ => True)
    (hbrace : ∀ x value, objectText x value → x.head? = some 123) {turns : Nat}
    {s r : Bytes} {members : List (Bytes × JsonValue)} {value : JsonValue}
    (h : (parseMembers size object turns members).Parses s value r) :
    ∃ y ms, MembersText objectText y ms ∧ NewNames members ms ∧ s = y ++ 125 :: r ∧
      value = .object (insertMembers members ms) := by
  induction turns generalizing s members with
  | zero => exact (parses_outOfTurns.1 h).elim
  | succ turns ih =>
      rw [parseMembers, parses_bind] at h
      obtain ⟨members', s₁, hmember, h⟩ := h
      rw [parses_bind] at h
      obtain ⟨_, s₂, hskip, h⟩ := h
      obtain ⟨x, rfl, m, hx, hm, rfl⟩ :=
        (accepts_parseMember size hobject hbrace members).sound _ _ _ hmember
      obtain ⟨w, hw, rfl⟩ := skipWhitespace_sound hskip
      simp only [parses_peek_bind] at h
      split at h
      · rename_i hcomma
        rcases s₂ with _ | ⟨c, s₂⟩
        · simp at hcomma
        simp only [List.headD_cons] at hcomma
        simp only [parses_advance_bind, List.tail_cons] at h
        obtain ⟨y, ms, hy, hms, rfl, rfl⟩ := ih h
        exact ⟨_, _, .more hx hw hy, newNames_cons.2 ⟨hm, hms⟩, by simp [hcomma], rfl⟩
      split at h
      · rename_i hcloses
        rcases s₂ with _ | ⟨c, s₂⟩
        · simp at hcloses
        simp only [List.headD_cons] at hcloses
        simp only [parses_advance_bind, List.tail_cons] at h
        obtain ⟨rfl, rfl⟩ := parses_pure.1 h
        refine ⟨_, _, .one hx hw, newNames_cons.2 ⟨hm, ?_⟩, by simp [hcloses], rfl⟩
        exact ⟨List.nodup_nil, by simp⟩
      · exact ((parses_fail size).mp h).elim

theorem MembersText.length_le {y : Bytes} {ms : List (Bytes × JsonValue)}
    (h : MembersText objectText y ms) : ms.length ≤ y.length := by
  induction h with
  | one hx hw =>
      obtain ⟨_, _, _, _, _⟩ := hx
      simp only [List.length_append, List.length_cons, List.length_nil]
      omega
  | more hx hw hy ih =>
      simp only [List.length_append, List.length_cons]
      omega

end Members

section Objects

variable (size : Nat)

theorem ObjectText.head?_eq {levels : Nat} {x : Bytes} {value : JsonValue}
    (h : ObjectText levels x value) : x.head? = some 123 := by
  rcases levels with _ | levels
  · exact h.elim
  · rcases h with ⟨w, -, rfl, -⟩ | ⟨y, ms, entries, -, -, -, rfl, -⟩
    · rfl
    · rfl

theorem Blank.append {w w' : Bytes} (hw : Blank w) (hw' : Blank w') : Blank (w ++ w') := by
  intro c hc
  rcases List.mem_append.mp hc with hc | hc
  · exact hw c hc
  · exact hw' c hc

/-- Whitespace before the first member belongs to it. -/
theorem MembersText.prepend {objectText : Bytes → JsonValue → Prop} {w y : Bytes}
    {ms : List (Bytes × JsonValue)} (hw : Blank w) (h : MembersText objectText y ms) :
    MembersText objectText (w ++ y) ms := by
  have hmember : ∀ x m, MemberText objectText x m → MemberText objectText (w ++ x) m := by
    rintro x m ⟨hw', hn, hw₂, hw₃, hx⟩
    rw [← List.append_assoc]
    exact .mk (hw.append hw') hn hw₂ hw₃ hx
  rcases h with ⟨hx, hw'⟩ | ⟨hx, hw', hy⟩
  · rw [← List.append_assoc]
    exact .one (hmember _ _ hx) hw'
  · rw [← List.append_assoc]
    exact .more (hmember _ _ hx) hw' hy

/-- Without the whitespace before it, the first member starts with a quote. -/
theorem MembersText.strip {objectText : Bytes → JsonValue → Prop} {y : Bytes}
    {ms : List (Bytes × JsonValue)} (h : MembersText objectText y ms) :
    ∃ w t, Blank w ∧ y = w ++ 34 :: t ∧ MembersText objectText (34 :: t) ms := by
  have hmember : ∀ x m, MemberText objectText x m →
      ∃ w t, Blank w ∧ x = w ++ 34 :: t ∧ MemberText objectText (34 :: t) m := by
    rintro x m ⟨hw, hn, hw', hw'', hx⟩
    obtain ⟨s, rfl, hs⟩ := hn
    exact ⟨_, _, hw, rfl, .mk blank_nil ⟨s, rfl, hs⟩ hw' hw'' hx⟩
  rcases h with ⟨hx, hw'⟩ | ⟨hx, hw', hy⟩
  · obtain ⟨w, t, hw, rfl, hstripped⟩ := hmember _ _ hx
    exact ⟨w, _, hw, List.append_assoc _ _ _, .one hstripped hw'⟩
  · obtain ⟨w, t, hw, rfl, hstripped⟩ := hmember _ _ hx
    exact ⟨w, _, hw, List.append_assoc _ _ _, .more hstripped hw' hy⟩

/-- At every level the parser accepts the objects nested that deep. -/
theorem accepts_parseObject (levels : Nat) :
    (parseObject size levels).Accepts (ObjectText levels) fun _ => True := by
  induction levels with
  | zero =>
      refine ⟨fun _ _ _ hx => hx.elim, ?_⟩
      intro s value r h
      exact ((parses_fail size).mp h).elim
  | succ levels ih =>
      have hbrace : ∀ x value, ObjectText levels x value → x.head? = some 123 :=
        fun x value hx => hx.head?_eq
      constructor
      · intro x value r hx _
        rcases hx with ⟨w, hw, rfl, rfl⟩ | ⟨y, ms, entries, hy, hnodup, horder, rfl, rfl⟩
        · have htext : 123 :: (w ++ [125]) ++ r = 123 :: (w ++ 125 :: r) := by simp
          rw [parseObject, parses_bind, htext]
          refine ⟨⟨⟩, _, (parses_expect size).mpr rfl, ?_⟩
          rw [parses_bind]
          refine ⟨⟨⟩, _, skipWhitespace_complete hw rfl, ?_⟩
          simp only [parses_peek_bind, List.headD_cons, if_true, parses_advance_bind,
            List.tail_cons]
          exact parses_pure.2 ⟨rfl, rfl⟩
        · obtain ⟨w, t, hw, rfl, hmembers⟩ := hy.strip
          have htext : 123 :: (w ++ 34 :: t ++ [125]) ++ r =
              123 :: (w ++ 34 :: (t ++ 125 :: r)) := by simp
          rw [parseObject, parses_bind, htext]
          refine ⟨⟨⟩, _, (parses_expect size).mpr rfl, ?_⟩
          rw [parses_bind]
          refine ⟨⟨⟩, _, skipWhitespace_complete hw rfl, ?_⟩
          have hquote : (34 :: (t ++ 125 :: r)).headD 0 ≠ (125 : UInt8) := by simp
          rw [parses_peek_bind, if_neg hquote, parses_rest_bind, (inOrder_iff hnodup).mp horder]
          have hlength := hmembers.length_le
          refine parseMembers_complete size ih hbrace hmembers ⟨hnodup, by simp⟩ ?_
          simp only [List.length_cons, List.length_append] at hlength ⊢
          omega
      · intro s value r h
        rw [parseObject, parses_bind] at h
        obtain ⟨_, s₁, hexpect, h⟩ := h
        rw [parses_expect] at hexpect
        rw [parses_bind] at h
        obtain ⟨_, s₂, hskip, h⟩ := h
        obtain ⟨w, hw, rfl⟩ := skipWhitespace_sound hskip
        simp only [parses_peek_bind] at h
        split at h
        · rename_i hcloses
          rcases s₂ with _ | ⟨c, s₂⟩
          · simp at hcloses
          simp only [List.headD_cons] at hcloses
          simp only [parses_advance_bind, List.tail_cons] at h
          obtain ⟨rfl, rfl⟩ := parses_pure.1 h
          exact ⟨123 :: (w ++ [125]), by simp [hexpect, hcloses], .inl ⟨w, hw, rfl, rfl⟩⟩
        · rw [parses_rest_bind] at h
          obtain ⟨y, ms, hy, hms, rfl, rfl⟩ := parseMembers_sound size ih hbrace h
          refine ⟨123 :: (w ++ y ++ [125]), by simp [hexpect], .inr ⟨w ++ y, ms, _,
            hy.prepend hw, hms.1, (inOrder_iff hms.1).mpr rfl, rfl, rfl⟩⟩

/-- The parser reads exactly the documents of the grammar, of any size. -/
theorem exists_parses_parseDocument_iff {document : Bytes} {value : JsonValue} :
    (∃ s, (parseDocument document.length).Parses document value s) ↔
      DocumentText document value := by
  have haccepts := accepts_parseObject document.length kMaxDepth
  constructor
  · rintro ⟨s, h⟩
    rw [parseDocument, parses_bind] at h
    obtain ⟨_, s₁, hskip, h⟩ := h
    obtain ⟨w, hw, hdocument⟩ := skipWhitespace_sound hskip
    rw [parses_rest_bind] at h
    split at h
    · rw [parses_bind] at h
      obtain ⟨value', s₂, hobject, h⟩ := h
      rw [parses_bind] at h
      obtain ⟨_, s₃, hskip', h⟩ := h
      rw [parses_rest_bind] at h
      split at h
      · rename_i hend
        obtain ⟨rfl, rfl⟩ := parses_pure.1 h
        obtain ⟨w', hw', rfl⟩ := skipWhitespace_sound hskip'
        obtain ⟨x, rfl, hx⟩ := haccepts.sound _ _ _ hobject
        rw [hend, List.append_nil] at hdocument
        exact ⟨w, x, w', hw, hw', hx, hdocument⟩
      · exact ((parses_fail _).mp h).elim
    · exact ((parses_fail _).mp h).elim
  · rintro ⟨w, x, w', hw, hw', hx, hdocument⟩
    obtain ⟨t, hhead⟩ := List.head?_eq_some_iff.mp hx.head?_eq
    refine ⟨[], ?_⟩
    rw [parseDocument, parses_bind]
    refine ⟨⟨⟩, x ++ w', ?_, ?_⟩
    · have hbrace : isWhitespace ((x ++ w').headD 0) = false := by
        rw [hhead]
        rfl
      exact hdocument ▸ skipWhitespace_complete hw hbrace
    · have hbrace : (x ++ w').head? = some 123 := by
        rw [hhead]
        rfl
      rw [parses_rest_bind, if_pos hbrace, parses_bind]
      refine ⟨value, w', haccepts.complete x value w' hx trivial, ?_⟩
      rw [parses_bind]
      refine ⟨⟨⟩, [], ?_, ?_⟩
      · have hskip := skipWhitespace_complete hw' (r := []) rfl
        rwa [List.append_nil] at hskip
      · rw [parses_rest_bind, if_pos rfl]
        exact parses_pure.2 ⟨rfl, rfl⟩

/-- A document denotes one value. -/
theorem DocumentText.unique {document : Bytes} {value value' : JsonValue}
    (h : DocumentText document value) (h' : DocumentText document value') : value = value' := by
  obtain ⟨s, hparses⟩ := exists_parses_parseDocument_iff.2 h
  obtain ⟨s', hparses'⟩ := exists_parses_parseDocument_iff.2 h'
  rw [TextParser.Parses] at hparses hparses'
  rw [hparses, Option.some.injEq, Except.ok.injEq, Prod.mk.injEq] at hparses'
  exact hparses'.1

theorem parseJsonObject_eq_ok_iff {document : Bytes} {value : JsonValue} :
    parseJsonObject document = .ok value ↔
      document.length ≤ 64 * 1024 ∧ DocumentText document value := by
  rw [parseJsonObject_eq_ok, kMaxInputBytes, exists_parses_parseDocument_iff]

/-- The parser stops on every byte string, and accepts exactly the documents of
the grammar within the size limit, with the value that the text denotes. -/
theorem parseJsonObject_accepts (document : Bytes) :
    (parseDocument document.length).Terminates document ∧
      ∀ value, parseJsonObject document = .ok value ↔
        document.length ≤ 64 * 1024 ∧ DocumentText document value :=
  ⟨terminates_parseDocument document.length document, fun _ => parseJsonObject_eq_ok_iff⟩

end Objects

end Fx

end Supernova
