/-
Texts between quotes, as C++ and XML read them: which bytes an ordinary string literal has,
and which value an attribute has.  A text that is put between quotes as it is comes back
exactly if nothing in it has a meaning of its own.
-/
import Mathlib.Data.List.TakeWhile
import Supernova.IntegerLiterals

namespace Supernova

attribute [local semireducible] ByteArray.toList.loop

section Characters

def isHexDigit (c : UInt8) : Bool := isDigit c || 97 ≤ c && c ≤ 102 || 65 ≤ c && c ≤ 70

def hexDigitValue (c : UInt8) : Nat :=
  if isDigit c then c.toNat - 48 else if 97 ≤ c then c.toNat - 87 else c.toNat - 55

def hexValue (digits : Bytes) : Nat := digits.foldl (fun n c => 16 * n + hexDigitValue c) 0

/-- The bytes of the character with this number, if there is one. -/
def characterBytes (n : Nat) : Option Bytes :=
  if n.isValidChar then some (String.utf8EncodeChar (Char.ofNat n)) else none

theorem length_characterBytes {n : Nat} {bytes : Bytes} (h : characterBytes n = some bytes) :
    bytes.length ≤ 4 := by
  rw [characterBytes] at h
  split_ifs at h
  cases h
  rw [String.length_utf8EncodeChar]
  exact Char.utf8Size_le_four _

theorem length_characterBytes_of_lt {n : Nat} (hn : n < 128) {bytes : Bytes}
    (h : characterBytes n = some bytes) : bytes.length = 1 := by
  rw [characterBytes] at h
  split_ifs at h with hvalid
  cases h
  have hsize : ∀ n < 128, (String.utf8EncodeChar (Char.ofNat n)).length = 1 := by decide
  exact hsize n hn

end Characters

section StringLiterals

/-- The third character of a trigraph and what the trigraph stands for. -/
def trigraph (c : UInt8) : Option UInt8 :=
  [(61, 35), (47, 92), (39, 94), (40, 91), (41, 93), (33, 124), (60, 123), (62, 125),
    (45, 126)].lookup c

def replaceTrigraphs : Bytes → Bytes
  | a :: b :: c :: s =>
      if a = 63 ∧ b = 63 ∧ (trigraph c).isSome then
        (trigraph c).getD c :: replaceTrigraphs s
      else a :: replaceTrigraphs (b :: c :: s)
  | s => s

def isNewline (c : UInt8) : Bool := c = 10 || c = 13

/-- A backslash at the end of a line joins the line to the next one. -/
def spliceLines : Bytes → Bytes
  | a :: b :: s =>
      if a = 92 ∧ isNewline b then spliceLines s else a :: spliceLines (b :: s)
  | s => s

def simpleEscape (c : UInt8) : Option UInt8 :=
  [(39, 39), (34, 34), (63, 63), (92, 92), (97, 7), (98, 8), (102, 12), (110, 10), (114, 13),
    (116, 9), (118, 11)].lookup c

def universalCharacter (digits : Nat) (s : Bytes) : Option (Bytes × Bytes) :=
  if (s.take digits).length = digits ∧ (s.take digits).all isHexDigit then
    (characterBytes (hexValue (s.take digits))).map fun bytes => (bytes, s.drop digits)
  else none

/-- An escape sequence behind its backslash, and what follows it. -/
def escapeSequence : Bytes → Option (Bytes × Bytes)
  | [] => none
  | c :: s =>
      let octal := ((c :: s).take 3).takeWhile isOctalDigit
      let hex := s.takeWhile isHexDigit
      if isOctalDigit c then
        if octalValue octal < 256 then
          some ([UInt8.ofNat (octalValue octal)], (c :: s).drop octal.length)
        else none
      else if c = 120 then
        if hex ≠ [] ∧ hexValue hex < 256 then
          some ([UInt8.ofNat (hexValue hex)], s.drop hex.length)
        else none
      else if c = 117 then universalCharacter 4 s
      else if c = 85 then universalCharacter 8 s
      else (simpleEscape c).map fun b => ([b], s)

/-- What stands between the quotes of a literal, and the bytes that it denotes. -/
inductive LiteralBody : Bytes → Bytes → Prop
  | nil : LiteralBody [] []
  | char {c : UInt8} {s value : Bytes} : c ≠ 34 → c ≠ 92 → isNewline c = false →
      LiteralBody s value → LiteralBody (c :: s) (c :: value)
  | escape {s bytes rest value : Bytes} : escapeSequence s = some (bytes, rest) →
      LiteralBody rest value → LiteralBody (92 :: s) (bytes ++ value)

/-- A source text that is one string literal, and the bytes that it denotes; some dialects
have trigraphs. -/
def StringLiteral (trigraphs : Bool) (source value : Bytes) : Prop :=
  ∃ body, spliceLines (if trigraphs then replaceTrigraphs source else source) =
    34 :: (body ++ [34]) ∧ LiteralBody body value

/-- Nothing in the text has a meaning of its own in a literal. -/
structure PlainLiteral (trigraphs : Bool) (s : Bytes) : Prop where
  plain : ∀ c ∈ s, c ≠ 34 ∧ c ≠ 92 ∧ isNewline c = false
  noTrigraph : trigraphs = true → ∀ c, (trigraph c).isSome = true → ¬[63, 63, c] <:+: s

theorem length_universalCharacter {digits : Nat} {s bytes rest : Bytes} (hdigits : 4 ≤ digits)
    (h : universalCharacter digits s = some (bytes, rest)) :
    bytes.length + rest.length ≤ s.length := by
  rw [universalCharacter] at h
  split_ifs at h with hhex
  obtain ⟨bytes', hbytes, heq⟩ := Option.map_eq_some_iff.mp h
  cases heq
  have hbound := length_characterBytes hbytes
  have htake := hhex.1
  rw [List.length_take] at htake
  rw [List.length_drop]
  omega

theorem length_escapeSequence {s bytes rest : Bytes}
    (h : escapeSequence s = some (bytes, rest)) : bytes.length + rest.length ≤ s.length := by
  cases s with
  | nil => cases h
  | cons c s =>
      rw [escapeSequence] at h
      split_ifs at h with hoctal _ _ hhex
      · cases h
        have hpos : 0 < (((c :: s).take 3).takeWhile isOctalDigit).length := by
          rw [List.take_succ_cons, List.takeWhile_cons_of_pos hoctal]
          exact Nat.succ_pos _
        simp only [List.length_nil, List.length_drop, List.length_cons]
        omega
      · cases h
        have hpos := List.length_pos_iff.mpr hhex.1
        simp only [List.length_nil, List.length_drop, List.length_cons]
        omega
      · have := length_universalCharacter (by omega) h
        rw [List.length_cons]
        omega
      · have := length_universalCharacter (by omega) h
        rw [List.length_cons]
        omega
      · obtain ⟨b, -, heq⟩ := Option.map_eq_some_iff.mp h
        cases heq
        simp [Nat.add_comm]

theorem LiteralBody.length_le {s value : Bytes} (h : LiteralBody s value) :
    value.length ≤ s.length := by
  induction h with
  | nil => exact Nat.le_refl 0
  | char _ _ _ _ ih => exact Nat.succ_le_succ ih
  | escape hescape _ ih =>
      have := length_escapeSequence hescape
      rw [List.length_append, List.length_cons]
      omega

/-- A literal that is as long as what it denotes has no escape sequence. -/
theorem LiteralBody.eq_of_length {s value : Bytes} (h : LiteralBody s value)
    (hlength : s.length ≤ value.length) :
    value = s ∧ ∀ c ∈ s, c ≠ 34 ∧ c ≠ 92 ∧ isNewline c = false := by
  induction h with
  | nil => exact ⟨rfl, fun _ hc => absurd hc List.not_mem_nil⟩
  | char hquote hbackslash hnewline _ ih =>
      obtain ⟨rfl, hplain⟩ := ih (Nat.le_of_succ_le_succ hlength)
      exact ⟨rfl, List.forall_mem_cons.mpr ⟨⟨hquote, hbackslash, hnewline⟩, hplain⟩⟩
  | escape hescape hrest =>
      have hbound := length_escapeSequence hescape
      have hle := hrest.length_le
      rw [List.length_append, List.length_cons] at hlength
      omega

theorem literalBody_self {s : Bytes} (h : ∀ c ∈ s, c ≠ 34 ∧ c ≠ 92 ∧ isNewline c = false) :
    LiteralBody s s := by
  induction s with
  | nil => exact .nil
  | cons c s ih =>
      rw [List.forall_mem_cons] at h
      exact .char h.1.1 h.1.2.1 h.1.2.2 (ih h.2)

theorem replaceTrigraphs_append_quote (s : Bytes) :
    replaceTrigraphs (s ++ [34]) = replaceTrigraphs s ++ [34] := by
  fun_induction replaceTrigraphs s with
  | case1 a b c s htrigraph ih =>
      simp only [List.cons_append] at ih ⊢
      rw [replaceTrigraphs, if_pos htrigraph, ih]
  | case2 a b c s htrigraph ih =>
      simp only [List.cons_append] at ih ⊢
      rw [replaceTrigraphs, if_neg htrigraph, ih]
  | case3 s hshort =>
      have hquote : (trigraph 34).isSome = false := by decide
      rcases s with _ | ⟨a, _ | ⟨b, _ | ⟨c, s⟩⟩⟩
      · rfl
      · rfl
      · simp [replaceTrigraphs, hquote]
      · exact (hshort a b c s rfl).elim

theorem length_replaceTrigraphs_le (s : Bytes) : (replaceTrigraphs s).length ≤ s.length := by
  fun_induction replaceTrigraphs s with
  | case1 a b c s htrigraph ih =>
      simp only [List.length_cons]
      omega
  | case2 a b c s htrigraph ih => exact Nat.succ_le_succ ih
  | case3 s hshort => exact Nat.le_refl _

/-- A text that is not shorter without its trigraphs has none. -/
theorem replaceTrigraphs_of_length {s : Bytes} (h : s.length ≤ (replaceTrigraphs s).length) :
    replaceTrigraphs s = s ∧ ∀ c, (trigraph c).isSome = true → ¬[63, 63, c] <:+: s := by
  fun_induction replaceTrigraphs s with
  | case1 a b c s htrigraph ih =>
      have hle := length_replaceTrigraphs_le s
      simp only [List.length_cons] at h
      omega
  | case2 a b c s htrigraph ih =>
      obtain ⟨heq, hnone⟩ := ih (Nat.le_of_succ_le_succ h)
      refine ⟨congrArg (a :: ·) heq, ?_⟩
      intro d hd hwithin
      rcases List.infix_cons_iff.mp hwithin with hstart | hwithin
      · simp only [List.cons_prefix_cons] at hstart
        obtain ⟨rfl, rfl, rfl, -⟩ := hstart
        exact htrigraph ⟨rfl, rfl, hd⟩
      · exact hnone d hd hwithin
  | case3 s hshort =>
      refine ⟨rfl, ?_⟩
      rintro d - ⟨before, after, rfl⟩
      rcases before with _ | ⟨a, _ | ⟨b, _ | ⟨c, before⟩⟩⟩
      · exact hshort 63 63 d after rfl
      · exact hshort a 63 63 (d :: after) rfl
      · exact hshort a b 63 (63 :: d :: after) rfl
      · exact hshort a b c (before ++ [63, 63, d] ++ after) rfl

theorem replaceTrigraphs_eq_self {s : Bytes}
    (h : ∀ c, (trigraph c).isSome = true → ¬[63, 63, c] <:+: s) : replaceTrigraphs s = s := by
  fun_induction replaceTrigraphs s with
  | case1 a b c s htrigraph ih =>
      obtain ⟨rfl, rfl, hc⟩ := htrigraph
      exact (h c hc (List.IsPrefix.isInfix ⟨s, rfl⟩)).elim
  | case2 a b c s htrigraph ih =>
      refine congrArg (a :: ·) (ih fun d hd hwithin => h d hd ?_)
      exact hwithin.trans (List.suffix_cons a _).isInfix
  | case3 s hshort => rfl

theorem spliceLines_append_quote (s : Bytes) : spliceLines (s ++ [34]) = spliceLines s ++ [34] := by
  fun_induction spliceLines s with
  | case1 a b s hsplice ih =>
      simp only [List.cons_append] at ih ⊢
      rw [spliceLines, if_pos hsplice, ih]
  | case2 a b s hsplice ih =>
      simp only [List.cons_append] at ih ⊢
      rw [spliceLines, if_neg hsplice, ih]
  | case3 s hshort =>
      have hquote : isNewline 34 = false := by decide
      rcases s with _ | ⟨a, _ | ⟨b, s⟩⟩
      · rfl
      · simp [spliceLines, hquote]
      · exact (hshort a b s rfl).elim

theorem length_spliceLines_le (s : Bytes) : (spliceLines s).length ≤ s.length := by
  fun_induction spliceLines s with
  | case1 a b s hsplice ih =>
      simp only [List.length_cons]
      omega
  | case2 a b s hsplice ih => exact Nat.succ_le_succ ih
  | case3 s hshort => exact Nat.le_refl _

theorem spliceLines_of_plain {s : Bytes} (h : ∀ c ∈ s, c ≠ 92) : spliceLines s = s := by
  fun_induction spliceLines s with
  | case1 a b s hsplice ih => exact (h a List.mem_cons_self hsplice.1).elim
  | case2 a b s hsplice ih =>
      exact congrArg (a :: ·) (ih fun c hc => h c (List.mem_cons_of_mem a hc))
  | case3 s hshort => rfl

theorem replaceTrigraphs_quote_cons (s : Bytes) :
    replaceTrigraphs (34 :: s) = 34 :: replaceTrigraphs s := by
  rcases s with _ | ⟨a, _ | ⟨b, s⟩⟩
  · rfl
  · rfl
  · rw [replaceTrigraphs, if_neg fun h => absurd h.1 (by decide)]

theorem spliceLines_quote_cons (s : Bytes) : spliceLines (34 :: s) = 34 :: spliceLines s := by
  rcases s with _ | ⟨a, s⟩
  · rfl
  · rw [spliceLines, if_neg fun h => absurd h.1 (by decide)]

/-- The quotes stay where they are while trigraphs and lines are dealt with. -/
theorem stringLiteral_iff {trigraphs : Bool} {s value : Bytes} :
    StringLiteral trigraphs (34 :: (s ++ [34])) value ↔
      LiteralBody (spliceLines (if trigraphs then replaceTrigraphs s else s)) value := by
  have hphases : (if trigraphs then replaceTrigraphs (34 :: (s ++ [34])) else 34 :: (s ++ [34])) =
      34 :: ((if trigraphs then replaceTrigraphs s else s) ++ [34]) := by
    cases trigraphs with
    | false => rfl
    | true =>
        simp only [if_true]
        rw [replaceTrigraphs_quote_cons, replaceTrigraphs_append_quote]
  rw [StringLiteral, hphases, spliceLines_quote_cons, spliceLines_append_quote]
  simp

/-- A text between quotes denotes itself exactly if it is plain. -/
theorem stringLiteral_quoted_iff {trigraphs : Bool} {s : Bytes} :
    StringLiteral trigraphs (34 :: (s ++ [34])) s ↔ PlainLiteral trigraphs s := by
  rw [stringLiteral_iff]
  have hle : (if trigraphs then replaceTrigraphs s else s).length ≤ s.length := by
    split_ifs
    · exact length_replaceTrigraphs_le s
    · exact Nat.le_refl _
  constructor
  · intro h
    have hbody := h.length_le
    have hsplice := length_spliceLines_le (if trigraphs then replaceTrigraphs s else s)
    obtain ⟨heq, hplain⟩ := h.eq_of_length (hsplice.trans hle)
    refine ⟨heq ▸ hplain, ?_⟩
    rintro rfl
    exact (replaceTrigraphs_of_length (hbody.trans hsplice)).2
  · rintro ⟨hplain, hnoTrigraph⟩
    have hself : (if trigraphs then replaceTrigraphs s else s) = s := by
      cases trigraphs with
      | false => rfl
      | true => exact replaceTrigraphs_eq_self (hnoTrigraph rfl)
    rw [hself, spliceLines_of_plain fun c hc => (hplain c hc).2.1]
    exact literalBody_self hplain

end StringLiterals

section AttributeValues

/-- The characters that a reference by number can stand for. -/
def isXmlCharacter (n : Nat) : Bool :=
  n = 9 || n = 10 || n = 13 || 32 ≤ n && n ≤ 0xd7ff || 0xe000 ≤ n && n ≤ 0xfffd ||
    0x10000 ≤ n && n ≤ 0x10ffff

def numericReference (isDigitOf : UInt8 → Bool) (valueOf : Bytes → Nat) (s : Bytes) :
    Option (Bytes × Bytes) :=
  let digits := s.takeWhile isDigitOf
  let after := s.dropWhile isDigitOf
  if digits ≠ [] ∧ after.head? = some 59 ∧ isXmlCharacter (valueOf digits) then
    (characterBytes (valueOf digits)).map fun bytes => (bytes, after.tail)
  else none

def namedReferences : List (Bytes × UInt8) :=
  [(text "amp;", 38), (text "lt;", 60), (text "gt;", 62), (text "quot;", 34), (text "apos;", 39)]

/-- What a reference stands for and what follows it, behind its ampersand. -/
def reference (s : Bytes) : Option (Bytes × Bytes) :=
  if [35, 120].isPrefixOf s then numericReference isHexDigit hexValue (s.drop 2)
  else if [35].isPrefixOf s then numericReference isDigit digitsValue (s.drop 1)
  else namedReferences.findSome? fun entry =>
    if entry.1.isPrefixOf s then some ([entry.2], s.drop entry.1.length) else none

/-- The value of an attribute up to the quote that ends it, and what follows. -/
inductive AttributeValue (quote : UInt8) : Bytes → Bytes → Bytes → Prop
  | close (rest : Bytes) : AttributeValue quote (quote :: rest) [] rest
  | data {c : UInt8} {s value rest : Bytes} : c ≠ quote → c ≠ 60 → c ≠ 38 → 32 ≤ c →
      AttributeValue quote s value rest → AttributeValue quote (c :: s) (c :: value) rest
  | blank {c : UInt8} {s value rest : Bytes} : c = 9 ∨ c = 10 ∨ c = 13 →
      ¬(c = 13 ∧ s.head? = some 10) → AttributeValue quote s value rest →
      AttributeValue quote (c :: s) (32 :: value) rest
  | lineEnd {s value rest : Bytes} : AttributeValue quote s value rest →
      AttributeValue quote (13 :: 10 :: s) (32 :: value) rest
  | reference {s bytes s' value rest : Bytes} : reference s = some (bytes, s') →
      AttributeValue quote s' value rest → AttributeValue quote (38 :: s) (bytes ++ value) rest

/-- Nothing in the text has a meaning of its own in a value between double quotes. -/
def PlainValue (s : Bytes) : Prop := ∀ c ∈ s, c ≠ 34 ∧ c ≠ 60 ∧ c ≠ 38 ∧ 32 ≤ c

instance (s : Bytes) : Decidable (PlainValue s) :=
  List.decidableBAll _ s

@[simp] theorem plainValue_append {s s' : Bytes} :
    PlainValue (s ++ s') ↔ PlainValue s ∧ PlainValue s' :=
  List.forall_mem_append

theorem dropWhile_append_quote {p : UInt8 → Bool} (hquote : p 34 = false) (s more : Bytes) :
    (s ++ 34 :: more).takeWhile p = s.takeWhile p ∧
      (s ++ 34 :: more).dropWhile p = s.dropWhile p ++ 34 :: more := by
  have hnot : ¬p 34 = true := by simp [hquote]
  induction s with
  | nil => exact ⟨List.takeWhile_cons_of_neg hnot, List.dropWhile_cons_of_neg hnot⟩
  | cons c s ih =>
      by_cases hc : p c = true
      · rw [List.cons_append, List.takeWhile_cons_of_pos hc, List.dropWhile_cons_of_pos hc,
          List.takeWhile_cons_of_pos hc, List.dropWhile_cons_of_pos hc]
        exact ⟨congrArg _ ih.1, ih.2⟩
      · rw [List.cons_append, List.takeWhile_cons_of_neg hc, List.dropWhile_cons_of_neg hc,
          List.takeWhile_cons_of_neg hc, List.dropWhile_cons_of_neg hc]
        exact ⟨rfl, rfl⟩

/-- A reference by number does not reach over a quote, and is long enough for its bytes. -/
theorem length_numericReference {isDigitOf : UInt8 → Bool} {valueOf : Bytes → Nat}
    (hquote : isDigitOf 34 = false)
    (hone : ∀ c, isDigitOf c = true → valueOf [c] < 128) {s more bytes rest : Bytes}
    (h : numericReference isDigitOf valueOf (s ++ 34 :: more) = some (bytes, rest)) :
    ∃ s', rest = s' ++ 34 :: more ∧ bytes.length + s'.length ≤ s.length + 1 := by
  obtain ⟨htake, hdrop⟩ := dropWhile_append_quote hquote s more
  have hsplit := List.takeWhile_append_dropWhile (p := isDigitOf) (l := s)
  rw [numericReference, htake, hdrop] at h
  split_ifs at h with hreference
  obtain ⟨hne, hsemicolon, -⟩ := hreference
  obtain ⟨bytes', hbytes, heq⟩ := Option.map_eq_some_iff.mp h
  cases heq
  rcases hafter : s.dropWhile isDigitOf with _ | ⟨c, s'⟩
  · rw [hafter] at hsemicolon
    cases hsemicolon
  · refine ⟨s', rfl, ?_⟩
    have hlength := congrArg List.length hsplit
    rw [hafter, List.length_append, List.length_cons] at hlength
    rcases hdigits : s.takeWhile isDigitOf with _ | ⟨d, _ | ⟨d', digits⟩⟩
    · exact absurd hdigits hne
    · rw [hdigits] at hbytes hlength
      have hd : isDigitOf d = true := List.mem_takeWhile_imp (hdigits ▸ List.mem_cons_self)
      have hsingle := length_characterBytes_of_lt (hone d hd) hbytes
      rw [List.length_singleton] at hlength
      omega
    · rw [hdigits] at hlength
      have hbound := length_characterBytes hbytes
      simp only [List.length_cons] at hlength
      omega

theorem isPrefixOf_append_quote {name s more : Bytes} (hname : 34 ∉ name) :
    name.isPrefixOf (s ++ 34 :: more) = true ↔ ∃ s', s = name ++ s' := by
  rw [List.isPrefixOf_iff_prefix]
  constructor
  · rintro ⟨rest, heq⟩
    rcases List.append_eq_append_iff.mp heq with ⟨m, rfl, -⟩ | ⟨m, rfl, hm⟩
    · exact ⟨m, rfl⟩
    · cases m with
      | nil => exact ⟨[], by simp⟩
      | cons c m =>
          rw [List.cons_append, List.cons.injEq] at hm
          exact absurd (by simp [hm.1]) hname
  · rintro ⟨s', rfl⟩
    exact ⟨s' ++ 34 :: more, (List.append_assoc _ _ _).symm⟩

theorem reference_quote {s more bytes rest : Bytes}
    (h : reference (s ++ 34 :: more) = some (bytes, rest)) :
    ∃ s', rest = s' ++ 34 :: more ∧ bytes.length + s'.length ≤ s.length := by
  have hdecimal : ∀ c, isDigit c = true → digitsValue [c] < 128 := by
    intro c hc
    have htop : c.toNat ≤ 57 := by
      simp only [isDigit, Bool.and_eq_true, decide_eq_true_eq, UInt8.le_iff_toNat_le] at hc
      exact hc.2
    simp only [digitsValue, List.foldl_cons, List.foldl_nil]
    omega
  have hhex : ∀ c, isHexDigit c = true → hexValue [c] < 128 := by
    intro c hc
    have htop : c.toNat ≤ 102 := by
      simp only [isHexDigit, isDigit, Bool.or_eq_true, Bool.and_eq_true, decide_eq_true_eq,
        UInt8.le_iff_toNat_le, UInt8.reduceToNat] at hc
      omega
    simp only [hexValue, hexDigitValue, List.foldl_cons, List.foldl_nil]
    split_ifs <;> omega
  rw [reference] at h
  split_ifs at h with hx hnumber
  · obtain ⟨s, rfl⟩ := (isPrefixOf_append_quote (by decide)).mp hx
    obtain ⟨s', hrest, hlength⟩ :=
      @length_numericReference isHexDigit hexValue (by decide) hhex s more bytes rest h
    refine ⟨s', hrest, ?_⟩
    rw [List.length_append]
    simp only [List.length_cons, List.length_nil]
    omega
  · obtain ⟨s, rfl⟩ := (isPrefixOf_append_quote (by decide)).mp hnumber
    obtain ⟨s', hrest, hlength⟩ :=
      @length_numericReference isDigit digitsValue (by decide) hdecimal s more bytes rest h
    refine ⟨s', hrest, ?_⟩
    rw [List.length_append, List.length_singleton]
    omega
  · obtain ⟨entry, hentry, hfound⟩ := List.exists_of_findSome?_eq_some h
    have hname : ∀ entry ∈ namedReferences, 34 ∉ entry.1 ∧ 0 < entry.1.length := by
      decide
    split_ifs at hfound with hstart
    obtain ⟨s', rfl⟩ := (isPrefixOf_append_quote (hname entry hentry).1).mp hstart
    cases hfound
    refine ⟨s', by simp, ?_⟩
    have hpos := (hname entry hentry).2
    rw [List.length_append, List.length_singleton]
    omega

theorem attributeValue_quoted {s more t value rest : Bytes} (h : AttributeValue 34 t value rest)
    (ht : t = s ++ 34 :: more) :
    value.length ≤ s.length ∧ (value = s → PlainValue s ∧ rest = more) := by
  induction h generalizing s with
  | close rest =>
      cases s with
      | nil =>
          cases ht
          exact ⟨Nat.le_refl 0, fun _ => ⟨fun _ hc => absurd hc List.not_mem_nil, rfl⟩⟩
      | cons c s => exact ⟨Nat.zero_le _, fun heq => absurd heq.symm (List.cons_ne_nil c s)⟩
  | data hquote hless hampersand hcontrol _ ih =>
      cases s with
      | nil =>
          cases ht
          exact absurd rfl hquote
      | cons c s =>
          rw [List.cons_append, List.cons.injEq] at ht
          obtain ⟨rfl, ht⟩ := ht
          obtain ⟨hlength, hplain⟩ := ih ht
          refine ⟨Nat.succ_le_succ hlength, fun heq => ?_⟩
          obtain ⟨hplain, hrest⟩ := hplain (List.cons.inj heq).2
          exact ⟨List.forall_mem_cons.mpr ⟨⟨hquote, hless, hampersand, hcontrol⟩, hplain⟩, hrest⟩
  | blank hblank _ _ ih =>
      cases s with
      | nil =>
          cases ht
          exact absurd hblank (by decide)
      | cons c s =>
          rw [List.cons_append, List.cons.injEq] at ht
          obtain ⟨rfl, ht⟩ := ht
          refine ⟨Nat.succ_le_succ (ih ht).1, fun heq => ?_⟩
          rw [← (List.cons.inj heq).1] at hblank
          exact absurd hblank (by decide)
  | lineEnd _ ih =>
      rcases s with _ | ⟨c, _ | ⟨d, s⟩⟩
      · cases ht
      · cases ht
      · simp only [List.cons_append, List.cons.injEq] at ht
        obtain ⟨rfl, rfl, ht⟩ := ht
        have hlength := (ih ht).1
        refine ⟨?_, fun heq => absurd (List.cons.inj heq).1 (by decide)⟩
        simp only [List.length_cons]
        omega
  | reference hreference _ ih =>
      cases s with
      | nil => cases ht
      | cons c s =>
          rw [List.cons_append, List.cons.injEq] at ht
          obtain ⟨rfl, rfl⟩ := ht
          -- a reference is longer than what it stands for
          obtain ⟨s', hrest, hbytes⟩ := reference_quote hreference
          have hlength := (ih hrest).1
          have hlt : ∀ value : Bytes, value.length ≤ s.length → value ≠ 38 :: s := by
            rintro value hle rfl
            rw [List.length_cons] at hle
            omega
          rw [List.length_append, List.length_cons]
          refine ⟨by omega, fun heq => absurd heq (hlt _ ?_)⟩
          rw [List.length_append]
          omega

/-- A text between double quotes is the value that is read exactly if it is plain. -/
theorem attributeValue_quoted_iff {s more rest : Bytes} :
    AttributeValue 34 (s ++ 34 :: more) s rest ↔ PlainValue s ∧ rest = more := by
  constructor
  · intro h
    exact (attributeValue_quoted h rfl).2 rfl
  · rintro ⟨hplain, rfl⟩
    induction s with
    | nil => exact .close rest
    | cons c s ih =>
        obtain ⟨⟨hquote, hless, hampersand, hcontrol⟩, hs⟩ := List.forall_mem_cons.mp hplain
        exact .data hquote hless hampersand hcontrol (ih hs)

end AttributeValues

end Supernova
