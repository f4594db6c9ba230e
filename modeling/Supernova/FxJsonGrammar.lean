/-
The subset of JSON that the connection services take: what a text denotes, as a
grammar over bytes, and the parts of the parser that read strings.
-/
import Mathlib.Tactic.SplitIfs
import Supernova.FxJsonTermination

namespace Supernova

namespace Fx

open BinaryFormat

section Grammar

/-- JSON whitespace: blanks, tabs and line ends. -/
def Blank (w : Bytes) : Prop := ∀ c ∈ w, c = 32 ∨ c = 9 ∨ c = 10 ∨ c = 13

/-- A hexadecimal digit and its value. -/
def HexDigit (c : UInt8) (digit : Nat) : Prop :=
  (digit < 10 ∧ c.toNat = 48 + digit) ∨
    (10 ≤ digit ∧ digit < 16 ∧ (c.toNat = 87 + digit ∨ c.toNat = 55 + digit))

/-- The escapes of one character, each with what it stands for. -/
def namedEscapes : List (UInt8 × UInt8) :=
  [(34, 34), (92, 92), (47, 47), (98, 8), (102, 12), (110, 10), (114, 13), (116, 9)]

/-- What stands behind a backslash, and the bytes that it means.  A code point is
meant in UTF-8; surrogates are not code points of characters. -/
inductive EscapeText : Bytes → Bytes → Prop
  | named {c meant : UInt8} (h : (c, meant) ∈ namedEscapes) : EscapeText [c] [meant]
  | codePoint {a b c d : UInt8} {a' b' c' d' : Nat} (ha : HexDigit a a') (hb : HexDigit b b')
      (hc : HexDigit c c') (hd : HexDigit d d') {character : Char}
      (h : character.toNat = a' * 4096 + b' * 256 + c' * 16 + d') :
      EscapeText [117, a, b, c, d] (String.utf8EncodeChar character)

/-- What stands between the quotes of a string: raw bytes from the blank on,
other than a quote or a backslash, and escapes. -/
inductive CharactersText : Bytes → Bytes → Prop
  | nil : CharactersText [] []
  | raw {c : UInt8} {x s : Bytes} (hc : 32 ≤ c ∧ c ≠ 34 ∧ c ≠ 92) (h : CharactersText x s) :
      CharactersText (c :: x) (c :: s)
  | escape {e meant x s : Bytes} (he : EscapeText e meant) (h : CharactersText x s) :
      CharactersText (92 :: (e ++ x)) (meant ++ s)

def StringText (x s : Bytes) : Prop := ∃ y, x = 34 :: (y ++ [34]) ∧ CharactersText y s

def Digits (ds : Bytes) : Prop := ds ≠ [] ∧ ∀ c ∈ ds, isDigit c = true

/-- The exponent of a number: its mark, its sign if any, and its digits. -/
structure Exponent where
  mark : UInt8
  sign : Option UInt8
  digits : Bytes
  mark_eq : mark = 101 ∨ mark = 69
  sign_eq : sign = none ∨ sign = some 43 ∨ sign = some 45
  digits_digits : Digits digits

/-- A number of the JSON grammar. -/
structure Numeral where
  negative : Bool
  whole : Bytes
  fraction : Option Bytes
  exponent : Option Exponent
  whole_digits : whole = [48] ∨ (Digits whole ∧ whole.head? ≠ some 48)
  fraction_digits : ∀ ds ∈ fraction, Digits ds

def Exponent.text (e : Exponent) : Bytes := e.mark :: (e.sign.toList ++ e.digits)

def Exponent.power (e : Exponent) : Int :=
  if e.sign = some 45 then -(digitsValue e.digits : Int) else digitsValue e.digits

def signText (negative : Bool) : Bytes := if negative then [45] else []

def fractionText (fraction : Option Bytes) : Bytes := fraction.elim [] fun ds => 46 :: ds

def exponentText (exponent : Option Exponent) : Bytes := exponent.elim [] Exponent.text

/-- The number without its sign. -/
def Numeral.unsignedText (n : Numeral) : Bytes :=
  n.whole ++ (fractionText n.fraction ++ exponentText n.exponent)

def Numeral.text (n : Numeral) : Bytes := signText n.negative ++ n.unsignedText

/-- The magnitude of the exact decimal number. -/
def Numeral.magnitude (n : Numeral) : ℚ :=
  (digitsValue n.whole + n.fraction.elim 0 fun ds => (digitsValue ds : ℚ) / 10 ^ ds.length) *
    10 ^ n.exponent.elim 0 Exponent.power

/-- The finite `double` nearest to the number, with the sign of the number. -/
def Numeral.Denotes (n : Numeral) (value : Double) : Prop :=
  binary64.round n.magnitude < binary64.infinity ∧
    value = Double.ofMagnitude n.negative (binary64.round n.magnitude)

def NumberText (x : Bytes) (value : Double) : Prop :=
  ∃ n : Numeral, n.text = x ∧ n.Denotes value

variable (objectText : Bytes → JsonValue → Prop)

/-- A value; `objectText` tells which texts are objects that may stand here. -/
inductive ValueText : Bytes → JsonValue → Prop
  | null : ValueText (text "null") .null
  | boolean (value : Bool) : ValueText (text (if value then "true" else "false")) (.boolean value)
  | number {x : Bytes} {value : Double} (h : NumberText x value) : ValueText x (.number value)
  | string {x s : Bytes} (h : StringText x s) : ValueText x (.string s)
  | object {x : Bytes} {value : JsonValue} (h : objectText x value) : ValueText x value

/-- A member name, a colon and a value, with whitespace before each of them. -/
inductive MemberText : Bytes → Bytes × JsonValue → Prop
  | mk {w n w' w'' x name : Bytes} {value : JsonValue} (hw : Blank w) (hn : StringText n name)
      (hw' : Blank w') (hw'' : Blank w'') (hx : ValueText objectText x value) :
      MemberText (w ++ (n ++ (w' ++ 58 :: (w'' ++ x)))) (name, value)

/-- Members with commas between them. -/
inductive MembersText : Bytes → List (Bytes × JsonValue) → Prop
  | one {x w : Bytes} {m : Bytes × JsonValue} (hx : MemberText objectText x m) (hw : Blank w) :
      MembersText (x ++ w) [m]
  | more {x w y : Bytes} {m : Bytes × JsonValue} {ms : List (Bytes × JsonValue)}
      (hx : MemberText objectText x m) (hw : Blank w) (hy : MembersText y ms) :
      MembersText (x ++ (w ++ 44 :: y)) (m :: ms)

/-- The same members in the order of their names. -/
structure InOrder (ms entries : List (Bytes × JsonValue)) : Prop where
  sorted : entries.Pairwise fun e e' => MapKey.sortKey e.1 < MapKey.sortKey e'.1
  perm : entries.Perm ms

/-- An object nested in objects at most so many levels deep, its own level
included, with distinct member names. -/
def ObjectText : Nat → Bytes → JsonValue → Prop
  | 0, _, _ => False
  | levels + 1, x, value =>
      (∃ w, Blank w ∧ x = 123 :: (w ++ [125]) ∧ value = .object []) ∨
        ∃ y ms entries, MembersText (ObjectText levels) y ms ∧ (ms.map Prod.fst).Nodup ∧
          InOrder ms entries ∧ x = 123 :: (y ++ [125]) ∧ value = .object entries

/-- One object with whitespace around it. -/
def DocumentText (document : Bytes) (value : JsonValue) : Prop :=
  ∃ w x w', Blank w ∧ Blank w' ∧ ObjectText kMaxDepth x value ∧ document = w ++ (x ++ w')

end Grammar

section Strings

variable (size : Nat)

theorem hexDigit_eq_some {c : UInt8} {digit : Nat} :
    hexDigit c = some digit ↔ HexDigit c digit := by
  unfold hexDigit HexDigit
  simp only [UInt8.le_iff_toNat_le, UInt8.reduceToNat]
  split
  · simp only [Option.some.injEq]
    omega
  split
  · simp only [Option.some.injEq]
    omega
  split
  · simp only [Option.some.injEq]
    omega
  · simp only [reduceCtorEq, false_iff]
    omega

theorem simpleEscape_eq_some {c meant : UInt8} :
    simpleEscape c = some meant ↔ (c, meant) ∈ namedEscapes := by
  simp only [namedEscapes, List.mem_cons, Prod.mk.injEq, List.not_mem_nil, or_false]
  constructor
  · intro h
    unfold simpleEscape at h
    split_ifs at h <;> simp_all
  · rintro (⟨rfl, rfl⟩ | ⟨rfl, rfl⟩ | ⟨rfl, rfl⟩ | ⟨rfl, rfl⟩ | ⟨rfl, rfl⟩ | ⟨rfl, rfl⟩ |
      ⟨rfl, rfl⟩ | ⟨rfl, rfl⟩) <;> rfl

theorem parses_parseHexDigits_succ {digits value value' : Nat} {s s' : Bytes} :
    (parseHexDigits size (digits + 1) value).Parses s value' s' ↔
      ∃ c t digit, s = c :: t ∧ HexDigit c digit ∧
        (parseHexDigits size digits (value * 16 + digit)).Parses t value' s' := by
  rw [parseHexDigits]
  simp only [parses_rest_bind]
  rcases s with _ | ⟨c, t⟩
  · simp
  · rcases hdigit : hexDigit c with _ | digit
    · simp [hdigit, ← hexDigit_eq_some]
    · simp [hdigit, ← hexDigit_eq_some]

theorem parses_parseHexQuad {value : Nat} {s s' : Bytes} :
    (parseHexQuad size).Parses s value s' ↔ ∃ a b c d a' b' c' d',
      HexDigit a a' ∧ HexDigit b b' ∧ HexDigit c c' ∧ HexDigit d d' ∧
        s = a :: b :: c :: d :: s' ∧ value = a' * 4096 + b' * 256 + c' * 16 + d' := by
  simp only [parseHexQuad, parses_parseHexDigits_succ]
  constructor
  · rintro ⟨a, _, a', rfl, ha, b, _, b', rfl, hb, c, _, c', rfl, hc, d, t, d', rfl, hd, h⟩
    obtain ⟨rfl, rfl⟩ := TextParser.parses_pure.1 h
    exact ⟨a, b, c, d, a', b', c', d', ha, hb, hc, hd, rfl, by ring⟩
  · rintro ⟨a, b, c, d, a', b', c', d', ha, hb, hc, hd, rfl, rfl⟩
    refine ⟨a, _, a', rfl, ha, b, _, b', rfl, hb, c, _, c', rfl, hc, d, s', d', rfl, hd, ?_⟩
    exact TextParser.parses_pure.2 ⟨by ring, rfl⟩

/-- A code point that is not a surrogate is appended in UTF-8. -/
theorem utf8Bytes_eq {character : Char} (h : character.toNat < 0x10000) :
    utf8Bytes character.toNat = String.utf8EncodeChar character := by
  generalize hv : character.toNat = v at h
  have hval : character.val.toNat = v := hv
  have hlow : ∀ x, 0x80 ||| (x &&& 0x3F) = x % 64 + 128 := by
    intro x
    have hmod : x &&& 0x3F = x % 64 := Nat.and_two_pow_sub_one_eq_mod x 6
    have hor : ∀ y < 64, 0x80 ||| y = y + 128 := by decide
    rw [hmod, hor _ (Nat.mod_lt _ (by decide))]
  have hshift : ∀ x k, x >>> k = x / 2 ^ k := fun x k => Nat.shiftRight_eq_div_pow x k
  simp only [utf8Bytes, String.utf8EncodeChar, hval, hlow, hshift, Nat.reducePow]
  by_cases h1 : v < 0x80
  · rw [if_pos h1, if_pos (by omega)]
  by_cases h2 : v < 0x800
  · have hor : ∀ y < 32, 0xC0 ||| y = y + 192 := by decide
    have hmod : v / 64 % 32 = v / 64 := Nat.mod_eq_of_lt (by omega)
    rw [if_neg h1, if_pos h2, if_neg (by omega), if_pos (by omega), hor _ (by omega), hmod]
  · have hor : ∀ y < 16, 0xE0 ||| y = y + 224 := by decide
    have hmod : v / 4096 % 16 = v / 4096 := Nat.mod_eq_of_lt (by omega)
    rw [if_neg h1, if_neg h2, if_neg (by omega), if_neg (by omega), if_pos (by omega),
      hor _ (by omega), hmod]

theorem HexDigit.lt {c : UInt8} {digit : Nat} (h : HexDigit c digit) : digit < 16 := by
  rcases h with ⟨h, -⟩ | ⟨-, h, -⟩
  · omega
  · exact h

/-- The code points that the parser does not refuse are those of characters. -/
theorem exists_character {codePoint : Nat} (hlt : codePoint < 0x10000)
    (h : ¬ (0xD800 ≤ codePoint ∧ codePoint ≤ 0xDFFF)) :
    ∃ character : Char, character.toNat = codePoint := by
  have hvalid : codePoint.isValidChar := by
    unfold Nat.isValidChar
    omega
  exact ⟨Char.ofNatAux codePoint hvalid, rfl⟩

theorem character_not_surrogate (character : Char) :
    ¬ (0xD800 ≤ character.toNat ∧ character.toNat ≤ 0xDFFF) := by
  have hvalid : character.toNat.isValidChar := character.valid
  unfold Nat.isValidChar at hvalid
  omega

theorem parses_parseEscape {out s s' : Bytes} :
    (parseEscape size).Parses s out s' ↔ ∃ x, EscapeText x out ∧ s = x ++ s' := by
  simp only [parseEscape, parses_rest_bind]
  rcases s with _ | ⟨c, t⟩
  · simp only [List.head?_nil, parses_fail, false_iff]
    rintro ⟨x, hx, hs⟩
    rcases hx with _ | _ <;> simp at hs
  simp only [List.head?_cons, parses_advance_bind, List.tail_cons]
  rcases hescape : simpleEscape c with _ | meant
  · by_cases hc : c = 117
    · subst hc
      simp only [if_true, TextParser.parses_bind, parses_parseHexQuad]
      constructor
      · rintro ⟨value, s₁, ⟨a, b, c, d, a', b', c', d', ha, hb, hc, hd, rfl, rfl⟩, h⟩
        split at h
        · exact ((parses_fail size).mp h).elim
        · rename_i hvalid
          obtain ⟨rfl, rfl⟩ := TextParser.parses_pure.1 h
          have hlt : a' * 4096 + b' * 256 + c' * 16 + d' < 0x10000 := by
            have := ha.lt
            have := hb.lt
            have := hc.lt
            have := hd.lt
            omega
          obtain ⟨character, hcharacter⟩ := exists_character hlt hvalid
          rw [← hcharacter, utf8Bytes_eq (hcharacter ▸ hlt)]
          exact ⟨_, .codePoint ha hb hc hd hcharacter, rfl⟩
      · rintro ⟨x, hx, hs⟩
        rcases hx with hnamed | ⟨ha, hb, hc, hd, hcharacter⟩
        · rw [← simpleEscape_eq_some] at hnamed
          simp_all
        · rename_i a b c d a' b' c' d' character
          simp only [List.cons_append, List.nil_append, List.cons.injEq, true_and] at hs
          refine ⟨_, s', ⟨a, b, c, d, a', b', c', d', ha, hb, hc, hd, hs, rfl⟩, ?_⟩
          rw [← hcharacter, if_neg (character_not_surrogate character)]
          have hlt : character.toNat < 0x10000 := by
            have := ha.lt
            have := hb.lt
            have := hc.lt
            have := hd.lt
            omega
          exact TextParser.parses_pure.2 ⟨(utf8Bytes_eq hlt).symm, rfl⟩
    · simp only [if_neg hc, parses_failAt, false_iff]
      rintro ⟨x, hx, hs⟩
      rcases hx with hnamed | _
      · rw [← simpleEscape_eq_some] at hnamed
        simp_all
      · simp only [List.cons_append, List.cons.injEq] at hs
        exact hc hs.1
  · simp only [TextParser.parses_pure]
    constructor
    · rintro ⟨rfl, rfl⟩
      exact ⟨[c], .named (simpleEscape_eq_some.1 hescape), rfl⟩
    · rintro ⟨x, hx, hs⟩
      rcases hx with hnamed | _
      · simp only [List.cons_append, List.nil_append, List.cons.injEq] at hs
        rw [← simpleEscape_eq_some, ← hs.1, hescape, Option.some.injEq] at hnamed
        exact ⟨by rw [hnamed], hs.2.symm⟩
      · simp only [List.cons_append, List.cons.injEq] at hs
        rw [hs.1] at hescape
        simp [simpleEscape] at hescape

/-- The loop reads up to the closing quote. -/
theorem parses_parseCharacters {turns : Nat} {out out' s s' : Bytes} (hturns : s.length < turns) :
    (parseCharacters size turns out).Parses s out' s' ↔
      ∃ x decoded, CharactersText x decoded ∧ s = x ++ 34 :: s' ∧ out' = out ++ decoded := by
  induction turns generalizing out s with
  | zero => omega
  | succ turns ih =>
      rw [parseCharacters]
      simp only [parses_rest_bind]
      rcases s with _ | ⟨c, t⟩
      · simp
      have hlt : t.length < turns := by simpa using hturns
      simp only [List.head?_cons]
      by_cases hquote : c = 34
      · simp only [hquote, if_true, parses_advance_bind, List.tail_cons, TextParser.parses_pure]
        constructor
        · rintro ⟨rfl, rfl⟩
          exact ⟨[], [], .nil, rfl, (List.append_nil _).symm⟩
        · rintro ⟨x, decoded, hx, hs, rfl⟩
          rcases hx with _ | ⟨hc, _⟩ | ⟨he, _⟩
          · simp only [List.nil_append, List.cons.injEq, true_and] at hs
            exact ⟨List.append_nil _, hs.symm⟩
          · simp only [List.cons_append, List.cons.injEq] at hs
            exact absurd hs.1.symm hc.2.1
          · simp at hs
      rw [if_neg hquote]
      by_cases hcontrol : c < 0x20
      · simp only [if_pos hcontrol, parses_fail, false_iff]
        rintro ⟨x, decoded, hx, hs, rfl⟩
        rcases hx with _ | ⟨hc, _⟩ | ⟨he, _⟩
        · simp only [List.nil_append, List.cons.injEq] at hs
          exact hquote hs.1
        · simp only [List.cons_append, List.cons.injEq] at hs
          rw [hs.1] at hcontrol
          exact absurd hcontrol (by simpa using hc.1)
        · simp only [List.cons_append, List.cons.injEq] at hs
          rw [hs.1] at hcontrol
          exact absurd hcontrol (by decide)
      rw [if_neg hcontrol]
      by_cases hbackslash : c = 92
      · subst hbackslash
        simp only [ne_eq, not_true_eq_false, if_false, parses_advance_bind, List.tail_cons]
        simp only [TextParser.parses_bind, parses_parseEscape]
        constructor
        · rintro ⟨meant, s₁, ⟨e, he, rfl⟩, h⟩
          have hlt' : s₁.length < turns := by
            simp only [List.length_append] at hlt
            omega
          obtain ⟨x, decoded, hx, rfl, rfl⟩ := (ih hlt').mp h
          exact ⟨_, _, .escape he hx, by simp, by simp⟩
        · rintro ⟨x, decoded, hx, hs, rfl⟩
          rcases hx with _ | ⟨hc, _⟩ | ⟨he, hx⟩
          · simp at hs
          · simp only [List.cons_append, List.cons.injEq] at hs
            exact absurd hs.1.symm hc.2.2
          · rename_i e meant x decoded
            simp only [List.cons_append, List.append_assoc, List.cons.injEq, true_and] at hs
            refine ⟨meant, x ++ 34 :: s', ⟨e, he, hs⟩, (ih ?_).mpr ⟨x, decoded, hx, rfl, ?_⟩⟩
            · rw [hs, List.length_append] at hlt
              omega
            · simp
      · simp only [ne_eq, hbackslash, not_false_eq_true, if_true, parses_advance_bind,
          List.tail_cons]
        rw [ih hlt]
        constructor
        · rintro ⟨x, decoded, hx, rfl, rfl⟩
          have hc : 32 ≤ c ∧ c ≠ 34 ∧ c ≠ 92 := ⟨by simpa using hcontrol, hquote, hbackslash⟩
          exact ⟨_, _, .raw hc hx, rfl, by simp⟩
        · rintro ⟨x, decoded, hx, hs, rfl⟩
          rcases hx with _ | ⟨hc, hx⟩ | ⟨he, hx⟩
          · simp only [List.nil_append, List.cons.injEq] at hs
            exact absurd hs.1 hquote
          · simp only [List.cons_append, List.cons.injEq] at hs
            obtain ⟨rfl, rfl⟩ := hs
            exact ⟨_, _, hx, rfl, by simp⟩
          · simp only [List.cons_append, List.cons.injEq] at hs
            exact absurd hs.1 hbackslash

theorem parses_parseString {name s s' : Bytes} :
    (parseString size).Parses s name s' ↔ ∃ x, StringText x name ∧ s = x ++ s' := by
  simp only [parseString, TextParser.parses_bind, parses_expect]
  constructor
  · rintro ⟨_, s₁, rfl, t, s₂, hrest, h⟩
    obtain ⟨rfl, rfl⟩ := TextParser.parses_rest.1 hrest
    obtain ⟨y, decoded, hy, rfl, rfl⟩ := (parses_parseCharacters size (Nat.lt_succ_self _)).mp h
    exact ⟨_, ⟨y, rfl, hy⟩, by simp⟩
  · rintro ⟨_, ⟨y, rfl, hy⟩, rfl⟩
    refine ⟨⟨⟩, y ++ 34 :: s', by simp, _, _, TextParser.parses_rest.2 ⟨rfl, rfl⟩, ?_⟩
    exact (parses_parseCharacters size (Nat.lt_succ_self _)).mpr ⟨y, name, hy, rfl, rfl⟩

end Strings

end Fx

end Supernova
