/-
The JSON parser stops on every text: each member takes at least one byte, and
each turn of a loop reads one, so the turns given to the loops are enough.
-/
import Supernova.ExceptResults
import Supernova.FxJson

namespace Supernova

attribute [local semireducible] ByteArray.toList.loop

namespace Fx

section Reading

variable (size : Nat)

@[simp]
theorem parses_fail {α : Type} {what : Bytes} {a : α} {s s' : Bytes} :
    (fail size what).Parses s a s' ↔ False :=
  TextParser.parses_failWith

@[simp]
theorem parses_failAt {α : Type} {place what : Bytes} {a : α} {s s' : Bytes} :
    (failAt size place what).Parses s a s' ↔ False :=
  TextParser.parses_failWith

@[simp]
theorem parses_advance {x : PUnit} {s s' : Bytes} : advance.Parses s x s' ↔ s' = s.tail :=
  TextParser.parses_moveTo

@[simp]
theorem parses_skipWhitespace {x : PUnit} {s s' : Bytes} :
    skipWhitespace.Parses s x s' ↔ s' = s.dropWhile isWhitespace :=
  TextParser.parses_moveTo

@[simp]
theorem parses_skipDigits {x : PUnit} {s s' : Bytes} :
    skipDigits.Parses s x s' ↔ s' = s.dropWhile isDigit :=
  TextParser.parses_moveTo

@[simp]
theorem parses_peek {c : UInt8} {s s' : Bytes} :
    peek.Parses s c s' ↔ c = s.headD 0 ∧ s' = s := by
  simp only [peek, TextParser.parses_bind, TextParser.parses_rest, TextParser.parses_pure]
  constructor
  · rintro ⟨t, s₁, ⟨rfl, rfl⟩, rfl, rfl⟩
    exact ⟨rfl, rfl⟩
  · rintro ⟨rfl, rfl⟩
    exact ⟨s', s', ⟨rfl, rfl⟩, rfl, rfl⟩

/-- A parser that first looks at what is left. -/
@[simp]
theorem parses_rest_bind {α : Type} {f : Bytes → TextParser Bytes UInt8 α} {s s' : Bytes}
    {a : α} : (TextParser.rest >>= f).Parses s a s' ↔ (f s).Parses s a s' := by
  rw [TextParser.parses_bind]
  constructor
  · rintro ⟨t, s₁, hrest, h⟩
    obtain ⟨rfl, rfl⟩ := TextParser.parses_rest.1 hrest
    exact h
  · exact fun h => ⟨s, s, TextParser.parses_rest.2 ⟨rfl, rfl⟩, h⟩

/-- A parser that first looks at the next byte. -/
@[simp]
theorem parses_peek_bind {α : Type} {f : UInt8 → TextParser Bytes UInt8 α} {s s' : Bytes}
    {a : α} : (peek >>= f).Parses s a s' ↔ (f (s.headD 0)).Parses s a s' := by
  rw [TextParser.parses_bind]
  constructor
  · rintro ⟨c, s₁, hpeek, h⟩
    obtain ⟨rfl, rfl⟩ := parses_peek.1 hpeek
    exact h
  · exact fun h => ⟨s.headD 0, s, parses_peek.2 ⟨rfl, rfl⟩, h⟩

/-- A parser that first moves on by one byte. -/
@[simp]
theorem parses_advance_bind {α : Type} {f : PUnit → TextParser Bytes UInt8 α} {s s' : Bytes}
    {a : α} : (advance >>= f).Parses s a s' ↔ (f ⟨⟩).Parses s.tail a s' := by
  simp only [TextParser.parses_bind, parses_advance]
  constructor
  · rintro ⟨x, s₁, rfl, h⟩
    exact h
  · exact fun h => ⟨⟨⟩, s.tail, rfl, h⟩

@[simp]
theorem parses_expect {wanted : UInt8} {what : Bytes} {x : PUnit} {s s' : Bytes} :
    (expect size wanted what).Parses s x s' ↔ s = wanted :: s' := by
  simp only [expect, parses_rest_bind]
  rcases s with _ | ⟨c, s⟩
  · simp
  · by_cases hc : c = wanted
    · simp [hc, eq_comm]
    · simp [hc]

@[simp]
theorem parses_parseLiteral {literal : String} {x : PUnit} {s s' : Bytes} :
    (parseLiteral size literal).Parses s x s' ↔ s = text literal ++ s' := by
  simp only [parseLiteral, parses_rest_bind]
  split
  · rename_i hliteral
    obtain ⟨t, rfl⟩ := List.isPrefixOf_iff_prefix.mp hliteral
    simp [eq_comm]
  · rename_i hliteral
    simp only [parses_fail, false_iff]
    rintro rfl
    simp at hliteral

@[simp]
theorem parses_parseKeyword {value : Bool} {s s' : Bytes} :
    (parseKeyword size).Parses s value s' ↔
      s = text (if value then "true" else "false") ++ s' := by
  have htrue : text "true" = [116, 114, 117, 101] := by decide
  have hfalse : text "false" = [102, 97, 108, 115, 101] := by decide
  simp only [parseKeyword, parses_peek_bind]
  split
  · rename_i hhead
    simp only [TextParser.parses_bind, parses_parseLiteral, TextParser.parses_pure]
    constructor
    · rintro ⟨x, s₁, hs, rfl, rfl⟩
      exact hs
    · intro hs
      rcases value with _ | _
      · rw [hs] at hhead
        simp [hfalse] at hhead
      · exact ⟨⟨⟩, s', hs, rfl, rfl⟩
  · rename_i hhead
    simp only [TextParser.parses_bind, parses_parseLiteral, TextParser.parses_pure]
    constructor
    · rintro ⟨x, s₁, hs, rfl, rfl⟩
      exact hs
    · intro hs
      rcases value with _ | _
      · exact ⟨⟨⟩, s', hs, rfl, rfl⟩
      · rw [hs] at hhead
        simp [htrue] at hhead

end Reading

section Shortening

open TextParser

variable (size : Nat)

theorem shortens_fail {α : Type} (n : Nat) (what : Bytes) :
    (fail size what : TextParser Bytes UInt8 α).Shortens n :=
  shortens_failWith n _

theorem shortens_advance : advance.Shortens 0 :=
  shortens_moveTo fun s => by simp

theorem shortens_skipWhitespace : skipWhitespace.Shortens 0 :=
  shortens_moveTo fun s => s.length_dropWhile_le isWhitespace

theorem shortens_skipDigits : skipDigits.Shortens 0 :=
  shortens_moveTo fun s => s.length_dropWhile_le isDigit

theorem shortens_peek : peek.Shortens 0 :=
  Shortens.bind_zero shortens_rest fun _ => shortens_pure _

theorem shortens_expect (wanted : UInt8) (what : Bytes) :
    (expect size wanted what).Shortens 1 := by
  intro s x s' h
  rw [(parses_expect size).mp h]
  exact Nat.le_refl _

theorem shortens_parseLiteral (literal : String) : (parseLiteral size literal).Shortens 0 := by
  intro s x s' h
  rw [(parses_parseLiteral size).mp h]
  simp

theorem shortens_parseKeyword : (parseKeyword size).Shortens 0 := by
  intro s value s' h
  rw [(parses_parseKeyword size).mp h]
  simp

theorem shortens_parseHexDigits (digits value : Nat) :
    (parseHexDigits size digits value).Shortens 0 := by
  induction digits generalizing value with
  | zero => exact shortens_pure _
  | succ digits ih =>
      refine Shortens.bind_zero shortens_rest fun s => ?_
      rcases s.head? with _ | c
      · exact shortens_fail size 0 _
      simp only
      rcases hexDigit c with _ | digit
      · exact shortens_fail size 0 _
      · exact Shortens.bind_zero shortens_advance fun _ => ih _

theorem shortens_parseEscape : (parseEscape size).Shortens 0 := by
  refine Shortens.bind_zero shortens_rest fun s => ?_
  rcases s.head? with _ | c
  · exact shortens_fail size 0 _
  refine Shortens.bind_zero shortens_advance fun _ => ?_
  rcases simpleEscape c with _ | decoded
  · refine Shortens.ite ?_ (shortens_failWith 0 _)
    refine (shortens_parseHexDigits size 4 0).bind_zero fun codePoint => ?_
    exact Shortens.ite (shortens_fail size 0 _) (shortens_pure _)
  · exact shortens_pure _

theorem shortens_parseCharacters (turns : Nat) (out : Bytes) :
    (parseCharacters size turns out).Shortens 0 := by
  induction turns generalizing out with
  | zero => exact shortens_outOfTurns 0
  | succ turns ih =>
      refine Shortens.bind_zero shortens_rest fun s => ?_
      rcases s.head? with _ | c
      · exact shortens_fail size 0 _
      refine Shortens.ite ?_ (Shortens.ite (shortens_fail size 0 _) (Shortens.ite ?_ ?_))
      · exact Shortens.bind_zero shortens_advance fun _ => shortens_pure _
      · exact Shortens.bind_zero shortens_advance fun _ => ih _
      · refine Shortens.bind_zero shortens_advance fun _ => ?_
        exact (shortens_parseEscape size).bind_zero fun _ => ih _

theorem shortens_parseString : (parseString size).Shortens 1 :=
  (shortens_expect size _ _).bind fun _ =>
    Shortens.bind_zero shortens_rest fun _ => shortens_parseCharacters size _ _

theorem shortens_parseNumber : (parseNumber size).Shortens 0 := by
  refine Shortens.bind_zero shortens_rest fun start => ?_
  refine Shortens.bind_zero ?_ fun _ => Shortens.bind_zero ?_ fun _ =>
    Shortens.bind_zero ?_ fun _ => Shortens.bind_zero ?_ fun _ =>
      Shortens.bind_zero shortens_rest fun s => ?_
  · exact Shortens.bind_zero shortens_peek fun c => Shortens.ite shortens_advance (shortens_pure _)
  · exact Shortens.bind_zero shortens_peek fun c =>
      Shortens.ite shortens_advance (Shortens.ite shortens_skipDigits (shortens_failWith 0 _))
  · refine Shortens.bind_zero shortens_peek fun c => Shortens.ite ?_ (shortens_pure _)
    exact Shortens.bind_zero shortens_advance fun _ => Shortens.bind_zero shortens_peek fun _ =>
      Shortens.ite shortens_skipDigits (shortens_fail size 0 _)
  · refine Shortens.bind_zero shortens_peek fun c => Shortens.ite ?_ (shortens_pure _)
    refine Shortens.bind_zero shortens_advance fun _ => Shortens.bind_zero ?_ fun _ =>
      Shortens.bind_zero shortens_peek fun _ =>
        Shortens.ite shortens_skipDigits (shortens_fail size 0 _)
    exact Shortens.bind_zero shortens_peek fun c => Shortens.ite shortens_advance (shortens_pure _)
  · rcases extractDouble (start.take (start.length - s.length)) with _ | value
    · exact shortens_failWith 0 _
    · exact shortens_pure _

theorem shortens_parseValue {parseObject : TextParser Bytes UInt8 JsonValue}
    (hobject : parseObject.Shortens 0) : (parseValue size parseObject).Shortens 0 := by
  refine Shortens.bind_zero shortens_peek fun c => ?_
  refine Shortens.ite hobject (Shortens.ite ?_ (Shortens.ite (shortens_fail size 0 _)
    (Shortens.ite ?_ (Shortens.ite ?_ (Shortens.ite ?_ (shortens_fail size 0 _))))))
  · exact ((shortens_parseString size).mono (Nat.zero_le 1)).bind_zero fun _ => shortens_pure _
  · exact (shortens_parseKeyword size).bind_zero fun _ => shortens_pure _
  · exact (shortens_parseLiteral size _).bind_zero fun _ => shortens_pure _
  · exact (shortens_parseNumber size).bind_zero fun _ => shortens_pure _

/-- Each turn of the loop over the members reads at least one byte. -/
theorem shortens_parseMember {parseObject : TextParser Bytes UInt8 JsonValue}
    (hobject : parseObject.Shortens 0) (members : List (Bytes × JsonValue)) :
    (parseMember size parseObject members).Shortens 1 := by
  change (parseMember size parseObject members).Shortens (0 + (0 + (1 + 0)))
  refine Shortens.bind shortens_skipWhitespace fun _ => Shortens.bind shortens_peek fun c => ?_
  refine Shortens.ite ?_ (shortens_fail size _ _)
  refine Shortens.bind (shortens_parseString size) fun name => ?_
  refine Shortens.ite (shortens_fail size 0 _) ?_
  refine Shortens.bind_zero shortens_skipWhitespace fun _ => ?_
  refine ((shortens_expect size _ _).mono (Nat.zero_le 1)).bind_zero fun _ => ?_
  refine Shortens.bind_zero shortens_skipWhitespace fun _ => ?_
  exact (shortens_parseValue size hobject).bind_zero fun _ => shortens_pure _

theorem shortens_parseMembers {parseObject : TextParser Bytes UInt8 JsonValue}
    (hobject : parseObject.Shortens 0) (turns : Nat) (members : List (Bytes × JsonValue)) :
    (parseMembers size parseObject turns members).Shortens 0 := by
  induction turns generalizing members with
  | zero => exact shortens_outOfTurns 0
  | succ turns ih =>
      refine ((shortens_parseMember size hobject members).mono (Nat.zero_le 1)).bind_zero
        fun members => ?_
      refine Shortens.bind_zero shortens_skipWhitespace fun _ =>
        Shortens.bind_zero shortens_peek fun c => ?_
      refine Shortens.ite ?_ (Shortens.ite ?_ (shortens_fail size 0 _))
      · exact Shortens.bind_zero shortens_advance fun _ => ih members
      · exact Shortens.bind_zero shortens_advance fun _ => shortens_pure _

theorem shortens_parseObject (levels : Nat) : (parseObject size levels).Shortens 0 := by
  induction levels with
  | zero => exact shortens_fail size 0 _
  | succ levels ih =>
      refine ((shortens_expect size _ _).mono (Nat.zero_le 1)).bind_zero fun _ => ?_
      refine Shortens.bind_zero shortens_skipWhitespace fun _ =>
        Shortens.bind_zero shortens_peek fun c => ?_
      refine Shortens.ite ?_ ?_
      · exact Shortens.bind_zero shortens_advance fun _ => shortens_pure _
      · exact Shortens.bind_zero shortens_rest fun s => shortens_parseMembers size ih _ _

end Shortening

section Termination

open TextParser

variable (size : Nat) (s : Bytes)

theorem terminates_peek : peek.Terminates s :=
  terminates_bind (terminates_rest s) fun _ _ _ => terminates_pure _ _

theorem terminates_ite {α : Type} {p q : TextParser Bytes UInt8 α} {s : Bytes} {c : Prop}
    [Decidable c] (hp : p.Terminates s) (hq : q.Terminates s) :
    (if c then p else q).Terminates s := by
  by_cases hc : c
  · rwa [if_pos hc]
  · rwa [if_neg hc]

theorem terminates_expect (wanted : UInt8) (what : Bytes) :
    (expect size wanted what).Terminates s :=
  terminates_bind (terminates_rest s) fun _ _ _ =>
    terminates_ite (terminates_moveTo _ _) (terminates_failWith _ _)

theorem terminates_parseLiteral (literal : String) :
    (parseLiteral size literal).Terminates s :=
  terminates_bind (terminates_rest s) fun _ _ _ =>
    terminates_ite (terminates_moveTo _ _) (terminates_failWith _ _)

theorem terminates_parseKeyword : (parseKeyword size).Terminates s := by
  refine terminates_bind (terminates_peek s) fun _ s' _ => terminates_ite ?_ ?_
  · exact terminates_bind (terminates_parseLiteral size s' _) fun _ _ _ => terminates_pure _ _
  · exact terminates_bind (terminates_parseLiteral size s' _) fun _ _ _ => terminates_pure _ _

theorem terminates_parseHexDigits (digits value : Nat) :
    (parseHexDigits size digits value).Terminates s := by
  induction digits generalizing value s with
  | zero => exact terminates_pure _ _
  | succ digits ih =>
      refine terminates_bind (terminates_rest s) fun t s' _ => ?_
      rcases t.head? with _ | c
      · exact terminates_failWith _ _
      simp only
      rcases hexDigit c with _ | digit
      · exact terminates_failWith _ _
      · exact terminates_bind (terminates_moveTo _ _) fun _ _ _ => ih _ _

theorem terminates_parseEscape : (parseEscape size).Terminates s := by
  refine terminates_bind (terminates_rest s) fun t s' _ => ?_
  rcases t.head? with _ | c
  · exact terminates_failWith _ _
  refine terminates_bind (terminates_moveTo _ _) fun _ s₁ _ => ?_
  rcases simpleEscape c with _ | decoded
  · refine terminates_ite ?_ (terminates_failWith _ _)
    refine terminates_bind (terminates_parseHexDigits size s₁ 4 0) fun codePoint s₂ _ => ?_
    exact terminates_ite (terminates_failWith _ _) (terminates_pure _ _)
  · exact terminates_pure _ _

/-- Each turn of the loop over the characters reads at least one byte. -/
theorem terminates_parseCharacters (turns : Nat) (out : Bytes) (hturns : s.length < turns) :
    (parseCharacters size turns out).Terminates s := by
  induction turns generalizing out s with
  | zero => omega
  | succ turns ih =>
      refine terminates_bind (terminates_rest s) fun t s' hrest => ?_
      obtain ⟨ht, hs'⟩ := parses_rest.1 hrest
      subst ht hs'
      rcases s' with _ | ⟨c, s'⟩
      · exact terminates_failWith _ _
      have hlt : s'.length < turns := by simpa using hturns
      refine terminates_ite ?_ (terminates_ite (terminates_failWith _ _) (terminates_ite ?_ ?_))
      · exact terminates_bind (terminates_moveTo _ _) fun _ _ _ => terminates_pure _ _
      · refine terminates_bind (terminates_moveTo _ _) fun _ s' hadvance => ih _ _ ?_
        rwa [parses_advance.1 hadvance]
      · refine terminates_bind (terminates_moveTo _ _) fun _ s₁ hadvance => ?_
        refine terminates_bind (terminates_parseEscape size s₁) fun _ s₂ hescape => ih _ _ ?_
        have hshort := shortens_parseEscape size _ _ _ hescape
        rw [parses_advance.1 hadvance] at hshort
        exact Nat.lt_of_le_of_lt hshort hlt

theorem terminates_parseString : (parseString size).Terminates s := by
  refine terminates_bind (terminates_expect size s _ _) fun _ s' _ => ?_
  refine terminates_bind (terminates_rest s') fun t s₁ hrest => ?_
  obtain ⟨rfl, rfl⟩ := parses_rest.1 hrest
  exact terminates_parseCharacters size _ _ _ (Nat.lt_succ_self _)

theorem terminates_parseNumber : (parseNumber size).Terminates s := by
  have hsign : ∀ s, skipSign.Terminates s := fun s =>
    terminates_bind (terminates_peek s) fun _ _ _ =>
      terminates_ite (terminates_moveTo _ _) (terminates_pure _ _)
  have hwhole : ∀ start s, (skipWhole size start).Terminates s := fun start s =>
    terminates_bind (terminates_peek s) fun _ _ _ => terminates_ite (terminates_moveTo _ _)
      (terminates_ite (terminates_moveTo _ _) (terminates_failWith _ _))
  have hdigits : ∀ what s, (do
      if isDigit (← peek) then skipDigits else fail size what :
        TextParser Bytes UInt8 PUnit).Terminates s := fun what s =>
    terminates_bind (terminates_peek s) fun _ _ _ =>
      terminates_ite (terminates_moveTo _ _) (terminates_failWith _ _)
  have hfraction : ∀ s, (skipFraction size).Terminates s := fun s =>
    terminates_bind (terminates_peek s) fun _ _ _ => terminates_ite
      (terminates_bind (terminates_moveTo _ _) fun _ _ _ => hdigits _ _) (terminates_pure _ _)
  have hexponentSign : ∀ s, skipExponentSign.Terminates s := fun s =>
    terminates_bind (terminates_peek s) fun _ _ _ =>
      terminates_ite (terminates_moveTo _ _) (terminates_pure _ _)
  have hexponent : ∀ s, (skipExponent size).Terminates s := fun s =>
    terminates_bind (terminates_peek s) fun _ _ _ => terminates_ite
      (terminates_bind (terminates_moveTo _ _) fun _ _ _ =>
        terminates_bind (hexponentSign _) fun _ _ _ => hdigits _ _) (terminates_pure _ _)
  refine terminates_bind (terminates_rest s) fun start s₁ _ => ?_
  refine terminates_bind (hsign s₁) fun _ s₂ _ => terminates_bind (hwhole start s₂) fun _ s₃ _ =>
    terminates_bind (hfraction s₃) fun _ s₄ _ => terminates_bind (hexponent s₄) fun _ s₅ _ =>
      terminates_bind (terminates_rest s₅) fun t s₆ _ => ?_
  rcases extractDouble (start.take (start.length - t.length)) with _ | value
  · exact terminates_failWith _ _
  · exact terminates_pure _ _

variable {object : TextParser Bytes UInt8 JsonValue}
  (hobject : ∀ s, object.Terminates s)

include hobject

theorem terminates_parseValue : (parseValue size object).Terminates s := by
  refine terminates_bind (terminates_peek s) fun c s' _ => terminates_ite (hobject s') ?_
  refine terminates_ite ?_ (terminates_ite (terminates_failWith _ _) (terminates_ite ?_
    (terminates_ite ?_ (terminates_ite ?_ (terminates_failWith _ _)))))
  · exact terminates_bind (terminates_parseString size s') fun _ _ _ => terminates_pure _ _
  · exact terminates_bind (terminates_parseKeyword size s') fun _ _ _ => terminates_pure _ _
  · exact terminates_bind (terminates_parseLiteral size s' _) fun _ _ _ => terminates_pure _ _
  · exact terminates_bind (terminates_parseNumber size s') fun _ _ _ => terminates_pure _ _

theorem terminates_parseMember (members : List (Bytes × JsonValue)) :
    (parseMember size object members).Terminates s := by
  refine terminates_bind (terminates_moveTo _ _) fun _ s₁ _ =>
    terminates_bind (terminates_peek s₁) fun c s₂ _ => ?_
  refine terminates_ite ?_ (terminates_failWith _ _)
  refine terminates_bind (terminates_parseString size s₂) fun name s₃ _ => ?_
  refine terminates_ite (terminates_failWith _ _) ?_
  refine terminates_bind (terminates_moveTo _ _) fun _ s₄ _ => ?_
  refine terminates_bind (terminates_expect size s₄ _ _) fun _ s₅ _ => ?_
  refine terminates_bind (terminates_moveTo _ _) fun _ s₆ _ => ?_
  exact terminates_bind (terminates_parseValue size s₆ hobject) fun _ _ _ => terminates_pure _ _

theorem terminates_parseMembers (hshort : object.Shortens 0) (turns : Nat)
    (members : List (Bytes × JsonValue)) (hturns : s.length < turns) :
    (parseMembers size object turns members).Terminates s := by
  induction turns generalizing members s with
  | zero => omega
  | succ turns ih =>
      refine terminates_bind (terminates_parseMember size s hobject members)
        fun members s₁ hmember => ?_
      have hlength := shortens_parseMember size hshort _ _ _ _ hmember
      refine terminates_bind (terminates_moveTo _ _) fun _ s₂ hskip => ?_
      have hskipped := shortens_skipWhitespace _ _ _ hskip
      refine terminates_bind (terminates_peek s₂) fun c s₃ hpeek => ?_
      obtain ⟨-, rfl⟩ := parses_peek.1 hpeek
      refine terminates_ite ?_ (terminates_ite ?_ (terminates_failWith _ _))
      · refine terminates_bind (terminates_moveTo _ _) fun _ s₄ hadvance => ih _ _ ?_
        have hadvanced := shortens_advance _ _ _ hadvance
        omega
      · exact terminates_bind (terminates_moveTo _ _) fun _ _ _ => terminates_pure _ _

omit hobject

theorem terminates_parseObject (levels : Nat) : (parseObject size levels).Terminates s := by
  induction levels generalizing s with
  | zero => exact terminates_failWith _ _
  | succ levels ih =>
      refine terminates_bind (terminates_expect size s _ _) fun _ s₁ _ => ?_
      refine terminates_bind (terminates_moveTo _ _) fun _ s₂ _ => ?_
      refine terminates_bind (terminates_peek s₂) fun c s₃ _ => terminates_ite ?_ ?_
      · exact terminates_bind (terminates_moveTo _ _) fun _ _ _ => terminates_pure _ _
      · refine terminates_bind (terminates_rest s₃) fun t s₄ hrest => ?_
        obtain ⟨rfl, rfl⟩ := parses_rest.1 hrest
        exact terminates_parseMembers size _ ih (shortens_parseObject size levels) _ _
          (Nat.lt_succ_self _)

theorem terminates_parseDocument : (parseDocument size).Terminates s := by
  refine terminates_bind (terminates_moveTo _ _) fun _ s₁ _ => ?_
  refine terminates_bind (terminates_rest s₁) fun t s₂ _ => ?_
  refine terminates_ite ?_ (terminates_failWith _ _)
  refine terminates_bind (terminates_parseObject size s₂ kMaxDepth) fun _ s₃ _ => ?_
  refine terminates_bind (terminates_moveTo _ _) fun _ s₄ _ => ?_
  refine terminates_bind (terminates_rest s₄) fun _ s₅ _ => ?_
  exact terminates_ite (terminates_pure _ _) (terminates_failWith _ _)

end Termination

/-- The parser's outcome on a text, which it has on every text. -/
def runDocument (document : Bytes) : Except Bytes (JsonValue × Bytes) :=
  (parseDocument document.length document).get
    (Option.isSome_iff_ne_none.mpr (terminates_parseDocument document.length document))

def parseJsonObject (document : Bytes) : Except Bytes JsonValue :=
  if kMaxInputBytes < document.length then
    throw (text "JSON error: input exceeds the accepted maximum size")
  else (runDocument document).map fun result => result.1

theorem runDocument_eq_ok {document s : Bytes} {value : JsonValue} :
    runDocument document = .ok (value, s) ↔
      (parseDocument document.length).Parses document value s := by
  rw [TextParser.Parses, Option.eq_some_iff_get_eq, runDocument]
  exact ⟨fun h => ⟨_, h⟩, fun h => h.2⟩

theorem parseJsonObject_eq_ok {document : Bytes} {value : JsonValue} :
    parseJsonObject document = .ok value ↔ document.length ≤ kMaxInputBytes ∧
      ∃ s, (parseDocument document.length).Parses document value s := by
  rw [parseJsonObject]
  split
  · rename_i hlong
    rw [except_throw_eq_ok, false_iff]
    intro h
    exact absurd h.1 (by omega)
  · rename_i hshort
    rw [and_iff_right (by omega)]
    constructor
    · intro h
      obtain ⟨⟨value', s⟩, hrun, rfl⟩ := except_map_eq_ok.1 h
      exact ⟨s, runDocument_eq_ok.1 hrun⟩
    · rintro ⟨s, h⟩
      exact except_map_eq_ok.2 ⟨(value, s), runDocument_eq_ok.2 h, rfl⟩

end Fx

end Supernova
