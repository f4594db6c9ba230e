/-
The JSON codec of the FX connection services: values, the recursive-descent
parser with its limits and diagnostics, and the serializer.
-/
import Mathlib.Data.Int.Log
import Mathlib.Data.List.DropRight
import Supernova.BinaryFloat
import Supernova.DecimalText
import Supernova.OrderedMap
import Supernova.TextParser

namespace Supernova

namespace Fx

open BinaryFormat

/-- The members of an object are in the order of their names. -/
inductive JsonValue
  | null
  | boolean (value : Bool)
  | number (value : Double)
  | string (value : Bytes)
  | object (members : List (Bytes × JsonValue))
deriving Inhabited, Repr

def kMaxInputBytes : Nat := 64 * 1024

def kMaxDepth : Nat := 16

def positioned (position : Nat) (what : Bytes) : Bytes :=
  text "JSON error at byte " ++ decimal position ++ text ": " ++ what

section Numbers

/-- The number that an unsigned decimal text denotes. -/
def decimalMagnitude (number : Bytes) : ℚ :=
  let whole := number.takeWhile isDigit
  let behindWhole := number.dropWhile isDigit
  let fraction :=
    if behindWhole.head? = some 46 then behindWhole.tail.takeWhile isDigit else []
  let behindFraction :=
    if behindWhole.head? = some 46 then behindWhole.tail.dropWhile isDigit else behindWhole
  -- what is behind the `e`, with a sign or without
  let exponent := behindFraction.tail
  let power : Int :=
    if exponent.head? = some 45 then -(digitsValue exponent.tail : Int)
    else if exponent.head? = some 43 then digitsValue exponent.tail
    else digitsValue exponent
  (digitsValue (whole ++ fraction) : ℚ) * 10 ^ (power - fraction.length)

/-- `stream >> value`: the nearest `double`, or a failure when it is not finite. -/
def extractDouble (number : Bytes) : Option Double :=
  let negative : Bool := number.head? = some 45
  let magnitude :=
    binary64.round (decimalMagnitude (if negative then number.tail else number))
  if magnitude < binary64.infinity then some (Double.ofMagnitude negative magnitude) else none

/-- A positive number to so many significant digits, and its decimal exponent. -/
def significantDigits (precision : Nat) (x : ℚ) : Nat × Int :=
  let exponent := Int.log 10 x
  let digits := roundHalfEven (x / 10 ^ (exponent + 1 - precision))
  if digits = 10 ^ precision then (10 ^ (precision - 1), exponent + 1) else (digits, exponent)

def stripZeros (digits : Bytes) : Bytes := digits.rdropWhile fun c => c = 48

/-- The digits behind a decimal point, with the point if there are any. -/
def fractional (digits : Bytes) : Bytes :=
  if stripZeros digits = [] then [] else 46 :: stripZeros digits

/-- `stream << value` of a nonzero finite `double` in the default notation. -/
def insertDouble (precision : Nat) (value : Double) : Bytes :=
  let (significant, exponent) := significantDigits precision |value.rational|
  let digits := decimal significant
  let magnitude :=
    if exponent < -4 ∨ (precision : Int) ≤ exponent then
      digits.take 1 ++ fractional (digits.drop 1) ++ text (if exponent < 0 then "e-" else "e+") ++
        (if exponent.natAbs < 10 then text "0" else []) ++ decimal exponent.natAbs
    else if exponent < 0 then
      text "0" ++ fractional (List.replicate (exponent.natAbs - 1) 48 ++ digits)
    else digits.take (exponent.toNat + 1) ++ fractional (digits.drop (exponent.toNat + 1))
  if value.rational < 0 then 45 :: magnitude else magnitude

/-- `stream << value` of a `long long`. -/
def insertInteger (value : Int) : Bytes :=
  if value < 0 then 45 :: decimal value.natAbs else decimal value.natAbs

end Numbers

section Parser

-- the size of the text, from which positions are counted
variable (size : Nat)

def fail {α : Type} (what : Bytes) : TextParser Bytes UInt8 α :=
  TextParser.failWith fun s => positioned (size - s.length) what

/-- An error at a place that the parser has passed. -/
def failAt {α : Type} (place : Bytes) (what : Bytes) : TextParser Bytes UInt8 α :=
  TextParser.failWith fun _ => positioned (size - place.length) what

def isWhitespace (c : UInt8) : Bool := c = 32 || c = 9 || c = 10 || c = 13

def skipWhitespace : TextParser Bytes UInt8 PUnit :=
  TextParser.moveTo (List.dropWhile isWhitespace)

def advance : TextParser Bytes UInt8 PUnit := TextParser.moveTo List.tail

/-- The next byte; a zero byte at the end. -/
def peek : TextParser Bytes UInt8 UInt8 := do
  return (← TextParser.rest).headD 0

def expect (wanted : UInt8) (what : Bytes) : TextParser Bytes UInt8 PUnit := do
  let s ← TextParser.rest
  if s.head? = some wanted then advance else fail size what

def parseLiteral (literal : String) : TextParser Bytes UInt8 PUnit := do
  let s ← TextParser.rest
  if (text literal).isPrefixOf s then TextParser.moveTo (List.drop (text literal).length)
  else fail size (text "expected '" ++ text literal ++ text "'")

def parseKeyword : TextParser Bytes UInt8 Bool := do
  if (← peek) = 116 then
    parseLiteral size "true"
    return true
  else
    parseLiteral size "false"
    return false

def hexDigit (c : UInt8) : Option Nat :=
  if 48 ≤ c ∧ c ≤ 57 then some (c.toNat - 48)
  else if 97 ≤ c ∧ c ≤ 102 then some (c.toNat - 97 + 10)
  else if 65 ≤ c ∧ c ≤ 70 then some (c.toNat - 65 + 10)
  else none

/-- The digits of a `\u` escape that are left, after the value of those before. -/
def parseHexDigits : Nat → Nat → TextParser Bytes UInt8 Nat
  | 0, value => pure value
  | digits + 1, value => do
      match (← TextParser.rest).head? with
      | none => fail size (text "truncated \\u escape")
      | some c =>
          match hexDigit c with
          | none => fail size (text "invalid hex digit in \\u escape")
          | some digit => do
              advance
              parseHexDigits digits (value * 16 + digit)

def parseHexQuad : TextParser Bytes UInt8 Nat := parseHexDigits size 4 0

/-- What `appendUtf8` appends. -/
def utf8Bytes (codePoint : Nat) : Bytes :=
  if codePoint < 0x80 then [UInt8.ofNat codePoint]
  else if codePoint < 0x800 then
    [UInt8.ofNat (0xC0 ||| (codePoint >>> 6)), UInt8.ofNat (0x80 ||| (codePoint &&& 0x3F))]
  else
    [UInt8.ofNat (0xE0 ||| (codePoint >>> 12)),
      UInt8.ofNat (0x80 ||| ((codePoint >>> 6) &&& 0x3F)),
      UInt8.ofNat (0x80 ||| (codePoint &&& 0x3F))]

/-- The escapes of one character, with what they stand for. -/
def simpleEscape (c : UInt8) : Option UInt8 :=
  if c = 34 then some 34
  else if c = 92 then some 92
  else if c = 47 then some 47
  else if c = 98 then some 8
  else if c = 102 then some 12
  else if c = 110 then some 10
  else if c = 114 then some 13
  else if c = 116 then some 9
  else none

/-- What an escape sequence stands for, behind its backslash. -/
def parseEscape : TextParser Bytes UInt8 Bytes := do
  let s ← TextParser.rest
  match s.head? with
  | none => fail size (text "truncated escape sequence")
  | some escape => do
      advance
      match simpleEscape escape with
      | some c => return [c]
      | none =>
          if escape = 117 then do
            let codePoint ← parseHexQuad size
            if 0xD800 ≤ codePoint ∧ codePoint ≤ 0xDFFF then
              fail size (text "surrogate \\u escapes are not supported (use raw UTF-8)")
            else return utf8Bytes codePoint
          else failAt size (92 :: s) (text "invalid escape sequence")

/-- The loop of `parseString`. -/
def parseCharacters : Nat → Bytes → TextParser Bytes UInt8 Bytes
  | 0, _ => TextParser.outOfTurns
  | turns + 1, out => do
      match (← TextParser.rest).head? with
      | none => fail size (text "unterminated string")
      | some c =>
          if c = 34 then do
            advance
            return out
          else if c < 0x20 then fail size (text "unescaped control character in string")
          else if c ≠ 92 then do
            advance
            parseCharacters turns (out ++ [c])
          else do
            advance
            let decoded ← parseEscape size
            parseCharacters turns (out ++ decoded)

def parseString : TextParser Bytes UInt8 Bytes := do
  expect size 34 (text "expected '\"'")
  let s ← TextParser.rest
  parseCharacters size (s.length + 1) []

def skipDigits : TextParser Bytes UInt8 PUnit :=
  TextParser.moveTo (List.dropWhile isDigit)

def skipSign : TextParser Bytes UInt8 PUnit := do
  if (← peek) = 45 then advance else pure ⟨⟩

/-- `0` alone, or a nonzero digit followed by digits. -/
def skipWhole (start : Bytes) : TextParser Bytes UInt8 PUnit := do
  let c ← peek
  if c = 48 then advance
  else if isDigit c then skipDigits
  else failAt size start (text "malformed number")

def skipFraction : TextParser Bytes UInt8 PUnit := do
  if (← peek) = 46 then do
    advance
    if isDigit (← peek) then skipDigits
    else fail size (text "digits must follow the decimal point")
  else pure ⟨⟩

def skipExponentSign : TextParser Bytes UInt8 PUnit := do
  let sign ← peek
  if sign = 43 ∨ sign = 45 then advance else pure ⟨⟩

def skipExponent : TextParser Bytes UInt8 PUnit := do
  let c ← peek
  if c = 101 ∨ c = 69 then do
    advance
    skipExponentSign
    if isDigit (← peek) then skipDigits
    else fail size (text "digits must follow the exponent")
  else pure ⟨⟩

def parseNumber : TextParser Bytes UInt8 Double := do
  let start ← TextParser.rest
  skipSign
  skipWhole size start
  skipFraction size
  skipExponent size
  let s ← TextParser.rest
  match extractDouble (start.take (start.length - s.length)) with
  | none => failAt size start (text "number out of range")
  | some value => return value

def parseValue (parseObject : TextParser Bytes UInt8 JsonValue) :
    TextParser Bytes UInt8 JsonValue := do
  let c ← peek
  if c = 123 then parseObject
  else if c = 34 then return .string (← parseString size)
  else if c = 91 then fail size (text "arrays are not part of the FX argument projection")
  else if c = 116 ∨ c = 102 then return .boolean (← parseKeyword size)
  else if c = 110 then do
    parseLiteral size "null"
    return .null
  else if c = 45 ∨ isDigit c then return .number (← parseNumber size)
  else fail size (text "expected a value")

def hasMember (members : List (Bytes × JsonValue)) (name : Bytes) : Bool :=
  members.any fun m => m.1 = name

/-- One member, put to those before it. -/
def parseMember (parseObject : TextParser Bytes UInt8 JsonValue)
    (members : List (Bytes × JsonValue)) :
    TextParser Bytes UInt8 (List (Bytes × JsonValue)) := do
  skipWhitespace
  if (← peek) = 34 then do
    let name ← parseString size
    if hasMember members name then
      fail size (text "duplicate member name '" ++ name ++ text "'")
    else do
      skipWhitespace
      expect size 58 (text "expected ':' after the member name")
      skipWhitespace
      let value ← parseValue size parseObject
      return OrderedMap.insertEntry name value members
  else fail size (text "expected a member name in double quotes")

/-- The loop of `parseObject`. -/
def parseMembers (parseObject : TextParser Bytes UInt8 JsonValue) :
    Nat → List (Bytes × JsonValue) → TextParser Bytes UInt8 JsonValue
  | 0, _ => TextParser.outOfTurns
  | turns + 1, members => do
      let members ← parseMember size parseObject members
      skipWhitespace
      let next ← peek
      if next = 44 then do
        advance
        parseMembers parseObject turns members
      else if next = 125 then do
        advance
        return .object members
      else fail size (text "expected ',' or '\x7d' after a member")

/-- An object when so many further levels are accepted. -/
def parseObject : Nat → TextParser Bytes UInt8 JsonValue
  | 0 => fail size (text "nesting deeper than the accepted maximum")
  | levels + 1 => do
      expect size 123 (text "expected '\x7b'")
      skipWhitespace
      if (← peek) = 125 then do
        advance
        return .object []
      else do
        let s ← TextParser.rest
        parseMembers size (parseObject levels) (s.length + 1) []

def parseDocument : TextParser Bytes UInt8 JsonValue := do
  skipWhitespace
  let s ← TextParser.rest
  if s.head? = some 123 then do
    let value ← parseObject size kMaxDepth
    skipWhitespace
    let s ← TextParser.rest
    if s = [] then return value
    else fail size (text "trailing content after the JSON object")
  else fail size (text "expected a JSON object")

end Parser

section Serializer

/-- A hexadecimal digit as `%x` prints it. -/
def hexByte (d : Nat) : UInt8 := UInt8.ofNat (if d < 10 then 48 + d else 87 + d)

def escapeCharacter (c : UInt8) : Bytes :=
  if c = 34 then text "\\\""
  else if c = 92 then text "\\\\"
  else if c = 8 then text "\\b"
  else if c = 12 then text "\\f"
  else if c = 10 then text "\\n"
  else if c = 13 then text "\\r"
  else if c = 9 then text "\\t"
  else if c < 0x20 then text "\\u00" ++ [hexByte (c.toNat / 16), hexByte (c.toNat % 16)]
  else [c]

/-- What `appendEscaped` appends. -/
def escaped (s : Bytes) : Bytes := 34 :: (s.flatMap escapeCharacter ++ [34])

def formatNumber (value : Double) : Except Bytes Bytes :=
  if !value.finite then throw (text "JSON cannot represent a non-finite number")
  else if value.rational.den = 1 ∧ |value.rational| ≤ 2 ^ 53 then
    pure (insertInteger value.rational.num)
  else
    let short := insertDouble 15 value
    if (extractDouble short).any fun reparsed => reparsed.eq value then pure short
    else pure (insertDouble 17 value)

mutual

def serializeValue : JsonValue → Except Bytes Bytes
  | .null => pure (text "null")
  | .boolean value => pure (text (if value then "true" else "false"))
  | .number value => formatNumber value
  | .string value => pure (escaped value)
  | .object members => do
      let out ← serializeMembers members
      pure (123 :: (out ++ [125]))

def serializeMembers : List (Bytes × JsonValue) → Except Bytes Bytes
  | [] => pure []
  | (name, value) :: members => do
      let out ← serializeValue value
      let behind ← serializeMembers members
      pure (escaped name ++ 58 :: out ++ (if members.isEmpty then [] else 44 :: behind))

end

end Serializer

end Fx

end Supernova
