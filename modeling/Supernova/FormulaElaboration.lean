/-
The elaboration of the formulas of calculated variables: the search for a
dollar expression, what each expression is replaced by, and the loop that
searches again from the start after every replacement.
-/
import Supernova.StandardString

namespace Supernova

attribute [local semireducible] ByteArray.toList.loop

namespace CalculatedVariables

def DashSignVariableRepr : Bytes := text "__dash__"

def SlashSignVariableRepr : Bytes := text "__slash__"

def escapeSpecialCharactersInFormula (inputFormula : Bytes) : Bytes :=
  let dashReplaced := replaceAll inputFormula (text "\\-") DashSignVariableRepr
  replaceAll dashReplaced (text "\\/") SlashSignVariableRepr

def escapeSpecialCharactersInParserVariableName (input : Bytes) : Bytes :=
  let dashReplaced := replaceAll input (text "-") DashSignVariableRepr
  replaceAll dashReplaced (text "/") SlashSignVariableRepr

/-- A byte of `[A-Za-z0-9_]`. -/
def isWordByte (b : UInt8) : Bool :=
  (65 ≤ b && b ≤ 90) || (97 ≤ b && b ≤ 122) || (48 ≤ b && b ≤ 57) || b = 95

/-- A byte of `[^ \r\n\t()]`. -/
def isArgumentByte (b : UInt8) : Bool :=
  b ≠ 32 && b ≠ 13 && b ≠ 10 && b ≠ 9 && b ≠ 40 && b ≠ 41

def dollarByte : UInt8 := 36

/-- The optional group of the regex: an argument in parentheses, and what
stands behind it. -/
def scanArgument : Bytes → Option (Bytes × Bytes)
  | [] => none
  | c :: s =>
      if c = 40 ∧ s.takeWhile isArgumentByte ≠ [] then
        match s.dropWhile isArgumentByte with
        | [] => none
        | d :: rest => if d = 41 then some (s.takeWhile isArgumentByte, rest) else none
      else none

/-- A match of the regex and the text around it. -/
structure Expression where
  before : Bytes
  operation : Bytes
  argument : Option Bytes
  after : Bytes
deriving DecidableEq, Repr

/-- The matched text, `matched[0]`. -/
def Expression.matched (e : Expression) : Bytes :=
  dollarByte :: (e.operation ++
    match e.argument with
    | none => []
    | some argument => 40 :: (argument ++ [41]))

/-- `regex_search` with the substitution regex: the leftmost match. -/
def regexSearch : Bytes → Option Expression
  | [] => none
  | c :: s =>
      if c = dollarByte ∧ s.takeWhile isWordByte ≠ [] then
        match scanArgument (s.dropWhile isWordByte) with
        | none => some
            { before := [], operation := s.takeWhile isWordByte, argument := none
              after := s.dropWhile isWordByte }
        | some (argument, rest) => some
            { before := [], operation := s.takeWhile isWordByte, argument := some argument
              after := rest }
      else (regexSearch s).map fun e => { e with before := c :: e.before }

/-- What elaboration works with besides the formula: the loaded generic
formulas by name, and the address of the object that the variable belongs to. -/
structure Context where
  genericFormulas : List (Bytes × Bytes)
  parentObjectAddress : Bytes
deriving DecidableEq, Repr

/-- A formula of the configuration, with its name. -/
structure GenericFormula where
  name : Bytes
  formula : Bytes
deriving DecidableEq, Repr

/-- `loadGenericFormulas`; a name that is already there is an error. -/
def loadGenericFormulas (genericFormulas : List (Bytes × Bytes)) :
    List GenericFormula → Except Bytes (List (Bytes × Bytes))
  | [] => pure genericFormulas
  | formula :: config =>
      if (genericFormulas.lookup formula.name).isSome then
        throw (text "CalculatedVariables generic formulas error -- exact error was logged in the CalcVars LogIt")
      else loadGenericFormulas ((formula.name, formula.formula) :: genericFormulas) config

def dotByte : UInt8 := 46

/-- The loop of `elaborateParent`, with the index that it last cut at. -/
def cutOffLoop (input : Bytes) : Nat → Option Nat → Except Bytes (Option Nat)
  | 0, cutOffIndex => pure cutOffIndex
  | levels + 1, cutOffIndex =>
      let searched := match cutOffIndex with
        | none => input
        | some i => input.take (i + 1)
      match rfind dotByte searched with
      | none => throw (text "Not enough levels to go up!")
      | some i =>
          if levels = 0 then cutOffLoop input 0 (some i)
          else if 0 < i then cutOffLoop input levels (some (i - 1))
          else throw (text "Not enough levels to go up!")

def elaborateParent (input : Bytes) (levels : Nat) : Except Bytes Bytes := do
  let cutOffIndex ← cutOffLoop input levels none
  match cutOffIndex with
  | none => pure input
  | some i => pure (input.take i)

/-- `^numLevelsUp=(\d+)$` and `std::stoi`, which throws beyond an `int`. -/
def numLevelsUp (argument : Bytes) : Except Bytes Nat :=
  let digits := argument.drop (text "numLevelsUp=").length
  if (text "numLevelsUp=").isPrefixOf argument ∧ digits ≠ [] ∧
      digits.all fun b => 48 ≤ b && b ≤ 57 then
    let levels := digits.foldl (fun n b => 10 * n + (b.toNat - 48)) 0
    if levels ≤ 2147483647 then pure levels else throw (text "stoi")
  else throw (text "Argument did not fit the expected syntax, for example: $parentObjectAddress(numLevelsUp=2)")

/-- What the loop puts in place of an expression. -/
def substitution (context : Context) (e : Expression) : Except Bytes Bytes :=
  if e.operation = text "_" ∨ e.operation = text "thisObjectAddress" then
    match e.argument with
    | some _ =>
        throw (text "$" ++ e.operation ++ text " expression does not take arguments!")
    | none => pure (escapeSpecialCharactersInParserVariableName context.parentObjectAddress)
  else if e.operation = text "applyGenericFormula" then
    match e.argument with
    | none => throw (text "$applyGenericFormula expects a single argument -- formula id")
    | some formulaId =>
        match context.genericFormulas.lookup formulaId with
        | none => throw (text "Generic Formula id='" ++ formulaId ++
            text "' was referenced but never declared.")
        | some formula => pure formula
  else if e.operation = text "parentObjectAddress" then
    match e.argument with
    | none => throw (text "$" ++ e.operation ++ text " expression requires an argument")
    | some argument => do
        let levels ← numLevelsUp argument
        let parent ← elaborateParent context.parentObjectAddress levels
        pure (escapeSpecialCharactersInParserVariableName parent)
  else throw (text "Invalid dollar expression: " ++ e.matched)

/-- The rewriting loop, with a bound on its turns; `none` when the bound is
used up before the loop ends. -/
def elaborateLoop (context : Context) : Nat → Bytes → Option (Except Bytes Bytes)
  | 0, _ => none
  | turns + 1, formulaInWork =>
      match regexSearch formulaInWork with
      | none => some (.ok formulaInWork)
      | some e =>
          match substitution context e with
          | .error error => some (.error error)
          | .ok replacement =>
              elaborateLoop context turns (e.before ++ replacement ++ e.after)

def elaborateFormula (context : Context) (turns : Nat) (rawFormula : Bytes) :
    Option (Except Bytes Bytes) :=
  (elaborateLoop context turns rawFormula).map fun result =>
    result.map escapeSpecialCharactersInFormula

/-- The elaboration ends, with a formula or with an exception. -/
def Terminates (context : Context) (rawFormula : Bytes) : Prop :=
  ∃ turns, (elaborateFormula context turns rawFormula).isSome

example : elaborateFormula ⟨[(text "sum", text "$_.a + 1")], text "obj-1"⟩ 5
    (text "2 * $applyGenericFormula(sum)") = some (.ok (text "2 * obj__dash__1.a + 1")) := by
  decide

theorem scanArgument_eq_some {s argument rest : Bytes}
    (h : scanArgument s = some (argument, rest)) : s = 40 :: (argument ++ 41 :: rest) := by
  rcases s with _ | ⟨c, s⟩
  · cases h
  · simp only [scanArgument] at h
    split at h
    · rename_i hopen
      have hsplit := List.takeWhile_append_dropWhile (p := isArgumentByte) (l := s)
      rcases hclose : s.dropWhile isArgumentByte with _ | ⟨d, rest'⟩
      · simp [hclose] at h
      · rw [hclose] at h hsplit
        by_cases hd : d = 41
        · simp only [hd, if_true, Option.some.injEq, Prod.mk.injEq] at h
          rw [hopen.1, ← h.1, ← h.2, ← hd, hsplit]
        · simp [hd] at h
    · cases h

/-- A match is a part of the text, and the text around it is unchanged. -/
theorem regexSearch_eq_some {s : Bytes} {e : Expression} (h : regexSearch s = some e) :
    s = e.before ++ (e.matched ++ e.after) := by
  induction s generalizing e with
  | nil => cases h
  | cons c s ih =>
      unfold regexSearch at h
      split at h
      · rename_i hstart
        have hsplit := List.takeWhile_append_dropWhile (p := isWordByte) (l := s)
        cases hscan : scanArgument (s.dropWhile isWordByte) with
        | none =>
            rw [hscan] at h
            cases h
            simp [Expression.matched, hstart.1, hsplit]
        | some parts =>
            obtain ⟨argument, rest⟩ := parts
            rw [hscan] at h
            cases h
            rw [scanArgument_eq_some hscan] at hsplit
            rw [hstart.1]
            nth_rewrite 1 [← hsplit]
            simp [Expression.matched]
      · obtain ⟨e', he', rfl⟩ := Option.map_eq_some_iff.mp h
        rw [List.cons_append, ih he']
        rfl

end CalculatedVariables

end Supernova
