/-
The migration of device class headers: which methods a class is expected to override, and
the pattern that finds their declarations and writes `override` behind them.
-/
import Mathlib
import Supernova.PatternSubstitution

namespace Supernova

namespace DeviceClassAnalyzer

abbrev Text := List Char

/-- `\s` of a pattern, the same as `str.isspace`. -/
def isSpace (c : Char) : Bool :=
  (9 ≤ c.toNat && c.toNat ≤ 13) || (28 ≤ c.toNat && c.toNat ≤ 32) || c.toNat = 133 ||
    c.toNat = 160 || c.toNat = 5760 || (8192 ≤ c.toNat && c.toNat ≤ 8202) ||
    c.toNat = 8232 || c.toNat = 8233 || c.toNat = 8239 || c.toNat = 8287 || c.toNat = 12288

section Design

/-- The names of a design have more restrictions; these are the ones that matter here. -/
def isNameCharacter (c : Char) : Bool := !isSpace c && c ≠ '(' && c ≠ ')'

structure VariableName where
  first : Char
  rest : Text
  isAlpha_first : first.isAlpha = true
  isNameCharacter_rest : ∀ c ∈ rest, isNameCharacter c = true
deriving DecidableEq

structure MethodName where
  name : Text
  name_ne_nil : name ≠ []
  isNameCharacter_name : ∀ c ∈ name, isNameCharacter c = true
deriving DecidableEq

def capFirst (word : VariableName) : Text := word.first.toUpper :: word.rest

inductive AddressSpaceWrite
  | forbidden
  | delegated
  | regular
deriving DecidableEq, Repr

inductive AddressSpaceOperation
  | forbidden
  | asynchronous
  | synchronous
deriving DecidableEq, Repr

structure CacheVariable where
  name : VariableName
  addressSpaceWrite : AddressSpaceWrite
deriving DecidableEq

structure SourceVariable where
  name : VariableName
  addressSpaceRead : AddressSpaceOperation
  addressSpaceWrite : AddressSpaceOperation
deriving DecidableEq

structure DesignClass where
  name : Text
  deviceLogic : Bool
  cacheVariables : List CacheVariable
  sourceVariables : List SourceVariable
  methods : List VariableName
deriving DecidableEq

structure Design where
  classes : List DesignClass
  /-- the `classKey` of the schema -/
  classKey : (classes.map DesignClass.name).Nodup

inductive Verb
  | write
  | read
  | call
deriving DecidableEq, Repr

def Verb.text : Verb → Text
  | write => "write".toList
  | read => "read".toList
  | call => "call".toList

theorem isNameCharacter_verb (verb : Verb) : ∀ c ∈ verb.text, isNameCharacter c = true := by
  cases verb with
  | write => exact List.all_eq_true.mp rfl
  | read => exact List.all_eq_true.mp rfl
  | call => exact List.all_eq_true.mp rfl

theorem isNameCharacter_toUpper_ascii : ∀ n < 128, (Char.ofNat n).isAlpha = true →
    isNameCharacter (Char.ofNat n).toUpper = true := by
  decide

theorem toNat_lt_of_isAlpha {c : Char} (h : c.isAlpha = true) : c.toNat < 128 := by
  simp only [Char.isAlpha, Char.isUpper, Char.isLower, Bool.or_eq_true, Bool.and_eq_true,
    decide_eq_true_eq, ge_iff_le, UInt32.le_iff_toNat_le] at h
  rw [Char.toNat]
  rcases h with ⟨-, h⟩ | ⟨-, h⟩
  · exact lt_of_le_of_lt h (by decide)
  · exact lt_of_le_of_lt h (by decide)

theorem isNameCharacter_capFirst (word : VariableName) :
    ∀ c ∈ capFirst word, isNameCharacter c = true := by
  have hfirst := isNameCharacter_toUpper_ascii word.first.toNat
    (toNat_lt_of_isAlpha word.isAlpha_first)
  rw [Char.ofNat_toNat] at hfirst
  exact List.forall_mem_cons.mpr ⟨hfirst word.isAlpha_first, word.isNameCharacter_rest⟩

/-- `f"write{cap_first(name)}"` and its like. -/
def methodName (verb : Verb) (word : VariableName) : MethodName where
  name := verb.text ++ capFirst word
  name_ne_nil := List.append_ne_nil_of_right_ne_nil _ (List.cons_ne_nil _ _)
  isNameCharacter_name := List.forall_mem_append.mpr
    (And.intro (isNameCharacter_verb verb) (isNameCharacter_capFirst word))

def getExpectedVirtualMethods (this : DesignClass) : List MethodName :=
  (this.cacheVariables.filter (·.addressSpaceWrite = .delegated)).map
      (methodName .write ·.name) ++
    this.sourceVariables.flatMap (fun sv =>
      (if sv.addressSpaceRead ∈ [.asynchronous, .synchronous] then
        [methodName .read sv.name] else []) ++
      (if sv.addressSpaceWrite ∈ [.asynchronous, .synchronous] then
        [methodName .write sv.name] else [])) ++
    this.methods.map (methodName .call)

end Design

section Pattern

def uaStatus : Text := "UaStatus".toList

def overrideWord : Text := "override".toList

/-- The rest of the text behind `UaStatus\s+name\s*\(`.  No part of the pattern can begin
with what the part before it repeats, so there is nothing to give back. -/
def matchHead (method : MethodName) (text : Text) : Option Text := do
  let afterStatus ← text.dropPrefix? uaStatus
  guard ((afterStatus.head?).any isSpace)
  let afterName ← (afterStatus.dropWhile isSpace).dropPrefix? method.name
  (afterName.dropWhile isSpace).dropPrefix? ['(']

/-- `(UaStatus\s+name\s*\([^)]*\))\s*;` at the front of the text: group 1 and the match. -/
def matchDeclaration (method : MethodName) (text : Text) : Option (Text × Text) := do
  let afterHead ← matchHead method text
  let afterGroup ← (afterHead.dropWhile (· ≠ ')')).dropPrefix? [')']
  let afterMatch ← (afterGroup.dropWhile isSpace).dropPrefix? [';']
  some (text.take (text.length - afterGroup.length), text.take (text.length - afterMatch.length))

/-- `add_override` for the match at the front of the text. -/
def addOverride (method : MethodName) (text : Text) : Option (Text × Text) :=
  (matchDeclaration method text).map fun groups =>
    (groups.2, if overrideWord <:+: groups.2 then groups.2 else groups.1 ++ " override;".toList)

/-- The loop over the expected methods. -/
def addOverrides (expected : List MethodName) (content : Text) : Text :=
  expected.foldl (fun content method => substituteMatches (addOverride method) content) content

/-- What `UaStatus\s+name\s*\(` matches. -/
def IsHead (method : MethodName) (head : Text) : Prop :=
  ∃ blanks blanks', head = uaStatus ++ (blanks ++ (method.name ++ (blanks' ++ ['(']))) ∧
    blanks ≠ [] ∧ (∀ c ∈ blanks, isSpace c = true) ∧ ∀ c ∈ blanks', isSpace c = true

theorem isSpace_openParenthesis : isSpace '(' = false := by decide

theorem dropPrefix?_eq_some {front text rest : Text} :
    text.dropPrefix? front = some rest ↔ text = front ++ rest := by
  rw [List.dropPrefix?_eq_some_iff]
  simp

theorem MethodName.isSpace_head (method : MethodName) (rest : Text) :
    ∀ c ∈ (method.name ++ rest).head?, isSpace c = false := by
  obtain ⟨c, name, hname⟩ := List.exists_cons_of_ne_nil method.name_ne_nil
  have hc := method.isNameCharacter_name c (by simp [hname])
  rw [hname]
  rintro _ ⟨⟩
  simp only [isNameCharacter, Bool.and_eq_true, Bool.not_eq_true'] at hc
  exact hc.1.1

theorem dropWhile_isSpace {blanks rest : Text} (hblanks : ∀ c ∈ blanks, isSpace c = true)
    (hrest : ∀ c ∈ rest.head?, isSpace c = false) :
    (blanks ++ rest).dropWhile isSpace = rest := by
  rw [List.dropWhile_append_of_pos hblanks]
  cases rest with
  | nil => rfl
  | cons c rest => rw [List.dropWhile_cons_of_neg (by simp [hrest c rfl])]

theorem matchHead_eq_some_iff {method : MethodName} {text rest : Text} :
    matchHead method text = some rest ↔ ∃ head, IsHead method head ∧ text = head ++ rest := by
  simp only [matchHead, Option.bind_eq_bind, Option.bind_eq_some_iff, dropPrefix?_eq_some]
  constructor
  · rintro ⟨afterStatus, rfl, ⟨⟩, hblank, afterName, hname, hopen⟩
    refine ⟨uaStatus ++ (afterStatus.takeWhile isSpace ++
      (method.name ++ (afterName.takeWhile isSpace ++ ['(']))), ⟨_, _, rfl, ?_,
      fun c hc => List.mem_takeWhile_imp hc, fun c hc => List.mem_takeWhile_imp hc⟩, ?_⟩
    · cases afterStatus with
      | nil => exact absurd hblank (by simp)
      | cons c afterStatus =>
          have hc : isSpace c = true := by
            by_contra hc
            simp [guard, hc] at hblank
          rw [List.takeWhile_cons_of_pos hc]
          exact List.cons_ne_nil _ _
    · calc uaStatus ++ afterStatus
          = uaStatus ++ (afterStatus.takeWhile isSpace ++ (method.name ++
              (afterName.takeWhile isSpace ++ afterName.dropWhile isSpace))) := by
            rw [List.takeWhile_append_dropWhile, ← hname, List.takeWhile_append_dropWhile]
        _ = _ := by
            rw [hopen]
            simp
  · rintro ⟨_, ⟨blanks, blanks', rfl, hne, hblanks, hblanks'⟩, rfl⟩
    have hparenthesis : ∀ c ∈ ('(' :: rest).head?, isSpace c = false := by
      rintro _ ⟨⟩
      exact isSpace_openParenthesis
    have hopen := dropWhile_isSpace hblanks' hparenthesis
    have hname := dropWhile_isSpace hblanks (method.isSpace_head (blanks' ++ '(' :: rest))
    refine ⟨blanks ++ (method.name ++ (blanks' ++ '(' :: rest)), by simp, ⟨⟩, ?_,
      blanks' ++ '(' :: rest, hname, hopen⟩
    obtain ⟨c, blanks, rfl⟩ := List.exists_cons_of_ne_nil hne
    simp [guard, hblanks c List.mem_cons_self]
theorem IsHead.closeParenthesis_notMem {method : MethodName} {head : Text}
    (h : IsHead method head) : ')' ∉ head := by
  obtain ⟨blanks, blanks', rfl, -, hblanks, hblanks'⟩ := h
  have hspace : isSpace ')' = false := by decide
  have hname : ')' ∉ method.name := by
    intro hmem
    have hc := method.isNameCharacter_name _ hmem
    simp [isNameCharacter] at hc
  simp only [List.mem_append, List.mem_singleton, not_or]
  refine ⟨by decide, fun hmem => ?_, hname, fun hmem => ?_, by decide⟩
  · exact Bool.false_ne_true (hspace ▸ hblanks _ hmem)
  · exact Bool.false_ne_true (hspace ▸ hblanks' _ hmem)

theorem IsHead.head? {method : MethodName} {head : Text} (h : IsHead method head)
    (rest : Text) : (head ++ rest).head? = some 'U' := by
  obtain ⟨blanks, blanks', rfl, -⟩ := h
  rfl

end Pattern

section Files

inductive Platform
  | posix
  | windows
deriving DecidableEq, Repr

/-- `os.linesep` -/
def Platform.lineSep : Platform → Text
  | posix => ['\n']
  | windows => ['\r', '\n']

/-- Reading in text mode: every line end becomes `\n`. -/
def readLinesFrom (afterReturn : Bool) : Text → Text
  | [] => []
  | c :: t =>
      if c = '\r' then '\n' :: readLinesFrom true t
      else if c = '\n' ∧ afterReturn = true then readLinesFrom false t
      else c :: readLinesFrom false t

def readLines (t : Text) : Text := readLinesFrom false t

/-- Writing in text mode. -/
def writeLines (platform : Platform) (t : Text) : Text :=
  t.flatMap fun c => if c = '\n' then platform.lineSep else [c]

/-- The file of one class afterwards. -/
def upgradeHeader (platform : Platform) (expected : List MethodName) (header : Text) : Text :=
  let content := readLines header
  let upgraded := addOverrides expected content
  if upgraded ≠ content then writeLines platform upgraded else header

/-- The files `D<Class>.h` by the name of the class. -/
abbrev Headers := Text → Option Text

def upgradeClass (platform : Platform) (headers : Headers) (this : DesignClass) : Headers :=
  match headers this.name with
  | none => headers
  | some header => Function.update headers this.name
      (some (upgradeHeader platform (getExpectedVirtualMethods this) header))

def addOverrideToDeviceClasses (platform : Platform) (design : Design) (headers : Headers) :
    Headers :=
  (design.classes.filter DesignClass.deviceLogic).foldl (upgradeClass platform) headers

end Files

end DeviceClassAnalyzer

end Supernova
