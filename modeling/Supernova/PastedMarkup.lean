/-
XML that is written by pasting texts into tags without escaping them, and when it reads as it
was meant: every value of an attribute is plain, and every pasted content is content.
-/
import Supernova.QuotedTexts

namespace Supernova

namespace Xml

def isBlank (c : UInt8) : Bool := c = 32 || c = 9 || c = 10 || c = 13

def isNameStart (c : UInt8) : Bool :=
  65 ≤ c && c ≤ 90 || 97 ≤ c && c ≤ 122 || c = 95 || c = 58 || 128 ≤ c

def isNameByte (c : UInt8) : Bool := isNameStart c || isDigit c || c = 45 || c = 46

inductive Token
  | startTag (name : Bytes) (attributes : List (Bytes × Bytes))
  | emptyTag (name : Bytes) (attributes : List (Bytes × Bytes))
  | endTag (name : Bytes)
  | char (c : UInt8)
deriving DecidableEq, Repr

section Reading

/-- The name at the front, and what follows it. -/
def takeName (s : Bytes) : Option (Bytes × Bytes) :=
  if (s.head?).any isNameStart then some (s.takeWhile isNameByte, s.dropWhile isNameByte)
  else none

def IsName (s : Bytes) : Prop := takeName s = some (s, [])

instance (s : Bytes) : Decidable (IsName s) :=
  inferInstanceAs (Decidable (takeName s = some (s, [])))

/-- Blanks, the name of an attribute, an equals sign and a quote. -/
def attributeStart (s : Bytes) : Option (Bytes × UInt8 × Bytes) := do
  guard ((s.head?).any isBlank)
  let (name, afterName) ← takeName (s.dropWhile isBlank)
  let afterEquals ← (afterName.dropWhile isBlank).dropPrefix? [61]
  let quote ← (afterEquals.dropWhile isBlank).head?
  guard (quote = 34 ∨ quote = 39)
  some (name, quote, (afterEquals.dropWhile isBlank).tail)

inductive Attributes : Bytes → List (Bytes × Bytes) → Bytes → Prop
  | nil {s : Bytes} : attributeStart s = none → Attributes s [] s
  | cons {s name : Bytes} {quote : UInt8} {s' value s'' : Bytes}
      {attributes : List (Bytes × Bytes)} {rest : Bytes} :
      attributeStart s = some (name, quote, s') → AttributeValue quote s' value s'' →
      Attributes s'' attributes rest → Attributes s ((name, value) :: attributes) rest

/-- The target of an instruction must not be this one. -/
def isReserved (target : Bytes) : Prop :=
  target.map (fun c => if 65 ≤ c ∧ c ≤ 90 then c + 32 else c) = text "xml"

/-- What stands at the front of a document, and what follows it. -/
inductive Item : Bytes → List Token → Bytes → Prop
  | char {c : UInt8} {s : Bytes} : c ≠ 60 → c ≠ 38 → c ≠ 13 → 32 ≤ c ∨ isBlank c = true →
      ¬[93, 93, 62] <+: c :: s → Item (c :: s) [.char c] s
  | lineEnd {s : Bytes} : Item (13 :: s) [.char 10] (if s.head? = some 10 then s.tail else s)
  | reference {s bytes rest : Bytes} : reference s = some (bytes, rest) →
      Item (38 :: s) (bytes.map .char) rest
  | startTag {s name s' s'' rest : Bytes} {attributes : List (Bytes × Bytes)} :
      takeName s = some (name, s') → Attributes s' attributes s'' →
      s''.dropWhile isBlank = 62 :: rest → (attributes.map Prod.fst).Nodup →
      Item (60 :: s) [.startTag name attributes] rest
  | emptyTag {s name s' s'' rest : Bytes} {attributes : List (Bytes × Bytes)} :
      takeName s = some (name, s') → Attributes s' attributes s'' →
      s''.dropWhile isBlank = 47 :: 62 :: rest → (attributes.map Prod.fst).Nodup →
      Item (60 :: s) [.emptyTag name attributes] rest
  | endTag {s name s' rest : Bytes} : takeName s = some (name, s') →
      s'.dropWhile isBlank = 62 :: rest → Item (60 :: 47 :: s) [.endTag name] rest
  | comment {body rest : Bytes} : ¬[45, 45] <:+: body ++ [45] →
      Item (60 :: 33 :: 45 :: 45 :: (body ++ 45 :: 45 :: 62 :: rest)) [] rest
  | cdata {body rest : Bytes} : ¬[93, 93, 62] <:+: body ++ [93, 93] →
      Item (60 :: 33 :: 91 :: 67 :: 68 :: 65 :: 84 :: 65 :: 91 :: (body ++ 93 :: 93 :: 62 :: rest))
        (body.map .char) rest
  | instruction {body target after rest : Bytes} : takeName body = some (target, after) →
      ¬isReserved target → ¬[63, 62] <:+: body ++ [63] →
      Item (60 :: 63 :: (body ++ 63 :: 62 :: rest)) [] rest

inductive Reads : Bytes → List Token → Prop
  | nil : Reads [] []
  | item {s rest : Bytes} {tokens tokens' : List Token} :
      Item s tokens rest → Reads rest tokens' → Reads s (tokens ++ tokens')

/-- Elements are closed in the order in which they were opened. -/
inductive Content : List Token → Prop
  | nil : Content []
  | char (c : UInt8) {tokens : List Token} : Content tokens → Content (.char c :: tokens)
  | emptyTag (name : Bytes) (attributes : List (Bytes × Bytes)) {tokens : List Token} :
      Content tokens → Content (.emptyTag name attributes :: tokens)
  | element (name : Bytes) (attributes : List (Bytes × Bytes)) {inner tokens : List Token} :
      Content inner → Content tokens →
      Content (.startTag name attributes :: (inner ++ .endTag name :: tokens))

/-- One element around all others. -/
def Document (tokens : List Token) : Prop :=
  ∃ name attributes inner, tokens = .startTag name attributes :: (inner ++ [.endTag name]) ∧
    Content inner

/-- Among the tokens there is an element that has these ones inside. -/
def Inside (tokens : List Token) (name : Bytes) (attributes : List (Bytes × Bytes))
    (inner : List Token) : Prop :=
  .startTag name attributes :: (inner ++ [.endTag name]) <:+: tokens ∧ Content inner

end Reading

section Pasting

inductive Piece
  | startTag (name : Bytes) (attributes : List (Bytes × Bytes))
  | emptyTag (name : Bytes) (attributes : List (Bytes × Bytes))
  | endTag (name : Bytes)
  /-- an element with nothing but a text in it -/
  | textElement (name content : Bytes)
deriving DecidableEq, Repr

def pasteAttributes (attributes : List (Bytes × Bytes)) : Bytes :=
  attributes.flatMap fun a => 32 :: (a.1 ++ 61 :: 34 :: (a.2 ++ [34]))

def paste : Piece → Bytes
  | .startTag name attributes => 60 :: (name ++ (pasteAttributes attributes ++ [62]))
  | .emptyTag name attributes => 60 :: (name ++ (pasteAttributes attributes ++ [47, 62]))
  | .endTag name => 60 :: 47 :: (name ++ [62])
  | .textElement name content =>
      60 :: (name ++ 62 :: (content ++ 60 :: 47 :: (name ++ [62])))

def pasteAll (pieces : List Piece) : Bytes := pieces.flatMap paste

def element (name : Bytes) (attributes : List (Bytes × Bytes)) (inner : List Piece) :
    List Piece :=
  .startTag name attributes :: (inner ++ [.endTag name])

/-- Every attribute has a name, and no two have the same one. -/
def AttributeNames (names : List Bytes) : Prop := (∀ name ∈ names, IsName name) ∧ names.Nodup

instance (names : List Bytes) : Decidable (AttributeNames names) :=
  inferInstanceAs (Decidable ((∀ name ∈ names, IsName name) ∧ names.Nodup))

/-- The names in the piece are names. -/
def Piece.Valid : Piece → Prop
  | .startTag name attributes | .emptyTag name attributes =>
      IsName name ∧ AttributeNames (attributes.map Prod.fst)
  | .endTag name | .textElement name _ => IsName name

/-- Every element that is opened is closed around what is in it. -/
inductive Balanced : List Piece → Prop
  | nil : Balanced []
  | emptyTag {name : Bytes} {attributes : List (Bytes × Bytes)} {pieces : List Piece} :
      (Piece.emptyTag name attributes).Valid → Balanced pieces →
      Balanced (.emptyTag name attributes :: pieces)
  | textElement {name : Bytes} (content : Bytes) {pieces : List Piece} :
      IsName name → Balanced pieces → Balanced (.textElement name content :: pieces)
  | element {name : Bytes} {attributes : List (Bytes × Bytes)} {inner pieces : List Piece} :
      (Piece.startTag name attributes).Valid → Balanced inner → Balanced pieces →
      Balanced (.startTag name attributes :: (inner ++ .endTag name :: pieces))

/-- In front of markup, the text is read as these tokens whatever the markup is. -/
def Contributes (content : Bytes) (tokens : List Token) : Prop :=
  ∀ rest tokens', Reads (content ++ 60 :: rest) tokens' ↔
    ∃ tokens'', tokens' = tokens ++ tokens'' ∧ Reads (60 :: rest) tokens''

/-- The tokens that pieces are meant to be read as. -/
inductive Meant : List Piece → List Token → Prop
  | nil : Meant [] []
  | startTag (name : Bytes) (attributes : List (Bytes × Bytes)) {pieces : List Piece}
      {tokens : List Token} : Meant pieces tokens →
      Meant (.startTag name attributes :: pieces) (.startTag name attributes :: tokens)
  | emptyTag (name : Bytes) (attributes : List (Bytes × Bytes)) {pieces : List Piece}
      {tokens : List Token} : Meant pieces tokens →
      Meant (.emptyTag name attributes :: pieces) (.emptyTag name attributes :: tokens)
  | endTag (name : Bytes) {pieces : List Piece} {tokens : List Token} : Meant pieces tokens →
      Meant (.endTag name :: pieces) (.endTag name :: tokens)
  | textElement (name : Bytes) {content : Bytes} {inner : List Token} {pieces : List Piece}
      {tokens : List Token} : Contributes content inner → Content inner → Meant pieces tokens →
      Meant (.textElement name content :: pieces)
        (.startTag name [] :: (inner ++ .endTag name :: tokens))

/-- Nothing pasted into the piece has a meaning of its own. -/
def Piece.Survives : Piece → Prop
  | .startTag _ attributes | .emptyTag _ attributes => ∀ a ∈ attributes, PlainValue a.2
  | .endTag _ => True
  | .textElement _ content => ∃ tokens, Contributes content tokens ∧ Content tokens

def AllSurvive (pieces : List Piece) : Prop := ∀ p ∈ pieces, p.Survives

section Survival

variable {pieces pieces' inner : List Piece} {piece : Piece} {name : Bytes}
  {attributes : List (Bytes × Bytes)}

@[simp] theorem allSurvive_nil : AllSurvive [] := fun _ hp => absurd hp List.not_mem_nil

@[simp] theorem allSurvive_cons :
    AllSurvive (piece :: pieces) ↔ piece.Survives ∧ AllSurvive pieces :=
  List.forall_mem_cons

@[simp] theorem allSurvive_append :
    AllSurvive (pieces ++ pieces') ↔ AllSurvive pieces ∧ AllSurvive pieces' :=
  List.forall_mem_append

@[simp] theorem allSurvive_element :
    AllSurvive (element name attributes inner) ↔
      (∀ a ∈ attributes, PlainValue a.2) ∧ AllSurvive inner := by
  simp [element, Piece.Survives]

@[simp] theorem allSurvive_flatten {parts : List (List Piece)} :
    AllSurvive parts.flatten ↔ ∀ part ∈ parts, AllSurvive part := by
  simp only [AllSurvive, List.mem_flatten]
  constructor
  · intro h part hpart p hp
    exact h p ⟨part, hpart, hp⟩
  · rintro h p ⟨part, hpart, hp⟩
    exact h part hpart p hp

theorem allSurvive_emptyTags {α : Type} {name : α → Bytes}
    {attributes : α → List (Bytes × Bytes)} {l : List α} :
    AllSurvive (l.map fun x => .emptyTag (name x) (attributes x)) ↔
      ∀ x ∈ l, ∀ a ∈ attributes x, PlainValue a.2 :=
  List.forall_mem_map

theorem allSurvive_flatMap {α : Type} {f : α → List Piece} {l : List α} :
    AllSurvive (l.flatMap f) ↔ ∀ x ∈ l, AllSurvive (f x) := by
  rw [List.flatMap_def, allSurvive_flatten, List.forall_mem_map]

end Survival

end Pasting

section Tags

variable {name s more rest : Bytes} {attributes : List (Bytes × Bytes)} {c : UInt8}
  {tokens : List Token}

theorem IsName.cons (h : IsName name) :
    ∃ c name', name = c :: name' ∧ isNameStart c = true ∧
      ∀ d ∈ c :: name', isNameByte d = true := by
  rw [IsName, takeName] at h
  split_ifs at h with hstart
  cases name with
  | nil => cases hstart
  | cons c name' =>
      simp only [Option.some.injEq, Prod.mk.injEq, List.takeWhile_eq_self_iff] at h
      exact ⟨c, name', rfl, hstart, h.1⟩

theorem takeName_append (h : IsName name) (hc : isNameByte c = false) (s : Bytes) :
    takeName (name ++ c :: s) = some (name, c :: s) := by
  obtain ⟨first, name', rfl, hstart, hbytes⟩ := h.cons
  have hc' : ¬isNameByte c = true := by simp [hc]
  rw [takeName, if_pos (by exact hstart), List.takeWhile_append_of_pos hbytes,
    List.dropWhile_append_of_pos hbytes, List.takeWhile_cons_of_neg hc',
    List.dropWhile_cons_of_neg hc', List.append_nil]

theorem isBlank_of_isNameStart (h : isNameStart c = true) : isBlank c = false := by
  simp only [isNameStart, isBlank, Bool.or_eq_true, Bool.and_eq_true, Bool.or_eq_false_iff,
    decide_eq_true_eq, decide_eq_false_iff_not, UInt8.le_iff_toNat_le, ← UInt8.toNat_inj,
    UInt8.reduceToNat] at h ⊢
  omega

theorem attributeStart_paste (h : IsName name) (s : Bytes) :
    attributeStart (32 :: (name ++ 61 :: 34 :: s)) = some (name, 34, s) := by
  have htake := @takeName_append name 61 h rfl (34 :: s)
  obtain ⟨first, name', rfl, hstart, -⟩ := h.cons
  have hblank : (32 :: (first :: name' ++ 61 :: 34 :: s)).dropWhile isBlank =
      first :: name' ++ 61 :: 34 :: s := by
    rw [List.dropWhile_cons_of_pos (by decide), List.cons_append,
      List.dropWhile_cons_of_neg (by simp [isBlank_of_isNameStart hstart])]
  rw [attributeStart, hblank, htake]
  rfl

theorem attributeStart_of_not_blank (h : isBlank c = false) : attributeStart (c :: s) = none := by
  simp [attributeStart, h]

/-- Pasted attributes are read as they are meant exactly if their values are plain. -/
theorem attributes_paste_iff (hc : isBlank c = false)
    (hnames : ∀ name ∈ attributes.map Prod.fst, IsName name) :
    Attributes (pasteAttributes attributes ++ c :: s) attributes rest ↔
      (∀ a ∈ attributes, PlainValue a.2) ∧ rest = c :: s := by
  induction attributes with
  | nil =>
      have hstart := @attributeStart_of_not_blank s c hc
      constructor
      · intro h
        cases h
        exact ⟨fun _ ha => absurd ha List.not_mem_nil, rfl⟩
      · rintro ⟨-, rfl⟩
        exact .nil hstart
  | cons a attributes ih =>
      rw [List.map_cons, List.forall_mem_cons] at hnames
      have hpaste : pasteAttributes (a :: attributes) ++ c :: s =
          32 :: (a.1 ++ 61 :: 34 :: (a.2 ++ 34 :: (pasteAttributes attributes ++ c :: s))) := by
        simp [pasteAttributes]
      have hstart := attributeStart_paste hnames.1
        (a.2 ++ 34 :: (pasteAttributes attributes ++ c :: s))
      rw [hpaste, List.forall_mem_cons]
      constructor
      · intro h
        obtain ⟨name, value⟩ := a
        cases h with
        | cons hstart' hvalue hattributes =>
            rw [hstart, Option.some.injEq, Prod.mk.injEq, Prod.mk.injEq] at hstart'
            obtain ⟨-, rfl, rfl⟩ := hstart'
            obtain ⟨hplain, rfl⟩ := attributeValue_quoted_iff.1 hvalue
            obtain ⟨hplains, hrest⟩ := (ih hnames.2).mp hattributes
            exact ⟨⟨hplain, hplains⟩, hrest⟩
      · rintro ⟨⟨hplain, hplains⟩, hrest⟩
        exact .cons hstart (attributeValue_quoted_iff.2 ⟨hplain, rfl⟩)
          ((ih hnames.2).mpr ⟨hplains, hrest⟩)

/-- What begins with a name is a tag that opens an element, or an empty one. -/
theorem Item.of_name (hc : isNameStart c = true) (h : Item (60 :: c :: s) tokens rest) :
    ∃ name attributes s' s'', takeName (c :: s) = some (name, s') ∧
      Attributes s' attributes s'' ∧
      (tokens = [.startTag name attributes] ∧ s''.dropWhile isBlank = 62 :: rest ∨
        tokens = [.emptyTag name attributes] ∧ s''.dropWhile isBlank = 47 :: 62 :: rest) := by
  generalize hs : 60 :: c :: s = s₀ at h
  cases h with
  | char hless =>
      cases hs
      exact absurd rfl hless
  | lineEnd => cases hs
  | reference => cases hs
  | startTag hname hattributes hclose =>
      cases hs
      exact ⟨_, _, _, _, hname, hattributes, .inl ⟨rfl, hclose⟩⟩
  | emptyTag hname hattributes hclose =>
      cases hs
      exact ⟨_, _, _, _, hname, hattributes, .inr ⟨rfl, hclose⟩⟩
  | endTag =>
      cases hs
      cases hc
  | comment =>
      cases hs
      cases hc
  | cdata =>
      cases hs
      cases hc
  | instruction =>
      cases hs
      cases hc

theorem Item.of_slash (h : Item (60 :: 47 :: s) tokens rest) :
    ∃ name s', takeName s = some (name, s') ∧ s'.dropWhile isBlank = 62 :: rest ∧
      tokens = [.endTag name] := by
  generalize hs : 60 :: 47 :: s = s₀ at h
  cases h with
  | char hless =>
      cases hs
      exact absurd rfl hless
  | lineEnd => cases hs
  | reference => cases hs
  | startTag hname =>
      cases hs
      cases hname
  | emptyTag hname =>
      cases hs
      cases hname
  | endTag hname hclose =>
      cases hs
      exact ⟨_, _, hname, hclose, rfl⟩
  | comment => cases hs
  | cdata => cases hs
  | instruction => cases hs

theorem reads_cons_iff :
    Reads (c :: s) tokens ↔ ∃ front rest tokens',
      tokens = front ++ tokens' ∧ Item (c :: s) front rest ∧ Reads rest tokens' := by
  constructor
  · intro h
    cases h with
    | item hitem hreads => exact ⟨_, _, _, rfl, hitem, hreads⟩
  · rintro ⟨front, rest, tokens', rfl, hitem, hreads⟩
    exact .item hitem hreads

theorem reads_startTag_iff (hvalid : (Piece.startTag name attributes).Valid) :
    Reads (paste (.startTag name attributes) ++ more) (.startTag name attributes :: tokens) ↔
      (∀ a ∈ attributes, PlainValue a.2) ∧ Reads more tokens := by
  obtain ⟨hname, hnames, hnodup⟩ := hvalid
  have hpaste : paste (.startTag name attributes) ++ more =
      60 :: (name ++ (pasteAttributes attributes ++ 62 :: more)) := by
    simp [paste]
  have htake : takeName (name ++ (pasteAttributes attributes ++ 62 :: more)) =
      some (name, pasteAttributes attributes ++ 62 :: more) := by
    cases attributes with
    | nil => exact takeName_append hname rfl more
    | cons a attributes => exact takeName_append hname rfl _
  obtain ⟨first, name', rfl, hstart, -⟩ := hname.cons
  rw [hpaste, List.cons_append, reads_cons_iff]
  constructor
  · rintro ⟨front, rest, tokens', htokens, hitem, hreads⟩
    obtain ⟨name'', attributes', s', s'', htake', hattributes, htag⟩ := hitem.of_name hstart
    rcases htag with ⟨rfl, hclose⟩ | ⟨rfl, -⟩
    · rw [List.singleton_append, List.cons.injEq, Token.startTag.injEq] at htokens
      obtain ⟨⟨rfl, rfl⟩, rfl⟩ := htokens
      rw [← List.cons_append, htake, Option.some.injEq, Prod.mk.injEq] at htake'
      obtain ⟨-, rfl⟩ := htake'
      obtain ⟨hplain, rfl⟩ := (attributes_paste_iff rfl hnames).mp hattributes
      cases hclose
      exact ⟨hplain, hreads⟩
    · cases htokens
  · rintro ⟨hplain, hreads⟩
    exact ⟨_, more, tokens, rfl,
      .startTag htake ((attributes_paste_iff rfl hnames).mpr ⟨hplain, rfl⟩) rfl hnodup, hreads⟩

theorem reads_emptyTag_iff (hvalid : (Piece.emptyTag name attributes).Valid) :
    Reads (paste (.emptyTag name attributes) ++ more) (.emptyTag name attributes :: tokens) ↔
      (∀ a ∈ attributes, PlainValue a.2) ∧ Reads more tokens := by
  obtain ⟨hname, hnames, hnodup⟩ := hvalid
  have hpaste : paste (.emptyTag name attributes) ++ more =
      60 :: (name ++ (pasteAttributes attributes ++ 47 :: 62 :: more)) := by
    simp [paste]
  have htake : takeName (name ++ (pasteAttributes attributes ++ 47 :: 62 :: more)) =
      some (name, pasteAttributes attributes ++ 47 :: 62 :: more) := by
    cases attributes with
    | nil => exact takeName_append hname rfl (62 :: more)
    | cons a attributes => exact takeName_append hname rfl _
  obtain ⟨first, name', rfl, hstart, -⟩ := hname.cons
  rw [hpaste, List.cons_append, reads_cons_iff]
  constructor
  · rintro ⟨front, rest, tokens', htokens, hitem, hreads⟩
    obtain ⟨name'', attributes', s', s'', htake', hattributes, htag⟩ := hitem.of_name hstart
    rcases htag with ⟨rfl, -⟩ | ⟨rfl, hclose⟩
    · cases htokens
    · rw [List.singleton_append, List.cons.injEq, Token.emptyTag.injEq] at htokens
      obtain ⟨⟨rfl, rfl⟩, rfl⟩ := htokens
      rw [← List.cons_append, htake, Option.some.injEq, Prod.mk.injEq] at htake'
      obtain ⟨-, rfl⟩ := htake'
      obtain ⟨hplain, rfl⟩ := (attributes_paste_iff rfl hnames).mp hattributes
      cases hclose
      exact ⟨hplain, hreads⟩
  · rintro ⟨hplain, hreads⟩
    exact ⟨_, more, tokens, rfl,
      .emptyTag htake ((attributes_paste_iff rfl hnames).mpr ⟨hplain, rfl⟩) rfl hnodup, hreads⟩

theorem reads_endTag_iff (hname : IsName name) :
    Reads (paste (.endTag name) ++ more) (.endTag name :: tokens) ↔ Reads more tokens := by
  have hpaste : paste (.endTag name) ++ more = 60 :: 47 :: (name ++ 62 :: more) := by
    simp [paste]
  have htake := @takeName_append name 62 hname rfl more
  rw [hpaste, reads_cons_iff]
  constructor
  · rintro ⟨front, rest, tokens', htokens, hitem, hreads⟩
    obtain ⟨name', s', htake', hclose, rfl⟩ := hitem.of_slash
    rw [htake, Option.some.injEq, Prod.mk.injEq] at htake'
    obtain ⟨rfl, rfl⟩ := htake'
    cases hclose
    cases htokens
    exact hreads
  · intro hreads
    exact ⟨_, more, tokens, rfl, .endTag htake rfl, hreads⟩

end Tags

section Pieces

variable {pieces pieces' : List Piece} {tokens : List Token} {piece : Piece}

@[simp] theorem pasteAll_cons : pasteAll (piece :: pieces) = paste piece ++ pasteAll pieces :=
  List.flatMap_cons

/-- Once it is known what the pieces are meant to be, only the attributes are left. -/
theorem Meant.reads_iff (h : Meant pieces tokens) (hvalid : ∀ p ∈ pieces, p.Valid) :
    Reads (pasteAll pieces) tokens ↔ AllSurvive pieces := by
  induction h with
  | nil => exact ⟨fun _ => allSurvive_nil, fun _ => .nil⟩
  | startTag name attributes _ ih =>
      rw [List.forall_mem_cons] at hvalid
      rw [pasteAll_cons, reads_startTag_iff hvalid.1, ih hvalid.2, allSurvive_cons,
        Piece.Survives]
  | emptyTag name attributes _ ih =>
      rw [List.forall_mem_cons] at hvalid
      rw [pasteAll_cons, reads_emptyTag_iff hvalid.1, ih hvalid.2, allSurvive_cons,
        Piece.Survives]
  | endTag name _ ih =>
      rw [List.forall_mem_cons] at hvalid
      rw [pasteAll_cons, reads_endTag_iff hvalid.1, ih hvalid.2, allSurvive_cons,
        Piece.Survives, true_and]
  | @textElement name content inner pieces tokens hcontributes hcontent _ ih =>
      rw [List.forall_mem_cons] at hvalid
      have hstart : (Piece.startTag name []).Valid := ⟨hvalid.1, by simp, List.nodup_nil⟩
      have hnone : ∀ a ∈ ([] : List (Bytes × Bytes)), PlainValue a.2 := by simp
      have hpaste : paste (.textElement name content) ++ pasteAll pieces =
          paste (.startTag name []) ++ (content ++ (paste (.endTag name) ++ pasteAll pieces)) := by
        simp [paste, pasteAttributes]
      have hend : paste (.endTag name) ++ pasteAll pieces =
          60 :: 47 :: (name ++ 62 :: pasteAll pieces) := by
        simp [paste]
      rw [pasteAll_cons, hpaste, reads_startTag_iff hstart, and_iff_right hnone, hend,
        hcontributes, ← hend, allSurvive_cons, ← ih hvalid.2]
      constructor
      · rintro ⟨tokens', htokens, hreads⟩
        rw [List.append_cancel_left_eq] at htokens
        subst htokens
        exact ⟨⟨inner, hcontributes, hcontent⟩, (reads_endTag_iff hvalid.1).mp hreads⟩
      · rintro ⟨-, hreads⟩
        exact ⟨_, rfl, (reads_endTag_iff hvalid.1).mpr hreads⟩

theorem exists_meant (h : AllSurvive pieces) : ∃ tokens, Meant pieces tokens := by
  induction pieces with
  | nil => exact ⟨[], .nil⟩
  | cons piece pieces ih =>
      rw [allSurvive_cons] at h
      obtain ⟨tokens, htokens⟩ := ih h.2
      cases piece with
      | startTag name attributes => exact ⟨_, .startTag name attributes htokens⟩
      | emptyTag name attributes => exact ⟨_, .emptyTag name attributes htokens⟩
      | endTag name => exact ⟨_, .endTag name htokens⟩
      | textElement name content =>
          obtain ⟨inner, hcontributes, hcontent⟩ := h.1
          exact ⟨_, .textElement name hcontributes hcontent htokens⟩

/-- Pasted pieces are read as they are meant exactly if every one of them survives. -/
theorem exists_reads_iff (hvalid : ∀ p ∈ pieces, p.Valid) :
    (∃ tokens, Meant pieces tokens ∧ Reads (pasteAll pieces) tokens) ↔ AllSurvive pieces := by
  constructor
  · rintro ⟨tokens, hmeant, hreads⟩
    exact (hmeant.reads_iff hvalid).mp hreads
  · intro h
    obtain ⟨tokens, hmeant⟩ := exists_meant h
    exact ⟨tokens, hmeant, (hmeant.reads_iff hvalid).mpr h⟩

end Pieces

section Balance

variable {pieces pieces' inner : List Piece} {tokens tokens' : List Token} {name : Bytes}
  {attributes : List (Bytes × Bytes)}

theorem Balanced.append (h : Balanced pieces) (h' : Balanced pieces') :
    Balanced (pieces ++ pieces') := by
  induction h with
  | nil => exact h'
  | emptyTag hvalid _ ih => exact .emptyTag hvalid ih
  | textElement content hname _ ih => exact .textElement content hname ih
  | element hvalid hinner _ _ ih =>
      rw [List.cons_append, List.append_assoc, List.cons_append]
      exact .element hvalid hinner ih

theorem balanced_element (hvalid : (Piece.startTag name attributes).Valid)
    (h : Balanced inner) : Balanced (element name attributes inner) :=
  .element hvalid h .nil

theorem balanced_flatMap {α : Type} {f : α → List Piece} {l : List α}
    (h : ∀ x ∈ l, Balanced (f x)) : Balanced (l.flatMap f) := by
  induction l with
  | nil => exact .nil
  | cons x l ih =>
      rw [List.forall_mem_cons] at h
      rw [List.flatMap_cons]
      exact h.1.append (ih h.2)

theorem balanced_emptyTags {α : Type} {name : α → Bytes} {attributes : α → List (Bytes × Bytes)}
    {l : List α} (h : ∀ x ∈ l, (Piece.emptyTag (name x) (attributes x)).Valid) :
    Balanced (l.map fun x => .emptyTag (name x) (attributes x)) := by
  induction l with
  | nil => exact .nil
  | cons x l ih =>
      rw [List.forall_mem_cons] at h
      exact .emptyTag h.1 (ih h.2)

theorem balanced_flatten {l : List (List Piece)} (h : ∀ x ∈ l, Balanced x) :
    Balanced l.flatten := by
  rw [← List.flatMap_id]
  exact balanced_flatMap h

theorem Balanced.valid (h : Balanced pieces) : ∀ p ∈ pieces, p.Valid := by
  induction h with
  | nil => exact fun _ hp => absurd hp List.not_mem_nil
  | emptyTag hvalid _ ih => exact List.forall_mem_cons.mpr ⟨hvalid, ih⟩
  | textElement content hname _ ih => exact List.forall_mem_cons.mpr ⟨hname, ih⟩
  | element hvalid _ _ ihinner ih =>
      rw [List.forall_mem_cons, List.forall_mem_append, List.forall_mem_cons]
      exact ⟨hvalid, ihinner, hvalid.1, ih⟩

theorem Content.append (h : Content tokens) (h' : Content tokens') :
    Content (tokens ++ tokens') := by
  induction h with
  | nil => exact h'
  | char c _ ih => exact .char c ih
  | emptyTag name attributes _ ih => exact .emptyTag name attributes ih
  | element name attributes hinner _ _ ih =>
      rw [List.cons_append, List.append_assoc, List.cons_append]
      exact .element name attributes hinner ih

theorem Meant.of_append (h : Meant (pieces ++ pieces') tokens) :
    ∃ front back, tokens = front ++ back ∧ Meant pieces front ∧ Meant pieces' back := by
  induction pieces generalizing tokens with
  | nil => exact ⟨[], tokens, rfl, .nil, h⟩
  | cons piece pieces ih =>
      cases h with
      | startTag name attributes h =>
          obtain ⟨front, back, rfl, hfront, hback⟩ := ih h
          exact ⟨_, back, rfl, .startTag name attributes hfront, hback⟩
      | emptyTag name attributes h =>
          obtain ⟨front, back, rfl, hfront, hback⟩ := ih h
          exact ⟨_, back, rfl, .emptyTag name attributes hfront, hback⟩
      | endTag name h =>
          obtain ⟨front, back, rfl, hfront, hback⟩ := ih h
          exact ⟨_, back, rfl, .endTag name hfront, hback⟩
      | textElement name hcontributes hcontent h =>
          obtain ⟨front, back, rfl, hfront, hback⟩ := ih h
          exact ⟨_, back, by simp, .textElement name hcontributes hcontent hfront, hback⟩

theorem Meant.content (hbalanced : Balanced pieces) (h : Meant pieces tokens) :
    Content tokens := by
  induction hbalanced generalizing tokens with
  | nil =>
      cases h
      exact .nil
  | emptyTag _ _ ih =>
      cases h with
      | emptyTag _ _ h => exact .emptyTag _ _ (ih h)
  | textElement _ _ _ ih =>
      cases h with
      | textElement _ _ hcontent h => exact .element _ [] hcontent (ih h)
  | element _ _ _ ihinner ih =>
      cases h with
      | startTag _ _ h =>
          obtain ⟨front, back, rfl, hfront, hback⟩ := h.of_append
          cases hback with
          | endTag _ hback => exact .element _ _ (ihinner hfront) (ih hback)

theorem Meant.of_element (hbalanced : Balanced inner)
    (h : Meant (element name attributes inner) tokens) :
    ∃ tokens', tokens = .startTag name attributes :: (tokens' ++ [.endTag name]) ∧
      Meant inner tokens' ∧ Content tokens' := by
  cases h with
  | startTag _ _ h =>
      obtain ⟨front, back, rfl, hfront, hback⟩ := h.of_append
      cases hback with
      | endTag _ hback =>
          cases hback
          exact ⟨front, rfl, hfront, hfront.content hbalanced⟩

/-- One element around pieces that are balanced is meant to be a document. -/
theorem Meant.document (hbalanced : Balanced inner)
    (h : Meant (element name attributes inner) tokens) : Document tokens := by
  obtain ⟨tokens', htokens, -, hcontent⟩ := h.of_element hbalanced
  exact ⟨name, attributes, tokens', htokens, hcontent⟩

theorem Meant.of_part (hwithin : pieces <:+: pieces') (h : Meant pieces' tokens) :
    ∃ tokens', tokens' <:+: tokens ∧ Meant pieces tokens' := by
  obtain ⟨front, back, rfl⟩ := hwithin
  obtain ⟨_, _, rfl, h, -⟩ := h.of_append
  obtain ⟨before, own, rfl, -, hown⟩ := h.of_append
  exact ⟨own, ⟨before, _, rfl⟩, hown⟩

theorem infix_element : inner <:+: element name attributes inner :=
  ⟨[.startTag name attributes], [.endTag name], rfl⟩

/-- What is meant by an element among the pieces is an element with its content. -/
theorem Meant.inside (hbalanced : Balanced inner)
    (hwithin : element name attributes inner <:+: pieces) (h : Meant pieces tokens) :
    ∃ tokens', Inside tokens name attributes tokens' ∧ Meant inner tokens' := by
  obtain ⟨own, hown, h⟩ := h.of_part hwithin
  obtain ⟨tokens', rfl, hmeant, hcontent⟩ := h.of_element hbalanced
  exact ⟨tokens', ⟨hown, hcontent⟩, hmeant⟩

theorem Meant.mem_emptyTag (hmem : Piece.emptyTag name attributes ∈ pieces)
    (h : Meant pieces tokens) : Token.emptyTag name attributes ∈ tokens := by
  have hwithin : [Piece.emptyTag name attributes] <:+: pieces := by
    obtain ⟨front, back, rfl⟩ := List.append_of_mem hmem
    exact ⟨front, back, by simp⟩
  obtain ⟨own, hown, h⟩ := h.of_part hwithin
  cases h with
  | emptyTag _ _ h => exact hown.subset List.mem_cons_self

end Balance

section PlainContent

variable {s rest : Bytes} {tokens : List Token} {c : UInt8}

/-- Nothing in the text has a meaning of its own between tags. -/
structure PlainContent (s : Bytes) : Prop where
  plain : ∀ c ∈ s, c ≠ 60 ∧ c ≠ 38 ∧ c ≠ 13 ∧ (32 ≤ c ∨ isBlank c = true)
  noSectionEnd : ¬[93, 93, 62] <:+: s

theorem Item.of_plain (hless : c ≠ 60) (hampersand : c ≠ 38) (hreturn : c ≠ 13)
    (h : Item (c :: s) tokens rest) : tokens = [.char c] ∧ rest = s := by
  generalize hs : c :: s = s₀ at h
  cases h with
  | char =>
      cases hs
      exact ⟨rfl, rfl⟩
  | lineEnd =>
      cases hs
      exact absurd rfl hreturn
  | reference =>
      cases hs
      exact absurd rfl hampersand
  | startTag | emptyTag | endTag | comment | cdata | instruction =>
      cases hs
      exact absurd rfl hless

theorem content_chars (s : Bytes) : Content (s.map .char) := by
  induction s with
  | nil => exact .nil
  | cons c s ih => exact .char c ih

theorem contributes_of_plain (h : PlainContent s) : Contributes s (s.map .char) := by
  intro rest tokens'
  induction s generalizing tokens' with
  | nil => simp
  | cons c s ih =>
      obtain ⟨⟨hless, hampersand, hreturn, hallowed⟩, hplain⟩ := List.forall_mem_cons.mp h.plain
      have hend : ¬[93, 93, 62] <+: c :: (s ++ 60 :: rest) := by
        -- the tag begins before the section end does, or after it
        rcases s with _ | ⟨d, _ | ⟨e, s⟩⟩
        · simp
        · simp
        · rw [List.cons_append, List.cons_append]
          simp only [List.cons_prefix_cons]
          rintro ⟨rfl, rfl, rfl, -⟩
          exact h.noSectionEnd (List.IsPrefix.isInfix ⟨s, rfl⟩)
      have hs : PlainContent s :=
        ⟨hplain, fun hwithin => h.noSectionEnd (hwithin.trans (List.suffix_cons c s).isInfix)⟩
      rw [List.cons_append, reads_cons_iff]
      constructor
      · rintro ⟨front, rest', tokens'', rfl, hitem, hreads⟩
        obtain ⟨rfl, rfl⟩ := hitem.of_plain hless hampersand hreturn
        obtain ⟨back, rfl, hback⟩ := (ih hs _).mp hreads
        exact ⟨back, rfl, hback⟩
      · rintro ⟨back, rfl, hback⟩
        exact ⟨[.char c], _, _, rfl, .char hless hampersand hreturn hallowed hend,
          (ih hs _).mpr ⟨back, rfl, hback⟩⟩

/-- Spaces and line ends around a text do not put a section end into it. -/
theorem PlainContent.between {blanks blanks' : Bytes} (h : PlainContent s)
    (hblanks : ∀ c ∈ blanks ++ blanks', c = 32 ∨ c = 10) :
    PlainContent (blanks ++ s ++ blanks') := by
  have hplain : ∀ c : UInt8, c = 32 ∨ c = 10 → c ≠ 60 ∧ c ≠ 38 ∧ c ≠ 13 ∧
      (32 ≤ c ∨ isBlank c = true) := by
    rintro c (rfl | rfl) <;> decide
  rw [List.forall_mem_append] at hblanks
  refine ⟨?_, ?_⟩
  · simp only [List.forall_mem_append]
    exact ⟨⟨fun c hc => hplain c (hblanks.1 c hc), h.plain⟩, fun c hc => hplain c (hblanks.2 c hc)⟩
  · have hfront : ¬[93, 93, 62] <:+: blanks ++ s := by
      have hnone := hblanks.1
      clear hblanks
      induction blanks with
      | nil => exact h.noSectionEnd
      | cons c blanks ih =>
          rw [List.forall_mem_cons] at hnone
          rw [List.cons_append, List.infix_cons_iff, not_or]
          refine ⟨?_, ih hnone.2⟩
          rw [List.cons_prefix_cons]
          rintro ⟨rfl, -⟩
          exact absurd hnone.1 (by decide)
    have hnone := hblanks.2
    clear hblanks
    induction blanks' using List.reverseRecOn with
    | nil => rwa [List.append_nil]
    | append_singleton blanks' c ih =>
        rw [List.forall_mem_append, List.forall_mem_singleton] at hnone
        rw [← List.append_assoc, List.infix_concat_iff, not_or]
        refine ⟨?_, ih hnone.1⟩
        rintro ⟨before, heq⟩
        have hlast : some 62 = some c := by simpa using congrArg List.getLast? heq
        rw [← Option.some.inj hlast] at hnone
        exact absurd hnone.2 (by decide)

end PlainContent

end Xml

end Supernova
