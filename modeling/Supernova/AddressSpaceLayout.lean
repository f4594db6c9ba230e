/-
The layout of the generated address space: how the node ids of objects, variables
and methods are put together from names, and which of them the internal prefix of
single-variable nodes gets into.
-/
import Mathlib.Data.List.Induction
import Mathlib.Data.List.Nodup
import Supernova.Configurator

namespace Supernova

attribute [local semireducible] ByteArray.toList.loop

namespace Quasar

section Design

def isBlank (c : UInt8) : Bool := c = 32 || c = 9 || c = 10 || c = 13

/-- The boolean values of the schema: blanks around them do not count. -/
def booleanValue (lexical : Bytes) : Option Bool :=
  let collapsed := ((lexical.dropWhile isBlank).reverse.dropWhile isBlank).reverse
  if collapsed = text "true" ∨ collapsed = text "1" then some true
  else if collapsed = text "false" ∨ collapsed = text "0" then some false
  else none

/-- A boolean attribute as it is written in the design. -/
structure BooleanAttribute where
  lexical : Bytes
  value : Bool
  valid : booleanValue lexical = some value

/-- A class with what its objects have in the address space. -/
structure LayoutClass extends DesignClass where
  singleVariableNode : Option BooleanAttribute
  sourceVariables : List Bytes
  methods : List Bytes

/-- The names of the variables and methods of a class. -/
def LayoutClass.nodeNames (c : LayoutClass) : List Bytes :=
  c.cacheVariables.map CacheVariable.name ++ c.sourceVariables ++ c.methods

/-- What the attribute says. -/
def LayoutClass.isSingle (c : LayoutClass) : Bool :=
  c.singleVariableNode.elim false BooleanAttribute.value

structure LayoutDesign where
  classes : List LayoutClass
  root : List HasObjects

def LayoutDesign.toDesign (design : LayoutDesign) : Design :=
  ⟨design.classes.map LayoutClass.toDesignClass, design.root⟩

/-- Any text is true here, also that of a false attribute. -/
def designBooleanAsCppBoolean : Option BooleanAttribute → Bool
  | none => false
  | some written => written.lexical ≠ []

def isClassSingleVariableNode (c : LayoutClass) : Bool :=
  c.singleVariableNode.map BooleanAttribute.lexical = some (text "true")

def validateClass (c : LayoutClass) : Except Bytes Unit :=
  if isClassSingleVariableNode c then
    if c.nodeNames.length ≠ 1 then
      throw (text "class is singleVariableNode but has " ++ decimal c.nodeNames.length ++
        text " address space children instead of one.")
    else if c.hasObjects ≠ [] then throw (text "object of type 'int' has no len()")
    else pure ⟨⟩
  else pure ⟨⟩

def validateClasses (design : LayoutDesign) : Except Bytes Unit :=
  design.classes.forM validateClass

end Design

section NodeIds

inductive NodeId
  | numeric (namespaceIndex identifier : Nat)
  | string (namespaceIndex : Nat) (identifier : Bytes)
  | other
deriving DecidableEq, Repr

def objectsFolder : NodeId := .numeric 0 85

def singleItemNodeObjectPrefix : Bytes := text "__single_item_node__"

/-- The index is that of the namespace of the server. -/
def makeChildNodeId (namespaceIndex : Nat) (parent : NodeId) (childName : Bytes) :
    Except Bytes NodeId :=
  match parent with
  | .numeric _ _ =>
      if parent = objectsFolder then pure (.string namespaceIndex childName)
      else throw (text "CASUtils::makeChildNodeId: numeric identifier which can't have children.")
  | .string parentIndex identifier =>
      pure (.string parentIndex (identifier ++ text "." ++ childName))
  | .other =>
      throw (text "CASUtils::makeChildNodeId: not applicable for this identifier type")

def decorateSingleVariableNodeName (basicName : Bytes) (isSingleVariableNode : Bool) : Bytes :=
  if isSingleVariableNode then singleItemNodeObjectPrefix ++ basicName else basicName

def fixChildNameWhenSingleNodeClass (c : LayoutClass) (nameByDesign nameByConfig : Bytes) : Bytes :=
  if isClassSingleVariableNode c then nameByConfig else nameByDesign

/-- An object of the address space, with the node ids of its variables and methods by their
names in the design. -/
structure ASObject where
  nodeId : NodeId
  referenced : Bool
  children : List (Bytes × NodeId)
deriving DecidableEq, Repr

/-- A variable or a method, with its name in the design. -/
def constructChild (namespaceIndex : Nat) (c : LayoutClass)
    (effectiveParentNodeIdForChildren : NodeId) (nameByConfig nameByDesign : Bytes) :
    Except Bytes (Bytes × NodeId) := do
  let nodeId ← makeChildNodeId namespaceIndex effectiveParentNodeIdForChildren
    (fixChildNameWhenSingleNodeClass c nameByDesign nameByConfig)
  pure (nameByDesign, nodeId)

/-- The constructor of the generated class. -/
def constructObject (namespaceIndex : Nat) (c : LayoutClass) (parentNodeId : NodeId)
    (name : Bytes) : Except Bytes ASObject := do
  let nodeId ← makeChildNodeId namespaceIndex parentNodeId
    (decorateSingleVariableNodeName name (designBooleanAsCppBoolean c.singleVariableNode))
  let effectiveParentNodeIdForChildren :=
    if isClassSingleVariableNode c then parentNodeId else nodeId
  let children ← c.nodeNames.mapM
    (constructChild namespaceIndex c effectiveParentNodeIdForChildren name)
  pure ⟨nodeId, !isClassSingleVariableNode c, children⟩

end NodeIds

section Tree

/-- The objects right below a parent, from the design and from the configuration. -/
def Child (design : Design) (parent : ParentClass) (config : XmlObject) (className : Bytes)
    (xmlObj : XmlObject) : Prop :=
  (∃ ho ∈ innerObjects design .design parent, ho.className = className ∧
    ∃ name ∈ ho.objects, xmlObj = emptyXmlObject name) ∨
  ∃ ho ∈ innerObjects design .configuration parent, ho.className = className ∧
    xmlObj ∈ config.collection className

/-- An object somewhere below a parent: its class, and the names from the top down to it. -/
inductive Placed (design : LayoutDesign) :
    ParentClass → List Bytes → XmlObject → LayoutClass → List Bytes → Prop
  | child {parent : ParentClass} {above : List Bytes} {config xmlObj : XmlObject} {c : LayoutClass}
      (hc : c ∈ design.classes) (hchild : Child design.toDesign parent config c.name xmlObj) :
      Placed design parent above config c (above ++ [xmlObj.name])
  | deeper {parent : ParentClass} {above path : List Bytes} {config xmlObj : XmlObject}
      {c c' : LayoutClass} (hc : c ∈ design.classes)
      (hchild : Child design.toDesign parent config c.name xmlObj)
      (h : Placed design (.named c.name) (above ++ [xmlObj.name]) xmlObj c' path) :
      Placed design parent above config c' path

structure BuiltObject where
  cls : LayoutClass
  path : List Bytes
  object : ASObject

/-- The same with what the configurator builds: an object gives its own node id to the
objects in it. -/
inductive Builds (design : LayoutDesign) (namespaceIndex : Nat) :
    ParentClass → NodeId → List Bytes → XmlObject → BuiltObject → Prop
  | child {parent : ParentClass} {parentNodeId : NodeId} {above : List Bytes}
      {config xmlObj : XmlObject} {c : LayoutClass} {object : ASObject}
      (hc : c ∈ design.classes) (hchild : Child design.toDesign parent config c.name xmlObj)
      (hobject : constructObject namespaceIndex c parentNodeId xmlObj.name = .ok object) :
      Builds design namespaceIndex parent parentNodeId above config
        ⟨c, above ++ [xmlObj.name], object⟩
  | deeper {parent : ParentClass} {parentNodeId : NodeId} {above : List Bytes}
      {config xmlObj : XmlObject} {c : LayoutClass} {object : ASObject} {built : BuiltObject}
      (hc : c ∈ design.classes) (hchild : Child design.toDesign parent config c.name xmlObj)
      (hobject : constructObject namespaceIndex c parentNodeId xmlObj.name = .ok object)
      (h : Builds design namespaceIndex (.named c.name) object.nodeId (above ++ [xmlObj.name])
        xmlObj built) :
      Builds design namespaceIndex parent parentNodeId above config built

end Tree

section Layout

/-- Names from the top down, with dots between them. -/
def dotted : List Bytes → Bytes
  | [] => []
  | name :: rest => rest.foldl (fun id name => id ++ text "." ++ name) name

/-- Where and how an object and its nodes are, whatever the names are. -/
structure InPlace (namespaceIndex : Nat) (built : BuiltObject) : Prop where
  ordinary : built.cls.isSingle = false → built.object.nodeId =
      .string namespaceIndex (dotted built.path) ∧
    built.object.referenced = true ∧
    built.object.children = built.cls.nodeNames.map fun name =>
      (name, .string namespaceIndex (dotted (built.path ++ [name])))
  single : built.cls.isSingle = true → built.object.referenced = false ∧
    built.object.children = built.cls.nodeNames.map fun name =>
      (name, .string namespaceIndex (dotted built.path))

/-- The layout as it is documented. -/
structure DocumentedLayout (namespaceIndex : Nat) (built : BuiltObject) : Prop extends
    InPlace namespaceIndex built where
  unprefixed : built.cls.isSingle = false → ∀ identifier,
    built.object.nodeId = .string namespaceIndex identifier →
      ¬singleItemNodeObjectPrefix <:+: identifier

/-- The whole promise: all parts of the toolchain decide alike what a single-variable node
is, and each object has its place. -/
structure LaidOut (design : LayoutDesign) (namespaceIndex : Nat) (config : XmlObject) : Prop where
  alike : ∀ c ∈ design.classes,
    designBooleanAsCppBoolean c.singleVariableNode = isClassSingleVariableNode c
  placed : ∀ built, Builds design namespaceIndex .root objectsFolder [] config built →
    DocumentedLayout namespaceIndex built

/-- The designs and configurations that are laid out so: the attribute is left out or written
in one way, and no ordinary object is below or has a name with the prefix in it. -/
structure Canonical (design : LayoutDesign) (config : XmlObject) : Prop where
  attributes : ∀ c ∈ design.classes, c.singleVariableNode.map BooleanAttribute.lexical = none ∨
    c.singleVariableNode.map BooleanAttribute.lexical = some (text "true")
  names : ∀ c path, Placed design .root [] config c path → c.isSingle = false →
    ∀ name ∈ path, ¬singleItemNodeObjectPrefix <:+: name

end Layout

section Names

/-- What has no separator in it lies on one side of a separator. -/
theorem infix_append_cons_iff {α : Type} {l a b : List α} {x : α} (hx : x ∉ l) :
    l <:+: a ++ x :: b ↔ l <:+: a ∨ l <:+: b := by
  constructor
  · rintro ⟨before, after, heq⟩
    rcases List.append_eq_append_iff.mp heq with ⟨mid, ha, hmid⟩ | ⟨mid, hl, hb⟩
    · exact .inl ⟨before, mid, ha.symm⟩
    · rcases mid with _ | ⟨y, mid⟩
      · rw [List.append_nil] at hl
        exact .inl ⟨before, [], by rw [List.append_nil, hl]⟩
      · rw [List.cons_append, List.cons.injEq] at hb
        obtain ⟨rfl, rfl⟩ := hb
        rcases List.append_eq_append_iff.mp hl with ⟨inner, ha, hinner⟩ | ⟨inner, hbefore, hinner⟩
        · exact absurd (by rw [hinner]; simp) hx
        · rcases inner with _ | ⟨z, inner⟩
          · rw [List.nil_append] at hinner
            exact absurd (by rw [← hinner]; simp) hx
          · rw [List.cons_append, List.cons.injEq] at hinner
            exact .inr ⟨inner, after, by rw [hinner.2]⟩
  · rintro (⟨before, after, rfl⟩ | ⟨before, after, rfl⟩)
    · exact ⟨before, after ++ x :: b, by simp⟩
    · exact ⟨a ++ x :: before, after, by simp⟩

theorem dotted_append {above : List Bytes} (name : Bytes) (habove : above ≠ []) :
    dotted (above ++ [name]) = dotted above ++ text "." ++ name := by
  cases above with
  | nil => exact absurd rfl habove
  | cons first rest => simp [dotted]

/-- Names with dots between them contain what one of the names contains, if it has no dot. -/
theorem infix_dotted_iff {l : Bytes} (hl : l ≠ []) (hdot : 46 ∉ l) (path : List Bytes) :
    l <:+: dotted path ↔ ∃ name ∈ path, l <:+: name := by
  induction path using List.reverseRecOn with
  | nil => simp [dotted, hl]
  | append_singleton above name ih =>
      by_cases habove : above = []
      · simp [habove, dotted]
      · have hsplit : dotted above ++ text "." ++ name = dotted above ++ 46 :: name := by
          have hseparator : text "." = [46] := by decide
          rw [hseparator, List.append_assoc, List.singleton_append]
        rw [dotted_append name habove, hsplit, infix_append_cons_iff hdot, ih]
        simp [or_and_right, exists_or]

end Names

section Construction

variable {namespaceIndex : Nat} {c : LayoutClass} {above : List Bytes} {name : Bytes}

/-- The node id of an ordinary object, or of the folder above all objects. -/
def nodeIdOf (namespaceIndex : Nat) (above : List Bytes) : NodeId :=
  if above = [] then objectsFolder else .string namespaceIndex (dotted above)

theorem makeChildNodeId_nodeIdOf (childName : Bytes) :
    makeChildNodeId namespaceIndex (nodeIdOf namespaceIndex above) childName =
      .ok (nodeIdOf namespaceIndex (above ++ [childName])) := by
  by_cases habove : above = []
  · subst habove
    rfl
  · rw [nodeIdOf, if_neg habove, nodeIdOf, if_neg (by simp), dotted_append childName habove]
    rfl

theorem mapM_constructChild {parentNodeId : NodeId} {nodeIdAt : Bytes → NodeId}
    (h : ∀ nameByDesign, makeChildNodeId namespaceIndex parentNodeId
      (fixChildNameWhenSingleNodeClass c nameByDesign name) = .ok (nodeIdAt nameByDesign))
    (nodeNames : List Bytes) :
    nodeNames.mapM (constructChild namespaceIndex c parentNodeId name) =
      .ok (nodeNames.map fun nameByDesign => (nameByDesign, nodeIdAt nameByDesign)) := by
  refine mapM_eq_ok.2 (List.forall₂_map_right_iff.mpr (List.forall₂_same.mpr ?_))
  intro nameByDesign _
  rw [constructChild, except_bind_eq_ok]
  exact ⟨_, h nameByDesign, rfl⟩

/-- Where both decisions on the class are no, its objects and their nodes are in place. -/
theorem constructObject_ordinary
    (hcpp : designBooleanAsCppBoolean c.singleVariableNode = false)
    (hsingle : isClassSingleVariableNode c = false) :
    constructObject namespaceIndex c (nodeIdOf namespaceIndex above) name =
      .ok ⟨nodeIdOf namespaceIndex (above ++ [name]), true, c.nodeNames.map fun nameByDesign =>
        (nameByDesign, nodeIdOf namespaceIndex (above ++ [name] ++ [nameByDesign]))⟩ := by
  have hfix : ∀ nameByDesign, fixChildNameWhenSingleNodeClass c nameByDesign name =
      nameByDesign := by
    simp [fixChildNameWhenSingleNodeClass, hsingle]
  rw [constructObject, except_bind_eq_ok, hcpp, hsingle]
  refine ⟨_, makeChildNodeId_nodeIdOf name, except_bind_eq_ok.2 ⟨_, ?_, rfl⟩⟩
  refine mapM_constructChild (fun nameByDesign => ?_) c.nodeNames
  rw [hfix]
  exact makeChildNodeId_nodeIdOf nameByDesign

/-- Where both are yes, the object is out of sight and its only node in its place. -/
theorem constructObject_single (hcpp : designBooleanAsCppBoolean c.singleVariableNode = true)
    (hsingle : isClassSingleVariableNode c = true) :
    constructObject namespaceIndex c (nodeIdOf namespaceIndex above) name =
      .ok ⟨nodeIdOf namespaceIndex (above ++ [singleItemNodeObjectPrefix ++ name]), false,
        c.nodeNames.map fun nameByDesign =>
          (nameByDesign, nodeIdOf namespaceIndex (above ++ [name]))⟩ := by
  have hfix : ∀ nameByDesign, fixChildNameWhenSingleNodeClass c nameByDesign name = name := by
    simp [fixChildNameWhenSingleNodeClass, hsingle]
  rw [constructObject, except_bind_eq_ok, hcpp, hsingle]
  refine ⟨_, makeChildNodeId_nodeIdOf _, except_bind_eq_ok.2 ⟨_, ?_, rfl⟩⟩
  refine mapM_constructChild (fun nameByDesign => ?_) c.nodeNames
  rw [hfix]
  exact makeChildNodeId_nodeIdOf name

/-- However the decisions on the class come out, the object is constructed. -/
theorem exists_constructObject : ∃ object above',
    constructObject namespaceIndex c (nodeIdOf namespaceIndex above) name = .ok object ∧
      object.nodeId = nodeIdOf namespaceIndex above' := by
  have heffective : ∃ above', (if isClassSingleVariableNode c then
      nodeIdOf namespaceIndex above
    else nodeIdOf namespaceIndex (above ++ [decorateSingleVariableNodeName name
      (designBooleanAsCppBoolean c.singleVariableNode)])) = nodeIdOf namespaceIndex above' := by
    split_ifs
    · exact ⟨_, rfl⟩
    · exact ⟨_, rfl⟩
  obtain ⟨above', heffective⟩ := heffective
  have hchild : ∀ nameByDesign, makeChildNodeId namespaceIndex (nodeIdOf namespaceIndex above')
      (fixChildNameWhenSingleNodeClass c nameByDesign name) =
      .ok (nodeIdOf namespaceIndex
        (above' ++ [fixChildNameWhenSingleNodeClass c nameByDesign name])) :=
    fun nameByDesign => makeChildNodeId_nodeIdOf _
  have hobject : constructObject namespaceIndex c (nodeIdOf namespaceIndex above) name =
      .ok ⟨nodeIdOf namespaceIndex (above ++ [decorateSingleVariableNodeName name
          (designBooleanAsCppBoolean c.singleVariableNode)]), !isClassSingleVariableNode c,
        c.nodeNames.map fun nameByDesign => (nameByDesign, nodeIdOf namespaceIndex
          (above' ++ [fixChildNameWhenSingleNodeClass c nameByDesign name]))⟩ := by
    refine except_bind_eq_ok.2 ⟨_, makeChildNodeId_nodeIdOf _, ?_⟩
    rw [heffective]
    exact except_bind_eq_ok.2 ⟨_, mapM_constructChild hchild c.nodeNames, rfl⟩
  exact ⟨_, _, hobject, rfl⟩

end Construction

section Objects

variable {design : LayoutDesign} {namespaceIndex : Nat} {parent : ParentClass}
  {parentNodeId : NodeId} {above path : List Bytes} {config : XmlObject} {c : LayoutClass}
  {built : BuiltObject}

theorem placed_of_builds
    (h : Builds design namespaceIndex parent parentNodeId above config built) :
    Placed design parent above config built.cls built.path := by
  induction h with
  | child hc hchild _ => exact .child hc hchild
  | deeper hc hchild _ _ ih => exact .deeper hc hchild ih

theorem builds_of_placed (h : Placed design parent above config c path) (outer : List Bytes) :
    ∃ object, Builds design namespaceIndex parent (nodeIdOf namespaceIndex outer) above config
      ⟨c, path, object⟩ := by
  induction h generalizing outer with
  | child hc hchild =>
      obtain ⟨object, _, hobject, -⟩ := exists_constructObject
      exact ⟨object, .child hc hchild hobject⟩
  | deeper hc hchild _ ih =>
      obtain ⟨object, outer', hobject, hnodeId⟩ := exists_constructObject
      obtain ⟨inner, hinner⟩ := ih outer'
      exact ⟨inner, .deeper hc hchild hobject (hnodeId ▸ hinner)⟩

/-- Where the attribute is left out or written in the one way, all agree on it. -/
theorem decisions_of_attribute
    (h : c.singleVariableNode.map BooleanAttribute.lexical = none ∨
      c.singleVariableNode.map BooleanAttribute.lexical = some (text "true")) :
    designBooleanAsCppBoolean c.singleVariableNode = c.isSingle ∧
      isClassSingleVariableNode c = c.isSingle := by
  rw [isClassSingleVariableNode, LayoutClass.isSingle]
  rcases hwritten : c.singleVariableNode with _ | ⟨lexical, value, valid⟩
  · exact ⟨rfl, by simp⟩
  · rw [hwritten] at h
    simp only [Option.map_some, reduceCtorEq, Option.some.injEq, false_or] at h
    subst h
    have htrue : booleanValue (text "true") = some true := by decide
    rw [htrue] at valid
    cases valid
    have hwritten : text "true" ≠ [] := by decide
    exact ⟨by simp [designBooleanAsCppBoolean, hwritten], by simp⟩

/-- A written attribute is not empty, so that it is always true for the constructor. -/
theorem attribute_of_alike (h : designBooleanAsCppBoolean c.singleVariableNode =
    isClassSingleVariableNode c) :
    c.singleVariableNode.map BooleanAttribute.lexical = none ∨
      c.singleVariableNode.map BooleanAttribute.lexical = some (text "true") := by
  rw [isClassSingleVariableNode] at h
  rcases hwritten : c.singleVariableNode with _ | ⟨lexical, value, valid⟩
  · exact .inl rfl
  · rw [hwritten] at h
    have hlexical : lexical ≠ [] := by
      rintro rfl
      have hnone : booleanValue [] = none := by decide
      rw [hnone] at valid
      cases valid
    refine .inr ?_
    simpa [designBooleanAsCppBoolean, hlexical] using h

theorem hasObjects_of_validate {u : Unit} (h : validateClass c = .ok u)
    (hsingle : isClassSingleVariableNode c = true) : c.hasObjects = [] := by
  rw [validateClass, if_pos hsingle] at h
  split_ifs at h with hcount hobjects
  · by_contra hnot
    exact hobjects hnot

/-- Nothing is below an object of a single-variable node. -/
theorem not_child_of_single {xmlObj : XmlObject} {className : Bytes}
    (hnames : ValidNames design.toDesign) (hc : c ∈ design.classes) (hobjects : c.hasObjects = []) :
    ¬Child design.toDesign (.named c.name) config className xmlObj := by
  have hnone : objectifyHasObjects design.toDesign (.named c.name) = [] := by
    rw [objectifyHasObjects, List.flatMap_eq_nil_iff]
    intro d hd
    obtain ⟨hd, hname⟩ := List.mem_filter.mp hd
    have hsame : d = c.toDesignClass := List.inj_on_of_nodup_map hnames.classKey hd
      (List.mem_map_of_mem hc) (of_decide_eq_true hname)
    rw [hsame, hobjects]
  rintro (⟨ho, hho, -⟩ | ⟨ho, hho, -⟩)
  · rw [innerObjects, hnone] at hho
    cases hho
  · rw [innerObjects, hnone] at hho
    cases hho

theorem child_of_builds
    (h : Builds design namespaceIndex parent parentNodeId above config built) :
    ∃ className xmlObj, Child design.toDesign parent config className xmlObj := by
  cases h with
  | child _ hchild _ => exact ⟨_, _, hchild⟩
  | deeper _ hchild _ _ => exact ⟨_, _, hchild⟩

theorem nodeIdOf_append (name : Bytes) :
    nodeIdOf namespaceIndex (above ++ [name]) =
      .string namespaceIndex (dotted (above ++ [name])) := by
  rw [nodeIdOf, if_neg (by simp)]

end Objects

section Documented

variable {design : LayoutDesign} {namespaceIndex : Nat} {parent : ParentClass}
  {parentNodeId : NodeId} {above : List Bytes} {config : XmlObject} {built : BuiltObject}

theorem inPlace_of_constructObject {c : LayoutClass} {name : Bytes} {object : ASObject}
    (hattribute : c.singleVariableNode.map BooleanAttribute.lexical = none ∨
      c.singleVariableNode.map BooleanAttribute.lexical = some (text "true"))
    (hobject : constructObject namespaceIndex c (nodeIdOf namespaceIndex above) name =
      .ok object) :
    InPlace namespaceIndex ⟨c, above ++ [name], object⟩ := by
  obtain ⟨hcpp, hdecided⟩ := decisions_of_attribute hattribute
  constructor
  · intro hsingle
    rw [constructObject_ordinary (hcpp.trans hsingle) (hdecided.trans hsingle)] at hobject
    cases hobject
    refine ⟨nodeIdOf_append name, rfl, List.map_congr_left fun nameByDesign _ => ?_⟩
    rw [nodeIdOf_append]
  · intro hsingle
    rw [constructObject_single (hcpp.trans hsingle) (hdecided.trans hsingle)] at hobject
    cases hobject
    refine ⟨rfl, List.map_congr_left fun nameByDesign _ => ?_⟩
    rw [nodeIdOf_append]

/-- Only ordinary objects have objects below them, and these give the right node id to them. -/
theorem inPlace_of_builds (hnames : ValidNames design.toDesign)
    (hclasses : validateClasses design = .ok ⟨⟩)
    (hattributes : ∀ c ∈ design.classes,
      c.singleVariableNode.map BooleanAttribute.lexical = none ∨
        c.singleVariableNode.map BooleanAttribute.lexical = some (text "true"))
    (h : Builds design namespaceIndex parent parentNodeId above config built)
    (hparent : parentNodeId = nodeIdOf namespaceIndex above) : InPlace namespaceIndex built := by
  induction h with
  | child hc hchild hobject =>
      subst hparent
      exact inPlace_of_constructObject (hattributes _ hc) hobject
  | @deeper _ _ _ _ _ c _ _ hc hchild hobject h ih =>
      subst hparent
      obtain ⟨hcpp, hdecided⟩ := decisions_of_attribute (hattributes _ hc)
      rcases hsingle : c.isSingle with _ | _
      · rw [constructObject_ordinary (hcpp.trans hsingle) (hdecided.trans hsingle)] at hobject
        cases hobject
        exact ih rfl
      · obtain ⟨_, _, hinner⟩ := child_of_builds h
        have hobjects := hasObjects_of_validate (forM_eq_ok.1 hclasses c hc)
          (hdecided.trans hsingle)
        exact absurd hinner (not_child_of_single hnames hc hobjects)

theorem prefix_infix_dotted_iff (path : List Bytes) :
    singleItemNodeObjectPrefix <:+: dotted path ↔
      ∃ name ∈ path, singleItemNodeObjectPrefix <:+: name :=
  have hne : singleItemNodeObjectPrefix ≠ [] := by decide
  have hdot : (46 : UInt8) ∉ singleItemNodeObjectPrefix := by decide
  infix_dotted_iff hne hdot path

/-- Boards of one variable each, with the attribute as it is given. -/
def board (singleVariableNode : Option BooleanAttribute) : LayoutClass :=
  ⟨⟨text "Board", false, [⟨text "voltage", .valueAndStatus⟩], [], []⟩, singleVariableNode, [], []⟩

def boards (singleVariableNode : Option BooleanAttribute) : LayoutDesign :=
  ⟨[board singleVariableNode], [⟨text "Board", .configuration, []⟩]⟩

def boardConfig : XmlObject :=
  ⟨[], [(text "Board", emptyXmlObject (text "B1"))], 0, [⟨.element (text "Board"), 0⟩]⟩

end Documented

end Quasar

end Supernova
