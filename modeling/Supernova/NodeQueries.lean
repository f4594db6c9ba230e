/-
Queries for nodes of the address space: the nodes of an object tree, and the unreferenced
nodes, that have a class, a C++ type and an id that matches a pattern are appended to a vector.
-/
import Supernova.StandardString

namespace Supernova

namespace AddressSpace

section Nodes

/-- The classes of nodes that are not objects. -/
inductive LeafClass
  | variableNode
  | methodNode
  | objectTypeNode
  | variableTypeNode
  | referenceTypeNode
  | dataTypeNode
  | viewNode
deriving DecidableEq, Repr

inductive NodeClass
  | objectNode
  | leafNode (leafClass : LeafClass)
deriving DecidableEq, Repr

inductive Identifier
  | numeric (identifier : Nat)
  | string (identifier : Bytes)
  | guid (identifier : Bytes)
  | byteString (identifier : Bytes)
deriving DecidableEq, Repr

/-- A node with its C++ type; objects come with the targets of their forward references. -/
inductive UaNode (κ : Type)
  | object (nodeId : Identifier) (cppType : κ) (targets : List (Option (UaNode κ)))
  | leaf (leafClass : LeafClass) (nodeId : Identifier) (cppType : κ)

variable {κ : Type}

namespace UaNode

def nodeClass : UaNode κ → NodeClass
  | object _ _ _ => .objectNode
  | leaf leafClass _ _ => .leafNode leafClass

def nodeId : UaNode κ → Identifier
  | object nodeId _ _ => nodeId
  | leaf _ nodeId _ => nodeId

def cppType : UaNode κ → κ
  | object _ cppType _ => cppType
  | leaf _ _ cppType => cppType

end UaNode

mutual

/-- The nodes of the tree below a pointer, which may be null. -/
def nodesOf : Option (UaNode κ) → List (UaNode κ)
  | none => []
  | some node => node.nodes

def UaNode.nodes : UaNode κ → List (UaNode κ)
  | .object nodeId cppType targets => .object nodeId cppType targets :: nodesOfAll targets
  | .leaf leafClass nodeId cppType => [.leaf leafClass nodeId cppType]

def nodesOfAll : List (Option (UaNode κ)) → List (UaNode κ)
  | [] => []
  | target :: targets => nodesOf target ++ nodesOfAll targets

end

end Nodes

section Queries

variable {κ : Type}

/-- The compiled back ends: the UA SDK or open62541. -/
inductive Backend
  | uaSdk
  | open62541
deriving DecidableEq, Repr

/-- How a call of a query comes out; `undefined` is the end of a function that returns no
value, or a signed overflow. -/
inductive Outcome (κ : Type)
  | returned (count : Nat) (storage : List (UaNode κ))
  | aborted
  | undefined

/-- What a traversal returns, if it does. -/
def Outcome.ofFound : Option (Nat × List (UaNode κ)) → Outcome κ
  | some (count, storage) => .returned count storage
  | none => .undefined

/-- The sum of two `unsigned int`. -/
def addUnsigned (a b : Nat) : Nat := (a + b) % 2 ^ 32

/-- The signed value of an `unsigned int`. -/
def asInt (n : Nat) : Int := if n < 2 ^ 31 then n else n - 2 ^ 32

def isInt (n : Int) : Bool := -2 ^ 31 ≤ n && n < 2 ^ 31

variable (isT : κ → Bool) (expression : Bytes → Bool)

/-- The id is a string that matches, and the `dynamic_cast` succeeds. -/
def UaNode.idAndTypeMatch (node : UaNode κ) : Bool :=
  match node.nodeId with
  | .string sId => expression sId && isT node.cppType
  | _ => false

def UaNode.matchesQuery (nodeClass : NodeClass) (node : UaNode κ) : Bool :=
  node.nodeClass = nodeClass && node.idAndTypeMatch isT expression

section Variables

variable (backend : Backend)

mutual

/-- `none` when an object is met with the back end that has no code for it. -/
def findVariablesByRegex (startNode : Option (UaNode κ)) (storage : List (UaNode κ)) :
    Option (Nat × List (UaNode κ)) :=
  match startNode with
  | none => some (0, storage)
  | some node => findVariablesFrom node storage

/-- The query behind its check for a null pointer. -/
def findVariablesFrom (startNode : UaNode κ) (storage : List (UaNode κ)) :
    Option (Nat × List (UaNode κ)) :=
  match startNode with
  | .leaf leafClass nodeId cppType =>
      let node : UaNode κ := .leaf leafClass nodeId cppType
      if leafClass = .variableNode && node.idAndTypeMatch isT expression then
        some (1, storage ++ [node])
      else some (0, storage)
  | .object _ _ targets =>
      match backend with
      | .uaSdk => findVariablesInTargets targets 0 storage
      | .open62541 => none

def findVariablesInTargets (targets : List (Option (UaNode κ))) (nMatched : Nat)
    (storage : List (UaNode κ)) : Option (Nat × List (UaNode κ)) :=
  match targets with
  | [] => some (nMatched, storage)
  | target :: targets => do
      let (count, storage) ← findVariablesByRegex target storage
      findVariablesInTargets targets (addUnsigned nMatched count) storage

end

end Variables

mutual

/-- The back ends differ in how they list the targets of the references only. -/
def findAllByRegex (nodeClass : NodeClass) (startNode : Option (UaNode κ))
    (storage : List (UaNode κ)) : Nat × List (UaNode κ) :=
  match startNode with
  | none => (0, storage)
  | some node => findAllFrom nodeClass node storage

def findAllFrom (nodeClass : NodeClass) (startNode : UaNode κ) (storage : List (UaNode κ)) :
    Nat × List (UaNode κ) :=
  match startNode with
  | .leaf leafClass nodeId cppType =>
      let node : UaNode κ := .leaf leafClass nodeId cppType
      if node.matchesQuery isT expression nodeClass then (1, storage ++ [node]) else (0, storage)
  | .object nodeId cppType targets =>
      let node : UaNode κ := .object nodeId cppType targets
      let storage :=
        if node.matchesQuery isT expression nodeClass then storage ++ [node] else storage
      -- What has been added for the node itself is not part of the result.
      findAllInTargets nodeClass targets 0 storage

def findAllInTargets (nodeClass : NodeClass) (targets : List (Option (UaNode κ)))
    (nMatched : Nat) (storage : List (UaNode κ)) : Nat × List (UaNode κ) :=
  match targets with
  | [] => (nMatched, storage)
  | target :: targets =>
      let found := findAllByRegex nodeClass target storage
      findAllInTargets nodeClass targets (addUnsigned nMatched found.1) found.2

end

/-- A turn of the loop over the unreferenced nodes; `none` when its `int` overflows. -/
def addUnreferenced (found : Int × List (UaNode κ)) (node : UaNode κ) :
    Option (Int × List (UaNode κ)) :=
  if node.matchesQuery isT expression .objectNode then
    if isInt (found.1 + 1) then some (found.1 + 1, found.2 ++ [node]) else none
  else some found

def findUnreferenced (unreferencedNodes : List (UaNode κ)) (storage : List (UaNode κ)) :
    Option (Int × List (UaNode κ)) :=
  unreferencedNodes.foldlM (addUnreferenced isT expression) (0, storage)

/-- What the queries ask a node manager for. -/
structure ASNodeManager (κ : Type) where
  objectsFolderNode : Option (UaNode κ)
  unreferencedNodes : List (UaNode κ)

variable (compile : Bytes → Option (Bytes → Bool))

def findVariablesByPattern (backend : Backend) (startNode : Option (UaNode κ)) (pattern : Bytes)
    (storage : List (UaNode κ)) : Outcome κ :=
  if startNode.isNone then .returned 0 storage
  else
    match compile pattern with
    | none => .aborted
    | some expression =>
        .ofFound (findVariablesByRegex isT expression backend startNode storage)

def findAllByPattern (startNode : Option (UaNode κ)) (nodeClass : NodeClass) (pattern : Bytes)
    (storage : List (UaNode κ)) : Outcome κ :=
  if startNode.isNone then .returned 0 storage
  else
    match compile pattern with
    | none => .aborted
    | some expression =>
        let found := findAllByRegex isT expression nodeClass startNode storage
        .returned found.1 found.2

def findAllObjectsByPatternInNodeManager (nm : ASNodeManager κ) (pattern : Bytes)
    (storage : List (UaNode κ)) : Outcome κ :=
  match compile pattern with
  | none => .aborted
  | some expression =>
      let found := findAllByRegex isT expression .objectNode nm.objectsFolderNode storage
      let numReferenced := asInt found.1
      match findUnreferenced isT expression nm.unreferencedNodes found.2 with
      | none => .undefined
      | some (numUnreferenced, storage) =>
          if isInt (numReferenced + numUnreferenced) then
            .returned ((numReferenced + numUnreferenced) % 2 ^ 32).toNat storage
          else .undefined

end Queries

section Promise

variable {κ : Type}

/-- A call of one of the queries, on one of the back ends. -/
inductive Query (κ : Type)
  | variablesByPattern (backend : Backend) (startNode : Option (UaNode κ))
  | allByPattern (startNode : Option (UaNode κ)) (nodeClass : NodeClass)
  | objectsInNodeManager (nm : ASNodeManager κ)

variable (isT : κ → Bool) (compile : Bytes → Option (Bytes → Bool)) (expression : Bytes → Bool)

namespace Query

def run (pattern : Bytes) (storage : List (UaNode κ)) : Query κ → Outcome κ
  | variablesByPattern backend startNode =>
      findVariablesByPattern isT compile backend startNode pattern storage
  | allByPattern startNode nodeClass =>
      findAllByPattern isT compile startNode nodeClass pattern storage
  | objectsInNodeManager nm => findAllObjectsByPatternInNodeManager isT compile nm pattern storage

/-- The class that is asked for. -/
def nodeClass : Query κ → NodeClass
  | variablesByPattern _ _ => .leafNode .variableNode
  | allByPattern _ nodeClass => nodeClass
  | objectsInNodeManager _ => .objectNode

/-- The nodes of the tree that the query goes through. -/
def treeNodes : Query κ → List (UaNode κ)
  | variablesByPattern _ startNode => nodesOf startNode
  | allByPattern startNode _ => nodesOf startNode
  | objectsInNodeManager nm => nodesOf nm.objectsFolderNode

def unreferencedNodes : Query κ → List (UaNode κ)
  | variablesByPattern _ _ => []
  | allByPattern _ _ => []
  | objectsInNodeManager nm => nm.unreferencedNodes

/-- The nodes to be found. -/
def expected (query : Query κ) : List (UaNode κ) :=
  (query.treeNodes ++ query.unreferencedNodes).filter
    (·.matchesQuery isT expression query.nodeClass)

/-- The nodes to be found are appended once each and nothing else is, and they are counted. -/
def CountsRight (pattern : Bytes) (storage : List (UaNode κ)) (query : Query κ) : Prop :=
  ∃ appended count,
    query.run isT compile pattern storage = .returned count (storage ++ appended) ∧
    appended.Perm (query.expected isT expression) ∧ count = appended.length

/-- No object of the tree is to be found, variables are not looked for in an object with
open62541, and the results fit their types. -/
def Favourable (query : Query κ) : Prop :=
  (∀ node ∈ query.treeNodes, node.nodeClass = .objectNode →
    node.matchesQuery isT expression query.nodeClass = false) ∧
  (query.expected isT expression).length < 2 ^ 32 ∧
  (query.unreferencedNodes.countP (·.matchesQuery isT expression query.nodeClass)) < 2 ^ 31 ∧
  ∀ startNode, query = .variablesByPattern .open62541 (some startNode) →
    startNode.nodeClass ≠ .objectNode

end Query

end Promise

section Counting

variable {κ : Type} {isT : κ → Bool} {expression : Bytes → Bool}

/-- The nodes that add to the result when they are found. -/
def UaNode.isCounted (isT : κ → Bool) (expression : Bytes → Bool) (nodeClass : NodeClass)
    (node : UaNode κ) : Bool :=
  node.matchesQuery isT expression nodeClass && node.nodeClass ≠ .objectNode

theorem isCounted_object (nodeClass : NodeClass) (nodeId : Identifier) (cppType : κ)
    (targets : List (Option (UaNode κ))) :
    (UaNode.object nodeId cppType targets).isCounted isT expression nodeClass = false :=
  Bool.and_false _

theorem isCounted_leaf (nodeClass : NodeClass) (leafClass : LeafClass) (nodeId : Identifier)
    (cppType : κ) : (UaNode.leaf leafClass nodeId cppType).isCounted isT expression nodeClass =
      (UaNode.leaf leafClass nodeId cppType).matchesQuery isT expression nodeClass :=
  Bool.and_true _

theorem addUnsigned_mod (a b : Nat) :
    addUnsigned (a % 2 ^ 32) (b % 2 ^ 32) = (a + b) % 2 ^ 32 := by
  rw [addUnsigned, ← Nat.add_mod]

mutual

/-- All nodes that match are appended, and those that are not objects are counted. -/
theorem findAllByRegex_eq (nodeClass : NodeClass) (startNode : Option (UaNode κ))
    (storage : List (UaNode κ)) : findAllByRegex isT expression nodeClass startNode storage =
      ((nodesOf startNode).countP (·.isCounted isT expression nodeClass) % 2 ^ 32,
        storage ++ (nodesOf startNode).filter (·.matchesQuery isT expression nodeClass)) := by
  match startNode with
  | none => simp [findAllByRegex, nodesOf]
  | some node =>
      rw [findAllByRegex, nodesOf]
      exact findAllFrom_eq nodeClass node storage

theorem findAllFrom_eq (nodeClass : NodeClass) (startNode : UaNode κ)
    (storage : List (UaNode κ)) : findAllFrom isT expression nodeClass startNode storage =
      (startNode.nodes.countP (·.isCounted isT expression nodeClass) % 2 ^ 32,
        storage ++ startNode.nodes.filter (·.matchesQuery isT expression nodeClass)) := by
  match startNode with
  | .leaf leafClass nodeId cppType =>
      rw [findAllFrom, UaNode.nodes]
      by_cases hmatch :
          (UaNode.leaf leafClass nodeId cppType).matchesQuery isT expression nodeClass = true
      · simp [hmatch, isCounted_leaf]
      · simp [hmatch, isCounted_leaf]
  | .object nodeId cppType targets =>
      have htargets := fun storage => findAllInTargets_eq nodeClass targets 0 storage
      simp only [Nat.zero_add, Nat.zero_mod] at htargets
      rw [findAllFrom, UaNode.nodes, htargets, List.countP_cons, isCounted_object,
        List.filter_cons]
      by_cases hmatch :
          (UaNode.object nodeId cppType targets).matchesQuery isT expression nodeClass = true
      · simp [hmatch]
      · simp [hmatch]

theorem findAllInTargets_eq (nodeClass : NodeClass) (targets : List (Option (UaNode κ)))
    (nMatched : Nat) (storage : List (UaNode κ)) :
    findAllInTargets isT expression nodeClass targets (nMatched % 2 ^ 32) storage =
      ((nMatched + (nodesOfAll targets).countP (·.isCounted isT expression nodeClass)) % 2 ^ 32,
        storage ++ (nodesOfAll targets).filter (·.matchesQuery isT expression nodeClass)) := by
  match targets with
  | [] => simp [findAllInTargets, nodesOfAll]
  | target :: targets =>
      rw [findAllInTargets, findAllByRegex_eq nodeClass target, addUnsigned_mod,
        findAllInTargets_eq nodeClass targets, nodesOfAll, List.countP_append,
        List.filter_append, Nat.add_assoc, List.append_assoc]

end

theorem variable_matchesQuery (leafClass : LeafClass) (nodeId : Identifier) (cppType : κ) :
    (leafClass = .variableNode && (UaNode.leaf leafClass nodeId cppType).idAndTypeMatch isT
      expression) = (UaNode.leaf leafClass nodeId cppType).matchesQuery isT expression
        (.leafNode .variableNode) := by
  simp [UaNode.matchesQuery, UaNode.nodeClass]

theorem object_not_variable (nodeId : Identifier) (cppType : κ)
    (targets : List (Option (UaNode κ))) :
    (UaNode.object nodeId cppType targets).matchesQuery isT expression
      (.leafNode .variableNode) = false := by
  simp [UaNode.matchesQuery, UaNode.nodeClass]

mutual

/-- Where it has code for objects, the query for variables is the general one. -/
theorem findVariablesByRegex_eq_all (startNode : Option (UaNode κ))
    (storage : List (UaNode κ)) :
    findVariablesByRegex isT expression .uaSdk startNode storage =
      some (findAllByRegex isT expression (.leafNode .variableNode) startNode storage) := by
  match startNode with
  | none => rfl
  | some node =>
      rw [findVariablesByRegex, findAllByRegex]
      exact findVariablesFrom_eq_all node storage

theorem findVariablesFrom_eq_all (startNode : UaNode κ) (storage : List (UaNode κ)) :
    findVariablesFrom isT expression .uaSdk startNode storage =
      some (findAllFrom isT expression (.leafNode .variableNode) startNode storage) := by
  match startNode with
  | .leaf leafClass nodeId cppType =>
      rw [findVariablesFrom, findAllFrom, variable_matchesQuery]
      exact (apply_ite some _ _ _).symm
  | .object nodeId cppType targets =>
      have hnot : ¬(UaNode.object nodeId cppType targets).matchesQuery isT expression
          (.leafNode .variableNode) = true := by
        simp [object_not_variable]
      rw [findVariablesFrom, findAllFrom, if_neg hnot]
      exact findVariablesInTargets_eq_all targets 0 storage

theorem findVariablesInTargets_eq_all (targets : List (Option (UaNode κ))) (nMatched : Nat)
    (storage : List (UaNode κ)) :
    findVariablesInTargets isT expression .uaSdk targets nMatched storage =
      some (findAllInTargets isT expression (.leafNode .variableNode) targets nMatched
        storage) := by
  match targets with
  | [] => rfl
  | target :: targets =>
      rw [findVariablesInTargets, findAllInTargets, findVariablesByRegex_eq_all target]
      exact findVariablesInTargets_eq_all targets _ _

end

/-- The back ends differ only in what they do with an object. -/
theorem findVariablesByRegex_open62541 (startNode : UaNode κ) (storage : List (UaNode κ)) :
    findVariablesByRegex isT expression .open62541 (some startNode) storage =
      if startNode.nodeClass = .objectNode then none
      else findVariablesByRegex isT expression .uaSdk (some startNode) storage := by
  cases startNode with
  | object nodeId cppType targets => rfl
  | leaf leafClass nodeId cppType => rfl

theorem foldlM_addUnreferenced (nodes : List (UaNode κ)) (n : Nat) (hn : n < 2 ^ 31)
    (storage : List (UaNode κ)) :
    nodes.foldlM (addUnreferenced isT expression) ((n : Int), storage) =
      if n + nodes.countP (·.matchesQuery isT expression .objectNode) < 2 ^ 31 then
        some (((n + nodes.countP (·.matchesQuery isT expression .objectNode) : Nat) : Int),
          storage ++ nodes.filter (·.matchesQuery isT expression .objectNode))
      else none := by
  induction nodes generalizing n storage with
  | nil => rw [List.countP_nil, Nat.add_zero, if_pos hn, List.filter_nil, List.append_nil]; rfl
  | cons node nodes ih =>
      rw [List.foldlM_cons, addUnreferenced]
      by_cases hmatch : node.matchesQuery isT expression .objectNode = true
      · rw [List.countP_cons_of_pos hmatch, List.filter_cons_of_pos hmatch, if_pos hmatch]
        by_cases hint : n + 1 < 2 ^ 31
        · rw [if_pos (by simp only [isInt, Bool.and_eq_true, decide_eq_true_eq]; omega)]
          have hrest := ih (n + 1) hint (storage ++ [node])
          rw [List.append_assoc, Nat.add_assoc, Nat.add_comm 1] at hrest
          exact hrest
        · rw [if_neg (by simp only [isInt, Bool.and_eq_true, decide_eq_true_eq]; omega),
            if_neg (by omega)]
          rfl
      · rw [List.countP_cons_of_neg hmatch, List.filter_cons_of_neg hmatch, if_neg hmatch]
        exact ih n hn storage

theorem findUnreferenced_eq (nodes : List (UaNode κ)) (storage : List (UaNode κ)) :
    findUnreferenced isT expression nodes storage =
      if nodes.countP (·.matchesQuery isT expression .objectNode) < 2 ^ 31 then
        some ((nodes.countP (·.matchesQuery isT expression .objectNode) : Int),
          storage ++ nodes.filter (·.matchesQuery isT expression .objectNode))
      else none := by
  have hloop := @foldlM_addUnreferenced κ isT expression nodes 0 (by decide)
    storage
  rw [Nat.zero_add] at hloop
  exact hloop

/-- Of the nodes that match, the objects are not counted. -/
theorem countP_isCounted_eq_iff (nodeClass : NodeClass) (nodes : List (UaNode κ)) :
    nodes.countP (·.isCounted isT expression nodeClass) =
        (nodes.filter (·.matchesQuery isT expression nodeClass)).length ↔
      ∀ node ∈ nodes, node.nodeClass = .objectNode →
        node.matchesQuery isT expression nodeClass = false := by
  have hsplit := List.countP_eq_countP_filter_add nodes
    (·.matchesQuery isT expression nodeClass) (·.nodeClass ≠ .objectNode)
  rw [List.countP_filter, List.countP_filter] at hsplit
  rw [← List.countP_eq_length_filter, hsplit]
  change _ = nodes.countP (·.isCounted isT expression nodeClass) + _ ↔ _
  rw [Nat.left_eq_add, List.countP_eq_zero]
  refine forall₂_congr fun node _ => ?_
  cases node.matchesQuery isT expression nodeClass with
  | true => simp
  | false => simp

theorem countP_isCounted_le (nodeClass : NodeClass) (nodes : List (UaNode κ)) :
    nodes.countP (·.isCounted isT expression nodeClass) ≤
      (nodes.filter (·.matchesQuery isT expression nodeClass)).length := by
  rw [← List.countP_eq_length_filter]
  exact List.countP_mono_left fun node _ h => (Bool.and_eq_true_iff.mp h).1

end Counting

section Results

variable {κ : Type} {isT : κ → Bool} {compile : Bytes → Option (Bytes → Bool)}
  {expression : Bytes → Bool} {pattern : Bytes} {storage : List (UaNode κ)}

/-- When all that is expected is appended, the call is right if the result is its length. -/
theorem returned_iff {found : Nat} {expected : List (UaNode κ)} :
    (∃ appended count, Outcome.returned found (storage ++ expected) =
        .returned count (storage ++ appended) ∧
      appended.Perm expected ∧ count = appended.length) ↔ found = expected.length := by
  constructor
  · rintro ⟨appended, count, houtcome, hperm, hcount⟩
    injection houtcome with hfound _
    rw [hfound, hcount, hperm.length_eq]
  · intro hfound
    exact ⟨expected, found, rfl, .refl _, hfound⟩

theorem mod_eq_iff {counted n m : Nat} (h : counted ≤ n) (hm : 0 < m) :
    counted % m = n ↔ counted = n ∧ n < m := by
  constructor
  · intro hmod
    have hle := Nat.mod_le counted m
    have hlt := Nat.mod_lt counted hm
    omega
  · rintro ⟨rfl, hlt⟩
    exact Nat.mod_eq_of_lt hlt

theorem fits_nil (p : UaNode κ → Bool) : ([] : List (UaNode κ)).countP p < 2 ^ 31 := by
  rw [List.countP_nil]
  decide

theorem all_countsRight_iff (hcompile : compile pattern = some expression)
    (startNode : Option (UaNode κ)) (nodeClass : NodeClass) :
    (Query.allByPattern startNode nodeClass).CountsRight isT compile expression pattern storage ↔
      (Query.allByPattern startNode nodeClass).Favourable isT expression := by
  have hrun : (Query.allByPattern startNode nodeClass).run isT compile pattern storage =
      .returned ((nodesOf startNode).countP (·.isCounted isT expression nodeClass) % 2 ^ 32)
        (storage ++ (Query.allByPattern startNode nodeClass).expected isT expression) := by
    simp only [Query.run, findAllByPattern, hcompile, Query.expected, Query.treeNodes,
      Query.unreferencedNodes, Query.nodeClass, List.append_nil, findAllByRegex_eq]
    cases startNode with
    | none => simp [nodesOf]
    | some node => rfl
  have hexpected : ((Query.allByPattern startNode nodeClass).expected isT expression) =
      (nodesOf startNode).filter (·.matchesQuery isT expression nodeClass) := by
    rw [Query.expected, Query.unreferencedNodes, List.append_nil]
    rfl
  rw [Query.CountsRight, hrun, returned_iff, hexpected,
    mod_eq_iff (countP_isCounted_le nodeClass _) (by decide), countP_isCounted_eq_iff,
    Query.Favourable, hexpected, Query.unreferencedNodes, and_iff_right (fits_nil _)]
  refine and_congr_right fun _ => iff_self_and.mpr fun _ node h => ?_
  cases h

theorem variables_favourable_iff (backend : Backend) (startNode : Option (UaNode κ)) :
    (Query.variablesByPattern backend startNode).Favourable isT expression ↔
      (Query.allByPattern startNode (.leafNode .variableNode)).Favourable isT expression ∧
        ∀ node, backend = .open62541 → startNode = some node →
          node.nodeClass ≠ .objectNode := by
  constructor
  · rintro ⟨hobjects, hexpected, hunreferenced, hstart⟩
    refine ⟨⟨hobjects, hexpected, hunreferenced, fun _ h => by cases h⟩, ?_⟩
    rintro node rfl rfl
    exact hstart node rfl
  · rintro ⟨⟨hobjects, hexpected, hunreferenced, -⟩, hstart⟩
    refine ⟨hobjects, hexpected, hunreferenced, fun node h => ?_⟩
    injection h with hbackend hnode
    exact hstart node hbackend hnode

theorem run_variables (hcompile : compile pattern = some expression) (backend : Backend)
    (startNode : Option (UaNode κ)) :
    (Query.variablesByPattern backend startNode).run isT compile pattern storage =
      .ofFound (findVariablesByRegex isT expression backend startNode storage) := by
  rw [Query.run, findVariablesByPattern, hcompile]
  cases startNode with
  | none => rfl
  | some node => rfl

theorem run_variables_uaSdk (hcompile : compile pattern = some expression)
    (startNode : Option (UaNode κ)) :
    (Query.variablesByPattern .uaSdk startNode).run isT compile pattern storage =
      (Query.allByPattern startNode (.leafNode .variableNode)).run isT compile pattern
        storage := by
  rw [run_variables hcompile, findVariablesByRegex_eq_all, Query.run, findAllByPattern, hcompile]
  cases startNode with
  | none => rfl
  | some node => rfl

theorem run_variables_open62541 (hcompile : compile pattern = some expression)
    (startNode : Option (UaNode κ)) :
    (Query.variablesByPattern .open62541 startNode).run isT compile pattern storage =
      if ∃ node, startNode = some node ∧ node.nodeClass = .objectNode then .undefined
      else (Query.variablesByPattern .uaSdk startNode).run isT compile pattern storage := by
  rw [run_variables hcompile, run_variables hcompile]
  cases startNode with
  | none => simp [findVariablesByRegex]
  | some node =>
      rw [findVariablesByRegex_open62541]
      by_cases hobject : node.nodeClass = .objectNode
      · simp [hobject, Outcome.ofFound]
      · simp [hobject]

theorem variables_countsRight_iff (hcompile : compile pattern = some expression)
    (backend : Backend) (startNode : Option (UaNode κ)) :
    (Query.variablesByPattern backend startNode).CountsRight isT compile expression pattern
        storage ↔
      (Query.variablesByPattern backend startNode).Favourable isT expression := by
  have hsdk : (Query.variablesByPattern .uaSdk startNode).CountsRight isT compile expression
      pattern storage ↔
      (Query.allByPattern startNode (.leafNode .variableNode)).Favourable isT expression := by
    rw [← all_countsRight_iff hcompile, Query.CountsRight, run_variables_uaSdk hcompile]
    exact Iff.rfl
  rw [variables_favourable_iff]
  cases backend with
  | uaSdk => exact hsdk.trans (iff_self_and.mpr fun _ node h => by cases h)
  | open62541 =>
      rw [Query.CountsRight, run_variables_open62541 hcompile]
      by_cases hobject : ∃ node, startNode = some node ∧ node.nodeClass = .objectNode
      · obtain ⟨node, hnode, hclass⟩ := hobject
        rw [if_pos ⟨node, hnode, hclass⟩]
        refine iff_of_false ?_ fun h => h.2 node rfl hnode hclass
        rintro ⟨appended, count, houtcome, -⟩
        cases houtcome
      · rw [if_neg hobject]
        exact hsdk.trans (iff_self_and.mpr fun _ node _ hnode hclass =>
          hobject ⟨node, hnode, hclass⟩)

theorem objectsInNodeManager_countsRight_iff (hcompile : compile pattern = some expression)
    (nm : ASNodeManager κ) :
    (Query.objectsInNodeManager nm).CountsRight isT compile expression pattern storage ↔
      (Query.objectsInNodeManager nm).Favourable isT expression := by
  have hreferenced : (nodesOf nm.objectsFolderNode).countP
      (·.isCounted isT expression .objectNode) = 0 := by
    rw [List.countP_eq_zero]
    intro node _
    by_cases hobject : node.nodeClass = .objectNode
    · simp [UaNode.isCounted, hobject]
    · simp [UaNode.isCounted, UaNode.matchesQuery, hobject]
  have hexpected : (Query.objectsInNodeManager nm).expected isT expression =
      (nodesOf nm.objectsFolderNode).filter (·.matchesQuery isT expression .objectNode) ++
        nm.unreferencedNodes.filter (·.matchesQuery isT expression .objectNode) :=
    List.filter_append _ _
  have hunreferenced : ((Query.objectsInNodeManager nm).expected isT expression).length =
      ((nodesOf nm.objectsFolderNode).filter
        (·.matchesQuery isT expression .objectNode)).length +
        nm.unreferencedNodes.countP (·.matchesQuery isT expression .objectNode) := by
    rw [hexpected, List.length_append, List.countP_eq_length_filter]
  have hnone : (∀ node ∈ nodesOf nm.objectsFolderNode, node.nodeClass = .objectNode →
      node.matchesQuery isT expression .objectNode = false) ↔
      ((nodesOf nm.objectsFolderNode).filter
        (·.matchesQuery isT expression .objectNode)).length = 0 := by
    rw [← countP_isCounted_eq_iff, hreferenced, eq_comm]
  rw [Query.CountsRight, Query.run, findAllObjectsByPatternInNodeManager, hcompile]
  simp only [findAllByRegex_eq, hreferenced, findUnreferenced_eq]
  rw [Query.Favourable, Query.treeNodes, Query.nodeClass, Query.unreferencedNodes, hnone]
  by_cases hfits :
      nm.unreferencedNodes.countP (·.matchesQuery isT expression .objectNode) < 2 ^ 31
  · rw [if_pos hfits]
    have hsum : asInt (0 % 2 ^ 32) +
        (nm.unreferencedNodes.countP (·.matchesQuery isT expression .objectNode) : Int) =
        nm.unreferencedNodes.countP (·.matchesQuery isT expression .objectNode) := Int.zero_add _
    have hint : isInt (nm.unreferencedNodes.countP
        (·.matchesQuery isT expression .objectNode) : Int) = true := by
      simp only [isInt, Bool.and_eq_true, decide_eq_true_eq]
      omega
    simp only [hsum, hint, if_true, List.append_assoc, ← hexpected]
    rw [returned_iff, hunreferenced]
    constructor
    · intro hcount
      exact ⟨by omega, by omega, hfits, fun node h => by cases h⟩
    · rintro ⟨hzero, -, -, -⟩
      omega
  · rw [if_neg hfits]
    refine iff_of_false ?_ fun h => hfits h.2.2.1
    rintro ⟨appended, count, houtcome, -⟩
    cases houtcome

/-- A call of a query is right exactly when no object of the tree is to be found, it does not
look for variables below an object with open62541, and its results fit their types. -/
theorem countsRight_iff (hcompile : compile pattern = some expression) (query : Query κ) :
    query.CountsRight isT compile expression pattern storage ↔
      query.Favourable isT expression := by
  cases query with
  | variablesByPattern backend startNode =>
      exact variables_countsRight_iff hcompile backend startNode
  | allByPattern startNode nodeClass => exact all_countsRight_iff hcompile startNode nodeClass
  | objectsInNodeManager nm => exact objectsInNodeManager_countsRight_iff hcompile nm

/-- A compiler of patterns that knows one which every id matches. -/
def compileAny (pattern : Bytes) : Option (Bytes → Bool) :=
  if pattern = text ".*" then some fun _ => true else none

theorem compileAny_any : compileAny (text ".*") = some fun _ => true := if_pos rfl

/-- An object of the type that is asked for. -/
def busNode : UaNode Bool := .object (.string (text "bus1")) true []

def objectsFolder (targets : List (Option (UaNode Bool))) : UaNode Bool :=
  .object (.numeric 85) false targets

theorem countsRight_iff_unreferenced :
    (Query.objectsInNodeManager ⟨some (objectsFolder []), [busNode]⟩).CountsRight id compileAny
      (fun _ => true) (text ".*") [] := by
  refine (countsRight_iff compileAny_any _).mpr ⟨?_, by decide, by decide, fun _ h => by cases h⟩
  intro node hnode _
  obtain rfl := List.mem_singleton.mp hnode
  rfl

/-- The object is found in the tree, and the result is that nothing was. -/
theorem referencedBus_not_counted :
    (Query.objectsInNodeManager ⟨some (objectsFolder [some busNode]), []⟩).run id compileAny
        (text ".*") [] = .returned 0 [busNode] ∧
      ¬(Query.objectsInNodeManager ⟨some (objectsFolder [some busNode]), []⟩).CountsRight id
        compileAny (fun _ => true) (text ".*") [] := by
  have hrun : (Query.objectsInNodeManager ⟨some (objectsFolder [some busNode]), []⟩).run id
      compileAny (text ".*") [] = .returned 0 [busNode] := by
    rw [Query.run, findAllObjectsByPatternInNodeManager, compileAny_any]
    rfl
  refine ⟨hrun, ?_⟩
  rintro ⟨appended, count, houtcome, -, hcount⟩
  rw [hrun, List.nil_append] at houtcome
  injection houtcome with hzero happended
  rw [← happended, ← hzero] at hcount
  cases hcount

end Results

end AddressSpace

end Supernova
