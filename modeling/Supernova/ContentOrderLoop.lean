/-
The generated loop over the content order of a configuration element: what is
checked before it, what each of its entries instantiates, and when that is every
child of the element, once.
-/
import Supernova.DeviceRegistration

namespace Supernova

namespace Quasar

section Loop

/-- A configuration element with its free variables, given by their number. -/
structure ConfigElement extends XmlObject where
  freeVariables : Nat

variable (design : Design) (parentClass : ParentClass)

/-- The classes that have a case in the loop. -/
def configuredClasses : List Bytes :=
  (innerObjects design .configuration parentClass).map HasObjects.className

/-- The classes whose elements the schema admits in an element of the parent, however they
are instantiated. -/
def childClasses : List Bytes := (objectifyHasObjects design parentClass).map HasObjects.className

/-- The calls of `validateContentOrder` before the loop. -/
def checkContentOrder (config : ConfigElement) : Except ContentOrderError Unit := do
  (innerObjects design .configuration parentClass).forM fun ho =>
    validateContentOrder config.toXmlObject ho.className
  validateContentOrderArray config.contentOrder config.calculatedVariables .calculatedVariable

/-- One turn of the loop: the child that is instantiated, if any. The error is an entry that
indexes past the end of its collection. -/
def instantiateEntry (config : ConfigElement) (entry : ContentOrder) :
    Except ContentOrder (Option ContentOrder) :=
  match entry.id with
  | .element innerClass =>
      if innerClass ∈ configuredClasses design parentClass then
        let size := (config.collection innerClass).length
        if innerClass = standardMetaData then
          if size = 0 then throw entry else pure (some ⟨entry.id, 0⟩)
        else if entry.index < size then pure (some entry)
        else throw entry
      else pure none
  | .calculatedVariable =>
      if entry.index < config.calculatedVariables then pure (some entry) else throw entry
  | .freeVariable => if entry.index < config.freeVariables then pure (some entry) else throw entry
  | .other => pure none

def contentOrderLoop (config : ConfigElement) :
    List ContentOrder → Except ContentOrder (List ContentOrder)
  | [] => pure []
  | entry :: rest => do
      let child ← instantiateEntry design parentClass config entry
      let later ← contentOrderLoop config rest
      pure (child.toList ++ later)

end Loop

section Promise

def indicesOf (id : ContentId) (entries : List ContentOrder) : List Nat :=
  (entries.filter fun entry => entry.id = id).map ContentOrder.index

variable (design : Design) (parentClass : ParentClass) (config : ConfigElement)

/-- How many children of a type an element has. -/
def childCount : ContentId → Nat
  | .element className =>
      if className ∈ childClasses design parentClass then (config.collection className).length
      else 0
  | .calculatedVariable => config.calculatedVariables
  | .freeVariable => config.freeVariables
  | .other => 0

/-- The child types that an element can have any number of. -/
def Repeated : ContentId → Prop
  | .element className =>
      className ∈ childClasses design parentClass ∧ className ≠ standardMetaData
  | .calculatedVariable => True
  | .freeVariable => True
  | .other => False

/-- The content order has the children of a type, each once. -/
def Listed (id : ContentId) : Prop :=
  (indicesOf id config.contentOrder).Perm (List.range (childCount design parentClass config id))

/-- The child that an entry is about; optional children have no index. -/
def ownChild (entry : ContentOrder) : ContentOrder :=
  if entry.id = .element standardMetaData then ⟨entry.id, 0⟩ else entry

/-- The loop ends without a false index, and has instantiated each child once by then, in the
order of the entries. -/
def InstantiatesEachChild : Prop :=
  ∃ made, contentOrderLoop design parentClass config config.contentOrder = .ok made ∧
    made.Sublist (config.contentOrder.map ownChild) ∧
    ∀ id, (indicesOf id made).Perm (List.range (childCount design parentClass config id))

/-- What the checks are for. -/
structure ContentOrderKept : Prop where
  instantiates : checkContentOrder design parentClass config = .ok ⟨⟩ →
    InstantiatesEachChild design parentClass config
  passes : checkContentOrder design parentClass config = .ok ⟨⟩ ↔
    ∀ id, Repeated design parentClass id → Listed design parentClass config id

end Promise

section Turns

variable {design : Design} {parentClass : ParentClass} {config : ConfigElement}
  {entry : ContentOrder} {id : ContentId}

/-- The types of children that the loop has a case for. -/
def Dispatched (design : Design) (parentClass : ParentClass) : ContentId → Prop
  | .element className => className ∈ configuredClasses design parentClass
  | .calculatedVariable => True
  | .freeVariable => True
  | .other => False

instance : DecidablePred (Dispatched design parentClass)
  | .element className =>
      inferInstanceAs (Decidable (className ∈ configuredClasses design parentClass))
  | .calculatedVariable => isTrue trivial
  | .freeVariable => isTrue trivial
  | .other => isFalse not_false

theorem mem_childClasses {className : Bytes}
    (h : className ∈ configuredClasses design parentClass) :
    className ∈ childClasses design parentClass :=
  List.map_subset _ List.filter_sublist.subset h

/-- A turn succeeds where its index is within the collection. -/
theorem instantiateEntry_eq_ok {child : Option ContentOrder} :
    instantiateEntry design parentClass config entry = .ok child ↔
      (Dispatched design parentClass entry.id →
        (ownChild entry).index < childCount design parentClass config entry.id) ∧
      (if Dispatched design parentClass entry.id then some (ownChild entry) else none) =
        child := by
  obtain ⟨id, index⟩ := entry
  cases id with
  | element className =>
      by_cases hclass : className ∈ configuredClasses design parentClass
      · have hdispatched : Dispatched design parentClass (.element className) := hclass
        have hcount : childCount design parentClass config (.element className) =
            (config.collection className).length := if_pos (mem_childClasses hclass)
        by_cases hmeta : className = standardMetaData
        · subst hmeta
          by_cases hsize : (config.collection standardMetaData).length = 0
          · simp [instantiateEntry, hclass, hsize, hdispatched, hcount]
          · simp [instantiateEntry, hclass, hsize, hdispatched, hcount, ownChild,
              except_pure_eq_ok, Nat.pos_iff_ne_zero]
        · by_cases hindex : index < (config.collection className).length
          · simp [instantiateEntry, hclass, hmeta, hindex, hdispatched, hcount, ownChild,
              except_pure_eq_ok]
          · simp [instantiateEntry, hclass, hmeta, hindex, hdispatched, hcount, ownChild]
      · have hdispatched : ¬Dispatched design parentClass (.element className) := hclass
        simp [instantiateEntry, hclass, hdispatched, except_pure_eq_ok]
  | calculatedVariable =>
      by_cases hindex : index < config.calculatedVariables
      · simp [instantiateEntry, hindex, Dispatched, childCount, ownChild, except_pure_eq_ok]
      · simp [instantiateEntry, hindex, Dispatched, childCount, ownChild]
  | freeVariable =>
      by_cases hindex : index < config.freeVariables
      · simp [instantiateEntry, hindex, Dispatched, childCount, ownChild, except_pure_eq_ok]
      · simp [instantiateEntry, hindex, Dispatched, childCount, ownChild]
  | other => simp [instantiateEntry, Dispatched, except_pure_eq_ok]

/-- The children that the entries are about. -/
def childrenOf (design : Design) (parentClass : ParentClass) (entries : List ContentOrder) :
    List ContentOrder :=
  (entries.filter fun entry => Dispatched design parentClass entry.id).map ownChild

/-- The whole loop: each index is checked, and each entry has its child instantiated. -/
theorem contentOrderLoop_eq_ok {entries made : List ContentOrder} :
    contentOrderLoop design parentClass config entries = .ok made ↔
      (∀ entry ∈ entries, Dispatched design parentClass entry.id →
        (ownChild entry).index < childCount design parentClass config entry.id) ∧
      childrenOf design parentClass entries = made := by
  induction entries generalizing made with
  | nil => simp [contentOrderLoop, childrenOf, except_pure_eq_ok]
  | cons entry rest ih =>
      rw [contentOrderLoop, except_bind_eq_ok, List.forall_mem_cons]
      simp only [except_bind_eq_ok, except_pure_eq_ok, instantiateEntry_eq_ok, ih]
      constructor
      · rintro ⟨_, ⟨hhead, rfl⟩, _, ⟨htail, rfl⟩, rfl⟩
        refine ⟨⟨hhead, htail⟩, ?_⟩
        by_cases hdispatched : Dispatched design parentClass entry.id
        · simp [childrenOf, hdispatched]
        · simp [childrenOf, hdispatched]
      · rintro ⟨⟨hhead, htail⟩, rfl⟩
        refine ⟨_, ⟨hhead, rfl⟩, _, ⟨htail, rfl⟩, ?_⟩
        by_cases hdispatched : Dispatched design parentClass entry.id
        · simp [childrenOf, hdispatched]
        · simp [childrenOf, hdispatched]

end Turns

section Children

variable {design : Design} {parentClass : ParentClass} {config : ConfigElement}
  {entries : List ContentOrder} {id : ContentId}

@[simp] theorem ownChild_id (entry : ContentOrder) : (ownChild entry).id = entry.id := by
  rw [ownChild]
  split_ifs <;> rfl

theorem indicesOf_childrenOf : indicesOf id (childrenOf design parentClass entries) =
    if Dispatched design parentClass id then
      (entries.filter fun entry => entry.id = id).map fun entry => (ownChild entry).index
    else [] := by
  rw [indicesOf, childrenOf, List.filter_map, List.map_map, List.filter_filter]
  split_ifs with hdispatched
  · refine congrArg _ (List.filter_congr fun entry _ => ?_)
    by_cases hid : entry.id = id
    · simp [hid, hdispatched]
    · simp [hid]
  · rw [List.map_eq_nil_iff, List.filter_eq_nil_iff]
    intro entry _
    by_cases hid : entry.id = id
    · simp [hid, hdispatched]
    · simp [hid]

theorem indices_ownChild (hmeta : id ≠ .element standardMetaData) :
    ((entries.filter fun entry => entry.id = id).map fun entry => (ownChild entry).index) =
      indicesOf id entries := by
  refine List.map_congr_left fun entry hentry => ?_
  have hid : entry.id = id := of_decide_eq_true (List.mem_filter.mp hentry).2
  rw [ownChild, if_neg (hid ▸ hmeta)]

theorem indices_ownChild_meta :
    ((entries.filter fun entry => entry.id = .element standardMetaData).map fun entry =>
      (ownChild entry).index) =
      List.replicate (indicesOf (.element standardMetaData) entries).length 0 := by
  rw [indicesOf, List.length_map, List.eq_replicate_iff, List.length_map]
  refine ⟨rfl, fun index hindex => ?_⟩
  obtain ⟨entry, hentry, rfl⟩ := List.mem_map.mp hindex
  have hid : entry.id = .element standardMetaData := of_decide_eq_true (List.mem_filter.mp hentry).2
  rw [ownChild, if_pos hid]

theorem instantiatesEachChild_iff : InstantiatesEachChild design parentClass config ↔
    ∀ id, (indicesOf id (childrenOf design parentClass config.contentOrder)).Perm
      (List.range (childCount design parentClass config id)) := by
  constructor
  · rintro ⟨made, hloop, -, hchildren⟩
    rw [(contentOrderLoop_eq_ok.1 hloop).2]
    exact hchildren
  · intro hchildren
    refine ⟨_, contentOrderLoop_eq_ok.2 ⟨?_, rfl⟩, List.filter_sublist.map ownChild, hchildren⟩
    intro entry hentry hdispatched
    refine List.mem_range.mp ((hchildren entry.id).mem_iff.mp ?_)
    rw [indicesOf_childrenOf, if_pos hdispatched]
    exact List.mem_map.mpr ⟨entry, List.mem_filter.mpr ⟨hentry, decide_eq_true rfl⟩, rfl⟩

theorem perm_childrenOf_dispatched (id : ContentId)
    (hdispatched : Dispatched design parentClass id)
    (hmeta : id ≠ .element standardMetaData) :
    (indicesOf id (childrenOf design parentClass config.contentOrder)).Perm
      (List.range (childCount design parentClass config id)) ↔
      Listed design parentClass config id := by
  rw [indicesOf_childrenOf, if_pos hdispatched, indices_ownChild hmeta, Listed]

theorem length_standardMetaData_le : (config.collection standardMetaData).length ≤ 1 := by
  rw [XmlObject.collection, if_pos rfl, List.length_take]
  omega

theorem perm_childrenOf_meta
    (hclass : standardMetaData ∈ configuredClasses design parentClass) :
    (indicesOf (.element standardMetaData)
      (childrenOf design parentClass config.contentOrder)).Perm
      (List.range (childCount design parentClass config (.element standardMetaData))) ↔
      (indicesOf (.element standardMetaData) config.contentOrder).length =
        (config.collection standardMetaData).length := by
  have hdispatched : Dispatched design parentClass (.element standardMetaData) := hclass
  have hcount : childCount design parentClass config (.element standardMetaData) =
      (config.collection standardMetaData).length := if_pos (mem_childClasses hclass)
  rw [indicesOf_childrenOf, if_pos hdispatched, indices_ownChild_meta, hcount]
  constructor
  · intro hperm
    simpa using hperm.length_eq
  · intro hlength
    rw [hlength]
    have hone : (config.collection standardMetaData).length ≤ 1 := length_standardMetaData_le
    interval_cases (config.collection standardMetaData).length
    · exact .nil
    · exact .refl _

theorem perm_childrenOf_other (id : ContentId)
    (hdispatched : ¬Dispatched design parentClass id) :
    (indicesOf id (childrenOf design parentClass config.contentOrder)).Perm
      (List.range (childCount design parentClass config id)) ↔
      childCount design parentClass config id = 0 := by
  rw [indicesOf_childrenOf, if_neg hdispatched, List.nil_perm, List.range_eq_nil]

end Children

section Assembly

variable (design : Design) (parentClass : ParentClass) (config : ConfigElement)

/-- The children whose entries are checked by their indices. -/
def CheckedListed : Prop :=
  (∀ className ∈ configuredClasses design parentClass, className ≠ standardMetaData →
    Listed design parentClass config (.element className)) ∧
  Listed design parentClass config .calculatedVariable

/-- The optional child is checked for having an entry. -/
def OptionalRegistered : Prop :=
  standardMetaData ∈ configuredClasses design parentClass →
    config.collection standardMetaData ≠ [] →
      indicesOf (.element standardMetaData) config.contentOrder ≠ []

def OptionalOnce : Prop :=
  standardMetaData ∈ configuredClasses design parentClass →
    (indicesOf (.element standardMetaData) config.contentOrder).length =
      (config.collection standardMetaData).length

/-- Elements of classes that only the design instantiates have no case in the loop. -/
def DesignedListed : Prop :=
  ∀ className ∈ childClasses design parentClass,
    className ∉ configuredClasses design parentClass → className ≠ standardMetaData →
      Listed design parentClass config (.element className)

def DesignedAbsent : Prop :=
  ∀ className ∈ childClasses design parentClass,
    className ∉ configuredClasses design parentClass → config.collection className = []

/-- When the checks keep what they are for: what they do not look at is listed as well, unless
they refuse the element, and rightly, for its optional child. -/
def Orderly : Prop :=
  CheckedListed design parentClass config →
    (Listed design parentClass config .freeVariable ∧ DesignedListed design parentClass config ∧
      DesignedAbsent design parentClass config ∧ OptionalOnce design parentClass config) ∨
    ¬OptionalRegistered design parentClass config ∧
      ¬(Listed design parentClass config .freeVariable ∧
        DesignedListed design parentClass config)

variable {design parentClass config}

theorem validateContentOrderOptional_eq_ok_iff {contentOrder : List ContentOrder}
    {present : Bool} {childTypeId : ContentId} :
    validateContentOrderOptional contentOrder present childTypeId = .ok ⟨⟩ ↔
      (present = true → indicesOf childTypeId contentOrder ≠ []) := by
  have hany : contentOrder.any (fun entry => entry.id = childTypeId) = true ↔
      indicesOf childTypeId contentOrder ≠ [] := by
    rw [indicesOf, Ne, List.map_eq_nil_iff, List.filter_eq_nil_iff, List.any_eq_true]
    push Not
    rfl
  rw [← hany, validateContentOrderOptional]
  cases present <;> cases contentOrder.any (fun entry => entry.id = childTypeId) <;>
    simp [except_pure_eq_ok]

theorem validateContentOrder_eq_ok_iff {className : Bytes}
    (hclass : className ∈ configuredClasses design parentClass) :
    validateContentOrder config.toXmlObject className = .ok ⟨⟩ ↔
      (className ≠ standardMetaData → Listed design parentClass config (.element className)) ∧
      (className = standardMetaData → config.collection className ≠ [] →
        indicesOf (.element className) config.contentOrder ≠ []) := by
  have hcount : childCount design parentClass config (.element className) =
      (config.collection className).length := if_pos (mem_childClasses hclass)
  rw [validateContentOrder]
  by_cases hmeta : className = standardMetaData
  · simp [hmeta, validateContentOrderOptional_eq_ok_iff]
  · simp only [if_neg hmeta, validateContentOrderArray_eq_ok_iff, Listed, hcount, indicesOf]
    simp [hmeta]

theorem checkContentOrder_eq_ok_iff : checkContentOrder design parentClass config = .ok ⟨⟩ ↔
    CheckedListed design parentClass config ∧ OptionalRegistered design parentClass config := by
  have hclasses : (innerObjects design .configuration parentClass).forM (fun ho =>
      validateContentOrder config.toXmlObject ho.className) = .ok ⟨⟩ ↔
      ∀ className ∈ configuredClasses design parentClass,
        validateContentOrder config.toXmlObject className = .ok ⟨⟩ := by
    rw [forM_eq_ok, configuredClasses, List.forall_mem_map]
  have hcalculated : validateContentOrderArray config.contentOrder config.calculatedVariables
      .calculatedVariable = .ok ⟨⟩ ↔ Listed design parentClass config .calculatedVariable :=
    validateContentOrderArray_eq_ok_iff
  rw [checkContentOrder, except_bind_eq_ok]
  constructor
  · rintro ⟨_, hforM, harray⟩
    have hvalid := hclasses.mp hforM
    refine ⟨⟨?_, hcalculated.mp harray⟩, ?_⟩
    · intro className hclass hmeta
      exact ((validateContentOrder_eq_ok_iff hclass).mp (hvalid className hclass)).1 hmeta
    · intro hclass
      exact ((validateContentOrder_eq_ok_iff hclass).mp (hvalid standardMetaData hclass)).2 rfl
  · rintro ⟨⟨hlisted, harray⟩, hoptional⟩
    refine ⟨⟨⟩, hclasses.mpr ?_, hcalculated.mpr harray⟩
    intro className hclass
    refine (validateContentOrder_eq_ok_iff hclass).mpr ⟨hlisted className hclass, ?_⟩
    rintro rfl
    exact hoptional hclass

theorem childCount_eq_zero_iff {className : Bytes} :
    childCount design parentClass config (.element className) = 0 ↔
      (className ∈ childClasses design parentClass → config.collection className = []) := by
  rw [childCount]
  split_ifs with hclass
  · rw [List.length_eq_zero_iff]
    exact ⟨fun h _ => h, fun h => h hclass⟩
  · exact ⟨fun _ himpossible => absurd himpossible hclass, fun _ => rfl⟩

theorem instantiatesEachChild_iff_listed : InstantiatesEachChild design parentClass config ↔
    CheckedListed design parentClass config ∧
      Listed design parentClass config .freeVariable ∧
      DesignedAbsent design parentClass config ∧ OptionalOnce design parentClass config := by
  rw [instantiatesEachChild_iff]
  constructor
  · intro hchildren
    refine ⟨⟨?_, ?_⟩, ?_, ?_, ?_⟩
    · intro className hclass hmeta
      exact (perm_childrenOf_dispatched (.element className) hclass (by simp [hmeta])).mp (hchildren _)
    · exact (perm_childrenOf_dispatched .calculatedVariable trivial (by simp)).mp (hchildren _)
    · exact (perm_childrenOf_dispatched .freeVariable trivial (by simp)).mp (hchildren _)
    · intro className hchild hclass
      exact childCount_eq_zero_iff.1 ((perm_childrenOf_other (.element className) hclass).mp (hchildren _)) hchild
    · exact fun hclass => (perm_childrenOf_meta hclass).mp (hchildren _)
  · rintro ⟨⟨hlisted, hcalculated⟩, hfree, habsent, honce⟩ id
    cases id with
    | element className =>
        by_cases hclass : className ∈ configuredClasses design parentClass
        · by_cases hmeta : className = standardMetaData
          · subst hmeta
            exact (perm_childrenOf_meta hclass).mpr (honce hclass)
          · exact (perm_childrenOf_dispatched (.element className) hclass (by simp [hmeta])).mpr
              (hlisted className hclass hmeta)
        · exact (perm_childrenOf_other (.element className) hclass).mpr
            (childCount_eq_zero_iff.2 fun hchild => habsent className hchild hclass)
    | calculatedVariable =>
        exact (perm_childrenOf_dispatched .calculatedVariable trivial (by simp)).mpr hcalculated
    | freeVariable =>
        exact (perm_childrenOf_dispatched .freeVariable trivial (by simp)).mpr hfree
    | other => exact (perm_childrenOf_other .other not_false).mpr rfl

theorem allListed_iff :
    (∀ id, Repeated design parentClass id → Listed design parentClass config id) ↔
      CheckedListed design parentClass config ∧
        Listed design parentClass config .freeVariable ∧
        DesignedListed design parentClass config := by
  constructor
  · intro hlisted
    refine ⟨⟨?_, hlisted _ trivial⟩, hlisted _ trivial, ?_⟩
    · exact fun className hclass hmeta => hlisted _ ⟨mem_childClasses hclass, hmeta⟩
    · exact fun className hchild _ hmeta => hlisted _ ⟨hchild, hmeta⟩
  · rintro ⟨⟨hlisted, hcalculated⟩, hfree, hdesigned⟩ id hrepeated
    cases id with
    | element className =>
        by_cases hclass : className ∈ configuredClasses design parentClass
        · exact hlisted className hclass hrepeated.2
        · exact hdesigned className hrepeated.1 hclass hrepeated.2
    | calculatedVariable => exact hcalculated
    | freeVariable => exact hfree
    | other => exact hrepeated.elim

theorem OptionalOnce.registered (h : OptionalOnce design parentClass config) :
    OptionalRegistered design parentClass config := by
  intro hclass hpresent hnone
  have hlength := h hclass
  rw [hnone, List.length_nil] at hlength
  exact hpresent (List.length_eq_zero_iff.mp hlength.symm)

/-- The checks keep what they are for on orderly elements, and on no others. -/
theorem contentOrderKept_iff : ContentOrderKept design parentClass config ↔
    Orderly design parentClass config := by
  have hkept : ContentOrderKept design parentClass config ↔
      (checkContentOrder design parentClass config = .ok ⟨⟩ →
        InstantiatesEachChild design parentClass config) ∧
      (checkContentOrder design parentClass config = .ok ⟨⟩ ↔
        ∀ id, Repeated design parentClass id → Listed design parentClass config id) :=
    ⟨fun h => ⟨h.instantiates, h.passes⟩, fun h => ⟨h.1, h.2⟩⟩
  rw [hkept, checkContentOrder_eq_ok_iff, instantiatesEachChild_iff_listed, allListed_iff, Orderly]
  constructor
  · rintro ⟨hinstantiates, hpasses⟩ hchecked
    by_cases hregistered : OptionalRegistered design parentClass config
    · obtain ⟨-, hfree, habsent, honce⟩ := hinstantiates ⟨hchecked, hregistered⟩
      obtain ⟨-, -, hdesigned⟩ := hpasses.mp ⟨hchecked, hregistered⟩
      exact .inl ⟨hfree, hdesigned, habsent, honce⟩
    · exact .inr ⟨hregistered, fun hlisted => hregistered (hpasses.mpr ⟨hchecked, hlisted⟩).2⟩
  · intro horderly
    refine ⟨?_, ?_, ?_⟩
    · rintro ⟨hchecked, hregistered⟩
      rcases horderly hchecked with ⟨hfree, -, habsent, honce⟩ | ⟨hnot, -⟩
      · exact ⟨hchecked, hfree, habsent, honce⟩
      · exact absurd hregistered hnot
    · rintro ⟨hchecked, hregistered⟩
      rcases horderly hchecked with ⟨hfree, hdesigned, -, -⟩ | ⟨hnot, -⟩
      · exact ⟨hchecked, hfree, hdesigned⟩
      · exact absurd hregistered hnot
    · rintro ⟨hchecked, hlisted⟩
      rcases horderly hchecked with ⟨-, -, -, honce⟩ | ⟨-, hnot⟩
      · exact ⟨hchecked, honce.registered⟩
      · exact absurd hlisted hnot

/-- A free variable was taken out of the element, and its entry was left behind. -/
def staleElement : ConfigElement where
  name := text "stale"
  elements := []
  calculatedVariables := 0
  freeVariables := 0
  contentOrder := [⟨.freeVariable, 0⟩]

theorem staleElement_not_kept :
    checkContentOrder ⟨[], []⟩ .root staleElement = .ok ⟨⟩ ∧
      contentOrderLoop ⟨[], []⟩ .root staleElement staleElement.contentOrder =
        .error ⟨.freeVariable, 0⟩ ∧
      ¬ContentOrderKept ⟨[], []⟩ .root staleElement := by
  refine ⟨rfl, rfl, fun h => ?_⟩
  obtain ⟨made, hloop, -⟩ := h.instantiates rfl
  cases hloop

end Assembly

end Quasar

end Supernova
