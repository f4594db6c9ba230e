/-
When the configurator comes to an end: the calls for a configuration nest as deep as the
configuration does and, below each element, as deep as classes contain each other by
design; a cycle of such classes is entered whatever the configuration holds.
-/
import Supernova.DeviceRegistration
import Supernova.FiniteDescent

namespace Supernova

attribute [local semireducible] ByteArray.toList.loop

namespace Quasar

section Throwing

variable {α β : Type} {E : ConfigureError → Prop}

/-- What the action throws satisfies `E`. -/
def Throws (E : ConfigureError → Prop) (x : Configure α) : Prop :=
  ∀ tree error, x tree = .error error → E error

/-- Calls are nested too deep, whatever there is already. -/
def IsTooDeep (x : Configure α) : Prop := ∀ tree, x tree = .error .tooDeep

theorem configure_bind_eq_error {x : Configure α} {f : α → Configure β} {tree : DeviceTree}
    {error : ConfigureError} : (x >>= f) tree = .error error ↔
      x tree = .error error ∨
        ∃ a tree₁, x tree = .ok (a, tree₁) ∧ f a tree₁ = .error error := by
  change (x tree >>= fun result => f result.1 result.2) = .error error ↔ _
  rcases x tree with e | ⟨a, tree₁⟩
  · simp [bind, Except.bind]
  · simp [bind, Except.bind]

theorem throws_bind {x : Configure α} {f : α → Configure β} (hx : Throws E x)
    (hf : ∀ a, Throws E (f a)) : Throws E (x >>= f) := by
  intro tree error h
  rcases configure_bind_eq_error.1 h with h | ⟨a, tree₁, -, h⟩
  · exact hx tree error h
  · exact hf a tree₁ error h

theorem throws_pure (a : α) : Throws E (pure a : Configure α) := by
  intro tree error h
  cases h

theorem throws_modify (f : DeviceTree → DeviceTree) : Throws E (modify f : Configure Unit) := by
  intro tree error h
  cases h

theorem throws_forM {f : α → Configure Unit} {l : List α} (h : ∀ a ∈ l, Throws E (f a)) :
    Throws E (l.forM f) := by
  induction l with
  | nil => exact throws_pure _
  | cons a l ih =>
      rw [List.forM_eq_forM, List.forM_cons]
      exact throws_bind (h a List.mem_cons_self)
        fun _ => ih fun a' ha' => h a' (List.mem_cons_of_mem _ ha')

theorem throws_optionForM {f : α → Configure Unit} (h : ∀ a, Throws E (f a)) (o : Option α) :
    Throws E (o.forM f) := by
  rcases o with _ | a
  · exact throws_pure _
  · exact h a

theorem isTooDeep_bind_left {x : Configure α} {f : α → Configure β} (h : IsTooDeep x) :
    IsTooDeep (x >>= f) :=
  fun tree => configure_bind_eq_error.2 (.inl (h tree))

theorem isTooDeep_bind_right {x : Configure α} {f : α → Configure β}
    (hx : Throws (· = .tooDeep) x) (hf : ∀ a, IsTooDeep (f a)) : IsTooDeep (x >>= f) := by
  intro tree
  rcases hrun : x tree with error | ⟨a, tree₁⟩
  · rw [configure_bind_eq_error, hrun, hx tree error hrun]
    exact .inl rfl
  · exact configure_bind_eq_error.2 (.inr ⟨a, tree₁, hrun, hf a tree₁⟩)

theorem isTooDeep_forM {f : α → Configure Unit} {l : List α}
    (hl : ∀ a ∈ l, Throws (· = .tooDeep) (f a)) {a : α} (ha : a ∈ l) (h : IsTooDeep (f a)) :
    IsTooDeep (l.forM f) := by
  induction l with
  | nil => cases ha
  | cons b l ih =>
      rw [List.forM_eq_forM, List.forM_cons]
      rcases List.mem_cons.mp ha with rfl | ha
      · exact isTooDeep_bind_left h
      · exact isTooDeep_bind_right (hl b List.mem_cons_self)
          fun _ => ih (fun a' ha' => hl a' (List.mem_cons_of_mem _ ha')) ha

end Throwing

section Configuring

variable {design : Design} {E : ConfigureError → Prop} {configureFunction : ConfigureClass}

theorem throws_newAddressSpaceObject : Throws E newAddressSpaceObject := by
  intro tree error h
  cases h

/-- A new device-logic object is linked for the first time. -/
theorem throws_newLinkedDevice (className : Bytes) (parent : Option DeviceParent) (asItem : Nat) :
    Throws E (newLinkedDevice design className parent asItem) := by
  intro tree error h
  unfold newLinkedDevice at h
  split at h
  · rcases configure_bind_eq_error.1 h with h | ⟨id, tree₁, hnew, h⟩
    · cases h
    · cases hnew
      rcases configure_bind_eq_error.1 h with h | ⟨u, tree₂, -, h⟩
      · rw [linkAddressSpace_eq (by simp)] at h
        cases h
      · cases h
  · cases h

theorem throws_configureObject {parentClass : ParentClass} {parentDevice : Option DeviceParent}
    {className : Bytes} {xmlObj : XmlObject}
    (h : ∀ parent, Throws E (configureFunction className xmlObj parent)) :
    Throws E (configureObject design configureFunction parentClass parentDevice className
      xmlObj) := by
  unfold configureObject
  split
  · refine throws_bind (h _) fun device => throws_optionForM (fun device => ?_) device
    split
    · exact throws_optionForM (fun parent => throws_modify _) parentDevice
    · exact throws_modify _
  · exact throws_bind (h none) fun _ => throws_pure _

theorem isTooDeep_configureObject {parentClass : ParentClass}
    {parentDevice : Option DeviceParent} {className : Bytes} {xmlObj : XmlObject}
    (h : ∀ parent, IsTooDeep (configureFunction className xmlObj parent)) :
    IsTooDeep (configureObject design configureFunction parentClass parentDevice className
      xmlObj) := by
  unfold configureObject
  split
  · exact isTooDeep_bind_left (h _)
  · exact isTooDeep_bind_left (h none)

theorem throws_configureChildren {parentClass : ParentClass} {parentDevice : Option DeviceParent}
    {config : XmlObject}
    (hdesign : ∀ ho ∈ innerObjects design .design parentClass, ∀ name ∈ ho.objects, ∀ parent,
      Throws E (configureFunction ho.className (emptyXmlObject name) parent))
    (hchecked : ∀ error, E (.contentOrder error))
    (hnoElement : ∀ innerClass index, E (.noElement innerClass index))
    (hconfiguration : ∀ ho ∈ innerObjects design .configuration parentClass,
      ∀ xmlObj ∈ config.collection ho.className, ∀ parent,
        Throws E (configureFunction ho.className xmlObj parent)) :
    Throws E (configureChildren design configureFunction parentClass parentDevice config) := by
  have hresult : ∀ result, Throws E (checked result) := by
    intro result tree error h
    rcases result with orderError | ⟨⟩
    · cases h
      exact hchecked orderError
    · cases h
  refine throws_bind (throws_forM fun ho hho => throws_forM fun name hname => ?_) fun _ => ?_
  · exact throws_configureObject (hdesign ho hho name hname)
  refine throws_bind (throws_forM fun _ _ => hresult _) fun _ =>
    throws_bind (hresult _) fun _ => throws_forM fun entry _ => ?_
  unfold configureEntry
  rcases entry.id with innerClass | _ | _ | _
  · dsimp only
    split
    · rename_i hmem
      obtain ⟨ho, hho, rfl⟩ := List.mem_map.mp hmem
      rcases hget : config.get? ho.className entry.index with _ | xmlObj
      · intro tree error h
        cases h
        exact hnoElement _ _
      · refine throws_configureObject (hconfiguration ho hho xmlObj ?_)
        unfold XmlObject.get? at hget
        split at hget
        · exact List.mem_of_head? hget
        · exact List.mem_of_getElem? hget
    · exact throws_pure _
  all_goals exact throws_pure _

end Configuring

section Ending

variable (design : Design)

/-- The design itself instantiates an object of the class below each of the parent. -/
def ByDesign (parent child : ParentClass) : Prop :=
  ∃ ho ∈ innerObjects design .design parent, ho.objects ≠ [] ∧ child = .named ho.className

/-- The configuration can have elements of the class below those of the parent. -/
def ByConfiguration (parent child : ParentClass) : Prop :=
  ∃ ho ∈ innerObjects design .configuration parent, child = .named ho.className

/-- No class of the configuration leads by design to a cycle. -/
def NoCycleByDesign : Prop :=
  ∀ parent, Relation.ReflTransGen (ByConfiguration design) .root parent →
    ∀ child, Relation.ReflTransGen (ByDesign design) parent child →
      ¬Relation.TransGen (ByDesign design) child child

/-- With a stack that is deep enough, the configurator returns or throws by itself. -/
def Ends (config : XmlObject) : Prop :=
  ∃ depth, ∀ depth' ≥ depth, configure design depth' config ≠ .error .tooDeep

def ClassEnds (className : Bytes) (xmlObj : XmlObject) : Prop :=
  ∃ depth, ∀ depth' ≥ depth, ∀ parent,
    Throws (· ≠ .tooDeep) (configureClass design depth' className xmlObj parent)

variable {design}

/-- What holds of each member from some depth on holds of all from some depth on. -/
theorem exists_depth_of_forall {α : Type} {l : List α} {P : α → Nat → Prop}
    (h : ∀ a ∈ l, ∃ depth, ∀ depth' ≥ depth, P a depth') :
    ∃ depth, ∀ depth' ≥ depth, ∀ a ∈ l, P a depth' := by
  induction l with
  | nil => exact ⟨0, by simp⟩
  | cons a l ih =>
      obtain ⟨depth, hdepth⟩ := h a List.mem_cons_self
      obtain ⟨depth', hdepth'⟩ := ih fun b hb => h b (List.mem_cons_of_mem _ hb)
      refine ⟨max depth depth', fun d hd => List.forall_mem_cons.mpr ⟨?_, ?_⟩⟩
      · exact hdepth d (le_of_max_le_left hd)
      · exact hdepth' d (le_of_max_le_right hd)

theorem children_end {parentClass : ParentClass} {config : XmlObject}
    (hdesign : ∀ ho ∈ innerObjects design .design parentClass, ∀ name ∈ ho.objects,
      ClassEnds design ho.className (emptyXmlObject name))
    (hconfiguration : ∀ ho ∈ innerObjects design .configuration parentClass,
      ∀ xmlObj ∈ config.collection ho.className, ClassEnds design ho.className xmlObj) :
    ∃ depth, ∀ depth' ≥ depth, ∀ parentDevice, Throws (· ≠ .tooDeep)
      (configureChildren design (configureClass design depth') parentClass parentDevice
        config) := by
  obtain ⟨depth, hdepth⟩ := exists_depth_of_forall fun ho hho =>
    exists_depth_of_forall fun name hname => hdesign ho hho name hname
  obtain ⟨depth', hdepth'⟩ := exists_depth_of_forall fun ho hho =>
    exists_depth_of_forall fun xmlObj hxmlObj => hconfiguration ho hho xmlObj hxmlObj
  refine ⟨max depth depth', fun d hd parentDevice => ?_⟩
  exact throws_configureChildren
    (fun ho hho name hname => hdepth d (le_of_max_le_left hd) ho hho name hname) (by simp) (by simp)
    (fun ho hho xmlObj hxmlObj => hdepth' d (le_of_max_le_right hd) ho hho xmlObj hxmlObj)

theorem classEnds_of_children {className : Bytes} {xmlObj : XmlObject}
    (h : ∃ depth, ∀ depth' ≥ depth, ∀ parentDevice, Throws (· ≠ .tooDeep)
      (configureChildren design (configureClass design depth') (.named className) parentDevice
        xmlObj)) : ClassEnds design className xmlObj := by
  obtain ⟨depth, hdepth⟩ := h
  refine ⟨depth + 1, fun d hd parent => ?_⟩
  obtain ⟨d, rfl⟩ : ∃ d', d = d' + 1 := ⟨d - 1, by omega⟩
  refine throws_bind throws_newAddressSpaceObject fun asItem =>
    throws_bind (throws_newLinkedDevice _ _ _) fun dItem => throws_bind ?_ fun _ => throws_pure _
  exact hdepth d (by omega) _

theorem collection_emptyXmlObject (name className : Bytes) :
    (emptyXmlObject name).collection className = [] := by
  simp [XmlObject.collection, emptyXmlObject]

/-- Below a parent without a way to a cycle, what the design instantiates ends. -/
theorem byDesign_ends {parent : ParentClass}
    (h : Acc (fun child parent => ByDesign design parent child) parent) :
    ∀ ho ∈ innerObjects design .design parent, ∀ name ∈ ho.objects,
      ClassEnds design ho.className (emptyXmlObject name) := by
  induction h with
  | intro parent _ ih =>
      intro ho hho name hname
      apply classEnds_of_children
      refine children_end ?_ ?_
      · exact ih _ ⟨ho, hho, List.ne_nil_of_mem hname, rfl⟩
      · intro ho' _ xmlObj hxmlObj
        rw [collection_emptyXmlObject] at hxmlObj
        cases hxmlObj

theorem sizeOf_lt_of_mem_collection {config xmlObj : XmlObject} {className : Bytes}
    (h : xmlObj ∈ config.collection className) : sizeOf xmlObj < sizeOf config := by
  have helement : ∃ element ∈ config.elements, element.2 = xmlObj := by
    unfold XmlObject.collection at h
    have hmem : xmlObj ∈ (config.elements.filter fun e => e.1 = className).map Prod.snd := by
      split at h
      · exact List.mem_of_mem_take h
      · exact h
    obtain ⟨element, helement, rfl⟩ := List.mem_map.mp hmem
    exact ⟨element, List.mem_of_mem_filter helement, rfl⟩
  obtain ⟨⟨elementClass, element⟩, hmem, rfl⟩ := helement
  have hlt := List.sizeOf_lt_of_mem hmem
  rcases config with ⟨name, elements, calculatedVariables, contentOrder⟩
  simp only [Prod.mk.sizeOf_spec, XmlObject.mk.sizeOf_spec] at hlt ⊢
  omega

/-- If no class of the configuration leads to a cycle, each element of it ends. -/
theorem byConfiguration_ends
    (hacc : ∀ parent, Relation.ReflTransGen (ByConfiguration design) .root parent →
      Acc (fun child parent => ByDesign design parent child) parent)
    {config : XmlObject} {parent : ParentClass}
    (hparent : Relation.ReflTransGen (ByConfiguration design) .root parent) :
    ∀ ho ∈ innerObjects design .configuration parent,
      ∀ xmlObj ∈ config.collection ho.className, ClassEnds design ho.className xmlObj := by
  induction hn : sizeOf config using Nat.strong_induction_on generalizing config parent with
  | h n ih =>
      intro ho hho xmlObj hxmlObj
      have hchild := hparent.tail ⟨ho, hho, rfl⟩
      apply classEnds_of_children
      refine children_end (byDesign_ends (hacc _ hchild)) ?_
      exact ih _ (hn ▸ sizeOf_lt_of_mem_collection hxmlObj) hchild rfl

theorem mem_of_byDesign {parent child : ParentClass} (h : ByDesign design parent child) :
    parent ∈ (ParentClass.root :: design.classes.map fun c => .named c.name).toFinset := by
  obtain ⟨ho, hho, -⟩ := h
  rw [List.mem_toFinset]
  cases parent with
  | root => exact List.mem_cons_self
  | named className =>
      have hmem := List.mem_of_mem_filter hho
      obtain ⟨c, hc, -⟩ := List.mem_flatMap.mp hmem
      rw [List.mem_filter, decide_eq_true_eq] at hc
      exact List.mem_cons_of_mem _ (List.mem_map.mpr ⟨c, hc.1, by rw [hc.2]⟩)

theorem ends_of_noCycleByDesign (h : NoCycleByDesign design) (config : XmlObject) :
    Ends design config := by
  have hacc : ∀ parent, Relation.ReflTransGen (ByConfiguration design) .root parent →
      Acc (fun child parent => ByDesign design parent child) parent :=
    fun parent hparent => acc_of_not_cycle _ (fun _ _ => mem_of_byDesign) (h parent hparent)
  obtain ⟨depth, hdepth⟩ := @children_end design .root config (byDesign_ends (hacc .root .refl))
    (byConfiguration_ends hacc .refl)
  refine ⟨depth, fun d hd hrun => ?_⟩
  rw [configure] at hrun
  rcases hresult : (configureChildren design (configureClass design d) .root (some .root)
      config).run emptyDeviceTree with error | result
  · rw [hresult] at hrun
    cases hrun
    exact hdepth d hd _ _ _ hresult rfl
  · rw [hresult] at hrun
    cases hrun

end Ending

section Endless

variable {design : Design} {configureFunction : ConfigureClass}

theorem checked_ok {result : Except ContentOrderError Unit} (h : result = .ok ⟨⟩)
    {E : ConfigureError → Prop} : Throws E (checked result) := by
  subst h
  exact throws_pure _

/-- The content order has one entry for each element there is. -/
def WellOrdered (design : Design) (parentClass : ParentClass) (config : XmlObject) : Prop :=
  (∀ ho ∈ innerObjects design .configuration parentClass,
    validateContentOrder config ho.className = .ok ⟨⟩) ∧
  validateContentOrderArray config.contentOrder config.calculatedVariables
    .calculatedVariable = .ok ⟨⟩

theorem wellOrdered_emptyXmlObject (parentClass : ParentClass) (name : Bytes) :
    WellOrdered design parentClass (emptyXmlObject name) := by
  refine ⟨fun ho _ => ?_, rfl⟩
  rw [validateContentOrder, collection_emptyXmlObject]
  split
  · rfl
  · rfl

theorem throws_emptyXmlObject (depth : Nat) (className name : Bytes)
    (parent : Option DeviceParent) : Throws (· = .tooDeep)
      (configureClass design depth className (emptyXmlObject name) parent) := by
  induction depth generalizing className name parent with
  | zero =>
      intro tree error h
      cases h
      rfl
  | succ depth ih =>
      obtain ⟨horder, hvariables⟩ :=
        @wellOrdered_emptyXmlObject design (.named className) name
      refine throws_bind throws_newAddressSpaceObject fun asItem =>
        throws_bind (throws_newLinkedDevice _ _ _) fun dItem =>
          throws_bind (throws_bind (throws_forM fun ho _ => throws_forM fun name' _ => ?_)
            fun _ => ?_) fun _ => throws_pure _
      · exact throws_configureObject (ih ho.className name')
      · refine throws_bind (throws_forM fun ho hho => checked_ok (horder ho hho)) fun _ =>
          throws_bind (checked_ok hvariables) fun _ => throws_forM ?_
        intro entry hentry
        cases hentry

/-- A parent that leads by design to a cycle. -/
def LeadsToCycle (design : Design) (parent : ParentClass) : Prop :=
  ∃ child, Relation.ReflTransGen (ByDesign design) parent child ∧
    Relation.TransGen (ByDesign design) child child

theorem isTooDeep_children_of_cycle {parentClass : ParentClass}
    (hcycle : LeadsToCycle design parentClass)
    (hbelow : ∀ className xmlObj parent, LeadsToCycle design (.named className) →
      IsTooDeep (configureFunction className xmlObj parent))
    (hthrows : ∀ className name parent,
      Throws (· = .tooDeep) (configureFunction className (emptyXmlObject name) parent))
    (parentDevice : Option DeviceParent) (config : XmlObject) :
    IsTooDeep (configureChildren design configureFunction parentClass parentDevice config) := by
  obtain ⟨cyclic, hreach, hcyclic⟩ := hcycle
  obtain ⟨_, ⟨ho, hho, hobjects, rfl⟩, hreach'⟩ := exists_edge_of_cycle hreach hcyclic
  obtain ⟨name, hname⟩ := List.exists_mem_of_ne_nil _ hobjects
  refine isTooDeep_bind_left (isTooDeep_forM (fun ho' _ => throws_forM fun name' _ => ?_) hho
    (isTooDeep_forM (fun name' _ => ?_) hname ?_))
  · exact throws_configureObject (hthrows ho'.className name')
  · exact throws_configureObject (hthrows ho.className name')
  · exact isTooDeep_configureObject fun parent =>
      hbelow ho.className _ parent ⟨cyclic, hreach', hcyclic⟩

theorem isTooDeep_of_cycle (depth : Nat) (className : Bytes) (xmlObj : XmlObject)
    (parent : Option DeviceParent) (hcycle : LeadsToCycle design (.named className)) :
    IsTooDeep (configureClass design depth className xmlObj parent) := by
  induction depth generalizing className xmlObj parent with
  | zero => exact fun _ => rfl
  | succ depth ih =>
      exact isTooDeep_bind_right throws_newAddressSpaceObject fun asItem =>
        isTooDeep_bind_right (throws_newLinkedDevice _ _ _) fun dItem => isTooDeep_bind_left
          (isTooDeep_children_of_cycle hcycle ih (throws_emptyXmlObject depth) _ _)

/-- A configuration with one element, of this class. -/
def singleElement (className : Bytes) (element : XmlObject) : XmlObject :=
  { name := [], elements := [(className, element)], calculatedVariables := 0
    contentOrder := [⟨.element className, 0⟩] }

theorem collection_singleElement (className className' : Bytes) (element : XmlObject) :
    (singleElement className element).collection className' =
      if className' = className then [element] else [] := by
  by_cases hname : className' = className
  · simp [XmlObject.collection, singleElement, hname]
  · simp [XmlObject.collection, singleElement, hname, Ne.symm hname]

theorem wellOrdered_singleElement (parentClass : ParentClass) (className : Bytes)
    (element : XmlObject) : WellOrdered design parentClass (singleElement className element) := by
  refine ⟨fun ho _ => ?_, ?_⟩
  · rw [validateContentOrder, collection_singleElement]
    by_cases hname : ho.className = className
    · by_cases hmeta : className = standardMetaData
      · simp [hname, hmeta, validateContentOrderOptional, singleElement]
        rfl
      · simp only [hname, if_true, if_neg hmeta]
        exact validateContentOrderArray_eq_ok_iff.2 (by simp [singleElement])
    · by_cases hmeta : ho.className = standardMetaData
      · simp [if_neg hname, if_pos hmeta, validateContentOrderOptional]
        rfl
      · simp only [if_neg hname, if_neg hmeta]
        exact validateContentOrderArray_eq_ok_iff.2 (by simp [singleElement, Ne.symm hname])
  · exact validateContentOrderArray_eq_ok_iff.2 (by simp [singleElement])

/-- Some configuration enters a cycle that its classes lead to. -/
theorem exists_isTooDeep {parent cyclic : ParentClass}
    (h : Relation.ReflTransGen (ByConfiguration design) parent cyclic)
    (hcycle : LeadsToCycle design cyclic) : ∃ config, ∀ depth parentDevice,
      IsTooDeep (configureChildren design (configureClass design depth) parent parentDevice
        config) := by
  induction h using Relation.ReflTransGen.head_induction_on with
  | refl =>
      refine ⟨emptyXmlObject [], fun depth parentDevice => ?_⟩
      exact isTooDeep_children_of_cycle hcycle (isTooDeep_of_cycle depth)
        (throws_emptyXmlObject depth) _ _
  | @head parent child hedge _ ih =>
      obtain ⟨ho, hho, rfl⟩ := hedge
      obtain ⟨element, helement⟩ := ih
      have hclass : ∀ depth parent,
          IsTooDeep (configureClass design depth ho.className element parent) := by
        intro depth parent
        rcases depth with _ | depth
        · exact fun _ => rfl
        · exact isTooDeep_bind_right throws_newAddressSpaceObject fun asItem =>
            isTooDeep_bind_right (throws_newLinkedDevice _ _ _) fun dItem =>
              isTooDeep_bind_left (helement depth _)
      refine ⟨singleElement ho.className element, fun depth parentDevice => ?_⟩
      obtain ⟨horder, hvariables⟩ :=
        @wellOrdered_singleElement design parent ho.className element
      refine isTooDeep_bind_right (throws_forM fun ho' _ => throws_forM fun name _ =>
        throws_configureObject (throws_emptyXmlObject depth ho'.className name)) fun _ =>
          isTooDeep_bind_right (throws_forM fun ho hho => checked_ok (horder ho hho)) fun _ =>
            isTooDeep_bind_right (checked_ok hvariables) fun _ => ?_
      have hentry : IsTooDeep (configureEntry design (configureClass design depth) parent
          parentDevice (singleElement ho.className element) ⟨.element ho.className, 0⟩) := by
        have hget : (singleElement ho.className element).get? ho.className 0 = some element := by
          simp [XmlObject.get?, collection_singleElement]
        simp only [configureEntry, hget]
        rw [if_pos (List.mem_map_of_mem hho)]
        exact isTooDeep_configureObject (hclass depth)
      exact isTooDeep_bind_left hentry

/-- The configurator ends for every configuration exactly when no class that the root can
come to contain by configuration leads by design to a cycle. -/
theorem forall_ends_iff (design : Design) :
    (∀ config, Ends design config) ↔ NoCycleByDesign design := by
  constructor
  · intro hends parent hparent child hchild hcycle
    obtain ⟨config, hconfig⟩ := exists_isTooDeep hparent ⟨child, hchild, hcycle⟩
    obtain ⟨depth, hdepth⟩ := hends config
    refine hdepth depth le_rfl ?_
    have hrun := hconfig depth (some .root) emptyDeviceTree
    rw [configure]
    change (·.2) <$> configureChildren design (configureClass design depth) .root (some .root)
      config emptyDeviceTree = _
    rw [hrun]
    rfl
  · exact ends_of_noCycleByDesign

/-- A class with an object of itself, by design. -/
def nestedDesign : Design :=
  { classes := [
      { name := text "Crate", deviceLogic := false, cacheVariables := [], configEntries := []
        hasObjects := [⟨text "Crate", .design, [text "inner"]⟩] }]
    root := [⟨text "Crate", .design, [text "outer"]⟩] }

theorem nestedDesign_endless :
    validate nestedDesign = .ok ⟨⟩ ∧ ∃ config, ¬Ends nestedDesign config := by
  refine ⟨by decide, emptyXmlObject [], ?_⟩
  rintro ⟨depth, hdepth⟩
  have hroot : ByDesign nestedDesign .root (.named (text "Crate")) :=
    ⟨⟨text "Crate", .design, [text "outer"]⟩, by decide, by simp, rfl⟩
  have hcrate : ByDesign nestedDesign (.named (text "Crate")) (.named (text "Crate")) :=
    ⟨⟨text "Crate", .design, [text "inner"]⟩, by decide, by simp, rfl⟩
  have hrun := isTooDeep_children_of_cycle ⟨_, .single hroot, .single hcrate⟩
    (isTooDeep_of_cycle depth) (throws_emptyXmlObject depth) (some .root) (emptyXmlObject [])
    emptyDeviceTree
  refine hdepth depth le_rfl ?_
  rw [configure]
  change (·.2) <$> configureChildren nestedDesign (configureClass nestedDesign depth) .root
    (some .root) (emptyXmlObject []) emptyDeviceTree = _
  rw [hrun]
  rfl

end Endless

end Quasar

end Supernova
