/-
The device-logic objects mirror the configuration: below an object there is one object for
each that the design and the configuration instantiate there, in their order, and below it
likewise.  So the validation of the objects is a statement about the configuration.
-/
import Supernova.DeviceValidation

namespace Supernova

attribute [local semireducible] ByteArray.toList.loop

namespace Quasar

section Calls

variable (design : Design) (parent : ParentClass) (config : XmlObject)

/-- The objects that the design asks for, with their classes. -/
def designCalls : List (Bytes × XmlObject) :=
  (innerObjects design .design parent).flatMap fun ho =>
    ho.objects.map fun name => (ho.className, emptyXmlObject name)

/-- The object that an entry of the content order asks for. -/
def entryCall (entry : ContentOrder) : Option (Bytes × XmlObject) :=
  match entry.id with
  | .element innerClass =>
      if innerClass ∈ (innerObjects design .configuration parent).map HasObjects.className then
        (config.get? innerClass entry.index).map fun xmlObj => (innerClass, xmlObj)
      else none
  | _ => none

/-- All objects that are configured under a parent. -/
def calls : List (Bytes × XmlObject) :=
  designCalls design parent ++ config.contentOrder.filterMap (entryCall design parent config)

/-- Those of them that have a device-logic object. -/
def deviceCalls : List (Bytes × XmlObject) :=
  (calls design parent config).filter fun call => classHasDeviceLogic design call.1

/-- The objects of one class that a configuration has under a parent, and the design. -/
def instances (className : Bytes) : List XmlObject :=
  ((innerObjects design .design parent).filter fun ho => ho.className = className).flatMap
      (fun ho => ho.objects.map emptyXmlObject) ++ config.collection className

end Calls

section Configured

variable {design : Design} {configureFunction : ConfigureClass} {parent : ParentClass}
  {parentDevice : Option DeviceParent} {config : XmlObject} {tree tree' : DeviceTree}

theorem forM_flatMap {α β : Type} {f : β → Configure Unit} {g : α → List β} (l : List α) :
    (l.flatMap g).forM f = l.forM fun a => (g a).forM f := by
  induction l with
  | nil => rfl
  | cons a l ih =>
      simp only [List.forM_eq_forM] at ih ⊢
      rw [List.flatMap_cons, List.forM_append, List.forM_cons, ih]

theorem forM_designCalls :
    ((innerObjects design .design parent).forM fun ho =>
      ho.objects.forM (writeConfigureObjectByDesign design configureFunction parent
        parentDevice ho)) =
      (designCalls design parent).forM fun call =>
        configureObject design configureFunction parent parentDevice call.1 call.2 := by
  rw [designCalls, forM_flatMap]
  congr 1
  funext ho
  simp only [List.forM_eq_forM]
  rw [List.forM_map]
  rfl

/-- An entry of the content order does what it asks for, or nothing. -/
theorem configureEntry_eq_ok {entry : ContentOrder}
    (h : configureEntry design configureFunction parent parentDevice config entry tree =
      .ok (⟨⟩, tree')) :
    match entryCall design parent config entry with
    | none => tree' = tree
    | some call => configureObject design configureFunction parent parentDevice call.1 call.2
        tree = .ok (⟨⟩, tree') := by
  unfold configureEntry at h
  unfold entryCall
  rcases hid : entry.id with innerClass | _ | _ | _
  · simp only [hid] at h ⊢
    by_cases hmem : innerClass ∈
        (innerObjects design .configuration parent).map HasObjects.className
    · rw [if_pos hmem] at h ⊢
      rcases hget : config.get? innerClass entry.index with _ | xmlObj
      · rw [hget] at h
        cases h
      · simp only [hget] at h
        exact h
    · rw [if_neg hmem] at h ⊢
      cases h
      rfl
  all_goals
    simp only [hid] at h ⊢
    cases h
    rfl

theorem forM_entryCalls {entries : List ContentOrder}
    (h : entries.forM (configureEntry design configureFunction parent parentDevice config)
      tree = .ok (⟨⟩, tree')) :
    (entries.filterMap (entryCall design parent config)).forM (fun call =>
      configureObject design configureFunction parent parentDevice call.1 call.2) tree =
        .ok (⟨⟩, tree') := by
  induction entries generalizing tree with
  | nil => exact h
  | cons entry entries ih =>
      rw [List.forM_eq_forM, List.forM_cons, configure_bind_eq_ok] at h
      obtain ⟨⟨⟩, tree₁, hentry, hrest⟩ := h
      have hcall := configureEntry_eq_ok hentry
      rw [List.filterMap_cons]
      rcases hasked : entryCall design parent config entry with _ | call <;> rw [hasked] at hcall
      · obtain rfl : tree₁ = tree := hcall
        exact ih hrest
      · simp only [List.forM_eq_forM]
        rw [List.forM_cons, configure_bind_eq_ok]
        exact ⟨⟨⟩, tree₁, hcall, ih hrest⟩

/-- Configuring what is under a parent is configuring one object after the other. -/
theorem configureChildren_eq_ok
    (h : configureChildren design configureFunction parent parentDevice config tree =
      .ok (⟨⟩, tree')) :
    (∀ ho ∈ innerObjects design .configuration parent,
      validateContentOrder config ho.className = .ok ⟨⟩) ∧
    (calls design parent config).forM (fun call =>
      configureObject design configureFunction parent parentDevice call.1 call.2) tree =
        .ok (⟨⟩, tree') := by
  simp only [configureChildren, writeConfigureObjectByConfiguration, configure_bind_eq_ok] at h
  obtain ⟨⟨⟩, tree₁, hdesign, ⟨⟩, tree₂, hvalidate, ⟨⟩, tree₃, hvariables, hentries⟩ := h
  obtain ⟨hvalid, rfl⟩ := forM_checked_eq_ok hvalidate
  obtain ⟨-, rfl⟩ := checked_eq_ok.1 hvariables
  refine ⟨hvalid, ?_⟩
  rw [forM_designCalls] at hdesign
  rw [calls, List.forM_eq_forM, List.forM_append, configure_bind_eq_ok]
  exact ⟨⟨⟩, tree₁, hdesign, forM_entryCalls hentries⟩

end Configured

section Instances

variable {design : Design} {parent : ParentClass} {config : XmlObject} {className : Bytes}

/-- The calls for one class. -/
def callsOf (className : Bytes) (calls : List (Bytes × XmlObject)) : List XmlObject :=
  (calls.filter fun call => call.1 = className).map Prod.snd

theorem callsOf_designCalls : callsOf className (designCalls design parent) =
    ((innerObjects design .design parent).filter fun ho => ho.className = className).flatMap
      fun ho => ho.objects.map emptyXmlObject := by
  rw [designCalls, callsOf]
  induction innerObjects design .design parent with
  | nil => rfl
  | cons ho hasObjects ih =>
      rw [List.flatMap_cons, List.filter_append, List.map_append, ih, List.filter_cons]
      by_cases hclass : ho.className = className
      · simp [hclass, List.filter_map, Function.comp_def]
      · simp [hclass, List.filter_map, Function.comp_def]

theorem callsOf_append (first second : List (Bytes × XmlObject)) :
    callsOf className (first ++ second) = callsOf className first ++ callsOf className second := by
  rw [callsOf, List.filter_append, List.map_append]
  rfl

theorem callsOf_entryCalls (hmeta : className ≠ standardMetaData)
    (hclass : className ∈ (innerObjects design .configuration parent).map HasObjects.className)
    (entries : List ContentOrder) :
    callsOf className (entries.filterMap (entryCall design parent config)) =
      ((entries.filter fun entry => entry.id = .element className).map
        ContentOrder.index).filterMap fun index => (config.collection className)[index]? := by
  induction entries with
  | nil => rfl
  | cons entry entries ih =>
      rw [List.filterMap_cons, List.filter_cons]
      by_cases hid : entry.id = .element className
      · have hcall : entryCall design parent config entry =
            (config.collection className)[entry.index]?.map fun xmlObj => (className, xmlObj) := by
          rw [entryCall, hid]
          simp only [if_pos hclass, XmlObject.get?, if_neg hmeta]
        rw [hcall, if_pos (by simpa using hid), List.map_cons, List.filterMap_cons]
        rcases (config.collection className)[entry.index]? with _ | xmlObj
        · exact ih
        · simp only [Option.map_some, ← ih]
          simp [callsOf]
      · rw [if_neg (by simpa using hid), ← ih]
        rcases hcall : entryCall design parent config entry with _ | call
        · rfl
        · have hother : call.1 ≠ className := by
            unfold entryCall at hcall
            rcases hentry : entry.id with innerClass | _ | _ | _
            · simp only [hentry] at hcall
              split_ifs at hcall
              obtain ⟨xmlObj, -, rfl⟩ := Option.map_eq_some_iff.mp hcall
              rintro rfl
              exact hid hentry
            all_goals
              simp only [hentry] at hcall
              cases hcall
          simp [callsOf, hother]

theorem filterMap_range_getElem? {α : Type} (l : List α) :
    ((List.range l.length).filterMap fun i => l[i]?) = l := by
  induction l with
  | nil => rfl
  | cons a l ih =>
      rw [List.length_cons, List.range_succ_eq_map, List.filterMap_cons, List.filterMap_map]
      simp only [List.getElem?_cons_zero, Function.comp_def, List.getElem?_cons_succ, ih]

/-- What is configured of a class is what the design and the configuration have of it. -/
theorem callsOf_calls (hmeta : className ≠ standardMetaData)
    (hclass : className ∈ (innerObjects design .configuration parent).map HasObjects.className)
    (hvalid : validateContentOrder config className = .ok ⟨⟩) :
    (callsOf className (calls design parent config)).Perm
      (instances design parent config className) := by
  rw [calls, callsOf_append, callsOf_designCalls, callsOf_entryCalls hmeta hclass, instances]
  refine List.Perm.append_left _ ?_
  rw [validateContentOrder, if_neg hmeta, validateContentOrderArray_eq_ok_iff] at hvalid
  refine (hvalid.filterMap _).trans ?_
  rw [filterMap_range_getElem?]

end Instances

section Mirror

variable {design : Design}

/-- The children of an object. -/
def DeviceTree.kids (tree : DeviceTree) (id : ObjectId) : List (Bytes × ObjectId) :=
  (tree.objects[id]?.map DeviceObject.children).getD []

/-- The children of a parent mirror what is configured under it; they are younger than it, and
everything below it is older than the objects to come. -/
inductive Mirrors (design : Design) (kids : ObjectId → List (Bytes × ObjectId)) (next : Nat) :
    Nat → ParentClass → XmlObject → List (Bytes × ObjectId) → Prop
  | intro {first : Nat} {parent : ParentClass} {config : XmlObject}
      {children : List (Bytes × ObjectId)}
      (valid : ∀ ho ∈ innerObjects design .configuration parent,
        validateContentOrder config ho.className = .ok ⟨⟩)
      (classes : (deviceCalls design parent config).map Prod.fst = children.map Prod.fst)
      (range : ∀ child ∈ children, first ≤ child.2 ∧ child.2 < next)
      (below : ∀ pair ∈ (deviceCalls design parent config).zip children,
        Mirrors design kids next (pair.2.2 + 1) (.named pair.1.1) pair.1.2 (kids pair.2.2)) :
      Mirrors design kids next first parent config children

/-- Some children mirror some of the calls. -/
structure Mirrored (design : Design) (kids : ObjectId → List (Bytes × ObjectId))
    (next first : Nat) (calls : List (Bytes × XmlObject)) (children : List (Bytes × ObjectId)) :
    Prop where
  classes : calls.map Prod.fst = children.map Prod.fst
  range : ∀ child ∈ children, first ≤ child.2 ∧ child.2 < next
  below : ∀ pair ∈ calls.zip children,
    Mirrors design kids next (pair.2.2 + 1) (.named pair.1.1) pair.1.2 (kids pair.2.2)

variable {kids kids' : ObjectId → List (Bytes × ObjectId)} {next next' first first' : Nat}
  {parent : ParentClass} {config : XmlObject} {children children' : List (Bytes × ObjectId)}
  {calls calls' : List (Bytes × XmlObject)}

/-- Objects that come later, and changes to older ones, do not matter. -/
theorem Mirrors.frame (h : Mirrors design kids next first parent config children)
    (hnext : next ≤ next') (hkids : ∀ id, first ≤ id → id < next → kids' id = kids id) :
    Mirrors design kids' next' first parent config children := by
  induction h with
  | @intro first parent config children valid classes range below ih =>
      refine .intro valid classes (fun child hchild => ?_) fun pair hpair => ?_
      · exact ⟨(range child hchild).1, (range child hchild).2.trans_le hnext⟩
      · obtain ⟨hfirst, hlt⟩ := range pair.2 (List.of_mem_zip hpair).2
        rw [hkids _ hfirst hlt]
        exact ih pair hpair fun id hid hidlt => hkids id (by omega) hidlt

theorem Mirrored.frame (h : Mirrored design kids next first calls children)
    (hnext : next ≤ next') (hfirst : first' ≤ first)
    (hkids : ∀ id, first ≤ id → id < next → kids' id = kids id) :
    Mirrored design kids' next' first' calls children where
  classes := h.classes
  range child hchild := by
    obtain ⟨hle, hlt⟩ := h.range child hchild
    exact ⟨hfirst.trans hle, hlt.trans_le hnext⟩
  below pair hpair := by
    obtain ⟨hle, hlt⟩ := h.range pair.2 (List.of_mem_zip hpair).2
    rw [hkids _ hle hlt]
    exact (h.below pair hpair).frame hnext fun id hid hidlt => hkids id (by omega) hidlt

theorem Mirrored.append (h : Mirrored design kids next first calls children)
    (h' : Mirrored design kids next first calls' children') :
    Mirrored design kids next first (calls ++ calls') (children ++ children') where
  classes := by rw [List.map_append, List.map_append, h.classes, h'.classes]
  range child hchild := (List.mem_append.mp hchild).elim (h.range child) (h'.range child)
  below pair hpair := by
    have hlength : calls.length = children.length := by
      simpa using congrArg List.length h.classes
    rw [List.zip_append hlength] at hpair
    exact (List.mem_append.mp hpair).elim (h.below pair) (h'.below pair)

theorem Mirrored.mirrors (hvalid : ∀ ho ∈ innerObjects design .configuration parent,
      validateContentOrder config ho.className = .ok ⟨⟩)
    (h : Mirrored design kids next first (deviceCalls design parent config) children) :
    Mirrors design kids next first parent config children :=
  .intro hvalid h.classes h.range h.below

end Mirror

section Building

variable {design : Design} {tree tree₁ tree' : DeviceTree}

@[simp] def DeviceTree.childrenOf (tree : DeviceTree) : DeviceParent → List (Bytes × ObjectId)
  | .root => tree.rootChildren
  | .object id => tree.kids id

/-- Of the objects that were there, only the parent gets more children. -/
structure AddsTo (parentDevice : Option DeviceParent) (added : List (Bytes × ObjectId))
    (tree tree' : DeviceTree) : Prop where
  length_le : tree.objects.length ≤ tree'.objects.length
  kids : ∀ id < tree.objects.length, parentDevice ≠ some (.object id) →
    tree'.kids id = tree.kids id
  root : parentDevice ≠ some .root → tree'.rootChildren = tree.rootChildren
  children : ∀ parent ∈ parentDevice, tree'.childrenOf parent = tree.childrenOf parent ++ added

/-- The parent is there to get children. -/
def ParentPlaced (parentDevice : Option DeviceParent) (tree : DeviceTree) : Prop :=
  ∃ parent, parentDevice = some parent ∧
    ∀ id, parent = .object id → id < tree.objects.length

theorem AddsTo.refl (parentDevice : Option DeviceParent) (tree : DeviceTree) :
    AddsTo parentDevice [] tree tree where
  length_le := le_rfl
  kids _ _ _ := rfl
  root _ := rfl
  children _ _ := (List.append_nil _).symm

theorem AddsTo.trans {parentDevice : Option DeviceParent}
    {added added' : List (Bytes × ObjectId)} (h : AddsTo parentDevice added tree tree₁)
    (h' : AddsTo parentDevice added' tree₁ tree') :
    AddsTo parentDevice (added ++ added') tree tree' where
  length_le := h.length_le.trans h'.length_le
  kids id hid hne := (h'.kids id (hid.trans_le h.length_le) hne).trans (h.kids id hid hne)
  root hne := (h'.root hne).trans (h.root hne)
  children parent hparent := by
    rw [h'.children parent hparent, h.children parent hparent, List.append_assoc]

theorem kids_modify_of_ne {id i : ObjectId} {f : DeviceObject → DeviceObject} (hne : i ≠ id) :
    DeviceTree.kids { tree with objects := tree.objects.modify id f } i = tree.kids i := by
  simp [DeviceTree.kids, hne.symm]

theorem kids_add {id : ObjectId} {added : Bytes × ObjectId} (hid : id < tree.objects.length) :
    DeviceTree.kids { tree with objects := tree.objects.modify id fun d =>
      { d with children := d.children ++ [added] } } id = tree.kids id ++ [added] := by
  simp [DeviceTree.kids, hid]

/-- What configuring an object of a class makes: the object is the next one, and mirrors its
configuration. -/
structure BuildsDevice (design : Design) (className : Bytes) (xmlObj : XmlObject)
    (result : Option ObjectId) (tree tree' : DeviceTree) : Prop where
  adds : AddsTo none [] tree tree'
  built : classHasDeviceLogic design className = true →
    result = some tree.objects.length ∧ tree.objects.length < tree'.objects.length ∧
      Mirrors design tree'.kids tree'.objects.length (tree.objects.length + 1)
        (.named className) xmlObj (tree'.kids tree.objects.length)

variable {configureFunction : ConfigureClass}
  (hfunction : ∀ {className xmlObj parent result tree tree'},
    configureFunction className xmlObj parent tree = .ok (result, tree') →
    BuildsDevice design className xmlObj result tree tree')
  {parent : ParentClass} {parentDevice : Option DeviceParent} {className : Bytes}
  {xmlObj : XmlObject}

omit hfunction in
/-- The new object is given to its parent. -/
theorem BuildsDevice.add {device : DeviceParent}
    (h : BuildsDevice design className xmlObj (some tree.objects.length) tree tree₁)
    (hlogic : classHasDeviceLogic design className = true)
    (hplaced : ∀ id, device = .object id → id < tree.objects.length)
    (hadd : Quasar.add device className tree.objects.length tree₁ = .ok (⟨⟩, tree')) :
    AddsTo (some device) [(className, tree.objects.length)] tree tree' ∧
      Mirrored design tree'.kids tree'.objects.length tree.objects.length
        [(className, xmlObj)] [(className, tree.objects.length)] := by
  obtain ⟨-, hlt, hmirrors⟩ := h.built hlogic
  have hlength : tree'.objects.length = tree₁.objects.length := by
    cases device with
    | root => cases hadd; rfl
    | object id => cases hadd; exact List.length_modify ..
  have hkids : ∀ id, device ≠ .object id → tree'.kids id = tree₁.kids id := by
    intro id hne
    cases device with
    | root => cases hadd; rfl
    | object id' =>
        cases hadd
        exact kids_modify_of_ne fun heq => hne (congrArg _ heq.symm)
  have hyounger : ∀ id, tree.objects.length ≤ id → device ≠ .object id := by
    rintro id hid rfl
    exact absurd (hplaced id rfl) (Nat.not_lt.mpr hid)
  refine ⟨⟨?_, ?_, ?_, ?_⟩, ⟨rfl, ?_, ?_⟩⟩
  · rw [hlength]
    exact h.adds.length_le
  · intro id hid hne
    rw [hkids id fun heq => hne (congrArg some heq)]
    exact h.adds.kids id hid (Option.some_ne_none _).symm
  · intro hne
    cases device with
    | root => exact absurd rfl hne
    | object id =>
        cases hadd
        exact h.adds.root (Option.some_ne_none _).symm
  · intro parent hparent
    obtain rfl : device = parent := Option.some.inj hparent
    cases device with
    | root =>
        cases hadd
        exact congrArg (· ++ _) (h.adds.root (Option.some_ne_none _).symm)
    | object id =>
        cases hadd
        have hid := hplaced id rfl
        exact (kids_add (hid.trans_le h.adds.length_le)).trans
          (congrArg (· ++ _) (h.adds.kids id hid (Option.some_ne_none _).symm))
  · intro child hchild
    obtain rfl := List.mem_singleton.mp hchild
    exact ⟨le_rfl, hlength ▸ hlt⟩
  · intro pair hpair
    obtain rfl := List.mem_singleton.mp hpair
    rw [hkids _ (hyounger _ le_rfl)]
    exact hmirrors.frame hlength.ge fun id hid _ => hkids id (hyounger id (by omega))

include hfunction

theorem configureObject_adds (hparent : parentHasDeviceLogic design parent = true)
    (hplaced : ParentPlaced parentDevice tree)
    (h : configureObject design configureFunction parent parentDevice className xmlObj tree =
      .ok (⟨⟩, tree')) :
    ∃ added, AddsTo parentDevice added tree tree' ∧
      Mirrored design tree'.kids tree'.objects.length tree.objects.length
        ([(className, xmlObj)].filter fun call => classHasDeviceLogic design call.1) added := by
  obtain ⟨device, rfl, hid⟩ := hplaced
  unfold configureObject at h
  by_cases hlogic : classHasDeviceLogic design className = true
  · rw [if_pos hlogic, configure_bind_eq_ok] at h
    obtain ⟨result, tree₁, hrun, h⟩ := h
    have hbuilds := hfunction hrun
    obtain ⟨rfl, -⟩ := hbuilds.built hlogic
    rw [List.filter_cons_of_pos (by simpa using hlogic), List.filter_nil]
    refine ⟨_, hbuilds.add hlogic hid ?_⟩
    simpa [hparent] using h
  · rw [if_neg hlogic, configure_bind_eq_ok] at h
    obtain ⟨result, tree₁, hrun, h⟩ := h
    cases h
    have hadds := (hfunction hrun).adds
    rw [List.filter_cons_of_neg (by simpa using hlogic), List.filter_nil]
    refine ⟨[], ⟨hadds.length_le, fun id hid _ => hadds.kids id hid (by simp),
      fun _ => hadds.root (by simp), ?_⟩, rfl, by simp, by simp⟩
    intro parent hparent
    obtain rfl : device = parent := Option.some.inj hparent
    cases device with
    | root => simp [hadds.root]
    | object id => simp [hadds.kids id (hid id rfl)]

theorem forM_configureObject_adds (hparent : parentHasDeviceLogic design parent = true)
    {calls : List (Bytes × XmlObject)} (hplaced : ParentPlaced parentDevice tree)
    (h : calls.forM (fun call =>
      configureObject design configureFunction parent parentDevice call.1 call.2) tree =
        .ok (⟨⟩, tree')) :
    ∃ added, AddsTo parentDevice added tree tree' ∧
      Mirrored design tree'.kids tree'.objects.length tree.objects.length
        (calls.filter fun call => classHasDeviceLogic design call.1) added := by
  induction calls generalizing tree with
  | nil =>
      cases h
      exact ⟨[], AddsTo.refl _ _, rfl, by simp, by simp⟩
  | cons call calls ih =>
      rw [List.forM_eq_forM, List.forM_cons, configure_bind_eq_ok] at h
      obtain ⟨⟨⟩, tree₁, hfirst, hrest⟩ := h
      obtain ⟨added, hadds, hmirrored⟩ := configureObject_adds hfunction hparent hplaced hfirst
      obtain ⟨device, rfl, hid⟩ := hplaced
      obtain ⟨added', hadds', hmirrored'⟩ := ih
        ⟨device, rfl, fun id heq => (hid id heq).trans_le hadds.length_le⟩ hrest
      refine ⟨added ++ added', hadds.trans hadds', ?_⟩
      rw [← List.singleton_append, List.filter_append]
      refine (hmirrored.frame hadds'.length_le le_rfl fun id hle hlt => ?_).append
        (hmirrored'.frame le_rfl hadds.length_le fun _ _ _ => rfl)
      refine hadds'.kids id hlt ?_
      rintro heq
      exact absurd (hid id (Option.some.inj heq)) (Nat.not_lt.mpr hle)

/-- Under a class without device logic nothing that was there changes. -/
theorem forM_configureObject_of_no_logic (hparent : parentHasDeviceLogic design parent = false)
    {calls : List (Bytes × XmlObject)}
    (h : calls.forM (fun call =>
      configureObject design configureFunction parent parentDevice call.1 call.2) tree =
        .ok (⟨⟩, tree')) : AddsTo none [] tree tree' := by
  induction calls generalizing tree with
  | nil =>
      cases h
      exact AddsTo.refl _ _
  | cons call calls ih =>
      rw [List.forM_eq_forM, List.forM_cons, configure_bind_eq_ok] at h
      obtain ⟨⟨⟩, tree₁, hfirst, hrest⟩ := h
      change AddsTo none ([] ++ []) tree tree'
      refine AddsTo.trans ?_ (ih hrest)
      unfold configureObject at hfirst
      by_cases hlogic : classHasDeviceLogic design call.1 = true
      · rw [if_pos hlogic, configure_bind_eq_ok] at hfirst
        obtain ⟨result, tree₂, hrun, hfirst⟩ := hfirst
        have hbuilds := hfunction hrun
        obtain ⟨rfl, -⟩ := hbuilds.built hlogic
        have horphan : registerOrphanedObject call.1 tree.objects.length tree₂ =
            .ok (⟨⟩, tree₁) := by
          simpa [hparent] using hfirst
        cases horphan
        exact ⟨hbuilds.adds.length_le, hbuilds.adds.kids, hbuilds.adds.root, by simp⟩
      · rw [if_neg hlogic, configure_bind_eq_ok] at hfirst
        obtain ⟨result, tree₂, hrun, hfirst⟩ := hfirst
        cases hfirst
        exact (hfunction hrun).adds

omit hfunction in
theorem configureClass_builds (depth : Nat) {parentDevice : Option DeviceParent}
    {result : Option ObjectId}
    (h : configureClass design depth className xmlObj parentDevice tree = .ok (result, tree')) :
    BuildsDevice design className xmlObj result tree tree' := by
  induction depth generalizing className xmlObj parentDevice result tree tree' with
  | zero => cases h
  | succ depth ih =>
      simp only [configureClass, configure_bind_eq_ok] at h
      obtain ⟨asItem, tree₀, hnode, dItem, tree₁, hdevice, ⟨⟩, tree₂, hchildren, h⟩ := h
      cases h
      cases hnode
      obtain ⟨hvalid, hcalls⟩ := configureChildren_eq_ok hchildren
      rcases newLinkedDevice_eq_ok hdevice with ⟨hlogic, rfl, rfl⟩ | ⟨hlogic, rfl, rfl⟩
      · have hparent : parentHasDeviceLogic design (.named className) = false := hlogic
        have hadds := forM_configureObject_of_no_logic ih hparent hcalls
        refine ⟨⟨hadds.length_le, hadds.kids, hadds.root, by simp⟩, fun htrue => ?_⟩
        exact absurd (hlogic.symm.trans htrue) Bool.false_ne_true
      · have hparent : parentHasDeviceLogic design (.named className) = true := hlogic
        have hplaced : ParentPlaced (some (.object tree.objects.length)) { tree with
            asObjects := tree.asObjects + 1
            objects := tree.objects ++ [⟨className, parentDevice, some tree.asObjects, []⟩] } :=
          ⟨_, rfl, fun id heq => by cases heq; simp⟩
        obtain ⟨added, hadds, hmirrored⟩ := forM_configureObject_adds ih hparent hplaced hcalls
        have hlt : tree.objects.length < tree'.objects.length := by
          have hle := hadds.length_le
          simp only [List.length_append, List.length_singleton] at hle
          omega
        have hkids : tree'.kids tree.objects.length = added := by
          have hchildren := hadds.children _ rfl
          simpa [DeviceTree.kids] using hchildren
        refine ⟨⟨hlt.le, fun id hid _ => ?_, fun _ => hadds.root (by simp), by simp⟩,
          fun _ => ⟨rfl, hlt, ?_⟩⟩
        · have hsame := hadds.kids id (hid.trans_le (by simp))
            fun heq => Nat.ne_of_gt hid (DeviceParent.object.inj (Option.some.inj heq))
          rw [hsame]
          simp [DeviceTree.kids, List.getElem?_append_left hid]
        · rw [hkids]
          refine Mirrored.mirrors hvalid ?_
          simpa [deviceCalls] using hmirrored

omit hfunction in
/-- After the configuration, the objects under the root mirror it. -/
theorem configure_mirrors {depth : Nat} {config : XmlObject}
    (h : configure design depth config = .ok tree) :
    Mirrors design tree.kids tree.objects.length 0 .root config tree.rootChildren := by
  obtain ⟨⟨⟨⟩, tree'⟩, hrun, rfl⟩ := except_map_eq_ok.1 h
  obtain ⟨hvalid, hcalls⟩ := configureChildren_eq_ok hrun
  have hplaced : ParentPlaced (some .root) emptyDeviceTree :=
    ⟨.root, rfl, fun id heq => by cases heq⟩
  obtain ⟨added, hadds, hmirrored⟩ :=
    forM_configureObject_adds (configureClass_builds depth) rfl hplaced hcalls
  have hchildren : tree'.rootChildren = added := by
    simpa [emptyDeviceTree] using hadds.children .root rfl
  rw [hchildren]
  exact Mirrored.mirrors hvalid hmirrored

end Building

section Limits

variable (design : Design) (cardinalities : Cardinalities)

/-- The objects with device logic that can be reached through what the configuration
instantiates. -/
inductive Visits : ParentClass → XmlObject → ParentClass → XmlObject → Prop
  | self (parent : ParentClass) (config : XmlObject) : Visits parent config parent config
  | step {parent parent' : ParentClass} {config xmlObj config' : XmlObject} {ho : HasObjects}
      (hho : ho ∈ innerObjects design .configuration parent)
      (hlogic : classHasDeviceLogic design ho.className = true)
      (hmem : xmlObj ∈ instances design parent config ho.className)
      (h : Visits (.named ho.className) xmlObj parent' config') :
      Visits parent config parent' config'

/-- There are as many objects below a parent as the design allows. -/
def WithinLimits (parent : ParentClass) (config : XmlObject) : Prop :=
  ∀ ho ∈ innerObjects design .configuration parent,
    classHasDeviceLogic design ho.className = true →
      (cardinalities parent ho.className).Allows (instances design parent config ho.className).length

variable {design cardinalities}

theorem forall_visits_iff {P : ParentClass → XmlObject → Prop} {parent : ParentClass}
    {config : XmlObject} :
    (∀ parent' config', Visits design parent config parent' config' → P parent' config') ↔
      P parent config ∧ ∀ ho ∈ innerObjects design .configuration parent,
        classHasDeviceLogic design ho.className = true →
          ∀ xmlObj ∈ instances design parent config ho.className, ∀ parent' config',
            Visits design (.named ho.className) xmlObj parent' config' → P parent' config' := by
  constructor
  · intro h
    exact ⟨h parent config (.self parent config), fun ho hho hlogic xmlObj hmem parent' config'
      hvisits => h parent' config' (.step hho hlogic hmem hvisits)⟩
  · rintro ⟨hself, hbelow⟩ parent' config' hvisits
    cases hvisits with
    | self => exact hself
    | step hho hlogic hmem hvisits => exact hbelow _ hho hlogic _ hmem _ _ hvisits

end Limits

section Pairs

variable {calls : List (Bytes × XmlObject)} {children : List (Bytes × ObjectId)}
  {className : Bytes}

theorem length_callsOf_eq (h : calls.map Prod.fst = children.map Prod.fst) :
    (callsOf className calls).length = (collection children className).length := by
  have hcount := congrArg (List.countP fun c => decide (c = className)) h
  simpa [callsOf, collection, List.countP_map, Function.comp_def,
    ← List.countP_eq_length_filter] using hcount

theorem exists_pair_of_mem_right {α β γ : Type} {as : List (α × β)} {bs : List (α × γ)}
    (h : as.map Prod.fst = bs.map Prod.fst) {a : α} {c : γ} (hmem : (a, c) ∈ bs) :
    ∃ b, ((a, b), (a, c)) ∈ as.zip bs := by
  induction as generalizing bs with
  | nil =>
      rw [List.map_nil, eq_comm, List.map_eq_nil_iff] at h
      rw [h] at hmem
      cases hmem
  | cons first as ih =>
      cases bs with
      | nil => cases hmem
      | cons second bs =>
          rw [List.map_cons, List.map_cons, List.cons.injEq] at h
          rcases List.mem_cons.mp hmem with rfl | hmem
          · have hfirst : first.1 = a := h.1
            exact ⟨first.2, List.mem_cons.mpr (.inl (by rw [← hfirst]))⟩
          · obtain ⟨b, hb⟩ := ih h.2 hmem
            exact ⟨b, List.mem_cons_of_mem _ hb⟩

theorem exists_pair_of_mem_left {α β γ : Type} {as : List (α × β)} {bs : List (α × γ)}
    (h : as.map Prod.fst = bs.map Prod.fst) {a : α} {b : β} (hmem : (a, b) ∈ as) :
    ∃ c, ((a, b), (a, c)) ∈ as.zip bs := by
  obtain ⟨c, hc⟩ := exists_pair_of_mem_right h.symm hmem
  refine ⟨c, ?_⟩
  rw [← List.zip_swap]
  exact List.mem_map_of_mem (f := Prod.swap) hc

theorem mem_callsOf {xmlObj : XmlObject} :
    xmlObj ∈ callsOf className calls ↔ (className, xmlObj) ∈ calls := by
  simp [callsOf]

theorem mem_collection {id : ObjectId} :
    id ∈ collection children className ↔ (className, id) ∈ children := by
  simp [collection]

theorem callsOf_filter {p : Bytes → Bool} (h : p className = true) :
    callsOf className (calls.filter fun call => p call.1) = callsOf className calls := by
  rw [callsOf, callsOf, List.filter_filter]
  congr 1
  refine List.filter_congr fun call _ => ?_
  by_cases hclass : call.1 = className
  · simp [hclass, h]
  · simp [hclass]

end Pairs

section Acceptance

variable {design : Design} {cardinalities : Cardinalities} {tree : DeviceTree}

/-- The validation of what mirrors a configuration is about the configuration. -/
theorem Mirrors.validateChildren_iff
    (hmeta : classHasDeviceLogic design standardMetaData = false) {next first : Nat}
    {parent : ParentClass} {config : XmlObject} {children : List (Bytes × ObjectId)}
    (h : Mirrors design tree.kids next first parent config children)
    (hnext : next ≤ tree.objects.length) {depth : Nat} (hdepth : next ≤ first + depth)
    (object : Option ObjectId) :
    validateChildren design cardinalities (validateDevice design cardinalities tree depth) parent
        object children = .ok ⟨⟩ ↔
      ∀ parent' config', Visits design parent config parent' config' →
        WithinLimits design cardinalities parent' config' := by
  induction h generalizing depth object with
  | @intro first parent config children valid classes range below ih =>
      rw [forall_visits_iff, validateChildren_eq_ok, WithinLimits, ← forall₂_and]
      refine forall₂_congr fun ho hho => ?_
      rw [← forall_and]
      refine forall_congr' fun hlogic => ?_
      have hclass : ho.className ∈
          (innerObjects design .configuration parent).map HasObjects.className :=
        List.mem_map_of_mem hho
      have hother : ho.className ≠ standardMetaData := by
        intro heq
        rw [heq, hmeta] at hlogic
        cases hlogic
      have hperm := callsOf_calls hother hclass (valid ho hho)
      have hcalls : callsOf ho.className (deviceCalls design parent config) =
          callsOf ho.className (calls design parent config) := callsOf_filter hlogic
      rw [← hcalls] at hperm
      rw [← hperm.length_eq, length_callsOf_eq classes]
      refine and_congr Iff.rfl ?_
      -- each object stands for the configuration that it mirrors
      have hpair : ∀ {xmlObj : XmlObject} {id : ObjectId},
          ((ho.className, xmlObj), (ho.className, id)) ∈
            (deviceCalls design parent config).zip children →
          (validateDevice design cardinalities tree depth ho.className id = .ok ⟨⟩ ↔
            ∀ parent' config', Visits design (.named ho.className) xmlObj parent' config' →
              WithinLimits design cardinalities parent' config') := by
        intro xmlObj id hmem
        obtain ⟨hfirst, hlt⟩ : first ≤ id ∧ next > id := range _ (List.of_mem_zip hmem).2
        obtain ⟨depth, rfl⟩ : ∃ n, depth = n + 1 := ⟨depth - 1, by omega⟩
        obtain ⟨device, hdevice⟩ : ∃ device, tree.objects[id]? = some device :=
          ⟨_, List.getElem?_eq_getElem (Nat.lt_of_lt_of_le hlt hnext)⟩
        have hkids : tree.kids id = device.children := by
          rw [DeviceTree.kids, hdevice]
          rfl
        have hdepth' : next ≤ id + 1 + depth := by omega
        have hbelow := ih _ hmem hdepth' (some id)
        rw [hkids] at hbelow
        rw [validateDevice, hdevice]
        exact hbelow
      constructor
      · intro hvalid xmlObj hmem
        rw [← hperm.mem_iff, mem_callsOf] at hmem
        obtain ⟨id, hzip⟩ := exists_pair_of_mem_left classes hmem
        exact (hpair hzip).mp (hvalid id (mem_collection.2 (List.of_mem_zip hzip).2))
      · intro hvisits id hid
        obtain ⟨xmlObj, hzip⟩ := exists_pair_of_mem_right classes (mem_collection.1 hid)
        refine (hpair hzip).mpr (hvisits xmlObj ?_)
        rw [← hperm.mem_iff, mem_callsOf]
        exact (List.of_mem_zip hzip).1

/-- Crates with boards; both have device logic. -/
def crateDesign : Design where
  classes :=
    [⟨text "Crate", true, [], [], [⟨text "Board", .configuration, []⟩]⟩,
     ⟨text "Board", true, [], [], []⟩]
  root := [⟨text "Crate", .configuration, []⟩]

def crateConfiguration : XmlObject where
  name := []
  elements :=
    [(text "Crate", ⟨text "c1", [(text "Board", emptyXmlObject (text "b1"))], 0,
      [⟨.element (text "Board"), 0⟩]⟩)]
  calculatedVariables := 0
  contentOrder := [⟨.element (text "Crate"), 0⟩]

end Acceptance

end Quasar

end Supernova
