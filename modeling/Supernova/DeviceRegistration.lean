/-
What the configurator registers: every device-logic object once, with a parent
that is older than it or as an orphan of its class, and orphans of exactly those
classes that are instantiated under a class without device logic.
-/
import Mathlib
import Supernova.Configurator

namespace Supernova

namespace Quasar

variable {design : Design}

section Placement

/-- A configuration under a parent, and what the design instantiates by itself,
have an object of a class under a parent somewhere in them. -/
inductive Places (design : Design) : ParentClass → XmlObject → ParentClass → Bytes → Prop
  | byDesign {parent : ParentClass} {config : XmlObject} {ho : HasObjects} {name : Bytes}
      (hho : ho ∈ innerObjects design .design parent) (hname : name ∈ ho.objects) :
      Places design parent config parent ho.className
  | belowDesign {parent parent' : ParentClass} {config : XmlObject} {ho : HasObjects}
      {name className : Bytes} (hho : ho ∈ innerObjects design .design parent)
      (hname : name ∈ ho.objects)
      (h : Places design (.named ho.className) (emptyXmlObject name) parent' className) :
      Places design parent config parent' className
  | byConfiguration {parent : ParentClass} {config xmlObj : XmlObject} {ho : HasObjects}
      (hho : ho ∈ innerObjects design .configuration parent)
      (hmem : xmlObj ∈ config.collection ho.className) :
      Places design parent config parent ho.className
  | belowConfiguration {parent parent' : ParentClass} {config xmlObj : XmlObject}
      {ho : HasObjects} {className : Bytes}
      (hho : ho ∈ innerObjects design .configuration parent)
      (hmem : xmlObj ∈ config.collection ho.className)
      (h : Places design (.named ho.className) xmlObj parent' className) :
      Places design parent config parent' className

/-- Classes with device logic, of which an object is under a class without. -/
def Orphans (design : Design) (parent : ParentClass) (config : XmlObject)
    (className : Bytes) : Prop :=
  ∃ parent', Places design parent config parent' className ∧
    parentHasDeviceLogic design parent' = false ∧ classHasDeviceLogic design className = true

/-- The orphans that one object under a parent makes: itself, and those below it. -/
def ObjectOrphans (design : Design) (parent : ParentClass) (className : Bytes)
    (xmlObj : XmlObject) (c : Bytes) : Prop :=
  (c = className ∧ parentHasDeviceLogic design parent = false ∧
    classHasDeviceLogic design className = true) ∨ Orphans design (.named className) xmlObj c

theorem orphans_iff {parent : ParentClass} {config : XmlObject} {c : Bytes} :
    Orphans design parent config c ↔
      (∃ ho ∈ innerObjects design .design parent, ∃ name ∈ ho.objects,
        ObjectOrphans design parent ho.className (emptyXmlObject name) c) ∨
      ∃ ho ∈ innerObjects design .configuration parent,
        ∃ xmlObj ∈ config.collection ho.className,
          ObjectOrphans design parent ho.className xmlObj c := by
  constructor
  · rintro ⟨parent', hplaces, hparent, hclass⟩
    cases hplaces with
    | byDesign hho hname => exact .inl ⟨_, hho, _, hname, .inl ⟨rfl, hparent, hclass⟩⟩
    | belowDesign hho hname h =>
        exact .inl ⟨_, hho, _, hname, .inr ⟨_, h, hparent, hclass⟩⟩
    | byConfiguration hho hmem => exact .inr ⟨_, hho, _, hmem, .inl ⟨rfl, hparent, hclass⟩⟩
    | belowConfiguration hho hmem h =>
        exact .inr ⟨_, hho, _, hmem, .inr ⟨_, h, hparent, hclass⟩⟩
  · rintro (⟨ho, hho, name, hname, hc⟩ | ⟨ho, hho, xmlObj, hmem, hc⟩)
    · rcases hc with ⟨rfl, hparent, hclass⟩ | ⟨parent', h, hparent, hclass⟩
      · exact ⟨parent, .byDesign hho hname, hparent, hclass⟩
      · exact ⟨parent', .belowDesign hho hname h, hparent, hclass⟩
    · rcases hc with ⟨rfl, hparent, hclass⟩ | ⟨parent', h, hparent, hclass⟩
      · exact ⟨parent, .byConfiguration hho hmem, hparent, hclass⟩
      · exact ⟨parent', .belowConfiguration hho hmem h, hparent, hclass⟩

end Placement

section ContentOrder

/-- The check passes exactly when the entries for a type of child are those of all children,
each once. -/
theorem validateContentOrderArray_eq_ok_iff {contentOrder : List ContentOrder} {size : Nat}
    {childTypeId : ContentId} :
    validateContentOrderArray contentOrder size childTypeId = .ok ⟨⟩ ↔
      ((contentOrder.filter fun entry => entry.id = childTypeId).map ContentOrder.index).Perm
        (List.range size) := by
  unfold validateContentOrderArray
  rw [except_bind_eq_ok]
  have hend : ∀ rest : List Nat, (if rest = [] then pure ⟨⟩ else throw
      (.unregistered rest.length) : Except ContentOrderError Unit) = .ok ⟨⟩ ↔ rest = [] := by
    intro rest
    by_cases hrest : rest = []
    · simp [hrest, except_pure_eq_ok]
    · simp [hrest]
  simp only [hend, exists_eq_right]
  generalize List.range size = valid
  induction contentOrder generalizing valid with
  | nil =>
      rw [List.foldlM_nil, except_pure_eq_ok, List.filter_nil, List.map_nil, List.nil_perm]
  | cons entry contentOrder ih =>
      rw [List.foldlM_cons, except_bind_eq_ok]
      by_cases hid : entry.id = childTypeId
      · rw [List.filter_cons_of_pos (by simpa using hid), List.map_cons,
          List.cons_perm_iff_perm_erase]
        by_cases hmem : entry.index ∈ valid
        · simp only [if_pos hid, if_pos hmem, except_pure_eq_ok, exists_eq_left', ih]
          exact (and_iff_right hmem).symm
        · simp [hid, hmem]
      · rw [List.filter_cons_of_neg (by simpa using hid)]
        simp only [if_neg hid, except_pure_eq_ok, exists_eq_left', ih]

/-- With a valid content order, its entries give all elements of a class. -/
theorem exists_entry_iff {config xmlObj : XmlObject} {className : Bytes}
    (h : validateContentOrder config className = .ok ⟨⟩) :
    (∃ entry ∈ config.contentOrder, entry.id = .element className ∧
      config.get? className entry.index = some xmlObj) ↔
      xmlObj ∈ config.collection className := by
  unfold validateContentOrder at h
  unfold XmlObject.get?
  by_cases hmeta : className = standardMetaData
  · simp only [if_pos hmeta] at h ⊢
    have hone : (config.collection className).length ≤ 1 := by
      rw [XmlObject.collection, if_pos hmeta, List.length_take]
      omega
    generalize config.collection className = elements at h hone ⊢
    constructor
    · rintro ⟨entry, -, -, hget⟩
      exact List.mem_of_head? hget
    · intro hmem
      obtain ⟨element, rfl⟩ := List.length_eq_one_iff.mp
        (le_antisymm hone (List.length_pos_of_mem hmem))
      rw [List.mem_singleton.mp hmem]
      have hany : config.contentOrder.any
          (fun entry => entry.id = .element className) = true := by
        by_contra hnot
        rw [Bool.not_eq_true] at hnot
        rw [validateContentOrderOptional, hnot] at h
        cases h
      obtain ⟨entry, hentry, hid⟩ := List.any_eq_true.mp hany
      exact ⟨entry, hentry, of_decide_eq_true hid, rfl⟩
  · simp only [if_neg hmeta] at h ⊢
    have hindices := validateContentOrderArray_eq_ok_iff.1 h
    constructor
    · rintro ⟨entry, -, -, hget⟩
      exact List.mem_of_getElem? hget
    · intro hmem
      obtain ⟨i, hi, hget⟩ := List.mem_iff_getElem.mp hmem
      obtain ⟨entry, hentry, rfl⟩ := List.mem_map.mp
        (hindices.mem_iff.mpr (List.mem_range.mpr hi))
      simp only [List.mem_filter, decide_eq_true_eq] at hentry
      exact ⟨entry, hentry.1, hentry.2, List.getElem?_eq_some_iff.mpr ⟨hi, hget⟩⟩

end ContentOrder

section Registration

/-- Where device-logic objects are registered, with the class of each. -/
def registrations (tree : DeviceTree) : List (Bytes × ObjectId) :=
  tree.rootChildren ++ tree.orphanedObjects ++ tree.objects.flatMap DeviceObject.children

/-- The classes with device logic among the children of a parent. -/
def deviceClasses (design : Design) (parent : ParentClass) : List Bytes :=
  ((objectifyHasObjects design parent).filter fun ho =>
    classHasDeviceLogic design ho.className).map HasObjects.className

/-- Children are younger than their parents, of the class they are listed for,
and of one that the design has under the parent. -/
structure Sound (design : Design) (tree : DeviceTree) : Prop where
  younger : ∀ (id : ObjectId) (d : DeviceObject), tree.objects[id]? = some d →
    ∀ r ∈ d.children, id < r.2
  tagged : ∀ r ∈ registrations tree, ∃ d, tree.objects[r.2]? = some d ∧ d.className = r.1
  rootClasses : ∀ r ∈ tree.rootChildren, r.1 ∈ deviceClasses design .root
  childClasses : ∀ d ∈ tree.objects, ∀ r ∈ d.children,
    r.1 ∈ deviceClasses design (.named d.className)

/-- What a part of the configuration does: of the objects that it makes, all but
the pending ones are registered once, and those registered as orphans are of
the given classes. -/
structure Extends (design : Design) (orphaned : Bytes → Prop) (pending : List ObjectId)
    (tree tree' : DeviceTree) : Prop where
  length_le : tree.objects.length ≤ tree'.objects.length
  kept : ∀ {id : ObjectId} {d : DeviceObject}, tree.objects[id]? = some d →
    ∃ d' : DeviceObject, tree'.objects[id]? = some d' ∧ d'.className = d.className
  registered : ((registrations tree').map Prod.snd ++ pending).Perm
    ((registrations tree).map Prod.snd ++
      List.range' tree.objects.length (tree'.objects.length - tree.objects.length))
  sound : Sound design tree → Sound design tree'
  orphans : ∃ added, tree'.orphanedObjects = tree.orphanedObjects ++ added ∧
    ∀ c, (∃ id, (c, id) ∈ added) ↔ orphaned c

theorem Extends.refl (tree : DeviceTree) :
    Extends design (fun _ => False) [] tree tree where
  length_le := le_rfl
  kept h := ⟨_, h, rfl⟩
  registered := by simp
  sound h := h
  orphans := ⟨[], by simp⟩

theorem Extends.trans {orphaned orphaned' : Bytes → Prop} {pending pending' : List ObjectId}
    {tree tree' tree'' : DeviceTree} (h : Extends design orphaned pending tree tree')
    (h' : Extends design orphaned' pending' tree' tree'') :
    Extends design (fun c => orphaned c ∨ orphaned' c) (pending ++ pending') tree tree'' where
  length_le := h.length_le.trans h'.length_le
  kept hd := by
    obtain ⟨d', hd', hname⟩ := h.kept hd
    obtain ⟨d'', hd'', hname'⟩ := h'.kept hd'
    exact ⟨d'', hd'', hname'.trans hname⟩
  registered := by
    have hrange : List.range' tree.objects.length
        (tree''.objects.length - tree.objects.length) =
          List.range' tree.objects.length (tree'.objects.length - tree.objects.length) ++
            List.range' tree'.objects.length
              (tree''.objects.length - tree'.objects.length) := by
      have hlength := h.length_le
      have hlength' := h'.length_le
      rw [show tree''.objects.length - tree.objects.length =
          (tree'.objects.length - tree.objects.length) +
            (tree''.objects.length - tree'.objects.length) by omega,
        ← List.range'_append_1]
      congr 2
      omega
    rw [hrange, List.perm_iff_count]
    intro id
    have hcount := List.perm_iff_count.mp h.registered id
    have hcount' := List.perm_iff_count.mp h'.registered id
    simp only [List.count_append] at hcount hcount' ⊢
    omega
  sound hsound := h'.sound (h.sound hsound)
  orphans := by
    obtain ⟨added, hadded, hclasses⟩ := h.orphans
    obtain ⟨added', hadded', hclasses'⟩ := h'.orphans
    refine ⟨added ++ added', by rw [hadded', hadded, List.append_assoc], fun c => ?_⟩
    rw [← hclasses, ← hclasses']
    simp only [List.mem_append, exists_or]

theorem Extends.congr {orphaned orphaned' : Bytes → Prop} {pending : List ObjectId}
    {tree tree' : DeviceTree} (h : Extends design orphaned pending tree tree')
    (heq : ∀ c, orphaned c ↔ orphaned' c) :
    Extends design orphaned' pending tree tree' :=
  (funext fun c => propext (heq c) : orphaned = orphaned') ▸ h

theorem configure_bind_eq_ok {α β : Type} {x : Configure α} {f : α → Configure β}
    {tree tree' : DeviceTree} {b : β} :
    (x >>= f) tree = .ok (b, tree') ↔
      ∃ a tree₁, x tree = .ok (a, tree₁) ∧ f a tree₁ = .ok (b, tree') := by
  change (x tree >>= fun result => f result.1 result.2) = .ok (b, tree') ↔ _
  rw [except_bind_eq_ok, Prod.exists]

/-- What a list of calls does, if each keeps what the calls rely on. -/
theorem extends_forM {α : Type} {f : α → Configure Unit} {l : List α}
    {orphaned : α → Bytes → Prop} (Relies : DeviceTree → Prop)
    (hkept : ∀ {tree tree' O}, Relies tree → Extends design O [] tree tree' → Relies tree')
    (hstep : ∀ a ∈ l, ∀ tree tree', Relies tree → f a tree = .ok (⟨⟩, tree') →
      Extends design (orphaned a) [] tree tree')
    {tree tree' : DeviceTree} (hrelies : Relies tree)
    (h : l.forM f tree = .ok (⟨⟩, tree')) :
    Extends design (fun c => ∃ a ∈ l, orphaned a c) [] tree tree' := by
  induction l generalizing tree with
  | nil =>
      cases h
      exact (Extends.refl _).congr (by simp)
  | cons a l ih =>
      rw [List.forM_eq_forM, List.forM_cons, configure_bind_eq_ok] at h
      obtain ⟨⟨⟩, tree₁, hfirst, hrest⟩ := h
      have hone := hstep a List.mem_cons_self tree tree₁ hrelies hfirst
      refine (hone.trans (ih (fun a' ha' => hstep a' (List.mem_cons_of_mem _ ha'))
        (hkept hrelies hone) hrest)).congr fun c => ?_
      simp

end Registration

section Operations

theorem flatMap_modify_perm {α β : Type} {g : α → List β} {f : α → α} {l : List α} {i : Nat}
    {a : α} {b : β} (hget : l[i]? = some a) (hf : g (f a) = g a ++ [b]) :
    ((l.modify i f).flatMap g).Perm (b :: l.flatMap g) := by
  induction l generalizing i with
  | nil => cases hget
  | cons a' l ih =>
      cases i with
      | zero =>
          rw [List.getElem?_cons_zero, Option.some.injEq] at hget
          subst hget
          simp only [List.modify_zero_cons, List.flatMap_cons, hf]
          rw [List.append_assoc, List.singleton_append]
          exact List.perm_middle
      | succ i =>
          rw [List.getElem?_cons_succ] at hget
          simp only [List.modify_succ_cons, List.flatMap_cons]
          exact ((ih hget).append_left _).trans List.perm_middle

theorem modify_append_length {α : Type} (l : List α) (a : α) (f : α → α) :
    (l ++ [a]).modify l.length f = l ++ [f a] := by
  induction l with
  | nil => rfl
  | cons a' l ih => simp [ih]

theorem linkAddressSpace_eq {device : ObjectId} {asItem : Nat} {tree : DeviceTree}
    (h : tree.objects[device]?.bind DeviceObject.addressSpaceLink = none) :
    linkAddressSpace device asItem tree =
      let link (d : DeviceObject) := { d with addressSpaceLink := some asItem }
      .ok (⟨⟩, { tree with objects := tree.objects.modify device link }) := by
  simp [linkAddressSpace, h, bind, StateT.bind, Except.bind, get, getThe, MonadStateOf.get,
    StateT.get, set, StateT.set, pure, Except.pure]

/-- A class with device logic gets a new object, linked and not yet registered. -/
theorem newLinkedDevice_eq_ok {className : Bytes} {parent : Option DeviceParent} {asItem : Nat}
    {tree tree' : DeviceTree} {dItem : Option ObjectId}
    (h : newLinkedDevice design className parent asItem tree = .ok (dItem, tree')) :
    (classHasDeviceLogic design className = false ∧ dItem = none ∧ tree' = tree) ∨
      (classHasDeviceLogic design className = true ∧ dItem = some tree.objects.length ∧
        tree' = { tree with objects :=
          tree.objects ++ [⟨className, parent, some asItem, []⟩] }) := by
  unfold newLinkedDevice at h
  by_cases hlogic : classHasDeviceLogic design className = true
  · rw [if_pos hlogic] at h
    simp only [configure_bind_eq_ok] at h
    obtain ⟨id, _, hnew, ⟨⟩, tree₂, hlink, h⟩ := h
    cases hnew
    cases h
    rw [linkAddressSpace_eq (by simp)] at hlink
    cases hlink
    refine .inr ⟨hlogic, rfl, ?_⟩
    simp only [modify_append_length]
  · rw [if_neg hlogic] at h
    cases h
    exact .inl ⟨by simpa using hlogic, rfl, rfl⟩

theorem extends_newDevice {className : Bytes} {parent : Option DeviceParent} {asItem : Nat}
    (tree : DeviceTree) :
    Extends design (fun _ => False) [tree.objects.length] tree
      { tree with objects := tree.objects ++ [⟨className, parent, some asItem, []⟩] } where
  length_le := by simp
  kept {id d} hd := by
    obtain ⟨hlt, -⟩ := List.getElem?_eq_some_iff.mp hd
    exact ⟨d, by rw [List.getElem?_append_left hlt, hd], rfl⟩
  registered := by simp [registrations]
  sound h := by
    have hmem : ∀ d ∈ tree.objects ++ [⟨className, parent, some asItem, []⟩],
        d ∈ tree.objects ∨ d.children = [] := by
      simp only [List.mem_append, List.mem_singleton]
      rintro d (hd | rfl)
      · exact .inl hd
      · exact .inr rfl
    refine ⟨?_, ?_, h.rootClasses, ?_⟩
    · intro id d hd r hr
      rw [List.getElem?_append] at hd
      split at hd
      · exact h.younger id d hd r hr
      · rcases List.mem_singleton.mp (List.mem_of_getElem? hd) with rfl
        cases hr
    · intro r hr
      have hr' : r ∈ registrations tree := by
        simpa [registrations] using hr
      obtain ⟨d, hd, hname⟩ := h.tagged r hr'
      obtain ⟨hlt, -⟩ := List.getElem?_eq_some_iff.mp hd
      exact ⟨d, by rw [List.getElem?_append_left hlt, hd], hname⟩
    · intro d hd r hr
      rcases hmem d hd with hd | hnil
      · exact h.childClasses d hd r hr
      · rw [hnil] at hr
        cases hr
  orphans := ⟨[], by simp⟩

/-- The device of the parent under which something is configured. -/
def Stands (design : Design) (parent : ParentClass) (parentDevice : Option DeviceParent)
    (tree : DeviceTree) : Prop :=
  match parent with
  | .root => parentDevice = some .root
  | .named className => classHasDeviceLogic design className = true →
      ∃ id d, parentDevice = some (.object id) ∧ tree.objects[id]? = some d ∧
        d.className = className

/-- The objects of a tree are in the other, with their classes. -/
def KeepsClasses (tree tree' : DeviceTree) : Prop :=
  ∀ {id : ObjectId} {d : DeviceObject}, tree.objects[id]? = some d →
    ∃ d' : DeviceObject, tree'.objects[id]? = some d' ∧ d'.className = d.className

theorem Stands.keeps {parent : ParentClass} {parentDevice : Option DeviceParent}
    {tree tree' : DeviceTree} (h : Stands design parent parentDevice tree)
    (hkeeps : KeepsClasses tree tree') : Stands design parent parentDevice tree' := by
  cases parent with
  | root => exact h
  | named className =>
      intro hlogic
      obtain ⟨id, d, hparent, hd, hname⟩ := h hlogic
      obtain ⟨d', hd', hname'⟩ := hkeeps hd
      exact ⟨id, d', hparent, hd', hname'.trans hname⟩

theorem Stands.kept {parent : ParentClass} {parentDevice : Option DeviceParent}
    {orphaned : Bytes → Prop} {tree tree' : DeviceTree}
    (h : Stands design parent parentDevice tree)
    (hextends : Extends design orphaned [] tree tree') :
    Stands design parent parentDevice tree' :=
  h.keeps hextends.kept

/-- The pending object is registered; it is an orphan of the given class, or none. -/
theorem Extends.registers {orphaned : Bytes → Prop} {device : ObjectId}
    {added : List (Bytes × ObjectId)} {tree tree' tree'' : DeviceTree}
    (h : Extends design orphaned [device] tree tree')
    (hlength : tree''.objects.length = tree'.objects.length)
    (hkept : ∀ {id : ObjectId} {d : DeviceObject}, tree'.objects[id]? = some d →
      ∃ d' : DeviceObject, tree''.objects[id]? = some d' ∧ d'.className = d.className)
    (hregistered : ((registrations tree'').map Prod.snd).Perm
      (device :: (registrations tree').map Prod.snd))
    (hsound : Sound design tree' → Sound design tree'')
    (horphans : tree''.orphanedObjects = tree'.orphanedObjects ++ added) :
    Extends design (fun c => orphaned c ∨ ∃ id, (c, id) ∈ added) [] tree tree'' where
  length_le := hlength ▸ h.length_le
  kept hd := by
    obtain ⟨d', hd', hname⟩ := h.kept hd
    obtain ⟨d'', hd'', hname'⟩ := hkept hd'
    exact ⟨d'', hd'', hname'.trans hname⟩
  registered := by
    rw [hlength, List.append_nil]
    refine hregistered.trans (.trans ?_ h.registered)
    exact (List.perm_append_singleton device _).symm
  sound hs := hsound (h.sound hs)
  orphans := by
    obtain ⟨added₀, hadded, hclasses⟩ := h.orphans
    refine ⟨added₀ ++ added, by rw [horphans, hadded, List.append_assoc], fun c => ?_⟩
    simp only [← hclasses, List.mem_append, exists_or]

theorem add_object_eq {id : ObjectId} {className : Bytes} {device : ObjectId}
    {tree : DeviceTree} :
    add (.object id) className device tree =
      let list (d : DeviceObject) := { d with children := d.children ++ [(className, device)] }
      .ok (⟨⟩, { tree with objects := tree.objects.modify id list }) := rfl

/-- Adding an object to the children of one that is older. -/
theorem Extends.addObject {orphaned : Bytes → Prop} {id device : ObjectId} {className : Bytes}
    {d d' : DeviceObject} {tree tree' tree'' : DeviceTree}
    (h : Extends design orphaned [device] tree tree')
    (hd : tree'.objects[id]? = some d) (hyounger : id < device)
    (hclass : className ∈ deviceClasses design (.named d.className))
    (hd' : tree'.objects[device]? = some d') (hname : d'.className = className)
    (hadd : add (.object id) className device tree' = .ok (⟨⟩, tree'')) :
    Extends design orphaned [] tree tree'' := by
  rw [add_object_eq] at hadd
  simp only [Except.ok.injEq, Prod.mk.injEq, true_and] at hadd
  subst hadd
  have hget : ∀ (i : ObjectId) (o : DeviceObject),
      (tree'.objects.modify id fun d =>
        { d with children := d.children ++ [(className, device)] })[i]? = some o →
      ∃ o₀, tree'.objects[i]? = some o₀ ∧ o.className = o₀.className ∧
        (o.children = o₀.children ∨
          (i = id ∧ o₀ = d ∧ o.children = o₀.children ++ [(className, device)])) := by
    intro i o ho
    rw [List.getElem?_modify] at ho
    obtain ⟨o₀, ho₀, rfl⟩ := Option.map_eq_some_iff.mp ho
    refine ⟨o₀, ho₀, ?_⟩
    by_cases hi : id = i
    · subst hi
      rw [hd, Option.some.injEq] at ho₀
      simp [ho₀]
    · simp [hi]
  have hkept : ∀ {i : ObjectId} {o : DeviceObject}, tree'.objects[i]? = some o →
      ∃ o' : DeviceObject, (tree'.objects.modify id fun d =>
        { d with children := d.children ++ [(className, device)] })[i]? = some o' ∧
          o'.className = o.className := by
    intro i o ho
    rw [List.getElem?_modify, ho, Option.map_eq_map, Option.map_some]
    refine ⟨_, rfl, ?_⟩
    split <;> rfl
  have hregistered : (registrations { tree' with objects := tree'.objects.modify id fun d =>
      { d with children := d.children ++ [(className, device)] } }).Perm
        ((className, device) :: registrations tree') := by
    unfold registrations
    refine ((flatMap_modify_perm hd rfl).append_left _).trans ?_
    exact List.perm_middle
  refine (h.registers (List.length_modify _ _ _) hkept (hregistered.map Prod.snd) ?_
    (List.append_nil _).symm).congr (by simp)
  intro hs
  refine ⟨?_, ?_, hs.rootClasses, ?_⟩
  · intro i o ho r hr
    obtain ⟨o₀, ho₀, -, hchildren | ⟨rfl, rfl, hchildren⟩⟩ := hget i o ho
    · exact hs.younger i o₀ ho₀ r (hchildren ▸ hr)
    · rw [hchildren, List.mem_append, List.mem_singleton] at hr
      rcases hr with hr | rfl
      · exact hs.younger i o₀ ho₀ r hr
      · exact hyounger
  · intro r hr
    rw [hregistered.mem_iff, List.mem_cons] at hr
    have hold : ∃ o, tree'.objects[r.2]? = some o ∧ o.className = r.1 := by
      rcases hr with rfl | hr
      · exact ⟨d', hd', hname⟩
      · exact hs.tagged r hr
    obtain ⟨o, ho, hoName⟩ := hold
    obtain ⟨o', ho', hoName'⟩ := hkept ho
    exact ⟨o', ho', hoName'.trans hoName⟩
  · intro o ho r hr
    obtain ⟨i, hi⟩ := List.mem_iff_getElem?.mp ho
    obtain ⟨o₀, ho₀, hoName, hchildren | ⟨rfl, rfl, hchildren⟩⟩ := hget i o hi
    · rw [hoName]
      exact hs.childClasses o₀ (List.mem_of_getElem? ho₀) r (hchildren ▸ hr)
    · rw [hoName]
      rw [hchildren, List.mem_append, List.mem_singleton] at hr
      rcases hr with hr | rfl
      · exact hs.childClasses o₀ (List.mem_of_getElem? ho₀) r hr
      · exact hclass

/-- A list that is not inside the objects takes the registration. -/
theorem Extends.listed {orphaned : Bytes → Prop} {device : ObjectId} {className : Bytes}
    {d' : DeviceObject} {added : List (Bytes × ObjectId)} {tree tree' tree'' : DeviceTree}
    (h : Extends design orphaned [device] tree tree')
    (hd' : tree'.objects[device]? = some d') (hname : d'.className = className)
    (hobjects : tree''.objects = tree'.objects)
    (hregistered : (registrations tree'').Perm ((className, device) :: registrations tree'))
    (hroot : Sound design tree' → ∀ r ∈ tree''.rootChildren, r.1 ∈ deviceClasses design .root)
    (horphans : tree''.orphanedObjects = tree'.orphanedObjects ++ added) :
    Extends design (fun c => orphaned c ∨ ∃ id, (c, id) ∈ added) [] tree tree'' := by
  refine h.registers (by rw [hobjects]) (fun ho => ⟨_, hobjects ▸ ho, rfl⟩)
    (hregistered.map Prod.snd) ?_ horphans
  intro hs
  refine ⟨?_, ?_, hroot hs, ?_⟩
  · rw [hobjects]
    exact hs.younger
  · intro r hr
    rw [hobjects]
    rcases List.mem_cons.mp (hregistered.mem_iff.mp hr) with rfl | hr
    · exact ⟨d', hd', hname⟩
    · exact hs.tagged r hr
  · rw [hobjects]
    exact hs.childClasses

/-- Registering the pending object, with its parent or as an orphan. -/
theorem Extends.register {orphaned : Bytes → Prop} {device : ObjectId} {parent : ParentClass}
    {parentDevice : Option DeviceParent} {className : Bytes} {d' : DeviceObject}
    {tree tree' tree'' : DeviceTree} (h : Extends design orphaned [device] tree tree')
    (hstands : Stands design parent parentDevice tree)
    (hclass : className ∈ (objectifyHasObjects design parent).map HasObjects.className)
    (hlogic : classHasDeviceLogic design className = true)
    (hnew : tree.objects.length ≤ device) (hd' : tree'.objects[device]? = some d')
    (hname : d'.className = className)
    (hrun : (if parentHasDeviceLogic design parent then
        parentDevice.forM fun parent => add parent className device
      else registerOrphanedObject className device) tree' = .ok (⟨⟩, tree'')) :
    Extends design (fun c => (c = className ∧ parentHasDeviceLogic design parent = false ∧
      classHasDeviceLogic design className = true) ∨ orphaned c) [] tree tree'' := by
  have hdevice : className ∈ deviceClasses design parent := by
    obtain ⟨ho, hho, rfl⟩ := List.mem_map.mp hclass
    exact List.mem_map.mpr ⟨ho, List.mem_filter.mpr ⟨hho, hlogic⟩, rfl⟩
  cases hparent : parentHasDeviceLogic design parent with
  | false =>
      rw [if_neg (by simp [hparent])] at hrun
      cases hrun
      have hregistered : (registrations { tree' with orphanedObjects :=
          tree'.orphanedObjects ++ [(className, device)] }).Perm
            ((className, device) :: registrations tree') := by
        simp only [registrations, List.append_assoc, List.singleton_append]
        exact (List.perm_middle.append_left _).trans List.perm_middle
      refine (h.listed hd' hname (by rfl) hregistered (fun hs => hs.rootClasses) rfl).congr ?_
      intro c
      simp [hlogic, or_comm]
  | true =>
      rw [if_pos hparent] at hrun
      have hcongr : ∀ c, orphaned c ↔ ((c = className ∧ true = false ∧
          classHasDeviceLogic design className = true) ∨ orphaned c) := by
        simp
      cases parent with
      | root =>
          rw [show parentDevice = some .root from hstands] at hrun
          cases hrun
          have hregistered : (registrations { tree' with rootChildren :=
              tree'.rootChildren ++ [(className, device)] }).Perm
                ((className, device) :: registrations tree') := by
            simp only [registrations, List.append_assoc, List.singleton_append]
            exact List.perm_middle
          refine ((h.listed hd' hname (by rfl) hregistered ?_ (List.append_nil _).symm).congr
            (by simp)).congr hcongr
          intro hs r hr
          rcases List.mem_append.mp hr with hr | hr
          · exact hs.rootClasses r hr
          · rw [List.mem_singleton.mp hr]
            exact hdevice
      | named parentName =>
          obtain ⟨id, d, hid, hd, hdName⟩ := hstands hparent
          rw [hid] at hrun
          obtain ⟨hlt, -⟩ := List.getElem?_eq_some_iff.mp hd
          obtain ⟨d₁, hd₁, hdName₁⟩ := h.kept hd
          exact (h.addObject hd₁ (lt_of_lt_of_le hlt hnew) (by rwa [hdName₁, hdName]) hd' hname hrun).congr
            hcongr

end Operations

section Configuring

/-- What configuring one object does: the device-logic object that it returns is
new, of the class, and the only one that is not registered. -/
structure Configures (design : Design) (className : Bytes) (xmlObj : XmlObject)
    (result : Option ObjectId) (tree tree' : DeviceTree) : Prop where
  extended : Extends design (Orphans design (.named className) xmlObj) result.toList tree tree'
  isSome : result.isSome = classHasDeviceLogic design className
  returned : ∀ id ∈ result, tree.objects.length ≤ id ∧
    ∃ d : DeviceObject, tree'.objects[id]? = some d ∧ d.className = className

variable {configureFunction : ConfigureClass}
  (hfunction : ∀ {className xmlObj parent result tree tree'},
    configureFunction className xmlObj parent tree = .ok (result, tree') →
    Configures design className xmlObj result tree tree')
  {parent : ParentClass} {parentDevice : Option DeviceParent}

include hfunction

theorem extends_configureObject {className : Bytes} {xmlObj : XmlObject}
    (hclass : className ∈ (objectifyHasObjects design parent).map HasObjects.className)
    {tree tree' : DeviceTree} (hstands : Stands design parent parentDevice tree)
    (h : configureObject design configureFunction parent parentDevice className xmlObj tree =
      .ok (⟨⟩, tree')) :
    Extends design (ObjectOrphans design parent className xmlObj) [] tree tree' := by
  unfold configureObject at h
  by_cases hlogic : classHasDeviceLogic design className = true
  · rw [if_pos hlogic, configure_bind_eq_ok] at h
    obtain ⟨result, tree₁, hrun, h⟩ := h
    obtain ⟨hextended, hisSome, hreturned⟩ := hfunction hrun
    obtain ⟨device, rfl⟩ := Option.isSome_iff_exists.mp (hisSome.trans hlogic)
    obtain ⟨hnew, d, hd, hname⟩ := hreturned device rfl
    exact hextended.register hstands hclass hlogic hnew hd hname h
  · rw [if_neg hlogic, configure_bind_eq_ok] at h
    obtain ⟨result, tree₁, hrun, h⟩ := h
    cases h
    obtain ⟨hextended, hisSome, -⟩ := hfunction hrun
    have hnone : result = none := by
      rw [← Option.not_isSome_iff_eq_none, hisSome]
      exact hlogic
    subst hnone
    exact hextended.congr fun c => by simp [ObjectOrphans, hlogic]

/-- The part of a class that the design instantiates. -/
theorem extends_byDesign {tree tree' : DeviceTree}
    (hstands : Stands design parent parentDevice tree)
    (h : ((innerObjects design .design parent).forM fun ho =>
      ho.objects.forM (writeConfigureObjectByDesign design configureFunction parent
        parentDevice ho)) tree = .ok (⟨⟩, tree')) :
    Extends design (fun c => ∃ ho ∈ innerObjects design .design parent, ∃ name ∈ ho.objects,
      ObjectOrphans design parent ho.className (emptyXmlObject name) c) [] tree tree' := by
  refine extends_forM (Stands design parent parentDevice) Stands.kept ?_ hstands h
  intro ho hho tree₁ tree₂ hstands₁ hloop
  refine extends_forM (Stands design parent parentDevice) Stands.kept ?_ hstands₁ hloop
  intro name _ tree₃ tree₄ hstands₃ hobject
  refine extends_configureObject hfunction ?_ hstands₃ hobject
  exact List.mem_map_of_mem (List.mem_of_mem_filter hho)

/-- One entry of the content order configures the element that it stands for. -/
theorem extends_configureEntry {config : XmlObject} {entry : ContentOrder}
    {tree tree' : DeviceTree} (hstands : Stands design parent parentDevice tree)
    (h : configureEntry design configureFunction parent parentDevice config entry tree =
      .ok (⟨⟩, tree')) :
    Extends design (fun c => ∃ ho ∈ innerObjects design .configuration parent, ∃ xmlObj,
      (entry.id = .element ho.className ∧
        config.get? ho.className entry.index = some xmlObj) ∧
      ObjectOrphans design parent ho.className xmlObj c) [] tree tree' := by
  have hnothing : tree = tree' → (∀ ho ∈ innerObjects design .configuration parent,
      entry.id ≠ .element ho.className) →
      Extends design (fun c => ∃ ho ∈ innerObjects design .configuration parent, ∃ xmlObj,
        (entry.id = .element ho.className ∧
          config.get? ho.className entry.index = some xmlObj) ∧
        ObjectOrphans design parent ho.className xmlObj c) [] tree tree' := by
    rintro rfl hnone
    refine (Extends.refl tree).congr fun c => ⟨False.elim, ?_⟩
    rintro ⟨ho, hho, _, ⟨hid, -⟩, -⟩
    exact hnone ho hho hid
  unfold configureEntry at h
  rcases hid : entry.id with innerClass | _ | _ | _
  · simp only [hid] at h hnothing ⊢
    by_cases hmem : innerClass ∈
        (innerObjects design .configuration parent).map HasObjects.className
    · rw [if_pos hmem] at h
      rcases hget : config.get? innerClass entry.index with _ | xmlObj
      · rw [hget] at h
        cases h
      · simp only [hget] at h
        obtain ⟨ho, hho, rfl⟩ := List.mem_map.mp hmem
        refine (extends_configureObject hfunction
          (List.mem_map_of_mem (List.mem_of_mem_filter hho)) hstands h).congr fun c => ?_
        constructor
        · intro hc
          exact ⟨ho, hho, xmlObj, ⟨rfl, hget⟩, hc⟩
        · rintro ⟨ho', -, xmlObj', ⟨hname, hget'⟩, hc⟩
          rw [ContentId.element.injEq] at hname
          rw [← hname] at hget' hc
          rw [hget, Option.some.injEq] at hget'
          exact hget' ▸ hc
    · rw [if_neg hmem] at h
      cases h
      refine hnothing rfl ?_
      rintro ho hho hname
      rw [ContentId.element.injEq] at hname
      exact hmem (hname ▸ List.mem_map_of_mem hho)
  all_goals
    simp only [hid] at h hnothing ⊢
    cases h
    exact hnothing rfl (by simp)

omit hfunction in
theorem checked_eq_ok {result : Except ContentOrderError Unit} {tree tree' : DeviceTree} :
    checked result tree = .ok (⟨⟩, tree') ↔ result = .ok ⟨⟩ ∧ tree = tree' := by
  rcases result with error | ⟨⟨⟩⟩
  · simp only [checked, reduceCtorEq, false_and, iff_false]
    intro h
    cases h
  · simp [checked, pure, StateT.pure, Except.pure]

omit hfunction in
theorem forM_checked_eq_ok {α : Type} {f : α → Except ContentOrderError Unit} {l : List α}
    {tree tree' : DeviceTree} (h : (l.forM fun a => checked (f a)) tree = .ok (⟨⟩, tree')) :
    (∀ a ∈ l, f a = .ok ⟨⟩) ∧ tree = tree' := by
  induction l generalizing tree with
  | nil =>
      cases h
      exact ⟨by simp, rfl⟩
  | cons a l ih =>
      rw [List.forM_eq_forM, List.forM_cons, configure_bind_eq_ok] at h
      obtain ⟨⟨⟩, tree₁, hfirst, hrest⟩ := h
      obtain ⟨hok, rfl⟩ := checked_eq_ok.1 hfirst
      obtain ⟨hall, heq⟩ := ih hrest
      exact ⟨List.forall_mem_cons.mpr ⟨hok, hall⟩, heq⟩

/-- The part of a class that the configuration instantiates: each element once. -/
theorem extends_byConfiguration {config : XmlObject} {tree tree' : DeviceTree}
    (hstands : Stands design parent parentDevice tree)
    (h : writeConfigureObjectByConfiguration design configureFunction parent parentDevice config
      tree = .ok (⟨⟩, tree')) :
    Extends design (fun c => ∃ ho ∈ innerObjects design .configuration parent,
      ∃ xmlObj ∈ config.collection ho.className,
        ObjectOrphans design parent ho.className xmlObj c) [] tree tree' := by
  simp only [writeConfigureObjectByConfiguration, configure_bind_eq_ok] at h
  obtain ⟨⟨⟩, tree₁, hvalidate, ⟨⟩, tree₂, hvariables, hentries⟩ := h
  obtain ⟨hvalid, rfl⟩ := forM_checked_eq_ok hvalidate
  obtain ⟨-, rfl⟩ := checked_eq_ok.1 hvariables
  refine (extends_forM (Stands design parent parentDevice) Stands.kept
    (fun entry _ tree₁ tree₂ hstands₁ hentry =>
      extends_configureEntry hfunction hstands₁ hentry) hstands hentries).congr fun c => ?_
  constructor
  · rintro ⟨entry, hentry, ho, hho, xmlObj, ⟨hid, hget⟩, hc⟩
    exact ⟨ho, hho, xmlObj, (exists_entry_iff (hvalid ho hho)).mp ⟨entry, hentry, hid, hget⟩, hc⟩
  · rintro ⟨ho, hho, xmlObj, hmem, hc⟩
    obtain ⟨entry, hentry, hid, hget⟩ := (exists_entry_iff (hvalid ho hho)).mpr hmem
    exact ⟨entry, hentry, ho, hho, xmlObj, ⟨hid, hget⟩, hc⟩

theorem extends_configureChildren {config : XmlObject} {tree tree' : DeviceTree}
    (hstands : Stands design parent parentDevice tree)
    (h : configureChildren design configureFunction parent parentDevice config tree =
      .ok (⟨⟩, tree')) :
    Extends design (Orphans design parent config) [] tree tree' := by
  simp only [configureChildren, configure_bind_eq_ok] at h
  obtain ⟨⟨⟩, tree₁, hdesign, hconfiguration⟩ := h
  have hfirst := extends_byDesign hfunction hstands hdesign
  have hsecond := extends_byConfiguration hfunction (hstands.kept hfirst) hconfiguration
  exact (hfirst.trans hsecond).congr fun c => Iff.symm orphans_iff

end Configuring

theorem configureClass_configures (depth : Nat) {className : Bytes} {xmlObj : XmlObject}
    {parent : Option DeviceParent} {result : Option ObjectId} {tree tree' : DeviceTree}
    (h : configureClass design depth className xmlObj parent tree = .ok (result, tree')) :
    Configures design className xmlObj result tree tree' := by
  induction depth generalizing className xmlObj parent result tree tree' with
  | zero => cases h
  | succ depth ih =>
      simp only [configureClass, configure_bind_eq_ok] at h
      obtain ⟨asItem, tree₀, hnode, dItem, tree₁, hdevice, ⟨⟩, tree₂, hchildren, h⟩ := h
      cases h
      -- The address-space object is none of the registered ones.
      have hsame : tree₀.objects = tree.objects ∧
          Extends design (fun _ => False) [] tree tree₀ := by
        cases hnode
        exact ⟨rfl, le_rfl, fun hd => ⟨_, hd, rfl⟩, by simp [registrations],
          fun hs => ⟨hs.younger, hs.tagged, hs.rootClasses, hs.childClasses⟩, [], by simp⟩
      rcases newLinkedDevice_eq_ok hdevice with ⟨hlogic, rfl, rfl⟩ | ⟨hlogic, rfl, htree⟩
      · have hstands : Stands design (.named className) none tree₁ := by
          intro h
          rw [hlogic] at h
          cases h
        have hextends := extends_configureChildren ih hstands hchildren
        exact ⟨(hsame.2.trans hextends).congr (by simp), hlogic.symm, by simp⟩
      · have hnew : Extends design (fun _ => False) [tree₀.objects.length] tree₀ tree₁ :=
          htree ▸ extends_newDevice tree₀
        have hget : tree₁.objects[tree₀.objects.length]? =
            some ⟨className, parent, some asItem, []⟩ := by
          rw [htree]
          simp
        have hstands : Stands design (.named className)
            (some (.object tree₀.objects.length)) tree₁ :=
          fun _ => ⟨_, _, rfl, hget, rfl⟩
        have hextends := extends_configureChildren ih hstands hchildren
        obtain ⟨d, hd, hname⟩ := hextends.kept hget
        refine ⟨(hsame.2.trans (hnew.trans hextends)).congr (by simp), hlogic.symm, ?_⟩
        rintro id hid
        cases hid
        exact ⟨by rw [hsame.1], d, hd, hname⟩

/-- From an empty tree, the objects of a configuration are registered once each,
and the orphans are of the classes that it places under address-space classes. -/
theorem extends_configure {depth : Nat} {config : XmlObject} {tree : DeviceTree}
    (h : configure design depth config = .ok tree) :
    Extends design (Orphans design .root config) [] emptyDeviceTree tree := by
  obtain ⟨⟨⟨⟩, tree'⟩, hrun, rfl⟩ := except_map_eq_ok.1 h
  refine extends_configureChildren ?_ rfl hrun
  intro className xmlObj parent result tree₁ tree₂ hclass
  exact configureClass_configures depth hclass

theorem sound_emptyDeviceTree : Sound design emptyDeviceTree :=
  ⟨by simp [emptyDeviceTree], by simp [registrations, emptyDeviceTree],
    by simp [emptyDeviceTree], by simp [emptyDeviceTree]⟩

end Quasar

end Supernova
