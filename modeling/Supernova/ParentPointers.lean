/-
The parent pointers of device-logic objects: in every tree that the configurator makes, an
object of a class with one device parent points to an object of this parent.
-/
import Supernova.DeviceRegistration

namespace Supernova

namespace Quasar

variable {design : Design}

/-- If the class has one device parent, the pointer is to an object of it. -/
def ParentStands (design : Design) (className : Bytes) (parent : Option DeviceParent)
    (tree : DeviceTree) : Prop :=
  classHasLegitDeviceParent design className = true →
    ∀ origin, getHasObjectsOriginNames design className = [origin] →
      Stands design origin parent tree

def AllParented (design : Design) (tree : DeviceTree) : Prop :=
  ∀ d ∈ tree.objects, ParentStands design d.className d.parent tree

/-- New objects have a parent that stands, and old ones are of their class and keep theirs. -/
theorem AllParented.keeps {tree tree' : DeviceTree} (h : AllParented design tree)
    (hkeeps : KeepsClasses tree tree')
    (hobjects : ∀ d' ∈ tree'.objects,
      (∃ d ∈ tree.objects, d.className = d'.className ∧ d.parent = d'.parent) ∨
        ParentStands design d'.className d'.parent tree') : AllParented design tree' := by
  intro d' hd'
  rcases hobjects d' hd' with ⟨d, hd, hname, hparent⟩ | hnew
  · intro hlegit origin horigin
    rw [← hname] at hlegit horigin
    rw [← hparent]
    exact (h d hd hlegit origin horigin).keeps hkeeps
  · exact hnew

theorem AllParented.modify {tree : DeviceTree} (h : AllParented design tree) (id : ObjectId)
    {f : DeviceObject → DeviceObject}
    (hf : ∀ d, (f d).className = d.className ∧ (f d).parent = d.parent) :
    AllParented design { tree with objects := tree.objects.modify id f } := by
  refine h.keeps ?_ ?_
  · intro i d hd
    by_cases hi : id = i
    · exact ⟨f d, by simp [hd, hi], (hf d).1⟩
    · exact ⟨d, by simp [hd, hi], rfl⟩
  · intro d' hd'
    obtain ⟨i, hi⟩ := List.getElem?_of_mem hd'
    rw [List.getElem?_modify, Option.map_eq_map, Option.map_eq_some_iff] at hi
    obtain ⟨d, hd, rfl⟩ := hi
    refine .inl ⟨d, List.mem_of_getElem? hd, ?_⟩
    split
    · exact ⟨(hf d).1.symm, (hf d).2.symm⟩
    · exact ⟨rfl, rfl⟩

theorem AllParented.newLinkedDevice {className : Bytes} {parent : Option DeviceParent}
    {asItem : Nat} {tree tree' : DeviceTree} {dItem : Option ObjectId}
    (h : AllParented design tree) (hparent : ParentStands design className parent tree)
    (hrun : Quasar.newLinkedDevice design className parent asItem tree = .ok (dItem, tree')) :
    AllParented design tree' := by
  rcases newLinkedDevice_eq_ok hrun with ⟨-, -, rfl⟩ | ⟨-, -, rfl⟩
  · exact h
  · have hkeeps : KeepsClasses tree
        { tree with objects := tree.objects ++ [⟨className, parent, some asItem, []⟩] } := by
      intro id d hd
      have hlt := (List.getElem?_eq_some_iff.mp hd).1
      exact ⟨d, (List.getElem?_append_left hlt).trans hd, rfl⟩
    refine h.keeps hkeeps ?_
    intro d' hd'
    rcases List.mem_append.mp hd' with hd' | hd'
    · exact .inl ⟨d', hd', rfl, rfl⟩
    · rw [List.mem_singleton] at hd'
      subst hd'
      exact .inr fun hlegit origin horigin => (hparent hlegit origin horigin).keeps hkeeps

/-- A parent that has children of a class is where the class comes from. -/
theorem mem_getHasObjectsOriginNames {parent : ParentClass} {className : Bytes}
    (h : className ∈ (objectifyHasObjects design parent).map HasObjects.className) :
    parent ∈ getHasObjectsOriginNames design className := by
  obtain ⟨ho, hho, hname⟩ := List.mem_map.mp h
  rw [getHasObjectsOriginNames]
  cases parent with
  | root =>
      apply List.mem_append_right
      have hrefers : (design.root.any fun ho => ho.className = className) = true :=
        List.any_eq_true.mpr ⟨ho, hho, by simpa using hname⟩
      simp [hrefers]
  | named parentName =>
      obtain ⟨c, hc, hho⟩ := List.mem_flatMap.mp hho
      rw [List.mem_filter] at hc
      apply List.mem_append_left
      refine List.mem_map.mpr ⟨c, List.mem_filter.mpr ⟨hc.1, ?_⟩, ?_⟩
      · exact List.any_eq_true.mpr ⟨ho, hho, by simpa using hname⟩
      · simpa using hc.2

section Configuring

theorem configure_forM_keeps {α : Type} {f : α → Configure Unit} {l : List α}
    {J : DeviceTree → Prop}
    (hstep : ∀ a ∈ l, ∀ tree tree', J tree → f a tree = .ok (⟨⟩, tree') → J tree')
    {tree tree' : DeviceTree} (htree : J tree) (h : l.forM f tree = .ok (⟨⟩, tree')) :
    J tree' := by
  induction l generalizing tree with
  | nil =>
      cases h
      exact htree
  | cons a l ih =>
      rw [List.forM_eq_forM, List.forM_cons, configure_bind_eq_ok] at h
      obtain ⟨⟨⟩, tree₁, hfirst, hrest⟩ := h
      exact ih (fun a' ha' => hstep a' (List.mem_cons_of_mem _ ha'))
        (hstep a List.mem_cons_self tree tree₁ htree hfirst) hrest

/-- What configuring an object of a class does to parent pointers, given that its own is
right. -/
def ConfiguresParented (design : Design) (configureFunction : ConfigureClass) : Prop :=
  ∀ {className xmlObj parent result tree tree'},
    configureFunction className xmlObj parent tree = .ok (result, tree') →
    Configures design className xmlObj result tree tree' ∧
      (AllParented design tree → ParentStands design className parent tree →
        AllParented design tree')

variable {configureFunction : ConfigureClass}
  (hfunction : ConfiguresParented design configureFunction)
  {parent : ParentClass} {parentDevice : Option DeviceParent}

/-- The device of the parent is there, and all pointers are right. -/
def StandsParented (design : Design) (parent : ParentClass) (parentDevice : Option DeviceParent)
    (tree : DeviceTree) : Prop :=
  Stands design parent parentDevice tree ∧ AllParented design tree

/-- The parent that the configurator passes is right for the class. -/
theorem parentStands_of_mem {className : Bytes}
    (hclass : className ∈ (objectifyHasObjects design parent).map HasObjects.className)
    {tree : DeviceTree} (hstands : Stands design parent parentDevice tree) :
    ParentStands design className
      (if classHasLegitDeviceParent design className then parentDevice else none) tree := by
  intro hlegit origin horigin
  have hparent := mem_getHasObjectsOriginNames hclass
  rw [horigin, List.mem_singleton] at hparent
  rw [if_pos hlegit, ← hparent]
  exact hstands

theorem allParented_add {tree tree' : DeviceTree} (h : AllParented design tree)
    {parent : DeviceParent} {className : Bytes} {device : ObjectId}
    (hrun : add parent className device tree = .ok (⟨⟩, tree')) : AllParented design tree' := by
  cases parent with
  | root =>
      cases hrun
      exact h
  | object id =>
      rw [add_object_eq] at hrun
      cases hrun
      exact h.modify id fun _ => ⟨rfl, rfl⟩

include hfunction

theorem standsParented_configureObject {className : Bytes} {xmlObj : XmlObject}
    (hclass : className ∈ (objectifyHasObjects design parent).map HasObjects.className)
    {tree tree' : DeviceTree} (hstands : StandsParented design parent parentDevice tree)
    (h : configureObject design configureFunction parent parentDevice className xmlObj tree =
      .ok (⟨⟩, tree')) : StandsParented design parent parentDevice tree' := by
  have hextends := extends_configureObject (fun hrun => (hfunction hrun).1) hclass hstands.1 h
  refine ⟨hstands.1.kept hextends, ?_⟩
  have hparentStands := parentStands_of_mem hclass hstands.1
  unfold configureObject at h
  by_cases hlogic : classHasDeviceLogic design className = true
  · rw [if_pos hlogic, configure_bind_eq_ok] at h
    obtain ⟨result, tree₁, hrun, h⟩ := h
    have hparented := (hfunction hrun).2 hstands.2 hparentStands
    rcases result with _ | device
    · cases h
      exact hparented
    have hregister : (if parentHasDeviceLogic design parent then
        parentDevice.forM fun parent => add parent className device
      else registerOrphanedObject className device) tree₁ = .ok (⟨⟩, tree') := h
    split at hregister
    · rcases parentDevice with _ | parentDevice
      · cases hregister
        exact hparented
      · exact allParented_add hparented hregister
    · cases hregister
      exact hparented
  · rw [if_neg hlogic, configure_bind_eq_ok] at h
    obtain ⟨result, tree₁, hrun, h⟩ := h
    cases h
    refine (hfunction hrun).2 hstands.2 ?_
    intro hlegit
    simp [classHasLegitDeviceParent, hlogic] at hlegit

theorem standsParented_configureEntry {config : XmlObject} {entry : ContentOrder}
    {tree tree' : DeviceTree} (hstands : StandsParented design parent parentDevice tree)
    (h : configureEntry design configureFunction parent parentDevice config entry tree =
      .ok (⟨⟩, tree')) : StandsParented design parent parentDevice tree' := by
  unfold configureEntry at h
  rcases hid : entry.id with innerClass | _ | _ | _
  · simp only [hid] at h
    split at h
    · rename_i hmem
      rcases hget : config.get? innerClass entry.index with _ | xmlObj
      · rw [hget] at h
        cases h
      · simp only [hget] at h
        obtain ⟨ho, hho, rfl⟩ := List.mem_map.mp hmem
        exact standsParented_configureObject hfunction
          (List.mem_map_of_mem (List.mem_of_mem_filter hho)) hstands h
    · cases h
      exact hstands
  all_goals
    simp only [hid] at h
    cases h
    exact hstands

theorem standsParented_configureChildren {config : XmlObject} {tree tree' : DeviceTree}
    (hstands : StandsParented design parent parentDevice tree)
    (h : configureChildren design configureFunction parent parentDevice config tree =
      .ok (⟨⟩, tree')) : StandsParented design parent parentDevice tree' := by
  simp only [configureChildren, writeConfigureObjectByConfiguration, configure_bind_eq_ok] at h
  obtain ⟨⟨⟩, tree₁, hdesign, ⟨⟩, tree₂, hvalidate, ⟨⟩, tree₃, hvariables, hentries⟩ := h
  have hfirst : StandsParented design parent parentDevice tree₁ := by
    refine configure_forM_keeps ?_ hstands hdesign
    intro ho hho tree₄ tree₅ hstands₄ hloop
    refine configure_forM_keeps ?_ hstands₄ hloop
    intro name _ tree₆ tree₇ hstands₆ hobject
    exact standsParented_configureObject hfunction
      (List.mem_map_of_mem (List.mem_of_mem_filter hho)) hstands₆ hobject
  obtain ⟨-, rfl⟩ := forM_checked_eq_ok hvalidate
  obtain ⟨-, rfl⟩ := checked_eq_ok.1 hvariables
  refine configure_forM_keeps ?_ hfirst hentries
  intro entry _ tree₄ tree₅ hstands₄ hentry
  exact standsParented_configureEntry hfunction hstands₄ hentry

end Configuring

theorem configureClass_parented (depth : Nat) :
    ConfiguresParented design (configureClass design depth) := by
  induction depth with
  | zero =>
      intro className xmlObj parent result tree tree' h
      cases h
  | succ depth ih =>
      intro className xmlObj parent result tree tree' h
      refine ⟨configureClass_configures (depth + 1) h, fun hparented hparent => ?_⟩
      simp only [configureClass, configure_bind_eq_ok] at h
      obtain ⟨asItem, tree₀, hnode, dItem, tree₁, hdevice, ⟨⟩, tree₂, hchildren, h⟩ := h
      cases h
      cases hnode
      have hdevices := @AllParented.newLinkedDevice design className parent tree.asObjects
        { tree with asObjects := tree.asObjects + 1 } tree₁ _ hparented hparent
        hdevice
      refine (standsParented_configureChildren ih ⟨?_, hdevices⟩ hchildren).2
      rcases newLinkedDevice_eq_ok hdevice with ⟨hlogic, rfl, -⟩ | ⟨-, rfl, rfl⟩
      · intro hlogic'
        simp [hlogic] at hlogic'
      · intro _
        exact ⟨tree.objects.length, ⟨className, parent, some tree.asObjects, []⟩, rfl, by simp, rfl⟩

/-- In a configured tree every device-logic object has the parent that its class has. -/
theorem allParented_configure {depth : Nat} {config : XmlObject} {tree : DeviceTree}
    (h : configure design depth config = .ok tree) : AllParented design tree := by
  obtain ⟨⟨⟨⟩, tree'⟩, hrun, rfl⟩ := except_map_eq_ok.1 h
  have hstart : StandsParented design .root (some .root) emptyDeviceTree := by
    refine ⟨rfl, ?_⟩
    intro d hd
    cases hd
  exact (standsParented_configureChildren (configureClass_parented depth) hstart hrun).2

end Quasar

end Supernova
