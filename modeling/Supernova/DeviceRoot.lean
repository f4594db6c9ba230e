/-
The root of the device logic at shutdown: it unlinks its children and the orphans
from the address space, and deletes them when it is destroyed.
-/
import Supernova.DeviceRegistration
import Supernova.Forest

namespace Supernova

attribute [local semireducible] ByteArray.toList.loop

namespace Quasar

section Root

variable (design : Design)

/-- The children of one class. -/
def collection (children : List (Bytes × ObjectId)) (className : Bytes) : List ObjectId :=
  (children.filter fun child => child.1 = className).map Prod.snd

/-- The objects that the loops over the `hasobjects` of a parent visit. -/
def deviceObjects (parent : ParentClass) (children : List (Bytes × ObjectId)) :
    List ObjectId :=
  (deviceClasses design parent).flatMap (collection children)

def deviceObject (id : ObjectId) : StateT DeviceTree Option DeviceObject :=
  fun tree => tree.objects[id]?.map fun device => (device, tree)

def unlinkAddressSpace (tree : DeviceTree) (id : ObjectId) : DeviceTree :=
  { tree with objects := tree.objects.modify id fun d => { d with addressSpaceLink := none } }

/-- The objects that are unlinked, self included; the code counts them. There is
no result from an object that does not exist, or from calls without an end. -/
def unlinkAllChildren : Nat → ObjectId → StateT DeviceTree Option (List ObjectId)
  | 0, _ => failure
  | depth + 1, id => do
      let device ← deviceObject id
      modify (unlinkAddressSpace · id)
      let unlinked ← (deviceObjects design (.named device.className) device.children).mapM
        (unlinkAllChildren depth)
      pure (id :: unlinked.flatten)

/-- `unlinkAllChildren` of the root: its children, then the orphaned objects of
the classes that are its children. -/
def rootUnlinkAllChildren (depth : Nat) : StateT DeviceTree Option (List ObjectId) := do
  let tree ← get
  let unlinked ← (deviceObjects design .root tree.rootChildren).mapM
    (unlinkAllChildren design depth)
  let orphans ← (deviceObjects design .root tree.orphanedObjects).mapM
    (unlinkAllChildren design depth)
  pure (unlinked.flatten ++ orphans.flatten)

/-- Deleting an object: its children first, then itself. An object is not there
to be deleted twice; the vectors that are cleared are gone with it. -/
def deleteObject (tree : DeviceTree) : Nat → List ObjectId → ObjectId → Option (List ObjectId)
  | 0, _, _ => none
  | depth + 1, deleted, id =>
      if id ∈ deleted then none
      else
        match tree.objects[id]? with
        | none => none
        | some device => do
            let deleted ← (deviceObjects design (.named device.className)
              device.children).foldlM (deleteObject tree depth) deleted
            pure (deleted ++ [id])

/-- The destructor of the root: the children, then orphaned objects as above. -/
def deleteRoot (depth : Nat) (tree : DeviceTree) : Option (List ObjectId) := do
  let deleted ← (deviceObjects design .root tree.rootChildren).foldlM
    (deleteObject design tree depth) []
  (deviceObjects design .root tree.orphanedObjects).foldlM
    (deleteObject design tree depth) deleted

end Root

section Walks

open Forest

variable {design : Design}

/-- What the loops of one object visit. -/
def below (design : Design) (tree : DeviceTree) (id : ObjectId) : List ObjectId :=
  match tree.objects[id]? with
  | none => []
  | some device => deviceObjects design (.named device.className) device.children

/-- A tree after some objects were unlinked. -/
def unlinked (ids : List ObjectId) (tree : DeviceTree) : DeviceTree :=
  ids.foldl unlinkAddressSpace tree

theorem getElem?_unlinked (ids : List ObjectId) (tree : DeviceTree) (i : Nat) :
    (unlinked ids tree).objects[i]? = tree.objects[i]?.map fun d =>
      if i ∈ ids then { d with addressSpaceLink := none } else d := by
  induction ids generalizing tree with
  | nil => simp [unlinked]
  | cons id ids ih =>
      rw [unlinked, List.foldl_cons, ← unlinked, ih, unlinkAddressSpace, List.getElem?_modify,
        Option.map_eq_map, Option.map_map]
      congr 1
      funext d
      by_cases hid : i = id <;> by_cases hmem : i ∈ ids <;> simp [hid, hmem, eq_comm]

@[simp] theorem length_unlinked (ids : List ObjectId) (tree : DeviceTree) :
    (unlinked ids tree).objects.length = tree.objects.length := by
  induction ids generalizing tree with
  | nil => rfl
  | cons id ids ih =>
      rw [unlinked, List.foldl_cons, ← unlinked, ih, unlinkAddressSpace, List.length_modify]

theorem lists_unlinked (ids : List ObjectId) (tree : DeviceTree) :
    (unlinked ids tree).rootChildren = tree.rootChildren ∧
      (unlinked ids tree).orphanedObjects = tree.orphanedObjects := by
  induction ids generalizing tree with
  | nil => exact ⟨rfl, rfl⟩
  | cons id ids ih =>
      rw [unlinked, List.foldl_cons, ← unlinked]
      exact ih _

/-- Unlinking leaves the children of every object alone. -/
@[simp] theorem below_unlinked (ids : List ObjectId) (tree : DeviceTree) :
    below design (unlinked ids tree) = below design tree := by
  funext i
  unfold below
  rw [getElem?_unlinked]
  rcases tree.objects[i]? with _ | d
  · rfl
  · simp only [Option.map_some]
    split <;> rfl

theorem unlinked_append (ids ids' : List ObjectId) (tree : DeviceTree) :
    unlinked (ids ++ ids') tree = unlinked ids' (unlinked ids tree) :=
  List.foldl_append

variable {tree : DeviceTree}

theorem bind_of_eq_some {α β : Type} {x : StateT DeviceTree Option α}
    {f : α → StateT DeviceTree Option β} {tree tree' : DeviceTree} {a : α}
    (h : x tree = some (a, tree')) : (x >>= f) tree = f a tree' := by
  change (x tree).bind (fun result => f result.1 result.2) = _
  rw [h]
  rfl

/-- The calls for a list of objects, when each call does a walk. -/
theorem unlinks_eq {depth : Nat} {l : List ObjectId}
    (h : ∀ id ∈ l, ∀ tree', below design tree' = below design tree →
      tree'.objects.length = tree.objects.length →
      unlinkAllChildren design depth id tree' =
        some (walk (below design tree) depth id,
          unlinked (walk (below design tree) depth id) tree')) (ids : List ObjectId) :
    l.mapM (unlinkAllChildren design depth) (unlinked ids tree) =
      some (l.map (walk (below design tree) depth),
        unlinked (ids ++ l.flatMap (walk (below design tree) depth)) tree) := by
  induction l generalizing ids with
  | nil => simp [pure, StateT.pure]
  | cons id l ih =>
      have hfirst := h id List.mem_cons_self (unlinked ids tree) (by simp) (by simp)
      have hrest := ih (fun id' hid' => h id' (List.mem_cons_of_mem _ hid'))
        (ids ++ walk (below design tree) depth id)
      rw [← unlinked_append] at hfirst
      rw [List.mapM_cons, bind_of_eq_some hfirst, bind_of_eq_some hrest, List.flatMap_cons,
        ← List.append_assoc]
      rfl

/-- Unlinking an object unlinks the walk from it, and ends. -/
theorem unlinkAllChildren_eq (depth : Nat) {id : Nat}
    (hforward : Forward (below design tree) tree.objects.length)
    (hid : id < tree.objects.length) (hdepth : tree.objects.length ≤ id + depth)
    {tree' : DeviceTree} (hbelow : below design tree' = below design tree)
    (hlength : tree'.objects.length = tree.objects.length) :
    unlinkAllChildren design depth id tree' =
      some (walk (below design tree) depth id,
        unlinked (walk (below design tree) depth id) tree') := by
  induction depth generalizing id tree' with
  | zero => omega
  | succ depth ih =>
      have hid' : id < tree'.objects.length := hlength ▸ hid
      have hdevice := List.getElem?_eq_getElem hid'
      have hchildren : below design tree id = deviceObjects design
          (.named tree'.objects[id].className) tree'.objects[id].children := by
        rw [← hbelow, below, hdevice]
      have hrun := @unlinks_eq design tree' depth (below design tree id)
        (fun child hchild tree₁ hbelow₁ hlength₁ => by
          obtain ⟨hlt, hbound⟩ := hforward id child hchild
          rw [hbelow]
          exact ih hbound (by omega) (hbelow₁.trans hbelow) (hlength₁.trans hlength)) [id]
      rw [hbelow, hchildren] at hrun
      rw [walk, hchildren, ← List.singleton_append]
      have hobject : deviceObject id tree' = some (tree'.objects[id], tree') := by
        rw [deviceObject, hdevice]
        rfl
      have hmodify : (modify (unlinkAddressSpace · id) : StateT DeviceTree Option Unit) tree' =
          some (⟨⟩, unlinked [id] tree') := rfl
      rw [unlinkAllChildren, bind_of_eq_some hobject, bind_of_eq_some hmodify,
        bind_of_eq_some hrun]
      rfl

/-- Deleting some objects deletes the walks from them, when no object is there twice. -/
theorem deletes_eq {depth : Nat} {l deleted : List ObjectId}
    (h : ∀ id ∈ l, ∀ deleted, (deleted ++ walk (below design tree) depth id).Nodup →
      ∃ deleted', deleteObject design tree depth deleted id = some deleted' ∧
        deleted'.Perm (deleted ++ walk (below design tree) depth id))
    (hnodup : (deleted ++ l.flatMap (walk (below design tree) depth)).Nodup) :
    ∃ deleted', l.foldlM (deleteObject design tree depth) deleted = some deleted' ∧
      deleted'.Perm (deleted ++ l.flatMap (walk (below design tree) depth)) := by
  induction l generalizing deleted with
  | nil => exact ⟨deleted, rfl, by simp⟩
  | cons id l ih =>
      rw [List.flatMap_cons, ← List.append_assoc] at hnodup ⊢
      obtain ⟨deleted₁, hfirst, hperm⟩ :=
        h id List.mem_cons_self deleted (List.nodup_append.mp hnodup).1
      have hperm' := hperm.append_right (l.flatMap (walk (below design tree) depth))
      obtain ⟨deleted₂, hrest, hperm₂⟩ := ih (fun id' hid' => h id' (List.mem_cons_of_mem _ hid'))
        (hperm'.nodup_iff.mpr hnodup)
      refine ⟨deleted₂, ?_, hperm₂.trans hperm'⟩
      rw [List.foldlM_cons, hfirst]
      exact hrest

theorem deleteObject_eq (depth : Nat) {id : Nat} {deleted : List ObjectId}
    (hforward : Forward (below design tree) tree.objects.length)
    (hid : id < tree.objects.length) (hdepth : tree.objects.length ≤ id + depth)
    (hnodup : (deleted ++ walk (below design tree) depth id).Nodup) :
    ∃ deleted', deleteObject design tree depth deleted id = some deleted' ∧
      deleted'.Perm (deleted ++ walk (below design tree) depth id) := by
  induction depth generalizing id deleted with
  | zero => omega
  | succ depth ih =>
      have hdevice := List.getElem?_eq_getElem hid
      have hchildren : below design tree id = deviceObjects design
          (.named tree.objects[id].className) tree.objects[id].children := by
        rw [below, hdevice]
      rw [walk] at hnodup ⊢
      have hmem : id ∉ deleted := by
        intro hmem
        exact (List.nodup_append.mp hnodup).2.2 id hmem id List.mem_cons_self rfl
      have hperm : (deleted ++ (id :: (below design tree id).flatMap
          (walk (below design tree) depth))).Perm
            (id :: (deleted ++ (below design tree id).flatMap
              (walk (below design tree) depth))) := List.perm_middle
      obtain ⟨deleted₁, hrun, hperm₁⟩ := @deletes_eq design tree depth _ deleted
        (fun child hchild deleted hnodup => by
          obtain ⟨hlt, hbound⟩ := hforward id child hchild
          exact ih hbound (by omega) hnodup)
        (List.nodup_cons.mp (hperm.nodup_iff.mp hnodup)).2
      rw [hchildren] at hrun
      refine ⟨deleted₁ ++ [id], ?_, ?_⟩
      · rw [deleteObject, if_neg hmem, hdevice]
        simp only [hrun]
        rfl
      · refine (List.perm_append_singleton id deleted₁).trans (.trans ?_ hperm.symm)
        exact hperm₁.cons id

end Walks

section Coverage

open Forest

variable {design : Design}

/-- Collecting class by class gives the children of these classes. -/
theorem flatMap_collection_perm {classes : List Bytes} (hnodup : classes.Nodup)
    (children : List (Bytes × ObjectId)) :
    (classes.flatMap (collection children)).Perm
      ((children.filter fun child => child.1 ∈ classes).map Prod.snd) := by
  induction classes with
  | nil => simp
  | cons className classes ih =>
      obtain ⟨hnot, hnodup⟩ := List.nodup_cons.mp hnodup
      rw [List.flatMap_cons]
      refine ((ih hnodup).append_left _).trans ?_
      rw [collection, ← List.map_append]
      refine .map _ ?_
      have hsplit := List.filter_append_perm (fun child : Bytes × ObjectId =>
        decide (child.1 = className))
        (children.filter fun child => child.1 ∈ className :: classes)
      rw [List.filter_filter, List.filter_filter] at hsplit
      refine .trans (.of_eq ?_) hsplit
      congr 1 <;> apply List.filter_congr <;> intro child _
      · by_cases hname : child.1 = className <;> simp [hname]
      · by_cases hname : child.1 = className
        · simp [hname, hnot]
        · simp [hname]

theorem deviceObjects_perm (hnames : ValidNames design) (parent : ParentClass)
    (children : List (Bytes × ObjectId)) :
    (deviceObjects design parent children).Perm
      ((children.filter fun child => child.1 ∈ deviceClasses design parent).map Prod.snd) :=
  flatMap_collection_perm ((hnames.nodup parent).sublist (List.filter_sublist.map _)) children

theorem deviceObjects_perm_of_forall (hnames : ValidNames design) {parent : ParentClass}
    {children : List (Bytes × ObjectId)}
    (h : ∀ child ∈ children, child.1 ∈ deviceClasses design parent) :
    (deviceObjects design parent children).Perm (children.map Prod.snd) := by
  have hfilter : (children.filter fun child => child.1 ∈ deviceClasses design parent) =
      children := by
    simpa using h
  have hperm := deviceObjects_perm hnames parent children
  rwa [hfilter] at hperm

variable {tree : DeviceTree}

theorem below_perm (hnames : ValidNames design) (hsound : Sound design tree) (id : Nat) :
    (below design tree id).Perm
      ((tree.objects[id]?.elim [] DeviceObject.children).map Prod.snd) := by
  unfold below
  rcases hdevice : tree.objects[id]? with _ | device
  · exact .nil
  · exact deviceObjects_perm_of_forall hnames
      (hsound.childClasses device (List.mem_of_getElem? hdevice))

theorem flatMap_range_getElem? {α β : Type} (l : List α) (g : α → List β) :
    (List.range l.length).flatMap (fun i => l[i]?.elim [] g) = l.flatMap g := by
  induction l with
  | nil => rfl
  | cons a l ih =>
      rw [List.length_cons, List.range_succ_eq_map, List.flatMap_cons, List.flatMap_cons, ← ih,
        List.flatMap_map]
      rfl

/-- Children are younger than the objects whose loops visit them. -/
theorem forward_below (hnames : ValidNames design) (hsound : Sound design tree) :
    Forward (below design tree) tree.objects.length := by
  intro id child hchild
  rw [(below_perm hnames hsound id).mem_iff] at hchild
  rcases hdevice : tree.objects[id]? with _ | device
  · simp [hdevice] at hchild
  · rw [hdevice, Option.elim_some] at hchild
    obtain ⟨r, hr, rfl⟩ := List.mem_map.mp hchild
    refine ⟨hsound.younger id device hdevice r hr, ?_⟩
    obtain ⟨d, hd, -⟩ := hsound.tagged r (List.mem_append_right _
      (List.mem_flatMap.mpr ⟨device, List.mem_of_getElem? hdevice, hr⟩))
    exact (List.getElem?_eq_some_iff.mp hd).1

/-- The orphaned objects that are not of a class under the root. -/
def missed (design : Design) (tree : DeviceTree) : List ObjectId :=
  (tree.orphanedObjects.filter fun r => r.1 ∉ deviceClasses design .root).map Prod.snd

/-- The objects that the loops of the root visit. -/
def visited (design : Design) (tree : DeviceTree) : List ObjectId :=
  deviceObjects design .root tree.rootChildren ++
    deviceObjects design .root tree.orphanedObjects

/-- The walks from what the root visits, and from what it misses, meet every
object once. -/
theorem walks_perm (hnames : ValidNames design) (hsound : Sound design tree)
    (hregistered : ((registrations tree).map Prod.snd).Perm (List.range tree.objects.length))
    {depth : Nat} (hdepth : tree.objects.length ≤ depth) :
    ((visited design tree).flatMap (walk (below design tree) depth) ++
      (missed design tree).flatMap (walk (below design tree) depth)).Perm
        (List.range tree.objects.length) := by
  have hchildren : ((List.range tree.objects.length).flatMap (below design tree)).Perm
      ((tree.objects.flatMap DeviceObject.children).map Prod.snd) := by
    refine (List.Perm.flatMap_left _ fun id _ => below_perm hnames hsound id).trans ?_
    rw [← flatMap_range_getElem? tree.objects, List.map_flatMap]
  have hroot := deviceObjects_perm_of_forall hnames hsound.rootClasses
  have horphans : (deviceObjects design .root tree.orphanedObjects ++
      missed design tree).Perm (tree.orphanedObjects.map Prod.snd) := by
    refine ((deviceObjects_perm hnames .root tree.orphanedObjects).append_right _).trans ?_
    rw [missed, ← List.map_append]
    refine .map _ ?_
    simpa using List.filter_append_perm
      (fun r : Bytes × ObjectId => decide (r.1 ∈ deviceClasses design .root))
      tree.orphanedObjects
  have htops : ((visited design tree ++ missed design tree) ++
      (List.range' 0 tree.objects.length).flatMap (below design tree)).Perm
        (List.range' 0 tree.objects.length) := by
    rw [← List.range_eq_range']
    refine .trans ?_ hregistered
    rw [registrations, List.map_append, List.map_append]
    refine .append ?_ hchildren
    rw [visited, List.append_assoc]
    exact hroot.append horphans
  have hwalk := walk_perm (forward_below hnames hsound) tree.objects.length 0 (by simp) hdepth _
    htops
  rwa [List.flatMap_append, ← List.range_eq_range'] at hwalk

theorem missed_eq_nil_iff {config : XmlObject} {depth : Nat}
    (h : configure design depth config = .ok tree) :
    missed design tree = [] ↔ ∀ className, Orphans design .root config className →
      className ∈ design.root.map HasObjects.className := by
  obtain ⟨added, hadded, hclasses⟩ := (extends_configure h).orphans
  have horphaned : tree.orphanedObjects = added := by
    rw [hadded]
    rfl
  rw [missed, List.map_eq_nil_iff, List.filter_eq_nil_iff, horphaned]
  constructor
  · intro hnone className horphan
    obtain ⟨id, hid⟩ := (hclasses className).mpr horphan
    have hmem : className ∈ deviceClasses design .root := by
      simpa using hnone _ hid
    obtain ⟨ho, hho, hname⟩ := List.mem_map.mp hmem
    exact List.mem_map.mpr ⟨ho, (List.mem_filter.mp hho).1, hname⟩
  · rintro hall ⟨className, id⟩ hid
    have horphan := (hclasses className).mp ⟨id, hid⟩
    obtain ⟨ho, hho, rfl⟩ := List.mem_map.mp (hall className horphan)
    obtain ⟨-, -, -, hlogic⟩ := horphan
    have hmem : ho.className ∈ deviceClasses design .root :=
      List.mem_map.mpr ⟨ho, List.mem_filter.mpr ⟨hho, hlogic⟩, rfl⟩
    simpa using hmem

end Coverage

section Shutdown

open Forest

variable {design : Design} {tree : DeviceTree}

/-- Every device-logic object is registered once, for its class; the root then
unlinks every one once, so that none has a link, and deletes every one once. -/
structure Accounted (design : Design) (tree : DeviceTree) : Prop where
  registered : ((registrations tree).map Prod.snd).Perm (List.range tree.objects.length)
  tagged : ∀ r ∈ registrations tree, ∃ d : DeviceObject,
    tree.objects[r.2]? = some d ∧ d.className = r.1
  shutDown : ∀ depth, tree.objects.length ≤ depth → ∃ ids tree',
    rootUnlinkAllChildren design depth tree = some (ids, tree') ∧
    ids.Perm (List.range tree.objects.length) ∧
    (∀ d ∈ tree'.objects, d.addressSpaceLink = none) ∧
    ∃ deleted, deleteRoot design depth tree' = some deleted ∧
      deleted.Perm (List.range tree.objects.length)

/-- What the root visits is among the objects. -/
theorem lt_of_mem_visited (hnames : ValidNames design) (hsound : Sound design tree) {id : Nat}
    (h : id ∈ visited design tree) : id < tree.objects.length := by
  have hmem : ∃ r ∈ registrations tree, r.2 = id := by
    rcases List.mem_append.mp h with h | h
    · rw [(deviceObjects_perm hnames _ _).mem_iff] at h
      obtain ⟨r, hr, rfl⟩ := List.mem_map.mp h
      exact ⟨r, List.mem_append_left _ (List.mem_append_left _ (List.mem_filter.mp hr).1), rfl⟩
    · rw [(deviceObjects_perm hnames _ _).mem_iff] at h
      obtain ⟨r, hr, rfl⟩ := List.mem_map.mp h
      exact ⟨r, List.mem_append_left _ (List.mem_append_right _ (List.mem_filter.mp hr).1), rfl⟩
  obtain ⟨r, hr, rfl⟩ := hmem
  obtain ⟨d, hd, -⟩ := hsound.tagged r hr
  exact (List.getElem?_eq_some_iff.mp hd).1

theorem rootUnlinkAllChildren_eq (hnames : ValidNames design) (hsound : Sound design tree)
    {depth : Nat} (hdepth : tree.objects.length ≤ depth) :
    rootUnlinkAllChildren design depth tree =
      some ((visited design tree).flatMap (walk (below design tree) depth),
        unlinked ((visited design tree).flatMap (walk (below design tree) depth)) tree) := by
  have hcalls : ∀ id ∈ visited design tree, ∀ tree', below design tree' = below design tree →
      tree'.objects.length = tree.objects.length →
      unlinkAllChildren design depth id tree' =
        some (walk (below design tree) depth id,
          unlinked (walk (below design tree) depth id) tree') := by
    intro id hid tree' hbelow hlength
    exact unlinkAllChildren_eq depth (forward_below hnames hsound)
      (lt_of_mem_visited hnames hsound hid) (by omega) hbelow hlength
  have hchildren := unlinks_eq (fun id hid => hcalls id (List.mem_append_left _ hid)) []
  have horphans := unlinks_eq (fun id hid => hcalls id (List.mem_append_right _ hid))
    ((deviceObjects design .root tree.rootChildren).flatMap (walk (below design tree) depth))
  rw [List.nil_append] at hchildren
  rw [show unlinked [] tree = tree from rfl] at hchildren
  rw [← List.flatMap_append] at horphans
  have hget : (get : StateT DeviceTree Option DeviceTree) tree = some (tree, tree) := rfl
  rw [rootUnlinkAllChildren, bind_of_eq_some hget, bind_of_eq_some hchildren,
    bind_of_eq_some horphans, visited, List.flatMap_append]
  rfl

/-- Without missed objects, everything that the configurator made is accounted
for; with missed objects, they are never visited. -/
theorem accounted_iff_missed (hnames : ValidNames design) (hsound : Sound design tree)
    (hregistered : ((registrations tree).map Prod.snd).Perm (List.range tree.objects.length)) :
    Accounted design tree ↔ missed design tree = [] := by
  have hrun := @rootUnlinkAllChildren_eq design tree hnames hsound _ le_rfl
  constructor
  · intro h
    obtain ⟨ids, tree', hids, hperm, -⟩ := h.shutDown _ le_rfl
    have hwalks := walks_perm hnames hsound hregistered le_rfl
    rw [hrun] at hids
    simp only [Option.some.injEq, Prod.mk.injEq] at hids
    rw [hids.1] at hwalks
    have hlength := hwalks.length_eq.trans hperm.length_eq.symm
    rw [List.length_append] at hlength
    have hnil : (missed design tree).flatMap
        (walk (below design tree) tree.objects.length) = [] :=
      List.length_eq_zero_iff.mp (by omega)
    rw [List.eq_nil_iff_forall_not_mem]
    intro id hid
    have hempty := List.flatMap_eq_nil_iff.mp hnil id hid
    have hlt : id ∈ List.range tree.objects.length := by
      obtain ⟨r, hr, rfl⟩ := List.mem_map.mp hid
      exact hregistered.mem_iff.mp (List.mem_map_of_mem
        (List.mem_append_left _ (List.mem_append_right _ (List.mem_filter.mp hr).1)))
    rcases hcount : tree.objects.length with _ | count
    · simp [hcount] at hlt
    · rw [hcount, walk] at hempty
      cases hempty
  · intro hmissed
    refine ⟨hregistered, hsound.tagged, fun depth hdepth => ?_⟩
    have hwalks := walks_perm hnames hsound hregistered hdepth
    rw [hmissed, List.flatMap_nil, List.append_nil] at hwalks
    refine ⟨_, _, rootUnlinkAllChildren_eq hnames hsound hdepth, hwalks, ?_, ?_⟩
    · intro d hd
      obtain ⟨i, hi⟩ := List.mem_iff_getElem?.mp hd
      rw [getElem?_unlinked] at hi
      obtain ⟨d₀, hd₀, rfl⟩ := Option.map_eq_some_iff.mp hi
      rw [if_pos (hwalks.mem_iff.mpr (List.mem_range.mpr (List.getElem?_eq_some_iff.mp hd₀).1))]
    · generalize hids : (visited design tree).flatMap (walk (below design tree) depth) = ids
        at hwalks
      have hbelow := @below_unlinked design ids tree
      have hlength := length_unlinked ids tree
      obtain ⟨hroot, horphaned⟩ := lists_unlinked ids tree
      obtain ⟨deleted, hdeleted, hperm⟩ := @deletes_eq design (unlinked ids tree) depth
        (visited design tree) []
        (fun id hid deleted hnodup => deleteObject_eq depth
          (by rw [hbelow, hlength]; exact forward_below hnames hsound)
          (by rw [hlength]; exact lt_of_mem_visited hnames hsound hid) (by omega) hnodup)
        (by rw [hbelow, List.nil_append, hids]; exact hwalks.nodup_iff.mpr List.nodup_range)
      rw [hbelow, List.nil_append, hids] at hperm
      refine ⟨deleted, ?_, hperm.trans hwalks⟩
      rw [visited, List.foldlM_append] at hdeleted
      rw [deleteRoot, hroot, horphaned]
      exact hdeleted

theorem accounted_iff_missed_of_configure {config : XmlObject} {depth : Nat}
    (hvalid : validate design = .ok ⟨⟩) (h : configure design depth config = .ok tree) :
    Accounted design tree ↔ missed design tree = [] := by
  have hextends := extends_configure h
  refine accounted_iff_missed (validNames_of_validate hvalid)
    (hextends.sound sound_emptyDeviceTree) ?_
  simpa [registrations, emptyDeviceTree, List.range_eq_range'] using hextends.registered

/-- What a configurator makes is accounted for at shutdown exactly when every
class of orphans is also a class under the root. -/
theorem accounted_iff {config : XmlObject} {depth : Nat}
    (hvalid : validate design = .ok ⟨⟩) (h : configure design depth config = .ok tree) :
    Accounted design tree ↔ ∀ className, Orphans design .root config className →
      className ∈ design.root.map HasObjects.className := by
  rw [accounted_iff_missed_of_configure hvalid h, missed_eq_nil_iff h]

/-- A rectifier has no device logic, the information on a device has. -/
def rectifiers : Design :=
  let deviceInformation : HasObjects :=
    ⟨text "DeviceInformation", .design, [text "deviceInformation"]⟩
  ⟨[⟨text "DeviceInformation", true, [⟨text "status", .valueAndStatus⟩], [], []⟩,
    ⟨text "Controller", true, [], [], [deviceInformation]⟩,
    ⟨text "Rectifier", false, [], [], [deviceInformation]⟩,
    ⟨text "System", true, [], [], [⟨text "Controller", .design, [text "controller"]⟩,
      ⟨text "Rectifier", .design, [text "rectifier1", text "rectifier2", text "rectifier3"]⟩,
      deviceInformation]⟩],
    [⟨text "System", .design, [text "system"]⟩]⟩

theorem rectifiers_not_accounted :
    ¬ ∀ design, validate design = .ok ⟨⟩ → ∀ depth config tree,
      configure design depth config = .ok tree → Accounted design tree := by
  intro h
  have hvalid : validate rectifiers = .ok ⟨⟩ := by
    decide
  have hmissed : (configure rectifiers 4 (emptyXmlObject [])).map
      (fun tree => (missed rectifiers tree).length) = .ok 3 := by
    decide +kernel
  obtain ⟨tree, htree, hlength⟩ := except_map_eq_ok.1 hmissed
  have hnone := (accounted_iff_missed_of_configure hvalid htree).mp
    (h rectifiers hvalid 4 _ tree htree)
  rw [hnone] at hlength
  cases hlength

/-- With the information also under the root, nothing is missed. -/
theorem accounted_iff_rectifiers :
    let design : Design := { rectifiers with root := rectifiers.root ++
      [⟨text "DeviceInformation", .configuration, []⟩] }
    ∃ tree, configure design 4 (emptyXmlObject []) = .ok tree ∧
      (Accounted design tree ↔ ∀ className, Orphans design .root (emptyXmlObject []) className →
        className ∈ design.root.map HasObjects.className) := by
  intro design
  have hvalid : validate design = .ok ⟨⟩ := by
    decide
  have hlength : (configure design 4 (emptyXmlObject [])).map
      (fun tree => tree.objects.length) = .ok 7 := by
    decide +kernel
  obtain ⟨tree, htree, -⟩ := except_map_eq_ok.1 hlength
  exact ⟨tree, htree, accounted_iff hvalid htree⟩

end Shutdown

end Quasar

end Supernova
