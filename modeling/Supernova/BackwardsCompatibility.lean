/-
Log levels of old configurations: `GeneralLogLevel` and `ComponentLogLevel` children become
`LogLevel` children before the configuration is used, unless a `LogLevel` child has that name.
-/
import Supernova.ContentOrderLoop
import Supernova.EraseRemove

namespace Supernova

attribute [local semireducible] ByteArray.toList.loop

namespace BackwardsCompatibilityUtils

open Quasar EraseRemove

section Elements

structure LogLevel where
  name : Bytes
  logLevel : Bytes
deriving DecidableEq, Repr

structure GeneralLogLevel where
  logLevel : Bytes
deriving DecidableEq, Repr

structure ComponentLogLevel where
  componentName : Bytes
  logLevel : Bytes
deriving DecidableEq, Repr

/-- A `Log` element; the children that are not log levels are given by their number. -/
structure Log where
  generalLogLevel : List GeneralLogLevel
  logLevel : List LogLevel
  componentLogLevels : Nat
  calculatedVariables : Nat
  freeVariables : Nat
  contentOrder : List ContentOrder
deriving DecidableEq, Repr

structure ComponentLogLevels where
  componentLogLevel : List ComponentLogLevel
  logLevel : List LogLevel
  calculatedVariables : Nat
  freeVariables : Nat
  contentOrder : List ContentOrder
deriving DecidableEq, Repr

def logLevelChild : ContentId := .element (text "LogLevel")

def generalLogLevelChild : ContentId := .element (text "GeneralLogLevel")

def componentLogLevelsChild : ContentId := .element (text "ComponentLogLevels")

def componentLogLevelChild : ContentId := .element (text "ComponentLogLevel")

/-- The children that the schema admits in a `Log`, in its order. -/
def Log.childTypes : List ContentId :=
  [.calculatedVariable, .freeVariable, logLevelChild, componentLogLevelsChild,
    generalLogLevelChild]

def ComponentLogLevels.childTypes : List ContentId :=
  [.calculatedVariable, .freeVariable, logLevelChild, componentLogLevelChild]

def Log.childCount (log : Log) (id : ContentId) : Nat :=
  if id = .calculatedVariable then log.calculatedVariables
  else if id = .freeVariable then log.freeVariables
  else if id = logLevelChild then log.logLevel.length
  else if id = componentLogLevelsChild then log.componentLogLevels
  else if id = generalLogLevelChild then log.generalLogLevel.length
  else 0

def ComponentLogLevels.childCount (levels : ComponentLogLevels) (id : ContentId) : Nat :=
  if id = .calculatedVariable then levels.calculatedVariables
  else if id = .freeVariable then levels.freeVariables
  else if id = logLevelChild then levels.logLevel.length
  else if id = componentLogLevelChild then levels.componentLogLevel.length
  else 0

/-- The generated number of a child type; the children of each type count from one. -/
def childTypeId (childTypes : List ContentId) (id : ContentId) : Nat := childTypes.idxOf id + 1

/-- What a number means in the content order of an element with these children. -/
def contentId (childTypes : List ContentId) (childTypeId : Nat) : ContentId :=
  childTypes.getD (childTypeId - 1) .other

end Elements

section Decoration

variable {α : Type}

/-- `DecorationUtils::push_back`, on the children and the content order. -/
def pushBack (parent : List α × List ContentOrder) (child : α) (id : ContentId) :
    List α × List ContentOrder :=
  let children := parent.1 ++ [child]
  (children, parent.2 ++ [⟨id, children.length - 1⟩])

/-- The content order after `DecorationUtils::clear`, which also empties the children. -/
def clear (contentOrder : List ContentOrder) (id : ContentId) : List ContentOrder :=
  contentOrder.filter fun entry => entry.id ≠ id

end Decoration

section Conversion

def generalLogLevelName : Bytes := text "GeneralLogLevel"

def Log.clearGeneralLogLevel (parent : Log) : Log :=
  { parent with
    generalLogLevel := []
    contentOrder := clear parent.contentOrder (contentId Log.childTypes
      (childTypeId Log.childTypes generalLogLevelChild)) }

def convertOldGeneralLogLevel (parent : Log) : Log :=
  if parent.generalLogLevel = [] then parent
  else
    let favoured :=
      if parent.logLevel.any fun logLevel => logLevel.name = generalLogLevelName then
        parent.clearGeneralLogLevel
      else parent
    let converted := favoured.generalLogLevel.foldl (fun log oldLogLevel =>
      pushBack log ⟨generalLogLevelName, oldLogLevel.logLevel⟩
        (contentId Log.childTypes (childTypeId Log.childTypes logLevelChild)))
      (favoured.logLevel, favoured.contentOrder)
    { favoured with logLevel := converted.1, contentOrder := converted.2 }.clearGeneralLogLevel

/-- `none` when `erase` is called with the end of the old children. The new children get the
number that `LogLevel` has in a `Log`. -/
def convertOldComponentLogLevel
    (unspecified : List ComponentLogLevel → Nat → ComponentLogLevel)
    (parent : ComponentLogLevels) : Option ComponentLogLevels :=
  if parent.componentLogLevel = [] then some parent
  else do
    let oldLogLevels ← eraseKeys unspecified ComponentLogLevel.componentName
      (parent.logLevel.map LogLevel.name) parent.componentLogLevel
    let converted := oldLogLevels.foldl (fun levels oldLogLevel =>
      pushBack levels ⟨oldLogLevel.componentName, oldLogLevel.logLevel⟩
        (contentId ComponentLogLevels.childTypes (childTypeId Log.childTypes logLevelChild)))
      (parent.logLevel, parent.contentOrder)
    pure { parent with
      componentLogLevel := []
      logLevel := converted.1
      contentOrder := clear converted.2 (contentId ComponentLogLevels.childTypes
        (childTypeId ComponentLogLevels.childTypes componentLogLevelChild)) }

end Conversion

section Promise

/-- The two elements that may have old children. -/
inductive Element
  | log (log : Log)
  | componentLogLevels (levels : ComponentLogLevels)
deriving DecidableEq, Repr

namespace Element

def childTypes : Element → List ContentId
  | .log _ => Log.childTypes
  | .componentLogLevels _ => ComponentLogLevels.childTypes

def childCount : Element → ContentId → Nat
  | .log parent => parent.childCount
  | .componentLogLevels parent => parent.childCount

def contentOrder : Element → List ContentOrder
  | .log parent => parent.contentOrder
  | .componentLogLevels parent => parent.contentOrder

/-- The old children, as they would be in new style. -/
def oldLevels : Element → List LogLevel
  | .log parent => parent.generalLogLevel.map fun old => ⟨generalLogLevelName, old.logLevel⟩
  | .componentLogLevels parent =>
      parent.componentLogLevel.map fun old => ⟨old.componentName, old.logLevel⟩

def newLevels : Element → List LogLevel
  | .log parent => parent.logLevel
  | .componentLogLevels parent => parent.logLevel

def convert (unspecified : List ComponentLogLevel → Nat → ComponentLogLevel) :
    Element → Option Element
  | .log parent => some (.log (convertOldGeneralLogLevel parent))
  | .componentLogLevels parent =>
      (convertOldComponentLogLevel unspecified parent).map .componentLogLevels

/-- The content order passes the checks, as it does after parsing. -/
def Ordered (element : Element) : Prop :=
  ∀ id ∈ element.childTypes,
    validateContentOrderArray element.contentOrder (element.childCount id) id = .ok ⟨⟩

/-- Old children whose name no new child has have become new children. -/
structure Migrated (before after : Element) : Prop where
  noOld : after.oldLevels = []
  newLevels : after.newLevels = before.newLevels ++
    before.oldLevels.filter fun old => old.name ∉ before.newLevels.map LogLevel.name
  ordered : after.Ordered

/-- The conversion is right, whatever values `remove_if` leaves. -/
def MigratesRight (element : Element) : Prop :=
  ∀ unspecified, ∃ after, element.convert unspecified = some after ∧ element.Migrated after

/-- The new children have different names, and each the name of one old child; or there is
nothing to convert. -/
def Favourable : Element → Prop
  | .log _ => True
  | .componentLogLevels parent => parent.componentLogLevel = [] ∨
      EachOnce ComponentLogLevel.componentName (parent.logLevel.map LogLevel.name)
        parent.componentLogLevel

end Element

end Promise

section Ordering

variable {α β : Type} {id : ContentId} {entries : List ContentOrder}

theorem indicesOf_append (entries' : List ContentOrder) :
    indicesOf id (entries ++ entries') = indicesOf id entries ++ indicesOf id entries' := by
  simp [indicesOf]

theorem indicesOf_clear (old : ContentId) :
    indicesOf id (clear entries old) = if id = old then [] else indicesOf id entries := by
  rw [indicesOf, clear, List.filter_filter]
  split_ifs with hid
  · rw [List.map_eq_nil_iff, List.filter_eq_nil_iff]
    intro entry _
    simp [hid]
  · refine congrArg _ (List.filter_congr fun entry _ => ?_)
    by_cases hentry : entry.id = id
    · simp [hentry, hid]
    · simp [hentry]

theorem indicesOf_numbered (new : ContentId) (indices : List Nat) :
    indicesOf id (indices.map (ContentOrder.mk new)) = if new = id then indices else [] := by
  rw [indicesOf, List.filter_map, List.map_map]
  split_ifs with hid
  · rw [List.filter_eq_self.mpr fun index _ => by simpa using hid]
    exact List.map_id _
  · rw [List.filter_eq_nil_iff.mpr fun index _ => by simpa using hid, List.map_nil]

theorem clear_clear (old : ContentId) : clear (clear entries old) old = clear entries old := by
  simp [clear, List.filter_filter]

/-- New children are numbered from the children there are. -/
theorem foldl_pushBack (f : α → β) (new : ContentId) (l : List α) (children : List β)
    (entries : List ContentOrder) :
    l.foldl (fun parent a => pushBack parent (f a) new) (children, entries) =
      (children ++ l.map f,
        entries ++ (List.range' children.length l.length).map (ContentOrder.mk new)) := by
  induction l generalizing children entries with
  | nil => simp
  | cons a l ih =>
      rw [List.foldl_cons, pushBack, ih, List.map_cons, List.length_cons, List.range'_succ,
        List.map_cons, List.length_append, List.length_singleton, Nat.add_sub_cancel]
      simp only [List.append_assoc, List.singleton_append]

end Ordering

section Migration

/-- The number of `LogLevel` in a `Log` is also its number in `ComponentLogLevels`. -/
theorem logLevel_contentId : contentId ComponentLogLevels.childTypes
    (childTypeId Log.childTypes logLevelChild) = logLevelChild := by
  decide

theorem own_contentId :
    contentId Log.childTypes (childTypeId Log.childTypes logLevelChild) = logLevelChild ∧
    contentId Log.childTypes (childTypeId Log.childTypes generalLogLevelChild) =
      generalLogLevelChild ∧
    contentId ComponentLogLevels.childTypes
      (childTypeId ComponentLogLevels.childTypes componentLogLevelChild) =
      componentLogLevelChild := by
  decide

theorem Log.childCount_levels (log : Log) :
    log.childCount logLevelChild = log.logLevel.length ∧
      log.childCount generalLogLevelChild = log.generalLogLevel.length := by
  have hdistinct : generalLogLevelChild ≠ logLevelChild ∧
      generalLogLevelChild ≠ componentLogLevelsChild := by
    decide
  constructor
  · rw [Log.childCount, if_neg (by simp [logLevelChild]), if_neg (by simp [logLevelChild]),
      if_pos rfl]
  · rw [Log.childCount, if_neg (by simp [generalLogLevelChild]),
      if_neg (by simp [generalLogLevelChild]), if_neg hdistinct.1, if_neg hdistinct.2, if_pos rfl]

theorem ComponentLogLevels.childCount_levels (levels : ComponentLogLevels) :
    levels.childCount logLevelChild = levels.logLevel.length ∧
      levels.childCount componentLogLevelChild = levels.componentLogLevel.length := by
  have hdistinct : componentLogLevelChild ≠ logLevelChild := by decide
  constructor
  · rw [ComponentLogLevels.childCount, if_neg (by simp [logLevelChild]),
      if_neg (by simp [logLevelChild]), if_pos rfl]
  · rw [ComponentLogLevels.childCount, if_neg (by simp [componentLogLevelChild]),
      if_neg (by simp [componentLogLevelChild]), if_neg hdistinct, if_pos rfl]

/-- The checks pass again when the old children are gone and the new ones are numbered on. -/
theorem ordered_converted {before after : Element} (new old : ContentId)
    (h : before.Ordered) (htypes : after.childTypes = before.childTypes)
    (hold : after.childCount old = 0) (hnew : before.childCount new ≤ after.childCount new)
    (hothers : ∀ id, id ≠ old → id ≠ new → after.childCount id = before.childCount id)
    (horder : after.contentOrder = clear (before.contentOrder ++
      (List.range' (before.childCount new) (after.childCount new - before.childCount new)).map
        (ContentOrder.mk new)) old) : after.Ordered := by
  intro id hid
  have hbefore := validateContentOrderArray_eq_ok_iff.1 (h id (htypes ▸ hid))
  rw [validateContentOrderArray_eq_ok_iff, horder]
  change (indicesOf id _).Perm _
  rw [indicesOf_clear]
  split_ifs with heq
  · rw [heq, hold]
    exact .refl _
  · rw [indicesOf_append, indicesOf_numbered]
    by_cases hidnew : id = new
    · subst hidnew
      obtain ⟨k, hk⟩ := Nat.exists_eq_add_of_le hnew
      rw [if_pos rfl, hk, Nat.add_sub_cancel_left, List.range_eq_range',
        ← List.range'_append_1, Nat.zero_add, ← List.range_eq_range']
      exact hbefore.append_right _
    · rw [if_neg (Ne.symm hidnew), List.append_nil, hothers id heq hidnew]
      exact hbefore

theorem filter_map_name {α : Type} (f : α → LogLevel) (names : List Bytes) (l : List α) :
    (l.map f).filter (fun old => old.name ∉ names) =
      (l.filter fun a => (f a).name ∉ names).map f := by
  rw [List.filter_map]
  rfl

/-- What the conversion of a `Log` leaves. -/
theorem convertOldGeneralLogLevel_eq {parent : Log} (h : parent.generalLogLevel ≠ []) :
    let converted := (parent.generalLogLevel.map fun old =>
      (⟨generalLogLevelName, old.logLevel⟩ : LogLevel)).filter fun old =>
        old.name ∉ parent.logLevel.map LogLevel.name
    convertOldGeneralLogLevel parent =
      { parent with
        generalLogLevel := []
        logLevel := parent.logLevel ++ converted
        contentOrder := clear (parent.contentOrder ++
          (List.range' parent.logLevel.length converted.length).map
            (ContentOrder.mk logLevelChild)) generalLogLevelChild } := by
  obtain ⟨hnew, hold, -⟩ := own_contentId
  have hany : parent.logLevel.any (fun logLevel => logLevel.name = generalLogLevelName) = true ↔
      generalLogLevelName ∈ parent.logLevel.map LogLevel.name := by
    simp [List.any_eq_true]
  intro converted
  rw [convertOldGeneralLogLevel, if_neg h, hnew]
  by_cases hmem : generalLogLevelName ∈ parent.logLevel.map LogLevel.name
  · have hconverted : converted = [] := by
      simp only [converted, List.filter_eq_nil_iff, List.forall_mem_map]
      intro old _
      simpa using hmem
    rw [if_pos (hany.mpr hmem), hconverted]
    simp [Log.clearGeneralLogLevel, hold, clear_clear]
  · have hconverted : converted = parent.generalLogLevel.map fun old =>
        (⟨generalLogLevelName, old.logLevel⟩ : LogLevel) := by
      simp only [converted, List.filter_eq_self, List.forall_mem_map]
      intro old _
      simpa using hmem
    rw [if_neg (fun hp => hmem (hany.mp hp)), hconverted, List.length_map]
    simp only [foldl_pushBack, Log.clearGeneralLogLevel, hold]

theorem log_migratesRight {parent : Log} (h : (Element.log parent).Ordered) :
    (Element.log parent).MigratesRight := by
  intro unspecified
  refine ⟨_, rfl, ?_⟩
  by_cases hold : parent.generalLogLevel = []
  · rw [convertOldGeneralLogLevel, if_pos hold]
    exact ⟨by simp [Element.oldLevels, hold], by simp [Element.oldLevels, hold], h⟩
  · rw [convertOldGeneralLogLevel_eq hold]
    refine ⟨rfl, rfl, ordered_converted logLevelChild generalLogLevelChild h rfl
      (Log.childCount_levels _).2 ?_ (fun id hold hnew => ?_) ?_⟩
    · rw [Element.childCount, Element.childCount, (Log.childCount_levels _).1,
        (Log.childCount_levels _).1, List.length_append]
      exact Nat.le_add_right _ _
    · simp only [Element.childCount, Log.childCount, if_neg hnew, if_neg hold]
    · rw [Element.childCount, Element.childCount, (Log.childCount_levels _).1,
        (Log.childCount_levels _).1, List.length_append, Nat.add_sub_cancel_left]
      rfl

/-- What the conversion of component log levels leaves if the old children that stay are
`oldLogLevels`. -/
theorem convertOldComponentLogLevel_eq_some {parent after : ComponentLogLevels}
    {unspecified : List ComponentLogLevel → Nat → ComponentLogLevel}
    (h : parent.componentLogLevel ≠ []) :
    convertOldComponentLogLevel unspecified parent = some after ↔
      ∃ oldLogLevels, eraseKeys unspecified ComponentLogLevel.componentName
        (parent.logLevel.map LogLevel.name) parent.componentLogLevel = some oldLogLevels ∧
      after = { parent with
        componentLogLevel := []
        logLevel := parent.logLevel ++
          oldLogLevels.map fun old => ⟨old.componentName, old.logLevel⟩
        contentOrder := clear (parent.contentOrder ++
          (List.range' parent.logLevel.length oldLogLevels.length).map
            (ContentOrder.mk logLevelChild)) componentLogLevelChild } := by
  obtain ⟨-, -, hold⟩ := own_contentId
  rw [convertOldComponentLogLevel, if_neg h, logLevel_contentId, hold]
  simp only [foldl_pushBack]
  rcases eraseKeys unspecified ComponentLogLevel.componentName
    (parent.logLevel.map LogLevel.name) parent.componentLogLevel with _ | oldLogLevels
  · simp
  · simp [eq_comm]

theorem eraseKeys_names {parent : ComponentLogLevels}
    {unspecified : List ComponentLogLevel → Nat → ComponentLogLevel}
    (h : EachOnce ComponentLogLevel.componentName (parent.logLevel.map LogLevel.name)
      parent.componentLogLevel) :
    eraseKeys unspecified ComponentLogLevel.componentName (parent.logLevel.map LogLevel.name)
      parent.componentLogLevel = some (parent.componentLogLevel.filter fun old =>
        old.componentName ∉ parent.logLevel.map LogLevel.name) := by
  rw [eraseKeys_of_eachOnce h]
  exact congrArg some (List.filter_congr fun old _ => decide_eq_decide.mpr Iff.rfl)

theorem componentLogLevels_migratesRight {parent : ComponentLogLevels}
    (h : (Element.componentLogLevels parent).Ordered)
    (hfavourable : (Element.componentLogLevels parent).Favourable) :
    (Element.componentLogLevels parent).MigratesRight := by
  intro unspecified
  by_cases hold : parent.componentLogLevel = []
  · refine ⟨.componentLogLevels parent, ?_, by simp [Element.oldLevels, hold],
      by simp [Element.oldLevels, hold], h⟩
    simp [Element.convert, convertOldComponentLogLevel, hold]
  · have honce := hfavourable.resolve_left hold
    obtain ⟨after, hafter⟩ : ∃ after, convertOldComponentLogLevel unspecified parent = some after ∧
        (Element.componentLogLevels parent).Migrated (.componentLogLevels after) := by
      refine ⟨_, (convertOldComponentLogLevel_eq_some hold).mpr
        ⟨_, eraseKeys_names honce, rfl⟩, rfl, ?_, ?_⟩
      · exact congrArg (parent.logLevel ++ ·) (filter_map_name _ _ _).symm
      · refine ordered_converted logLevelChild componentLogLevelChild h rfl
          (ComponentLogLevels.childCount_levels _).2 ?_ (fun id hold hnew => ?_) ?_
        · rw [Element.childCount, Element.childCount, (ComponentLogLevels.childCount_levels _).1,
            (ComponentLogLevels.childCount_levels _).1, List.length_append]
          exact Nat.le_add_right _ _
        · simp only [Element.childCount, ComponentLogLevels.childCount, if_neg hnew, if_neg hold]
        · rw [Element.childCount, Element.childCount, (ComponentLogLevels.childCount_levels _).1,
            (ComponentLogLevels.childCount_levels _).1, List.length_append,
            Nat.add_sub_cancel_left, List.length_map]
          rfl
    exact ⟨_, by rw [Element.convert, hafter.1]; rfl, hafter.2⟩

theorem favourable_of_migratesRight {parent : ComponentLogLevels}
    (h : (Element.componentLogLevels parent).MigratesRight) :
    (Element.componentLogLevels parent).Favourable := by
  by_cases hold : parent.componentLogLevel = []
  · exact .inl hold
  right
  obtain ⟨name, hname⟩ :=
    Infinite.exists_notMem_finset (parent.logLevel.map LogLevel.name).toFinset
  rw [List.mem_toFinset] at hname
  obtain ⟨after, hconvert, hmigrated⟩ := h fun _ _ => ⟨name, []⟩
  obtain ⟨after, hafter, rfl⟩ := Option.map_eq_some_iff.mp hconvert
  obtain ⟨oldLogLevels, herase, rfl⟩ := (convertOldComponentLogLevel_eq_some hold).mp hafter
  have hnew := List.append_cancel_left (hmigrated.newLevels.trans
    (congrArg (parent.logLevel ++ ·) (filter_map_name _ _ _)))
  have hlength := congrArg List.length hnew
  rw [List.length_map, List.length_map] at hlength
  refine (length_le_of_eraseKeys ⟨name, []⟩ hname herase).2 (hlength.trans ?_)
  exact congrArg _ (List.filter_congr fun old _ => decide_eq_decide.mpr Iff.rfl)

/-- The conversion of an element is right exactly when it is a `Log`, has nothing to convert,
or has new children with different names that each name one old child. -/
theorem migratesRight_iff {element : Element} (h : element.Ordered) :
    element.MigratesRight ↔ element.Favourable := by
  cases element with
  | log parent => exact iff_of_true (log_migratesRight h) trivial
  | componentLogLevels parent =>
      exact ⟨favourable_of_migratesRight, componentLogLevels_migratesRight h⟩

/-- Two old children and a new one, which has the name of the first. -/
def sharedLevels : ComponentLogLevels where
  componentLogLevel := [⟨text "CalcVars", text "ERR"⟩, ⟨text "AddressSpace", text "TRC"⟩]
  logLevel := [⟨text "CalcVars", text "DBG"⟩]
  calculatedVariables := 0
  freeVariables := 0
  contentOrder := [⟨componentLogLevelChild, 0⟩, ⟨logLevelChild, 0⟩, ⟨componentLogLevelChild, 1⟩]

theorem migratesRight_iff_shared : (Element.componentLogLevels sharedLevels).MigratesRight :=
  (migratesRight_iff (by unfold Element.Ordered; decide)).mpr
    (.inr ⟨by decide, by decide⟩)

/-- One old and one new child, of different names. -/
def mixedLevels : ComponentLogLevels where
  componentLogLevel := [⟨text "AddressSpace", text "TRC"⟩]
  logLevel := [⟨text "CalcVars", text "DBG"⟩]
  calculatedVariables := 0
  freeVariables := 0
  contentOrder := [⟨componentLogLevelChild, 0⟩, ⟨logLevelChild, 0⟩]

theorem mixedLevels_undefined : (Element.componentLogLevels mixedLevels).Ordered ∧
    (∀ unspecified, (Element.componentLogLevels mixedLevels).convert unspecified = none) ∧
    ¬(Element.componentLogLevels mixedLevels).MigratesRight := by
  have hold : mixedLevels.componentLogLevel ≠ [] := List.cons_ne_nil _ _
  have hnone : ∀ unspecified,
      (Element.componentLogLevels mixedLevels).convert unspecified = none := by
    intro unspecified
    rw [Element.convert, convertOldComponentLogLevel, if_neg hold,
      show mixedLevels.logLevel.map LogLevel.name = [text "CalcVars"] from rfl,
      eraseKeys_eq_none (by decide)]
    rfl
  refine ⟨by unfold Element.Ordered; decide, hnone, fun hright => ?_⟩
  obtain ⟨after, hafter, -⟩ := hright fun _ _ => ⟨[], []⟩
  cases (hnone _).symm.trans hafter

end Migration

end BackwardsCompatibilityUtils

end Supernova
