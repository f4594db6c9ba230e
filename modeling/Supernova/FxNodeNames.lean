/-
The node ids in the model of an automation component.  An id is a path of names
joined by dots and the names may have dots themselves, so names that differ in
their lists can still make one id.
-/
import Supernova.FxEngine
import Mathlib.Data.List.Nodup

namespace Supernova

attribute [local semireducible] ByteArray.toList.loop

/-- Lists made from entries with different keys have no duplicates together exactly when
each has none and those of different entries share nothing. -/
theorem nodup_flatMap_iff_of_keys {α β κ : Type*} {key : α → κ} {f : α → List β} {as : List α}
    (hkeys : (as.map key).Nodup) (hself : ∀ a ∈ as, (f a).Nodup) :
    (as.flatMap f).Nodup ↔ ∀ a ∈ as, ∀ a' ∈ as, key a ≠ key a' → List.Disjoint (f a) (f a') := by
  rw [List.nodup_flatMap]
  constructor
  · rintro ⟨-, hpairwise⟩ a ha a' ha' hne
    have hsymm : Std.Symm (Function.onFun List.Disjoint f) := ⟨fun _ _ h => List.Disjoint.symm h⟩
    exact hpairwise.forall ha ha' fun heq => hne (congrArg key heq)
  · intro hdisjoint
    refine ⟨hself, (List.pairwise_map.mp hkeys).imp_of_mem ?_⟩
    intro a a' ha ha' hne
    exact hdisjoint a ha a' ha' hne

namespace Fx

section Dotted

variable {a b c x y : Bytes}

theorem makeChildNodeId_eq (a b : Bytes) : makeChildNodeId a b = a ++ dotByte :: b := by
  have hdot : text "." = [dotByte] := by decide
  rw [makeChildNodeId, hdot, List.append_assoc]
  rfl

theorem makeChildNodeId_injective (a : Bytes) : Function.Injective (makeChildNodeId a) :=
  fun _ _ h => List.append_cancel_left h

theorem makeChildNodeId_assoc (a b c : Bytes) :
    makeChildNodeId (makeChildNodeId a b) c = makeChildNodeId a (makeChildNodeId b c) := by
  simp only [makeChildNodeId, List.append_assoc]

theorem makeChildNodeId_child (a b : Bytes) :
    makeChildNodeId (makeChildNodeId a b) = fun c => makeChildNodeId a (makeChildNodeId b c) :=
  funext (makeChildNodeId_assoc a b)

/-- A child has another id than its parent. -/
theorem makeChildNodeId_ne (a b : Bytes) : makeChildNodeId a b ≠ a := by
  intro heq
  have hlength := congrArg List.length heq
  rw [makeChildNodeId_eq, List.length_append, List.length_cons] at hlength
  omega

/-- Children of different nodes have the same id only when one of the nodes has a name
that continues the other's. -/
theorem makeChildNodeId_eq_iff (hne : a ≠ b) :
    makeChildNodeId a x = makeChildNodeId b y ↔
      (∃ rest, b = makeChildNodeId a rest ∧ x = makeChildNodeId rest y) ∨
        ∃ rest, a = makeChildNodeId b rest ∧ y = makeChildNodeId rest x := by
  simp only [makeChildNodeId_eq]
  constructor
  · intro heq
    rcases List.append_eq_append_iff.mp heq with ⟨between, hb, hx⟩ | ⟨between, ha, hy⟩
    · rcases between with _ | ⟨dot, rest⟩
      · exact absurd (by simpa using hb.symm) hne
      · rw [List.cons_append, List.cons.injEq] at hx
        exact .inl ⟨rest, by rw [hb, hx.1], hx.2⟩
    · rcases between with _ | ⟨dot, rest⟩
      · exact absurd (by simpa using ha) hne
      · rw [List.cons_append, List.cons.injEq] at hy
        exact .inr ⟨rest, by rw [ha, hy.1], hy.2⟩
  · rintro (⟨rest, rfl, rfl⟩ | ⟨rest, rfl, rfl⟩)
    · rw [List.append_assoc, List.cons_append]
    · rw [List.append_assoc, List.cons_append]

end Dotted

section Names

/-- The names that an entity gives to its nodes: its own and, for both directions, those
of the datasets with their fields. -/
structure EntityNames where
  name : Bytes
  outputs : List (Bytes × List Bytes)
  inputs : List (Bytes × List Bytes)
deriving DecidableEq, Repr

def FunctionalEntityConfig.names (entity : FunctionalEntityConfig) : EntityNames :=
  { name := entity.name
    outputs := entity.outputs.map fun dataset => (dataset.name, dataset.fields.map (·.name))
    inputs := entity.inputs.map fun dataset => (dataset.name, dataset.fields.map (·.name)) }

def EntityRuntime.names (entity : EntityRuntime) : EntityNames :=
  { name := entity.name
    outputs := entity.outputs.map fun dataset => (dataset.name, dataset.fields.map (·.name))
    inputs := entity.inputs.map fun dataset => (dataset.name, dataset.fields.map (·.name)) }

/-- The ids of a dataset and its fields below the folder of the datasets. -/
def datasetNames (dataset : Bytes × List Bytes) : List Bytes :=
  dataset.1 :: dataset.2.map (makeChildNodeId dataset.1)

/-- The ids of what an entity contains, below the entity. -/
def EntityNames.below (entity : EntityNames) : List Bytes :=
  [text "OutputData", text "InputData", text "ConnectionEndpoints"] ++
    ((entity.outputs.flatMap datasetNames).map (makeChildNodeId (text "OutputData")) ++
      (entity.inputs.flatMap datasetNames).map (makeChildNodeId (text "InputData")))

def EntityNames.ids (entity : EntityNames) : List Bytes :=
  entity.name :: entity.below.map (makeChildNodeId entity.name)

/-- The ids of a method and its argument properties, below the component. -/
def methodNames (name : Bytes) : List Bytes :=
  [makeChildNodeId name (text "args"), makeChildNodeId name (text "return_values"), name]

/-- The ids of what the component contains, below the component. -/
def modelNames (entities : List EntityNames) : List Bytes :=
  methodNames (text "EstablishConnections") ++ (methodNames (text "CloseConnections") ++
    text "FunctionalEntities" ::
      (entities.flatMap EntityNames.ids).map (makeChildNodeId (text "FunctionalEntities")))

/-- The ids of the model in the order in which the nodes are added. -/
def modelIds (component : Bytes) (entities : List EntityNames) : List Bytes :=
  component :: (modelNames entities).map (makeChildNodeId component)

/-- A dataset is named like a field of another one, or two datasets have fields with the
same dotted name. -/
def DatasetsClash (datasets : List (Bytes × List Bytes)) : Prop :=
  ∃ dataset ∈ datasets, ∃ dataset' ∈ datasets, dataset.1 ≠ dataset'.1 ∧
    ∃ field ∈ dataset.2, dataset'.1 = makeChildNodeId dataset.1 field ∨
      ∃ field' ∈ dataset'.2, makeChildNodeId dataset.1 field = makeChildNodeId dataset'.1 field'

/-- An entity is named like something that another one contains, or contains something that
is named so. -/
def EntitiesClash (entity entity' : EntityNames) : Prop :=
  ∃ rest, entity'.name = makeChildNodeId entity.name rest ∧
    (rest ∈ entity.below ∨ ∃ x ∈ entity'.below, makeChildNodeId rest x ∈ entity.below)

def NamesClash (entities : List EntityNames) : Prop :=
  (∃ entity ∈ entities, DatasetsClash entity.outputs ∨ DatasetsClash entity.inputs) ∨
    ∃ entity ∈ entities, ∃ entity' ∈ entities, EntitiesClash entity entity'

/-- What is checked: names differ within each list. -/
structure UniqueNames (entities : List EntityNames) : Prop where
  names : (entities.map EntityNames.name).Nodup
  outputs : ∀ entity ∈ entities, (entity.outputs.map Prod.fst).Nodup
  inputs : ∀ entity ∈ entities, (entity.inputs.map Prod.fst).Nodup
  outputFields : ∀ entity ∈ entities, ∀ dataset ∈ entity.outputs, dataset.2.Nodup
  inputFields : ∀ entity ∈ entities, ∀ dataset ∈ entity.inputs, dataset.2.Nodup

end Names

section Distinct

theorem datasetNames_nodup {dataset : Bytes × List Bytes} (h : dataset.2.Nodup) :
    (datasetNames dataset).Nodup := by
  rw [datasetNames, List.nodup_cons]
  refine ⟨fun hmem => ?_, h.map (makeChildNodeId_injective _)⟩
  obtain ⟨field, -, heq⟩ := List.mem_map.mp hmem
  exact makeChildNodeId_ne _ _ heq

/-- The ids of the datasets of one direction differ unless two of them clash. -/
theorem nodup_datasets_iff {datasets : List (Bytes × List Bytes)}
    (hnames : (datasets.map Prod.fst).Nodup) (hfields : ∀ dataset ∈ datasets, dataset.2.Nodup) :
    (datasets.flatMap datasetNames).Nodup ↔ ¬ DatasetsClash datasets := by
  rw [nodup_flatMap_iff_of_keys hnames fun dataset h => datasetNames_nodup (hfields dataset h)]
  constructor
  · rintro hdisjoint ⟨dataset, hdataset, dataset', hdataset', hne, field, hfield, hclash⟩
    have hleft : makeChildNodeId dataset.1 field ∈ datasetNames dataset :=
      List.mem_cons_of_mem _ (List.mem_map_of_mem hfield)
    refine hdisjoint dataset hdataset dataset' hdataset' hne hleft ?_
    rcases hclash with heq | ⟨field', hfield', heq⟩
    · exact heq ▸ List.mem_cons_self
    · exact heq ▸ List.mem_cons_of_mem _ (List.mem_map_of_mem hfield')
  · intro hclash dataset hdataset dataset' hdataset' hne x hx hx'
    rcases List.mem_cons.mp hx with rfl | hx
    · rcases List.mem_cons.mp hx' with heq | hx'
      · exact hne heq
      · obtain ⟨field', hfield', heq⟩ := List.mem_map.mp hx'
        exact hclash ⟨dataset', hdataset', dataset, hdataset, hne.symm, field', hfield',
          .inl heq.symm⟩
    · obtain ⟨field, hfield, rfl⟩ := List.mem_map.mp hx
      rcases List.mem_cons.mp hx' with heq | hx'
      · exact hclash ⟨dataset, hdataset, dataset', hdataset', hne, field, hfield, .inl heq.symm⟩
      · obtain ⟨field', hfield', heq⟩ := List.mem_map.mp hx'
        exact hclash ⟨dataset, hdataset, dataset', hdataset', hne, field, hfield,
          .inr ⟨field', hfield', heq.symm⟩⟩

/-- Names that start with different words without a dot make different ids. -/
theorem folders_disjoint (x y : Bytes) :
    makeChildNodeId (text "OutputData") x ≠ makeChildNodeId (text "InputData") y ∧
      makeChildNodeId (text "OutputData") x ∉
        [text "OutputData", text "InputData", text "ConnectionEndpoints"] ∧
      makeChildNodeId (text "InputData") y ∉
        [text "OutputData", text "InputData", text "ConnectionEndpoints"] := by
  have houtput : text "OutputData" = 79 :: text "utputData" := by decide
  have hinput : text "InputData" = 73 :: text "nputData" := by decide
  have hendpoints : text "ConnectionEndpoints" = 67 :: text "onnectionEndpoints" := by
    decide
  refine ⟨?_, ?_, ?_⟩
  · rw [makeChildNodeId_eq, makeChildNodeId_eq, houtput, hinput]
    simp
  · simp only [List.mem_cons, List.not_mem_nil, or_false, not_or]
    refine ⟨makeChildNodeId_ne _ _, ?_, ?_⟩
    · rw [makeChildNodeId_eq, houtput, hinput]
      simp
    · rw [makeChildNodeId_eq, houtput, hendpoints]
      simp
  · simp only [List.mem_cons, List.not_mem_nil, or_false, not_or]
    refine ⟨?_, makeChildNodeId_ne _ _, ?_⟩
    · rw [makeChildNodeId_eq, houtput, hinput]
      simp
    · rw [makeChildNodeId_eq, hinput, hendpoints]
      simp

theorem nodup_below_iff (entity : EntityNames) :
    entity.below.Nodup ↔ (entity.outputs.flatMap datasetNames).Nodup ∧
      (entity.inputs.flatMap datasetNames).Nodup := by
  have hfolders : [text "OutputData", text "InputData", text "ConnectionEndpoints"].Nodup := by
    decide
  rw [EntityNames.below, List.nodup_append', List.nodup_append',
    List.nodup_map_iff (makeChildNodeId_injective _),
    List.nodup_map_iff (makeChildNodeId_injective _)]
  constructor
  · rintro ⟨-, ⟨houtputs, hinputs, -⟩, -⟩
    exact ⟨houtputs, hinputs⟩
  · rintro ⟨houtputs, hinputs⟩
    refine ⟨hfolders, ⟨houtputs, hinputs, ?_⟩, ?_⟩
    · intro id hid hid'
      obtain ⟨x, -, rfl⟩ := List.mem_map.mp hid
      obtain ⟨y, -, heq⟩ := List.mem_map.mp hid'
      exact (folders_disjoint x y).1 heq.symm
    · intro id hid hid'
      rcases List.mem_append.mp hid' with hid' | hid'
      · obtain ⟨x, -, rfl⟩ := List.mem_map.mp hid'
        exact (folders_disjoint x []).2.1 hid
      · obtain ⟨y, -, rfl⟩ := List.mem_map.mp hid'
        exact (folders_disjoint [] y).2.2 hid

theorem nodup_ids_iff (entity : EntityNames) : entity.ids.Nodup ↔ entity.below.Nodup := by
  rw [EntityNames.ids, List.nodup_cons, List.nodup_map_iff (makeChildNodeId_injective _)]
  refine and_iff_right fun hmem => ?_
  obtain ⟨x, -, heq⟩ := List.mem_map.mp hmem
  exact makeChildNodeId_ne _ _ heq

/-- Entities with different names share an id exactly when they clash one way or the other. -/
theorem disjoint_ids_iff {entity entity' : EntityNames} (hne : entity.name ≠ entity'.name) :
    List.Disjoint entity.ids entity'.ids ↔
      ¬ EntitiesClash entity entity' ∧ ¬ EntitiesClash entity' entity := by
  have hshare : ∀ e e' : EntityNames, EntitiesClash e e' → ∃ id, id ∈ e.ids ∧ id ∈ e'.ids := by
    rintro e e' ⟨rest, hname, hrest | ⟨x, hx, hboth⟩⟩
    · exact ⟨e'.name, hname ▸ List.mem_cons_of_mem _ (List.mem_map_of_mem hrest),
        List.mem_cons_self⟩
    · refine ⟨makeChildNodeId e'.name x, ?_, List.mem_cons_of_mem _ (List.mem_map_of_mem hx)⟩
      rw [hname, makeChildNodeId_assoc]
      exact List.mem_cons_of_mem _ (List.mem_map_of_mem hboth)
  constructor
  · intro hdisjoint
    refine ⟨fun hclash => ?_, fun hclash => ?_⟩
    · obtain ⟨id, hid, hid'⟩ := hshare _ _ hclash
      exact hdisjoint hid hid'
    · obtain ⟨id, hid, hid'⟩ := hshare _ _ hclash
      exact hdisjoint hid' hid
  · rintro ⟨hforward, hbackward⟩ id hid hid'
    rcases List.mem_cons.mp hid with rfl | hid
    · rcases List.mem_cons.mp hid' with heq | hid'
      · exact hne heq
      · obtain ⟨x, hx, heq⟩ := List.mem_map.mp hid'
        exact hbackward ⟨x, heq.symm, .inl hx⟩
    · obtain ⟨x, hx, rfl⟩ := List.mem_map.mp hid
      rcases List.mem_cons.mp hid' with heq | hid'
      · exact hforward ⟨x, heq.symm, .inl hx⟩
      · obtain ⟨y, hy, heq⟩ := List.mem_map.mp hid'
        rcases (makeChildNodeId_eq_iff hne).mp heq.symm with
          ⟨rest, hname, rfl⟩ | ⟨rest, hname, rfl⟩
        · exact hforward ⟨rest, hname, .inr ⟨y, hy, hx⟩⟩
        · exact hbackward ⟨rest, hname, .inr ⟨x, hx, hy⟩⟩

/-- The ids of the entities differ unless names clash. -/
theorem nodup_entities_iff {entities : List EntityNames} (h : UniqueNames entities) :
    (entities.flatMap EntityNames.ids).Nodup ↔ ¬ NamesClash entities := by
  have hids : ∀ entity ∈ entities, entity.ids.Nodup ↔
      ¬ (DatasetsClash entity.outputs ∨ DatasetsClash entity.inputs) := by
    intro entity hentity
    rw [nodup_ids_iff, nodup_below_iff, not_or,
      nodup_datasets_iff (h.outputs entity hentity) (h.outputFields entity hentity),
      nodup_datasets_iff (h.inputs entity hentity) (h.inputFields entity hentity)]
  constructor
  · intro hnodup hclash
    have hself := (List.nodup_flatMap.mp hnodup).1
    rcases hclash with ⟨entity, hentity, hdatasets⟩ | ⟨entity, hentity, entity', hentity', hboth⟩
    · exact (hids entity hentity).mp (hself entity hentity) hdatasets
    · have hne : entity.name ≠ entity'.name := by
        obtain ⟨rest, hname, -⟩ := hboth
        rw [hname]
        exact (makeChildNodeId_ne _ _).symm
      have hdisjoint := (nodup_flatMap_iff_of_keys h.names hself).mp hnodup entity hentity entity'
        hentity' hne
      exact ((disjoint_ids_iff hne).mp hdisjoint).1 hboth
  · intro hclash
    have hself : ∀ entity ∈ entities, entity.ids.Nodup := fun entity hentity =>
      (hids entity hentity).mpr fun hdatasets => hclash (.inl ⟨entity, hentity, hdatasets⟩)
    refine (nodup_flatMap_iff_of_keys h.names hself).mpr ?_
    intro entity hentity entity' hentity' hne
    refine (disjoint_ids_iff hne).mpr ⟨fun hboth => ?_, fun hboth => ?_⟩
    · exact hclash (.inr ⟨entity, hentity, entity', hentity', hboth⟩)
    · exact hclash (.inr ⟨entity', hentity', entity, hentity, hboth⟩)

/-- The ids of the model differ unless names clash. -/
theorem nodup_modelIds_iff {component : Bytes} {entities : List EntityNames}
    (h : UniqueNames entities) :
    (modelIds component entities).Nodup ↔ ¬ NamesClash entities := by
  have hmethods : (methodNames (text "EstablishConnections") ++
      methodNames (text "CloseConnections")).Nodup := by
    decide
  have hfolder : text "FunctionalEntities" = 70 :: text "unctionalEntities" := by decide
  have hfirst : ∀ id ∈ methodNames (text "EstablishConnections") ++
      methodNames (text "CloseConnections"), id.head? ≠ some 70 := by
    decide
  have hcomponent : component ∉ (modelNames entities).map (makeChildNodeId component) := by
    intro hmem
    obtain ⟨x, -, heq⟩ := List.mem_map.mp hmem
    exact makeChildNodeId_ne _ _ heq
  have hentities : (text "FunctionalEntities" :: (entities.flatMap EntityNames.ids).map
      (makeChildNodeId (text "FunctionalEntities"))).Nodup ↔
        (entities.flatMap EntityNames.ids).Nodup := by
    rw [List.nodup_cons, List.nodup_map_iff (makeChildNodeId_injective _)]
    refine and_iff_right fun hmem => ?_
    obtain ⟨x, -, heq⟩ := List.mem_map.mp hmem
    exact makeChildNodeId_ne _ _ heq
  rw [modelIds, List.nodup_cons, List.nodup_map_iff (makeChildNodeId_injective _), modelNames,
    ← List.append_assoc, List.nodup_append', hentities, nodup_entities_iff h]
  constructor
  · rintro ⟨-, -, hclash, -⟩
    exact hclash
  · intro hclash
    refine ⟨hcomponent, hmethods, hclash, ?_⟩
    intro id hid hid'
    refine hfirst id hid ?_
    rcases List.mem_cons.mp hid' with rfl | hid'
    · rw [hfolder, List.head?_cons]
    · obtain ⟨x, -, rfl⟩ := List.mem_map.mp hid'
      rw [makeChildNodeId_eq, hfolder, List.cons_append, List.head?_cons]

end Distinct

end Fx

end Supernova
