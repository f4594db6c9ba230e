/-
What an accepted configuration leads to: it is accepted again as it is, its output
datasets have writer groups of their own, and its model can be built unless dotted
names make two node ids one.
-/
import Supernova.FxNodeNames
import Supernova.FxGrowth

namespace Supernova

attribute [local semireducible] ByteArray.toList.loop

namespace Fx

section Accepted

/-- Accepted fields have different names and are accepted again. -/
theorem finalizeFieldsFrom_accepted {datasetName direction : Bytes} {names : List Bytes}
    {fields fields' : List DatasetField}
    (h : finalizeFieldsFrom datasetName direction names fields = .ok fields') :
    finalizeFieldsFrom datasetName direction names fields' = .ok fields' ∧
      (fields'.map (·.name)).Nodup ∧ (∀ field ∈ fields', field.name ∉ names) ∧
      (fields'.isEmpty = fields.isEmpty) := by
  induction fields generalizing names fields' with
  | nil =>
      rw [finalizeFieldsFrom, except_pure_eq_ok] at h
      subst h
      exact ⟨rfl, List.nodup_nil, by simp, rfl⟩
  | cons field fields ih =>
      rw [finalizeFieldsFrom] at h
      generalize hname : (if field.name.isEmpty then leafOf field.address else field.name) = name
        at h
      split at h
      · exact (refuse_eq_ok.1 h).elim
      rename_i haddress
      split at h
      · exact (refuse_eq_ok.1 h).elim
      rename_i hempty
      split at h
      · exact (refuse_eq_ok.1 h).elim
      rename_i hnew
      obtain ⟨finalized, hrest, h⟩ := except_bind_eq_ok.1 h
      rw [except_pure_eq_ok] at h
      subst h
      obtain ⟨hagain, hnodup, hfresh, -⟩ := ih hrest
      refine ⟨?_, ?_, ?_, rfl⟩
      · rw [finalizeFieldsFrom]
        simp only [if_neg hempty, if_neg haddress, if_neg hnew]
        rw [hagain]
        rfl
      · exact nodup_map_cons_of_fresh hnodup hfresh
      · exact fresh_cons hnew hfresh

theorem finalizeFields_accepted {fields fields' : List DatasetField} {datasetName direction : Bytes}
    (h : finalizeFields fields datasetName direction = .ok fields') :
    finalizeFields fields' datasetName direction = .ok fields' ∧
      (fields'.map (·.name)).Nodup := by
  unfold finalizeFields at h
  split at h
  · exact (refuse_eq_ok.1 h).elim
  rename_i hne
  obtain ⟨hagain, hnodup, -, hempty⟩ := finalizeFieldsFrom_accepted h
  refine ⟨?_, hnodup⟩
  rw [finalizeFields, hempty, if_neg hne]
  exact hagain

/-- Accepted output datasets are accepted again; each has a writer group of its own. -/
theorem finalizeOutputs_accepted {outputNames : List Bytes} {writerGroupIds writerGroupIds' :
    List UInt16} {outputs outputs' : List OutputDatasetConfig}
    (h : finalizeOutputs outputNames writerGroupIds outputs = .ok (writerGroupIds', outputs')) :
    finalizeOutputs outputNames writerGroupIds outputs' = .ok (writerGroupIds', outputs') ∧
      (∀ dataset ∈ outputs', (dataset.fields.map (·.name)).Nodup) ∧
      (outputs'.map (·.writerGroupId)).Nodup ∧
      (∀ dataset ∈ outputs', dataset.writerGroupId ∉ writerGroupIds) ∧
      (∀ id, id ∈ writerGroupIds' ↔ id ∈ outputs'.map (·.writerGroupId) ∨ id ∈ writerGroupIds) ∧
      outputs'.isEmpty = outputs.isEmpty := by
  induction outputs generalizing outputNames writerGroupIds writerGroupIds' outputs' with
  | nil =>
      rw [finalizeOutputs, except_pure_eq_ok, Prod.mk.injEq] at h
      obtain ⟨rfl, rfl⟩ := h
      exact ⟨rfl, by simp, List.nodup_nil, by simp, by simp, rfl⟩
  | cons dataset outputs ih =>
      rw [finalizeOutputs] at h
      obtain ⟨names, hunique, h⟩ := except_bind_eq_ok.1 h
      split at h
      · exact (refuse_eq_ok.1 h).elim
      rename_i hgroup
      split at h
      · exact (refuse_eq_ok.1 h).elim
      rename_i hinterval
      obtain ⟨fields, hfields, h⟩ := except_bind_eq_ok.1 h
      obtain ⟨⟨ids, finalized⟩, hrest, h⟩ := except_bind_eq_ok.1 h
      rw [except_pure_eq_ok, Prod.mk.injEq] at h
      obtain ⟨rfl, rfl⟩ := h
      obtain ⟨hfieldsAgain, hfieldNames⟩ := finalizeFields_accepted hfields
      obtain ⟨hagain, hall, hnodup, hfresh, hids, -⟩ := ih hrest
      refine ⟨?_, ?_, ?_, ?_, ?_, rfl⟩
      · rw [finalizeOutputs, hunique]
        simp only [except_bind_eq_ok]
        refine ⟨names, rfl, ?_⟩
        rw [if_neg hgroup, if_neg hinterval, hfieldsAgain]
        simp only [except_bind_eq_ok]
        exact ⟨fields, rfl, _, hagain, rfl⟩
      · rw [List.forall_mem_cons]
        exact ⟨hfieldNames, hall⟩
      · exact nodup_map_cons_of_fresh hnodup hfresh
      · exact fresh_cons hgroup hfresh
      · intro id
        rw [hids, List.map_cons, List.mem_cons, List.mem_cons]
        tauto

theorem finalizeInputs_accepted {inputNames : List Bytes} {inputs inputs' : List InputDatasetConfig}
    (h : finalizeInputs inputNames inputs = .ok inputs') :
    finalizeInputs inputNames inputs' = .ok inputs' ∧ (inputs'.map (·.name)).Nodup ∧
      (∀ dataset ∈ inputs', dataset.name ∉ inputNames) ∧
      (∀ dataset ∈ inputs', (dataset.fields.map (·.name)).Nodup) ∧
      inputs'.isEmpty = inputs.isEmpty := by
  induction inputs generalizing inputNames inputs' with
  | nil =>
      rw [finalizeInputs, except_pure_eq_ok] at h
      subst h
      exact ⟨rfl, List.nodup_nil, by simp, by simp, rfl⟩
  | cons dataset inputs ih =>
      rw [finalizeInputs] at h
      obtain ⟨names, hunique, h⟩ := except_bind_eq_ok.1 h
      obtain ⟨-, hnew, rfl⟩ := requireUnique_eq_ok.1 hunique
      obtain ⟨fields, hfields, h⟩ := except_bind_eq_ok.1 h
      obtain ⟨finalized, hrest, h⟩ := except_bind_eq_ok.1 h
      rw [except_pure_eq_ok] at h
      subst h
      obtain ⟨hfieldsAgain, hfieldNames⟩ := finalizeFields_accepted hfields
      obtain ⟨hagain, hnodup, hfresh, hall, -⟩ := ih hrest
      refine ⟨?_, ?_, ?_, ?_, rfl⟩
      · rw [finalizeInputs]
        simp only [except_bind_eq_ok]
        exact ⟨_, hunique, fields, hfieldsAgain, _, hagain, rfl⟩
      · exact nodup_map_cons_of_fresh hnodup hfresh
      · exact fresh_cons hnew hfresh
      · rw [List.forall_mem_cons]
        exact ⟨hfieldNames, hall⟩

/-- Accepted entities are accepted again; their datasets have different names, and so do
the fields of each, and no two output datasets have one writer group. -/
theorem finalizeEntities_accepted {entityNames : List Bytes} {writerGroupIds : List UInt16}
    {entities entities' : List FunctionalEntityConfig}
    (h : finalizeEntities entityNames writerGroupIds entities = .ok entities') :
    finalizeEntities entityNames writerGroupIds entities' = .ok entities' ∧
      (∀ entity ∈ entities', (entity.inputs.map (·.name)).Nodup ∧
        (∀ dataset ∈ entity.outputs, (dataset.fields.map (·.name)).Nodup) ∧
        ∀ dataset ∈ entity.inputs, (dataset.fields.map (·.name)).Nodup) ∧
      ((entities'.flatMap (·.outputs)).map (·.writerGroupId)).Nodup ∧
      (∀ dataset ∈ entities'.flatMap (·.outputs), dataset.writerGroupId ∉ writerGroupIds) ∧
      entities'.isEmpty = entities.isEmpty := by
  induction entities generalizing entityNames writerGroupIds entities' with
  | nil =>
      rw [finalizeEntities, except_pure_eq_ok] at h
      subst h
      exact ⟨rfl, by simp, List.nodup_nil, by simp, rfl⟩
  | cons entity entities ih =>
      rw [finalizeEntities] at h
      obtain ⟨names, hunique, h⟩ := except_bind_eq_ok.1 h
      obtain ⟨⟨ids, outputs⟩, houtputs, h⟩ := except_bind_eq_ok.1 h
      obtain ⟨inputs, hinputs, h⟩ := except_bind_eq_ok.1 h
      split at h
      · exact (refuse_eq_ok.1 h).elim
      rename_i hdatasets
      obtain ⟨finalized, hrest, h⟩ := except_bind_eq_ok.1 h
      rw [except_pure_eq_ok] at h
      subst h
      obtain ⟨houtputsAgain, houtputFields, hgroups, hfreshGroups, hids, -⟩ :=
        finalizeOutputs_accepted houtputs
      obtain ⟨hinputsAgain, hinputNames, -, hinputFields, -⟩ := finalizeInputs_accepted hinputs
      obtain ⟨hagain, hall, hnodup, hfresh, -⟩ := ih hrest
      refine ⟨?_, ?_, ?_, ?_, rfl⟩
      · rw [finalizeEntities]
        simp only [except_bind_eq_ok]
        refine ⟨names, hunique, (ids, outputs), houtputsAgain, inputs, hinputsAgain, ?_⟩
        rw [if_neg hdatasets]
        simp only [except_bind_eq_ok]
        exact ⟨finalized, hagain, rfl⟩
      · rw [List.forall_mem_cons]
        exact ⟨⟨hinputNames, houtputFields, hinputFields⟩, hall⟩
      · rw [List.flatMap_cons, List.map_append, List.nodup_append']
        refine ⟨hgroups, hnodup, ?_⟩
        intro id hid hid'
        obtain ⟨dataset, hdataset, rfl⟩ := List.mem_map.mp hid'
        exact hfresh dataset hdataset ((hids _).mpr (.inl hid))
      · intro dataset hdataset
        rw [List.flatMap_cons, List.mem_append] at hdataset
        rcases hdataset with hdataset | hdataset
        · exact hfreshGroups dataset hdataset
        · exact fun hmem => hfresh dataset hdataset ((hids _).mpr (.inr hmem))

/-- What is checked beyond single values: names differ within each list, writer groups within
the whole component; what is accepted is accepted again. -/
theorem finalizeAndValidate_accepted {written configuration : Configuration}
    (h : finalizeAndValidate written = .ok configuration) :
    finalizeAndValidate configuration = .ok configuration ∧
      UniqueNames (configuration.entities.map FunctionalEntityConfig.names) ∧
      ((configuration.entities.flatMap (·.outputs)).map (·.writerGroupId)).Nodup := by
  obtain ⟨hentityNames, houtputNames⟩ := finalizeAndValidate_names h
  unfold finalizeAndValidate at h
  split at h
  · exact (refuse_eq_ok.1 h).elim
  rename_i hcomponent
  split at h
  · exact (refuse_eq_ok.1 h).elim
  rename_i hmaximum
  split at h
  · exact (refuse_eq_ok.1 h).elim
  rename_i hlimit
  split at h
  · exact (refuse_eq_ok.1 h).elim
  rename_i hentities
  obtain ⟨entities, hfinalized, h⟩ := except_bind_eq_ok.1 h
  rw [except_pure_eq_ok] at h
  subst h
  obtain ⟨hagain, hall, hgroups, -, hempty⟩ := finalizeEntities_accepted hfinalized
  refine ⟨?_, ?_, hgroups⟩
  · rw [finalizeAndValidate]
    simp only [if_neg hcomponent, if_neg hmaximum, if_neg hlimit, hempty, if_neg hentities]
    rw [hagain]
    rfl
  · have hdatasets : ∀ {α : Type} (name : α → Bytes) (fields : α → List Bytes) (datasets : List α),
        (datasets.map fun dataset => (name dataset, fields dataset)).map Prod.fst =
          datasets.map name := by
      intro α name fields datasets
      rw [List.map_map]
      rfl
    constructor
    · rw [List.map_map]
      exact hentityNames
    all_goals
      intro names hnames
      obtain ⟨entity, hentity, rfl⟩ := List.mem_map.mp hnames
    · rw [FunctionalEntityConfig.names, hdatasets]
      exact houtputNames entity hentity
    · rw [FunctionalEntityConfig.names, hdatasets]
      exact (hall entity hentity).1
    · intro dataset hdataset
      obtain ⟨output, houtput, rfl⟩ := List.mem_map.mp hdataset
      exact (hall entity hentity).2.1 output houtput
    · intro dataset hdataset
      obtain ⟨input, hinput, rfl⟩ := List.mem_map.mp hdataset
      exact (hall entity hentity).2.2 input hinput

end Accepted

section Building

variable (refusals : Refusals)

/-- Add nodes one after the other. -/
def addNodes : List Bytes → Build PUnit
  | [] => pure ⟨⟩
  | nodeId :: nodeIds => do
      addNode refusals nodeId
      addNodes nodeIds

theorem addNodes_append (nodeIds nodeIds' : List Bytes) :
    addNodes refusals (nodeIds ++ nodeIds') =
      (addNodes refusals nodeIds >>= fun _ => addNodes refusals nodeIds') := by
  induction nodeIds with
  | nil => simp only [List.nil_append, addNodes, pure_bind]
  | cons nodeId nodeIds ih => simp only [List.cons_append, addNodes, ih, bind_assoc]

theorem addNodes_singleton (nodeId : Bytes) :
    addNodes refusals [nodeId] = addNode refusals nodeId := by
  simp only [addNodes, bind_pure_unit]

/-- A loop whose turns each add nodes adds all of them. -/
theorem forM_addNodes {α : Type} {step : α → Build PUnit} {added : α → List Bytes}
    (h : ∀ a, step a = addNodes refusals (added a)) (as : List α) :
    as.forM step = addNodes refusals (as.flatMap added) := by
  induction as with
  | nil => rfl
  | cons a as ih =>
      change (step a >>= fun _ => as.forM step) = _
      rw [ih, h, List.flatMap_cons, addNodes_append]

/-- A loop whose turns also return a value returns all values. -/
theorem mapM_addNodes {α β : Type} {step : α → Build β} {added : α → List Bytes} {value : α → β}
    (h : ∀ a, step a = (addNodes refusals (added a) >>= fun _ => pure (value a))) (as : List α) :
    as.mapM step = (addNodes refusals (as.flatMap added) >>= fun _ => pure (as.map value)) := by
  induction as with
  | nil => rfl
  | cons a as ih =>
      rw [List.mapM_cons, ih, h, List.flatMap_cons, addNodes_append, List.map_cons]
      simp only [bind_assoc, pure_bind]

theorem addMethod_eq (parent name : Bytes) :
    addMethod refusals parent name =
      addNodes refusals ((methodNames name).map (makeChildNodeId parent)) := by
  simp only [addMethod, methodNames, List.map_cons, List.map_nil, addNodes, bind_pure_unit,
    makeChildNodeId_assoc]

theorem buildDataset_eq (folder : Bytes) (dataset : DatasetRuntime) :
    buildDataset refusals folder dataset =
      addNodes refusals ((datasetNames (dataset.name, dataset.fields.map (·.name))).map
        (makeChildNodeId folder)) := by
  have hfields := forM_addNodes refusals (fun field : DatasetField =>
    (addNodes_singleton refusals
      (makeChildNodeId (makeChildNodeId folder dataset.name) field.name)).symm) dataset.fields
  simp only [buildDataset, addObject, addVariable, bind_assoc, pure_bind]
  rw [hfields, ← List.map_eq_flatMap]
  simp only [datasetNames, List.map_cons, addNodes, List.map_map, Function.comp_def,
    makeChildNodeId_assoc]

theorem buildDatasets_eq (entityNode folder : Bytes) (datasets : List DatasetRuntime) :
    datasets.forM (buildDataset refusals (makeChildNodeId entityNode folder)) =
      addNodes refusals ((((datasets.map fun dataset =>
        (dataset.name, dataset.fields.map (·.name))).flatMap datasetNames).map
          (makeChildNodeId folder)).map (makeChildNodeId entityNode)) := by
  rw [forM_addNodes refusals (buildDataset_eq refusals _) datasets]
  simp only [List.flatMap_map, List.map_flatMap, List.map_map, Function.comp_def,
    makeChildNodeId_child]

/-- The same entity with the folder of its endpoints. -/
def EntityRuntime.withFolder (folder : Bytes) (entity : EntityRuntime) : EntityRuntime :=
  { entity with
    endpointsFolder :=
      makeChildNodeId (makeChildNodeId folder entity.name) (text "ConnectionEndpoints") }

theorem buildEntity_eq (folder : Bytes) (entity : EntityRuntime) :
    buildEntity refusals folder entity =
      (addNodes refusals (entity.names.ids.map (makeChildNodeId folder)) >>= fun _ =>
        pure (entity.withFolder folder)) := by
  simp only [buildEntity, addObject, buildDatasets_eq, EntityNames.ids, EntityNames.below,
    EntityRuntime.names, EntityRuntime.withFolder, List.map_cons, List.map_append, addNodes,
    addNodes_append, List.map_map, Function.comp_def, List.cons_append, List.nil_append,
    bind_assoc, pure_bind, makeChildNodeId_assoc]

/-- Building the model is adding its nodes one after the other. -/
theorem buildModel_eq (configuration : Configuration) (entities : List EntityRuntime) :
    buildModel refusals configuration entities =
      (addNodes refusals (modelIds configuration.automationComponent
        (entities.map EntityRuntime.names)) >>= fun _ =>
          pure (entities.map (EntityRuntime.withFolder (makeChildNodeId
            configuration.automationComponent (text "FunctionalEntities"))))) := by
  simp only [buildModel, addMethods, addMethod_eq, addObject, modelIds, modelNames, List.map_cons,
    List.map_append, addNodes, addNodes_append, bind_assoc, pure_bind,
    mapM_addNodes refusals (buildEntity_eq refusals _), List.flatMap_map, List.map_flatMap,
    List.map_map, Function.comp_def, makeChildNodeId_child]

end Building

section Acceptance

variable {duplicate : Bytes → Bytes}

/-- When nothing but an existing id is refused, the nodes can be added exactly when their
ids are new and differ. -/
theorem addNodes_eq_ok {nodeIds nodes nodes' : List Bytes} {u : PUnit} :
    addNodes ⟨duplicate, fun _ => none⟩ nodeIds nodes = .ok u nodes' ↔
      nodes' = nodes ++ nodeIds ∧ nodeIds.Nodup ∧ List.Disjoint nodeIds nodes := by
  induction nodeIds generalizing nodes with
  | nil =>
      rw [addNodes, estate_pure_eq_ok, List.append_nil]
      simp [eq_comm]
  | cons nodeId nodeIds ih =>
      rw [addNodes, estate_bind_eq_ok]
      rw [List.nodup_cons, List.disjoint_cons_left]
      constructor
      · rintro ⟨u', nodes₁, hadd, hrest⟩
        obtain ⟨⟨hnew, -⟩, rfl⟩ := addNode_eq_ok hadd
        obtain ⟨rfl, hnodup, hdisjoint⟩ := ih.mp hrest
        rw [List.disjoint_append_right, List.disjoint_singleton] at hdisjoint
        refine ⟨?_, ⟨hdisjoint.2, hnodup⟩, hnew, hdisjoint.1⟩
        rw [List.append_assoc]
        rfl
      · rintro ⟨rfl, ⟨hother, hnodup⟩, hnew, hdisjoint⟩
        refine ⟨⟨⟩, nodes ++ [nodeId], addNode_of_addable ⟨hnew, rfl⟩, ih.mpr ⟨?_, hnodup, ?_⟩⟩
        · rw [List.append_assoc]
          rfl
        · rw [List.disjoint_append_right, List.disjoint_singleton]
          exact ⟨hdisjoint, hother⟩

theorem entityRuntime_names {node : NodeLookup} {entity : FunctionalEntityConfig}
    {runtime : EntityRuntime} (h : entityRuntime node entity = .ok runtime) :
    runtime.names = entity.names := by
  obtain ⟨outputs, houtputs, h⟩ := except_bind_eq_ok.1 h
  obtain ⟨inputs, hinputs, h⟩ := except_bind_eq_ok.1 h
  rw [except_pure_eq_ok] at h
  subst h
  have houtputNames : outputs.map (fun dataset => (dataset.name, dataset.fields.map (·.name))) =
      entity.outputs.map fun dataset => (dataset.name, dataset.fields.map (·.name)) := by
    refine map_of_mapM_eq_ok (fun dataset runtime hruns => ?_) houtputs
    obtain ⟨resolved, -, hruns⟩ := except_bind_eq_ok.1 hruns
    rw [except_pure_eq_ok] at hruns
    rw [← hruns]
  have hinputNames : inputs.map (fun dataset => (dataset.name, dataset.fields.map (·.name))) =
      entity.inputs.map fun dataset => (dataset.name, dataset.fields.map (·.name)) := by
    refine map_of_mapM_eq_ok (fun dataset runtime hruns => ?_) hinputs
    obtain ⟨resolved, -, hruns⟩ := except_bind_eq_ok.1 hruns
    rw [except_pure_eq_ok] at hruns
    rw [← hruns]
  rw [EntityRuntime.names, FunctionalEntityConfig.names, houtputNames, hinputNames]

/-- What the acceptance of a configuration is to ensure: the ids of its model differ and
none is refused as a duplicate, it is accepted again as it is, and no output dataset
takes the wire coordinates of another. -/
structure Buildable (configuration : Configuration) (built : List EntityRuntime) : Prop where
  distinct : (modelIds configuration.automationComponent (built.map EntityRuntime.names)).Nodup
  builds : ∀ duplicate nodes,
    List.Disjoint (modelIds configuration.automationComponent (built.map EntityRuntime.names))
      nodes →
    ∃ entities nodes',
      buildModel ⟨duplicate, fun _ => none⟩ configuration built nodes = .ok entities nodes'
  stable : finalizeAndValidate configuration = .ok configuration
  coordinates : (configuration.entities.flatMap (·.outputs)).Pairwise fun dataset dataset' =>
    ∀ (tag : Bytes) (group group' : PubSub.DynamicWriterGroup),
      group.id = dataset.writerGroupId → group'.id = dataset'.writerGroupId →
      PubSub.collides configuration.publisherIdType configuration.publisherId group'.id
          (PubSub.newWriterGroup tag configuration.publisherIdType configuration.publisherId
            group) = false ∧
        PubSub.collides configuration.publisherIdType configuration.publisherId group.id
          (PubSub.newWriterGroup tag configuration.publisherIdType configuration.publisherId
            group') = false

/-- An accepted configuration whose variables exist keeps all that unless dotted names
make one id. -/
theorem accepted_buildable_iff {written configuration : Configuration} {node : NodeLookup}
    {built : List EntityRuntime} (haccepted : finalizeAndValidate written = .ok configuration)
    (hbuilt : configuration.entities.mapM (entityRuntime node) = .ok built) :
    Buildable configuration built ↔
      ¬ NamesClash (configuration.entities.map FunctionalEntityConfig.names) := by
  obtain ⟨hstable, hunique, hgroups⟩ := finalizeAndValidate_accepted haccepted
  have hnames : built.map EntityRuntime.names =
      configuration.entities.map FunctionalEntityConfig.names :=
    map_of_mapM_eq_ok (fun _ _ => entityRuntime_names) hbuilt
  have hdistinct : (modelIds configuration.automationComponent _).Nodup ↔ _ :=
    nodup_modelIds_iff hunique
  rw [← hnames] at hdistinct ⊢
  constructor
  · exact fun h => hdistinct.mp h.distinct
  · intro hclash
    refine ⟨hdistinct.mpr hclash, ?_, hstable, ?_⟩
    · intro duplicate nodes hdisjoint
      rw [buildModel_eq]
      exact ⟨_, _, estate_bind_eq_ok.2 ⟨⟨⟩, _, addNodes_eq_ok.2
        ⟨rfl, hdistinct.mpr hclash, hdisjoint⟩, rfl⟩⟩
    · refine (List.pairwise_map.mp hgroups).imp ?_
      intro dataset dataset' hne tag group group' hgroup hgroup'
      rw [← hgroup, ← hgroup'] at hne
      simp [PubSub.collides, PubSub.newWriterGroup, hne, hne.symm]

/-- The plant, whose names have no dots. -/
theorem accepted_buildable_iff_plant :
    ∃ built, plant.entities.mapM (entityRuntime fun _ => some (some 0)) = .ok built ∧
      Buildable plant built := by
  have haccepted : finalizeAndValidate plant = .ok plant := by decide +kernel
  have hbuilt : ∃ built,
      plant.entities.mapM (entityRuntime fun _ => some (some 0)) = .ok built := ⟨_, rfl⟩
  obtain ⟨built, hbuilt⟩ := hbuilt
  obtain ⟨-, hunique, -⟩ := finalizeAndValidate_accepted haccepted
  have hdistinct : (modelIds (text "AC")
      (plant.entities.map FunctionalEntityConfig.names)).Nodup := by
    decide
  exact ⟨built, hbuilt, (accepted_buildable_iff haccepted hbuilt).mpr
    ((nodup_modelIds_iff hunique).mp hdistinct)⟩

/-- The second entity is named like the folder of the outputs of the first. -/
def dottedPlant : Configuration :=
  let dataset (writerGroupId : UInt16) : OutputDatasetConfig :=
    ⟨text "o", writerGroupId, 1, ⟨0x4059000000000000⟩, [⟨text "t", text "dev.t"⟩]⟩
  ⟨text "AC", .uInt16, 7,
    [⟨text "A", [dataset 1], []⟩, ⟨text "A.OutputData", [dataset 2], []⟩]⟩

/-- It is accepted, and its model cannot be built. -/
theorem dottedPlant_not_buildable :
    finalizeAndValidate dottedPlant = .ok dottedPlant ∧
      ∃ built, dottedPlant.entities.mapM (entityRuntime fun _ => some (some 0)) = .ok built ∧
        ¬ Buildable dottedPlant built ∧
        ∃ error nodes, buildModel permissive dottedPlant built [] = .error error nodes := by
  have haccepted : finalizeAndValidate dottedPlant = .ok dottedPlant := by decide +kernel
  have hbuilt : ∃ built,
      dottedPlant.entities.mapM (entityRuntime fun _ => some (some 0)) = .ok built := ⟨_, rfl⟩
  obtain ⟨built, hbuilt⟩ := hbuilt
  have hsame : ¬ (modelIds (text "AC") (built.map EntityRuntime.names)).Nodup := by
    rw [map_of_mapM_eq_ok (fun _ _ => entityRuntime_names) hbuilt]
    decide
  refine ⟨haccepted, built, hbuilt, fun h => hsame h.distinct, ?_⟩
  rcases hrun : buildModel permissive dottedPlant built [] with ⟨entities, nodes⟩ | ⟨error, nodes⟩
  · rw [buildModel_eq] at hrun
    obtain ⟨u, nodes₁, hadd, -⟩ := estate_bind_eq_ok.1 hrun
    exact absurd (addNodes_eq_ok.1 hadd).2.1 hsame
  · exact ⟨error, nodes, rfl⟩

end Acceptance

end Fx

end Supernova
