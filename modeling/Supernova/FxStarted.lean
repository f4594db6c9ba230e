/-
What a started FX engine runs: the entities and datasets of an accepted
configuration, each under its unique name, for the whole run.
-/
import Supernova.FxEndpoints

namespace Supernova

namespace Fx

section Accepted

theorem refuse_eq_ok {α : Type} {what : Bytes} {a : α} :
    (refuse what : Except Bytes α) = .ok a ↔ False := by
  simp [refuse]

theorem requireUnique_eq_ok {seen seen' : List Bytes} {name what : Bytes} :
    requireUnique seen name what = .ok seen' ↔ name ≠ [] ∧ name ∉ seen ∧ name :: seen = seen' := by
  unfold requireUnique
  by_cases hempty : name.isEmpty = true
  · simp [List.isEmpty_iff.mp hempty, refuse_eq_ok]
  by_cases hseen : name ∈ seen
  · simp [hempty, hseen, refuse_eq_ok]
  · have hne : name ≠ [] := by simpa using hempty
    simp [hne, hseen, except_pure_eq_ok]

section Fresh

variable {α κ : Type*} {key : α → κ} {a : α} {as : List α} {seen : List κ}

/-- Elements whose keys were not seen behind an element have other keys than it. -/
theorem nodup_map_cons_of_fresh (hnodup : (as.map key).Nodup)
    (hfresh : ∀ b ∈ as, key b ∉ key a :: seen) : ((a :: as).map key).Nodup := by
  rw [List.map_cons, List.nodup_cons]
  refine ⟨fun hmem => ?_, hnodup⟩
  obtain ⟨b, hb, heq⟩ := List.mem_map.mp hmem
  exact hfresh b hb (heq ▸ List.mem_cons_self)

theorem fresh_cons (hnew : key a ∉ seen) (hfresh : ∀ b ∈ as, key b ∉ key a :: seen) :
    ∀ b ∈ a :: as, key b ∉ seen := by
  rw [List.forall_mem_cons]
  exact ⟨hnew, fun b hb hmem => hfresh b hb (List.mem_cons_of_mem _ hmem)⟩

end Fresh

/-- The output datasets of an entity have names of their own. -/
theorem finalizeOutputs_names {outputNames : List Bytes} {writerGroupIds writerGroupIds' :
    List UInt16} {outputs outputs' : List OutputDatasetConfig}
    (h : finalizeOutputs outputNames writerGroupIds outputs = .ok (writerGroupIds', outputs')) :
    (outputs'.map (·.name)).Nodup ∧ ∀ dataset ∈ outputs', dataset.name ∉ outputNames := by
  induction outputs generalizing outputNames writerGroupIds writerGroupIds' outputs' with
  | nil =>
      rw [finalizeOutputs, except_pure_eq_ok, Prod.mk.injEq] at h
      rw [← h.2]
      exact ⟨List.nodup_nil, by simp⟩
  | cons dataset outputs ih =>
      rw [finalizeOutputs] at h
      obtain ⟨names, hunique, h⟩ := except_bind_eq_ok.1 h
      obtain ⟨-, hnew, rfl⟩ := requireUnique_eq_ok.1 hunique
      split at h
      · exact (refuse_eq_ok.1 h).elim
      split at h
      · exact (refuse_eq_ok.1 h).elim
      obtain ⟨fields, -, h⟩ := except_bind_eq_ok.1 h
      obtain ⟨⟨ids, finalized⟩, hrest, h⟩ := except_bind_eq_ok.1 h
      rw [except_pure_eq_ok, Prod.mk.injEq] at h
      obtain ⟨hnodup, hfresh⟩ := ih hrest
      rw [← h.2]
      constructor
      · exact nodup_map_cons_of_fresh hnodup hfresh
      · exact fresh_cons hnew hfresh

theorem finalizeEntities_names {entityNames : List Bytes} {writerGroupIds : List UInt16}
    {entities entities' : List FunctionalEntityConfig}
    (h : finalizeEntities entityNames writerGroupIds entities = .ok entities') :
    (entities'.map (·.name)).Nodup ∧ (∀ entity ∈ entities', entity.name ∉ entityNames) ∧
      ∀ entity ∈ entities', (entity.outputs.map (·.name)).Nodup := by
  induction entities generalizing entityNames writerGroupIds entities' with
  | nil =>
      rw [finalizeEntities, except_pure_eq_ok] at h
      rw [← h]
      exact ⟨List.nodup_nil, by simp, by simp⟩
  | cons entity entities ih =>
      rw [finalizeEntities] at h
      obtain ⟨names, hunique, h⟩ := except_bind_eq_ok.1 h
      obtain ⟨-, hnew, rfl⟩ := requireUnique_eq_ok.1 hunique
      obtain ⟨⟨ids, outputs⟩, houtputs, h⟩ := except_bind_eq_ok.1 h
      obtain ⟨inputs, -, h⟩ := except_bind_eq_ok.1 h
      split at h
      · exact (refuse_eq_ok.1 h).elim
      obtain ⟨finalized, hrest, h⟩ := except_bind_eq_ok.1 h
      rw [except_pure_eq_ok] at h
      obtain ⟨hnodup, hfresh, hall⟩ := ih hrest
      rw [← h]
      refine ⟨?_, ?_, ?_⟩
      · exact nodup_map_cons_of_fresh hnodup hfresh
      · exact fresh_cons hnew hfresh
      · rw [List.forall_mem_cons]
        exact ⟨(finalizeOutputs_names houtputs).1, hall⟩

/-- In an accepted configuration the names of the entities differ, and so do
those of the output datasets of an entity. -/
theorem finalizeAndValidate_names {written configuration : Configuration}
    (h : finalizeAndValidate written = .ok configuration) :
    (configuration.entities.map (·.name)).Nodup ∧
      ∀ entity ∈ configuration.entities, (entity.outputs.map (·.name)).Nodup := by
  unfold finalizeAndValidate at h
  iterate 4
    split at h
    · exact (refuse_eq_ok.1 h).elim
  obtain ⟨entities, hentities, h⟩ := except_bind_eq_ok.1 h
  rw [except_pure_eq_ok] at h
  subst h
  obtain ⟨hnodup, -, hall⟩ := finalizeEntities_names hentities
  exact ⟨hnodup, hall⟩

end Accepted

section Built

/-- A dataset at run time has the name and the coordinates of its configuration. -/
def RunsOutput (dataset : OutputDatasetConfig) (runtime : DatasetRuntime) : Prop :=
  runtime.name = dataset.name ∧ runtime.writerGroupId = dataset.writerGroupId ∧
    runtime.dataSetWriterId = dataset.dataSetWriterId ∧
    runtime.publishingIntervalMs = dataset.publishingIntervalMs

def RunsEntity (entity : FunctionalEntityConfig) (runtime : EntityRuntime) : Prop :=
  runtime.name = entity.name ∧ List.Forall₂ RunsOutput entity.outputs runtime.outputs

theorem outputRuntime_runs {node : NodeLookup} {entityName : Bytes}
    {dataset : OutputDatasetConfig} {runtime : DatasetRuntime}
    (h : outputRuntime node entityName dataset = .ok runtime) : RunsOutput dataset runtime := by
  obtain ⟨resolved, -, h⟩ := except_bind_eq_ok.1 h
  rw [except_pure_eq_ok] at h
  rw [← h]
  exact ⟨rfl, rfl, rfl, rfl⟩

theorem entityRuntime_runs {node : NodeLookup} {entity : FunctionalEntityConfig}
    {runtime : EntityRuntime} (h : entityRuntime node entity = .ok runtime) :
    RunsEntity entity runtime := by
  obtain ⟨outputs, houtputs, h⟩ := except_bind_eq_ok.1 h
  obtain ⟨inputs, -, h⟩ := except_bind_eq_ok.1 h
  rw [except_pure_eq_ok] at h
  rw [← h]
  exact ⟨rfl, (mapM_eq_ok.1 houtputs).imp fun _ _ => outputRuntime_runs⟩

/-- Building the nodes of an entity adds its folder, and changes nothing else. -/
theorem buildEntity_runs {refusals : Refusals} {folder : Bytes} {runtime runtime' : EntityRuntime}
    {nodes nodes' : List Bytes}
    (h : buildEntity refusals folder runtime nodes = .ok runtime' nodes') :
    runtime'.name = runtime.name ∧ runtime'.outputs = runtime.outputs := by
  unfold buildEntity at h
  simp only [estate_bind_eq_ok, estate_pure_eq_ok] at h
  obtain ⟨-, -, -, -, -, -, -, -, -, -, -, -, -, -, -, -, -, -, rfl, -⟩ := h
  exact ⟨rfl, rfl⟩

theorem build_mapM_eq_ok {α β : Type} (R : α → β → Prop) {f : α → Build β}
    (hf : ∀ a b nodes nodes', f a nodes = .ok b nodes' → R a b) {as : List α} {bs : List β}
    {nodes nodes' : List Bytes} (h : as.mapM f nodes = .ok bs nodes') :
    List.Forall₂ R as bs := by
  induction as generalizing bs nodes nodes' with
  | nil =>
      rw [List.mapM_nil, estate_pure_eq_ok] at h
      rw [← h.1]
      exact List.Forall₂.nil
  | cons a as ih =>
      simp only [List.mapM_cons, estate_bind_eq_ok, estate_pure_eq_ok] at h
      obtain ⟨b, nodes₁, hhead, tail, nodes₂, htail, rfl, -⟩ := h
      exact List.Forall₂.cons (hf a b _ _ hhead) (ih htail)

theorem forall₂_trans {α β γ : Type*} {R : α → β → Prop} {S : β → γ → Prop} {T : α → γ → Prop}
    (hT : ∀ a b c, R a b → S b c → T a c) {as : List α} {bs : List β} {cs : List γ}
    (h : List.Forall₂ R as bs) (h' : List.Forall₂ S bs cs) : List.Forall₂ T as cs := by
  induction h generalizing cs with
  | nil =>
      cases h'
      exact List.Forall₂.nil
  | cons hhead _ ih =>
      cases h' with
      | cons hhead' htail' => exact List.Forall₂.cons (hT _ _ _ hhead hhead') (ih htail')

theorem startIfStaged_runs {node : NodeLookup} {refusals : Refusals} {pubSub : PubSub.Engine}
    {nodes : List Bytes} {configuration : Configuration} {server : Server}
    (h : startIfStaged node refusals ⟨{ staged := some configuration }, pubSub, nodes⟩ =
      .ok server) :
    server.fx.configuration = configuration ∧
      List.Forall₂ RunsEntity configuration.entities server.fx.entities := by
  simp only [startIfStaged, Bool.false_eq_true, if_false, except_bind_eq_ok,
    List.nil_append] at h
  obtain ⟨built, hbuilt, h⟩ := h
  rcases hmodel : buildModel refusals configuration built nodes with
    ⟨entities, nodes'⟩ | ⟨error, nodes'⟩
  · simp only [hmodel, except_pure_eq_ok] at h
    rw [← h]
    refine ⟨rfl, ?_⟩
    simp only [buildModel, estate_bind_eq_ok] at hmodel
    obtain ⟨_, _, _, _, _, _, folder, _, _, hbuild⟩ := hmodel
    have hruns := (mapM_eq_ok.1 hbuilt).imp fun _ _ => entityRuntime_runs
    have hkept := build_mapM_eq_ok (fun runtime runtime' : EntityRuntime =>
      runtime'.name = runtime.name ∧ runtime'.outputs = runtime.outputs)
      (fun _ _ _ _ h => buildEntity_runs h) hbuild
    refine forall₂_trans (fun entity runtime runtime' hrun hsame => ?_) hruns hkept
    rw [RunsEntity, hsame.1, hsame.2]
    exact hrun
  · simp [hmodel] at h

end Built

section Running

/-- The engine runs a configuration that was accepted. -/
structure Configured (fx : Engine) : Prop where
  entityNames : (fx.configuration.entities.map (·.name)).Nodup
  outputNames : ∀ entity ∈ fx.configuration.entities, (entity.outputs.map (·.name)).Nodup
  publisherId : fx.configuration.publisherId ≤
    PubSub.publisherIdMaximum fx.configuration.publisherIdType
  entities : List.Forall₂ RunsEntity fx.configuration.entities fx.entities

theorem configured_of_boots {server : Server} (h : Boots server) : Configured server.fx := by
  obtain ⟨-, -, -, -, -, hpublisherId, -⟩ := boots_frame h
  obtain ⟨pubSub, written, configuration, node, refusals, nodes, -, hvalid, hstart⟩ := h
  obtain ⟨hconfiguration, hentities⟩ := startIfStaged_runs hstart
  obtain ⟨hentityNames, houtputNames⟩ := finalizeAndValidate_names hvalid
  subst hconfiguration
  exact ⟨hentityNames, houtputNames, hpublisherId, hentities⟩

/-- No event changes the configuration or the datasets that are run. -/
theorem handle_frame (server : Server) (event : Event)
    (h : server.fx.configuration.publisherId.toNat ≤ kJsonExactIntegerLimit) :
    (handle server event).fx.configuration = server.fx.configuration ∧
      (handle server event).fx.entities = server.fx.entities := by
  cases event with
  | establish environment requestJson =>
      have hcases := establishConnections_establishes h environment requestJson
      rw [handle]
      generalize establishConnections environment requestJson server = result at hcases
      obtain ⟨server', outcome⟩ := result
      cases hcases with
      | refused what _ => exact ⟨rfl, rfl⟩
      | abandoned hprepared hactivated hview => exact ⟨rfl, rfl⟩
      | established hprepared hactivated hview hdetail =>
          simp only [showStatus_storeEndpoint, and_self]
  | close requestText =>
      rcases closeConnections_cases requestText server with
        ⟨heq, -, -⟩ | ⟨name, endpoint, -, heq, -⟩
      · rw [handle, heq]
        exact ⟨rfl, rfl⟩
      · rw [handle, heq]
        exact ⟨rfl, rfl⟩
  | shutdown =>
      apply keeps_shutdown (I := fun server' =>
        server'.fx.configuration = server.fx.configuration ∧
          server'.fx.entities = server.fx.entities)
      · exact fun server' name endpoint h _ _ => h
      · exact fun server' h => h
      · exact ⟨rfl, rfl⟩
  | timer group sample => exact ⟨rfl, rfl⟩
  | receive endpoint data =>
      obtain ⟨endpoints, hfx, -⟩ := foldl_signal_frame
        (PubSub.receive server.pubSub endpoint (fun _ => true) data).2 server.fx
      rw [handle, hfx]
      exact ⟨rfl, rfl⟩

theorem configured_of_reachable {server : Server} (h : Reachable server) :
    Configured server.fx := by
  obtain ⟨booted, events, hboots, rfl⟩ := h
  have hboth := List.foldlRecOn events handle (motive := fun server =>
    Sound server ∧ Configured server.fx) ⟨sound_of_boots hboots, configured_of_boots hboots⟩
    fun server h event _ => by
      obtain ⟨hconfiguration, hentities⟩ := handle_frame server event h.1.publisherId
      refine ⟨sound_handle h.1 event, ?_⟩
      refine ⟨?_, ?_, ?_, ?_⟩ <;> simp only [hconfiguration, hentities]
      · exact h.2.entityNames
      · exact h.2.outputNames
      · exact h.2.publisherId
      · exact h.2.entities
  exact hboth.2

/-- The first of that name is the one that is meant, when names differ. -/
theorem find?_of_forall₂ {α β : Type*} {R : α → β → Prop} {name : α → Bytes} {name' : β → Bytes}
    (hname : ∀ a b, R a b → name' b = name a) {as : List α} {bs : List β}
    (h : List.Forall₂ R as bs) (hnodup : (as.map name).Nodup) {a : α} (ha : a ∈ as) :
    ∃ b, bs.find? (fun b => name' b = name a) = some b ∧ R a b := by
  induction h with
  | nil => cases ha
  | @cons head b as bs hhead _ ih =>
      rw [List.map_cons, List.nodup_cons] at hnodup
      rcases List.mem_cons.mp ha with rfl | ha
      · exact ⟨b, by rw [List.find?_cons_of_pos (by simpa using hname _ _ hhead)], hhead⟩
      · obtain ⟨b', hfind, hR⟩ := ih hnodup.2 ha
        have hne : name' b ≠ name a := by
          rw [hname _ _ hhead]
          exact fun heq => hnodup.1 (heq ▸ List.mem_map_of_mem ha)
        exact ⟨b', by rw [List.find?_cons_of_neg (by simpa using hne), hfind], hR⟩

/-- A configured output dataset is found under its names. -/
theorem findDataset_of_configured {fx : Engine} (h : Configured fx)
    {entity : FunctionalEntityConfig} (hentity : entity ∈ fx.configuration.entities)
    {dataset : OutputDatasetConfig} (hdataset : dataset ∈ entity.outputs) :
    ∃ runtime datasetRuntime, findEntity fx entity.name = some runtime ∧
      findDataset runtime.outputs dataset.name = some datasetRuntime ∧
      RunsOutput dataset datasetRuntime := by
  obtain ⟨runtime, hfind, -, houtputs⟩ :=
    find?_of_forall₂ (fun _ _ hrun => hrun.1) h.entities h.entityNames hentity
  obtain ⟨datasetRuntime, hfind', hruns⟩ := find?_of_forall₂ (fun _ _ hrun => hrun.1) houtputs
    (h.outputNames entity hentity) hdataset
  exact ⟨runtime, datasetRuntime, hfind, hfind', hruns⟩

end Running

end Fx

end Supernova
