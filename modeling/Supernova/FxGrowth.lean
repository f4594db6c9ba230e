/-
The objects that establishes add to the address space.  The ceiling is checked
against the endpoint table; an object whose view was not completed is not in the
table, so only the completed ones are bounded.
-/
import Supernova.FxTable

namespace Supernova

attribute [local semireducible] ByteArray.toList.loop

namespace Fx

section Creation

/-- The endpoint object that an event adds to the address space, by the entity and
the name it is for. -/
def createdObject (server : Server) : Event → Option (Bytes × Bytes)
  | .establish environment requestJson =>
      match prepareEstablish server.fx requestJson with
      | .error _ => none
      | .ok establishment =>
          match activate server.fx.configuration environment.socket establishment
              server.pubSub with
          | .error _ => none
          | .ok _ =>
              if establishment.endpoint.statusVariable.isSome then none
              else
                match addObject environment.refusals establishment.endpointsFolder
                    establishment.name server.nodes with
                | .error _ _ => none
                | .ok _ _ => some (establishment.endpoint.entity, establishment.name)
  | _ => none

/-- A server with an account of the endpoint objects added so far. -/
structure Surveyed where
  server : Server
  objects : List (Bytes × Bytes) := []

def survey (s : Surveyed) (event : Event) : Option Surveyed :=
  some ⟨handle s.server event, s.objects ++ (createdObject s.server event).toList⟩

def objectsUnder (s : Surveyed) (entityName : Bytes) : Nat :=
  s.objects.countP fun object => object.1 = entityName

/-- The variables of an endpoint view. -/
def viewVariables : List Bytes := [text "Status", text "Address", text "Dataset"]

def Addable (refusals : Refusals) (nodes : List Bytes) (nodeId : Bytes) : Prop :=
  nodeId ∉ nodes ∧ refusals.other nodeId = none

instance (refusals : Refusals) (nodes : List Bytes) (nodeId : Bytes) :
    Decidable (Addable refusals nodes nodeId) :=
  inferInstanceAs (Decidable (_ ∧ _))

/-- Where an establish gets as far as a new object, the variables of the view can
be added as well. -/
def CompletesView (server : Server) : Event → Prop
  | .establish environment requestJson =>
      ∀ establishment, prepareEstablish server.fx requestJson = .ok establishment →
        let object := makeChildNodeId establishment.endpointsFolder establishment.name
        Addable environment.refusals server.nodes object →
          ∀ child ∈ viewVariables,
            Addable environment.refusals server.nodes (makeChildNodeId object child)
  | _ => True

instance (server : Server) (event : Event) : Decidable (CompletesView server event) :=
  match event with
  | .establish environment requestJson =>
      match hprepared : prepareEstablish server.fx requestJson with
      | .error _ => isTrue (by simp [CompletesView, hprepared])
      | .ok establishment =>
          let object := makeChildNodeId establishment.endpointsFolder establishment.name
          decidable_of_iff
            (Addable environment.refusals server.nodes object → ∀ child ∈ viewVariables,
              Addable environment.refusals server.nodes (makeChildNodeId object child))
            (by simp [CompletesView, hprepared, object])
  | .close _ | .shutdown | .timer _ _ | .receive _ _ => isTrue trivial

end Creation

section Views

variable {refusals : Refusals} {establishment : Establishment} {nodes nodes' : List Bytes}

theorem addNode_of_addable {nodeId : Bytes} (h : Addable refusals nodes nodeId) :
    addNode refusals nodeId nodes = .ok ⟨⟩ (nodes ++ [nodeId]) := by
  rcases addNode_cases refusals nodeId nodes with hok | ⟨what, -, hwhy⟩
  · exact hok
  · rcases hwhy with hmem | hother
    · exact absurd hmem h.1
    · exact absurd h.2 hother

theorem addNode_eq_ok {nodeId : Bytes} {u : PUnit}
    (h : addNode refusals nodeId nodes = .ok u nodes') :
    Addable refusals nodes nodeId ∧ nodes' = nodes ++ [nodeId] := by
  by_cases haddable : Addable refusals nodes nodeId
  · rw [addNode_of_addable haddable] at h
    cases h
    exact ⟨haddable, rfl⟩
  · simp only [addNode, bind, EStateM.bind, get, getThe, MonadStateOf.get, EStateM.get] at h
    split at h
    · cases h
    · rename_i hnot
      rcases hother : refusals.other nodeId with _ | error
      · exact absurd ⟨hnot, hother⟩ haddable
      · rw [hother] at h
        cases h

theorem addObject_of_addable {parent name : Bytes}
    (h : Addable refusals nodes (makeChildNodeId parent name)) :
    addObject refusals parent name nodes =
      .ok (makeChildNodeId parent name) (nodes ++ [makeChildNodeId parent name]) := by
  simp only [addObject, bind, EStateM.bind, addNode_of_addable h]
  rfl

theorem addable_of_addObject {parent name nodeId : Bytes}
    (h : addObject refusals parent name nodes = .ok nodeId nodes') :
    Addable refusals nodes (makeChildNodeId parent name) := by
  rw [addObject, estate_bind_eq_ok] at h
  obtain ⟨u, nodes₁, hadd, -⟩ := h
  exact (addNode_eq_ok hadd).1

theorem addObject_error {parent name what : Bytes}
    (h : addObject refusals parent name nodes = .error what nodes') : nodes' = nodes := by
  rcases addNode_cases refusals (makeChildNodeId parent name) nodes with hok | ⟨what', herror, -⟩
  · rw [addObject_of_addable (addNode_eq_ok hok).1] at h
    cases h
  · simp only [addObject, bind, EStateM.bind, herror, EStateM.Result.error.injEq] at h
    exact h.2.symm

theorem endpointNodes_eq (folder name : Bytes) :
    endpointNodes folder name = makeChildNodeId folder name ::
      viewVariables.map (makeChildNodeId (makeChildNodeId folder name)) := rfl

theorem endpointNodes_nodup (folder name : Bytes) : (endpointNodes folder name).Nodup := by
  have hdistinct : viewVariables.Nodup := by decide
  have hinjective : Function.Injective (makeChildNodeId (makeChildNodeId folder name)) :=
    fun _ _ heq => List.append_cancel_left heq
  rw [endpointNodes_eq, List.nodup_cons]
  refine ⟨?_, hdistinct.map hinjective⟩
  intro hmem
  obtain ⟨child, -, heq⟩ := List.mem_map.mp hmem
  have hlength := congrArg List.length heq
  have hdot : (text ".").length = 1 := by decide
  simp only [makeChildNodeId, List.length_append, hdot] at hlength
  omega

/-- A view whose object can be added, and whose variables can, is built. -/
theorem buildEndpointView_of_addable
    (hobject : Addable refusals nodes
      (makeChildNodeId establishment.endpointsFolder establishment.name))
    (hvariables : ∀ child ∈ viewVariables, Addable refusals nodes (makeChildNodeId
      (makeChildNodeId establishment.endpointsFolder establishment.name) child)) :
    ∃ endpoint nodes', buildEndpointView refusals establishment nodes = .ok endpoint nodes' := by
  rcases hview : buildEndpointView refusals establishment nodes with
    ⟨endpoint, nodes'⟩ | ⟨what, nodes'⟩
  · exact ⟨endpoint, nodes', rfl⟩
  obtain ⟨-, created, refused, rest, hids, rfl, hwhy⟩ := buildEndpointView_error hview
  have haddable : ∀ id ∈ endpointNodes establishment.endpointsFolder establishment.name,
      Addable refusals nodes id := by
    rw [endpointNodes_eq, List.forall_mem_cons, List.forall_mem_map]
    exact ⟨hobject, hvariables⟩
  have hnodup := endpointNodes_nodup establishment.endpointsFolder establishment.name
  rw [hids] at haddable hnodup
  obtain ⟨hnot, hother⟩ := haddable refused (by simp)
  rcases hwhy with hmem | hwhy
  · rcases List.mem_append.mp hmem with hmem | hmem
    · exact absurd hmem hnot
    · exact absurd List.mem_cons_self (List.disjoint_of_nodup_append hnodup hmem)
  · exact absurd hother hwhy

end Views

section Account

/-- The same endpoints under the same entities. -/
def SameEntities (fx fx' : Engine) : Prop :=
  ∀ name, (fx'.endpoints.find? name).map Endpoint.entity =
    (fx.endpoints.find? name).map Endpoint.entity

theorem SameEntities.endpointCountOf_eq {fx fx' : Engine} (h : SameEntities fx fx')
    (entityName : Bytes) : endpointCountOf fx' entityName = endpointCountOf fx entityName := by
  have hperm := (OrderedMap.map_entries_perm h).map Prod.snd
  rw [Fx.endpointCountOf_eq, Fx.endpointCountOf_eq]
  simpa only [List.map_map, Function.comp_def] using hperm.countP_eq (· = entityName)

theorem sameEntities_takeDown {server : Server} {name : Bytes} {endpoint : Endpoint}
    (hfind : server.fx.endpoints.find? name = some endpoint) :
    SameEntities server.fx (takeDown name endpoint server).fx := by
  intro other
  rw [takeDown, OrderedMap.find?_assign]
  split
  · rename_i heq
    rw [heq, hfind]
    rfl
  · rfl

theorem sameEntities_shutdown (server : Server) : SameEntities server.fx (shutdown server).fx :=
  keeps_shutdown (I := fun stopped => SameEntities server.fx stopped.fx)
    (fun _ _ _ h hfind _ other => (sameEntities_takeDown hfind other).trans (h other))
    (fun _ h => h) fun _ => rfl

theorem sameEntities_foldl_signal (reactions : List (PubSub.ReaderKey × PubSub.Reaction))
    (fx : Engine) : SameEntities fx (reactions.foldl signal fx) := by
  obtain ⟨endpoints, hfx, hcore⟩ := foldl_signal_frame reactions fx
  intro name
  have hentity := congrArg (Option.map Endpoint.entity) (hcore name)
  rw [Option.map_map, Option.map_map] at hentity
  rw [hfx]
  exact hentity

/-- Every object is that of an endpoint in the table. -/
def Accounted (s : Surveyed) : Prop :=
  ∀ entityName, objectsUnder s entityName = endpointCountOf s.server.fx entityName

theorem objectsUnder_survey (server : Server) (objects : List (Bytes × Bytes))
    (created : Option (Bytes × Bytes)) (entityName : Bytes) :
    objectsUnder ⟨server, objects ++ created.toList⟩ entityName =
      objects.countP (fun object => object.1 = entityName) +
        if created.map Prod.fst = some entityName then 1 else 0 := by
  rw [objectsUnder, List.countP_append]
  cases created <;> simp [List.countP_cons]

theorem createdObject_of_activated {environment : Environment} {requestJson : Bytes}
    {server : Server} {establishment : Establishment} {pubSub : PubSub.Engine}
    (hprepared : prepareEstablish server.fx requestJson = .ok establishment)
    (hactivated : activate server.fx.configuration environment.socket establishment
      server.pubSub = .ok pubSub) :
    createdObject server (.establish environment requestJson) =
      if establishment.endpoint.statusVariable = none ∧
          Addable environment.refusals server.nodes
            (makeChildNodeId establishment.endpointsFolder establishment.name)
      then some (establishment.endpoint.entity, establishment.name) else none := by
  simp only [createdObject, hprepared, hactivated]
  rcases hstatus : establishment.endpoint.statusVariable with _ | status
  · rcases hadd : addObject environment.refusals establishment.endpointsFolder
      establishment.name server.nodes with ⟨nodeId, nodes⟩ | ⟨what, nodes⟩
    · simp [addable_of_addObject hadd]
    · have hnot : ¬ Addable environment.refusals server.nodes
          (makeChildNodeId establishment.endpointsFolder establishment.name) := by
        intro haddable
        rw [addObject_of_addable haddable] at hadd
        cases hadd
      simp [hnot]
  · simp

theorem createdObject_of_not_activated {environment : Environment} {requestJson : Bytes}
    {server : Server}
    (h : ∀ establishment pubSub, prepareEstablish server.fx requestJson = .ok establishment →
      activate server.fx.configuration environment.socket establishment server.pubSub ≠
        .ok pubSub) : createdObject server (.establish environment requestJson) = none := by
  rw [createdObject]
  rcases hprepared : prepareEstablish server.fx requestJson with what | establishment
  · rfl
  rcases hactivated : activate server.fx.configuration environment.socket establishment
    server.pubSub with what | pubSub
  · simp only [hactivated]
  · exact absurd hactivated (h establishment pubSub hprepared)

/-- The account is one of the address space: an event adds nodes exactly when it
adds an object, which is new. -/
theorem nodes_handle {server : Server} (h : Sound server) (event : Event) :
    (createdObject server event = none ∧ (handle server event).nodes = server.nodes) ∨
    ∃ entityName name folder, createdObject server event = some (entityName, name) ∧
      makeChildNodeId folder name ∉ server.nodes ∧
      makeChildNodeId folder name ∈ (handle server event).nodes := by
  cases event with
  | close requestText =>
      refine .inl ⟨rfl, ?_⟩
      rcases closeConnections_cases requestText server with
        ⟨heq, -, -⟩ | ⟨name, endpoint, -, heq, -⟩ <;> rw [handle, heq]
      rfl
  | shutdown =>
      exact .inl ⟨rfl, keeps_shutdown (I := fun stopped => stopped.nodes = server.nodes)
        (fun _ _ _ h _ _ => h) (fun _ h => h) rfl⟩
  | timer group sample => exact .inl ⟨rfl, rfl⟩
  | receive endpoint data => exact .inl ⟨rfl, rfl⟩
  | establish environment requestJson =>
      have hcases := establishConnections_establishes h.publisherId environment requestJson
      rw [handle]
      generalize establishConnections environment requestJson server = result at hcases ⊢
      obtain ⟨server', outcome⟩ := result
      cases hcases with
      | refused what hrefused => exact .inl ⟨createdObject_of_not_activated hrefused, rfl⟩
      | @abandoned establishment pubSub what nodes hprepared hactivated hview =>
          rw [createdObject_of_activated hprepared hactivated]
          obtain ⟨hstatus, created, refused, rest, hids, rfl, hwhy⟩ := buildEndpointView_error hview
          by_cases hobject : Addable environment.refusals server.nodes
            (makeChildNodeId establishment.endpointsFolder establishment.name)
          · refine .inr ⟨_, _, _, if_pos ⟨hstatus, hobject⟩, hobject.1, ?_⟩
            rw [endpointNodes_eq] at hids
            rcases created with _ | ⟨object, created⟩
            · obtain ⟨rfl, -⟩ := List.cons.inj hids
              rcases hwhy with hmem | hother
              · exact absurd (by simpa using hmem) hobject.1
              · exact absurd hobject.2 hother
            · rw [(List.cons.inj hids).1]
              exact List.mem_append_right _ List.mem_cons_self
          · refine .inl ⟨if_neg fun hboth => hobject hboth.2, ?_⟩
            rcases hadd : addObject environment.refusals establishment.endpointsFolder
              establishment.name server.nodes with ⟨nodeId, nodes⟩ | ⟨what', nodes⟩
            · exact absurd (addable_of_addObject hadd) hobject
            · have hkept := addObject_error hadd
              simp only [buildEndpointView, hstatus, Option.isSome_none, Bool.false_eq_true,
                if_false, bind, EStateM.bind, hadd, EStateM.Result.error.injEq] at hview
              exact hview.2.symm.trans hkept
      | @established establishment pubSub endpoint nodes detail hprepared hactivated hview hdetail =>
          rw [createdObject_of_activated hprepared hactivated]
          unfold buildEndpointView at hview
          split at hview
          · rename_i hsome
            rw [estate_pure_eq_ok] at hview
            refine .inl ⟨if_neg fun hboth => ?_, hview.2.symm⟩
            rw [hboth.1] at hsome
            cases hsome
          · rename_i hnone
            simp only [estate_bind_eq_ok, estate_pure_eq_ok, addVariable] at hview
            obtain ⟨object, nodes₁, hadd, _, nodes₂, hstatus, _, nodes₃, haddress, _, nodes₄,
              hdataset, -, rfl⟩ := hview
            have hobject := addable_of_addObject hadd
            refine .inr ⟨_, _, _, if_pos ⟨by simpa using hnone, hobject⟩, hobject.1, ?_⟩
            rw [addObject_of_addable hobject] at hadd
            obtain ⟨-, rfl⟩ := EStateM.Result.ok.inj hadd
            simp [(addNode_eq_ok hdataset).2, (addNode_eq_ok haddress).2, (addNode_eq_ok hstatus).2]

theorem accounted_establishes {environment : Environment} {requestJson : Bytes}
    {server server' : Server} {outcome : Outcome} {objects : List (Bytes × Bytes)}
    (htable : TableSound server.fx)
    (hestablishes : Establishes environment requestJson server server' outcome)
    (hcompletes : CompletesView server (.establish environment requestJson))
    (h : Accounted ⟨server, objects⟩) :
    Accounted ⟨server',
      objects ++ (createdObject server (.establish environment requestJson)).toList⟩ := by
  intro entityName
  rw [objectsUnder_survey]
  have hbefore : objects.countP (fun object => object.1 = entityName) =
      endpointCountOf server.fx entityName := h entityName
  rw [hbefore]
  cases hestablishes with
  | refused what hrefused =>
      simp [createdObject_of_not_activated hrefused]
  | abandoned hprepared hactivated hview =>
      rw [createdObject_of_activated hprepared hactivated]
      split
      · -- the object was added, so the view would have been completed
        rename_i hcreated
        obtain ⟨endpoint, nodes', hbuilt⟩ := buildEndpointView_of_addable hcreated.2
          (hcompletes _ hprepared hcreated.2)
        rw [hview] at hbuilt
        cases hbuilt
      · simp only [Option.map_none, reduceCtorEq, if_false, Nat.add_zero]
        rfl
  | @established establishment pubSub endpoint nodes detail hprepared hactivated hview hdetail =>
      have hcreated := createdObject_of_activated hprepared hactivated
      obtain ⟨request, entity, existing, hprepared⟩ := prepareEstablish_eq_ok hprepared
      rw [showStatus_storeEndpoint, OrderedMap.assign_again,
        endpointCountOf_assign (fits_established htable hprepared hview)]
      have hentity : (establishedEndpoint endpoint (reconciledStatus establishment pubSub)).entity =
          establishment.endpoint.entity := (buildEndpointView_ok hview).1
      rw [hentity]
      have hadded : establishment.endpoint.statusVariable = none →
          Addable environment.refusals server.nodes
            (makeChildNodeId establishment.endpointsFolder establishment.name) := by
        intro hnone
        simp only [buildEndpointView, hnone, Option.isSome_none, Bool.false_eq_true, if_false,
          estate_bind_eq_ok] at hview
        obtain ⟨nodeId, nodes₁, hadd, -⟩ := hview
        exact addable_of_addObject hadd
      by_cases hfresh : establishment.endpoint.statusVariable = none
      · rw [if_pos ⟨hfresh, hadded hfresh⟩] at hcreated
        rw [hcreated, Option.map_some]
        simp only [(fresh_iff htable hprepared).mp hfresh, true_and, Option.some.injEq]
      · rw [if_neg fun hboth => hfresh hboth.1] at hcreated
        have hold := mt (fresh_iff htable hprepared).mpr hfresh
        simp [hcreated, hold]

theorem accounted_survey {s s' : Surveyed} {event : Event} (hsound : Sound s.server)
    (htable : TableSound s.server.fx) (h : Accounted s) (hcompletes : CompletesView s.server event)
    (hstep : survey s event = some s') : Accounted s' := by
  obtain ⟨server, objects⟩ := s
  cases hstep
  have hsame : createdObject server event = none →
      SameEntities server.fx (handle server event).fx →
      Accounted ⟨handle server event, objects ++ (createdObject server event).toList⟩ := by
    intro hnone hsame entityName
    rw [hnone, hsame.endpointCountOf_eq, ← h entityName, Option.toList_none, List.append_nil]
    rfl
  cases event with
  | establish environment requestJson =>
      exact accounted_establishes htable
        (establishConnections_establishes hsound.publisherId environment requestJson) hcompletes h
  | close requestText =>
      refine hsame rfl ?_
      rcases closeConnections_cases requestText server with
        ⟨heq, -, -⟩ | ⟨name, endpoint, htarget, heq, -⟩
      · rw [handle, heq]
        exact fun _ => rfl
      · rw [handle, heq]
        exact sameEntities_takeDown (closeTarget_eq_ok htarget).2.1
  | shutdown => exact hsame rfl (sameEntities_shutdown server)
  | timer group sample => exact hsame rfl fun _ => rfl
  | receive endpoint data => exact hsame rfl (sameEntities_foldl_signal _ server.fx)

end Account

section Runs

/-- The ceiling on the objects that were ever added under an entity. -/
def WithinCeiling (s : Surveyed) : Prop :=
  ∀ entityName, objectsUnder s entityName ≤ kMaxEndpointsPerEntity

/-- As long as every view that is begun is completed, the objects of an entity
stay within the ceiling. -/
theorem withinCeiling_of_completesView {server : Server} (h : Boots server)
    {events : List Event}
    (hcompletes : Along survey (fun s => CompletesView s.server) ⟨server, []⟩ events) :
    Throughout survey WithinCeiling ⟨server, []⟩ events := by
  refine throughout_of_along
    (I := fun s => Sound s.server ∧ TableSound s.server.fx ∧ Accounted s) ?_ ?_ ?_ hcompletes
  · rintro s event s' ⟨hsound, htable, haccounted⟩ hcompletes hstep
    have haccounted' := accounted_survey hsound htable haccounted hcompletes hstep
    cases hstep
    exact ⟨sound_handle hsound event, (evolves_handle hsound event htable).1, haccounted'⟩
  · rintro s ⟨-, htable, haccounted⟩ entityName
    rw [haccounted entityName]
    exact htable.bounded entityName
  · refine ⟨sound_of_boots h, tableSound_of_boots h, fun entityName => ?_⟩
    rw [endpointCountOf, (boots_frame h).1]
    rfl

end Runs

section Exhaustion

/-- A request to publish a dataset under a name that the engine chooses. -/
def unnamedRequest : Bytes :=
  text "\x7b\"functionalEntity\":\"A\",\"role\":\"publisher\",\"dataset\":\"o\"" ++
    text ",\"address\":\"opc.udp://h:1\"\x7d"

/-- An address space that has no room for a status variable. -/
def statusRefusing : Refusals :=
  ⟨fun nodeId => nodeId, fun nodeId =>
    if (text ".Status").isSuffixOf nodeId then some (text "BadOutOfMemory") else none⟩

def exhausting : Event := .establish ⟨none, statusRefusing⟩ unnamedRequest

/-- The names of the endpoints that were not completed, the last one first. -/
def wreckedNames : Nat → List Bytes
  | 0 => []
  | n + 1 => autoName (n + 1) :: wreckedNames n

theorem mem_wreckedNames {n : Nat} {name : Bytes} :
    name ∈ wreckedNames n ↔ ∃ k < n, name = autoName (k + 1) := by
  induction n with
  | zero => simp [wreckedNames]
  | succ n ih =>
      rw [wreckedNames, List.mem_cons, ih]
      constructor
      · rintro (rfl | ⟨k, hk, rfl⟩)
        · exact ⟨n, Nat.lt_succ_self n, rfl⟩
        · exact ⟨k, by omega, rfl⟩
      · rintro ⟨k, hk, rfl⟩
        rcases Nat.lt_succ_iff_lt_or_eq.mp hk with hk | rfl
        · exact .inr ⟨k, hk, rfl⟩
        · exact .inl rfl

theorem length_wreckedNames (n : Nat) : (wreckedNames n).length = n := by
  induction n with
  | zero => rfl
  | succ n ih => rw [wreckedNames, List.length_cons, ih]

theorem autoName_injective : Function.Injective autoName := by
  intro m n heq
  have hdecimal := congrArg digitsValue (List.append_cancel_left heq)
  rwa [digitsValue_decimal, digitsValue_decimal] at hdecimal

theorem autoName_not_mem_wreckedNames (n : Nat) : autoName (n + 1) ∉ wreckedNames n := by
  rw [mem_wreckedNames]
  rintro ⟨k, hk, heq⟩
  have hsucc := autoName_injective heq
  omega

/-- The engine counts on past the names that became unusable. -/
theorem firstFreeAutoName_wrecked {fx : Engine} (hempty : fx.endpoints = .empty) {n : Nat}
    (hpoisoned : fx.poisonedNames = wreckedNames n) (entityName : Bytes) :
    firstFreeAutoName fx entityName = .ok (autoName (n + 1)) := by
  have havailable : ∀ k, availableTo fx entityName (autoName k) =
      decide (autoName k ∉ wreckedNames n) := by
    intro k
    simp [availableTo, hpoisoned, hempty]
  have hbound : fx.endpoints.size + fx.poisonedNames.length + 1 = n + 1 := by
    rw [hpoisoned, length_wreckedNames, hempty]
    simp [OrderedMap.size, OrderedMap.empty]
  have hcount : endpointCountOf fx entityName < kMaxEndpointsPerEntity := by
    rw [endpointCountOf, hempty]
    exact Nat.succ_pos 63
  have hnone : ((List.range n).map fun k => autoName (k + 1)).find?
      (availableTo fx entityName) = none := by
    rw [List.find?_eq_none, List.forall_mem_map]
    intro k hk
    rw [havailable, decide_eq_true_eq, not_not, mem_wreckedNames]
    exact ⟨k, List.mem_range.mp hk, rfl⟩
  have hchosen : freshAutoName fx entityName = some (autoName (n + 1)) := by
    simp only [freshAutoName, hcount, if_true, hbound]
    rw [List.range_succ, List.map_append, List.find?_append, hnone]
    simp [havailable, autoName_not_mem_wreckedNames]
  rw [firstFreeAutoName, hchosen]
  rfl

/-- The same endpoint under another name. -/
def Establishment.renamed (establishment : Establishment) (name tag : Bytes) : Establishment :=
  { establishment with name, endpoint := { establishment.endpoint with ownerTag := tag } }

/-- An establish without a name depends on the unusable names only through the
name that is chosen. -/
theorem prepareEstablish_unnamed {fx : Engine} {requestJson : Bytes}
    {establishment : Establishment} {poisonedNames : List Bytes} {name : Bytes}
    (hunnamed : (parseJsonObject requestJson >>= requireObject).map
      (fun request => (member? request (text "connectionName")).isNone) = .ok true)
    (hprepared : prepareEstablish fx requestJson = .ok establishment)
    (hpublisher : establishment.endpoint.role = .publisher) (hempty : fx.endpoints = .empty)
    (hname : firstFreeAutoName { fx with poisonedNames } establishment.endpoint.entity = .ok name)
    (hfresh : name ∉ poisonedNames) :
    prepareEstablish { fx with poisonedNames } requestJson = .ok (establishment.renamed name
      (ownerTag fx.configuration establishment.endpoint.entity name)) := by
  unfold prepareEstablish at hprepared ⊢
  simp only [except_bind_eq_ok, check_eq_ok, requireObject_eq_ok] at hprepared hunnamed ⊢
  obtain ⟨u, hstarted, request, ⟨value, hparsed, rfl⟩, u₁, honly, entityName, hentityName, role,
    hrole, datasetName, hdatasetName, address, haddress, h⟩ := hprepared
  refine ⟨u, hstarted, request, ⟨_, hparsed, rfl⟩, u₁, honly, entityName, hentityName, role,
    hrole, datasetName, hdatasetName, address, haddress, ?_⟩
  rcases hentity : findEntity fx entityName with _ | entity
  · simp [hentity] at h
  have hentity' : findEntity { fx with poisonedNames } entityName = some entity := hentity
  simp only [hentity, hentity', except_bind_eq_ok, check_eq_ok, except_pure_eq_ok] at h ⊢
  obtain ⟨role', hrole', name', hname', existing, hexisting, u₂, hbusy, ⟨host, port⟩, hhost,
    dataPlane, hdataPlane, rfl⟩ := h
  have hunnamed' : member? request (text "connectionName") = none := by
    simpa [hparsed, requireObject, bind, Except.bind, pure, Except.pure, Except.map] using hunnamed
  have hnone : existing = none := by
    rw [← (existingEndpoint_eq_ok.1 hexisting).2.1, hempty]
    rfl
  subst hnone
  refine ⟨role', hrole', name, ?_, none, ?_, u₂, hbusy, ⟨host, port⟩, hhost, dataPlane, ?_, rfl⟩
  · rw [connectionNameOf, hunnamed']
    exact hname
  · refine existingEndpoint_eq_ok.2 ⟨hfresh, by simp [hempty], by simp, fun _ => ?_⟩
    exact (existingEndpoint_eq_ok.1 hexisting).2.2.2 rfl
  · -- the data plane of a publisher does not know the name
    change role' = .publisher at hpublisher
    subst hpublisher
    exact hdataPlane

/-- Whether a data plane comes up does not depend on the tag of its endpoint. -/
theorem activate_renamed {configuration : Configuration} {socket : Option Bytes}
    {establishment : Establishment} {pubSub pubSub' : PubSub.Engine}
    (h : activate configuration socket establishment pubSub = .ok pubSub') (name tag : Bytes) :
    ∃ pubSub'', activate configuration socket (establishment.renamed name tag) pubSub =
      .ok pubSub'' := by
  obtain ⟨name', endpoint, folder, dataPlane⟩ := establishment
  rcases dataPlane with ⟨dataset, group⟩ | reader
  · exact ⟨_, PubSub.addDynamicWriterGroup_eq_ok.2
      ⟨(PubSub.addDynamicWriterGroup_eq_ok.1 h).1, rfl⟩⟩
  · obtain ⟨hadmitted, receivers, hacquired, -⟩ := PubSub.addDynamicReader_eq_ok.1 h
    exact ⟨_, PubSub.addDynamicReader_eq_ok.2 ⟨hadmitted, receivers, hacquired, rfl⟩⟩

def endpointsFolderOfA : Bytes := text "AC.FunctionalEntities.A.ConnectionEndpoints"

/-- A server on which the request passes the checks and its data plane comes up. -/
structure Exhaustible (booted : Server) : Prop where
  empty : booted.fx.endpoints = .empty
  unpoisoned : booted.fx.poisonedNames = []
  prepared : ∃ establishment pubSub,
    prepareEstablish booted.fx unnamedRequest = .ok establishment ∧
      activate booted.fx.configuration none establishment booted.pubSub = .ok pubSub ∧
      establishment.endpoint.role = .publisher ∧ establishment.endpoint.entity = text "A" ∧
      establishment.endpoint.statusVariable = none ∧
      establishment.endpointsFolder = endpointsFolderOfA
  fresh : ∀ n, makeChildNodeId endpointsFolderOfA (autoName n) ∉ booted.nodes

/-- After a number of calls whose endpoints could not be completed. -/
structure Wrecked (booted : Server) (n : Nat) (server : Server) : Prop where
  fx : server.fx = { booted.fx with poisonedNames := wreckedNames n }
  pubSub : server.pubSub = booted.pubSub
  nodes : ∀ nodeId ∈ server.nodes, nodeId ∈ booted.nodes ∨
    ∃ k < n, nodeId = makeChildNodeId endpointsFolderOfA (autoName (k + 1))

theorem refuses_status (nodeId : Bytes) :
    statusRefusing.other (makeChildNodeId nodeId (text "Status")) ≠ none := by
  have hsplit : text ".Status" = text "." ++ text "Status" := by decide
  have hsuffix : (text ".Status").isSuffixOf (makeChildNodeId nodeId (text "Status")) = true := by
    rw [List.isSuffixOf_iff_suffix, hsplit, makeChildNodeId, List.append_assoc]
    exact List.suffix_append _ _
  have hrefused : statusRefusing.other (makeChildNodeId nodeId (text "Status")) =
      some (text "BadOutOfMemory") := if_pos hsuffix
  rw [hrefused]
  exact Option.some_ne_none _

/-- The id of an endpoint object ends in a digit. -/
theorem admits_autoName (parent : Bytes) (n : Nat) :
    statusRefusing.other (makeChildNodeId parent (autoName n)) = none := by
  have hsuffix : ¬ (text ".Status").isSuffixOf (makeChildNodeId parent (autoName n)) = true := by
    rw [List.isSuffixOf_iff_suffix]
    rintro ⟨front, heq⟩
    obtain ⟨digits, d, hd, hdecimal⟩ : ∃ digits d, d < 10 ∧ decimal n = digits ++ [digitByte d] := by
      by_cases hn : n < 10
      · exact ⟨[], n, hn, decimal_of_lt hn⟩
      · exact ⟨decimal (n / 10), n % 10, Nat.mod_lt _ (by decide), decimal_of_le (by omega)⟩
    have hstatus : text ".Status" = text ".Statu" ++ [115] := by decide
    rw [hstatus, makeChildNodeId, autoName, hdecimal, ← List.append_assoc, ← List.append_assoc,
      ← List.append_assoc] at heq
    have hlast := (List.append_inj' heq rfl).2
    have hdigit := isDigit_digitByte d hd
    rw [← List.singleton_inj.mp hlast] at hdigit
    cases hdigit
  exact if_neg hsuffix

theorem handle_abandoned {environment : Environment} {requestJson : Bytes} {server : Server}
    {establishment : Establishment} {pubSub : PubSub.Engine} {what : Bytes} {nodes : List Bytes}
    (hprepared : prepareEstablish server.fx requestJson = .ok establishment)
    (hactivated : activate server.fx.configuration environment.socket establishment
      server.pubSub = .ok pubSub)
    (hview : buildEndpointView environment.refusals establishment server.nodes =
      .error what nodes) :
    handle server (.establish environment requestJson) =
      abandon establishment nodes { server with pubSub } := by
  simp only [handle, establishConnections, hprepared, hactivated, hview]

/-- A view whose status variable is refused leaves its object behind. -/
theorem buildEndpointView_refused {refusals : Refusals} {establishment : Establishment}
    {nodes : List Bytes} (hstatus : establishment.endpoint.statusVariable = none)
    (hobject : Addable refusals nodes
      (makeChildNodeId establishment.endpointsFolder establishment.name))
    (hrefused : refusals.other (makeChildNodeId
      (makeChildNodeId establishment.endpointsFolder establishment.name) (text "Status")) ≠ none) :
    ∃ what, buildEndpointView refusals establishment nodes = .error what
      (nodes ++ [makeChildNodeId establishment.endpointsFolder establishment.name]) := by
  rcases addNode_cases refusals (makeChildNodeId
    (makeChildNodeId establishment.endpointsFolder establishment.name) (text "Status"))
    (nodes ++ [makeChildNodeId establishment.endpointsFolder establishment.name]) with
    hok | ⟨what, herror, -⟩
  · exact absurd (addNode_eq_ok hok).1.2 hrefused
  · refine ⟨what, ?_⟩
    simp only [buildEndpointView, hstatus, Option.isSome_none, Bool.false_eq_true, if_false,
      bind, EStateM.bind, addObject_of_addable hobject, addVariable, herror]

theorem wrecked_handle {booted server : Server} {n : Nat} (hbooted : Exhaustible booted)
    (hsound : Sound server) (h : Wrecked booted n server) :
    Wrecked booted (n + 1) (handle server exhausting) ∧
      createdObject server exhausting = some (text "A", autoName (n + 1)) := by
  obtain ⟨hempty, -, ⟨base, pubSub, hprepared, hactivated, hrole, hentity, hstatus, hfolder⟩,
    hfresh⟩ := hbooted
  obtain ⟨fx, pubSub', nodes⟩ := server
  obtain ⟨rfl, rfl, hnodes⟩ := h
  dsimp only at hnodes
  have hname : firstFreeAutoName { booted.fx with poisonedNames := wreckedNames n }
      base.endpoint.entity = .ok (autoName (n + 1)) :=
    firstFreeAutoName_wrecked (by exact hempty) rfl base.endpoint.entity
  have hprepared' := prepareEstablish_unnamed (by decide) hprepared hrole hempty hname
    (autoName_not_mem_wreckedNames n)
  obtain ⟨establishment, hestablishment⟩ : ∃ establishment, establishment =
      base.renamed (autoName (n + 1)) (ownerTag booted.fx.configuration base.endpoint.entity
        (autoName (n + 1))) := ⟨_, rfl⟩
  have hstatus' : establishment.endpoint.statusVariable = none := hestablishment ▸ hstatus
  have hentity' : establishment.endpoint.entity = text "A" := hestablishment ▸ hentity
  have hfolder' : establishment.endpointsFolder = endpointsFolderOfA := hestablishment ▸ hfolder
  have hname' : establishment.name = autoName (n + 1) := hestablishment ▸ rfl
  obtain ⟨pubSub'', hactivated'⟩ := activate_renamed hactivated (autoName (n + 1))
    (ownerTag booted.fx.configuration base.endpoint.entity (autoName (n + 1)))
  rw [← hestablishment] at hprepared' hactivated'
  have haddable : Addable statusRefusing nodes
      (makeChildNodeId establishment.endpointsFolder establishment.name) := by
    rw [hfolder', hname']
    refine ⟨?_, admits_autoName _ _⟩
    intro hmem
    rcases hnodes _ hmem with hmem | ⟨k, hk, heq⟩
    · exact hfresh _ hmem
    · have hsucc := autoName_injective (List.append_cancel_left heq)
      omega
  obtain ⟨what, hview⟩ := buildEndpointView_refused hstatus' haddable (refuses_status _)
  have hcreated : createdObject ⟨{ booted.fx with poisonedNames := wreckedNames n },
      booted.pubSub, nodes⟩ exhausting = _ :=
    createdObject_of_activated hprepared' hactivated'
  rw [if_pos ⟨hstatus', haddable⟩, hentity', hname'] at hcreated
  refine ⟨?_, hcreated⟩
  have hgiven : GivenUp ⟨none, statusRefusing⟩ establishment
      ⟨{ booted.fx with poisonedNames := wreckedNames n }, booted.pubSub, nodes⟩ _ :=
    givenUp_abandon hsound hprepared' hactivated' hview
  have hhandle : handle ⟨{ booted.fx with poisonedNames := wreckedNames n }, booted.pubSub,
      nodes⟩ (.establish ⟨none, statusRefusing⟩ unnamedRequest) = abandon establishment _ _ :=
    handle_abandoned hprepared' hactivated' hview
  rw [exhausting, hhandle]
  exact
    { fx := hgiven.fx.trans (by rw [hname', wreckedNames])
      pubSub := hgiven.pubSub fun other endpoint hfind => by simp [hempty] at hfind
      nodes := by
        intro nodeId hmem
        rcases List.mem_append.mp hmem with hmem | hmem
        · refine (hnodes nodeId hmem).imp_right ?_
          rintro ⟨k, hk, heq⟩
          exact ⟨k, by omega, heq⟩
        · refine .inr ⟨n, Nat.lt_succ_self n, ?_⟩
          rw [List.mem_singleton.mp hmem, hfolder', hname'] }

/-- Every call leaves one more object. -/
theorem objectsUnder_exhausted {booted : Server} (hbooted : Exhaustible booted)
    (hsound : Sound booted) (n : Nat) : ∃ s,
      run survey ⟨booted, []⟩ (List.replicate n exhausting) = some s ∧ Sound s.server ∧
        Wrecked booted n s.server ∧ objectsUnder s (text "A") = n := by
  induction n with
  | zero =>
      refine ⟨_, rfl, hsound, ⟨?_, rfl, fun _ => .inl⟩, rfl⟩
      rw [wreckedNames, ← hbooted.unpoisoned]
  | succ n ih =>
      obtain ⟨s, hrun, hsound, hwrecked, hcount⟩ := ih
      obtain ⟨hwrecked', hcreated⟩ := wrecked_handle hbooted hsound hwrecked
      refine ⟨⟨handle s.server exhausting,
        s.objects ++ (createdObject s.server exhausting).toList⟩, ?_,
        sound_handle hsound exhausting, hwrecked', ?_⟩
      · rw [List.replicate_succ', run_append hrun]
        rfl
      · rw [objectsUnder_survey, hcreated, Option.map_some, if_pos rfl]
        exact congrArg (· + 1) hcount

theorem exhaustible_plantServer : Exhaustible plantServer := by
  obtain ⟨hempty, hunpoisoned, -⟩ := boots_frame boots_plantServer
  refine ⟨hempty, hunpoisoned, ?_, ?_⟩
  · have hactivated : (prepareEstablish plantServer.fx unnamedRequest >>= fun establishment =>
        (activate plantServer.fx.configuration none establishment plantServer.pubSub).map fun _ =>
          (establishment.endpoint.role, establishment.endpoint.entity,
            establishment.endpoint.statusVariable, establishment.endpointsFolder)) =
        .ok (.publisher, text "A", none, endpointsFolderOfA) := by
      decide +kernel
    obtain ⟨establishment, hprepared, h⟩ := except_bind_eq_ok.1 hactivated
    obtain ⟨pubSub, hactivated, heq⟩ := except_map_eq_ok.1 h
    simp only [Prod.mk.injEq] at heq
    exact ⟨establishment, pubSub, hprepared, hactivated, heq⟩
  · intro n hmem
    have hnodes : ∀ nodeId ∈ plantServer.nodes,
        (endpointsFolderOfA ++ text "." ++ text "cep-").isPrefixOf nodeId = false := by
      decide
    have hprefix : (endpointsFolderOfA ++ text "." ++ text "cep-").isPrefixOf
        (makeChildNodeId endpointsFolderOfA (autoName n)) = true := by
      rw [List.isPrefixOf_iff_prefix, makeChildNodeId, autoName, ← List.append_assoc]
      exact List.prefix_append _ _
    rw [hnodes _ hmem] at hprefix
    cases hprefix

theorem exhausted_not_withinCeiling :
    ¬ ∀ server, Boots server → ∀ events, Throughout survey WithinCeiling ⟨server, []⟩ events := by
  intro h
  obtain ⟨s, hrun, -, -, hcount⟩ :=
    objectsUnder_exhausted exhaustible_plantServer (sound_of_boots boots_plantServer) 65
  have hwithin := (h plantServer boots_plantServer _).last hrun (text "A")
  rw [hcount] at hwithin
  exact absurd hwithin (by decide)

theorem withinCeiling_plantServer :
    Throughout survey WithinCeiling ⟨plantServer, []⟩
      [.establish ⟨none, permissive⟩ (publishRequest "A" "o" "a"), .close (text "a"),
        .establish ⟨none, permissive⟩ (publishRequest "A" "p" "a")] :=
  withinCeiling_of_completesView boots_plantServer (by decide +kernel)

end Exhaustion

end Fx

end Supernova
