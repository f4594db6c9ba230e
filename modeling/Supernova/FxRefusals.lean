/-
Refused calls.  A call that is refused changes nothing, except an establish that
is given up over its endpoint view: nodes are permanent, so those already added
stay and the name is not used again.
-/
import Supernova.FxEndpoints

namespace Supernova

namespace Fx

section View

/-- The nodes of the view of an endpoint, in the order of their creation. -/
def endpointNodes (folder name : Bytes) : List Bytes :=
  let endpointNode := makeChildNodeId folder name
  [endpointNode, makeChildNodeId endpointNode (text "Status"),
    makeChildNodeId endpointNode (text "Address"), makeChildNodeId endpointNode (text "Dataset")]

theorem addNode_cases (refusals : Refusals) (nodeId : Bytes) (nodes : List Bytes) :
    addNode refusals nodeId nodes = .ok ⟨⟩ (nodes ++ [nodeId]) ∨
    ∃ what, addNode refusals nodeId nodes = .error what nodes ∧
      (nodeId ∈ nodes ∨ refusals.other nodeId ≠ none) := by
  by_cases hmem : nodeId ∈ nodes
  · refine .inr ⟨text "While adding node: " ++ refusals.duplicate nodeId, ?_, .inl hmem⟩
    simp only [addNode, bind, EStateM.bind, get, getThe, MonadStateOf.get, EStateM.get, hmem,
      if_true]
    rfl
  rcases hother : refusals.other nodeId with _ | error
  · refine .inl ?_
    simp only [addNode, bind, EStateM.bind, get, getThe, MonadStateOf.get, EStateM.get, hmem,
      if_false, hother]
    rfl
  · refine .inr ⟨text "While adding node: " ++ error, ?_, .inr (by simp)⟩
    simp only [addNode, bind, EStateM.bind, get, getThe, MonadStateOf.get, EStateM.get, hmem,
      if_false, hother]
    rfl

/-- Adding nodes in order stops at the first that is refused. -/
theorem forM_addNode (refusals : Refusals) (ids nodes : List Bytes) :
    ids.forM (addNode refusals) nodes = .ok ⟨⟩ (nodes ++ ids) ∨
    ∃ created refused rest what, ids = created ++ refused :: rest ∧
      ids.forM (addNode refusals) nodes = .error what (nodes ++ created) ∧
      (refused ∈ nodes ++ created ∨ refusals.other refused ≠ none) := by
  induction ids generalizing nodes with
  | nil =>
      left
      rw [List.append_nil]
      rfl
  | cons nodeId ids ih =>
      rcases addNode_cases refusals nodeId nodes with hok | ⟨what, herror, hwhy⟩
      · have hforM : (nodeId :: ids).forM (addNode refusals) nodes =
            ids.forM (addNode refusals) (nodes ++ [nodeId]) := by
          change EStateM.bind (addNode refusals nodeId)
            (fun _ => ids.forM (addNode refusals)) nodes = _
          rw [EStateM.bind, hok]
        rw [hforM]
        rcases ih (nodes ++ [nodeId]) with hrest | ⟨created, refused, rest, what, hids, hrest, hwhy⟩
        · left
          rw [hrest, List.append_assoc, List.singleton_append]
        · right
          refine ⟨nodeId :: created, refused, rest, what, by rw [hids, List.cons_append], ?_, ?_⟩
          · rw [hrest, List.append_assoc, List.singleton_append]
          · rwa [List.append_assoc, List.singleton_append] at hwhy
      · right
        refine ⟨[], nodeId, ids, what, rfl, ?_, by rwa [List.append_nil]⟩
        change EStateM.bind (addNode refusals nodeId)
          (fun _ => ids.forM (addNode refusals)) nodes = _
        rw [EStateM.bind, herror, List.append_nil]

/-- A view is not built because one of its nodes is refused. -/
theorem buildEndpointView_error {refusals : Refusals} {establishment : Establishment}
    {nodes nodes' : List Bytes} {what : Bytes}
    (h : buildEndpointView refusals establishment nodes = .error what nodes') :
    establishment.endpoint.statusVariable = none ∧
      ∃ created refused rest,
        endpointNodes establishment.endpointsFolder establishment.name =
          created ++ refused :: rest ∧
        nodes' = nodes ++ created ∧ (refused ∈ nodes' ∨ refusals.other refused ≠ none) := by
  by_cases hview : establishment.endpoint.statusVariable.isSome = true
  · rw [buildEndpointView, if_pos hview] at h
    cases h
  have hnodes : ∃ endpoint : Endpoint, buildEndpointView refusals establishment =
      (endpointNodes establishment.endpointsFolder establishment.name).forM (addNode refusals) >>=
        fun _ => pure endpoint := by
    refine ⟨{ establishment.endpoint with
      statusVariable := some .initial
      addressVariable := some []
      datasetVariable := some [] }, ?_⟩
    unfold buildEndpointView
    rw [if_neg hview]
    simp only [addObject, addVariable, endpointNodes, List.forM_eq_forM, List.forM_cons,
      List.forM_nil, bind_assoc, pure_bind]
  obtain ⟨endpoint, hnodes⟩ := hnodes
  rw [hnodes] at h
  simp only [bind, EStateM.bind] at h
  refine ⟨by simpa using hview, ?_⟩
  rcases forM_addNode refusals (endpointNodes establishment.endpointsFolder establishment.name)
    nodes with hok | ⟨created, refused, rest, what', hids, herror, hwhy⟩
  · rw [hok] at h
    cases h
  · rw [herror] at h
    cases h
    exact ⟨created, refused, rest, hids, rfl, hwhy⟩

end View

/-- What an establish leaves that was given up over its view after its data
plane came up. -/
structure GivenUp (environment : Environment) (establishment : Establishment)
    (server server' : Server) : Prop where
  activated : ∃ pubSub, activate server.fx.configuration environment.socket establishment
    server.pubSub = .ok pubSub
  fx : server'.fx =
    { server.fx with poisonedNames := establishment.name :: server.fx.poisonedNames }
  nodes : ∃ created refused rest,
    endpointNodes establishment.endpointsFolder establishment.name =
      created ++ refused :: rest ∧
    server'.nodes = server.nodes ++ created ∧
    (refused ∈ server'.nodes ∨ environment.refusals.other refused ≠ none)
  /-- Other connections with this owner tag are another matter. -/
  pubSub : (∀ other endpoint, server.fx.endpoints.find? other = some endpoint →
      endpoint.active = true → endpoint.ownerTag ≠ establishment.endpoint.ownerTag) →
    server'.pubSub = server.pubSub

theorem givenUp_abandon {environment : Environment} {requestJson : Bytes} {server : Server}
    {establishment : Establishment} {pubSub : PubSub.Engine} {what : Bytes} {nodes : List Bytes}
    (h : Sound server) (hprepared : prepareEstablish server.fx requestJson = .ok establishment)
    (hactivated : activate server.fx.configuration environment.socket establishment
      server.pubSub = .ok pubSub)
    (hview : buildEndpointView environment.refusals establishment server.nodes =
      .error what nodes) :
    GivenUp environment establishment server
      (abandon establishment nodes { server with pubSub }) where
  activated := ⟨pubSub, hactivated⟩
  fx := by
    obtain ⟨request, entity, existing, hprepared⟩ := prepareEstablish_eq_ok hprepared
    have hfresh := (existingEndpoint_eq_ok.1 hprepared.existingFound).1
    rw [abandon, List.insert_of_not_mem hfresh]
  nodes := (buildEndpointView_error hview).2
  pubSub := by
    intro hdistinct
    obtain ⟨request, entity, existing, hprepared⟩ := prepareEstablish_eq_ok hprepared
    exact removeDynamic_activate hactivated (hprepared.ownerTag_free h hdistinct)

/-- A refused call changes nothing; only an establish whose view could not be
built after its data plane came up leaves its name poisoned and the nodes that
were added. -/
theorem refused_unchanged {server : Server} (h : Reachable server) :
    (∀ requestText, (closeConnections requestText server).2.refused = true →
      (closeConnections requestText server).1 = server) ∧
    ∀ environment requestJson,
      (establishConnections environment requestJson server).2.refused = true →
      (establishConnections environment requestJson server).1 = server ∨
      ∃ establishment, prepareEstablish server.fx requestJson = .ok establishment ∧
        GivenUp environment establishment server
          (establishConnections environment requestJson server).1 := by
  have hsound := sound_of_reachable h
  constructor
  · intro requestText hrefused
    rcases closeConnections_cases requestText server with
      ⟨heq, -, -⟩ | ⟨name, endpoint, -, -, hgood⟩
    · exact heq
    · rw [hgood] at hrefused
      cases hrefused
  · intro environment requestJson hrefused
    have hcases := establishConnections_establishes hsound.publisherId environment requestJson
    generalize establishConnections environment requestJson server = result at hcases hrefused
    obtain ⟨server', outcome⟩ := result
    cases hcases with
    | refused what _ => exact .inl rfl
    | abandoned hprepared hactivated hview =>
        exact .inr ⟨_, hprepared, givenUp_abandon hsound hprepared hactivated hview⟩
    | established hprepared hactivated hview hdetail => cases hrefused

section Plant

/-- A component with two entities, whose output datasets have one field each. -/
def plant : Configuration :=
  let dataset (name : String) (writerGroupId : UInt16) : OutputDatasetConfig :=
    ⟨text name, writerGroupId, 1, ⟨0x4059000000000000⟩, [⟨text "t", text "dev.t"⟩]⟩
  ⟨text "AC", .uInt16, 7,
    [⟨text "A", [dataset "o" 1, dataset "p" 2], []⟩, ⟨text "A/B", [dataset "o" 3], []⟩]⟩

/-- An address space that refuses no node but those that exist. -/
def permissive : Refusals := ⟨fun nodeId => nodeId, fun _ => none⟩

def plantServer : Server :=
  match startIfStaged (fun _ => some (some 0)) permissive
      ⟨{ staged := some plant }, PubSub.initial, []⟩ with
  | .ok server => server
  | .error _ => ⟨{}, PubSub.initial, []⟩

theorem boots_plantServer : Boots plantServer :=
  ⟨PubSub.initial, plant, plant, fun _ => some (some 0), permissive, [], .inl rfl,
    by decide +kernel⟩

/-- A request to publish a dataset under a name. -/
def publishRequest (entity dataset name : String) : Bytes :=
  text "\x7b\"functionalEntity\":\"" ++ text entity ++ text "\",\"role\":\"publisher\"" ++
    text ",\"dataset\":\"" ++ text dataset ++ text "\",\"address\":\"opc.udp://h:1\"" ++
    text ",\"connectionName\":\"" ++ text name ++ text "\"\x7d"

/-- After a connection named `a.Status`, the view of one named `a` needs a node
that exists. -/
def shadowed : Server :=
  handle plantServer (.establish ⟨none, permissive⟩ (publishRequest "A" "o" "a.Status"))

theorem reachable_shadowed : Reachable shadowed :=
  ⟨plantServer, [_], boots_plantServer, (List.foldl_cons ..).trans (List.foldl_nil ..)⟩

/-- The request for `a` is refused when its first node is there, and `a` cannot be closed. -/
theorem refused_shadowed :
    (closeConnections (text "a") shadowed).2.refused = true ∧
      (establishConnections ⟨none, permissive⟩ (publishRequest "A" "p" "a")
        shadowed).2.refused = true ∧
      text "AC.FunctionalEntities.A.ConnectionEndpoints.a" ∉ shadowed.nodes ∧
      text "AC.FunctionalEntities.A.ConnectionEndpoints.a" ∈
        (establishConnections ⟨none, permissive⟩ (publishRequest "A" "p" "a")
          shadowed).1.nodes := by
  decide +kernel

/-- What a client may rely on is as it was: the endpoints, the names that can be
used, the data plane and the set of nodes. -/
def Untouched (server server' : Server) : Prop :=
  server'.fx.endpoints = server.fx.endpoints ∧
  (∀ entityName name, (existingEndpoint server'.fx entityName name).isOk =
    (existingEndpoint server.fx entityName name).isOk) ∧
  server'.pubSub = server.pubSub ∧ ∀ nodeId, nodeId ∈ server'.nodes ↔ nodeId ∈ server.nodes

theorem refused_not_untouched :
    ¬ ∀ server, Reachable server → ∀ environment requestJson,
      (establishConnections environment requestJson server).2.refused = true →
      Untouched server (establishConnections environment requestJson server).1 := by
  intro h
  obtain ⟨-, hrefused, habsent, hadded⟩ := refused_shadowed
  obtain ⟨-, -, -, hnodes⟩ := h shadowed reachable_shadowed _ _ hrefused
  exact habsent ((hnodes _).mp hadded)

theorem refused_unchanged_shadowed :
    (closeConnections (text "a") shadowed).1 = shadowed ∧
      ∃ establishment,
        prepareEstablish shadowed.fx (publishRequest "A" "p" "a") = .ok establishment ∧
        GivenUp ⟨none, permissive⟩ establishment shadowed
          (establishConnections ⟨none, permissive⟩ (publishRequest "A" "p" "a") shadowed).1 := by
  obtain ⟨hclose, hestablish⟩ := refused_unchanged reachable_shadowed
  obtain ⟨hclosed, hrefused, habsent, hadded⟩ := refused_shadowed
  refine ⟨hclose (text "a") hclosed, ?_⟩
  refine (hestablish ⟨none, permissive⟩ (publishRequest "A" "p" "a") hrefused).resolve_left ?_
  intro hsame
  rw [hsame] at hadded
  exact habsent hadded

end Plant

end Fx

end Supernova
