/-
The endpoint table under the operations of the FX engine, and what holds of the
table and the owner tags in every state that a server can reach.
-/
import Supernova.FxRuns
import Supernova.PubSubOwners

namespace Supernova

attribute [local semireducible] ByteArray.toList.loop

namespace Fx

section Endpoints

/-- An endpoint without what its status variable shows. -/
def Endpoint.core (endpoint : Endpoint) : Endpoint := { endpoint with statusVariable := none }

@[simp] theorem core_setEndpointStatus (endpoint : Endpoint) (status : EndpointStatus) :
    (setEndpointStatus endpoint status).core = endpoint.core := rfl

@[simp] theorem statusVariable_setEndpointStatus (endpoint : Endpoint)
    (status : EndpointStatus) :
    (setEndpointStatus endpoint status).statusVariable =
      endpoint.statusVariable.map fun _ => status := rfl

theorem Endpoint.core_ext {endpoint endpoint' : Endpoint} (h : endpoint.core = endpoint'.core) :
    endpoint.entity = endpoint'.entity ∧ endpoint.dataset = endpoint'.dataset ∧
      endpoint.role = endpoint'.role ∧ endpoint.ownerTag = endpoint'.ownerTag ∧
      endpoint.active = endpoint'.active := by
  simp only [Endpoint.core, Endpoint.mk.injEq] at h
  exact ⟨h.1, h.2.1, h.2.2.1, h.2.2.2.2.1, h.2.2.2.2.2.1⟩

/-- The endpoint that an establish leaves in the table. -/
def establishedEndpoint (endpoint : Endpoint) (status : EndpointStatus) : Endpoint :=
  setEndpointStatus (refreshEndpointView { endpoint with active := true }) status

theorem showStatus_storeEndpoint (name : Bytes) (endpoint : Endpoint) (status : EndpointStatus)
    (fx : Engine) :
    showStatus name status (storeEndpoint name endpoint fx) =
      { fx with
        endpoints :=
          ((fx.endpoints.assign name (refreshEndpointView { endpoint with active := true })).assign
            name (establishedEndpoint endpoint status)) } := by
  simp only [showStatus, storeEndpoint, OrderedMap.find?_assign, if_true]
  rfl

theorem find?_established (name other : Bytes) (endpoint : Endpoint) (status : EndpointStatus)
    (fx : Engine) :
    (showStatus name status (storeEndpoint name endpoint fx)).endpoints.find? other =
      if other = name then some (establishedEndpoint endpoint status)
      else fx.endpoints.find? other := by
  rw [showStatus_storeEndpoint, OrderedMap.find?_assign, OrderedMap.find?_assign]
  split <;> rfl

/-- Showing a status changes nothing else. -/
theorem showStatus_frame (name : Bytes) (status : EndpointStatus) (fx : Engine) :
    ∃ endpoints, showStatus name status fx = { fx with endpoints } ∧
      ∀ other, (endpoints.find? other).map Endpoint.core =
        (fx.endpoints.find? other).map Endpoint.core := by
  unfold showStatus
  rcases hfind : fx.endpoints.find? name with _ | endpoint
  · exact ⟨fx.endpoints, rfl, fun other => rfl⟩
  · refine ⟨_, rfl, fun other => ?_⟩
    rw [OrderedMap.find?_assign]
    split
    · rename_i heq
      rw [heq, hfind]
      rfl
    · rfl

theorem markSubscriberOperational_frame (lockFree : Bool) (name : Bytes) (fx : Engine) :
    ∃ endpoints, (markSubscriberOperational lockFree name fx).1 = { fx with endpoints } ∧
      ∀ other, (endpoints.find? other).map Endpoint.core =
        (fx.endpoints.find? other).map Endpoint.core := by
  unfold markSubscriberOperational
  split
  · exact ⟨fx.endpoints, rfl, fun other => rfl⟩
  split
  · exact ⟨fx.endpoints, rfl, fun other => rfl⟩
  split
  · exact ⟨fx.endpoints, rfl, fun other => rfl⟩
  · exact showStatus_frame name .operational fx

/-- The callbacks of a datagram change no more than what the endpoints show. -/
theorem foldl_signal_frame (reactions : List (PubSub.ReaderKey × PubSub.Reaction))
    (fx : Engine) :
    ∃ endpoints, reactions.foldl signal fx = { fx with endpoints } ∧
      ∀ other, (endpoints.find? other).map Endpoint.core =
        (fx.endpoints.find? other).map Endpoint.core := by
  induction reactions generalizing fx with
  | nil => exact ⟨fx.endpoints, rfl, fun other => rfl⟩
  | cons reaction reactions ih =>
      have hsignal : ∃ endpoints, signal fx reaction = { fx with endpoints } ∧
          ∀ other, (endpoints.find? other).map Endpoint.core =
            (fx.endpoints.find? other).map Endpoint.core := by
        unfold signal
        split
        · exact ⟨fx.endpoints, rfl, fun other => rfl⟩
        · exact markSubscriberOperational_frame true _ fx
      obtain ⟨endpoints, hfx, hcore⟩ := hsignal
      obtain ⟨endpoints', hfx', hcore'⟩ := ih (signal fx reaction)
      refine ⟨endpoints', ?_, fun other => ?_⟩
      · rw [List.foldl_cons, hfx', hfx]
      · rw [hcore', hfx, hcore]

/-- A built view adds variables to the endpoint and nothing else. -/
theorem buildEndpointView_ok {refusals : Refusals} {establishment : Establishment}
    {nodes nodes' : List Bytes} {endpoint : Endpoint}
    (h : buildEndpointView refusals establishment nodes = .ok endpoint nodes') :
    endpoint.entity = establishment.endpoint.entity ∧
      endpoint.dataset = establishment.endpoint.dataset ∧
      endpoint.role = establishment.endpoint.role ∧
      endpoint.ownerTag = establishment.endpoint.ownerTag ∧
      endpoint.active = establishment.endpoint.active := by
  unfold buildEndpointView at h
  by_cases hview : establishment.endpoint.statusVariable.isSome = true
  · rw [if_pos hview] at h
    cases h
    exact ⟨rfl, rfl, rfl, rfl, rfl⟩
  · rw [if_neg hview] at h
    simp only [bind, EStateM.bind] at h
    split at h
    · split at h
      · split at h
        · split at h
          · cases h
            exact ⟨rfl, rfl, rfl, rfl, rfl⟩
          · cases h
        · cases h
      · cases h
    · cases h

/-- What the taking down of an endpoint keeps, the loop of `shutdown` keeps. -/
theorem foldl_shutdownEndpoint {I : Server → Prop}
    (hkeep : ∀ server name endpoint, I server → server.fx.endpoints.find? name = some endpoint →
      endpoint.active = true → I (takeDown name endpoint server))
    {entries : List (Bytes × Endpoint)} (hnodup : (entries.map Prod.fst).Nodup)
    {server : Server}
    (hfind : ∀ entry ∈ entries, server.fx.endpoints.find? entry.1 = some entry.2)
    (hserver : I server) : I (entries.foldl shutdownEndpoint server) := by
  induction entries generalizing server with
  | nil => exact hserver
  | cons entry entries ih =>
      rw [List.map_cons, List.nodup_cons] at hnodup
      rw [List.forall_mem_cons] at hfind
      rw [List.foldl_cons]
      unfold shutdownEndpoint
      by_cases hactive : entry.2.active = true
      · rw [if_pos hactive]
        refine ih hnodup.2 (fun entry' hmem => ?_) (hkeep _ _ _ hserver hfind.1 hactive)
        have hne : entry'.1 ≠ entry.1 :=
          fun heq => hnodup.1 (heq ▸ List.mem_map_of_mem hmem)
        rw [takeDown, OrderedMap.find?_assign, if_neg hne]
        exact hfind.2 entry' hmem
      · rw [if_neg hactive]
        exact ih hnodup.2 hfind.2 hserver

/-- A property of all states that does not depend on whether FX is started is
kept by `shutdown`. -/
theorem keeps_shutdown {I : Server → Prop}
    (hkeep : ∀ server name endpoint, I server → server.fx.endpoints.find? name = some endpoint →
      endpoint.active = true → I (takeDown name endpoint server))
    (hstarted : ∀ server, I server → I { server with fx := { server.fx with started := false } })
    {server : Server} (hserver : I server) : I (shutdown server) := by
  unfold shutdown
  split
  · exact hserver
  · apply hstarted
    apply foldl_shutdownEndpoint hkeep _ _ hserver
    · rw [List.Nodup, List.pairwise_map]
      exact server.fx.endpoints.sorted.imp fun hlt heq => absurd (heq ▸ hlt) (lt_irrefl _)
    · rintro ⟨name, endpoint⟩ hentry
      exact (OrderedMap.mem_entries_iff _ name endpoint).mp hentry

end Endpoints

section DataPlane

variable {configuration : Configuration} {socket : Option Bytes}
  {establishment : Establishment} {pubSub pubSub' : PubSub.Engine}

/-- The activation registers one entity under the tag of the endpoint. -/
theorem ownerTags_activate
    (h : activate configuration socket establishment pubSub = .ok pubSub') :
    (PubSub.ownerTags pubSub').Perm
      (establishment.endpoint.ownerTag :: PubSub.ownerTags pubSub) := by
  unfold activate at h
  split at h
  · exact PubSub.ownerTags_addDynamicWriterGroup h
  · exact PubSub.ownerTags_addDynamicReader h

theorem running_activate
    (h : activate configuration socket establishment pubSub = .ok pubSub') :
    pubSub'.running = true := by
  unfold activate at h
  split at h
  · exact PubSub.running_addDynamicWriterGroup h
  · exact PubSub.running_addDynamicReader h

/-- Undoing an activation restores the engine, if the tag was free before. -/
theorem removeDynamic_activate
    (h : activate configuration socket establishment pubSub = .ok pubSub')
    (hfree : establishment.endpoint.ownerTag ∉ PubSub.ownerTags pubSub) :
    PubSub.removeDynamic pubSub' establishment.endpoint.ownerTag = pubSub := by
  unfold activate at h
  split at h
  · exact PubSub.removeDynamic_addDynamicWriterGroup h hfree
  · exact PubSub.removeDynamic_addDynamicReader h hfree

end DataPlane

section Reachable

/-- A connection holds the owner tag of its endpoint while that is active. -/
def Holds (fx : Engine) (name tag : Bytes) : Prop :=
  ∃ endpoint, fx.endpoints.find? name = some endpoint ∧ endpoint.active = true ∧
    endpoint.ownerTag = tag

def Owned (fx : Engine) (tag : Bytes) : Prop := ∃ name, Holds fx name tag

/-- What holds in every reachable state: the publish/subscribe engine runs, the
endpoints are tagged by their names, and every dynamic entity has an owner. -/
structure Sound (server : Server) : Prop where
  publisherId : server.fx.configuration.publisherId.toNat ≤ kJsonExactIntegerLimit
  running : server.pubSub.running = true
  tagged : ∀ name endpoint, server.fx.endpoints.find? name = some endpoint →
    endpoint.ownerTag = ownerTag server.fx.configuration endpoint.entity name
  owned : ∀ tag ∈ PubSub.ownerTags server.pubSub, tag = [] ∨ Owned server.fx tag

theorem ownerTag_ne_nil (configuration : Configuration) (entityName name : Bytes) :
    ownerTag configuration entityName name ≠ [] := by
  have hfx : text "fx:" ≠ [] := by decide
  simp [ownerTag, hfx]

/-- A change of what the endpoints show keeps the owners. -/
theorem holds_of_core {fx fx' : Engine} {name tag : Bytes}
    (hcore : ∀ other, (fx'.endpoints.find? other).map Endpoint.core =
      (fx.endpoints.find? other).map Endpoint.core) (h : Holds fx name tag) :
    Holds fx' name tag := by
  obtain ⟨endpoint, hfind, hactive, htag⟩ := h
  have hfind' := hcore name
  rw [hfind, Option.map_some, Option.map_eq_some_iff] at hfind'
  obtain ⟨endpoint', hfind', heq⟩ := hfind'
  obtain ⟨-, -, -, htag', hactive'⟩ := Endpoint.core_ext heq
  exact ⟨endpoint', hfind', by rw [hactive', hactive], by rw [htag', htag]⟩

theorem sound_of_core {fx : Engine} {pubSub pubSub' : PubSub.Engine} {nodes nodes' : List Bytes}
    {endpoints : OrderedMap Bytes Endpoint}
    (hcore : ∀ other, (endpoints.find? other).map Endpoint.core =
      (fx.endpoints.find? other).map Endpoint.core)
    (hrunning : pubSub'.running = pubSub.running)
    (htags : PubSub.ownerTags pubSub' = PubSub.ownerTags pubSub)
    (h : Sound ⟨fx, pubSub, nodes⟩) : Sound ⟨{ fx with endpoints }, pubSub', nodes'⟩ where
  publisherId := h.publisherId
  running := hrunning.trans h.running
  tagged := by
    intro name endpoint hfind
    have hfind' := hcore name
    change endpoints.find? name = some endpoint at hfind
    rw [hfind, Option.map_some, eq_comm, Option.map_eq_some_iff] at hfind'
    obtain ⟨endpoint', hfind', heq⟩ := hfind'
    obtain ⟨hentity, -, -, htag, -⟩ := Endpoint.core_ext heq
    rw [← hentity, ← htag]
    exact h.tagged name endpoint' hfind'
  owned := by
    intro tag htag
    change tag ∈ PubSub.ownerTags pubSub' at htag
    rw [htags] at htag
    exact (h.owned tag htag).imp_right fun ⟨name, hholds⟩ => ⟨name, holds_of_core hcore hholds⟩

theorem sound_takeDown {server : Server} {name : Bytes} {endpoint : Endpoint}
    (h : Sound server) (hfind : server.fx.endpoints.find? name = some endpoint) :
    Sound (takeDown name endpoint server) where
  publisherId := h.publisherId
  running := (PubSub.running_removeDynamic).trans h.running
  tagged := by
    intro other endpoint' hfind'
    rcases OrderedMap.find?_assign_eq_some.1 hfind' with ⟨rfl, rfl⟩ | ⟨-, hfind'⟩
    · exact h.tagged other endpoint hfind
    · exact h.tagged other endpoint' hfind'
  owned := by
    intro tag htag
    simp only [takeDown, PubSub.ownerTags_removeDynamic h.running, List.mem_filter,
      decide_eq_true_eq] at htag
    refine (h.owned tag htag.1).imp_right ?_
    rintro ⟨other, endpoint', hfind', hactive, htag'⟩
    have hne : other ≠ name := by
      rintro rfl
      rw [hfind, Option.some.injEq] at hfind'
      exact htag.2 (by rw [← htag', hfind'])
    refine ⟨other, endpoint', ?_, hactive, htag'⟩
    rw [takeDown, OrderedMap.find?_assign, if_neg hne]
    exact hfind'

/-- The endpoint of a request is not active when the request passes the checks. -/
theorem Prepared.not_active {fx : Engine} {requestJson : Bytes} {establishment : Establishment}
    {request : Members} {entity : EntityRuntime} {existing : Option Endpoint}
    (h : Prepared fx requestJson establishment request entity existing) {endpoint : Endpoint}
    (hfind : fx.endpoints.find? establishment.name = some endpoint) : endpoint.active = false := by
  obtain ⟨-, hexisting, hfree, -⟩ := existingEndpoint_eq_ok.1 h.existingFound
  exact (hfree endpoint (hexisting.symm.trans hfind)).1

theorem sound_establishes {environment : Environment} {requestJson : Bytes}
    {server server' : Server} {outcome : Outcome} (h : Sound server)
    (hestablishes : Establishes environment requestJson server server' outcome) :
    Sound server' := by
  cases hestablishes with
  | refused what _ => exact h
  | @abandoned establishment pubSub what nodes hprepared hactivated hview =>
      have hrunning := running_activate hactivated
      refine ⟨h.publisherId, PubSub.running_removeDynamic.trans hrunning, h.tagged, ?_⟩
      intro tag htag
      simp only [abandon, PubSub.ownerTags_removeDynamic hrunning, List.mem_filter,
        decide_eq_true_eq, (ownerTags_activate hactivated).mem_iff, List.mem_cons] at htag
      exact h.owned tag (htag.1.resolve_left htag.2)
  | @established establishment pubSub endpoint nodes detail hprepared hactivated hview hdetail =>
      obtain ⟨request, entity, existing, hprepared⟩ := prepareEstablish_eq_ok hprepared
      obtain ⟨hentity, -, -, htag', -⟩ := buildEndpointView_ok hview
      have hconfiguration : (showStatus establishment.name (reconciledStatus establishment pubSub)
          (storeEndpoint establishment.name endpoint server.fx)).configuration =
            server.fx.configuration := by
        rw [showStatus_storeEndpoint]
      refine ⟨by rw [hconfiguration]; exact h.publisherId, running_activate hactivated, ?_, ?_⟩
      · intro other endpoint' hfind'
        rw [find?_established] at hfind'
        rw [hconfiguration]
        split at hfind'
        · rename_i heq
          rw [← Option.some.inj hfind', heq]
          change endpoint.ownerTag = ownerTag _ endpoint.entity _
          rw [htag', hentity]
          exact hprepared.ownerTag
        · exact h.tagged other endpoint' hfind'
      · intro tag htag
        rw [(ownerTags_activate hactivated).mem_iff, List.mem_cons] at htag
        rcases htag with rfl | htag
        · refine .inr ⟨establishment.name,
            establishedEndpoint endpoint (reconciledStatus establishment pubSub), ?_, rfl, htag'⟩
          rw [find?_established, if_pos rfl]
        · refine (h.owned tag htag).imp_right ?_
          rintro ⟨other, endpoint', hfind', hactive, htag'⟩
          have hne : other ≠ establishment.name := by
            rintro rfl
            rw [hprepared.not_active hfind'] at hactive
            cases hactive
          exact ⟨other, endpoint', by rw [find?_established, if_neg hne]; exact hfind', hactive,
            htag'⟩

theorem sound_handle {server : Server} (h : Sound server) (event : Event) :
    Sound (handle server event) := by
  cases event with
  | establish environment requestJson =>
      exact sound_establishes h
        (establishConnections_establishes h.publisherId environment requestJson)
  | close requestText =>
      rcases closeConnections_cases requestText server with
        ⟨heq, -, -⟩ | ⟨name, endpoint, htarget, heq, -⟩
      · rw [handle, heq]
        exact h
      · rw [handle, heq]
        exact sound_takeDown h (closeTarget_eq_ok htarget).2.1
  | shutdown =>
      exact keeps_shutdown (fun server name endpoint h hfind _ => sound_takeDown h hfind)
        (fun server h => ⟨h.publisherId, h.running, h.tagged, h.owned⟩) h
  | timer group sample =>
      exact ⟨h.publisherId, h.running, h.tagged, by
        rw [handle, PubSub.ownerTags_timerCompleted]
        exact h.owned⟩
  | receive endpoint data =>
      obtain ⟨endpoints, hfx, hcore⟩ := foldl_signal_frame
        (PubSub.receive server.pubSub endpoint (fun _ => true) data).2 server.fx
      rw [handle, hfx]
      exact sound_of_core hcore (PubSub.frame_receive _ _ _ _).1
        (PubSub.ownerTags_receive _ _ _ _) h

theorem finalizeAndValidate_publisherId {written configuration : Configuration}
    (h : finalizeAndValidate written = .ok configuration) :
    configuration.publisherId ≤ PubSub.publisherIdMaximum configuration.publisherIdType ∧
      configuration.publisherId.toNat ≤ kJsonExactIntegerLimit := by
  unfold finalizeAndValidate at h
  split at h
  · cases h
  split at h
  · cases h
  split at h
  · cases h
  split at h
  · cases h
  rename_i htype hlimit _
  obtain ⟨entities, -, h⟩ := except_bind_eq_ok.1 h
  rw [except_pure_eq_ok] at h
  subst h
  exact ⟨UInt64.not_lt.mp htype, not_lt.mp hlimit⟩

/-- What a server that has come up looks like. -/
theorem boots_frame {server : Server} (h : Boots server) :
    server.fx.endpoints = .empty ∧ server.fx.poisonedNames = [] ∧
      server.fx.started = true ∧ server.pubSub.running = true ∧
      (∀ tag ∈ PubSub.ownerTags server.pubSub, tag = []) ∧
      server.fx.configuration.publisherId ≤
        PubSub.publisherIdMaximum server.fx.configuration.publisherIdType ∧
      server.fx.configuration.publisherId.toNat ≤ kJsonExactIntegerLimit := by
  obtain ⟨pubSub, written, configuration, node, refusals, nodes, hpubSub, hvalid, hstart⟩ := h
  have htags : ∀ tag ∈ PubSub.ownerTags pubSub, tag = [] := by
    rcases hpubSub with rfl | ⟨surroundings, pubSubConfiguration, rfl⟩
    · simp [PubSub.ownerTags, PubSub.initial, OrderedMap.empty]
    · exact PubSub.ownerTags_startStaged surroundings pubSubConfiguration
  simp only [startIfStaged, Bool.false_eq_true, if_false, except_bind_eq_ok] at hstart
  obtain ⟨built, -, hstart⟩ := hstart
  split at hstart
  · cases hstart
  · rw [except_pure_eq_ok] at hstart
    subst hstart
    obtain ⟨htype, hlimit⟩ := finalizeAndValidate_publisherId hvalid
    exact ⟨rfl, rfl, rfl, rfl, htags, htype, hlimit⟩

theorem sound_of_boots {server : Server} (h : Boots server) : Sound server := by
  obtain ⟨hendpoints, -, -, hrunning, htags, -, hlimit⟩ := boots_frame h
  refine ⟨hlimit, hrunning, ?_, fun tag htag => .inl (htags tag htag)⟩
  intro name endpoint hfind
  simp [hendpoints] at hfind

/-- The states that a server reaches from its start. -/
def Reachable (server : Server) : Prop :=
  ∃ (booted : Server) (events : List Event), Boots booted ∧ events.foldl handle booted = server

theorem sound_of_reachable {server : Server} (h : Reachable server) : Sound server := by
  obtain ⟨booted, events, hboots, rfl⟩ := h
  exact List.foldlRecOn events handle (sound_of_boots hboots)
    fun server h event _ => sound_handle h event

/-- A tag that no active endpoint has is free. -/
theorem Prepared.ownerTag_free {server : Server} {requestJson : Bytes}
    {establishment : Establishment} {request : Members} {entity : EntityRuntime}
    {existing : Option Endpoint}
    (hprepared : Prepared server.fx requestJson establishment request entity existing)
    (h : Sound server)
    (hdistinct : ∀ other endpoint, server.fx.endpoints.find? other = some endpoint →
      endpoint.active = true → endpoint.ownerTag ≠ establishment.endpoint.ownerTag) :
    establishment.endpoint.ownerTag ∉ PubSub.ownerTags server.pubSub := by
  intro hmem
  rcases h.owned _ hmem with hnil | ⟨other, endpoint, hfind, hactive, htag⟩
  · rw [hprepared.ownerTag] at hnil
    exact ownerTag_ne_nil _ _ _ hnil
  · exact hdistinct other endpoint hfind hactive htag

end Reachable

end Fx

end Supernova
