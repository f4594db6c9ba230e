/-
Runs of the FX engine: what a call leaves behind, and the calls, cycles and
datagrams that follow a start from an accepted configuration.
-/
import Supernova.FxConnections
import Supernova.FxJsonRoundTrip

namespace Supernova

attribute [local semireducible] ByteArray.toList.loop

namespace Fx

section Checks

@[simp] theorem check_eq_ok {fault : Bool} {what : Bytes} {u : PUnit} :
    check fault what = .ok u ↔ fault = false := by
  cases fault <;> simp [check, pure, Except.pure]

theorem requireObject_eq_ok {value : JsonValue} {members : Members} :
    requireObject value = .ok members ↔ value = .object members := by
  cases value <;> simp [requireObject, except_pure_eq_ok]

theorem requiredString_eq_ok {object : Members} {key value : Bytes} :
    requiredString object key = .ok value ↔ member? object key = some (.string value) := by
  rw [requiredString]
  split <;> simp_all [except_pure_eq_ok]

theorem parseRole_eq_ok {name : Bytes} {role : Role} :
    parseRole name = .ok role ↔ name = roleName role := by
  have hne : text "publisher" ≠ text "subscriber" := by decide
  unfold parseRole
  by_cases hpublisher : name = text "publisher"
  · subst hpublisher
    cases role <;> simp [except_pure_eq_ok, roleName, hne]
  by_cases hsubscriber : name = text "subscriber"
  · subst hsubscriber
    cases role <;> simp [except_pure_eq_ok, roleName, hne.symm]
  · cases role <;> simp [roleName, hpublisher, hsubscriber]

/-- A name can be used when it is fresh, or closed and of the same entity. -/
theorem existingEndpoint_eq_ok {fx : Engine} {entityName name : Bytes}
    {existing : Option Endpoint} :
    existingEndpoint fx entityName name = .ok existing ↔
      name ∉ fx.poisonedNames ∧ fx.endpoints.find? name = existing ∧
        (∀ endpoint, existing = some endpoint →
          endpoint.active = false ∧ endpoint.entity = entityName) ∧
        (existing = none → endpointCountOf fx entityName < kMaxEndpointsPerEntity) := by
  unfold existingEndpoint
  by_cases hpoisoned : name ∈ fx.poisonedNames
  · simp [hpoisoned]
  rw [if_neg hpoisoned]
  rcases hfind : fx.endpoints.find? name with _ | endpoint
  · by_cases hcount : kMaxEndpointsPerEntity ≤ endpointCountOf fx entityName
    · have hnot : ¬ endpointCountOf fx entityName < kMaxEndpointsPerEntity := by omega
      simp only [hcount, if_true, except_throw_eq_ok, false_iff]
      rintro ⟨-, rfl, -, h⟩
      exact hnot (h rfl)
    · have hlt : endpointCountOf fx entityName < kMaxEndpointsPerEntity := by omega
      simp only [hcount, if_false, except_pure_eq_ok]
      constructor
      · rintro rfl
        exact ⟨hpoisoned, rfl, by simp, fun _ => hlt⟩
      · exact fun h => h.2.1
  · rcases hactive : endpoint.active with _ | _
    · by_cases hentity : endpoint.entity = entityName
      · simp only [hactive, Bool.false_eq_true, if_false, hentity, ne_eq, not_true_eq_false,
          except_pure_eq_ok]
        constructor
        · rintro rfl
          exact ⟨hpoisoned, rfl, by simp [hactive, hentity], by simp⟩
        · exact fun h => h.2.1
      · simp only [hactive, Bool.false_eq_true, if_false, hentity, ne_eq, not_false_eq_true,
          if_true, except_throw_eq_ok, false_iff]
        rintro ⟨-, rfl, h, -⟩
        exact hentity (h endpoint rfl).2
    · simp only [hactive, if_true, except_throw_eq_ok, false_iff]
      rintro ⟨-, rfl, h, -⟩
      simp [(h endpoint rfl).1] at hactive

end Checks

section Establish

/-- What is known of a request that passed the checks. -/
structure Prepared (fx : Engine) (requestJson : Bytes) (establishment : Establishment)
    (request : Members) (entity : EntityRuntime) (existing : Option Endpoint) : Prop where
  started : fx.started = true
  parsed : parseJsonObject requestJson = .ok (.object request)
  entityName : requiredString request (text "functionalEntity") =
    .ok establishment.endpoint.entity
  role : requiredString request (text "role") = .ok (roleName establishment.endpoint.role)
  datasetName : requiredString request (text "dataset") = .ok establishment.endpoint.dataset
  entityFound : findEntity fx establishment.endpoint.entity = some entity
  nameChosen : connectionNameOf fx request establishment.endpoint.entity = .ok establishment.name
  existingFound : existingEndpoint fx establishment.endpoint.entity establishment.name = .ok existing
  notBusy : activeConnectionNameFor fx establishment.endpoint.entity
    establishment.endpoint.role establishment.endpoint.dataset = []
  ownerTag : establishment.endpoint.ownerTag =
    ownerTag fx.configuration establishment.endpoint.entity establishment.name
  inactive : establishment.endpoint.active = false
  statusVariable : establishment.endpoint.statusVariable = existing.bind (·.statusVariable)
  addressVariable : establishment.endpoint.addressVariable = existing.bind (·.addressVariable)
  datasetVariable : establishment.endpoint.datasetVariable = existing.bind (·.datasetVariable)
  endpointsFolder : establishment.endpointsFolder = entity.endpointsFolder
  dataPlane : ∃ host port,
    PubSub.parseNetworkAddress establishment.endpoint.address = .ok (host, port) ∧
      dataPlaneFor entity request establishment.endpoint.role establishment.endpoint.dataset
        host port establishment.name = .ok establishment.dataPlane

theorem prepareEstablish_eq_ok {fx : Engine} {requestJson : Bytes}
    {establishment : Establishment}
    (h : prepareEstablish fx requestJson = .ok establishment) :
    ∃ request entity existing, Prepared fx requestJson establishment request entity existing := by
  unfold prepareEstablish at h
  simp only [except_bind_eq_ok, check_eq_ok, requireObject_eq_ok] at h
  obtain ⟨-, hstarted, request, ⟨value, hparsed, rfl⟩, -, -, entityName, hentityName, role,
    hrole, datasetName, hdatasetName, address, haddress, h⟩ := h
  rcases hentity : findEntity fx entityName with _ | entity
  · simp [hentity] at h
  simp only [hentity, except_bind_eq_ok, check_eq_ok, except_pure_eq_ok] at h
  obtain ⟨role', hrole', name, hname, existing, hexisting, -, hbusy, ⟨host, port⟩, hhost,
    dataPlane, hdataPlane, rfl⟩ := h
  rw [parseRole_eq_ok] at hrole'
  subst hrole'
  have hinactive : ∀ endpoint, existing = some endpoint → endpoint.active = false :=
    fun endpoint heq => ((existingEndpoint_eq_ok.1 hexisting).2.2.1 endpoint heq).1
  refine ⟨request, entity, existing, ?_⟩
  rcases existing with _ | endpoint
  · exact
      { started := by simpa using hstarted
        parsed := hparsed
        entityName := hentityName
        role := hrole
        datasetName := hdatasetName
        entityFound := hentity
        nameChosen := hname
        existingFound := hexisting
        notBusy := by simpa using hbusy
        ownerTag := rfl
        inactive := rfl
        statusVariable := rfl
        addressVariable := rfl
        datasetVariable := rfl
        endpointsFolder := rfl
        dataPlane := ⟨host, port, hhost, hdataPlane⟩ }
  · exact
      { started := by simpa using hstarted
        parsed := hparsed
        entityName := hentityName
        role := hrole
        datasetName := hdatasetName
        entityFound := hentity
        nameChosen := hname
        existingFound := hexisting
        notBusy := by simpa using hbusy
        ownerTag := rfl
        inactive := hinactive endpoint rfl
        statusVariable := rfl
        addressVariable := rfl
        datasetVariable := rfl
        endpointsFolder := rfl
        dataPlane := ⟨host, port, hhost, hdataPlane⟩ }

end Establish

section Details

open BinaryFormat

/-- Whole numbers up to 2^53 are `double`s. -/
theorem asDouble_integral {n : UInt64} (h : n.toNat ≤ kJsonExactIntegerLimit) :
    Integral (asDouble n) ∧ (asDouble n).rational = n.toNat := by
  have hholds : binary64.Holds (n.toNat : ℚ) := by
    rcases h.lt_or_eq with hlt | heq
    · have hfits := holds_of_fits binary64 (M := n.toNat) (t := 1074) hlt (by decide)
      simpa [leastExponent, binary64] using hfits
    · have hfits := holds_of_fits binary64 (M := 1) (t := 1074 + 53) (by decide) (by decide)
      have hvalue : (n.toNat : ℚ) = (1 : Nat) * 2 ^ (binary64.leastExponent + (1074 + 53 : Nat)) := by
        rw [heq]
        norm_num [leastExponent, binary64, kJsonExactIntegerLimit]
      rwa [hvalue]
  obtain ⟨hfinite, hrational⟩ := Double.ofRational_of_nonneg (Nat.cast_nonneg (α := ℚ) n.toNat)
  rw [hholds.value_round] at hrational
  refine ⟨⟨?_, ?_, ?_⟩, hrational⟩
  · rw [asDouble, hfinite]
    exact decide_eq_true hholds.round_lt_infinity
  · rw [asDouble, hrational, Rat.den_natCast]
  · rw [asDouble, hrational, abs_of_nonneg (Nat.cast_nonneg _)]
    exact_mod_cast h

theorem serializable_setMember {levels : Nat} {object : Members} {name : Bytes}
    {value : JsonValue} (hobject : Serializable (levels + 1) (.object object))
    (hvalue : Serializable levels value) :
    Serializable (levels + 1) (.object (setMember object name value)) := by
  rcases hobject with _ | _ | _ | _ | ⟨hsorted, hmembers⟩
  refine .object (OrderedMap.insertEntry_sorted hsorted) ?_
  intro m hm
  rcases OrderedMap.mem_insertEntry_imp hm with rfl | hm
  · exact hvalue
  · exact hmembers m hm

theorem serializable_nil (levels : Nat) : Serializable (levels + 1) (.object []) :=
  .object List.Pairwise.nil (by simp)

theorem serializable_coordinatesOf {configuration : Configuration}
    (h : configuration.publisherId.toNat ≤ kJsonExactIntegerLimit) (dataset : DatasetRuntime)
    (levels : Nat) : Serializable (levels + 1) (coordinatesOf configuration dataset) := by
  have hshort : ∀ id : UInt16, Serializable levels (.number (asDouble id.toUInt64)) := by
    intro id
    have hlt := id.toNat_lt
    exact .number (asDouble_integral (by simp [kJsonExactIntegerLimit]; omega)).1
  have hpublisher : Serializable levels (.number (asDouble configuration.publisherId)) :=
    .number (asDouble_integral h).1
  exact serializable_setMember (serializable_setMember (serializable_setMember
    (serializable_setMember (serializable_nil levels) (.string _)) hpublisher) (hshort _))
    (hshort _)

theorem serializable_establishedDetail {configuration : Configuration}
    (h : configuration.publisherId.toNat ≤ kJsonExactIntegerLimit)
    (establishment : Establishment) (status : EndpointStatus) (levels : Nat) :
    Serializable (levels + 2) (establishedDetail configuration establishment status) := by
  have hdetail : ∀ status address : Bytes, Serializable (levels + 2) (.object
      (setMember (setMember [] (text "status") (.string status)) (text "address")
        (.string address))) :=
    fun status address => serializable_setMember
      (serializable_setMember (serializable_nil (levels + 1)) (.string status)) (.string address)
  unfold establishedDetail
  cases establishment.dataPlane with
  | publisher dataset group =>
      exact serializable_setMember (hdetail _ _) (serializable_coordinatesOf h dataset levels)
  | subscriber reader => exact hdetail _ _

theorem serializable_statusDetail (status : EndpointStatus) (diagnostic : Bytes) :
    Serializable 1 (statusDetail status diagnostic) := by
  have hstatus : Serializable 1 (.object (setMember [] (text "status")
      (.string (endpointStatusName status)))) :=
    serializable_setMember (serializable_nil 0) (.string _)
  unfold statusDetail
  split
  · exact hstatus
  · exact serializable_setMember hstatus (.string diagnostic)

end Details

section Calls

def Outcome.refused : Outcome → Bool
  | .good _ _ => false
  | .badInvalidArgument _ => true

@[simp] theorem refused_refusal (what : Bytes) : (refusal what).refused = true := by
  unfold refusal
  split <;> rfl

/-- What an establish does: it refuses before anything is changed, or gives up
over the nodes of the endpoint view, or establishes the connection. -/
inductive Establishes (environment : Environment) (requestJson : Bytes) (server : Server) :
    Server → Outcome → Prop
  | refused (what : Bytes) (h : ∀ establishment pubSub,
        prepareEstablish server.fx requestJson = .ok establishment →
        activate server.fx.configuration environment.socket establishment server.pubSub ≠
          .ok pubSub) :
      Establishes environment requestJson server server (refusal what)
  | abandoned {establishment : Establishment} {pubSub : PubSub.Engine} {what : Bytes}
      {nodes : List Bytes}
      (hprepared : prepareEstablish server.fx requestJson = .ok establishment)
      (hactivated : activate server.fx.configuration environment.socket establishment
        server.pubSub = .ok pubSub)
      (hview : buildEndpointView environment.refusals establishment server.nodes =
        .error what nodes) :
      Establishes environment requestJson server
        (abandon establishment nodes { server with pubSub }) (refusal what)
  | established {establishment : Establishment} {pubSub : PubSub.Engine} {endpoint : Endpoint}
      {nodes : List Bytes} {detail : Bytes}
      (hprepared : prepareEstablish server.fx requestJson = .ok establishment)
      (hactivated : activate server.fx.configuration environment.socket establishment
        server.pubSub = .ok pubSub)
      (hview : buildEndpointView environment.refusals establishment server.nodes =
        .ok endpoint nodes)
      (hdetail : serializeValue (establishedDetail server.fx.configuration establishment
        (reconciledStatus establishment pubSub)) = .ok detail) :
      Establishes environment requestJson server
        ⟨showStatus establishment.name (reconciledStatus establishment pubSub)
          (storeEndpoint establishment.name endpoint server.fx), pubSub, nodes⟩
        (.good establishment.name detail)

theorem establishConnections_establishes {server : Server}
    (h : server.fx.configuration.publisherId.toNat ≤ kJsonExactIntegerLimit)
    (environment : Environment) (requestJson : Bytes) :
    Establishes environment requestJson server
      (establishConnections environment requestJson server).1
      (establishConnections environment requestJson server).2 := by
  unfold establishConnections
  rcases hprepared : prepareEstablish server.fx requestJson with what | establishment
  · exact .refused what (by simp [hprepared])
  rcases hactivated : activate server.fx.configuration environment.socket establishment
    server.pubSub with what | pubSub
  · simp only [hactivated]
    refine .refused what ?_
    rintro establishment' pubSub hprepared'
    rw [hprepared, Except.ok.injEq] at hprepared'
    simp [← hprepared', hactivated]
  rcases hview : buildEndpointView environment.refusals establishment server.nodes with
    ⟨endpoint, nodes⟩ | ⟨what, nodes⟩
  · obtain ⟨detail, hdetail, -⟩ := serializeValue_text (serializable_establishedDetail h
      establishment (reconciledStatus establishment pubSub) 0)
    simp only [hactivated, hview, hdetail]
    exact .established hprepared hactivated hview hdetail
  · simp only [hactivated, hview]
    exact .abandoned hprepared hactivated hview

/-- What a close does: it refuses without changing anything, or takes the
connection down. -/
theorem closeConnections_cases (requestText : Bytes) (server : Server) :
    ((closeConnections requestText server).1 = server ∧
      (closeConnections requestText server).2.refused = true ∧
      ∀ name endpoint, closeTarget server.fx requestText ≠ .ok (name, endpoint)) ∨
    ∃ name endpoint, closeTarget server.fx requestText = .ok (name, endpoint) ∧
      (closeConnections requestText server).1 = takeDown name endpoint server ∧
      (closeConnections requestText server).2.refused = false := by
  unfold closeConnections
  rcases htarget : closeTarget server.fx requestText with what | ⟨name, endpoint⟩
  · exact .inl ⟨rfl, refused_refusal what, by simp⟩
  · obtain ⟨detail, hdetail, -⟩ := serializeValue_text (serializable_statusDetail .initial [])
    simp only [hdetail]
    exact .inr ⟨name, endpoint, rfl, rfl, rfl⟩

/-- The connection to close is in the table and active. -/
theorem closeTarget_eq_ok {fx : Engine} {requestText name : Bytes} {endpoint : Endpoint}
    (h : closeTarget fx requestText = .ok (name, endpoint)) :
    fx.started = true ∧ fx.endpoints.find? name = some endpoint ∧ endpoint.active = true := by
  unfold closeTarget at h
  simp only [except_bind_eq_ok, check_eq_ok] at h
  obtain ⟨-, hstarted, name', -, -, -, h⟩ := h
  rcases hfind : fx.endpoints.find? name' with _ | endpoint'
  · simp [hfind] at h
  · simp only [hfind, except_bind_eq_ok, check_eq_ok, except_pure_eq_ok, Prod.mk.injEq] at h
    obtain ⟨-, hactive, rfl, rfl⟩ := h
    exact ⟨by simpa using hstarted, hfind, by simpa using hactive⟩

end Calls

section Runs

/-- What happens to a server.  Datagrams and timers come between the calls; a
callback made between them finds the lock free. -/
inductive Event
  | establish (environment : Environment) (requestJson : Bytes)
  | close (requestText : Bytes)
  | shutdown
  | timer (group : Nat) (sample : Nat → Nat → Nat → Option PubSub.UaVariant)
  | receive (endpoint : PubSub.ReceiverKey) (data : Bytes)

/-- The callbacks that a datagram makes. -/
def signal (fx : Engine) (reaction : PubSub.ReaderKey × PubSub.Reaction) : Engine :=
  match reaction.2 with
  | .write _ _ => fx
  | .firstData connectionName => (markSubscriberOperational true connectionName fx).1

def handle (server : Server) : Event → Server
  | .establish environment requestJson =>
      (establishConnections environment requestJson server).1
  | .close requestText => (closeConnections requestText server).1
  | .shutdown => shutdown server
  | .timer group sample =>
      { server with pubSub := PubSub.timerCompleted server.pubSub group sample }
  | .receive endpoint data =>
      let received := PubSub.receive server.pubSub endpoint (fun _ => true) data
      { server with fx := received.2.foldl signal server.fx, pubSub := received.1 }

/-- A server that has come up: the publish/subscribe engine with what was
configured for it, if anything was, and FX from an accepted configuration. -/
def Boots (server : Server) : Prop :=
  ∃ (pubSub : PubSub.Engine) (written configuration : Configuration) (node : NodeLookup)
    (refusals : Refusals) (nodes : List Bytes),
    (pubSub = PubSub.initial ∨ ∃ surroundings pubSubConfiguration, pubSub =
      PubSub.after (PubSub.startStaged surroundings pubSubConfiguration PubSub.initial)) ∧
    finalizeAndValidate written = .ok configuration ∧
    startIfStaged node refusals ⟨{ staged := some configuration }, pubSub, nodes⟩ = .ok server

end Runs

end Fx

end Supernova
