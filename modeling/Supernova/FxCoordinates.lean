/-
The coordinates that a publishing connection hands out: a subscribing side reads
them as the configured ids, which are those that its datagrams carry.
-/
import Supernova.FxJsonRoundTrip
import Supernova.FxRefusals
import Supernova.FxStarted
import Supernova.PubSubWireFraming

namespace Supernova

attribute [local semireducible] ByteArray.toList.loop

open BinaryFormat

theorem Double.rational_of_eq {x y : Double} (h : x.eq y = true) :
    x.isNaN = false ∧ x.rational = y.rational := by
  simp only [Double.eq, Bool.and_eq_true, Bool.not_eq_true', Bool.or_eq_true, beq_iff_eq] at h
  obtain ⟨⟨hx, -⟩, hbits | ⟨hzero, hzero'⟩⟩ := h
  · have heq : x = y := by
      cases x
      cases y
      exact congrArg Double.mk hbits
    exact ⟨hx, by rw [heq]⟩
  · have hvalue : binary64.value 0 = 0 := by
      simp [BinaryFormat.value]
    refine ⟨hx, ?_⟩
    simp [Double.rational, hzero, hzero', hvalue]

namespace Fx

section Peer

/-- A number that equals a whole number in range is that number. -/
theorem requiredUnsigned_of_eq {object : Members} {key : Bytes} {value : Double} {n maximum : UInt64}
    (hmember : member? object key = some (.number value)) (heq : value.eq (asDouble n) = true)
    (hexact : n.toNat ≤ kJsonExactIntegerLimit) (hmaximum : n ≤ maximum) :
    requiredUnsigned object key maximum = .ok n := by
  obtain ⟨hnan, hrational⟩ := Double.rational_of_eq heq
  rw [(asDouble_integral hexact).2] at hrational
  have hnonneg : ¬ value.rational < 0 := by
    rw [hrational]
    exact not_lt.mpr (Nat.cast_nonneg _)
  have hexceeds : exceeds value kJsonExactIntegerLimit = false := by
    simp only [exceeds, hnan, hrational, Bool.not_false, Bool.true_and, decide_eq_false_iff_not,
      not_lt]
    exact_mod_cast hexact
  have htruncated : truncated value = n := by
    rw [truncated, hrational, Int.floor_natCast, Int.toNat_natCast, UInt64.ofNat_toNat]
  rw [requiredUnsigned, hmember]
  simp only [hnan, hnonneg, hexceeds, htruncated, heq, decide_false, Bool.or_false,
    Bool.not_true, Bool.false_eq_true, if_false, UInt64.not_lt.mpr hmaximum]
  rfl

/-- The members of the coordinates, in the order of their names. -/
theorem coordinatesOf_eq (configuration : Configuration) (dataset : DatasetRuntime) :
    coordinatesOf configuration dataset = .object
      [(text "dataSetWriterId", .number (asDouble dataset.dataSetWriterId.toUInt64)),
        (text "publisherId", .number (asDouble configuration.publisherId)),
        (text "publisherIdType",
          .string (PubSub.publisherIdTypeName configuration.publisherIdType)),
        (text "writerGroupId", .number (asDouble dataset.writerGroupId.toUInt64))] := by
  have hnames : [text "dataSetWriterId", text "publisherId", text "publisherIdType",
      text "writerGroupId"].Pairwise fun name name' =>
        name ≠ name' ∧ name' ≠ name ∧ MapKey.sortKey name < MapKey.sortKey name' ∧
          ¬ MapKey.sortKey name' < MapKey.sortKey name := by
    decide
  simp only [List.pairwise_cons, List.forall_mem_cons] at hnames
  simp [coordinatesOf, setMember, OrderedMap.insertEntry, hnames]

theorem parsePublisherIdType_name (type : PubSub.PublisherIdType) :
    PubSub.parsePublisherIdType (PubSub.publisherIdTypeName type) = .ok type := by
  cases type <;> decide

/-- What reads like the coordinates passes the checks on a peer, as the
configured ids. -/
theorem readPeer_of_equal {configuration : Configuration} {dataset : DatasetRuntime}
    {peer : JsonValue}
    (hid : configuration.publisherId ≤
      PubSub.publisherIdMaximum configuration.publisherIdType)
    (hexact : configuration.publisherId.toNat ≤ kJsonExactIntegerLimit)
    (h : Equal peer (coordinatesOf configuration dataset)) :
    readPeer peer = .ok ⟨configuration.publisherIdType, configuration.publisherId,
      dataset.writerGroupId, dataset.dataSetWriterId⟩ := by
  rw [coordinatesOf_eq] at h
  rcases h with _ | _ | _ | _ | ⟨hnames, hvalues⟩
  rename_i members
  -- The members in the order of their names, with the values that were read.
  rcases members with _ | ⟨⟨n₁, v₁⟩, _ | ⟨⟨n₂, v₂⟩, _ | ⟨⟨n₃, v₃⟩, _ | ⟨⟨n₄, v₄⟩, _ | ⟨m, members⟩⟩⟩⟩⟩
  all_goals
    simp only [List.map_cons, List.map_nil, List.cons.injEq, reduceCtorEq, and_false, and_true]
      at hnames
  obtain ⟨rfl, rfl, rfl, rfl⟩ := hnames
  simp only [List.map_cons, List.map_nil, List.forall₂_cons, List.forall₂_nil_right_iff,
    and_true] at hvalues
  obtain ⟨h₁, h₂, h₃, h₄⟩ := hvalues
  rcases h₁ with _ | _ | h₁ | _ | _
  rcases h₂ with _ | _ | h₂ | _ | _
  rcases h₃ with _ | _ | _ | _ | _
  rcases h₄ with _ | _ | h₄ | _ | _
  have hshort : ∀ id : UInt16, id.toUInt64.toNat ≤ kJsonExactIntegerLimit ∧
      id.toUInt64 ≤ 0xFFFF ∧ id.toUInt64.toUInt16 = id := by
    intro id
    have hlt := id.toNat_lt
    refine ⟨?_, ?_, by simp⟩
    · simp only [UInt16.toNat_toUInt64, kJsonExactIntegerLimit]
      omega
    · rw [UInt64.le_iff_toNat_le, UInt16.toNat_toUInt64]
      simp only [UInt64.reduceToNat]
      omega
  have hdistinct : [text "dataSetWriterId", text "publisherId", text "publisherIdType",
      text "writerGroupId"].Pairwise fun name name' => name ≠ name' ∧ name' ≠ name := by
    decide
  simp only [List.pairwise_cons, List.forall_mem_cons] at hdistinct
  generalize hobject : [(text "dataSetWriterId", JsonValue.number _),
    (text "publisherId", JsonValue.number _), (text "publisherIdType", JsonValue.string _),
    (text "writerGroupId", JsonValue.number _)] = object
  have honly : requireOnlyMembers object [text "publisherId", text "publisherIdType",
      text "writerGroupId", text "dataSetWriterId"] (text "'peer'") = .ok ⟨⟩ := by
    rw [← hobject]
    simp [requireOnlyMembers, except_pure_eq_ok]
  have htype : peerIdType object = .ok configuration.publisherIdType := by
    have hhas : hasMember object (text "publisherIdType") = true := by
      rw [← hobject]
      simp [hasMember]
    have hname : requiredString object (text "publisherIdType") =
        .ok (PubSub.publisherIdTypeName configuration.publisherIdType) := by
      rw [requiredString_eq_ok, ← hobject]
      simp [member?, hdistinct]
    rw [peerIdType, if_pos hhas, hname]
    exact parsePublisherIdType_name _
  have hpublisherId : requiredUnsigned object (text "publisherId")
      (PubSub.publisherIdMaximum configuration.publisherIdType) =
        .ok configuration.publisherId := by
    refine requiredUnsigned_of_eq ?_ h₂ hexact hid
    rw [← hobject]
    simp [member?, hdistinct]
  have hwriterGroupId : requiredUnsigned object (text "writerGroupId") 0xFFFF =
      .ok dataset.writerGroupId.toUInt64 := by
    refine requiredUnsigned_of_eq ?_ h₄ (hshort _).1 (hshort _).2.1
    rw [← hobject]
    simp [member?, hdistinct]
  have hdataSetWriterId : requiredUnsigned object (text "dataSetWriterId") 0xFFFF =
      .ok dataset.dataSetWriterId.toUInt64 := by
    refine requiredUnsigned_of_eq ?_ h₁ (hshort _).1 (hshort _).2.1
    rw [← hobject]
    simp [member?]
  simp only [readPeer, except_bind_eq_ok, except_pure_eq_ok]
  exact ⟨⟨⟩, honly, _, htype, _, hpublisherId, _, hwriterGroupId, _, hdataSetWriterId, by
    rw [(hshort _).2.2, (hshort _).2.2]⟩

end Peer

section Detail

theorem member?_setMember (object : Members) (name : Bytes) (value : JsonValue) :
    member? (setMember object name value) name = some value := by
  unfold member? setMember
  induction object with
  | nil => simp [OrderedMap.insertEntry]
  | cons m object ih =>
      rw [OrderedMap.insertEntry]
      split
      · simp
      split
      · simp
      · rename_i hne _
        rw [List.find?_cons_of_neg (by simpa using Ne.symm hne), ih]

/-- Equal objects have equal members. -/
theorem member?_of_equal {members members' : Members} {name : Bytes} {value : JsonValue}
    (h : Equal (.object members) (.object members')) (hmember : member? members' name = some value) :
    ∃ value', member? members name = some value' ∧ Equal value' value := by
  rcases h with _ | _ | _ | _ | ⟨hnames, hvalues⟩
  induction members generalizing members' with
  | nil =>
      rw [List.map_eq_nil_iff.mp hnames.symm] at hmember
      cases hmember
  | cons m members ih =>
      rcases members' with _ | ⟨m', members'⟩
      · simp at hnames
      simp only [List.map_cons, List.cons.injEq] at hnames
      simp only [List.map_cons, List.forall₂_cons] at hvalues
      by_cases hname : m'.1 = name
      · have hm : m.1 = name := hnames.1.trans hname
        rw [member?, List.find?_cons_of_pos (by simpa using hname), Option.map_some,
          Option.some.injEq] at hmember
        refine ⟨m.2, ?_, hmember ▸ hvalues.1⟩
        rw [member?, List.find?_cons_of_pos (by simpa using hm), Option.map_some]
      · have hm : m.1 ≠ name := fun heq => hname (hnames.1.symm.trans heq)
        rw [member?, List.find?_cons_of_neg (by simpa using hname)] at hmember
        obtain ⟨value', hvalue', hequal⟩ := ih hmember hnames.2 hvalues.2
        exact ⟨value', by rwa [member?, List.find?_cons_of_neg (by simpa using hm)], hequal⟩

end Detail

section Datagrams

open Scanner PubSub

/-- Whatever a datagram is decoded to, it shows the ids it was encoded with. -/
theorem ids_of_decodeDatagram {message out : NetworkMessage} {bytes : Bytes}
    {c : Cursor UInt8 Built}
    (hid : message.publisherId ≤ publisherIdMaximum message.publisherIdType)
    (hbytes : encodeNetworkMessage message = .ok bytes)
    (hdecode : decodeDatagram bytes = .ok out c) :
    out.publisherIdType = message.publisherIdType ∧ out.publisherId = message.publisherId ∧
      out.writerGroupIdEnabled = message.writerGroupIdEnabled ∧
      out.writerGroupId = (if message.writerGroupIdEnabled then message.writerGroupId else 0) ∧
      out.messages.map DataSetMessage.dataSetWriterId =
        message.messages.map DataSetMessage.dataSetWriterId := by
  obtain ⟨hsome, hfew, bodies, sizes, hbodies, hsizes, rfl⟩ :=
    encodeNetworkMessage_eq_ok.1 hbytes
  have hreads := reads_networkFront message hid hsome hfew
  obtain ⟨front, sizes', networkFront, declaredSizes, chunks, hdata, hfront, -, -, hids, hout⟩ :=
    parts_of_decodeDatagram hdecode
  obtain ⟨k, hrun⟩ := hfront (sizes' ++ (chunks.flatten ++ c.rest)) {}
  rw [← hdata] at hrun
  simp only [← List.append_assoc] at hreads hrun
  rw [List.append_assoc _ sizes] at hrun
  obtain ⟨rfl, -⟩ := hreads.unique hrun
  rw [hids, hout]
  exact ⟨rfl, rfl, rfl, rfl, rfl⟩

/-- A group after so many cycles. -/
def cycled (samples : List (Nat → Nat → Nat → Option UaVariant)) (group : WriterGroupRuntime) :
    WriterGroupRuntime :=
  samples.foldl (fun group sample => (publishGroup sample group).1) group

/-- Cycles leave the ids of a group alone. -/
theorem cycled_ids (samples : List (Nat → Nat → Nat → Option UaVariant))
    (group : WriterGroupRuntime) :
    (cycled samples group).publisherIdType = group.publisherIdType ∧
      (cycled samples group).publisherId = group.publisherId ∧
      (cycled samples group).id = group.id ∧
      (cycled samples group).writers.map (·.id) = group.writers.map (·.id) := by
  induction samples generalizing group with
  | nil => exact ⟨rfl, rfl, rfl, rfl⟩
  | cons sample samples ih =>
      obtain ⟨htype, hid, hgroup, hwriters⟩ := ih (publishGroup sample group).1
      refine ⟨htype, hid, hgroup, hwriters.trans ?_⟩
      apply List.ext_getElem?
      intro i
      simp [publishGroup, publishWriter, Option.map_map, Function.comp_def]

/-- The ids that every datagram of a group decodes to, whatever it samples. -/
def DatagramsShow (group : WriterGroupRuntime) (coordinates : Coordinates) : Prop :=
  ∀ samples sample bytes,
    encodeNetworkMessage (publishGroup sample (cycled samples group)).2 = .ok bytes →
    (∀ out c, decodeDatagram bytes = .ok out c →
      out.publisherIdType = coordinates.publisherIdType ∧
      out.publisherId = coordinates.publisherId ∧
      out.writerGroupIdEnabled = true ∧ out.writerGroupId = coordinates.writerGroupId ∧
      out.messages.map DataSetMessage.dataSetWriterId = [coordinates.dataSetWriterId]) ∧
    ((∀ d ∈ (publishGroup sample (cycled samples group)).2.messages, d.fits = true) →
      ∃ out c, decodeDatagram bytes = .ok out c)

theorem datagramsShow_newWriterGroup {ownerTag : Bytes} {publisherIdType : PublisherIdType}
    {publisherId : UInt64} (hid : publisherId ≤ publisherIdMaximum publisherIdType)
    (group : DynamicWriterGroup) :
    DatagramsShow (newWriterGroup ownerTag publisherIdType publisherId group)
      ⟨publisherIdType, publisherId, group.id, group.dataSetWriterId⟩ := by
  intro samples sample bytes hbytes
  obtain ⟨htype, hpublisherId, hgroup, hwriters⟩ := cycled_ids samples
    (newWriterGroup ownerTag publisherIdType publisherId group)
  generalize cycled samples (newWriterGroup ownerTag publisherIdType publisherId group) =
    runtime at *
  constructor
  · intro out c hdecode
    have hid' : (publishGroup sample runtime).2.publisherId ≤
        publisherIdMaximum (publishGroup sample runtime).2.publisherIdType := by
      change runtime.publisherId ≤ publisherIdMaximum runtime.publisherIdType
      rw [htype, hpublisherId]
      exact hid
    obtain ⟨hoType, hoId, hoEnabled, hoGroup, hoWriters⟩ :=
      ids_of_decodeDatagram hid' hbytes hdecode
    refine ⟨hoType.trans htype, hoId.trans hpublisherId, hoEnabled, hoGroup.trans hgroup, ?_⟩
    have hids : (publishGroup sample runtime).2.messages.map DataSetMessage.dataSetWriterId =
        runtime.writers.map (·.id) := by
      rw [messages_publishGroup]
      apply List.ext_getElem?
      intro i
      simp [publishWriter, Option.map_map, Function.comp_def]
    rw [hoWriters, hids, hwriters]
    rfl
  · intro hfits
    obtain ⟨k, hrun⟩ := reads_networkMessage hbytes hfits [] {}
    rw [List.append_nil] at hrun
    exact ⟨_, _, hrun⟩

end Datagrams

section Published

theorem roleName_injective {role role' : Role} (h : roleName role = roleName role') :
    role = role' := by
  have hne : text "publisher" ≠ text "subscriber" := by decide
  cases role <;> cases role' <;> simp_all [roleName]

/-- What a publishing connection brings up is the dataset that was found. -/
theorem publisherDataPlane_eq_ok {entity : EntityRuntime} {request : Members}
    {datasetName host : Bytes} {port : UInt16} {dataPlane : DataPlane}
    (h : publisherDataPlane entity request datasetName host port = .ok dataPlane) :
    ∃ dataset group, dataPlane = .publisher dataset group ∧
      findDataset entity.outputs datasetName = some dataset ∧
      group.id = dataset.writerGroupId ∧ group.dataSetWriterId = dataset.dataSetWriterId := by
  unfold publisherDataPlane at h
  obtain ⟨_, -, h⟩ := except_bind_eq_ok.1 h
  rcases hfind : findDataset entity.outputs datasetName with _ | dataset
  · simp [hfind] at h
  · simp only [hfind, except_bind_eq_ok, except_pure_eq_ok] at h
    obtain ⟨interval, -, ttl, -, rfl⟩ := h
    exact ⟨dataset, _, rfl, rfl, rfl, rfl⟩

/-- The detail of an established publisher has the coordinates in it. -/
theorem establishedDetail_publisher {configuration : Configuration}
    {establishment : Establishment} {dataset : DatasetRuntime}
    {group : PubSub.DynamicWriterGroup}
    (h : establishment.dataPlane = .publisher dataset group) (status : EndpointStatus) :
    ∃ members, establishedDetail configuration establishment status = .object members ∧
      member? members (text "coordinates") = some (coordinatesOf configuration dataset) := by
  rw [establishedDetail, h]
  exact ⟨_, rfl, member?_setMember _ _ _⟩

end Published

/-- The coordinates that a publishing connection of a configured dataset is
told are accepted as a peer, as the configured ids; every datagram of its
writer group is decoded to these ids. -/
theorem coordinates_accepted {server : Server} (h : Reachable server)
    {entity : FunctionalEntityConfig} (hentity : entity ∈ server.fx.configuration.entities)
    {dataset : OutputDatasetConfig} (hdataset : dataset ∈ entity.outputs)
    {environment : Environment} {requestJson name detail : Bytes} {request : Members}
    (hparsed : parseJsonObject requestJson = .ok (.object request))
    (hrole : member? request (text "role") = some (.string (text "publisher")))
    (hentityName : member? request (text "functionalEntity") = some (.string entity.name))
    (hdatasetName : member? request (text "dataset") = some (.string dataset.name))
    (hgood : (establishConnections environment requestJson server).2 = .good name detail) :
    let coordinates : Coordinates :=
      ⟨server.fx.configuration.publisherIdType, server.fx.configuration.publisherId,
        dataset.writerGroupId, dataset.dataSetWriterId⟩
    (∃ value, DocumentText detail value) ∧
    (∀ value, DocumentText detail value → ∃ members peer, value = .object members ∧
      member? members (text "coordinates") = some peer ∧ readPeer peer = .ok coordinates) ∧
    ∃ group ∈ (establishConnections environment requestJson server).1.pubSub.writerGroups,
      group.ownerTag = ownerTag server.fx.configuration entity.name name ∧
      DatagramsShow group coordinates := by
  intro coordinates
  have hsound := sound_of_reachable h
  have hconfigured := configured_of_reachable h
  have hcases := establishConnections_establishes hsound.publisherId environment requestJson
  generalize establishConnections environment requestJson server = result at hcases hgood ⊢
  obtain ⟨server', outcome⟩ := result
  have hnot : ∀ what, outcome ≠ refusal what := by
    intro what heq
    have hrefused := congrArg Outcome.refused (heq.symm.trans hgood)
    rw [refused_refusal] at hrefused
    cases hrefused
  rcases hcases with ⟨what, -⟩ | @⟨_, _, what, _, -, -, -⟩ | @⟨establishment, pubSub, endpoint,
    nodes, detail, hprepared, hactivated, hview, hdetail⟩
  · exact absurd rfl (hnot what)
  · exact absurd rfl (hnot what)
  cases hgood
  obtain ⟨request', entityRuntime, existing, hp⟩ := prepareEstablish_eq_ok hprepared
  -- The request is about the configured dataset.
  have hrequest : request' = request := by
    simpa using hp.parsed.symm.trans hparsed
  subst hrequest
  have hentity' : establishment.endpoint.entity = entity.name := by
    simpa [hentityName] using (requiredString_eq_ok.1 hp.entityName).symm
  have hdataset' : establishment.endpoint.dataset = dataset.name := by
    simpa [hdatasetName] using (requiredString_eq_ok.1 hp.datasetName).symm
  have hrole' : establishment.endpoint.role = .publisher := by
    apply roleName_injective
    simpa [hrole, roleName] using (requiredString_eq_ok.1 hp.role).symm
  obtain ⟨runtime, datasetRuntime, hfind, hfind', -, hgroupId, hwriterId, -⟩ :=
    findDataset_of_configured hconfigured hentity hdataset
  have hruntime : entityRuntime = runtime := by
    have hfound := hp.entityFound
    rw [hentity', hfind, Option.some.injEq] at hfound
    exact hfound.symm
  obtain ⟨host, port, -, hplane⟩ := hp.dataPlane
  rw [hrole', hdataset', hruntime] at hplane
  obtain ⟨found, group, hdataPlane, hfound, hid, hwriter⟩ := publisherDataPlane_eq_ok hplane
  rw [hfind', Option.some.injEq] at hfound
  subst hfound
  -- Its coordinates are in the detail, and its group is in the engine.
  obtain ⟨members, hmembers, hmember⟩ := @establishedDetail_publisher
    server.fx.configuration _ _ _ hdataPlane (reconciledStatus establishment pubSub)
  have hserializable := serializable_establishedDetail hsound.publisherId establishment
    (reconciledStatus establishment pubSub) 14
  rw [hmembers] at hserializable hdetail
  obtain ⟨x, hx, value, hdocument, hequal, -⟩ := documentText_serialize hserializable
  have hdetailText : x = detail := by
    simpa using hx.symm.trans hdetail
  subst hdetailText
  refine ⟨⟨value, hdocument⟩, ?_, ?_⟩
  · intro value' hdocument'
    cases hdocument.unique hdocument'
    have hobject := hequal
    rcases hequal with _ | _ | _ | _ | _
    obtain ⟨peer, hpeer, hequalPeer⟩ := member?_of_equal hobject hmember
    refine ⟨_, peer, rfl, hpeer, ?_⟩
    rw [readPeer_of_equal hconfigured.publisherId hsound.publisherId hequalPeer, hgroupId,
      hwriterId]
  · rw [activate, hdataPlane] at hactivated
    obtain ⟨-, rfl⟩ := PubSub.addDynamicWriterGroup_eq_ok.1 hactivated
    refine ⟨_, List.mem_append_right _ (List.mem_singleton_self _), ?_, ?_⟩
    · change establishment.endpoint.ownerTag = _
      rw [hp.ownerTag, hentity']
    · have hshow := @datagramsShow_newWriterGroup establishment.endpoint.ownerTag _ _
        hconfigured.publisherId group
      rw [hid, hwriter, hgroupId, hwriterId] at hshow
      exact hshow

theorem coordinates_accepted_plantServer :
    ∃ name detail, (establishConnections ⟨none, permissive⟩ (publishRequest "A" "o" "x")
        plantServer).2 = .good name detail ∧
      (∃ value, DocumentText detail value) ∧
      (∀ value, DocumentText detail value → ∃ members peer, value = .object members ∧
        member? members (text "coordinates") = some peer ∧
        readPeer peer = .ok ⟨.uInt16, 7, 1, 1⟩) ∧
      ∃ group ∈ (establishConnections ⟨none, permissive⟩ (publishRequest "A" "o" "x")
          plantServer).1.pubSub.writerGroups,
        group.ownerTag = ownerTag plantServer.fx.configuration (text "A") name ∧
        DatagramsShow group ⟨.uInt16, 7, 1, 1⟩ := by
  have hanswer : (prepareEstablish plantServer.fx (publishRequest "A" "o" "x")).map
        (fun establishment => (establishment.endpoint.entity, establishment.endpoint.role,
          establishment.endpoint.dataset)) = .ok (text "A", .publisher, text "o") ∧
      (establishConnections ⟨none, permissive⟩ (publishRequest "A" "o" "x")
        plantServer).2.refused = false := by
    decide +kernel
  obtain ⟨hshape, hgood⟩ := hanswer
  rcases hprepared : prepareEstablish plantServer.fx (publishRequest "A" "o" "x") with
    _ | establishment
  · rw [hprepared] at hshape
    cases hshape
  rw [hprepared] at hshape
  simp only [Except.map, Except.ok.injEq, Prod.mk.injEq] at hshape
  obtain ⟨hentity, hrole, hdataset⟩ := hshape
  obtain ⟨request, _, _, hp⟩ := prepareEstablish_eq_ok hprepared
  rcases houtcome : (establishConnections ⟨none, permissive⟩ (publishRequest "A" "o" "x")
      plantServer).2 with ⟨name, detail⟩ | _
  · have hreachable : Reachable plantServer := ⟨plantServer, [], boots_plantServer, rfl⟩
    have hconfigured : plantServer.fx.configuration = plant := by
      decide
    have hplant : ∃ entity ∈ plantServer.fx.configuration.entities, entity.name = text "A" ∧
        ∃ dataset ∈ entity.outputs, dataset.name = text "o" ∧ dataset.writerGroupId = 1 ∧
          dataset.dataSetWriterId = 1 := by
      rw [hconfigured]
      exact ⟨_, List.mem_cons_self, rfl, _, List.mem_cons_self, rfl, rfl, rfl⟩
    obtain ⟨entity, hmem, hname, dataset, hmem', hname', hgroup, hwriter⟩ := hplant
    have haccepted := coordinates_accepted hreachable hmem hmem' hp.parsed
      (by rw [requiredString_eq_ok.1 hp.role, hrole, roleName])
      (by rw [requiredString_eq_ok.1 hp.entityName, hentity, hname])
      (by rw [requiredString_eq_ok.1 hp.datasetName, hdataset, hname'])
      houtcome
    rw [hgroup, hwriter, hname] at haccepted
    have hpublisher : plantServer.fx.configuration.publisherIdType = .uInt16 ∧
        plantServer.fx.configuration.publisherId = 7 := by
      rw [hconfigured]
      exact ⟨rfl, rfl⟩
    rw [hpublisher.1, hpublisher.2] at haccepted
    exact ⟨name, detail, rfl, haccepted⟩
  · rw [houtcome] at hgood
    cases hgood

end Fx

end Supernova
