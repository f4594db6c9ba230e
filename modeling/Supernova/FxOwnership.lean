/-
Connections and their data planes.  An endpoint owns the entity registered under
its owner tag, which is made of the names of the automation component, the
entity and the connection; the tags of different connections can be the same.
-/
import Supernova.FxRefusals
import Supernova.Ownership

namespace Supernova

namespace Fx

/-- Each active endpoint has one entity registered under its tag, each dynamic
entity one active endpoint. -/
def Paired (server : Server) : Prop :=
  OneToOne [] (PubSub.ownerTags server.pubSub) (Holds server.fx)

def groupsUnder (pubSub : PubSub.Engine) (tag : Bytes) : List PubSub.WriterGroupRuntime :=
  pubSub.writerGroups.filter fun group => group.ownerTag = tag

def readersUnder (pubSub : PubSub.Engine) (tag : Bytes) :
    List (PubSub.ReaderKey × PubSub.ReaderRuntime) :=
  pubSub.readers.entries.filter fun entry => entry.2.ownerTag = tag

/-- Closing a connection removes its own entity and nothing of another one. -/
def ClosesItsOwn (server : Server) : Prop :=
  ∀ requestText name endpoint, closeTarget server.fx requestText = .ok (name, endpoint) →
    let server' := (closeConnections requestText server).1
    endpoint.ownerTag ∉ PubSub.ownerTags server'.pubSub ∧
    ∀ other endpoint', other ≠ name → server.fx.endpoints.find? other = some endpoint' →
      server'.fx.endpoints.find? other = some endpoint' ∧
      (endpoint'.active = true →
        groupsUnder server'.pubSub endpoint'.ownerTag =
          groupsUnder server.pubSub endpoint'.ownerTag ∧
        readersUnder server'.pubSub endpoint'.ownerTag =
          readersUnder server.pubSub endpoint'.ownerTag)

section Condition

/-- The entity and the connection name that a request is about. -/
def requestedConnection (fx : Engine) (requestJson : Bytes) : Except Bytes (Bytes × Bytes) := do
  let request ← parseJsonObject requestJson >>= requireObject
  let entityName ← requiredString request (text "functionalEntity")
  let name ← connectionNameOf fx request entityName
  pure (entityName, name)

def slashed (entityName name : Bytes) : Bytes := entityName ++ text "/" ++ name

/-- The request passes the checks and its data plane comes up. -/
def Activates (environment : Environment) (requestJson : Bytes) (server : Server) : Prop :=
  ∃ establishment pubSub, prepareEstablish server.fx requestJson = .ok establishment ∧
    activate server.fx.configuration environment.socket establishment server.pubSub = .ok pubSub

/-- No establish that gets as far as its data plane reads, as entity name, slash
and connection name, like another active connection. -/
def ReadsApart (server : Server) : Event → Prop
  | .establish environment requestJson => Activates environment requestJson server →
      ∀ entityName name, requestedConnection server.fx requestJson = .ok (entityName, name) →
        ∀ other endpoint, server.fx.endpoints.find? other = some endpoint →
          endpoint.active = true → other ≠ name →
            slashed endpoint.entity other ≠ slashed entityName name
  | _ => True

end Condition

variable {server : Server} {environment : Environment} {requestJson : Bytes}

theorem ownerTag_inj {configuration : Configuration} {entityName entityName' name name' : Bytes} :
    ownerTag configuration entityName name = ownerTag configuration entityName' name' ↔
      slashed entityName name = slashed entityName' name' := by
  simp only [ownerTag, slashed, List.append_assoc, List.append_cancel_left_eq]

theorem Prepared.requestedConnection {fx : Engine} {establishment : Establishment}
    {request : Members} {entity : EntityRuntime} {existing : Option Endpoint}
    (h : Prepared fx requestJson establishment request entity existing) :
    requestedConnection fx requestJson =
      .ok (establishment.endpoint.entity, establishment.name) := by
  simp only [Fx.requestedConnection, except_bind_eq_ok, except_pure_eq_ok, requireObject_eq_ok]
  exact ⟨request, ⟨_, h.parsed, rfl⟩, _, h.entityName, _, h.nameChosen, rfl⟩

/-- Two connections read alike exactly when they have one owner tag. -/
theorem slashed_eq_iff (h : Sound server) {establishment : Establishment} {request : Members}
    {entity : EntityRuntime} {existing : Option Endpoint}
    (hprepared : Prepared server.fx requestJson establishment request entity existing)
    {other : Bytes} {endpoint : Endpoint}
    (hfind : server.fx.endpoints.find? other = some endpoint) :
    slashed endpoint.entity other = slashed establishment.endpoint.entity establishment.name ↔
      endpoint.ownerTag = establishment.endpoint.ownerTag := by
  rw [h.tagged other endpoint hfind, hprepared.ownerTag, ownerTag_inj]

theorem ownerTag_distinct (h : Sound server) {establishment : Establishment} {request : Members}
    {entity : EntityRuntime} {existing : Option Endpoint}
    (hprepared : Prepared server.fx requestJson establishment request entity existing)
    (hapart : ∀ entityName name, requestedConnection server.fx requestJson =
      .ok (entityName, name) → ∀ other endpoint, server.fx.endpoints.find? other = some endpoint →
        endpoint.active = true → other ≠ name →
          slashed endpoint.entity other ≠ slashed entityName name) :
    ∀ other endpoint, server.fx.endpoints.find? other = some endpoint →
      endpoint.active = true → endpoint.ownerTag ≠ establishment.endpoint.ownerTag := by
  intro other endpoint hfind hactive heq
  have hne : other ≠ establishment.name := by
    rintro rfl
    rw [hprepared.not_active hfind] at hactive
    cases hactive
  exact hapart _ _ hprepared.requestedConnection other endpoint hfind hactive hne
    ((slashed_eq_iff h hprepared hfind).mpr heq)

theorem paired_takeDown {name : Bytes} {endpoint : Endpoint} (h : Sound server)
    (hpaired : Paired server) (hfind : server.fx.endpoints.find? name = some endpoint)
    (hactive : endpoint.active = true) : Paired (takeDown name endpoint server) := by
  have hne : endpoint.ownerTag ≠ [] := by
    rw [h.tagged name endpoint hfind]
    exact ownerTag_ne_nil _ _ _
  have hreleased := OneToOne.release hpaired ⟨endpoint, hfind, hactive, rfl⟩ hne (by
    rintro tag ⟨endpoint', hfind', -, rfl⟩
    rw [hfind, Option.some.injEq] at hfind'
    rw [hfind'])
  refine hreleased.congr ?_ fun other tag => ?_
  · rw [takeDown, PubSub.ownerTags_removeDynamic h.running]
  · by_cases hother : other = name
    · simp [Holds, takeDown, hother, closed, setEndpointStatus]
    · simp [Holds, takeDown, hother]

/-- What a connection that is closed leaves of the others. -/
theorem closesItsOwn (h : Sound server) (hpaired : Paired server) : ClosesItsOwn server := by
  intro requestText name endpoint htarget
  obtain ⟨-, hfind, hactive⟩ := closeTarget_eq_ok htarget
  have hclose : (closeConnections requestText server).1 = takeDown name endpoint server := by
    rcases closeConnections_cases requestText server with
      ⟨-, -, hrefused⟩ | ⟨name', endpoint', htarget', heq, -⟩
    · exact absurd htarget (hrefused name endpoint)
    · rw [htarget, Except.ok.injEq, Prod.mk.injEq] at htarget'
      rw [heq, htarget'.1, htarget'.2]
  have hne : endpoint.ownerTag ≠ [] := by
    rw [h.tagged name endpoint hfind]
    exact ownerTag_ne_nil _ _ _
  dsimp only
  rw [hclose]
  constructor
  · simp [takeDown, PubSub.ownerTags_removeDynamic h.running]
  · intro other endpoint' hother hfind'
    refine ⟨by simp [takeDown, hother, hfind'], fun hactive' => ?_⟩
    have htag : endpoint'.ownerTag ≠ endpoint.ownerTag := by
      intro heq
      exact hother (OneToOne.name_unique hpaired hne ⟨endpoint, hfind, hactive, rfl⟩
        ⟨endpoint', hfind', hactive', heq⟩)
    constructor
    · simp only [groupsUnder, takeDown, PubSub.writerGroups_removeDynamic h.running,
        List.filter_filter]
      refine List.filter_congr fun group _ => ?_
      by_cases hgroup : group.ownerTag = endpoint'.ownerTag <;> simp [hgroup, htag]
    · simp only [readersUnder, takeDown, PubSub.readers_removeDynamic h.running,
        List.filter_filter]
      refine List.filter_congr fun entry _ => ?_
      by_cases hreader : entry.2.ownerTag = endpoint'.ownerTag <;> simp [hreader, htag]

section Establish

variable {establishment : Establishment} {pubSub : PubSub.Engine}

/-- Who holds which tag after an establish. -/
theorem holds_established {request : Members} {entity : EntityRuntime}
    {existing : Option Endpoint}
    (hprepared : Prepared server.fx requestJson establishment request entity existing)
    {endpoint : Endpoint} {nodes nodes' : List Bytes} {refusals : Refusals}
    (hview : buildEndpointView refusals establishment nodes = .ok endpoint nodes')
    (status : EndpointStatus) (other tag : Bytes) :
    Holds (showStatus establishment.name status
        (storeEndpoint establishment.name endpoint server.fx)) other tag ↔
      Holds server.fx other tag ∨
        other = establishment.name ∧ tag = establishment.endpoint.ownerTag := by
  obtain ⟨-, -, -, htag, -⟩ := buildEndpointView_ok hview
  by_cases hother : other = establishment.name
  · subst hother
    have hinactive : ∀ tag, ¬ Holds server.fx establishment.name tag := by
      rintro tag ⟨endpoint', hfind, hactive, -⟩
      rw [hprepared.not_active hfind] at hactive
      cases hactive
    have hheld : Holds (showStatus establishment.name status
        (storeEndpoint establishment.name endpoint server.fx)) establishment.name tag ↔
          endpoint.ownerTag = tag := by
      simp only [Holds, find?_established, if_true, Option.some.injEq, exists_eq_left']
      exact and_iff_right rfl
    rw [hheld, htag]
    constructor
    · rintro rfl
      exact .inr ⟨rfl, rfl⟩
    · rintro (hold | ⟨-, rfl⟩)
      · exact absurd hold (hinactive tag)
      · rfl
  · simp only [Holds, find?_established, if_neg hother]
    simp [hother]

/-- An establish that reads apart keeps the pairing. -/
theorem paired_establishes {server' : Server} {outcome : Outcome} (h : Sound server)
    (hpaired : Paired server) (hapart : ReadsApart server (.establish environment requestJson))
    (hestablishes : Establishes environment requestJson server server' outcome) :
    Paired server' := by
  cases hestablishes with
  | refused what _ => exact hpaired
  | @abandoned establishment pubSub what nodes hprepared hactivated hview =>
      obtain ⟨request, entity, existing, hp⟩ := prepareEstablish_eq_ok hprepared
      have hfree := hp.ownerTag_free h (ownerTag_distinct h hp (hapart ⟨_, _, hprepared, hactivated⟩))
      refine hpaired.congr ?_ fun _ _ => Iff.rfl
      rw [abandon, removeDynamic_activate hactivated hfree]
  | @established establishment pubSub endpoint nodes detail hprepared hactivated hview hdetail =>
      obtain ⟨request, entity, existing, hp⟩ := prepareEstablish_eq_ok hprepared
      have hfree := hp.ownerTag_free h (ownerTag_distinct h hp (hapart ⟨_, _, hprepared, hactivated⟩))
      exact (hpaired.acquire hfree).congr (ownerTags_activate hactivated)
        (holds_established hp hview _)

/-- An establish that reads like another active connection breaks the pairing. -/
theorem not_paired_establishes {server' : Server} {outcome : Outcome} (h : Sound server)
    (hpaired : Paired server)
    (hapart : ¬ ReadsApart server (.establish environment requestJson))
    (hestablishes : Establishes environment requestJson server server' outcome) :
    ¬ Paired server' := by
  intro hpaired'
  simp only [ReadsApart, not_forall, not_not] at hapart
  obtain ⟨⟨establishment, pubSub, hprepared, hactivated⟩, entityName, name, hrequested, other,
    endpoint, hfind, hactive, hother, hslashed⟩ := hapart
  obtain ⟨request, entity, existing, hp⟩ := prepareEstablish_eq_ok hprepared
  rw [hp.requestedConnection, Except.ok.injEq, Prod.mk.injEq] at hrequested
  rw [← hrequested.1, ← hrequested.2, slashed_eq_iff h hp hfind] at hslashed
  have hholds : Holds server.fx other establishment.endpoint.ownerTag :=
    ⟨endpoint, hfind, hactive, hslashed⟩
  cases hestablishes with
  | refused what hrefused => exact hrefused establishment pubSub hprepared hactivated
  | abandoned hprepared' hactivated' hview =>
      rw [hprepared, Except.ok.injEq] at hprepared'
      subst hprepared'
      have hmem := OneToOne.mem_of_holds hpaired' hholds
      rw [abandon, PubSub.ownerTags_removeDynamic (running_activate hactivated')] at hmem
      simp at hmem
  | established hprepared' hactivated' hview hdetail =>
      rw [hprepared, Except.ok.injEq] at hprepared'
      subst hprepared'
      exact OneToOne.not_mem_rest hpaired' ((holds_established hp hview _ other _).mpr
        (.inl hholds)) (ownerTags_activate hactivated') (OneToOne.mem_of_holds hpaired hholds)

end Establish

section Runs

theorem paired_of_core {fx : Engine} {pubSub pubSub' : PubSub.Engine} {nodes : List Bytes}
    {endpoints : OrderedMap Bytes Endpoint}
    (hcore : ∀ other, (endpoints.find? other).map Endpoint.core =
      (fx.endpoints.find? other).map Endpoint.core)
    (htags : PubSub.ownerTags pubSub' = PubSub.ownerTags pubSub)
    (h : Paired ⟨fx, pubSub, nodes⟩) : Paired ⟨{ fx with endpoints }, pubSub', nodes⟩ := by
  refine h.congr (by rw [htags]) fun name tag => ⟨holds_of_core fun other => ?_, holds_of_core hcore⟩
  exact (hcore other).symm

theorem paired_handle (h : Sound server) (hpaired : Paired server) {event : Event}
    (hapart : ReadsApart server event) : Paired (handle server event) := by
  cases event with
  | establish environment requestJson =>
      exact paired_establishes h hpaired hapart
        (establishConnections_establishes h.publisherId environment requestJson)
  | close requestText =>
      rcases closeConnections_cases requestText server with
        ⟨heq, -, -⟩ | ⟨name, endpoint, htarget, heq, -⟩
      · rw [handle, heq]
        exact hpaired
      · obtain ⟨-, hfind, hactive⟩ := closeTarget_eq_ok htarget
        rw [handle, heq]
        exact paired_takeDown h hpaired hfind hactive
  | shutdown =>
      have hboth : Sound (shutdown server) ∧ Paired (shutdown server) := by
        apply keeps_shutdown (I := fun server => Sound server ∧ Paired server)
        · exact fun server name endpoint h hfind hactive =>
            ⟨sound_takeDown h.1 hfind, paired_takeDown h.1 h.2 hfind hactive⟩
        · exact fun server h =>
            ⟨⟨h.1.publisherId, h.1.running, h.1.tagged, h.1.owned⟩, h.2⟩
        · exact ⟨h, hpaired⟩
      exact hboth.2
  | timer group sample =>
      rw [handle, Paired, PubSub.ownerTags_timerCompleted]
      exact hpaired
  | receive endpoint data =>
      obtain ⟨endpoints, hfx, hcore⟩ := foldl_signal_frame
        (PubSub.receive server.pubSub endpoint (fun _ => true) data).2 server.fx
      rw [handle, hfx]
      exact paired_of_core hcore (PubSub.ownerTags_receive _ _ _ _) hpaired

/-- Connections own their data planes one to one throughout a run, and closing
one leaves the others alone, exactly if no establish in it reads, as entity name,
slash and connection name, like another active connection. -/
theorem owned_iff_readsApart (server : Server) (h : Boots server) (events : List Event) :
    Throughout (fun server event => some (handle server event))
        (fun server => Paired server ∧ ClosesItsOwn server) server events ↔
      Along (fun server event => some (handle server event)) ReadsApart server events := by
  apply throughout_iff_along (I := fun server => Sound server ∧ Paired server)
  · rintro server event server' ⟨h, hpaired⟩ hapart hstep
    rw [← Option.some.inj hstep]
    exact ⟨sound_handle h event, paired_handle h hpaired hapart⟩
  · exact fun server h => ⟨h.2, closesItsOwn h.1 h.2⟩
  · rintro server event server' ⟨h, hpaired⟩ hapart hstep ⟨hpaired', -⟩
    rw [← Option.some.inj hstep] at hpaired'
    cases event with
    | establish environment requestJson =>
        exact not_paired_establishes h hpaired hapart
          (establishConnections_establishes h.publisherId environment requestJson) hpaired'
    | close requestText => exact hapart trivial
    | shutdown => exact hapart trivial
    | timer group sample => exact hapart trivial
    | receive endpoint data => exact hapart trivial
  · refine ⟨sound_of_boots h, ?_⟩
    obtain ⟨hendpoints, -, -, -, htags, -⟩ := boots_frame h
    refine ⟨?_, fun tag htag hne => absurd (htags tag htag) hne⟩
    rintro name tag ⟨endpoint, hfind, -⟩
    simp [hendpoints] at hfind

/-- The connections `B/c` of `A` and `c` of `A/B` have one owner tag. -/
def twins : List Event :=
  [.establish ⟨none, permissive⟩ (publishRequest "A" "o" "B/c"),
    .establish ⟨none, permissive⟩ (publishRequest "A/B" "o" "c")]

theorem twins_not_owned :
    ¬ ∀ server, Boots server → ∀ events,
      Throughout (fun server event => some (handle server event))
        (fun server => Paired server ∧ ClosesItsOwn server) server events := by
  intro h
  obtain ⟨hpaired, -⟩ :=
    (h plantServer boots_plantServer twins).last (run_of_total handle plantServer twins)
  have htwins : PubSub.ownerTags (twins.foldl handle plantServer).pubSub =
        [text "fx:AC/A/B/c", text "fx:AC/A/B/c"] ∧
      ((twins.foldl handle plantServer).fx.endpoints.find? (text "c")).any
        (fun endpoint => endpoint.active && endpoint.ownerTag = text "fx:AC/A/B/c") = true := by
    decide +kernel
  obtain ⟨htags, hactive⟩ := htwins
  rw [Option.any_eq_true] at hactive
  obtain ⟨endpoint, hfind, hactive⟩ := hactive
  rw [Bool.and_eq_true, decide_eq_true_eq] at hactive
  have hholds : Holds (twins.foldl handle plantServer).fx (text "c") (text "fx:AC/A/B/c") :=
    ⟨endpoint, hfind, hactive.1, hactive.2⟩
  exact OneToOne.not_mem_rest hpaired hholds (List.Perm.of_eq htags) List.mem_cons_self

theorem owned_iff_readsApart_plantServer :
    Throughout (fun server event => some (handle server event))
      (fun server => Paired server ∧ ClosesItsOwn server) plantServer
      [.establish ⟨none, permissive⟩ (publishRequest "A" "o" "B/c"), .close (text "B/c")] := by
  refine (owned_iff_readsApart plantServer boots_plantServer _).mpr ⟨?_, trivial, trivial⟩
  intro _ entityName name _ other endpoint hfind
  rw [(boots_frame boots_plantServer).1] at hfind
  cases hfind

end Runs

end Fx

end Supernova
