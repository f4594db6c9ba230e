/-
The endpoint table in every state that a server reaches: one active endpoint for
each use of a dataset, a limited number for each entity, names that are usable
or poisoned, and endpoints that keep their entity and their view.
-/
import Supernova.FxRefusals
import Supernova.FxStarted

namespace Supernova

attribute [local semireducible] ByteArray.toList.loop

namespace Fx

/-- A view has all its variables. -/
def Endpoint.Viewed (endpoint : Endpoint) : Prop :=
  endpoint.statusVariable.isSome ∧ endpoint.addressVariable.isSome ∧
    endpoint.datasetVariable.isSome

/-- Two endpoints use the same dataset of the same entity in the same direction. -/
def Endpoint.Rivals (endpoint endpoint' : Endpoint) : Prop :=
  endpoint.entity = endpoint'.entity ∧ endpoint.role = endpoint'.role ∧
    endpoint.dataset = endpoint'.dataset

structure TableSound (fx : Engine) : Prop where
  single : ∀ name name' endpoint endpoint', fx.endpoints.find? name = some endpoint →
    fx.endpoints.find? name' = some endpoint' → endpoint.active = true →
    endpoint'.active = true → endpoint.Rivals endpoint' → name = name'
  bounded : ∀ entityName, endpointCountOf fx entityName ≤ kMaxEndpointsPerEntity
  unpoisoned : ∀ name ∈ fx.poisonedNames, fx.endpoints.find? name = none
  viewed : ∀ name endpoint, fx.endpoints.find? name = some endpoint → endpoint.Viewed
  initial : ∀ name endpoint, fx.endpoints.find? name = some endpoint →
    endpoint.active = false → endpoint.statusVariable = some .initial
  named : fx.endpoints.find? [] = none

/-- An endpoint that can be put into the table under a name. -/
structure Fits (fx : Engine) (name : Bytes) (endpoint : Endpoint) : Prop where
  named : name ≠ []
  unpoisoned : name ∉ fx.poisonedNames
  entity : ∀ endpoint', fx.endpoints.find? name = some endpoint' →
    endpoint.entity = endpoint'.entity
  room : fx.endpoints.find? name = none →
    endpointCountOf fx endpoint.entity < kMaxEndpointsPerEntity
  viewed : endpoint.Viewed
  initial : endpoint.active = false → endpoint.statusVariable = some .initial
  single : endpoint.active = true → ∀ other endpoint', other ≠ name →
    fx.endpoints.find? other = some endpoint' → endpoint'.active = true →
    ¬ endpoint.Rivals endpoint'

section Assignment

variable {fx : Engine} {name : Bytes} {endpoint : Endpoint}

theorem Endpoint.Rivals.symm {endpoint endpoint' : Endpoint} (h : endpoint.Rivals endpoint') :
    endpoint'.Rivals endpoint :=
  ⟨h.1.symm, h.2.1.symm, h.2.2.symm⟩

/-- The endpoints of an entity are counted by what they were created under. -/
theorem endpointCountOf_eq (fx : Engine) (entityName : Bytes) :
    endpointCountOf fx entityName =
      (fx.endpoints.entries.map (·.2.entity)).countP (· = entityName) := by
  rw [endpointCountOf, List.countP_map]
  rfl

theorem endpointCountOf_assign (hfits : Fits fx name endpoint) (entityName : Bytes) :
    endpointCountOf { fx with endpoints := fx.endpoints.assign name endpoint } entityName =
      endpointCountOf fx entityName +
        if fx.endpoints.find? name = none ∧ endpoint.entity = entityName then 1 else 0 := by
  rw [endpointCountOf_eq, endpointCountOf_eq]
  rcases hfind : fx.endpoints.find? name with _ | endpoint'
  · have hperm := (OrderedMap.entries_assign_perm hfind endpoint).map (·.2.entity)
    rw [hperm.countP_eq, List.map_cons, List.countP_cons]
    simp
  · have hsame := OrderedMap.map_entries_assign (f := fun entry => entry.2.entity) hfind
      (hfits.entity endpoint' hfind)
    rw [hsame]
    simp

/-- Every endpoint stays in the table under its name, with the entity it was
created under. -/
def KeepsEntities (fx fx' : Engine) : Prop :=
  ∀ name endpoint, fx.endpoints.find? name = some endpoint →
    ∃ endpoint', fx'.endpoints.find? name = some endpoint' ∧ endpoint'.entity = endpoint.entity

theorem KeepsEntities.refl (fx : Engine) : KeepsEntities fx fx :=
  fun _ endpoint hfind => ⟨endpoint, hfind, rfl⟩

theorem KeepsEntities.trans {fx fx' fx'' : Engine} (h : KeepsEntities fx fx')
    (h' : KeepsEntities fx' fx'') : KeepsEntities fx fx'' := by
  intro name endpoint hfind
  obtain ⟨endpoint', hfind', hentity⟩ := h name endpoint hfind
  obtain ⟨endpoint'', hfind'', hentity'⟩ := h' name endpoint' hfind'
  exact ⟨endpoint'', hfind'', hentity'.trans hentity⟩

theorem Fits.keepsEntities (hfits : Fits fx name endpoint) :
    KeepsEntities fx { fx with endpoints := fx.endpoints.assign name endpoint } := by
  intro other endpoint' hfind
  rw [OrderedMap.find?_assign]
  split
  · rename_i heq
    exact ⟨endpoint, rfl, hfits.entity endpoint' (heq ▸ hfind)⟩
  · exact ⟨endpoint', hfind, rfl⟩

theorem TableSound.assign (h : TableSound fx) (hfits : Fits fx name endpoint) :
    TableSound { fx with endpoints := fx.endpoints.assign name endpoint } where
  single := by
    intro name₁ name₂ endpoint₁ endpoint₂ hfind₁ hfind₂ hactive₁ hactive₂ hrivals
    rw [OrderedMap.find?_assign] at hfind₁ hfind₂
    split at hfind₁ <;> split at hfind₂
    · simp [*]
    · rw [Option.some.injEq] at hfind₁
      subst hfind₁
      exact absurd hrivals (hfits.single hactive₁ name₂ endpoint₂ ‹_› hfind₂ hactive₂)
    · rw [Option.some.injEq] at hfind₂
      subst hfind₂
      exact absurd hrivals.symm (hfits.single hactive₂ name₁ endpoint₁ ‹_› hfind₁ hactive₁)
    · exact h.single name₁ name₂ endpoint₁ endpoint₂ hfind₁ hfind₂ hactive₁ hactive₂ hrivals
  bounded := by
    intro entityName
    rw [endpointCountOf_assign hfits]
    split
    · rename_i hnew
      have hroom := hfits.room hnew.1
      rw [hnew.2] at hroom
      exact hroom
    · exact h.bounded entityName
  unpoisoned := by
    intro other hother
    have hne : other ≠ name := fun heq => hfits.unpoisoned (heq ▸ hother)
    rw [OrderedMap.find?_assign, if_neg hne]
    exact h.unpoisoned other hother
  viewed := by
    intro other endpoint' hfind
    rw [OrderedMap.find?_assign] at hfind
    split at hfind
    · exact Option.some.inj hfind ▸ hfits.viewed
    · exact h.viewed other endpoint' hfind
  initial := by
    intro other endpoint' hfind
    rw [OrderedMap.find?_assign] at hfind
    split at hfind
    · exact Option.some.inj hfind ▸ hfits.initial
    · exact h.initial other endpoint' hfind
  named := by
    rw [OrderedMap.find?_assign, if_neg hfits.named.symm]
    exact h.named

/-- What is in the table fits there. -/
theorem TableSound.fits (h : TableSound fx) (hfind : fx.endpoints.find? name = some endpoint) :
    Fits fx name endpoint where
  named := by
    rintro rfl
    rw [h.named] at hfind
    cases hfind
  unpoisoned := by
    intro hpoisoned
    rw [h.unpoisoned name hpoisoned] at hfind
    cases hfind
  entity := by
    intro endpoint' hfind'
    rw [hfind, Option.some.injEq] at hfind'
    rw [hfind']
  room := by
    intro hnone
    rw [hfind] at hnone
    cases hnone
  viewed := h.viewed name endpoint hfind
  initial := h.initial name endpoint hfind
  single := by
    intro hactive other endpoint' hother hfind' hactive' hrivals
    exact hother (h.single name other endpoint endpoint' hfind hfind' hactive hactive' hrivals).symm

theorem Endpoint.Viewed.setEndpointStatus (h : endpoint.Viewed) (status : EndpointStatus) :
    (setEndpointStatus endpoint status).Viewed := by
  refine ⟨?_, h.2.1, h.2.2⟩
  rw [statusVariable_setEndpointStatus, Option.isSome_map]
  exact h.1

/-- Showing a status fits where that is allowed. -/
theorem Fits.setEndpointStatus (h : Fits fx name endpoint) {status : EndpointStatus}
    (hstatus : endpoint.active = true ∨ status = .initial) :
    Fits fx name (setEndpointStatus endpoint status) where
  named := h.named
  unpoisoned := h.unpoisoned
  entity := h.entity
  room := h.room
  viewed := h.viewed.setEndpointStatus status
  initial := by
    intro hinactive
    obtain ⟨shown, hshown⟩ := Option.isSome_iff_exists.mp h.viewed.1
    rcases hstatus with hactive | rfl
    · rw [Fx.setEndpointStatus, hactive] at hinactive
      cases hinactive
    · rw [statusVariable_setEndpointStatus, hshown]
      rfl
  single := h.single

theorem Fits.closed (h : Fits fx name endpoint) : Fits fx name (closed endpoint) where
  named := h.named
  unpoisoned := h.unpoisoned
  entity := h.entity
  room := h.room
  viewed := h.viewed.setEndpointStatus .initial
  initial := by
    intro _
    obtain ⟨shown, hshown⟩ := Option.isSome_iff_exists.mp h.viewed.1
    rw [Fx.closed, statusVariable_setEndpointStatus, hshown]
    rfl
  single := by rintro ⟨⟩

end Assignment

/-- What an operation makes of a sound table: a sound one with the same endpoints
and more. -/
def Evolves (fx fx' : Engine) : Prop :=
  TableSound fx → TableSound fx' ∧ KeepsEntities fx fx'

section Evolution

variable {fx fx' fx'' : Engine}

theorem Evolves.refl (fx : Engine) : Evolves fx fx :=
  fun h => ⟨h, KeepsEntities.refl fx⟩

theorem Evolves.trans (h : Evolves fx fx') (h' : Evolves fx' fx'') : Evolves fx fx'' := by
  intro hsound
  obtain ⟨hsound', hkept⟩ := h hsound
  obtain ⟨hsound'', hkept'⟩ := h' hsound'
  exact ⟨hsound'', hkept.trans hkept'⟩

theorem evolves_assign {name : Bytes} {endpoint : Endpoint}
    (hfits : TableSound fx → Fits fx name endpoint) :
    Evolves fx { fx with endpoints := fx.endpoints.assign name endpoint } :=
  fun h => ⟨h.assign (hfits h), (hfits h).keepsEntities⟩

/-- A callback shows a status on an active endpoint only. -/
theorem evolves_markSubscriberOperational (lockFree : Bool) (name : Bytes) (fx : Engine) :
    Evolves fx (markSubscriberOperational lockFree name fx).1 := by
  unfold markSubscriberOperational
  split
  · exact Evolves.refl fx
  split
  · exact Evolves.refl fx
  split
  · exact Evolves.refl fx
  · rename_i endpoint hfind hskip
    simp only [Bool.or_eq_true, Bool.not_eq_true', not_or, Bool.not_eq_false] at hskip
    rw [showStatus, hfind]
    exact evolves_assign fun h => (h.fits hfind).setEndpointStatus (.inl hskip.1)

theorem evolves_foldl_signal (reactions : List (PubSub.ReaderKey × PubSub.Reaction))
    (fx : Engine) : Evolves fx (reactions.foldl signal fx) := by
  induction reactions generalizing fx with
  | nil => exact Evolves.refl fx
  | cons reaction reactions ih =>
      refine Evolves.trans ?_ (ih (signal fx reaction))
      unfold signal
      split
      · exact Evolves.refl fx
      · exact evolves_markSubscriberOperational true _ fx

theorem evolves_takeDown {server : Server} {name : Bytes} {endpoint : Endpoint}
    (hfind : server.fx.endpoints.find? name = some endpoint) :
    Evolves server.fx (takeDown name endpoint server).fx :=
  evolves_assign fun h => (h.fits hfind).closed

theorem evolves_shutdown (server : Server) : Evolves server.fx (shutdown server).fx :=
  keeps_shutdown (I := fun stopped => Evolves server.fx stopped.fx)
    (fun _ _ _ h hfind _ => h.trans (evolves_takeDown hfind))
    (fun _ h => h.trans fun hsound =>
      ⟨⟨hsound.single, hsound.bounded, hsound.unpoisoned, hsound.viewed, hsound.initial,
        hsound.named⟩, KeepsEntities.refl _⟩)
    (Evolves.refl server.fx)

end Evolution

section Establish

variable {fx : Engine} {requestJson : Bytes} {establishment : Establishment} {request : Members}
  {entity : EntityRuntime} {existing : Option Endpoint}

theorem autoName_ne_nil (n : Nat) : autoName n ≠ [] := by
  have hcep : text "cep-" ≠ [] := by decide
  simp [autoName, hcep]

/-- No connection is named by the empty string. -/
theorem name_ne_nil_of_connectionNameOf {entityName name : Bytes} (h : TableSound fx)
    (hname : connectionNameOf fx request entityName = .ok name) : name ≠ [] := by
  unfold connectionNameOf at hname
  split at hname
  · unfold firstFreeAutoName at hname
    split at hname
    · rename_i candidate hcandidate
      rw [except_pure_eq_ok] at hname
      subst hname
      unfold freshAutoName at hcandidate
      split at hcandidate
      · obtain ⟨n, -, rfl⟩ := List.mem_map.mp (List.mem_of_find?_eq_some hcandidate)
        exact autoName_ne_nil (n + 1)
      · cases hcandidate
    split at hname
    · rename_i entry hentry
      rw [except_pure_eq_ok] at hname
      have hfind := (OrderedMap.mem_entries_iff fx.endpoints entry.1 entry.2).mp
        (List.mem_of_find?_eq_some hentry)
      exact hname ▸ (h.fits hfind).named
    · cases hname
  · simp only [validateConnectionName, except_bind_eq_ok, check_eq_ok, except_pure_eq_ok] at hname
    obtain ⟨-, ⟨-, hempty, -⟩, rfl⟩ := hname
    simpa using hempty
  · cases hname

/-- What the code takes for no name is the name of no endpoint. -/
theorem not_rivals_of_notBusy (h : TableSound fx) {endpoint : Endpoint}
    (hbusy : activeConnectionNameFor fx endpoint.entity endpoint.role endpoint.dataset = [])
    {other : Bytes} {endpoint' : Endpoint} (hfind : fx.endpoints.find? other = some endpoint')
    (hactive : endpoint'.active = true) : ¬ endpoint.Rivals endpoint' := by
  rintro ⟨hentity, hrole, hdataset⟩
  unfold activeConnectionNameFor at hbusy
  rcases hentry : fx.endpoints.entries.find? fun entry => entry.2.active &&
    entry.2.entity = endpoint.entity && entry.2.role = endpoint.role &&
      entry.2.dataset = endpoint.dataset with _ | entry
  · have hnone := List.find?_eq_none.mp hentry (other, endpoint')
      ((OrderedMap.mem_entries_iff fx.endpoints other endpoint').mpr hfind)
    simp [hactive, hentity, hrole, hdataset] at hnone
  · rw [hentry] at hbusy
    have hfind' := (OrderedMap.mem_entries_iff fx.endpoints entry.1 entry.2).mp
      (List.mem_of_find?_eq_some hentry)
    exact (h.fits hfind').named hbusy

/-- The endpoints without a view are those that are not in the table. -/
theorem fresh_iff (h : TableSound fx)
    (hprepared : Prepared fx requestJson establishment request entity existing) :
    establishment.endpoint.statusVariable = none ↔
      fx.endpoints.find? establishment.name = none := by
  obtain ⟨-, hfind, -, -⟩ := existingEndpoint_eq_ok.1 hprepared.existingFound
  rw [hprepared.statusVariable, hfind]
  rcases existing with _ | endpoint
  · simp
  · have hviewed := (h.viewed _ _ hfind).1
    rw [Option.bind_some, ← Option.not_isSome_iff_eq_none, hviewed]
    simp

/-- The view of an endpoint that is used again is there; that of a new one is built. -/
theorem viewed_of_buildEndpointView {refusals : Refusals} {nodes nodes' : List Bytes}
    {endpoint : Endpoint} (h : TableSound fx)
    (hprepared : Prepared fx requestJson establishment request entity existing)
    (hview : buildEndpointView refusals establishment nodes = .ok endpoint nodes') :
    endpoint.Viewed := by
  unfold buildEndpointView at hview
  split at hview
  · rename_i hsome
    rw [estate_pure_eq_ok] at hview
    obtain ⟨rfl, -⟩ := hview
    rcases existing with _ | endpoint
    · rw [hprepared.statusVariable] at hsome
      cases hsome
    · have hfind := (existingEndpoint_eq_ok.1 hprepared.existingFound).2.1
      obtain ⟨-, haddress, hdataset⟩ := h.viewed _ _ hfind
      refine ⟨hsome, ?_, ?_⟩
      · rw [hprepared.addressVariable]
        exact haddress
      · rw [hprepared.datasetVariable]
        exact hdataset
  · simp only [estate_bind_eq_ok, estate_pure_eq_ok] at hview
    obtain ⟨-, -, -, -, -, -, -, -, -, -, -, -, rfl, -⟩ := hview
    exact ⟨rfl, rfl, rfl⟩

theorem fits_established {refusals : Refusals} {nodes nodes' : List Bytes} {endpoint : Endpoint}
    {status : EndpointStatus} (h : TableSound fx)
    (hprepared : Prepared fx requestJson establishment request entity existing)
    (hview : buildEndpointView refusals establishment nodes = .ok endpoint nodes') :
    Fits fx establishment.name (establishedEndpoint endpoint status) := by
  obtain ⟨hentity, hdataset, hrole, -, -⟩ := buildEndpointView_ok hview
  obtain ⟨hunpoisoned, hfind, hown, hroom⟩ := existingEndpoint_eq_ok.1 hprepared.existingFound
  obtain ⟨hstatus, haddress, hdatasetVariable⟩ := viewed_of_buildEndpointView h hprepared hview
  exact
    { named := name_ne_nil_of_connectionNameOf h hprepared.nameChosen
      unpoisoned := hunpoisoned
      entity := by
        intro endpoint' hfind'
        exact hentity.trans (hown endpoint' (hfind.symm.trans hfind')).2.symm
      room := by
        intro hnone
        rw [hfind] at hnone
        have hlt := hroom hnone
        rwa [← hentity] at hlt
      viewed := by
        refine ⟨?_, ?_, ?_⟩
        · rw [establishedEndpoint, statusVariable_setEndpointStatus, Option.isSome_map]
          exact hstatus
        · exact (Option.isSome_map ..).trans haddress
        · exact (Option.isSome_map ..).trans hdatasetVariable
      initial := by rintro ⟨⟩
      single := by
        intro _ other endpoint' _ hfind' hactive'
        have hbusy := hprepared.notBusy
        rw [← hentity, ← hrole, ← hdataset] at hbusy
        exact not_rivals_of_notBusy h hbusy hfind' hactive' }

theorem evolves_establishes {environment : Environment} {server server' : Server}
    {outcome : Outcome}
    (hestablishes : Establishes environment requestJson server server' outcome) :
    Evolves server.fx server'.fx := by
  cases hestablishes with
  | refused what _ => exact Evolves.refl server.fx
  | abandoned hprepared hactivated hview =>
      intro h
      obtain ⟨request, entity, existing, hprepared⟩ := prepareEstablish_eq_ok hprepared
      have hfresh := (fresh_iff h hprepared).mp (buildEndpointView_error hview).1
      refine ⟨⟨h.single, h.bounded, ?_, h.viewed, h.initial, h.named⟩, KeepsEntities.refl _⟩
      intro name hname
      rcases List.mem_insert_iff.mp hname with rfl | hname
      · exact hfresh
      · exact h.unpoisoned name hname
  | established hprepared hactivated hview hdetail =>
      obtain ⟨request, entity, existing, hprepared⟩ := prepareEstablish_eq_ok hprepared
      rw [showStatus_storeEndpoint, OrderedMap.assign_again]
      exact evolves_assign fun h => fits_established h hprepared hview

end Establish

section Runs

theorem evolves_handle {server : Server} (h : Sound server) (event : Event) :
    Evolves server.fx (handle server event).fx := by
  cases event with
  | establish environment requestJson =>
      exact evolves_establishes
        (establishConnections_establishes h.publisherId environment requestJson)
  | close requestText =>
      rcases closeConnections_cases requestText server with
        ⟨heq, -, -⟩ | ⟨name, endpoint, htarget, heq, -⟩
      · rw [handle, heq]
        exact Evolves.refl server.fx
      · rw [handle, heq]
        exact evolves_takeDown (closeTarget_eq_ok htarget).2.1
  | shutdown => exact evolves_shutdown server
  | timer group sample => exact Evolves.refl server.fx
  | receive endpoint data => exact evolves_foldl_signal _ server.fx

theorem evolves_run {server : Server} (h : Sound server) (events : List Event) :
    Evolves server.fx (events.foldl handle server).fx := by
  induction events generalizing server with
  | nil => exact Evolves.refl server.fx
  | cons event events ih => exact (evolves_handle h event).trans (ih (sound_handle h event))

theorem tableSound_of_boots {server : Server} (h : Boots server) : TableSound server.fx := by
  obtain ⟨hendpoints, hpoisoned, -⟩ := boots_frame h
  have hnone : ∀ name, server.fx.endpoints.find? name = none := by simp [hendpoints]
  exact
    { single := by simp [hnone]
      bounded := by simp [endpointCountOf, hendpoints, OrderedMap.empty]
      unpoisoned := by simp [hpoisoned]
      viewed := by simp [hnone]
      initial := by simp [hnone]
      named := hnone [] }

/-- The endpoint table is sound in every state that a server reaches, and what is
in it stays there. -/
theorem endpointTable_sound {server : Server} (h : Reachable server) :
    TableSound server.fx ∧
      ∀ events : List Event, KeepsEntities server.fx (events.foldl handle server).fx := by
  have hsound := sound_of_reachable h
  obtain ⟨booted, events, hboots, rfl⟩ := h
  obtain ⟨htable, -⟩ := evolves_run (sound_of_boots hboots) events (tableSound_of_boots hboots)
  exact ⟨htable, fun events => (evolves_run hsound events htable).2⟩

theorem endpointTable_sound_shadowed :
    TableSound shadowed.fx ∧
      ∀ events : List Event, KeepsEntities shadowed.fx (events.foldl handle shadowed).fx :=
  endpointTable_sound reachable_shadowed

end Runs

end Fx

end Supernova
