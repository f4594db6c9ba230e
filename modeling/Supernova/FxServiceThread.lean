/-
What the service thread keeps: it moves on between its points, brings data
planes up and takes them down, and changes the endpoint table.
-/
import Supernova.FxStarted
import Supernova.FxSubscribers

namespace Supernova

namespace Fx

variable {s s' : Threads}

section Frames

theorem posted_eq_some {next : Threads} : posted s next = some s' ↔ s.io = .idle ∧ next = s' := by
  unfold posted
  cases s.io <;> simp

/-- The service thread keeps the lock while it is at work. -/
theorem Synchronous.held (h : Synchronous s) {service : ServicePoint} (hbusy : s.service ≠ .idle)
    (hbusy' : service ≠ .idle) : Locked s.lock service s.io := by
  have hlocked := h.locked
  unfold Locked at hlocked ⊢
  split at hlocked
  · exact absurd hlocked.1 hbusy
  · exact ⟨hbusy', hlocked.2⟩
  · exact absurd hlocked.1 hbusy

/-- The io thread moves between points that are not under the lock. -/
theorem Synchronous.unheld (h : Synchronous s) {before io : IoPoint} (hbefore : s.io = before)
    (hnot : ¬ before.UnderLock) (hnot' : ¬ io.UnderLock) : Locked s.lock s.service io := by
  have hlocked := h.locked
  rw [hbefore] at hlocked
  unfold Locked at hlocked ⊢
  split at hlocked
  · exact ⟨hlocked.1, hnot'⟩
  · exact ⟨hlocked.1, hnot'⟩
  · exact absurd hlocked.2 hnot

theorem Synchronous.active (h : Synchronous s) {name : Bytes} {endpoint : Endpoint}
    (hfind : s.server.fx.endpoints.find? name = some endpoint)
    (hstatus : endpoint.statusVariable = some .operational) : endpoint.active = true := by
  by_contra hinactive
  rw [(h.kept name endpoint hfind).initial (by simpa using hinactive)] at hstatus
  cases hstatus

/-- The service thread moves on without a change of what the others see. -/
theorem Synchronous.move (h : Synchronous s) (nodes : List Bytes) {lock : Option Holder}
    {before service : ServicePoint} (hbefore : s.service = before)
    (hlocked : Locked lock service s.io) (hpending : service.pending = before.pending)
    (hfresh : service.fresh = before.fresh) (hclears : service.Clears = before.Clears)
    (hknown : Known s.server.fx s.server.pubSub service) :
    Synchronous { s with server := { s.server with nodes }, lock, service } where
  running := h.running
  locked := hlocked
  kept := h.kept
  distinct := h.distinct
  linked := by
    refine h.linked.congr (fun _ => rfl) (fun name tag => ?_) fun name hclear => ?_
    · simp only [Connects, hpending, hbefore]
    · change service.Clears name
      rw [hclears, ← hbefore]
      exact hclear
  unsignalled := by
    intro establishment hestablishment
    change service.fresh = some establishment at hestablishment
    rw [hfresh, ← hbefore] at hestablishment
    exact h.unsignalled establishment hestablishment
  signalled := h.signalled
  operational := by
    intro name endpoint hfind hrole hstatus
    change _ ∨ service.Clears name
    rw [hclears, ← hbefore]
    exact h.operational name endpoint hfind hrole hstatus
  callback := h.callback
  known := hknown

/-- A call that is being served goes on under the lock. -/
theorem Synchronous.proceed (h : Synchronous s) (nodes : List Bytes)
    {before service : ServicePoint} (hbefore : s.service = before) (hbusy : before ≠ .idle)
    (hbusy' : service ≠ .idle) (hpending : service.pending = before.pending)
    (hfresh : service.fresh = before.fresh) (hclears : service.Clears = before.Clears)
    (hknown : Known s.server.fx s.server.pubSub service) :
    Synchronous { s with server := { s.server with nodes }, service } :=
  h.move nodes hbefore (h.held (hbefore ▸ hbusy) hbusy') hpending hfresh hclears hknown

end Frames

section Checks

/-- The data plane goes with the role. -/
theorem dataPlaneFor_suits {entity : EntityRuntime} {request : Members} {role : Role}
    {datasetName host name : Bytes} {port : UInt16} {dataPlane : DataPlane}
    (h : dataPlaneFor entity request role datasetName host port name = .ok dataPlane) :
    (∀ reader, dataPlane = .subscriber reader →
      role = .subscriber ∧ reader.onFirstData = some name) ∧
    ∀ dataset group, dataPlane = .publisher dataset group → role = .publisher := by
  cases role with
  | publisher =>
      obtain ⟨-, -, h⟩ := except_bind_eq_ok.1 h
      split at h
      · cases h
      · obtain ⟨_, -, h⟩ := except_bind_eq_ok.1 h
        obtain ⟨_, -, h⟩ := except_bind_eq_ok.1 h
        rw [except_pure_eq_ok] at h
        subst h
        exact ⟨nofun, fun _ _ _ => rfl⟩
  | subscriber =>
      obtain ⟨-, -, h⟩ := except_bind_eq_ok.1 h
      split at h
      · cases h
      · split at h
        · cases h
        · obtain ⟨_, -, h⟩ := except_bind_eq_ok.1 h
          rw [except_pure_eq_ok] at h
          subst h
          refine ⟨fun reader heq => ⟨rfl, ?_⟩, nofun⟩
          cases heq
          rfl

theorem suits_of_prepared (h : Synchronous s) {requestJson : Bytes}
    {establishment : Establishment}
    (hprepared : prepareEstablish s.server.fx requestJson = .ok establishment) :
    Suits establishment ∧ Inactive s.server.fx establishment.name := by
  obtain ⟨request, entity, existing, hprepared⟩ := prepareEstablish_eq_ok hprepared
  obtain ⟨host, port, -, hdataPlane⟩ := hprepared.dataPlane
  obtain ⟨hsubscriber, hpublisher⟩ := dataPlaneFor_suits hdataPlane
  refine ⟨⟨hsubscriber, hpublisher, ?_, fun status hstatus => ?_⟩, fun endpoint hfind =>
    hprepared.not_active hfind⟩
  · rw [hprepared.ownerTag]
    exact ownerTag_ne_nil _ _ _
  · rw [hprepared.statusVariable, Option.bind_eq_some_iff] at hstatus
    obtain ⟨endpoint, rfl, hstatus⟩ := hstatus
    obtain ⟨-, hfind, hfree, -⟩ := existingEndpoint_eq_ok.1 hprepared.existingFound
    have hinitial := (h.kept _ endpoint hfind).initial (hfree endpoint rfl).1
    rw [hstatus, Option.some.injEq] at hinitial
    exact hinitial

/-- A view that was there shows what it did, a new one that nothing has happened. -/
theorem statusVariable_buildEndpointView {refusals : Refusals} {establishment : Establishment}
    {nodes nodes' : List Bytes} {endpoint : Endpoint}
    (h : buildEndpointView refusals establishment nodes = .ok endpoint nodes') :
    endpoint.statusVariable = some (establishment.endpoint.statusVariable.getD .initial) := by
  unfold buildEndpointView at h
  rcases hview : establishment.endpoint.statusVariable with _ | status
  · simp only [hview, Option.isSome_none, Bool.false_eq_true, if_false, estate_bind_eq_ok,
      estate_pure_eq_ok] at h
    obtain ⟨-, -, -, -, -, -, -, -, -, -, -, -, rfl, -⟩ := h
    rfl
  · simp only [hview, Option.isSome_some, if_true, estate_pure_eq_ok] at h
    obtain ⟨rfl, -⟩ := h
    exact hview

/-- Under a tag that is free, an activation adds the reader of a subscriber. -/
theorem readers_activate {configuration : Configuration} {socket : Option Bytes}
    {establishment : Establishment} {pubSub pubSub' : PubSub.Engine}
    (h : activate configuration socket establishment pubSub = .ok pubSub')
    (hsuits : Suits establishment) :
    (establishment.endpoint.role = .publisher ∧ pubSub'.readers = pubSub.readers) ∨
    ∃ key reader, establishment.endpoint.role = .subscriber ∧
      pubSub.readers.find? key = none ∧ pubSub'.readers = pubSub.readers.assign key reader ∧
      reader.ownerTag = establishment.endpoint.ownerTag ∧ reader.targets ≠ [] ∧
      reader.onFirstData = some establishment.name ∧
      reader.firstDataSignalled = false ∧ reader.dataSeen = false := by
  unfold activate at h
  split at h
  · rename_i dataset group hdataPlane
    obtain ⟨-, rfl⟩ := PubSub.addDynamicWriterGroup_eq_ok.1 h
    exact .inl ⟨hsuits.publisher dataset group hdataPlane, rfl⟩
  · rename_i reader hdataPlane
    obtain ⟨hrole, hname⟩ := hsuits.subscriber reader hdataPlane
    obtain ⟨⟨-, htargets, hfresh⟩, receivers, -, rfl⟩ := PubSub.addDynamicReader_eq_ok.1 h
    exact .inr ⟨reader.key, _, hrole, hfresh, rfl, rfl, htargets, hname, rfl, rfl⟩

end Checks

section DataPlanes

theorem Seen.removeDynamic {pubSub : PubSub.Engine} {tag other : Bytes} (h : Seen pubSub tag)
    (hrunning : pubSub.running = true) (hne : tag ≠ other) :
    Seen (PubSub.removeDynamic pubSub other) tag := by
  obtain ⟨key, reader, hfind, rfl, hseen⟩ := h
  refine ⟨key, reader, ?_, rfl, hseen⟩
  rw [PubSub.find?_removeDynamic hrunning, hfind, Option.filter_some, if_pos (by simpa using hne)]

/-- What a removal leaves was there. -/
theorem find?_of_removeDynamic {pubSub : PubSub.Engine} (hrunning : pubSub.running = true)
    {tag : Bytes} {key : PubSub.ReaderKey} {reader : PubSub.ReaderRuntime}
    (hfind : (PubSub.removeDynamic pubSub tag).readers.find? key = some reader) :
    pubSub.readers.find? key = some reader ∧ reader.ownerTag ≠ tag := by
  rw [PubSub.find?_removeDynamic hrunning, Option.filter_eq_some_iff, decide_eq_true_eq] at hfind
  exact hfind

theorem Subscribes.holds {fx : Engine} {name tag : Bytes} (h : Subscribes fx name tag) :
    Holds fx name tag := by
  obtain ⟨endpoint, hfind, hactive, -, htag⟩ := h
  exact ⟨endpoint, hfind, hactive, htag⟩

theorem connects_of_pending_none {fx : Engine} {service : ServicePoint}
    (h : service.pending = none) (name tag : Bytes) :
    Connects fx service name tag ↔ Subscribes fx name tag := by
  simp [Connects, h]

theorem connects_of_pending {fx : Engine} {service : ServicePoint}
    {establishment : Establishment} (h : service.pending = some establishment)
    (name tag : Bytes) :
    Connects fx service name tag ↔ Subscribes fx name tag ∨
      establishment.endpoint.role = .subscriber ∧ name = establishment.name ∧
        tag = establishment.endpoint.ownerTag := by
  simp only [Connects, h, Option.some.injEq, exists_eq_left', eq_comm]

theorem unclaimed_of_tagsDistinct {environment : Environment} {establishment : Establishment}
    (hservice : s.service = .activating environment establishment)
    (hdistinct : TagsDistinct s .service) (hinactive : Inactive s.server.fx establishment.name) :
    Unclaimed s.server.fx establishment := by
  refine ⟨hinactive, ?_⟩
  rintro other ⟨endpoint, hfind, hactive, htag⟩
  refine hdistinct environment establishment hservice other endpoint hfind hactive ?_ htag
  rintro rfl
  rw [hinactive endpoint hfind] at hactive
  cases hactive

theorem unclaimed_of_pending (h : Synchronous s) {establishment : Establishment}
    (hpending : s.service.pending = some establishment) :
    Unclaimed s.server.fx establishment := by
  have hknown := h.known
  unfold ServicePoint.pending at hpending
  split at hpending
  · rename_i hservice
    rw [hservice] at hknown
    exact Option.some.inj hpending ▸ hknown.2
  · rename_i hservice
    rw [hservice] at hknown
    exact Option.some.inj hpending ▸ hknown.2
  · rename_i hservice
    rw [hservice] at hknown
    exact Option.some.inj hpending ▸ hknown.2.1
  · cases hpending

theorem synchronous_activated (h : Synchronous s) {environment : Environment}
    {establishment : Establishment} (hservice : s.service = .activating environment establishment)
    (hio : s.io = .idle) (hdistinct : TagsDistinct s .service) {pubSub : PubSub.Engine}
    (hactivate : activate s.server.fx.configuration environment.socket establishment
      s.server.pubSub = .ok pubSub) :
    Synchronous { s with
      server := { s.server with pubSub }, service := .viewing environment establishment } := by
  have hknown := h.known
  have hlinked := h.linked
  rw [hservice] at hknown hlinked
  obtain ⟨hsuits, hinactive⟩ := hknown
  have hunclaimed := unclaimed_of_tagsDistinct hservice hdistinct hinactive
  have hfree : ∀ other, ¬ Connects s.server.fx (.activating environment establishment) other
      establishment.endpoint.ownerTag := by
    intro other hother
    rw [connects_of_pending_none rfl] at hother
    exact hunclaimed.free other hother.holds
  have hnone : ∀ key reader, s.server.pubSub.readers.find? key = some reader →
      reader.ownerTag ≠ establishment.endpoint.ownerTag :=
    fun _ _ hfind => hlinked.no_reader hsuits.tagged hfree hfind
  obtain ⟨hlinked', hold, hnew⟩ : Linked pubSub.readers
      (Connects s.server.fx (.viewing environment establishment))
        (ServicePoint.Clears (.viewing environment establishment)) ∧
      (∀ key reader, s.server.pubSub.readers.find? key = some reader →
        pubSub.readers.find? key = some reader) ∧
      ∀ key reader, pubSub.readers.find? key = some reader →
        s.server.pubSub.readers.find? key = some reader ∨
        reader.ownerTag = establishment.endpoint.ownerTag ∧ reader.firstDataSignalled = false := by
    rcases readers_activate hactivate hsuits with
      ⟨hrole, heq⟩ | ⟨key, reader, hrole, hfresh, heq, htag, htargets, hname, hsignalled, -⟩
    · refine ⟨hlinked.congr (fun key => by rw [heq]) (fun name tag => ?_) fun _ => id,
        fun key reader => by rw [heq]; exact id, fun key reader => by rw [heq]; exact .inl⟩
      rw [connects_of_pending rfl, connects_of_pending_none rfl, hrole]
      simp
    · rw [heq]
      refine ⟨hlinked.acquire hfresh (htag ▸ hsuits.tagged) htargets hname (htag ▸ hfree) ?_, ?_, ?_⟩
      · intro other tag
        rw [connects_of_pending rfl, connects_of_pending_none rfl, hrole, htag]
        simp
      · intro key' reader' hfind
        have hne : key' ≠ key := by
          rintro rfl
          rw [hfresh] at hfind
          cases hfind
        rw [OrderedMap.find?_assign, if_neg hne, hfind]
      · intro key' reader' hfind
        rcases OrderedMap.find?_assign_eq_some.1 hfind with ⟨-, rfl⟩ | ⟨-, hfind⟩
        · exact .inr ⟨htag, hsignalled⟩
        · exact .inl hfind
  exact
    { running := running_activate hactivate
      locked := h.held (by simp [hservice]) (by rintro ⟨⟩)
      kept := h.kept
      distinct := h.distinct
      linked := hlinked'
      unsignalled := by
        rintro _ ⟨⟩ key reader hfind htag
        refine ⟨?_, by rw [hio]; exact id⟩
        rcases hnew key reader hfind with hfind | ⟨-, hsignalled⟩
        · exact absurd htag (hnone key reader hfind)
        · exact hsignalled
      signalled := by
        intro key reader name endpoint hfind hname hendpoint htag hsignalled
        rcases hnew key reader hfind with hfind | ⟨-, hunsignalled⟩
        · exact h.signalled key reader name endpoint hfind hname hendpoint htag hsignalled
        · rcases hsignalled with hsignalled | hmarked
          · rw [hunsignalled] at hsignalled
            cases hsignalled
          · rw [hio] at hmarked
            exact hmarked.elim
      operational := by
        intro name endpoint hfind hrole hstatus
        have hseen := h.operational name endpoint hfind hrole hstatus
        rw [hservice] at hseen
        obtain ⟨key, reader, hreader, htag, hseen⟩ := hseen.resolve_right id
        exact .inl ⟨key, reader, hold key reader hreader, htag, hseen⟩
      callback := by
        intro key name hcallback
        rw [hio] at hcallback
        cases hcallback
      known := ⟨hsuits, hunclaimed⟩ }

theorem synchronous_abandoned (h : Synchronous s) {establishment : Establishment} {what : Bytes}
    (hservice : s.service = .abandoning establishment what) (hio : s.io = .idle)
    (outcome : Outcome) :
    Synchronous { s with
      server := abandon establishment s.server.nodes s.server, service := .returning outcome } := by
  have hknown := h.known
  have hlinked := h.linked
  rw [hservice] at hknown hlinked
  obtain ⟨-, hunclaimed⟩ := hknown
  exact
    { running := PubSub.running_removeDynamic.trans h.running
      locked := h.held (by simp [hservice]) (by rintro ⟨⟩)
      kept := h.kept
      distinct := h.distinct
      linked := by
        refine hlinked.release (PubSub.find?_removeDynamic h.running) ?_ (fun _ => id) ?_
        · intro other tag htag
          rw [connects_of_pending_none rfl, connects_of_pending rfl]
          exact ⟨.inl, fun hother => hother.resolve_right fun heq => htag heq.2.2⟩
        · intro other hother
          rw [connects_of_pending_none rfl] at hother
          exact (hunclaimed.free other hother.holds).elim
      unsignalled := by rintro _ ⟨⟩
      signalled := by
        intro key reader name endpoint hfind hname hendpoint htag hsignalled
        exact h.signalled key reader name endpoint (find?_of_removeDynamic h.running hfind).1 hname
          hendpoint htag hsignalled
      operational := by
        intro name endpoint hfind hrole hstatus
        have hseen := h.operational name endpoint hfind hrole hstatus
        rw [hservice] at hseen
        refine .inl ((hseen.resolve_right id).removeDynamic h.running fun htag => ?_)
        exact hunclaimed.free name ⟨endpoint, hfind, h.active hfind hstatus, htag⟩
      callback := by
        intro key name hcallback
        rw [hio] at hcallback
        cases hcallback
      known := trivial }

theorem synchronous_removed (h : Synchronous s) {name : Bytes} {endpoint : Endpoint}
    (hservice : s.service = .removing name endpoint) (hio : s.io = .idle) :
    Synchronous { s with
      server := { s.server with pubSub := PubSub.removeDynamic s.server.pubSub endpoint.ownerTag }
      service := .clearing name endpoint
        (s.server.pubSub.readers.entries.filter fun entry =>
          entry.2.ownerTag = endpoint.ownerTag) } := by
  have hknown := h.known
  have hlinked := h.linked
  rw [hservice] at hknown hlinked
  obtain ⟨hfind, hactive⟩ := hknown
  have hholds : Holds s.server.fx name endpoint.ownerTag := ⟨endpoint, hfind, hactive, rfl⟩
  exact
    { running := PubSub.running_removeDynamic.trans h.running
      locked := h.held (by simp [hservice]) (by rintro ⟨⟩)
      kept := h.kept
      distinct := h.distinct
      linked := by
        refine hlinked.release (PubSub.find?_removeDynamic h.running) ?_ (fun _ => False.elim) ?_
        · intro other tag _
          rw [connects_of_pending_none rfl, connects_of_pending_none rfl]
        · intro other hother
          rw [connects_of_pending_none rfl] at hother
          exact h.distinct other name _ hother.holds hholds
      unsignalled := by rintro _ ⟨⟩
      signalled := by
        intro key reader other endpoint' hreader hname hendpoint htag hsignalled
        exact h.signalled key reader other endpoint' (find?_of_removeDynamic h.running hreader).1
          hname hendpoint htag hsignalled
      operational := by
        intro other endpoint' hfind' hrole hstatus
        by_cases hother : other = name
        · exact .inr hother
        · have hseen := h.operational other endpoint' hfind' hrole hstatus
          rw [hservice] at hseen
          refine .inl ((hseen.resolve_right id).removeDynamic h.running fun htag => hother ?_)
          exact h.distinct other name _ ⟨endpoint', hfind', h.active hfind' hstatus, htag⟩ hholds
      callback := by
        intro key other hcallback
        rw [hio] at hcallback
        cases hcallback
      known := by
        refine ⟨hfind, hactive, fun key reader hreader =>
          (find?_of_removeDynamic h.running hreader).2, fun hrole hstatus => ?_⟩
        have hseen := h.operational name endpoint hfind hrole hstatus
        rw [hservice] at hseen
        obtain ⟨key, reader, hreader, htag, hseen⟩ := hseen.resolve_right id
        refine ⟨(key, reader), List.mem_filter.mpr ⟨?_, by simpa using htag⟩, htag, hseen⟩
        exact (OrderedMap.mem_entries_iff _ key reader).mpr hreader }

end DataPlanes

section Table

/-- Who holds which tag after a change of one endpoint. -/
theorem holds_assign {fx : Engine} {endpoint : Endpoint} {name other tag : Bytes} :
    Holds { fx with endpoints := fx.endpoints.assign name endpoint } other tag ↔
      if other = name then endpoint.active = true ∧ endpoint.ownerTag = tag
      else Holds fx other tag := by
  simp only [Holds, OrderedMap.find?_assign]
  split
  · simp
  · rfl

theorem subscribes_assign {fx : Engine} {endpoint : Endpoint} {name other tag : Bytes} :
    Subscribes { fx with endpoints := fx.endpoints.assign name endpoint } other tag ↔
      if other = name then
        endpoint.active = true ∧ endpoint.role = .subscriber ∧ endpoint.ownerTag = tag
      else Subscribes fx other tag := by
  simp only [Subscribes, OrderedMap.find?_assign]
  split
  · simp
  · rfl

theorem synchronous_stored (h : Synchronous s) {establishment : Establishment}
    {endpoint : Endpoint} (hservice : s.service = .storing establishment endpoint) :
    Synchronous (withFx s (storeEndpoint establishment.name endpoint s.server.fx)
      (.reconciling establishment)) := by
  have hknown := h.known
  have hlinked := h.linked
  rw [hservice] at hknown hlinked
  obtain ⟨hsuits, hunclaimed, hrole, htag, hstatus⟩ := hknown
  have hinactive : ∀ tag, ¬ Subscribes s.server.fx establishment.name tag := by
    rintro tag ⟨endpoint', hfind, hactive, -⟩
    rw [hunclaimed.inactive endpoint' hfind] at hactive
    cases hactive
  exact
    { running := h.running
      locked := h.held (by simp [hservice]) (by rintro ⟨⟩)
      kept := by
        intro other endpoint' hfind
        rcases OrderedMap.find?_assign_eq_some.1 hfind with ⟨-, rfl⟩ | ⟨-, hfind⟩
        · exact ⟨by simp [refreshEndpointView, hstatus], by simp [refreshEndpointView],
            htag ▸ hsuits.tagged⟩
        · exact h.kept other endpoint' hfind
      distinct := by
        intro name name' tag hname hname'
        rw [withFx, storeEndpoint, holds_assign] at hname hname'
        split at hname <;> split at hname'
        · simp [*]
        · exact absurd (hname.2 ▸ hname') (htag ▸ hunclaimed.free name')
        · exact absurd (hname'.2 ▸ hname) (htag ▸ hunclaimed.free name)
        · exact h.distinct name name' tag hname hname'
      linked := by
        refine hlinked.congr (fun _ => rfl) (fun other tag => ?_) fun _ => id
        rw [connects_of_pending_none rfl, connects_of_pending rfl, withFx, storeEndpoint,
          subscribes_assign]
        split
        · rename_i hother
          subst hother
          simp only [hinactive tag, false_or, true_and, refreshEndpointView, hrole, htag, eq_comm]
        · simp [*]
      unsignalled := by
        rintro _ ⟨⟩
        exact h.unsignalled establishment (by rw [hservice]; rfl)
      signalled := by
        intro key reader other endpoint' hreader hname hfind htag' hsignalled
        rcases OrderedMap.find?_assign_eq_some.1 hfind with ⟨-, rfl⟩ | ⟨-, hfind⟩
        · obtain ⟨hunsignalled, hunmarked⟩ := h.unsignalled establishment (by rw [hservice]; rfl)
            key reader hreader (htag'.symm.trans htag)
          rcases hsignalled with hsignalled | hmarked
          · rw [hunsignalled] at hsignalled
            cases hsignalled
          · exact absurd hmarked hunmarked
        · exact h.signalled key reader other endpoint' hreader hname hfind htag' hsignalled
      operational := by
        intro other endpoint' hfind hrole' hstatus'
        rcases OrderedMap.find?_assign_eq_some.1 hfind with ⟨-, rfl⟩ | ⟨-, hfind⟩
        · rw [refreshEndpointView, hstatus] at hstatus'
          cases hstatus'
        · have hseen := h.operational other endpoint' hfind hrole' hstatus'
          rw [hservice] at hseen
          exact hseen
      callback := h.callback
      known := by
        refine ⟨hsuits, refreshEndpointView { endpoint with active := true }, ?_, rfl, hrole, htag,
          hstatus⟩
        rw [withFx, storeEndpoint, OrderedMap.find?_assign, if_pos rfl] }

theorem showStatus_eq {fx : Engine} {name : Bytes} {endpoint : Endpoint}
    (hfind : fx.endpoints.find? name = some endpoint) (status : EndpointStatus) :
    showStatus name status fx =
      { fx with endpoints := fx.endpoints.assign name (setEndpointStatus endpoint status) } := by
  simp only [showStatus, hfind]

/-- An endpoint after a change of what one of them shows. -/
theorem find?_showStatus {fx : Engine} {name other : Bytes} {status : EndpointStatus}
    {endpoint endpoint' : Endpoint} (hfind : fx.endpoints.find? name = some endpoint)
    (hfind' : (showStatus name status fx).endpoints.find? other = some endpoint') :
    (other = name ∧ setEndpointStatus endpoint status = endpoint') ∨
      (other ≠ name ∧ fx.endpoints.find? other = some endpoint') := by
  rw [showStatus_eq hfind] at hfind'
  exact OrderedMap.find?_assign_eq_some.1 hfind'

theorem holds_showStatus {fx : Engine} {name other tag : Bytes} {status : EndpointStatus} :
    Holds (showStatus name status fx) other tag ↔ Holds fx other tag := by
  obtain ⟨endpoints, heq, hcore⟩ := showStatus_frame name status fx
  rw [heq]
  exact ⟨holds_of_core fun other => (hcore other).symm, holds_of_core hcore⟩

theorem subscribes_showStatus {fx : Engine} {name other tag : Bytes} {status : EndpointStatus} :
    Subscribes (showStatus name status fx) other tag ↔ Subscribes fx other tag := by
  rcases hfind : fx.endpoints.find? name with _ | endpoint
  · simp only [showStatus, hfind]
  · rw [showStatus_eq hfind, subscribes_assign]
    split
    · rename_i hother
      subst hother
      simp [Subscribes, hfind, setEndpointStatus]
    · rfl

theorem kept_showStatus {fx : Engine} {name other : Bytes} {status : EndpointStatus}
    {endpoint endpoint' : Endpoint}
    (hkept : ∀ name endpoint, fx.endpoints.find? name = some endpoint → Kept endpoint)
    (hfind : fx.endpoints.find? name = some endpoint) (hactive : endpoint.active = true)
    (hfind' : (showStatus name status fx).endpoints.find? other = some endpoint') :
    Kept endpoint' := by
  rcases find?_showStatus hfind hfind' with ⟨-, rfl⟩ | ⟨-, hfind'⟩
  · have hendpoint := hkept name endpoint hfind
    refine ⟨?_, fun hinactive => ?_, hendpoint.tagged⟩
    · rw [statusVariable_setEndpointStatus]
      simpa using hendpoint.shown
    · rw [setEndpointStatus, hactive] at hinactive
      cases hinactive
  · exact hkept other endpoint' hfind'

theorem synchronous_shown (h : Synchronous s) {establishment : Establishment}
    {status : EndpointStatus} (hservice : s.service = .showing establishment status)
    (outcome : Outcome) :
    Synchronous (withFx s (showStatus establishment.name status s.server.fx)
      (.returning outcome)) := by
  have hknown := h.known
  have hlinked := h.linked
  rw [hservice] at hknown hlinked
  obtain ⟨-, ⟨endpoint, hfind, hactive, hrole, htag, hinitial⟩, hseen⟩ := hknown
  exact
    { running := h.running
      locked := h.held (by simp [hservice]) (by rintro ⟨⟩)
      kept := fun _ _ => kept_showStatus h.kept hfind hactive
      distinct := by
        intro name name' tag hname hname'
        exact h.distinct name name' tag (holds_showStatus.1 hname) (holds_showStatus.1 hname')
      linked := by
        refine hlinked.congr (fun _ => rfl) (fun other tag => ?_) fun _ => id
        rw [connects_of_pending_none rfl, connects_of_pending_none rfl]
        exact subscribes_showStatus
      unsignalled := by rintro _ ⟨⟩
      signalled := by
        intro key reader other endpoint' hreader hname hfind' htag' hsignalled
        rcases find?_showStatus hfind hfind' with ⟨-, rfl⟩ | ⟨-, hfind'⟩
        · obtain ⟨hunsignalled, hunmarked⟩ := h.unsignalled establishment (by rw [hservice]; rfl)
            key reader hreader (htag'.symm.trans htag)
          rcases hsignalled with hsignalled | hmarked
          · rw [hunsignalled] at hsignalled
            cases hsignalled
          · exact absurd hmarked hunmarked
        · exact h.signalled key reader other endpoint' hreader hname hfind' htag' hsignalled
      operational := by
        intro other endpoint' hfind' hrole' hstatus
        rcases find?_showStatus hfind hfind' with ⟨-, rfl⟩ | ⟨-, hfind'⟩
        · rw [statusVariable_setEndpointStatus, hinitial, Option.map_some,
            Option.some.injEq] at hstatus
          change Seen s.server.pubSub endpoint.ownerTag ∨ _
          rw [htag]
          exact .inl (hseen (hrole.symm.trans hrole') hstatus)
        · have hseen' := h.operational other endpoint' hfind' hrole' hstatus
          rw [hservice] at hseen'
          exact hseen'
      callback := h.callback
      known := trivial }

theorem synchronous_cleared (h : Synchronous s) {name : Bytes} {endpoint : Endpoint}
    {gone : List (PubSub.ReaderKey × PubSub.ReaderRuntime)}
    (hservice : s.service = .clearing name endpoint gone) (outcome : Outcome) :
    Synchronous (withFx s
      { s.server.fx with endpoints := s.server.fx.endpoints.assign name (closed endpoint) }
      (.returning outcome)) := by
  have hknown := h.known
  have hlinked := h.linked
  rw [hservice] at hknown hlinked
  obtain ⟨hfind, hactive, hnone, -⟩ := hknown
  have hendpoint := h.kept name endpoint hfind
  have hinitial : (closed endpoint).statusVariable = some .initial := by
    obtain ⟨status, hstatus⟩ := Option.ne_none_iff_exists'.mp hendpoint.shown
    rw [closed, statusVariable_setEndpointStatus, hstatus]
    rfl
  exact
    { running := h.running
      locked := h.held (by simp [hservice]) (by rintro ⟨⟩)
      kept := by
        intro other endpoint' hfind'
        rcases OrderedMap.find?_assign_eq_some.1 hfind' with ⟨-, rfl⟩ | ⟨-, hfind'⟩
        · exact ⟨by simp [hinitial], fun _ => hinitial, hendpoint.tagged⟩
        · exact h.kept other endpoint' hfind'
      distinct := by
        intro other other' tag hother hother'
        rw [withFx, holds_assign] at hother hother'
        split at hother <;> split at hother'
        · simp [*]
        · cases hother.1
        · cases hother'.1
        · exact h.distinct other other' tag hother hother'
      linked := by
        refine hlinked.clear (fun key reader hreader hname => ?_) (fun _ => id)
          fun other tag => ?_
        · rw [connects_of_pending_none rfl] at hname
          obtain ⟨endpoint', hfind', -, -, htag⟩ := hname
          rw [hfind, Option.some.injEq] at hfind'
          exact hnone key reader hreader (hfind' ▸ htag.symm)
        · rw [connects_of_pending_none rfl, connects_of_pending_none rfl, withFx,
            subscribes_assign]
          split
          · simp [*, closed, setEndpointStatus]
          · simp [*]
      unsignalled := by rintro _ ⟨⟩
      signalled := by
        intro key reader other endpoint' hreader hname hfind' htag hsignalled
        rcases OrderedMap.find?_assign_eq_some.1 hfind' with ⟨-, rfl⟩ | ⟨-, hfind'⟩
        · exact absurd htag.symm (hnone key reader hreader)
        · exact h.signalled key reader other endpoint' hreader hname hfind' htag hsignalled
      operational := by
        intro other endpoint' hfind' hrole hstatus
        rcases OrderedMap.find?_assign_eq_some.1 hfind' with ⟨-, rfl⟩ | ⟨hother, hfind'⟩
        · rw [hinitial] at hstatus
          cases hstatus
        · have hseen := h.operational other endpoint' hfind' hrole hstatus
          rw [hservice] at hseen
          exact .inl (hseen.resolve_right hother)
      callback := h.callback
      known := trivial }

end Table

section ServiceThread

theorem seen_of_readerDataSeen {pubSub : PubSub.Engine} {tag : Bytes}
    (h : PubSub.readerDataSeen pubSub tag = true) : Seen pubSub tag := by
  rw [PubSub.readerDataSeen, Bool.and_eq_true, List.any_eq_true] at h
  obtain ⟨-, ⟨key, reader⟩, hentry, hreader⟩ := h
  rw [Bool.and_eq_true, decide_eq_true_eq] at hreader
  exact ⟨key, reader, (OrderedMap.mem_entries_iff _ key reader).mp hentry, hreader.1, hreader.2⟩

theorem synchronous_callStep (h : Synchronous s) {call : Call} (hstep : callStep s call = some s') :
    Synchronous s' := by
  have hlocked := h.locked
  unfold callStep at hstep
  split at hstep
  · rename_i hservice hlock
    rw [hservice, hlock] at hlocked
    cases hstep
    cases call with
    | establish environment requestJson =>
        exact h.move s.server.nodes hservice ⟨by simp, hlocked.2⟩ rfl rfl rfl trivial
    | close requestText =>
        exact h.move s.server.nodes hservice ⟨by simp, hlocked.2⟩ rfl rfl rfl trivial
  · cases hstep

theorem synchronous_serviceStep (h : Synchronous s) (hdistinct : TagsDistinct s .service)
    (hstep : serviceStep s = some s') : Synchronous s' := by
  have hknown := h.known
  unfold serviceStep at hstep
  cases hservice : s.service with
  | idle =>
      rw [hservice] at hstep
      cases hstep
  | preparing environment requestJson =>
      simp only [hservice] at hstep
      split at hstep
      · cases hstep
        exact h.proceed s.server.nodes hservice (by simp) (by simp) rfl rfl rfl trivial
      · rename_i establishment hprepared
        cases hstep
        exact h.proceed s.server.nodes hservice (by simp) (by simp) rfl rfl rfl
          (suits_of_prepared h hprepared)
  | activating environment establishment =>
      simp only [hservice, posted_eq_some] at hstep
      obtain ⟨hio, rfl⟩ := hstep
      unfold activateStep
      split
      · exact h.proceed s.server.nodes hservice (by simp) (by simp) rfl rfl rfl trivial
      · exact synchronous_activated h hservice hio hdistinct ‹_›
  | viewing environment establishment =>
      simp only [hservice, Option.some.injEq] at hstep hknown
      subst hstep
      obtain ⟨hsuits, hunclaimed⟩ := hknown
      unfold viewStep
      split
      · exact h.proceed _ hservice (by simp) (by simp) rfl rfl rfl
          ⟨hsuits, hunclaimed⟩
      · rename_i endpoint nodes hview
        obtain ⟨-, -, hrole, htag, -⟩ := buildEndpointView_ok hview
        have hinitial : establishment.endpoint.statusVariable.getD .initial = .initial := by
          rcases hstatus : establishment.endpoint.statusVariable with _ | status
          · rfl
          · exact hsuits.initial status hstatus
        have hstatus := statusVariable_buildEndpointView hview
        rw [hinitial] at hstatus
        exact h.proceed _ hservice (by simp) (by simp) rfl rfl rfl
          ⟨hsuits, hunclaimed, hrole, htag, hstatus⟩
  | abandoning establishment what =>
      simp only [hservice, posted_eq_some] at hstep
      obtain ⟨hio, rfl⟩ := hstep
      exact synchronous_abandoned h hservice hio _
  | storing establishment endpoint =>
      simp only [hservice, Option.some.injEq] at hstep
      subst hstep
      exact synchronous_stored h hservice
  | reconciling establishment =>
      simp only [hservice] at hstep hknown
      obtain ⟨hsuits, hstored⟩ := hknown
      have hseen : establishment.endpoint.role = .subscriber →
          reconciledStatus establishment s.server.pubSub = .operational →
            Seen s.server.pubSub establishment.endpoint.ownerTag := by
        intro hrole hstatus
        unfold reconciledStatus at hstatus
        split at hstatus
        · rename_i dataset group hdataPlane
          rw [hsuits.publisher dataset group hdataPlane] at hrole
          cases hrole
        · split at hstatus
          · rename_i hdataSeen
            exact seen_of_readerDataSeen hdataSeen
          · cases hstatus
      have hnext : Synchronous { s with
          service := .showing establishment
            (reconciledStatus establishment s.server.pubSub) } :=
        h.proceed s.server.nodes hservice (by simp) (by simp) rfl rfl rfl
          ⟨hsuits, hstored, hseen⟩
      unfold reconcileStep at hstep
      split at hstep
      · cases hstep
        exact hnext
      · rw [posted_eq_some] at hstep
        rw [← hstep.2]
        exact hnext
  | showing establishment status =>
      simp only [hservice, Option.some.injEq] at hstep
      subst hstep
      exact synchronous_shown h hservice _
  | closing requestText =>
      simp only [hservice] at hstep
      split at hstep
      · cases hstep
        exact h.proceed s.server.nodes hservice (by simp) (by simp) rfl rfl rfl trivial
      · rename_i name endpoint htarget
        cases hstep
        exact h.proceed s.server.nodes hservice (by simp) (by simp) rfl rfl rfl
          (closeTarget_eq_ok htarget).2
  | removing name endpoint =>
      simp only [hservice, posted_eq_some] at hstep
      obtain ⟨hio, rfl⟩ := hstep
      exact synchronous_removed h hservice hio
  | clearing name endpoint gone =>
      simp only [hservice, Option.some.injEq] at hstep
      subst hstep
      exact synchronous_cleared h hservice _
  | returning outcome =>
      simp only [hservice, Option.some.injEq] at hstep
      subst hstep
      have hunlocked : ¬ s.io.UnderLock := by
        have hlocked := h.locked
        unfold Locked at hlocked
        split at hlocked
        · exact hlocked.2
        · exact hlocked.2
        · rw [hservice] at hlocked
          cases hlocked.1
      exact h.move s.server.nodes hservice ⟨rfl, hunlocked⟩ rfl rfl rfl trivial

end ServiceThread

end Fx

end Supernova
