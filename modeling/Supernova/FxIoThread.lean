/-
What the io thread keeps: it sets the flags of readers and, under the lock, shows
that a connection is operational.  With it every step of the two threads is known.
-/
import Supernova.FxServiceThread

namespace Supernova

namespace Fx

variable {s s' : Threads}

section IoThread

/-- The io thread moves on without a change of the readers. -/
theorem Synchronous.react (h : Synchronous s) {lock : Option Holder} {before io : IoPoint}
    (hbefore : s.io = before) (hlocked : Locked lock s.service io)
    (hcallback : ∀ due, io.callback = some due → before.callback = some due)
    (hmarked : ∀ key, ¬ io.HasMarked key) : Synchronous { s with lock, io } where
  running := h.running
  locked := hlocked
  kept := h.kept
  distinct := h.distinct
  linked := h.linked
  unsignalled := fun establishment hfresh key reader hfind htag =>
    ⟨(h.unsignalled establishment hfresh key reader hfind htag).1, hmarked key⟩
  signalled := fun key reader name endpoint hfind hname hendpoint htag hsignalled =>
    h.signalled key reader name endpoint hfind hname hendpoint htag
      (hsignalled.imp_right fun hkey => absurd hkey (hmarked key))
  operational := h.operational
  callback := fun key name hdue => h.callback key name (hbefore ▸ hcallback _ hdue)
  known := h.known

section Flags

variable {readers : OrderedMap PubSub.ReaderKey PubSub.ReaderRuntime} {key : PubSub.ReaderKey}
  {reader reader' : PubSub.ReaderRuntime}

/-- A reader after a change of the flags of one of them. -/
theorem find?_flags (hfind : readers.find? key = some reader)
    (hcore : readerCore reader' = readerCore reader) (other : PubSub.ReaderKey) :
    ((readers.assign key reader').find? other).map readerCore =
      (readers.find? other).map readerCore := by
  rw [OrderedMap.find?_assign]
  split
  · rename_i hother
    rw [hother, hfind, Option.map_some, Option.map_some, hcore]
  · rfl

theorem Seen.flags {pubSub : PubSub.Engine} {tag : Bytes}
    (hfind : pubSub.readers.find? key = some reader)
    (hcore : readerCore reader' = readerCore reader)
    (hseen : reader.dataSeen = true → reader'.dataSeen = true) (h : Seen pubSub tag) :
    Seen { pubSub with readers := pubSub.readers.assign key reader' } tag := by
  obtain ⟨other, runtime, hother, htag, hdata⟩ := h
  by_cases hkey : other = key
  · subst hkey
    rw [hfind, Option.some.injEq] at hother
    subst hother
    refine ⟨other, reader', ?_, (Linked.core_ext hcore).1.trans htag, hseen hdata⟩
    rw [OrderedMap.find?_assign, if_pos rfl]
  · exact ⟨other, runtime, by rw [OrderedMap.find?_assign, if_neg hkey, hother], htag, hdata⟩

theorem known_flags {fx : Engine} {pubSub : PubSub.Engine} {service : ServicePoint}
    (hfind : pubSub.readers.find? key = some reader)
    (hcore : readerCore reader' = readerCore reader)
    (hseen : reader.dataSeen = true → reader'.dataSeen = true)
    (h : Known fx pubSub service) :
    Known fx { pubSub with readers := pubSub.readers.assign key reader' } service := by
  cases service with
  | showing establishment status =>
      obtain ⟨hsuits, hstored, hoperational⟩ := h
      exact ⟨hsuits, hstored, fun hrole hstatus =>
        (hoperational hrole hstatus).flags hfind hcore hseen⟩
  | clearing name endpoint gone =>
      obtain ⟨hendpoint, hactive, hnone, hgone⟩ := h
      refine ⟨hendpoint, hactive, fun other runtime hother => ?_, hgone⟩
      obtain ⟨runtime', hother', hcore'⟩ :=
        Linked.exists_core (fun other => (find?_flags hfind hcore other).symm) hother
      rw [← (Linked.core_ext hcore').1]
      exact hnone other runtime' hother'
  | _ => exact h

/-- The io thread sets flags of a reader. -/
theorem Synchronous.flags (h : Synchronous s) {io : IoPoint}
    (hfind : s.server.pubSub.readers.find? key = some reader)
    (hcore : readerCore reader' = readerCore reader)
    (hseen : reader.dataSeen = true → reader'.dataSeen = true)
    (hsignalled : reader'.firstDataSignalled = true →
      reader.firstDataSignalled = true ∨ s.io.HasMarked key)
    (hlocked : Locked s.lock s.service io) (hmarked : ∀ key, ¬ io.HasMarked key)
    (hcallback : ∀ other name, io.callback = some (other, name) →
      other = key ∧ reader'.onFirstData = some name ∧ reader'.dataSeen = true) :
    Synchronous (withReaders s (s.server.pubSub.readers.assign key reader') io) := by
  obtain ⟨htag, -, hname⟩ := Linked.core_ext hcore
  -- every reader there is now was there before, and was marked if it is signalled now
  have hback : ∀ other runtime',
      (s.server.pubSub.readers.assign key reader').find? other = some runtime' →
      ∃ runtime, s.server.pubSub.readers.find? other = some runtime ∧
        runtime'.ownerTag = runtime.ownerTag ∧ runtime'.onFirstData = runtime.onFirstData ∧
        (runtime'.firstDataSignalled = true →
          runtime.firstDataSignalled = true ∨ s.io.HasMarked other) := by
    intro other runtime' hother
    rcases OrderedMap.find?_assign_eq_some.1 hother with ⟨rfl, rfl⟩ | ⟨-, hother⟩
    · exact ⟨reader, hfind, htag, hname, hsignalled⟩
    · exact ⟨runtime', hother, rfl, rfl, .inl⟩
  exact
    { running := h.running
      locked := hlocked
      kept := h.kept
      distinct := h.distinct
      linked := h.linked.congr (find?_flags hfind hcore) (fun _ _ => Iff.rfl) fun _ => id
      unsignalled := by
        intro establishment hfresh other runtime' hother htag'
        obtain ⟨runtime, hruntime, htag'', -, hsignalled'⟩ := hback other runtime' hother
        obtain ⟨hunsignalled, hunmarked⟩ := h.unsignalled establishment hfresh other runtime
          hruntime (htag''.symm.trans htag')
        refine ⟨?_, hmarked other⟩
        by_contra hset
        rcases hsignalled' (by simpa using hset) with hset | hset
        · rw [hunsignalled] at hset
          cases hset
        · exact hunmarked hset
      signalled := by
        intro other runtime' name endpoint hother hname' hendpoint htag' hset
        obtain ⟨runtime, hruntime, htag'', hname'', hsignalled'⟩ := hback other runtime' hother
        refine h.signalled other runtime name endpoint hruntime (hname''.symm.trans hname')
          hendpoint (htag'.trans htag'') ?_
        rcases hset with hset | hset
        · exact hsignalled' hset
        · exact absurd hset (hmarked other)
      operational := by
        intro name endpoint hendpoint hrole hstatus
        exact (h.operational name endpoint hendpoint hrole hstatus).imp_left
          (Seen.flags hfind hcore hseen)
      callback := by
        intro other name hdue
        obtain ⟨rfl, hname', hdata⟩ := hcallback other name hdue
        refine ⟨reader', ?_, hname', hdata⟩
        rw [withReaders, OrderedMap.find?_assign, if_pos rfl]
      known := known_flags hfind hcore hseen h.known }

end Flags

/-- A callback under the lock serves an established connection. -/
theorem subscribes_of_marking (h : Synchronous s) {key : PubSub.ReaderKey} {name : Bytes}
    {message : PubSub.NetworkMessage} {messages : List PubSub.DataSetMessage}
    (hio : s.io = .marking key name message messages) :
    s.service = .idle ∧ ∃ reader endpoint, s.server.pubSub.readers.find? key = some reader ∧
      reader.onFirstData = some name ∧ reader.dataSeen = true ∧
      s.server.fx.endpoints.find? name = some endpoint ∧ endpoint.active = true ∧
      endpoint.role = .subscriber ∧ endpoint.ownerTag = reader.ownerTag := by
  have hidle : s.service = .idle := by
    have hlocked := h.locked
    rw [hio] at hlocked
    unfold Locked at hlocked
    split at hlocked
    · exact hlocked.1
    · exact absurd trivial hlocked.2
    · exact hlocked.1
  obtain ⟨reader, hfind, hname, hseen⟩ := h.callback key name (by rw [hio]; rfl)
  have htagged : reader.ownerTag ≠ [] := by
    intro hblank
    rw [h.linked.configured key reader hfind hblank] at hname
    cases hname
  obtain ⟨-, name', hname', hconnects⟩ := h.linked.served key reader hfind htagged
  rw [hname, Option.some.injEq] at hname'
  subst hname'
  rw [hidle, connects_of_pending_none rfl] at hconnects
  obtain ⟨endpoint, hendpoint, hactive, hrole, htag⟩ := hconnects
  exact ⟨hidle, reader, endpoint, hfind, hname, hseen, hendpoint, hactive, hrole, htag⟩

theorem synchronous_marking (h : Synchronous s) {key : PubSub.ReaderKey} {name : Bytes}
    {message : PubSub.NetworkMessage} {messages : List PubSub.DataSetMessage}
    (hio : s.io = .marking key name message messages) :
    Synchronous { s with
      server := { s.server with fx := (markSubscriberOperational true name s.server.fx).1 }
      lock := none
      io := .marked key name message messages } := by
  obtain ⟨hidle, reader, endpoint, hfind, hname, hseen, hendpoint, hactive, hrole, htag⟩ :=
    subscribes_of_marking h hio
  have hmark : (markSubscriberOperational true name s.server.fx).1 =
      showStatus name .operational s.server.fx := by
    simp [markSubscriberOperational, hendpoint, hactive, hrole]
  have hlinked := h.linked
  have hoperational := h.operational
  rw [hidle] at hlinked hoperational
  rw [hmark, hidle]
  exact
    { running := h.running
      locked := ⟨rfl, id⟩
      kept := fun _ _ => kept_showStatus h.kept hendpoint hactive
      distinct := by
        intro other other' tag hother hother'
        exact h.distinct other other' tag (holds_showStatus.1 hother)
          (holds_showStatus.1 hother')
      linked := by
        refine hlinked.congr (fun _ => rfl) (fun other tag => ?_) fun _ => id
        rw [connects_of_pending_none rfl, connects_of_pending_none rfl]
        exact subscribes_showStatus
      unsignalled := by rintro _ ⟨⟩
      signalled := by
        intro other runtime name' endpoint' hother hname' hfind' htag' hsignalled
        rcases find?_showStatus hendpoint hfind' with ⟨-, rfl⟩ | ⟨hne, hfind'⟩
        · obtain ⟨status, hstatus⟩ :=
            Option.ne_none_iff_exists'.mp (h.kept name endpoint hendpoint).shown
          rw [statusVariable_setEndpointStatus, hstatus, Option.map_some]
        · refine h.signalled other runtime name' endpoint' hother hname' hfind' htag'
            (hsignalled.imp_right ?_)
          rintro rfl
          rw [hfind, Option.some.injEq] at hother
          rw [← hother, hname, Option.some.injEq] at hname'
          exact absurd hname'.symm hne
      operational := by
        intro name' endpoint' hfind' hrole' hstatus
        rcases find?_showStatus hendpoint hfind' with ⟨-, rfl⟩ | ⟨-, hfind'⟩
        · exact .inl ⟨key, reader, hfind, htag.symm, hseen⟩
        · exact hoperational name' endpoint' hfind' hrole' hstatus
      callback := by
        rintro _ _ ⟨⟩
        exact ⟨reader, hfind, hname, hseen⟩
      known := trivial }

/-- What a message leaves of its reader, and whether its callback is due. -/
theorem applyMessage_dueCallback (fields : List PubSub.WireValue) (reader : PubSub.ReaderRuntime) :
    readerCore (PubSub.applyMessage false fields reader).1 = readerCore reader ∧
      (reader.dataSeen = true → (PubSub.applyMessage false fields reader).1.dataSeen = true) ∧
      ((PubSub.applyMessage false fields reader).1.firstDataSignalled = true →
        reader.firstDataSignalled = true) ∧
      ∀ name, dueCallback fields reader = some name →
        (PubSub.applyMessage false fields reader).1.onFirstData = some name ∧
        (PubSub.applyMessage false fields reader).1.dataSeen = true := by
  unfold PubSub.applyMessage dueCallback
  by_cases hcount : min fields.length reader.targets.length = 0
  · simp [hcount]
  rcases hname : reader.onFirstData with _ | name
  · simp [hcount, readerCore, hname]
  by_cases hsignalled : reader.firstDataSignalled = true
  · simp [hcount, readerCore, hname, hsignalled]
  · simp [hcount, readerCore, hname, hsignalled]

theorem synchronous_messageStep (h : Synchronous s) {message : PubSub.NetworkMessage}
    {dsm : PubSub.DataSetMessage} {messages : List PubSub.DataSetMessage}
    (hio : s.io = .handling message (dsm :: messages)) :
    Synchronous (messageStep s message dsm messages) := by
  unfold messageStep
  split
  · exact h.react hio (h.unheld hio id id) (fun _ => id) fun _ => id
  split
  · exact h.react hio (h.unheld hio id id) (fun _ => id) fun _ => id
  · rename_i reader hfind
    obtain ⟨hcore, hseen, hsignalled, hdue⟩ := applyMessage_dueCallback dsm.fields reader
    rcases hcallback : dueCallback dsm.fields reader with _ | name
    · exact h.flags hfind hcore hseen (fun hset => .inl (hsignalled hset)) (h.unheld hio id id)
        (fun _ => id) (by rintro _ _ ⟨⟩)
    · refine h.flags hfind hcore hseen (fun hset => .inl (hsignalled hset)) (h.unheld hio id id)
        (fun _ => id) ?_
      rintro _ _ ⟨⟩
      exact ⟨rfl, hdue name hcallback⟩

theorem synchronous_setSignalled (h : Synchronous s) {key : PubSub.ReaderKey} {name : Bytes}
    {message : PubSub.NetworkMessage} {messages : List PubSub.DataSetMessage}
    (hio : s.io = .marked key name message messages) :
    Synchronous (setSignalled s key (.handling message messages)) := by
  obtain ⟨reader, hfind, -, -⟩ := h.callback key name (by rw [hio]; rfl)
  simp only [setSignalled, hfind]
  exact h.flags hfind rfl id (fun _ => .inr (by rw [hio]; rfl)) (h.unheld hio id id)
    (fun _ => id) (by rintro _ _ ⟨⟩)

theorem synchronous_ioStep (h : Synchronous s) (hstep : ioStep s = some s') : Synchronous s' := by
  have hlocked := h.locked
  unfold ioStep at hstep
  split at hstep
  · cases hstep
  · rename_i message hio
    cases hstep
    exact h.react hio (h.unheld hio id id) (by rintro _ ⟨⟩) fun _ => id
  · rename_i message dsm messages hio
    cases hstep
    exact synchronous_messageStep h hio
  · rename_i key name message messages hio
    split at hstep
    · rename_i hlock
      cases hstep
      rw [hlock, hio] at hlocked
      exact h.react hio ⟨hlocked.1, trivial⟩ (fun _ => id) fun _ => id
    · cases hstep
      exact h.react hio (h.unheld hio id id) (by rintro _ ⟨⟩) fun _ => id
  · rename_i key name message messages hio
    cases hstep
    exact synchronous_marking h hio
  · rename_i key name message messages hio
    cases hstep
    exact synchronous_setSignalled h hio

end IoThread

section Steps

theorem synchronous_step {action : Action} (h : Synchronous s) (hdistinct : TagsDistinct s action)
    (hstep : step s action = some s') : Synchronous s' := by
  cases action with
  | call call => exact synchronous_callStep h hstep
  | service => exact synchronous_serviceStep h hdistinct hstep
  | receive endpoint data =>
      rw [step, receiveStep] at hstep
      split at hstep
      · rename_i hio
        split at hstep
        · split at hstep
          · cases hstep
            exact h
          · cases hstep
            exact h.react hio (h.unheld hio id id) (by rintro _ ⟨⟩) fun _ => id
        · cases hstep
      · cases hstep
  | timer group sample =>
      rw [step, timerStep, posted_eq_some] at hstep
      obtain ⟨-, rfl⟩ := hstep
      exact ⟨h.running, h.locked, h.kept, h.distinct, h.linked, h.unsignalled, h.signalled,
        h.operational, h.callback, h.known⟩
  | io => exact synchronous_ioStep h hstep

/-- Configured readers make no callbacks. -/
theorem boots_onFirstData {server : Server} (h : Boots server) :
    ∀ key reader, server.pubSub.readers.find? key = some reader → reader.onFirstData = none := by
  obtain ⟨pubSub, written, configuration, node, refusals, nodes, hpubSub, -, hstart⟩ := h
  have hconfigured : ∀ key reader, pubSub.readers.find? key = some reader →
      reader.onFirstData = none := by
    rcases hpubSub with rfl | ⟨surroundings, pubSubConfiguration, rfl⟩
    · simp [PubSub.initial]
    · apply PubSub.preserves_startStaged (I := fun pubSub => ∀ key reader,
        pubSub.readers.find? key = some reader → reader.onFirstData = none)
      · exact fun e connection group runtime _ _ h _ => h
      · intro e runtime h hruntime key reader hfind
        rcases OrderedMap.find?_assign_eq_some.1 hfind with ⟨-, rfl⟩ | ⟨-, hfind⟩
        · exact hruntime.2
        · exact h key reader hfind
      · exact fun e receivers h => h
      · exact fun e h => h
      · simp [PubSub.initial]
  simp only [startIfStaged, Bool.false_eq_true, if_false, except_bind_eq_ok] at hstart
  obtain ⟨built, -, hstart⟩ := hstart
  split at hstart
  · cases hstart
  · rw [except_pure_eq_ok] at hstart
    subst hstart
    exact hconfigured

/-- A server that has come up has no dynamic reader and no endpoint. -/
theorem synchronous_start {server : Server} (h : Boots server) : Synchronous (start server) := by
  obtain ⟨hendpoints, -, -, hrunning, htags, -⟩ := boots_frame h
  have hblank : ∀ key reader, server.pubSub.readers.find? key = some reader →
      reader.ownerTag = [] :=
    fun key reader hfind => htags _ (PubSub.mem_ownerTags.2 (.inr ⟨key, reader, hfind, rfl⟩))
  have hnone : ∀ name endpoint, server.fx.endpoints.find? name ≠ some endpoint := by
    simp [hendpoints]
  have hnobody : ∀ name tag, ¬ Connects server.fx .idle name tag := by
    intro name tag hname
    rw [connects_of_pending_none rfl] at hname
    obtain ⟨endpoint, hfind, -⟩ := hname
    exact hnone name endpoint hfind
  exact
    { running := hrunning
      locked := ⟨rfl, id⟩
      kept := fun name endpoint hfind => absurd hfind (hnone name endpoint)
      distinct := by
        rintro name _ _ ⟨endpoint, hfind, -⟩
        exact absurd hfind (hnone name endpoint)
      linked :=
        { configured := fun key reader hfind _ => boots_onFirstData h key reader hfind
          served := fun key reader hfind htag => absurd (hblank key reader hfind) htag
          single := fun key _ reader _ hfind _ htag => absurd (hblank key reader hfind) htag
          manned := fun name tag hname => absurd hname (hnobody name tag) }
      unsignalled := by rintro _ ⟨⟩
      signalled := fun _ _ name endpoint _ _ hfind => absurd hfind (hnone name endpoint)
      operational := fun name endpoint hfind => absurd hfind (hnone name endpoint)
      callback := by rintro _ _ ⟨⟩
      known := trivial }

end Steps

end Fx

end Supernova
