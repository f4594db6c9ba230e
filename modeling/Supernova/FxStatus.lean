/-
What the status of subscriber connections tells: that data was accepted, that the
connection is closed, and that no message which comes while the lock is free is
missed.
-/
import Supernova.FxIoThread
import Supernova.FxRefusals
import Supernova.FxUninterrupted

namespace Supernova

namespace Fx

variable {s s' : Threads}

section Statements

/-- The reader of a connection, the only one under its tag. -/
structure ReaderOf (s : Threads) (name : Bytes) (endpoint : Endpoint) (key : PubSub.ReaderKey)
    (reader : PubSub.ReaderRuntime) : Prop where
  found : s.server.pubSub.readers.find? key = some reader
  tagged : reader.ownerTag = endpoint.ownerTag
  named : reader.onFirstData = some name
  only : ∀ key' reader', s.server.pubSub.readers.find? key' = some reader' →
    reader'.ownerTag = endpoint.ownerTag → key' = key

/-- Operational means that the reader of the connection has accepted data; it is
gone already when a close under way has still to clear the endpoint. -/
def OperationalWhenAccepted (s : Threads) : Prop :=
  ∀ name endpoint, s.server.fx.endpoints.find? name = some endpoint →
    endpoint.role = .subscriber → endpoint.statusVariable = some .operational →
    (∃ key reader, ReaderOf s name endpoint key reader ∧ reader.dataSeen = true) ∨
    ∃ gone, s.service = .clearing name endpoint gone ∧
      ∃ entry ∈ gone, entry.2.ownerTag = endpoint.ownerTag ∧ entry.2.dataSeen = true

/-- An establish brings up a reader that has accepted nothing, and finds none
under its tag. -/
def StartsAfresh (s : Threads) : Prop :=
  ∀ environment establishment s', s.service = .activating environment establishment →
    TagsDistinct s .service → step s .service = some s' →
    (∀ key reader, s.server.pubSub.readers.find? key = some reader →
      reader.ownerTag ≠ establishment.endpoint.ownerTag) ∧
    ∀ key reader, s'.server.pubSub.readers.find? key = some reader →
      reader.ownerTag = establishment.endpoint.ownerTag →
      reader.dataSeen = false ∧ reader.firstDataSignalled = false

/-- The step that puts the endpoint of an establish into the table. -/
def Stores (name : Bytes) (s : Threads) (action : Action) : Prop :=
  match action, s.service with
  | .service, .storing establishment _ => establishment.name = name
  | _, _ => False

/-- From the step that clears an endpoint it shows Initial until it is stored
again, whatever the threads do. -/
def InitialOnceClosed (s : Threads) : Prop :=
  ∀ name endpoint gone s₁ actions s₂, s.service = .clearing name endpoint gone →
    step s .service = some s₁ → run step s₁ actions = some s₂ →
    Along step TagsDistinct s₁ actions →
    Along step (fun s action => ¬ Stores name s action) s₁ actions →
    ∃ endpoint', s₂.server.fx.endpoints.find? name = some endpoint' ∧
      endpoint'.active = false ∧ endpoint'.statusVariable = some .initial

/-- A message with a field for the reader under the key. -/
def Addresses (key : PubSub.ReaderKey) (message : PubSub.NetworkMessage)
    (messages : List PubSub.DataSetMessage) : Prop :=
  ∃ dsm ∈ messages, dsm.keepAlive = false ∧ PubSub.messageKey message dsm = key ∧ dsm.fields ≠ []

/-- An established subscriber has a reader, and is Operational when the io thread
is through with a datagram that has a message for it, if the callbacks found the
lock free. -/
def WakesUp (s : Threads) : Prop :=
  ∀ name endpoint, s.server.fx.endpoints.find? name = some endpoint →
    endpoint.active = true → endpoint.role = .subscriber → ¬ s.service.Clears name →
    ∃ key reader, ReaderOf s name endpoint key reader ∧
      ∀ receiver data message cursor, PubSub.decodeDatagram data = .ok message cursor →
        Addresses key message message.messages → ∀ s₁ actions s₂,
        step s (.receive receiver data) = some s₁ → run step s₁ actions = some s₂ →
        Along step Unhindered s₁ actions → s₂.io = .idle →
        ∃ endpoint', s₂.server.fx.endpoints.find? name = some endpoint' ∧
          endpoint'.active = true ∧ endpoint'.statusVariable = some .operational

/-- When no thread is at work, a datagram is handled to its end. -/
def HandlesDatagrams (s : Threads) : Prop :=
  s.lock = none → s.io = .idle → ∀ receiver data,
    s.server.pubSub.receivers.contains receiver = true → ∃ s₁ s₂,
      step s (.receive receiver data) = some s₁ ∧ Handled s₁ s₂ ∧ s₂.io = .idle

end Statements

section Closed

/-- The endpoint is in the table and not active. -/
def Closed (fx : Engine) (name : Bytes) : Prop :=
  ∃ endpoint, fx.endpoints.find? name = some endpoint ∧ endpoint.active = false

theorem closed_of_core {fx fx' : Engine} {name : Bytes}
    (hcore : ∀ other, (fx'.endpoints.find? other).map Endpoint.core =
      (fx.endpoints.find? other).map Endpoint.core) (h : Closed fx name) : Closed fx' name := by
  obtain ⟨endpoint, hfind, hactive⟩ := h
  have hname := hcore name
  rw [hfind, Option.map_some, Option.map_eq_some_iff] at hname
  obtain ⟨endpoint', hfind', heq⟩ := hname
  exact ⟨endpoint', hfind', by rw [(Endpoint.core_ext heq).2.2.2.2, hactive]⟩

theorem closed_assign {fx : Engine} {name other : Bytes} {endpoint : Endpoint}
    (hendpoint : name = other → endpoint.active = false) (h : Closed fx name) :
    Closed { fx with endpoints := fx.endpoints.assign other endpoint } name := by
  obtain ⟨endpoint', hfind, hactive⟩ := h
  by_cases hname : name = other
  · exact ⟨endpoint, by rw [OrderedMap.find?_assign, if_pos hname], hendpoint hname⟩
  · exact ⟨endpoint', by rw [OrderedMap.find?_assign, if_neg hname, hfind], hactive⟩

theorem closed_serviceStep {name : Bytes} (h : Closed s.server.fx name)
    (hstays : ¬ Stores name s .service) (hstep : serviceStep s = some s') :
    Closed s'.server.fx name := by
  unfold serviceStep at hstep
  unfold Stores at hstays
  cases hservice : s.service with
  | idle =>
      rw [hservice] at hstep
      cases hstep
  | preparing environment requestJson =>
      simp only [hservice] at hstep
      split at hstep <;> cases hstep <;> exact h
  | activating environment establishment =>
      simp only [hservice, posted_eq_some, activateStep] at hstep
      obtain ⟨-, rfl⟩ := hstep
      split <;> exact h
  | viewing environment establishment =>
      simp only [hservice, Option.some.injEq, viewStep] at hstep
      subst hstep
      split <;> exact h
  | abandoning establishment what =>
      simp only [hservice, posted_eq_some] at hstep
      obtain ⟨-, rfl⟩ := hstep
      exact h
  | storing establishment endpoint =>
      simp only [hservice, Option.some.injEq] at hstep hstays
      subst hstep
      exact closed_assign (fun heq => absurd heq.symm hstays) h
  | reconciling establishment =>
      simp only [hservice, reconcileStep] at hstep
      split at hstep
      · cases hstep
        exact h
      · rw [posted_eq_some] at hstep
        obtain ⟨-, rfl⟩ := hstep
        exact h
  | showing establishment status =>
      simp only [hservice, Option.some.injEq] at hstep
      subst hstep
      obtain ⟨endpoints, heq, hcore⟩ := showStatus_frame establishment.name status s.server.fx
      rw [withFx, heq]
      exact closed_of_core hcore h
  | closing requestText =>
      simp only [hservice] at hstep
      split at hstep <;> cases hstep <;> exact h
  | removing other endpoint =>
      simp only [hservice, posted_eq_some] at hstep
      obtain ⟨-, rfl⟩ := hstep
      exact h
  | clearing other endpoint gone =>
      simp only [hservice, Option.some.injEq] at hstep
      subst hstep
      exact closed_assign (fun _ => rfl) h
  | returning outcome =>
      simp only [hservice, Option.some.injEq] at hstep
      subst hstep
      exact h

theorem fx_messageStep (s : Threads) (message : PubSub.NetworkMessage)
    (dsm : PubSub.DataSetMessage) (messages : List PubSub.DataSetMessage) :
    (messageStep s message dsm messages).server.fx = s.server.fx := by
  unfold messageStep
  split
  · rfl
  · split <;> rfl

theorem closed_ioStep {name : Bytes} (h : Closed s.server.fx name)
    (hstep : ioStep s = some s') : Closed s'.server.fx name := by
  unfold ioStep at hstep
  split at hstep
  · cases hstep
  · cases hstep
    exact h
  · cases hstep
    rw [fx_messageStep]
    exact h
  · split at hstep <;> cases hstep <;> exact h
  · rename_i key connectionName message messages hio
    cases hstep
    obtain ⟨endpoints, heq, hcore⟩ :=
      markSubscriberOperational_frame true connectionName s.server.fx
    rw [heq]
    exact closed_of_core hcore h
  · cases hstep
    unfold setSignalled
    split <;> exact h

/-- A closed endpoint stays closed until it is stored again. -/
theorem closed_step {name : Bytes} {action : Action} (h : Closed s.server.fx name)
    (hstays : ¬ Stores name s action) (hstep : step s action = some s') :
    Closed s'.server.fx name := by
  cases action with
  | call call =>
      change callStep s call = some s' at hstep
      unfold callStep at hstep
      split at hstep <;> cases hstep
      exact h
  | service => exact closed_serviceStep h hstays hstep
  | receive receiver data =>
      rw [step, receiveStep] at hstep
      split at hstep
      · split at hstep
        · split at hstep <;> cases hstep <;> exact h
        · cases hstep
      · cases hstep
  | timer group sample =>
      rw [step, timerStep, posted_eq_some] at hstep
      obtain ⟨-, rfl⟩ := hstep
      exact h
  | io => exact closed_ioStep h hstep

theorem initialOnceClosed (h : Synchronous s) : InitialOnceClosed s := by
  intro name endpoint gone s₁ actions s₂ hservice hclear hrun hdistinct hstays
  have hclears : TagsDistinct s .service := by
    intro environment establishment hactivating
    rw [hservice] at hactivating
    cases hactivating
  have hsynchronous : Synchronous s₂ := run_invariant_of_along (fun _ _ _ => synchronous_step)
    (synchronous_step h hclears hclear) hrun hdistinct
  have hclosed₁ : Closed s₁.server.fx name := by
    simp only [step, serviceStep, hservice, Option.some.injEq] at hclear
    subst hclear
    exact ⟨closed endpoint, by rw [withFx, OrderedMap.find?_assign, if_pos rfl], rfl⟩
  have hclosed : Closed s₂.server.fx name :=
    run_invariant_of_along (I := fun s => Closed s.server.fx name)
      (fun _ _ _ => closed_step) hclosed₁ hrun hstays
  obtain ⟨endpoint', hfind, hactive⟩ := hclosed
  exact ⟨endpoint', hfind, hactive, (hsynchronous.kept name endpoint' hfind).initial hactive⟩

end Closed

section Accepted

/-- An established subscriber has one reader, unless it is being cleared. -/
theorem exists_readerOf (h : Synchronous s) {name : Bytes} {endpoint : Endpoint}
    (hfind : s.server.fx.endpoints.find? name = some endpoint) (hactive : endpoint.active = true)
    (hrole : endpoint.role = .subscriber) (hclears : ¬ s.service.Clears name) :
    ∃ key reader, ReaderOf s name endpoint key reader := by
  have hsubscribes : Subscribes s.server.fx name endpoint.ownerTag :=
    ⟨endpoint, hfind, hactive, hrole, rfl⟩
  obtain ⟨key, reader, hreader, htag⟩ :=
    (h.linked.manned name endpoint.ownerTag (.inl hsubscribes)).resolve_right hclears
  have htagged : reader.ownerTag ≠ [] := htag ▸ (h.kept name endpoint hfind).tagged
  obtain ⟨-, name', hname, hconnects⟩ := h.linked.served key reader hreader htagged
  have hholder : name' = name := by
    rcases hconnects with hsubscribes' | ⟨establishment, hpending, -, rfl, htag'⟩
    · exact h.distinct name' name _ (htag ▸ hsubscribes'.holds) hsubscribes.holds
    · have hunclaimed := unclaimed_of_pending h hpending
      exact absurd hsubscribes.holds (htag ▸ htag' ▸ hunclaimed.free name)
  refine ⟨key, reader, hreader, htag, hholder ▸ hname, fun key' reader' hreader' htag' => ?_⟩
  exact h.linked.single key key' reader reader' hreader hreader' htagged (htag'.trans htag.symm)

theorem operationalWhenAccepted (h : Synchronous s) : OperationalWhenAccepted s := by
  intro name endpoint hfind hrole hstatus
  have hactive := h.active hfind hstatus
  by_cases hclears : s.service.Clears name
  · have hknown := h.known
    unfold ServicePoint.Clears at hclears
    split at hclears
    · rename_i name' endpoint' gone hservice
      subst hclears
      rw [hservice] at hknown
      obtain ⟨hfind', -, -, hgone⟩ := hknown
      rw [hfind, Option.some.injEq] at hfind'
      subst hfind'
      exact .inr ⟨gone, hservice, hgone hrole hstatus⟩
    · cases hclears
  · obtain ⟨key, reader, hreader⟩ := exists_readerOf h hfind hactive hrole hclears
    obtain ⟨key', reader', hreader', htag', hseen⟩ :=
      (h.operational name endpoint hfind hrole hstatus).resolve_right hclears
    have hkey := hreader.only key' reader' hreader' htag'
    subst hkey
    rw [hreader.found, Option.some.injEq] at hreader'
    exact .inl ⟨key', reader, hreader, hreader' ▸ hseen⟩

theorem startsAfresh (h : Synchronous s) : StartsAfresh s := by
  intro environment establishment s' hservice hdistinct hstep
  have hknown := h.known
  have hlinked := h.linked
  rw [hservice] at hknown hlinked
  obtain ⟨hsuits, hinactive⟩ := hknown
  have hunclaimed := unclaimed_of_tagsDistinct hservice hdistinct hinactive
  have hnone : ∀ key reader, s.server.pubSub.readers.find? key = some reader →
      reader.ownerTag ≠ establishment.endpoint.ownerTag := by
    intro key reader hfind
    refine hlinked.no_reader hsuits.tagged (fun other hother => ?_) hfind
    rw [connects_of_pending_none rfl] at hother
    exact hunclaimed.free other hother.holds
  refine ⟨hnone, fun key reader hfind htag => ?_⟩
  simp only [step, serviceStep, hservice, posted_eq_some, activateStep] at hstep
  obtain ⟨-, rfl⟩ := hstep
  split at hfind
  · exact absurd htag (hnone key reader hfind)
  · rename_i pubSub hactivate
    rcases readers_activate hactivate hsuits with
      ⟨-, heq⟩ | ⟨key', reader', -, -, heq, -, -, -, hsignalled, hseen⟩
    · rw [heq] at hfind
      exact absurd htag (hnone key reader hfind)
    · rw [heq] at hfind
      rcases OrderedMap.find?_assign_eq_some.1 hfind with ⟨-, rfl⟩ | ⟨-, hfind⟩
      · exact ⟨hseen, hsignalled⟩
      · exact absurd htag (hnone key reader hfind)

end Accepted

section WakeUp

/-- The reader will be signalled when the io thread is through with its messages. -/
def IoPoint.Brings (key : PubSub.ReaderKey) : IoPoint → Prop
  | .idle => False
  | .handling message messages => Addresses key message messages
  | .calling key' _ message messages => key' = key ∨ Addresses key message messages
  | .marking key' _ message messages => key' = key ∨ Addresses key message messages
  | .marked key' _ message messages => key' = key ∨ Addresses key message messages

/-- The reader of a connection is signalled, or will be. -/
def Due (key : PubSub.ReaderKey) (name : Bytes) (s : Threads) : Prop :=
  ∃ reader, s.server.pubSub.readers.find? key = some reader ∧ reader.targets ≠ [] ∧
    reader.onFirstData = some name ∧ (reader.firstDataSignalled = true ∨ s.io.Brings key)

/-- What is posted waits while a datagram is handled. -/
theorem serviceStep_busy (hio : s.io ≠ .idle) (hstep : serviceStep s = some s') :
    s'.server.pubSub = s.server.pubSub ∧ s'.io = s.io := by
  have hwaits : ∀ next, posted s next ≠ some s' :=
    fun next hposted => hio (posted_eq_some.1 hposted).1
  unfold serviceStep at hstep
  split at hstep
  · cases hstep
  · split at hstep <;> cases hstep <;> exact ⟨rfl, rfl⟩
  · exact absurd hstep (hwaits _)
  · cases hstep
    unfold viewStep
    split <;> exact ⟨rfl, rfl⟩
  · exact absurd hstep (hwaits _)
  · cases hstep
    exact ⟨rfl, rfl⟩
  · unfold reconcileStep at hstep
    split at hstep
    · cases hstep
      exact ⟨rfl, rfl⟩
    · exact absurd hstep (hwaits _)
  · cases hstep
    exact ⟨rfl, rfl⟩
  · split at hstep <;> cases hstep <;> exact ⟨rfl, rfl⟩
  · exact absurd hstep (hwaits _)
  · cases hstep
    exact ⟨rfl, rfl⟩
  · cases hstep
    exact ⟨rfl, rfl⟩

/-- No data plane comes up while a datagram is handled. -/
theorem tagsDistinct_of_busy {action : Action} (hio : s.io ≠ .idle)
    (hstep : step s action = some s') : TagsDistinct s action := by
  cases action with
  | service =>
      intro environment establishment hservice
      simp only [step, serviceStep, hservice, posted_eq_some] at hstep
      exact absurd hstep.1 hio
  | _ => trivial

/-- A message with a field makes the callback of its reader due, unless that has
been made. -/
theorem dueCallback_eq {fields : List PubSub.WireValue} {reader : PubSub.ReaderRuntime}
    (htargets : reader.targets ≠ []) (hfields : fields ≠ []) :
    dueCallback fields reader =
      if reader.firstDataSignalled then none else reader.onFirstData := by
  rw [dueCallback, if_neg]
  rw [Nat.min_eq_zero_iff, List.length_eq_zero_iff, List.length_eq_zero_iff]
  exact not_or_intro hfields htargets

theorem applyMessage_signalled (fields : List PubSub.WireValue) {reader : PubSub.ReaderRuntime}
    (h : reader.firstDataSignalled = true) :
    (PubSub.applyMessage false fields reader).1.firstDataSignalled = true := by
  unfold PubSub.applyMessage
  split
  · exact h
  · split
    · exact h
    · exact h

theorem due_messageStep {key : PubSub.ReaderKey} {name : Bytes}
    {message : PubSub.NetworkMessage} {dsm : PubSub.DataSetMessage}
    {messages : List PubSub.DataSetMessage} (hio : s.io = .handling message (dsm :: messages))
    (h : Due key name s) : Due key name (messageStep s message dsm messages) := by
  obtain ⟨reader, hfind, htargets, hname, hdue⟩ := h
  rw [hio] at hdue
  -- a message for another reader leaves those that follow
  have hrest : (dsm.keepAlive = true ∨ PubSub.messageKey message dsm ≠ key) →
      reader.firstDataSignalled = true ∨ Addresses key message messages := by
    rintro hother
    refine hdue.imp_right ?_
    rintro ⟨dsm', hmem, halive, hkey, hfields⟩
    rcases List.mem_cons.mp hmem with rfl | hmem
    · rw [halive, hkey] at hother
      simp at hother
    · exact ⟨dsm', hmem, halive, hkey, hfields⟩
  unfold messageStep
  split
  · rename_i halive
    exact ⟨reader, hfind, htargets, hname, hrest (.inl halive)⟩
  rename_i halive
  split
  · rename_i hnone
    refine ⟨reader, hfind, htargets, hname, hrest (.inr ?_)⟩
    rintro rfl
    rw [hnone] at hfind
    cases hfind
  · rename_i reader' hfind'
    obtain ⟨hcore, -⟩ := applyMessage_dueCallback dsm.fields reader'
    obtain ⟨-, htargets', hname'⟩ := Linked.core_ext hcore
    by_cases hkey : PubSub.messageKey message dsm = key
    · subst hkey
      rw [hfind, Option.some.injEq] at hfind'
      subst hfind'
      refine ⟨_, by rw [withReaders, OrderedMap.find?_assign, if_pos rfl],
        htargets' ▸ htargets, hname'.trans hname, ?_⟩
      by_cases hsignalled : reader.firstDataSignalled = true
      · exact .inl (applyMessage_signalled dsm.fields hsignalled)
      · right
        rw [withReaders]
        obtain ⟨dsm', hmem, halive', hkey', hfields⟩ := hdue.resolve_left hsignalled
        rcases List.mem_cons.mp hmem with rfl | hmem
        · rw [dueCallback_eq htargets hfields, if_neg hsignalled, hname]
          exact .inl rfl
        · have haddresses : Addresses (PubSub.messageKey message dsm) message messages :=
            ⟨dsm', hmem, halive', hkey', hfields⟩
          split
          · exact haddresses
          · exact .inr haddresses
    · refine ⟨reader, ?_, htargets, hname, ?_⟩
      · rw [withReaders, OrderedMap.find?_assign, if_neg (Ne.symm hkey), hfind]
      · refine (hrest (.inr hkey)).imp_right fun haddresses => ?_
        rw [withReaders]
        split
        · exact haddresses
        · exact .inr haddresses

theorem due_ioStep {key : PubSub.ReaderKey} {name : Bytes} (h : Due key name s)
    (hfree : ∀ key name message messages, s.io = .calling key name message messages →
      s.lock = none) (hstep : ioStep s = some s') : Due key name s' := by
  unfold ioStep at hstep
  split at hstep
  · cases hstep
  · rename_i message hio
    cases hstep
    obtain ⟨reader, hfind, htargets, hname, hdue⟩ := h
    rw [hio] at hdue
    refine ⟨reader, hfind, htargets, hname, .inl (hdue.resolve_right ?_)⟩
    rintro ⟨_, hmem, -⟩
    cases hmem
  · rename_i message dsm messages hio
    cases hstep
    exact due_messageStep hio h
  · rename_i key' connectionName message messages hio
    rw [hfree key' connectionName message messages hio] at hstep
    cases hstep
    obtain ⟨reader, hfind, htargets, hname, hdue⟩ := h
    rw [hio] at hdue
    exact ⟨reader, hfind, htargets, hname, hdue⟩
  · rename_i key' connectionName message messages hio
    cases hstep
    obtain ⟨reader, hfind, htargets, hname, hdue⟩ := h
    rw [hio] at hdue
    exact ⟨reader, hfind, htargets, hname, hdue⟩
  · rename_i key' connectionName message messages hio
    cases hstep
    obtain ⟨reader, hfind, htargets, hname, hdue⟩ := h
    rw [hio] at hdue
    unfold setSignalled
    by_cases hkey : key' = key
    · subst hkey
      simp only [hfind]
      refine ⟨{ reader with firstDataSignalled := true }, ?_, htargets, hname, .inl rfl⟩
      rw [withReaders, OrderedMap.find?_assign, if_pos rfl]
    · have hdue' := hdue.imp_right fun hbrings => hbrings.resolve_left hkey
      split
      · exact ⟨reader, hfind, htargets, hname, hdue'⟩
      · refine ⟨reader, ?_, htargets, hname, hdue'⟩
        rw [withReaders, OrderedMap.find?_assign, if_neg (Ne.symm hkey), hfind]

theorem due_step {key : PubSub.ReaderKey} {name : Bytes} {action : Action} (h : Due key name s)
    (hfree : Unhindered s action) (hstep : step s action = some s') : Due key name s' := by
  obtain ⟨hbusy, hfree⟩ := hfree
  cases action with
  | call call =>
      change callStep s call = some s' at hstep
      unfold callStep at hstep
      split at hstep <;> cases hstep
      exact h
  | service =>
      obtain ⟨hpubSub, hio⟩ := serviceStep_busy hbusy hstep
      unfold Due
      rw [hpubSub, hio]
      exact h
  | receive receiver data =>
      rw [step, receiveStep] at hstep
      split at hstep
      · exact absurd ‹_› hbusy
      · cases hstep
  | timer group sample => exact absurd (posted_eq_some.1 hstep).1 hbusy
  | io => exact due_ioStep h hfree hstep

/-- A reader that is signalled makes its connection Operational. -/
theorem operational_of_signalled (h : Synchronous s) {key : PubSub.ReaderKey}
    {reader : PubSub.ReaderRuntime} {name : Bytes}
    (hfind : s.server.pubSub.readers.find? key = some reader)
    (hname : reader.onFirstData = some name) (hsignalled : reader.firstDataSignalled = true) :
    ∃ endpoint, s.server.fx.endpoints.find? name = some endpoint ∧ endpoint.active = true ∧
      endpoint.statusVariable = some .operational := by
  have htagged : reader.ownerTag ≠ [] := by
    intro hblank
    rw [h.linked.configured key reader hfind hblank] at hname
    cases hname
  obtain ⟨-, name', hname', hconnects⟩ := h.linked.served key reader hfind htagged
  rw [hname, Option.some.injEq] at hname'
  subst hname'
  rcases hconnects with ⟨endpoint, hendpoint, hactive, -, htag⟩ |
    ⟨establishment, hpending, -, -, htag⟩
  · exact ⟨endpoint, hendpoint, hactive,
      h.signalled key reader name endpoint hfind hname hendpoint htag (.inl hsignalled)⟩
  · have hfresh : s.service.fresh = some establishment := by
      unfold ServicePoint.pending at hpending
      split at hpending <;> simp_all [ServicePoint.fresh]
    rw [(h.unsignalled establishment hfresh key reader hfind htag.symm).1] at hsignalled
    cases hsignalled

theorem wakesUp (h : Synchronous s) : WakesUp s := by
  intro name endpoint hfind hactive hrole hclears
  obtain ⟨key, reader, hreader⟩ := exists_readerOf h hfind hactive hrole hclears
  refine ⟨key, reader, hreader, ?_⟩
  intro receiver data message cursor hdecode haddresses s₁ actions s₂ hreceive hrun hfree hidle
  have htagged : reader.ownerTag ≠ [] := hreader.tagged ▸ (h.kept name endpoint hfind).tagged
  obtain ⟨htargets, -⟩ := h.linked.served key reader hreader.found htagged
  have hdue₁ : Due key name s₁ := by
    rw [step, receiveStep, hdecode] at hreceive
    split at hreceive
    · split at hreceive
      · cases hreceive
        exact ⟨reader, hreader.found, htargets, hreader.named, .inr haddresses⟩
      · cases hreceive
    · cases hreceive
  have hreceives : TagsDistinct s (.receive receiver data) := trivial
  obtain ⟨hsynchronous, hdue⟩ := run_invariant_of_along
    (I := fun s => Synchronous s ∧ Due key name s)
    (fun _ _ _ h hfree hstep =>
      ⟨synchronous_step h.1 (tagsDistinct_of_busy hfree.1 hstep) hstep, due_step h.2 hfree hstep⟩)
    ⟨synchronous_step h hreceives hreceive, hdue₁⟩ hrun hfree
  obtain ⟨reader', hfind', -, hname', hdue⟩ := hdue
  rw [hidle] at hdue
  exact operational_of_signalled hsynchronous hfind' hname' (hdue.resolve_right id)

end WakeUp

section Runs

theorem handlesDatagrams (h : Synchronous s) : HandlesDatagrams s := by
  intro hlock hio receiver data hreceiver
  obtain ⟨server, lock, service, io⟩ := s
  dsimp only at hlock hio
  subst hlock hio
  obtain ⟨rfl, -⟩ := h.locked
  obtain ⟨s₁, hreceive, hhandled⟩ := handled_receive hreceiver data
  exact ⟨s₁, _, hreceive, hhandled, rfl⟩

/-- In any run of the two threads a subscriber that shows Operational has
accepted data since it was established, a closed connection shows Initial until
it is established again, and a datagram that is handled while the lock is free
makes its subscriber Operational. -/
theorem subscriber_status (server : Server) (h : Boots server) (actions : List Action)
    (s : Threads) (hrun : run step (start server) actions = some s)
    (hdistinct : Along step TagsDistinct (start server) actions) :
    OperationalWhenAccepted s ∧ StartsAfresh s ∧ InitialOnceClosed s ∧ WakesUp s ∧
      HandlesDatagrams s := by
  have hs : Synchronous s := run_invariant_of_along (fun _ _ _ => synchronous_step)
    (synchronous_start h) hrun hdistinct
  exact ⟨operationalWhenAccepted hs, startsAfresh hs, initialOnceClosed hs, wakesUp hs,
    handlesDatagrams hs⟩

/-- Whether the tags of active connections differ from the one that is brought up. -/
def tagsDistinct (s : Threads) : Action → Bool
  | .service =>
      match s.service with
      | .activating _ establishment => s.server.fx.endpoints.entries.all fun entry =>
          !entry.2.active || entry.1 = establishment.name ||
            entry.2.ownerTag ≠ establishment.endpoint.ownerTag
      | _ => true
  | _ => true

theorem tagsDistinct_iff (s : Threads) (action : Action) :
    tagsDistinct s action = true ↔ TagsDistinct s action := by
  cases action with
  | service =>
      simp only [tagsDistinct, TagsDistinct]
      constructor
      · intro h environment establishment hservice other endpoint hfind hactive hother htag
        simp only [hservice, List.all_eq_true] at h
        have hentry := h (other, endpoint) ((OrderedMap.mem_entries_iff _ other endpoint).mpr hfind)
        simp [hactive, hother, htag] at hentry
      · intro h
        split
        · rename_i environment establishment hservice
          rw [List.all_eq_true]
          rintro ⟨other, endpoint⟩ hentry
          have hdistinct := h environment establishment hservice other endpoint
            ((OrderedMap.mem_entries_iff _ other endpoint).mp hentry)
          simp only [Bool.or_eq_true, Bool.not_eq_true', decide_eq_true_eq, or_assoc]
          by_cases hactive : endpoint.active = true
          · by_cases hother : other = establishment.name
            · exact .inr (.inl hother)
            · exact .inr (.inr (hdistinct hactive hother))
          · exact .inl (by simpa using hactive)
        · rfl
  | _ => simp [tagsDistinct, TagsDistinct]

instance (s : Threads) (action : Action) : Decidable (TagsDistinct s action) :=
  decidable_of_iff _ (tagsDistinct_iff s action)

/-- A component with an entity that has one input dataset. -/
def meter : Configuration :=
  ⟨text "AC", .uInt16, 7, [⟨text "A", [], [⟨text "i", [⟨text "t", text "dev.t"⟩]⟩]⟩]⟩

def meterServer : Server :=
  match startIfStaged (fun _ => some (some 0)) permissive
      ⟨{ staged := some meter }, PubSub.initial, []⟩ with
  | .ok server => server
  | .error _ => ⟨{}, PubSub.initial, []⟩

/-- A subscription is established, then a datagram comes for it. -/
def meterActions : List Action :=
  .call (.establish ⟨none, permissive⟩
    (text "\x7b\"functionalEntity\":\"A\",\"role\":\"subscriber\",\"dataset\":\"i\"," ++
      text "\"address\":\"opc.udp://h:1\",\"connectionName\":\"c\"," ++
      text "\"peer\":\x7b\"publisherId\":8,\"publisherIdType\":\"Byte\"," ++
      text "\"writerGroupId\":1,\"dataSetWriterId\":1\x7d\x7d")) ::
    (List.replicate 7 .service ++
      .receive ⟨text "h", 1⟩ PubSub.datagramOfPublisher8 :: List.replicate 5 .io)

/-- Neither thread is at work. -/
def Threads.resting (s : Threads) : Bool :=
  match s.service, s.io with
  | .idle, .idle => true
  | _, _ => false

theorem resting_eq_true (h : s.resting = true) : s.service = .idle ∧ s.io = .idle := by
  unfold Threads.resting at h
  split at h
  · exact ⟨by assumption, by assumption⟩
  · cases h

/-- The subscription is established before the datagram and shows Operational after. -/
theorem run_meter : Boots meterServer ∧
    Along step TagsDistinct (start meterServer) meterActions ∧ ∃ s s' endpoint endpoint',
    run step (start meterServer) (meterActions.take 8) = some s ∧ s.resting = true ∧
    s.server.fx.endpoints.find? (text "c") = some endpoint ∧ endpoint.active = true ∧
    endpoint.role = .subscriber ∧ run step s (meterActions.drop 8) = some s' ∧
    s'.resting = true ∧ s'.server.pubSub.receivers.contains ⟨text "h", 1⟩ = true ∧
    s'.server.fx.endpoints.find? (text "c") = some endpoint' ∧
    endpoint'.statusVariable = some .operational := by
  have hboots : Boots meterServer :=
    ⟨PubSub.initial, meter, meter, fun _ => some (some 0), permissive, [], .inl rfl,
      by decide +kernel⟩
  have hdistinct : Along step TagsDistinct (start meterServer) meterActions := by
    decide +kernel
  have hruns : (run step (start meterServer) (meterActions.take 8)).any (fun s => s.resting &&
      ((s.server.fx.endpoints.find? (text "c")).any fun endpoint =>
        endpoint.active && (endpoint.role = .subscriber : Bool)) &&
      (run step s (meterActions.drop 8)).any fun s' => s'.resting &&
        s'.server.pubSub.receivers.contains ⟨text "h", 1⟩ &&
        (s'.server.fx.endpoints.find? (text "c")).any fun endpoint =>
          endpoint.statusVariable = some .operational) = true := by
    decide +kernel
  simp only [Option.any_eq_true, Bool.and_eq_true, decide_eq_true_eq] at hruns
  obtain ⟨s, hrun, ⟨hresting, endpoint, hfind, hactive, hrole⟩, s', hrun', ⟨hresting',
    hreceiver⟩, endpoint', hfind', hstatus⟩ := hruns
  exact ⟨hboots, hdistinct, s, s', endpoint, endpoint', hrun, hresting, hfind, hactive, hrole,
    hrun', hresting', hreceiver, hfind', hstatus⟩

theorem subscriber_status_meter : ∃ s endpoint, run step (start meterServer) meterActions = some s ∧
    s.server.fx.endpoints.find? (text "c") = some endpoint ∧
    endpoint.statusVariable = some .operational ∧
    OperationalWhenAccepted s ∧ StartsAfresh s ∧ InitialOnceClosed s ∧ WakesUp s ∧
      HandlesDatagrams s := by
  obtain ⟨hboots, hdistinct, s₁, s, -, endpoint, hrun₁, -, -, -, -, hrun₂, -, -, hfind,
    hstatus⟩ := run_meter
  have hrun : run step (start meterServer) meterActions = some s := by
    rw [← List.take_append_drop 8 meterActions, run_append hrun₁, hrun₂]
  exact ⟨s, endpoint, hrun, hfind, hstatus,
    subscriber_status meterServer hboots meterActions s hrun hdistinct⟩

end Runs

end Fx

end Supernova
