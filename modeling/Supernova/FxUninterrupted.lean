/-
A call or a datagram that nothing interrupts: the steps of one thread, one after
the other, do what the functions of the engine do at once.
-/
import Supernova.FxInterleaving

namespace Supernova

namespace Fx

section Calls

variable {s s₁ s' : Threads}

/-- The service thread alone is at work, under the lock. -/
def atWork (server : Server) (service : ServicePoint) : Threads :=
  ⟨server, some .service, service, .idle⟩

/-- The service thread alone leads from a state to another. -/
def Serviced (s s' : Threads) : Prop := Leads step (fun _ _ => True) .service s s'

theorem Serviced.head (hstep : serviceStep s = some s₁) (h : Serviced s₁ s') : Serviced s s' :=
  Leads.head hstep trivial h

/-- The return of a call gives the lock up. -/
theorem serviced_returning (server : Server) (outcome : Outcome) :
    Serviced (atWork server (.returning outcome)) (start server) :=
  Serviced.head rfl (Leads.refl _ _)

theorem serviceStep_reconciling (server : Server) (establishment : Establishment) :
    serviceStep (atWork server (.reconciling establishment)) =
      some (atWork server
        (.showing establishment (reconciledStatus establishment server.pubSub))) := by
  simp only [serviceStep, atWork, reconcileStep]
  split <;> rfl

theorem serviced_storing (server : Server) (establishment : Establishment)
    (endpoint : Endpoint) :
    Serviced (atWork server (.storing establishment endpoint))
      (start { server with
        fx := showStatus establishment.name (reconciledStatus establishment server.pubSub)
          (storeEndpoint establishment.name endpoint server.fx) }) := by
  refine Serviced.head rfl ?_
  refine Serviced.head (serviceStep_reconciling _ establishment) ?_
  refine Serviced.head rfl ?_
  exact serviced_returning _ _

theorem serviced_preparing (server : Server) (environment : Environment) (requestJson : Bytes) :
    Serviced (atWork server (.preparing environment requestJson))
      (start (establishConnections environment requestJson server).1) := by
  unfold establishConnections
  rcases hprepared : prepareEstablish server.fx requestJson with what | establishment
  · refine Serviced.head (by simp only [serviceStep, atWork, hprepared]; rfl) ?_
    exact serviced_returning server _
  refine Serviced.head (by simp only [serviceStep, atWork, hprepared]; rfl) ?_
  rcases hactivated : activate server.fx.configuration environment.socket establishment
    server.pubSub with what | pubSub
  · refine Serviced.head (by simp only [serviceStep, posted, activateStep, hactivated]; rfl) ?_
    simp only [hactivated]
    exact serviced_returning server _
  refine Serviced.head (by simp only [serviceStep, posted, activateStep, hactivated]; rfl) ?_
  rcases hview : buildEndpointView environment.refusals establishment server.nodes with
    ⟨endpoint, nodes⟩ | ⟨what, nodes⟩
  · refine Serviced.head (by simp only [serviceStep, viewStep, hview]; rfl) ?_
    simp only [hactivated, hview]
    split
    · exact serviced_storing ⟨server.fx, pubSub, nodes⟩ establishment endpoint
    · exact serviced_storing ⟨server.fx, pubSub, nodes⟩ establishment endpoint
  · refine Serviced.head (by simp only [serviceStep, viewStep, hview]; rfl) ?_
    refine Serviced.head rfl ?_
    simp only [hactivated, hview]
    exact serviced_returning _ _

theorem serviced_closing (server : Server) (requestText : Bytes) :
    Serviced (atWork server (.closing requestText))
      (start (closeConnections requestText server).1) := by
  unfold closeConnections
  rcases htarget : closeTarget server.fx requestText with what | ⟨name, endpoint⟩
  · refine Serviced.head (by simp only [serviceStep, atWork, htarget]; rfl) ?_
    exact serviced_returning server _
  · refine Serviced.head (by simp only [serviceStep, atWork, htarget]; rfl) ?_
    refine Serviced.head rfl (Serviced.head rfl ?_)
    dsimp only
    split
    · exact serviced_returning (takeDown name endpoint server) _
    · exact serviced_returning (takeDown name endpoint server) _

/-- A call that nothing interrupts does what the engine does for it. -/
theorem uninterrupted_call (server : Server) (call : Call) :
    ∃ n, run step (start server) (.call call :: List.replicate n .service) =
      some (start (match call with
        | .establish environment requestJson =>
            (establishConnections environment requestJson server).1
        | .close requestText => (closeConnections requestText server).1)) := by
  cases call with
  | establish environment requestJson =>
      obtain ⟨n, hrun, -⟩ := serviced_preparing server environment requestJson
      exact ⟨n, hrun⟩
  | close requestText =>
      obtain ⟨n, hrun, -⟩ := serviced_closing server requestText
      exact ⟨n, hrun⟩

end Calls

section Datagrams

open PubSub

variable {s : Threads}

/-- The io thread is at work on a datagram, and finds the lock free when it tries it. -/
def Unhindered (s : Threads) (_ : Action) : Prop :=
  s.io ≠ .idle ∧ ∀ key name message messages, s.io = .calling key name message messages →
    s.lock = none

/-- The io thread alone leads from a state to another. -/
def Handled (s s' : Threads) : Prop := Leads step Unhindered .io s s'

theorem Handled.head {s₁ s' : Threads} (hbusy : s.io ≠ .idle)
    (hfree : ∀ key name message messages, s.io = .calling key name message messages →
      s.lock = none)
    (hstep : ioStep s = some s₁) (h : Handled s₁ s') : Handled s s' :=
  Leads.head hstep ⟨hbusy, hfree⟩ h

theorem foldl_signal_writes (key : ReaderKey) (fields : List WireValue) (targets : List Nat)
    (fx : Engine) :
    ((writes fields targets).map fun reaction => (key, reaction)).foldl signal fx = fx := by
  have hwrites : ∀ reaction ∈ writes fields targets, ∃ target value,
      reaction = .write target value := by
    intro reaction hreaction
    obtain ⟨pair, -, hpair⟩ := List.mem_filterMap.mp hreaction
    obtain ⟨value, -, rfl⟩ := Option.map_eq_some_iff.mp hpair
    exact ⟨_, _, rfl⟩
  generalize writes fields targets = reactions at hwrites
  induction reactions with
  | nil => rfl
  | cons reaction reactions ih =>
      rw [List.forall_mem_cons] at hwrites
      obtain ⟨⟨target, value, rfl⟩, hrest⟩ := hwrites
      exact ih hrest

/-- A callback that is not due is not made. -/
theorem applyMessage_of_not_due {fields : List WireValue} {reader : ReaderRuntime}
    (h : dueCallback fields reader = none) (key : ReaderKey) (fx : Engine) :
    applyMessage true fields reader = applyMessage false fields reader ∧
      ((applyMessage false fields reader).2.map fun reaction => (key, reaction)).foldl signal fx =
        fx := by
  unfold dueCallback at h
  unfold applyMessage
  by_cases hcount : min fields.length reader.targets.length = 0
  · simp [hcount]
  rw [if_neg hcount] at h
  rcases hname : reader.onFirstData with _ | name
  · simp [hcount, foldl_signal_writes]
  · by_cases hsignalled : reader.firstDataSignalled = true
    · simp [hcount, hsignalled, foldl_signal_writes]
    · simp [hsignalled, hname] at h

/-- One that is due is made after the fields are written. -/
theorem applyMessage_of_due {fields : List WireValue} {reader : ReaderRuntime} {name : Bytes}
    (h : dueCallback fields reader = some name) :
    applyMessage true fields reader =
      ({ (applyMessage false fields reader).1 with firstDataSignalled := true },
        writes fields reader.targets ++ [.firstData name]) := by
  unfold dueCallback at h
  unfold applyMessage
  by_cases hcount : min fields.length reader.targets.length = 0
  · simp [hcount] at h
  rw [if_neg hcount] at h
  by_cases hsignalled : reader.firstDataSignalled = true
  · simp [hsignalled] at h
  · rw [if_neg hsignalled] at h
    simp [hcount, hsignalled, h]

/-- The io thread at work on the messages of a datagram. -/
def handling (server : Server) (message : NetworkMessage) (messages : List DataSetMessage) :
    Threads :=
  ⟨server, none, .idle, .handling message messages⟩

def assignReader (server : Server) (key : ReaderKey) (reader : ReaderRuntime) : Server :=
  { server with
    pubSub := { server.pubSub with readers := server.pubSub.readers.assign key reader } }

/-- The messages that remain are applied one after the other; the lock is free. -/
theorem handled_messages (message : NetworkMessage) (messages : List DataSetMessage) (m : Nat)
    (server : Server) :
    Handled (handling server message messages)
      (start { server with
        fx := (handleMessages (fun _ => true) message m messages server.pubSub.readers).2.foldl
          signal server.fx
        pubSub := { server.pubSub with
          readers :=
            (handleMessages (fun _ => true) message m messages server.pubSub.readers).1 } }) := by
  induction messages generalizing server m with
  | nil => exact Handled.head (by rintro ⟨⟩) (by rintro _ _ _ _ ⟨⟩) rfl (Leads.refl _ _)
  | cons dsm messages ih =>
      rcases handleMessages_cons (fun _ => true) message m dsm messages server.pubSub.readers with
        ⟨hskipped, heq⟩ | ⟨reader, halive, hfind, heq⟩
      · rw [heq]
        refine Handled.head (by rintro ⟨⟩) (by rintro _ _ _ _ ⟨⟩) ?_ (ih (m + 1) server)
        rcases hskipped with halive | hnone
        · simp only [ioStep, handling, messageStep, halive, if_true]
        · simp only [ioStep, handling, messageStep, hnone, ite_self]
      · have hmessage : messageStep (handling server message (dsm :: messages)) message dsm
            messages =
            ⟨assignReader server (messageKey message dsm) (applyMessage false dsm.fields reader).1,
              none, .idle, (dueCallback dsm.fields reader).elim (.handling message messages)
                fun name => .calling (messageKey message dsm) name message messages⟩ := by
          simp only [messageStep, handling, halive, hfind]
          cases dueCallback dsm.fields reader <;> rfl
        rcases hdue : dueCallback dsm.fields reader with _ | name
        · obtain ⟨hsame, hfold⟩ :=
            applyMessage_of_not_due hdue (messageKey message dsm) server.fx
          rw [hdue] at hmessage
          rw [heq, hsame, List.foldl_append, hfold]
          exact Handled.head (by rintro ⟨⟩) (by rintro _ _ _ _ ⟨⟩) (congrArg some hmessage)
            (ih (m + 1) _)
        · rw [hdue] at hmessage
          rw [heq, applyMessage_of_due hdue, List.map_append, List.foldl_append,
            List.foldl_append, foldl_signal_writes, List.map_singleton, List.foldl_cons,
            List.foldl_nil]
          -- the lock is taken, the endpoint shows it, and the reader is marked as signalled
          refine Handled.head (by rintro ⟨⟩) (by rintro _ _ _ _ ⟨⟩) (congrArg some hmessage) ?_
          refine Handled.head (by rintro ⟨⟩) (fun _ _ _ _ _ => rfl) rfl ?_
          refine Handled.head (by rintro ⟨⟩) (by rintro _ _ _ _ ⟨⟩) rfl ?_
          have hsignalled := ih (m + 1) (assignReader
            { server with fx := (markSubscriberOperational true name server.fx).1 }
            (messageKey message dsm)
            { (applyMessage false dsm.fields reader).1 with firstDataSignalled := true })
          refine Handled.head (by rintro ⟨⟩) (by rintro _ _ _ _ ⟨⟩) ?_ hsignalled
          simp only [ioStep, setSignalled, assignReader, OrderedMap.find?_assign, if_true,
            withReaders, OrderedMap.assign_again, handling]

/-- A datagram that nothing interrupts is handled as the engine handles it. -/
theorem handled_receive {server : Server} {endpoint : ReceiverKey}
    (hreceiver : server.pubSub.receivers.contains endpoint = true) (data : Bytes) :
    ∃ s₁, step (start server) (.receive endpoint data) = some s₁ ∧
      Handled s₁ (start (handle server (.receive endpoint data))) := by
  simp only [step, receiveStep, start, hreceiver, if_true, handle, receive, handleDatagram]
  rcases decodeDatagram data with ⟨message, _⟩ | ⟨diagnostic, _⟩
  · exact ⟨_, rfl, handled_messages message message.messages 0 server⟩
  · exact ⟨_, rfl, Leads.refl _ _⟩

end Datagrams

end Fx

end Supernova
