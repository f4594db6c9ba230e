/-
Which readers a received datagram can touch.  Readers are looked up by the
publisher id, writer group id and data set writer id that the datagram carries;
the address of the receiver it came through plays no part.
-/
import Supernova.PubSubEngine

namespace Supernova

namespace PubSub

/-- A data message of the datagram is addressed to readers of this key. -/
def Carries (data : Bytes) (key : ReaderKey) : Prop :=
  ∃ message rest, decodeDatagram data = .ok message rest ∧
    ∃ dsm ∈ message.messages, dsm.keepAlive = false ∧ messageKey message dsm = key

/-- Only readers of the endpoint react to the datagram, and the others stay as
they are. -/
def Isolated (e : Engine) (endpoint : ReceiverKey) (signalled : Nat → Bool) (data : Bytes) :
    Prop :=
  (∀ key reaction, (key, reaction) ∈ (receive e endpoint signalled data).2 →
    ∃ reader, e.readers.find? key = some reader ∧ reader.endpoint = endpoint) ∧
  ∀ key reader, e.readers.find? key = some reader → reader.endpoint ≠ endpoint →
    (receive e endpoint signalled data).1.readers.find? key = some reader

section Messages

variable {signalled : Nat → Bool} {message : NetworkMessage}

/-- One turn of the loop: a message that no reader is addressed by, or one that
is applied to its reader. -/
theorem handleMessages_cons (signalled : Nat → Bool) (message : NetworkMessage) (m : Nat)
    (dsm : DataSetMessage) (messages : List DataSetMessage)
    (readers : OrderedMap ReaderKey ReaderRuntime) :
    ((dsm.keepAlive = true ∨ readers.find? (messageKey message dsm) = none) ∧
      handleMessages signalled message m (dsm :: messages) readers =
        handleMessages signalled message (m + 1) messages readers) ∨
    ∃ reader, dsm.keepAlive = false ∧ readers.find? (messageKey message dsm) = some reader ∧
      handleMessages signalled message m (dsm :: messages) readers =
        ((handleMessages signalled message (m + 1) messages
            (readers.assign (messageKey message dsm)
              (applyMessage (signalled m) dsm.fields reader).1)).1,
          (applyMessage (signalled m) dsm.fields reader).2.map
              (fun reaction => (messageKey message dsm, reaction)) ++
            (handleMessages signalled message (m + 1) messages
              (readers.assign (messageKey message dsm)
                (applyMessage (signalled m) dsm.fields reader).1)).2) := by
  rw [handleMessages]
  by_cases halive : dsm.keepAlive = true
  · exact .inl ⟨.inl halive, if_pos halive⟩
  rcases hreader : readers.find? (messageKey message dsm) with _ | reader
  · refine .inl ⟨.inr rfl, ?_⟩
    simp [halive]
  · refine .inr ⟨reader, by simpa using halive, rfl, ?_⟩
    simp [halive]

/-- A message changes the two flags of its reader at most. -/
theorem applyMessage_frame (signalled : Bool) (fields : List WireValue) (reader : ReaderRuntime) :
    ∃ firstDataSignalled dataSeen,
      (applyMessage signalled fields reader).1 = { reader with firstDataSignalled, dataSeen } := by
  unfold applyMessage
  by_cases hcount : min fields.length reader.targets.length = 0
  · rw [if_pos hcount]
    exact ⟨_, _, rfl⟩
  rw [if_neg hcount]
  rcases reader.onFirstData with _ | connectionName
  · exact ⟨_, _, rfl⟩
  by_cases hsignalled : reader.firstDataSignalled = true
  · simp only [hsignalled, if_true]
    exact ⟨_, _, rfl⟩
  · simp only [hsignalled]
    exact ⟨_, _, rfl⟩

theorem reaction_carried (m : Nat) (messages : List DataSetMessage)
    (readers : OrderedMap ReaderKey ReaderRuntime) {key : ReaderKey} {reaction : Reaction}
    (h : (key, reaction) ∈ (handleMessages signalled message m messages readers).2) :
    (readers.find? key).isSome ∧
      ∃ dsm ∈ messages, dsm.keepAlive = false ∧ messageKey message dsm = key := by
  induction messages generalizing m readers with
  | nil => cases h
  | cons dsm messages ih =>
      rcases handleMessages_cons signalled message m dsm messages readers with ⟨-, heq⟩ | ⟨reader, halive, hreader, heq⟩
      · rw [heq] at h
        obtain ⟨hsome, dsm', hmem, hdsm'⟩ := ih (m + 1) readers h
        exact ⟨hsome, dsm', List.mem_cons_of_mem _ hmem, hdsm'⟩
      · rw [heq, List.mem_append, List.mem_map] at h
        rcases h with ⟨reaction', -, hkey⟩ | h
        · obtain ⟨rfl, -⟩ := Prod.mk.inj hkey
          exact ⟨by simp [hreader], dsm, List.mem_cons_self, halive, rfl⟩
        · obtain ⟨hsome, dsm', hmem, hdsm'⟩ := ih (m + 1) _ h
          refine ⟨?_, dsm', List.mem_cons_of_mem _ hmem, hdsm'⟩
          rw [OrderedMap.find?_assign] at hsome
          by_cases hkey : key = messageKey message dsm
          · simp [hkey, hreader]
          · simpa [hkey] using hsome

/-- Two sets of readers that agree on what the messages are addressed to. -/
theorem handleMessages_congr (signalled : Nat → Bool) (message : NetworkMessage) (m : Nat)
    (messages : List DataSetMessage) (readers readers' : OrderedMap ReaderKey ReaderRuntime)
    (h : ∀ dsm ∈ messages, dsm.keepAlive = false →
      readers'.find? (messageKey message dsm) = readers.find? (messageKey message dsm)) :
    (handleMessages signalled message m messages readers').2 =
        (handleMessages signalled message m messages readers).2 ∧
      ∀ key, readers'.find? key = readers.find? key →
        (handleMessages signalled message m messages readers').1.find? key =
          (handleMessages signalled message m messages readers).1.find? key := by
  induction messages generalizing m readers readers' with
  | nil => exact ⟨rfl, fun _ hkey => hkey⟩
  | cons dsm messages ih =>
      rw [List.forall_mem_cons] at h
      rw [handleMessages, handleMessages]
      by_cases halive : dsm.keepAlive = true
      · simp only [halive, if_true]
        exact ih (m + 1) readers readers' h.2
      · rw [Bool.not_eq_true] at halive
        simp only [halive, Bool.false_eq_true, if_false, h.1 halive]
        rcases hreader : readers.find? (messageKey message dsm) with _ | reader
        · exact ih (m + 1) readers readers' h.2
        · have hassign : ∀ key, readers'.find? key = readers.find? key →
              (readers'.assign (messageKey message dsm)
                (applyMessage (signalled m) dsm.fields reader).1).find? key =
              (readers.assign (messageKey message dsm)
                (applyMessage (signalled m) dsm.fields reader).1).find? key := by
            intro key hkey
            rw [OrderedMap.find?_assign, OrderedMap.find?_assign, hkey]
          obtain ⟨hreactions, hfind⟩ := ih (m + 1) _ _
            fun dsm' hmem halive' => hassign _ (h.2 dsm' hmem halive')
          exact ⟨by simp only [hreactions], fun key hkey => hfind key (hassign key hkey)⟩

theorem find?_handleMessages_of_not_carried (m : Nat) (messages : List DataSetMessage)
    (readers : OrderedMap ReaderKey ReaderRuntime) {key : ReaderKey}
    (h : ∀ dsm ∈ messages, dsm.keepAlive = false → messageKey message dsm ≠ key) :
    (handleMessages signalled message m messages readers).1.find? key = readers.find? key := by
  induction messages generalizing m readers with
  | nil => rfl
  | cons dsm messages ih =>
      rw [List.forall_mem_cons] at h
      rcases handleMessages_cons signalled message m dsm messages readers with ⟨-, heq⟩ | ⟨reader, halive, -, heq⟩
      · rw [heq]
        exact ih (m + 1) readers h.2
      · rw [heq]
        refine (ih (m + 1) _ h.2).trans ?_
        rw [OrderedMap.find?_assign, if_neg (Ne.symm (h.1 halive))]

/-- No message adds a reader. -/
theorem find?_handleMessages_none (m : Nat) (messages : List DataSetMessage)
    {readers : OrderedMap ReaderKey ReaderRuntime} {key : ReaderKey}
    (h : readers.find? key = none) :
    (handleMessages signalled message m messages readers).1.find? key = none := by
  induction messages generalizing m readers with
  | nil => exact h
  | cons dsm messages ih =>
      rcases handleMessages_cons signalled message m dsm messages readers with
        ⟨-, heq⟩ | ⟨reader, -, hreader, heq⟩
      · rw [heq]
        exact ih (m + 1) h
      · rw [heq]
        refine ih (m + 1) ?_
        rw [OrderedMap.find?_assign, if_neg, h]
        rintro rfl
        rw [h] at hreader
        cases hreader

end Messages

variable {signalled : Nat → Bool} {endpoint : ReceiverKey} {data : Bytes}

theorem receive_eq (e : Engine) (hreceiver : e.receivers.contains endpoint = true) :
    receive e endpoint signalled data = handleDatagram e signalled data :=
  if_pos hreceiver

theorem handleDatagram_reaction {e : Engine} {key : ReaderKey} {reaction : Reaction}
    (h : (key, reaction) ∈ (handleDatagram e signalled data).2) :
    Carries data key ∧ ∃ reader, e.readers.find? key = some reader := by
  rw [handleDatagram] at h
  rcases hdecode : decodeDatagram data with ⟨message, rest⟩ | ⟨error, rest⟩
  · simp only [hdecode] at h
    obtain ⟨hsome, dsm, hmem, halive, hkey⟩ := reaction_carried 0 _ _ h
    exact ⟨⟨message, rest, hdecode, dsm, hmem, halive, hkey⟩, Option.isSome_iff_exists.mp hsome⟩
  · simp [hdecode] at h

theorem find?_handleDatagram_of_not_carried (e : Engine) {key : ReaderKey}
    (h : ¬ Carries data key) :
    (handleDatagram e signalled data).1.readers.find? key = e.readers.find? key := by
  rw [handleDatagram]
  rcases hdecode : decodeDatagram data with ⟨message, rest⟩ | ⟨error, rest⟩
  · simp only
    refine find?_handleMessages_of_not_carried 0 _ _ ?_
    intro dsm hmem halive hkey
    exact h ⟨message, rest, hdecode, dsm, hmem, halive, hkey⟩
  · rfl

theorem find?_handleDatagram_none {e : Engine} {key : ReaderKey}
    (h : e.readers.find? key = none) :
    (handleDatagram e signalled data).1.readers.find? key = none := by
  rw [handleDatagram]
  rcases decodeDatagram data with ⟨message, rest⟩ | ⟨error, rest⟩
  · exact find?_handleMessages_none 0 message.messages h
  · exact h

theorem receive_reaction {e : Engine} {key : ReaderKey} {reaction : Reaction}
    (h : (key, reaction) ∈ (receive e endpoint signalled data).2) :
    Carries data key ∧ ∃ reader, e.readers.find? key = some reader := by
  by_cases hreceiver : e.receivers.contains endpoint = true
  · rw [receive_eq e hreceiver] at h
    exact handleDatagram_reaction h
  · simp [receive, hreceiver] at h

theorem find?_receive_of_not_carried (e : Engine) {key : ReaderKey} (h : ¬ Carries data key) :
    (receive e endpoint signalled data).1.readers.find? key = e.readers.find? key := by
  by_cases hreceiver : e.receivers.contains endpoint = true
  · rw [receive_eq e hreceiver]
    exact find?_handleDatagram_of_not_carried e h
  · simp [receive, hreceiver]

theorem receive_congr {e e' : Engine}
    (hreceiver : e'.receivers.contains endpoint = e.receivers.contains endpoint)
    (h : ∀ key, Carries data key → e'.readers.find? key = e.readers.find? key) :
    (receive e' endpoint signalled data).2 = (receive e endpoint signalled data).2 ∧
      ∀ key, Carries data key →
        (receive e' endpoint signalled data).1.readers.find? key =
          (receive e endpoint signalled data).1.readers.find? key := by
  by_cases hactive : e.receivers.contains endpoint = true
  · rw [receive_eq e hactive, receive_eq e' (hreceiver.trans hactive), handleDatagram,
      handleDatagram]
    rcases hdecode : decodeDatagram data with ⟨message, rest⟩ | ⟨error, rest⟩
    · simp only
      obtain ⟨hreactions, hfind⟩ := handleMessages_congr signalled message 0 message.messages
        e.readers e'.readers fun dsm hmem halive => h _ ⟨message, rest, hdecode, dsm, hmem, halive, rfl⟩
      exact ⟨hreactions, fun key hkey => hfind key (h key hkey)⟩
    · exact ⟨rfl, h⟩
  · simp only [receive, hreceiver, hactive]
    exact ⟨rfl, h⟩

/-- A received datagram touches the readers that it addresses by their wire ids,
and no others; through which receiver it came makes no difference. -/
theorem receive_isolated_by_key (e e' : Engine) (endpoint endpoint' : ReceiverKey)
    (signalled : Nat → Bool) (data : Bytes) :
    (∀ key reaction, (key, reaction) ∈ (receive e endpoint signalled data).2 →
      Carries data key ∧ ∃ reader, e.readers.find? key = some reader) ∧
    (∀ key, ¬ Carries data key →
      (receive e endpoint signalled data).1.readers.find? key = e.readers.find? key) ∧
    (e.receivers.contains endpoint = true → e.receivers.contains endpoint' = true →
      receive e endpoint' signalled data = receive e endpoint signalled data) ∧
    (e'.receivers.contains endpoint = e.receivers.contains endpoint →
      (∀ key, Carries data key → e'.readers.find? key = e.readers.find? key) →
      (receive e' endpoint signalled data).2 = (receive e endpoint signalled data).2 ∧
      ∀ key, Carries data key →
        (receive e' endpoint signalled data).1.readers.find? key =
          (receive e endpoint signalled data).1.readers.find? key) := by
  refine ⟨?_, ?_, ?_, ?_⟩
  · intro key reaction h
    exact receive_reaction h
  · intro key h
    exact find?_receive_of_not_carried e h
  · intro h h'
    rw [receive_eq e h, receive_eq e h']
  · intro hreceiver h
    exact receive_congr hreceiver h

/-- Two readers on two multicast groups, which differ in the publisher id. -/
def twoGroups : Except Bytes Engine := do
  let reader (publisherId : UInt64) (host : Bytes) : DynamicReader :=
    { publisherIdType := .byte
      publisherId
      writerGroupId := 1
      dataSetWriterId := 1
      targets := [0]
      host
      port := 4840
      onFirstData := none }
  let e ← addDynamicReader ⟨true, [], .empty, .empty⟩ none [1] (reader 7 [1])
  addDynamicReader e none [2] (reader 8 [2])

/-- Publisher 8, writer group 1, writer 1, one field: the Boolean true. -/
def datagramOfPublisher8 : Bytes := [113, 8, 1, 1, 0, 1, 1, 0, 1, 1, 0, 1, 1]

theorem twoGroups_not_isolated :
    ∃ e, twoGroups = .ok e ∧
      e.receivers.contains ⟨[1], 4840⟩ = true ∧
      ¬ Isolated e ⟨[1], 4840⟩ (fun _ => true) datagramOfPublisher8 := by
  have hrun : (match twoGroups with
      | .error _ => false
      | .ok e => e.receivers.contains ⟨[1], 4840⟩ &&
          (receive e ⟨[1], 4840⟩ (fun _ => true) datagramOfPublisher8).2.any fun reaction =>
            (e.readers.find? reaction.1).any fun reader => reader.endpoint ≠ ⟨[1], 4840⟩) =
      true := by
    decide
  rcases he : twoGroups with error | e
  · simp [he] at hrun
  · rw [he] at hrun
    simp only [Bool.and_eq_true, List.any_eq_true, Option.any_eq_true, decide_eq_true_eq] at hrun
    obtain ⟨hreceiver, ⟨key, reaction⟩, hmem, reader, hreader, hendpoint⟩ := hrun
    refine ⟨e, rfl, hreceiver, ?_⟩
    intro h
    obtain ⟨reader', hreader', hendpoint'⟩ := h.1 key reaction hmem
    rw [hreader] at hreader'
    exact hendpoint (Option.some.inj hreader' ▸ hendpoint')

end PubSub

end Supernova
