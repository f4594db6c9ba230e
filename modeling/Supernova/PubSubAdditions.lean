/-
Dynamic additions: a call that throws has changed nothing, and one that returns has
added one group or one reader, with what that one needs on the io thread.
-/
import Supernova.PubSubIoRuns

namespace Supernova

namespace PubSub

namespace IoThread

/-- One group more, with its timer set. -/
def AddsGroup (s s' : State) (runtime : WriterGroupRuntime) : Prop :=
  s' = { s with
    groups := s.groups ++ [⟨runtime, false⟩]
    writerGroups := s.writerGroups ++ [s.groups.length]
    io := s.io.initiate (.wait s.groups.length) }

/-- One use more of the receiver of an endpoint, which is opened for the first. -/
def AcquiresReceiver (s s' : State) (endpoint : ReceiverKey) : Prop :=
  (∃ entry entry', s.receivers.find? endpoint = some entry ∧
    entry'.receiver = entry.receiver ∧ entry'.useCount = entry.useCount + 1 ∧
    s' = { s with receivers := s.receivers.assign endpoint entry' }) ∨
  (s.receivers.find? endpoint = none ∧
    ∃ entry', entry'.receiver = s.receiverObjects.length ∧ entry'.useCount = 1 ∧
    s' = { s with
      receiverObjects := s.receiverObjects ++ [⟨endpoint, true⟩]
      receivers := s.receivers.assign endpoint entry'
      io := s.io.initiate (.receiveFrom s.receiverObjects.length) })

/-- One reader more, and one use more of its receiver. -/
def AddsReader (s s' : State) (key : ReaderKey) (reader : ReaderRuntime) : Prop :=
  s'.readers.entries.Perm ((key, reader) :: s.readers.entries) ∧
    AcquiresReceiver s { s' with readers := s.readers } reader.endpoint

/-- An addition happens as a whole or not at all. -/
def AdditionsAtomic (s : State) : Prop :=
  (∀ socket ownerTag publisherIdType publisherId group,
    match addDynamicWriterGroup socket ownerTag publisherIdType publisherId group s with
    | .error _ s' => s' = s
    | .ok _ s' => AddsGroup s s' (newWriterGroup ownerTag publisherIdType publisherId group)) ∧
  ∀ socket ownerTag reader,
    match addDynamicReader socket ownerTag reader s with
    | .error _ s' => s' = s
    | .ok _ s' => AddsReader s s' reader.key (newReader ownerTag reader)

section Atomicity

variable {s s' : State}

theorem addsGroup_added (h : Sound s) (runtime : WriterGroupRuntime) :
    AddsGroup s (added s runtime) runtime := by
  have hfresh : ¬ s.io.Mentions (.wait s.groups.length) := fun hmentions =>
    absurd (h.known _ hmentions) (Nat.lt_irrefl _)
  rw [AddsGroup, added, scheduleGroup]
  change State.mk _ _ _ _ _ _ ((s.io.cancel _).initiate _) = _
  rw [IoContext.cancel_of_not_mentions hfresh]
  rfl

theorem acquiresReceiver_of_ok {socket : Option Bytes} {endpoint : ReceiverKey} {u : Unit}
    (hrun : acquireReceiver socket endpoint true s = .ok u s') :
    AcquiresReceiver s s' endpoint := by
  rcases acquireReceiver_run s socket endpoint true with
    ⟨entry, hentry, hok⟩ | ⟨-, error, -, herror⟩ | ⟨hnone, -, hok⟩
  · rw [hok] at hrun
    obtain ⟨-, rfl⟩ := EStateM.Result.ok.inj hrun
    exact .inl ⟨entry, ⟨entry.receiver, entry.useCount + 1, Nat.succ_pos _⟩, hentry, rfl, rfl, rfl⟩
  · rw [herror] at hrun
    cases hrun
  · rw [hok] at hrun
    obtain ⟨-, rfl⟩ := EStateM.Result.ok.inj hrun
    exact .inr ⟨hnone, ⟨s.receiverObjects.length, 1, Nat.one_pos⟩, rfl, rfl, rfl⟩

theorem AcquiresReceiver.readers {endpoint : ReceiverKey} (h : AcquiresReceiver s s' endpoint) :
    s'.readers = s.readers := by
  rcases h with ⟨entry, entry', -, -, -, rfl⟩ | ⟨-, entry', -, -, rfl⟩
  · rfl
  · rfl

theorem addsReader_of_ok {socket : Option Bytes} {ownerTag : Bytes} {reader : DynamicReader}
    {u : Unit} (hrun : addDynamicReader socket ownerTag reader s = .ok u s') :
    AddsReader s s' reader.key (newReader ownerTag reader) := by
  rw [addDynamicReader_eq] at hrun
  rcases hadd : PubSub.addDynamicReader s.engine socket ownerTag reader with error | e'
  · rw [hadd] at hrun
    cases hrun
  rw [hadd] at hrun
  obtain ⟨⟨-, -, hfresh⟩, -⟩ := addDynamicReader_eq_ok.1 hadd
  rcases hacquire : acquireReceiver socket ⟨reader.host, reader.port⟩ true s with
    ⟨u, s₁⟩ | ⟨error, s₁⟩
  · rw [hacquire] at hrun
    obtain ⟨-, rfl⟩ := EStateM.Result.ok.inj hrun
    have hacquires := acquiresReceiver_of_ok hacquire
    have hreaders := hacquires.readers
    constructor
    · change (s₁.readers.assign _ _).entries.Perm _
      rw [hreaders]
      exact OrderedMap.entries_assign_perm hfresh _
    · change AcquiresReceiver s { s₁ with readers := s.readers } _
      rw [← hreaders]
      exact hacquires
  · rw [hacquire] at hrun
    cases hrun

theorem additionsAtomic_of_sound (h : Sound s) : AdditionsAtomic s := by
  constructor
  · intro socket ownerTag publisherIdType publisherId group
    have hagrees := agrees_addDynamicWriterGroup h.addressed socket ownerTag publisherIdType
      publisherId group
    rcases hrun : addDynamicWriterGroup socket ownerTag publisherIdType publisherId group s with
      ⟨u, s'⟩ | ⟨error, s'⟩
    · rw [addDynamicWriterGroup_eq] at hrun
      split at hrun
      · cases hrun
      · obtain ⟨-, rfl⟩ := EStateM.Result.ok.inj hrun
        exact addsGroup_added h _
    · rw [hrun] at hagrees
      exact hagrees.1
  · intro socket ownerTag reader
    have hagrees := agrees_addDynamicReader s socket ownerTag reader
    rcases hrun : addDynamicReader socket ownerTag reader s with ⟨u, s'⟩ | ⟨error, s'⟩
    · exact addsReader_of_ok hrun
    · rw [hrun] at hagrees
      exact hagrees.1

end Atomicity

/-- In every reachable state, each addition changes nothing, or adds exactly what it
is asked for. -/
theorem additions_atomic (events : List Event) :
    Throughout step AdditionsAtomic .initial events := by
  refine throughout_of_invariant (I := fun s => Sound s ∧ Idle s) ?_ ?_
    ⟨sound_initial, fun _ => ⟨rfl, rfl, rfl, rfl⟩⟩ events
  · rintro s event s' ⟨h, hidle⟩ hstep
    exact ⟨(step_sound h hidle hstep).1, idle_step h hidle hstep⟩
  · exact fun s h => additionsAtomic_of_sound h.1

end IoThread

end PubSub

end Supernova
