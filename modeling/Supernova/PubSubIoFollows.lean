/-
What one state of the io thread keeps of another: owners, numbers in the tables,
and the groups and readers that no event takes away.  Only what is in a table has
effects.
-/
import Supernova.PubSubIoRuns

namespace Supernova

namespace PubSub

/-- A datagram changes the two flags of a reader at most. -/
theorem find?_handleMessages_some {signalled : Nat → Bool} {message : NetworkMessage} (m : Nat)
    (messages : List DataSetMessage) {readers : OrderedMap ReaderKey ReaderRuntime}
    {key : ReaderKey} {reader : ReaderRuntime} (hfind : readers.find? key = some reader) :
    ∃ firstDataSignalled dataSeen,
      (handleMessages signalled message m messages readers).1.find? key =
        some { reader with firstDataSignalled, dataSeen } := by
  induction messages generalizing m readers reader with
  | nil => exact ⟨_, _, hfind⟩
  | cons dsm messages ih =>
      rcases handleMessages_cons signalled message m dsm messages readers with
        ⟨-, heq⟩ | ⟨other, -, hother, heq⟩
      · rw [heq]
        exact ih (m + 1) hfind
      · rw [heq]
        by_cases hkey : key = messageKey message dsm
        · rw [← hkey, hfind, Option.some.injEq] at hother
          obtain ⟨firstDataSignalled, dataSeen, hframe⟩ :=
            applyMessage_frame (signalled m) dsm.fields other
          have hassigned : (readers.assign (messageKey message dsm)
              (applyMessage (signalled m) dsm.fields other).1).find? key =
                some { reader with firstDataSignalled, dataSeen } := by
            rw [OrderedMap.find?_assign, if_pos hkey, hframe, hother]
          have hrest := ih (m + 1) hassigned
          exact hrest
        · exact ih (m + 1) (by rw [OrderedMap.find?_assign, if_neg hkey, hfind])

namespace IoThread

/-- The event takes away what was added under the tag. -/
def Event.endsTag (tag : Bytes) : Event → Prop
  | .remove ownerTag => ownerTag = tag
  | .shutdown => True
  | _ => False

section Effects

variable {s s' : State}

/-- Only handlers have effects. -/
theorem mem_effects {event : Event} {effect : Effect} (h : effect ∈ effects s event) :
    ∃ position moment completion io, event = .complete position moment ∧
      s.io.take position = some (completion, io) ∧
      effect ∈ (complete { s with io } moment completion).2 := by
  cases event with
  | start surroundings configuration =>
      rcases hstart : startStaged surroundings configuration s with ⟨u, s₁⟩ | ⟨error, s₁⟩
      · simp [effects, act, hstart] at h
      · simp [effects, act, hstart] at h
  | ensureStarted => simp [effects, act] at h
  | addWriterGroup socket ownerTag publisherIdType publisherId group => simp [effects, act] at h
  | addReader socket ownerTag reader => simp [effects, act] at h
  | remove ownerTag => simp [effects, act] at h
  | shutdown => simp [effects, act] at h
  | expire group =>
      rcases hfinish : s.io.finish (.wait group) .expired with _ | io
      · simp [effects, act, hfinish] at h
      · simp [effects, act, hfinish] at h
  | fail receiver =>
      rcases hfinish : s.io.finish (.receiveFrom receiver) .failed with _ | io
      · simp [effects, act, hfinish] at h
      · simp [effects, act, hfinish] at h
  | arrive receiver data =>
      rcases hfinish : s.io.finish (.receiveFrom receiver) (.datagram data) with _ | io
      · simp [effects, act, hfinish] at h
      · simp [effects, act, hfinish] at h
  | complete position moment =>
      rcases htake : s.io.take position with _ | ⟨completion, io⟩
      · simp [effects, act, htake] at h
      · refine ⟨position, moment, completion, io, rfl, htake, ?_⟩
        simpa [effects, act, htake] using h

/-- Only a group that is not stopped sends. -/
theorem mem_waitCompleted {sample : Nat → Nat → Nat → Option UaVariant} {group : Nat}
    {outcome : Option Outcome} {effect : Effect}
    (h : effect ∈ (waitCompleted s sample group outcome).2) :
    ∃ runtime message, s.groups[group]? = some ⟨runtime, false⟩ ∧
      effect = .published group message := by
  rcases outcome with _ | outcome
  · simp [waitCompleted] at h
  rcases hobject : s.groups[group]? with _ | ⟨runtime, stopped⟩
  · simp [waitCompleted, hobject] at h
  rcases stopped with _ | _
  · simp only [waitCompleted, hobject, Bool.false_eq_true, if_false, List.mem_singleton] at h
    exact ⟨runtime, _, rfl, h⟩
  · simp [waitCompleted, hobject] at h

/-- Only readers in the table react. -/
theorem mem_receiveCompleted {signalled : Nat → Bool} {receiver : Nat}
    {outcome : Option Outcome} {effect : Effect}
    (h : effect ∈ (receiveCompleted s signalled receiver outcome).2) :
    ∃ key reaction reader, s.readers.find? key = some reader ∧
      effect = .reacted key reaction := by
  have hdatagram : ∀ data, effect ∈ (handleDatagram s signalled data).2 →
      ∃ key reaction reader, s.readers.find? key = some reader ∧
        effect = .reacted key reaction := by
    intro data hmem
    unfold handleDatagram at hmem
    split at hmem
    · cases hmem
    · obtain ⟨⟨key, reaction⟩, hreaction, rfl⟩ := List.mem_map.mp hmem
      obtain ⟨reader, hreader⟩ := Option.isSome_iff_exists.mp (reaction_carried 0 _ _ hreaction).1
      exact ⟨key, reaction, reader, hreader, rfl⟩
  unfold receiveCompleted at h
  split at h
  · split at h
    · cases h
    split at h
    · split at h
      · exact hdatagram _ h
      · cases h
    · cases h
  · cases h

theorem published_mem (h : Sound s) {event : Event} {group : Nat} {message : NetworkMessage}
    (heffect : .published group message ∈ effects s event) : group ∈ s.writerGroups := by
  obtain ⟨position, moment, ⟨operation, outcome⟩, io, -, -, hmem⟩ := mem_effects heffect
  rcases operation with other | receiver
  · obtain ⟨runtime, message', hobject, heq⟩ := mem_waitCompleted hmem
    obtain ⟨rfl, -⟩ := Effect.published.inj heq
    exact (h.live group).mpr ⟨_, hobject, rfl⟩
  · obtain ⟨key, reaction, reader, -, heq⟩ := mem_receiveCompleted hmem
    cases heq

theorem reacted_find? {event : Event} {key : ReaderKey} {reaction : Reaction}
    (heffect : .reacted key reaction ∈ effects s event) :
    ∃ reader, s.readers.find? key = some reader := by
  obtain ⟨position, moment, ⟨operation, outcome⟩, io, -, -, hmem⟩ := mem_effects heffect
  rcases operation with group | receiver
  · obtain ⟨runtime, message, -, heq⟩ := mem_waitCompleted hmem
    cases heq
  · obtain ⟨other, reaction', reader, hreader, heq⟩ := mem_receiveCompleted hmem
    obtain ⟨rfl, -⟩ := Effect.reacted.inj heq
    exact ⟨reader, hreader⟩

end Effects

/-- What goes on from one state to another: objects keep their owner, numbers in the
table are old ones or new ones, and what no event ends stays in its table. -/
structure Follows (ends : Bytes → Prop) (s s' : State) : Prop where
  tags : ∀ group tag, s.owned tag group = true → s'.owned tag group = true
  groups : ∀ group ∈ s'.writerGroups, group ∈ s.writerGroups ∨ s.runtime? group = none
  keptGroups : ∀ group ∈ s.writerGroups, ∀ tag, s.owned tag group = true → ¬ ends tag →
    group ∈ s'.writerGroups
  keptReaders : ∀ key reader, s.readers.find? key = some reader → ¬ ends reader.ownerTag →
    ∃ firstDataSignalled dataSeen,
      s'.readers.find? key = some { reader with firstDataSignalled, dataSeen }

section Follows

variable {s s' s'' : State} {ends ends' : Bytes → Prop}

theorem owned_of_runtime? {group : Nat} {runtime : WriterGroupRuntime}
    (h : s.runtime? group = some runtime) : s.owned runtime.ownerTag group = true := by
  simp [State.owned, h]

theorem runtime?_of_owned {tag : Bytes} {group : Nat} (h : s.owned tag group = true) :
    ∃ runtime, s.runtime? group = some runtime ∧ runtime.ownerTag = tag := by
  simpa [State.owned, Option.any_eq_true] using h

theorem Follows.refl (ends : Bytes → Prop) (s : State) : Follows ends s s :=
  ⟨fun _ _ h => h, fun _ h => .inl h, fun _ h _ _ _ => h, fun _ _ h _ => ⟨_, _, h⟩⟩

theorem Follows.trans (h : Follows ends s s') (h' : Follows ends' s' s'') :
    Follows (fun tag => ends tag ∨ ends' tag) s s'' := by
  refine ⟨?_, ?_, ?_, ?_⟩
  · exact fun group tag howned => h'.tags group tag (h.tags group tag howned)
  · intro group hgroup
    rcases h'.groups group hgroup with hmem | hnone
    · exact h.groups group hmem
    · right
      by_contra hsome
      obtain ⟨runtime, hruntime⟩ := Option.ne_none_iff_exists'.mp hsome
      obtain ⟨runtime', hruntime', -⟩ :=
        runtime?_of_owned (h.tags group _ (owned_of_runtime? hruntime))
      rw [hnone] at hruntime'
      cases hruntime'
  · intro group hgroup tag howned hends
    rw [not_or] at hends
    exact h'.keptGroups group (h.keptGroups group hgroup tag howned hends.1) tag
      (h.tags group tag howned) hends.2
  · intro key reader hfind hends
    rw [not_or] at hends
    obtain ⟨firstDataSignalled, dataSeen, hfind'⟩ := h.keptReaders key reader hfind hends.1
    have hkept := h'.keptReaders key _ hfind' hends.2
    exact hkept

theorem Follows.mono (h : Follows ends s s') (hmono : ∀ tag, ends tag → ends' tag) :
    Follows ends' s s' :=
  ⟨h.tags, h.groups, fun group hgroup tag howned hends =>
    h.keptGroups group hgroup tag howned fun hend => hends (hmono tag hend),
    fun key reader hfind hends =>
      h.keptReaders key reader hfind fun hend => hends (hmono _ hend)⟩

/-- A part of the engine that only works on the receivers or on what is under way. -/
theorem follows_of_same (ends : Bytes → Prop) (hgroups : s'.groups = s.groups)
    (hwriterGroups : s'.writerGroups = s.writerGroups) (hreaders : s'.readers = s.readers) :
    Follows ends s s' := by
  have hruntime : s'.runtime? = s.runtime? := by
    funext group
    rw [State.runtime?, hgroups, State.runtime?]
  refine ⟨?_, ?_, ?_, ?_⟩
  · intro group tag howned
    rw [State.owned, hruntime]
    exact howned
  · rw [hwriterGroups]
    exact fun group hgroup => .inl hgroup
  · rw [hwriterGroups]
    exact fun group hgroup _ _ _ => hgroup
  · rw [hreaders]
    exact fun key reader hfind _ => ⟨_, _, hfind⟩

theorem follows_newGroup (ends : Bytes → Prop) (s : State) (runtime : WriterGroupRuntime) :
    Follows ends s (pushWriterGroup { s with groups := s.groups ++ [⟨runtime, false⟩] }
      s.groups.length) := by
  have hold : ∀ group, (s.runtime? group).isSome → State.runtime?
      (pushWriterGroup { s with groups := s.groups ++ [⟨runtime, false⟩] } s.groups.length)
        group = s.runtime? group := by
    intro group hsome
    rw [State.runtime?, Option.isSome_map, Option.isSome_iff_exists] at hsome
    obtain ⟨object, hobject⟩ := hsome
    have hlt := (List.getElem?_eq_some_iff.mp hobject).1
    change ((s.groups ++ [_])[group]?).map _ = _
    rw [List.getElem?_append_left hlt, State.runtime?]
  refine ⟨?_, ?_, ?_, ?_⟩
  · intro group tag howned
    obtain ⟨runtime', hruntime', rfl⟩ := runtime?_of_owned howned
    exact owned_of_runtime? ((hold group (by simp [hruntime'])).trans hruntime')
  · intro group hgroup
    rcases List.mem_append.mp hgroup with hgroup | hgroup
    · exact .inl hgroup
    · rw [List.mem_singleton.mp hgroup]
      right
      simp [State.runtime?]
  · exact fun group hgroup _ _ _ => List.mem_append_left _ hgroup
  · exact fun key reader hfind _ => ⟨_, _, hfind⟩

theorem acquireReceiver_frame {socket : Option Bytes} {endpoint : ReceiverKey}
    {armImmediately : Bool} {u : Unit}
    (hrun : acquireReceiver socket endpoint armImmediately s = .ok u s') :
    s'.groups = s.groups ∧ s'.writerGroups = s.writerGroups ∧ s'.readers = s.readers := by
  rcases acquireReceiver_run s socket endpoint armImmediately with
    ⟨entry, hentry, hok⟩ | ⟨-, error, -, herror⟩ | ⟨hnone, -, hok⟩
  · rw [hok] at hrun
    obtain ⟨-, rfl⟩ := EStateM.Result.ok.inj hrun
    exact ⟨rfl, rfl, rfl⟩
  · rw [herror] at hrun
    cases hrun
  · rw [hok] at hrun
    obtain ⟨-, rfl⟩ := EStateM.Result.ok.inj hrun
    cases armImmediately <;> exact ⟨rfl, rfl, rfl⟩

theorem releaseReceiver_frame (s : State) (endpoint : ReceiverKey) :
    (releaseReceiver s endpoint).groups = s.groups ∧
      (releaseReceiver s endpoint).writerGroups = s.writerGroups := by
  rw [releaseReceiver]
  rcases s.receivers.find? endpoint with _ | entry
  · exact ⟨rfl, rfl⟩
  · by_cases hused : 0 < entry.useCount - 1
    · simp only [hused, dif_pos]
      exact ⟨rfl, rfl⟩
    · simp only [hused, dif_neg, not_false_eq_true]
      exact ⟨rfl, rfl⟩

/-- A new reader takes a key that no reader has. -/
theorem follows_newReader (ends : Bytes → Prop) {key : ReaderKey} {reader : ReaderRuntime}
    (hfresh : s.readers.find? key = none) (hgroups : s'.groups = s.groups)
    (hwriterGroups : s'.writerGroups = s.writerGroups)
    (hreaders : s'.readers = s.readers.assign key reader) : Follows ends s s' := by
  have hsame : Follows ends s { s' with readers := s.readers } :=
    follows_of_same ends hgroups hwriterGroups rfl
  refine ⟨hsame.tags, hsame.groups, hsame.keptGroups, ?_⟩
  intro other found hfind _
  rw [hreaders, OrderedMap.find?_assign, if_neg]
  · exact ⟨_, _, hfind⟩
  · rintro rfl
    rw [hfresh] at hfind
    cases hfind

theorem removeDynamic_groups (hrunning : s.running = true) (ownerTag : Bytes) :
    (∀ group, (removeDynamic s ownerTag).runtime? group = s.runtime? group) ∧
      (removeDynamic s ownerTag).writerGroups =
        s.writerGroups.filter fun group => !(s.owned ownerTag group) := by
  obtain ⟨hruntimes, hgroups, -⟩ := foldl_removeGroup ownerTag s.writerGroups s
  have hreaders : ∀ (entries : List (ReaderKey × ReaderRuntime)) (s : State),
      (entries.foldl (removeReader ownerTag) s).groups = s.groups ∧
        (entries.foldl (removeReader ownerTag) s).writerGroups = s.writerGroups := by
    intro entries s
    refine List.foldlRecOn (motive := fun s' : State => s'.groups = s.groups ∧
      s'.writerGroups = s.writerGroups) entries _ ⟨rfl, rfl⟩ ?_
    rintro s' ⟨hgroups, hwriterGroups⟩ entry -
    rw [removeReader]
    split
    · obtain ⟨hgroups', hwriterGroups'⟩ := releaseReceiver_frame s' entry.2.endpoint
      exact ⟨hgroups'.trans hgroups, hwriterGroups'.trans hwriterGroups⟩
    · exact ⟨hgroups, hwriterGroups⟩
  obtain ⟨hgroups', hwriterGroups'⟩ := hreaders s.readers.entries
    (s.writerGroups.foldl (removeGroup ownerTag) s)
  rw [removeDynamic, hrunning, Bool.not_true, if_neg Bool.false_ne_true]
  constructor
  · intro group
    rw [State.runtime?, hgroups', ← State.runtime?, hruntimes]
  · rw [hwriterGroups', hgroups]
    refine List.filter_congr fun group hgroup => ?_
    rw [List.contains_iff_mem.mpr hgroup, Bool.true_and]

theorem follows_removeDynamic (s : State) (ownerTag : Bytes) :
    Follows (fun tag => ownerTag = tag) s (removeDynamic s ownerTag) := by
  rcases hrunning : s.running with _ | _
  · rw [removeDynamic, hrunning, Bool.not_false, if_pos rfl]
    exact Follows.refl _ s
  obtain ⟨hruntimes, hgroups⟩ := removeDynamic_groups hrunning ownerTag
  refine ⟨?_, ?_, ?_, ?_⟩
  · intro group tag howned
    rw [State.owned, hruntimes]
    exact howned
  · rw [hgroups]
    exact fun group hgroup => .inl (List.mem_filter.mp hgroup).1
  · intro group hgroup tag howned hends
    rw [hgroups, List.mem_filter]
    refine ⟨hgroup, ?_⟩
    obtain ⟨runtime, hruntime, rfl⟩ := runtime?_of_owned howned
    simp [State.owned, hruntime, Ne.symm hends]
  · intro key reader hfind hends
    have hreaders : (removeDynamic s ownerTag).readers =
        (PubSub.removeDynamic s.engine ownerTag).readers := by
      rw [← engine_removeDynamic]
      rfl
    have hfind' : s.engine.readers.find? key = some reader := hfind
    have hrunning' : s.engine.running = true := hrunning
    rw [hreaders, find?_removeDynamic hrunning', hfind', Option.filter_some,
      if_pos (by simpa using Ne.symm hends)]
    exact ⟨_, _, rfl⟩

end Follows

section FollowsSteps

variable {s s' s'' : State} {ends : Bytes → Prop}

theorem Follows.next (h : Follows ends s s') (h' : Follows ends s' s'') : Follows ends s s'' :=
  (h.trans h').mono fun _ hends => hends.elim id id

theorem follows_left (ends : Bytes → Prop) {result : EStateM.Result Bytes State Unit}
    {expected : Except Bytes Engine} (hagrees : Agrees s result expected)
    (hok : ∀ u s', result = .ok u s' → Follows ends s s') : Follows ends s (left result) := by
  rcases result with ⟨u, s'⟩ | ⟨error, s'⟩
  · exact hok u s' rfl
  · obtain ⟨rfl, -⟩ := hagrees
    exact Follows.refl ends _

theorem follows_addDynamicWriterGroup (ends : Bytes → Prop) {socket : Option Bytes}
    {ownerTag : Bytes} {publisherIdType : PublisherIdType} {publisherId : UInt64}
    {group : DynamicWriterGroup} {u : Unit}
    (hrun : addDynamicWriterGroup socket ownerTag publisherIdType publisherId group s =
      .ok u s') : Follows ends s s' := by
  rw [addDynamicWriterGroup_eq] at hrun
  split at hrun
  · cases hrun
  · obtain ⟨-, rfl⟩ := EStateM.Result.ok.inj hrun
    exact (follows_newGroup ends s _).next (follows_of_same ends rfl rfl rfl)

theorem follows_addDynamicReader (ends : Bytes → Prop) {socket : Option Bytes} {ownerTag : Bytes}
    {reader : DynamicReader} {u : Unit}
    (hrun : addDynamicReader socket ownerTag reader s = .ok u s') : Follows ends s s' := by
  rw [addDynamicReader_eq] at hrun
  rcases hadd : PubSub.addDynamicReader s.engine socket ownerTag reader with error | e'
  · rw [hadd] at hrun
    cases hrun
  rw [hadd] at hrun
  obtain ⟨⟨-, -, hfresh⟩, -⟩ := addDynamicReader_eq_ok.1 hadd
  rcases hacquire : acquireReceiver socket ⟨reader.host, reader.port⟩ true s with
    ⟨u, s₁⟩ | ⟨error, s₁⟩
  · rw [hacquire] at hrun
    obtain ⟨-, rfl⟩ := EStateM.Result.ok.inj hrun
    obtain ⟨hgroups, hwriterGroups, hreaders⟩ := acquireReceiver_frame hacquire
    exact follows_newReader ends hfresh hgroups hwriterGroups
      (congrArg (fun readers => readers.assign reader.key (newReader ownerTag reader)) hreaders)
  · rw [hacquire] at hrun
    cases hrun

theorem follows_buildConnection (ends : Bytes → Prop) {surroundings : Surroundings}
    {configuration : Configuration} {connection : ConnectionConfig} {u : Unit}
    (hrun : buildConnection surroundings configuration connection s = .ok u s') :
    Follows ends s s' := by
  obtain ⟨u₁, s₁, hgroups, hreaders⟩ := estate_bind_eq_ok.1 hrun
  have h₁ : Follows ends s s₁ := by
    refine forM_keeps (I := fun s' => Follows ends s s') ?_ (Follows.refl ends s) hgroups
    intro group _ s₁ u s₂ h₁ hbuild
    obtain ⟨runtime, s₃, hresult, hnew⟩ := estate_bind_eq_ok.1 hbuild
    obtain ⟨-, rfl⟩ := estate_ofExcept_eq_ok.1 hresult
    obtain ⟨number, s₃, hnumber, hpush⟩ := estate_bind_eq_ok.1 hnew
    obtain ⟨rfl, rfl⟩ : s₁.groups.length = number ∧
        { s₁ with groups := s₁.groups ++ [⟨runtime, false⟩] } = s₃ :=
      EStateM.Result.ok.inj hnumber
    rw [← estate_modify_eq_ok.1 hpush]
    exact h₁.next (follows_newGroup ends s₁ runtime)
  refine forM_keeps (I := fun s' => Follows ends s s') ?_ h₁ hreaders
  intro reader _ s₁ u s₂ h₁ hbuild
  obtain ⟨targets, s₃, hresult, hrest⟩ := estate_bind_eq_ok.1 hbuild
  obtain ⟨-, rfl⟩ := estate_ofExcept_eq_ok.1 hresult
  obtain ⟨s₃, s₄, hget, hchecked⟩ := estate_bind_eq_ok.1 hrest
  obtain ⟨rfl, rfl⟩ := estate_get_eq_ok.1 hget
  by_cases hcontains : s₁.readers.contains
      ⟨reader.publisherId, reader.writerGroupId, reader.dataSetWriterId⟩ = true
  · simp [hcontains] at hchecked
  rw [if_neg hcontains] at hchecked
  obtain ⟨u₁, s₃, hset, hacquire⟩ := estate_bind_eq_ok.1 hchecked
  obtain ⟨hgroups', hwriterGroups', hreaders'⟩ := acquireReceiver_frame hacquire
  rw [← estate_set_eq_ok.1 hset] at hgroups' hwriterGroups' hreaders'
  exact h₁.next (follows_newReader ends (by simpa [OrderedMap.contains] using hcontains)
    hgroups' hwriterGroups' hreaders')

theorem armAll_frame (s : State) : (armAll s).groups = s.groups ∧
    (armAll s).writerGroups = s.writerGroups ∧ (armAll s).readers = s.readers := by
  have hscheduled := List.foldlRecOn (motive := fun s' : State => s'.groups = s.groups ∧
    s'.writerGroups = s.writerGroups ∧ s'.readers = s.readers) s.writerGroups scheduleGroup
    ⟨rfl, rfl, rfl⟩ fun _ h _ _ => h
  exact List.foldlRecOn (motive := fun s' : State => s'.groups = s.groups ∧
    s'.writerGroups = s.writerGroups ∧ s'.readers = s.readers) _ _ hscheduled fun _ h _ _ => h

theorem follows_startStaged (ends : Bytes → Prop) {surroundings : Surroundings}
    {configuration : Configuration} {u : Unit}
    (hrun : startStaged surroundings configuration s = .ok u s') : Follows ends s s' := by
  obtain ⟨s₁, s₂, hget, hchecked⟩ := estate_bind_eq_ok.1 hrun
  obtain ⟨rfl, rfl⟩ := estate_get_eq_ok.1 hget
  by_cases hactive : s.running = true
  · simp [hactive] at hchecked
  rw [if_neg hactive] at hchecked
  obtain ⟨u₁, s₁, hset, hrest⟩ := estate_bind_eq_ok.1 hchecked
  obtain ⟨u₂, s₂, hbuild, hmodify⟩ := estate_bind_eq_ok.1 hrest
  have hempty : Follows ends s s₁ := by
    rw [← estate_set_eq_ok.1 hset]
    exact follows_of_same ends rfl rfl rfl
  have hbuilt := forM_keeps (I := fun s' => Follows ends s s')
    (fun connection _ s₁ u s₂ h hbuild => h.next (follows_buildConnection ends hbuild))
    hempty hbuild
  obtain ⟨hgroups, hwriterGroups, hreaders⟩ := armAll_frame s₂
  rw [← estate_modify_eq_ok.1 hmodify]
  exact hbuilt.next (follows_of_same ends hgroups hwriterGroups hreaders)

theorem follows_shutdown (s : State) : Follows (fun _ => True) s (shutdown s) := by
  rcases shutdown_cases s with ⟨-, heq⟩ | ⟨-, -, hwriterGroups, -, -, -, hgroups, -⟩
  · rw [heq]
    exact Follows.refl _ s
  refine ⟨?_, ?_, ?_, ?_⟩
  · intro group tag howned
    obtain ⟨runtime, hruntime, rfl⟩ := runtime?_of_owned howned
    refine owned_of_runtime? ?_
    rw [State.runtime?, hgroups, Option.map_map, ← hruntime, State.runtime?]
    refine congrFun (congrArg Option.map (funext fun object => ?_)) _
    rw [Function.comp_apply]
    split <;> rfl
  · intro group hgroup
    rw [hwriterGroups] at hgroup
    cases hgroup
  · exact fun group _ tag _ hends => absurd trivial hends
  · exact fun key reader _ hends => absurd trivial hends

theorem follows_setRuntime (ends : Bytes → Prop) {group : Nat} {runtime runtime' : WriterGroupRuntime}
    {stopped : Bool} (hobject : s.groups[group]? = some ⟨runtime, stopped⟩)
    (htag : runtime'.ownerTag = runtime.ownerTag) :
    Follows ends s { s with groups := s.groups.set group ⟨runtime', stopped⟩ } := by
  have hlt := (List.getElem?_eq_some_iff.mp hobject).1
  refine ⟨?_, fun group hgroup => .inl hgroup, fun group hgroup _ _ _ => hgroup,
    fun key reader hfind _ => ⟨_, _, hfind⟩⟩
  intro other tag howned
  obtain ⟨found, hfound, rfl⟩ := runtime?_of_owned howned
  by_cases hother : other = group
  · subst hother
    rw [State.runtime?, hobject] at hfound
    obtain rfl := Option.some.inj hfound
    rw [← htag]
    refine owned_of_runtime? ?_
    rw [State.runtime?, List.getElem?_set_self hlt]
    rfl
  · refine owned_of_runtime? ?_
    rw [State.runtime?, List.getElem?_set_ne (Ne.symm hother), ← hfound, State.runtime?]

theorem follows_waitCompleted (ends : Bytes → Prop) (s : State)
    (sample : Nat → Nat → Nat → Option UaVariant) (group : Nat) (outcome : Option Outcome) :
    Follows ends s (waitCompleted s sample group outcome).1 := by
  rcases outcome with _ | outcome
  · exact Follows.refl ends s
  rcases hobject : s.groups[group]? with _ | ⟨runtime, stopped⟩
  · simp only [waitCompleted, hobject]
    exact Follows.refl ends s
  rcases stopped with _ | _
  · simp only [waitCompleted, hobject, Bool.false_eq_true, if_false]
    have hset : Follows ends s
        { s with groups := s.groups.set group ⟨(publishGroup sample runtime).1, false⟩ } :=
      follows_setRuntime ends hobject rfl
    exact hset.next (follows_of_same ends rfl rfl rfl)
  · simp only [waitCompleted, hobject, if_true]
    exact Follows.refl ends s

theorem follows_handleDatagram (ends : Bytes → Prop) (s : State) (signalled : Nat → Bool)
    (data : Bytes) : Follows ends s (handleDatagram s signalled data).1 := by
  unfold handleDatagram
  split
  · exact Follows.refl ends s
  · rename_i message _ _
    refine ⟨fun group tag howned => howned, fun group hgroup => .inl hgroup,
      fun group hgroup _ _ _ => hgroup, ?_⟩
    exact fun key reader hfind _ => find?_handleMessages_some 0 message.messages hfind

theorem follows_receiveCompleted (ends : Bytes → Prop) (s : State) (signalled : Nat → Bool)
    (receiver : Nat) (outcome : Option Outcome) :
    Follows ends s (receiveCompleted s signalled receiver outcome).1 := by
  have harm : ∀ s, Follows ends s (armReceive s receiver) :=
    fun s => follows_of_same ends rfl rfl rfl
  unfold receiveCompleted
  split
  · split
    · exact Follows.refl ends s
    split
    · split
      · exact (follows_handleDatagram ends s signalled _).next (harm _)
      · exact harm s
    · exact harm s
  · exact Follows.refl ends s

theorem follows_step (h : Sound s) {event : Event} (hstep : step s event = some s') :
    Follows event.endsTag s s' := by
  have hio : ∀ io, Follows event.endsTag s { s with io } :=
    fun io => follows_of_same _ rfl rfl rfl
  cases event with
  | start surroundings configuration =>
      obtain ⟨u, hstart⟩ := step_start_eq_some.1 hstep
      exact follows_startStaged _ hstart
  | ensureStarted =>
      obtain rfl := Option.some.inj hstep
      refine follows_of_same _ ?_ ?_ ?_
      all_goals
        simp only [ensureStarted]
        split <;> rfl
  | addWriterGroup socket ownerTag publisherIdType publisherId group =>
      obtain rfl := Option.some.inj hstep
      exact follows_left _
        (agrees_addDynamicWriterGroup h.addressed socket ownerTag publisherIdType publisherId group)
        fun u s' hrun => follows_addDynamicWriterGroup _ hrun
  | addReader socket ownerTag reader =>
      obtain rfl := Option.some.inj hstep
      exact follows_left _ (agrees_addDynamicReader s socket ownerTag reader)
        fun u s' hrun => follows_addDynamicReader _ hrun
  | remove ownerTag =>
      obtain rfl := Option.some.inj hstep
      exact follows_removeDynamic s ownerTag
  | shutdown =>
      obtain rfl := Option.some.inj hstep
      exact follows_shutdown s
  | expire group =>
      simp only [step, act, Option.map_map, Option.map_eq_some_iff] at hstep
      obtain ⟨io, -, rfl⟩ := hstep
      exact hio io
  | fail receiver =>
      simp only [step, act, Option.map_map, Option.map_eq_some_iff] at hstep
      obtain ⟨io, -, rfl⟩ := hstep
      exact hio io
  | arrive receiver data =>
      simp only [step, act, Option.map_map, Option.map_eq_some_iff] at hstep
      obtain ⟨io, -, rfl⟩ := hstep
      exact hio io
  | complete position moment =>
      simp only [step, act, Option.map_map, Option.map_eq_some_iff] at hstep
      obtain ⟨⟨⟨operation, outcome⟩, io⟩, -, rfl⟩ := hstep
      rcases operation with group | receiver
      · exact (hio io).next (follows_waitCompleted _ _ _ group outcome)
      · exact (hio io).next (follows_receiveCompleted _ _ _ receiver outcome)

/-- What all events of a run leave alone, the run leaves alone. -/
theorem follows_run {events : List Event} (h : Sound s) (hidle : Idle s)
    (hrun : run step s events = some s') :
    Follows (fun tag => ∃ event ∈ events, event.endsTag tag) s s' := by
  induction events generalizing s with
  | nil =>
      cases hrun
      exact Follows.refl _ _
  | cons event events ih =>
      obtain ⟨s₁, hstep, hrest⟩ := run_cons_eq_some.1 hrun
      have h₁ := (step_sound h hidle hstep).1
      refine ((follows_step h hstep).trans (ih h₁ (idle_step h hidle hstep) hrest)).mono ?_
      rintro tag (hends | ⟨event', hmem, hends⟩)
      · exact ⟨event, List.mem_cons_self, hends⟩
      · exact ⟨event', List.mem_cons_of_mem _ hmem, hends⟩

end FollowsSteps

end IoThread

end PubSub

end Supernova
