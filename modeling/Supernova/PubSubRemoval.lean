/-
A removal by owner tag is final: completions that were queued before it change
nothing any more, and the groups and readers of other owners go on.
-/
import Supernova.PubSubIoFollows

namespace Supernova

namespace PubSub

section Tables

variable {e e' : Engine} {ownerTag : Bytes}

/-- The event adds a group or a reader under the tag. -/
def Event.addsUnder (ownerTag : Bytes) : Event → Prop
  | .addWriterGroup _ tag _ _ _ => tag = ownerTag
  | .addReader _ tag _ => tag = ownerTag
  | _ => False

/-- What is configured has no owner. -/
theorem not_mem_ownerTags_startStaged (surroundings : Surroundings)
    (configuration : Configuration) (hnonempty : ownerTag ≠ []) (h : ownerTag ∉ ownerTags e) :
    ownerTag ∉ ownerTags (after (startStaged surroundings configuration e)) := by
  apply preserves_startStaged (I := fun e => ownerTag ∉ ownerTags e) _ _ _ _ e h
  · intro e connection group runtime _ _ he hruntime htag
    obtain ⟨transmitter, -, hruntime⟩ := except_bind_eq_ok.1 hruntime
    obtain ⟨writers, -, hruntime⟩ := except_bind_eq_ok.1 hruntime
    rw [except_pure_eq_ok] at hruntime
    rcases mem_ownerTags.1 htag with ⟨group', hgroup', htag'⟩ | hreader
    · rcases List.mem_append.mp hgroup' with hgroup' | hgroup'
      · exact he (mem_ownerTags.2 (.inl ⟨group', hgroup', htag'⟩))
      · rw [List.mem_singleton.mp hgroup', ← hruntime] at htag'
        exact hnonempty htag'.symm
    · exact he (mem_ownerTags.2 (.inr hreader))
  · intro e runtime he htag hmem
    rcases mem_ownerTags.1 hmem with hgroup | ⟨key, reader, hfind, htag'⟩
    · exact he (mem_ownerTags.2 (.inl hgroup))
    · rcases OrderedMap.find?_assign_eq_some.1 hfind with ⟨-, rfl⟩ | ⟨-, hfind⟩
      · exact hnonempty (htag'.symm.trans htag.1)
      · exact he (mem_ownerTags.2 (.inr ⟨key, reader, hfind, htag'⟩))
  · exact fun e receivers he => he
  · exact fun e he => he

/-- Only an addition brings an owner back. -/
theorem not_mem_ownerTags_advance {event : Event} (hnonempty : ownerTag ≠ [])
    (h : ownerTag ∉ ownerTags e) (hadds : ¬ event.addsUnder ownerTag)
    (hstep : advance e event = some e') : ownerTag ∉ ownerTags e' := by
  cases event with
  | start surroundings configuration =>
      have hafter := not_mem_ownerTags_startStaged surroundings configuration hnonempty h
      obtain ⟨u, hstart⟩ := advance_start_eq_some.1 hstep
      rw [hstart] at hafter
      exact hafter
  | ensureStarted => exact Option.some.inj hstep ▸ h
  | addWriterGroup socket tag publisherIdType publisherId group =>
      obtain rfl := Option.some.inj hstep
      refine keeps_unlessRefused (I := fun e => ownerTag ∉ ownerTags e) h ?_
      intro e₁ hadd hmem
      rcases List.mem_cons.mp ((ownerTags_addDynamicWriterGroup hadd).mem_iff.mp hmem) with
        heq | hmem
      · exact hadds heq.symm
      · exact h hmem
  | addReader socket tag reader =>
      obtain rfl := Option.some.inj hstep
      refine keeps_unlessRefused (I := fun e => ownerTag ∉ ownerTags e) h ?_
      intro e₁ hadd hmem
      rcases List.mem_cons.mp ((ownerTags_addDynamicReader hadd).mem_iff.mp hmem) with
        heq | hmem
      · exact hadds heq.symm
      · exact h hmem
  | remove tag =>
      obtain rfl := Option.some.inj hstep
      change ownerTag ∉ ownerTags (removeDynamic e tag)
      rcases hrunning : e.running with _ | _
      · rw [removeDynamic_of_not_running hrunning]
        exact h
      · rw [ownerTags_removeDynamic hrunning]
        exact fun hmem => h (List.mem_filter.mp hmem).1
  | timer group sample =>
      obtain rfl := Option.some.inj hstep
      change ownerTag ∉ ownerTags (timerCompleted e group sample)
      rw [ownerTags_timerCompleted]
      exact h
  | receive endpoint signalled data =>
      obtain rfl := Option.some.inj hstep
      change ownerTag ∉ ownerTags (receive e endpoint signalled data).1
      rw [ownerTags_receive]
      exact h
  | shutdown =>
      obtain rfl := Option.some.inj hstep
      change ownerTag ∉ ownerTags (shutdown e)
      rw [shutdown]
      split
      · exact h
      · simp [ownerTags, OrderedMap.empty]

end Tables

namespace IoThread

/-- The event adds a group or a reader under the tag. -/
def Event.addsUnder (ownerTag : Bytes) : Event → Prop
  | .addWriterGroup _ tag _ _ _ => tag = ownerTag
  | .addReader _ tag _ => tag = ownerTag
  | _ => False

/-- The receiver of the endpoint is open, and one receive is under way on it. -/
def Receives (s : State) (endpoint : ReceiverKey) : Prop :=
  ∃ entry, s.receivers.find? endpoint = some entry ∧
    s.receiverObjects[entry.receiver]? = some ⟨endpoint, true⟩ ∧
    s.io.pending (.receiveFrom entry.receiver) = 1

/-- What holds at any time after a removal from `s`: the groups that were under the
tag are silent, nothing under the tag is seen until something is added under it
again, and other groups and readers go on until they are removed themselves. -/
structure RemovalFinal (ownerTag : Bytes) (s : State) (later : List Event) (s' : State) :
    Prop where
  removedGroups : ∀ group, s.owned ownerTag group = true →
    ∀ event message, .published group message ∉ effects s' event
  silent : (∀ event ∈ later, ¬ event.addsUnder ownerTag) → ∀ event,
    (∀ group message, .published group message ∈ effects s' event →
      s'.owned ownerTag group = false) ∧
    ∀ key reaction, .reacted key reaction ∈ effects s' event →
      ∃ reader, s'.readers.find? key = some reader ∧ reader.ownerTag ≠ ownerTag
  otherGroups : ∀ group ∈ s.writerGroups, ∀ tag, s.owned tag group = true → tag ≠ ownerTag →
    (∀ event ∈ later, ¬ event.endsTag tag) →
    group ∈ s'.writerGroups ∧ s'.io.pending (.wait group) = 1
  otherReaders : ∀ key reader, s.readers.find? key = some reader → reader.ownerTag ≠ ownerTag →
    (∀ event ∈ later, ¬ event.endsTag reader.ownerTag) →
    (∃ firstDataSignalled dataSeen,
      s'.readers.find? key = some { reader with firstDataSignalled, dataSeen }) ∧
    Receives s' reader.endpoint

section Finality

variable {s s' : State} {ownerTag : Bytes}

theorem addsUnder_of_mem_tableEvents {event : Event} {tableEvent : PubSub.Event}
    (hmem : tableEvent ∈ tableEvents s event) (hadds : tableEvent.addsUnder ownerTag) :
    event.addsUnder ownerTag := by
  cases event with
  | addWriterGroup socket tag publisherIdType publisherId group =>
      obtain rfl := List.mem_singleton.mp hmem
      exact hadds
  | addReader socket tag reader =>
      obtain rfl := List.mem_singleton.mp hmem
      exact hadds
  | start surroundings configuration =>
      obtain rfl := List.mem_singleton.mp hmem
      exact hadds
  | ensureStarted =>
      obtain rfl := List.mem_singleton.mp hmem
      exact hadds
  | remove tag =>
      obtain rfl := List.mem_singleton.mp hmem
      exact hadds
  | shutdown =>
      obtain rfl := List.mem_singleton.mp hmem
      exact hadds
  | expire group => cases hmem
  | fail receiver => cases hmem
  | arrive receiver data => cases hmem
  | complete position moment =>
      -- A handler amounts to a timer or a datagram, or to nothing.
      have hnone : ¬ tableEvent.addsUnder ownerTag := by
        unfold tableEvents at hmem
        simp only at hmem
        split at hmem
        · split at hmem
          · obtain rfl := List.mem_singleton.mp hmem
            exact id
          · cases hmem
        · split at hmem
          · split at hmem
            · obtain rfl := List.mem_singleton.mp hmem
              exact id
            · cases hmem
          · cases hmem
        · cases hmem
      exact absurd hadds hnone

/-- The tables do not learn of an owner that nothing is added under. -/
theorem not_mem_ownerTags_run {events : List Event} (h : Sound s) (hidle : Idle s)
    (hnonempty : ownerTag ≠ []) (habsent : ownerTag ∉ ownerTags s.engine)
    (hadds : ∀ event ∈ events, ¬ event.addsUnder ownerTag)
    (hrun : run step s events = some s') : ownerTag ∉ ownerTags s'.engine := by
  induction events generalizing s with
  | nil =>
      cases hrun
      exact habsent
  | cons event events ih =>
      rw [List.forall_mem_cons] at hadds
      obtain ⟨s₁, hstep, hrest⟩ := run_cons_eq_some.1 hrun
      obtain ⟨h₁, htables⟩ := step_sound h hidle hstep
      refine ih h₁ (idle_step h hidle hstep) ?_ hadds.2 hrest
      refine run_invariant_of_along (I := fun e => ownerTag ∉ ownerTags e)
        (P := fun _ event => ¬ event.addsUnder ownerTag)
        (fun e event e' habsent hadds hstep =>
          not_mem_ownerTags_advance hnonempty habsent hadds hstep) habsent htables ?_
      exact along_of_forall fun tableEvent hmem hadd =>
        hadds.1 (addsUnder_of_mem_tableEvents hmem hadd)

/-- The receiver of a reader in the table is open and armed. -/
theorem receives_of_find? (h : Sound s) (hbalanced : Balanced s.engine.receivers s.engine.readers)
    {key : ReaderKey} {reader : ReaderRuntime} (hfind : s.readers.find? key = some reader) :
    Receives s reader.endpoint := by
  have hlive : 0 < liveReaders s.engine.readers reader.endpoint := by
    rw [liveReaders, List.countP_pos_iff]
    exact ⟨(key, reader), (OrderedMap.mem_entries_iff _ _ _).mpr hfind, by simp⟩
  rw [← hbalanced, ← contains_iff_useCount] at hlive
  change ((s.receivers.map ReceiverEntry.shared).find? reader.endpoint).isSome = true at hlive
  rw [OrderedMap.find?_map, Option.isSome_map, Option.isSome_iff_exists] at hlive
  obtain ⟨entry, hentry⟩ := hlive
  exact ⟨entry, hentry, (h.opened _ _).mpr ⟨entry, hentry, rfl⟩, h.receiving _ entry hentry⟩

theorem owned_iff_mem_ownerTags {group : Nat} (hgroup : group ∈ s.writerGroups)
    (howned : s.owned ownerTag group = true) : ownerTag ∈ ownerTags s.engine := by
  obtain ⟨runtime, hruntime, rfl⟩ := runtime?_of_owned howned
  exact mem_ownerTags.2 (.inl ⟨runtime, List.mem_filterMap.mpr ⟨group, hgroup, hruntime⟩, rfl⟩)

/-- After a removal, the table has no group and no reader of the owner. -/
theorem not_mem_ownerTags_removed (hidle : Idle s) (ownerTag : Bytes) :
    ownerTag ∉ ownerTags (removeDynamic s ownerTag).engine := by
  rw [engine_removeDynamic]
  rcases hrunning : s.running with _ | _
  · obtain ⟨hgroups, -, hreaders, -⟩ := hidle hrunning
    have hrunning' : s.engine.running = false := hrunning
    rw [removeDynamic_of_not_running hrunning']
    simp [ownerTags, State.engine, hgroups, hreaders, OrderedMap.empty]
  · have hrunning' : s.engine.running = true := hrunning
    rw [ownerTags_removeDynamic hrunning']
    simp

/-- Whatever was queued before a removal and whatever comes after it: the removed
groups never send again, nothing is seen under the tag until something is added
under it, and what other owners have goes on with one operation under way for each. -/
theorem removeDynamic_final {before later : List Event}
    (hbefore : run step .initial before = some s) (hnonempty : ownerTag ≠ [])
    (hlater : run step (removeDynamic s ownerTag) later = some s') :
    RemovalFinal ownerTag s later s' := by
  obtain ⟨h, hidle, tableRun, htableRun⟩ := run_sound hbefore
  have hremove : step s (.remove ownerTag) = some (removeDynamic s ownerTag) := rfl
  have hrun : run step s (.remove ownerTag :: later) = some s' :=
    run_cons_eq_some.2 ⟨_, hremove, hlater⟩
  have hremoved := (step_sound h hidle hremove).1
  have hidleRemoved := idle_step h hidle hremove
  have habsent := not_mem_ownerTags_removed hidle ownerTag
  obtain ⟨h', -, tableRun', htableRun'⟩ :=
    run_sound ((run_append hbefore).trans hrun)
  have hbalanced : Balanced s'.engine.receivers s'.engine.readers :=
    run_invariant (I := fun e => Balanced e.receivers e.readers)
      (fun _ _ _ h hstep => balanced_advance h hstep) (fun _ => rfl) htableRun'
  have hfollows := follows_run h hidle hrun
  have hafter := follows_run hremoved hidleRemoved hlater
  have hremoval := follows_step h hremove
  refine ⟨?_, ?_, ?_, ?_⟩
  · intro group howned event message heffect
    have howned' := hremoval.tags group ownerTag howned
    rcases hafter.groups group (published_mem h' heffect) with hmem | hnone
    · exact habsent (owned_iff_mem_ownerTags hmem howned')
    · obtain ⟨runtime, hruntime, -⟩ := runtime?_of_owned howned'
      rw [hnone] at hruntime
      cases hruntime
  · intro hadds event
    have habsent' := not_mem_ownerTags_run hremoved hidleRemoved hnonempty habsent hadds hlater
    constructor
    · intro group message heffect
      rw [Bool.eq_false_iff]
      exact fun howned =>
        habsent' (owned_iff_mem_ownerTags (published_mem h' heffect) howned)
    · intro key reaction heffect
      obtain ⟨reader, hfind⟩ := reacted_find? heffect
      refine ⟨reader, hfind, ?_⟩
      exact fun htag => habsent' (mem_ownerTags.2 (.inr ⟨key, reader, hfind, htag⟩))
  · intro group hgroup tag howned hother hends
    have hmem : group ∈ s'.writerGroups := by
      refine hfollows.keptGroups group hgroup tag howned ?_
      rintro ⟨event, hevent, hend⟩
      rcases List.mem_cons.mp hevent with rfl | hevent
      · exact hother hend.symm
      · exact hends event hevent hend
    exact ⟨hmem, h'.waiting group hmem⟩
  · intro key reader hfind hother hends
    obtain ⟨firstDataSignalled, dataSeen, hfind'⟩ :
        ∃ firstDataSignalled dataSeen,
          s'.readers.find? key = some { reader with firstDataSignalled, dataSeen } := by
      refine hfollows.keptReaders key reader hfind ?_
      rintro ⟨event, hevent, hend⟩
      rcases List.mem_cons.mp hevent with rfl | hevent
      · exact hother hend.symm
      · exact hends event hevent hend
    have hreceives := receives_of_find? h' hbalanced hfind'
    exact ⟨⟨_, _, hfind'⟩, hreceives⟩

/-- A timer that has expired when its group is removed. -/
def queuedTimer : List Event :=
  [.ensureStarted,
    .addWriterGroup none [1] .byte 7
      { id := 1
        dataSetWriterId := 1
        publishingIntervalMs := ⟨0x3FF0000000000000⟩
        fields := [0]
        host := [1]
        port := 4840 },
    .expire 0]

def idleMoment : Moment := ⟨fun _ _ _ => none, fun _ => true⟩

theorem removeDynamic_final_queuedTimer :
    ∃ s s', run step .initial queuedTimer = some s ∧
      run step (removeDynamic s [1]) [.complete 0 idleMoment] = some s' ∧
      RemovalFinal [1] s [.complete 0 idleMoment] s' := by
  have hruns : ((run step .initial queuedTimer).bind fun s =>
      run step (removeDynamic s [1]) [.complete 0 idleMoment]).isSome = true := by
    decide
  obtain ⟨s', hs'⟩ := Option.isSome_iff_exists.mp hruns
  obtain ⟨s, hbefore, hlater⟩ := Option.bind_eq_some_iff.mp hs'
  exact ⟨s, s', hbefore, hlater, removeDynamic_final hbefore (by simp) hlater⟩

end Finality

end IoThread

end PubSub

end Supernova
