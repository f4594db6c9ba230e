/-
What holds of the engine between two handlers: groups in the table are the ones
that are not stopped, sockets are open while they are in use, and each group and
each receiver has exactly one operation under way.
-/
import Supernova.PubSubIoRefinement

namespace Supernova

namespace PubSub

namespace IoThread

/-- The object of the operation has been created. -/
def State.Knows (s : State) : Operation → Prop
  | .wait group => group < s.groups.length
  | .receiveFrom receiver => receiver < s.receiverObjects.length

/-- The tables refer to the objects that are in use, and to no others. -/
structure Placed (s : State) : Prop where
  distinct : s.writerGroups.Nodup
  live : ∀ group, group ∈ s.writerGroups ↔
    ∃ object, s.groups[group]? = some object ∧ object.stopped = false
  opened : ∀ receiver endpoint, s.receiverObjects[receiver]? = some ⟨endpoint, true⟩ ↔
    ∃ entry, s.receivers.find? endpoint = some entry ∧ entry.receiver = receiver
  known : ∀ operation, s.io.Mentions operation → s.Knows operation

/-- One operation is under way for each group and each receiver. -/
structure Armed (s : State) : Prop where
  waiting : ∀ group ∈ s.writerGroups, s.io.pending (.wait group) = 1
  receiving : ∀ endpoint entry, s.receivers.find? endpoint = some entry →
    s.io.pending (.receiveFrom entry.receiver) = 1

structure Sound (s : State) : Prop extends Placed s, Armed s

section Placed

variable {s : State}

theorem Placed.addressed (h : Placed s) : Addressed s := by
  intro group hgroup
  obtain ⟨object, hobject, -⟩ := (h.live group).mp hgroup
  exact (List.getElem?_eq_some_iff.mp hobject).1

theorem Placed.receiver_lt (h : Placed s) {endpoint : ReceiverKey} {entry : ReceiverEntry}
    (hentry : s.receivers.find? endpoint = some entry) :
    entry.receiver < s.receiverObjects.length :=
  (List.getElem?_eq_some_iff.mp ((h.opened _ endpoint).mpr ⟨entry, hentry, rfl⟩)).1

/-- A receiver object serves one endpoint. -/
theorem Placed.endpoint_eq (h : Placed s) {endpoint endpoint' : ReceiverKey}
    {entry entry' : ReceiverEntry} (hentry : s.receivers.find? endpoint = some entry)
    (hentry' : s.receivers.find? endpoint' = some entry')
    (hreceiver : entry.receiver = entry'.receiver) : endpoint = endpoint' := by
  have hopen := (h.opened _ endpoint).mpr ⟨entry, hentry, rfl⟩
  have hopen' := (h.opened _ endpoint').mpr ⟨entry', hentry', rfl⟩
  rw [hreceiver, hopen'] at hopen
  simpa [eq_comm] using hopen

/-- Changing what is under way, for objects that exist. -/
theorem Placed.withIo (h : Placed s) {io : IoContext Operation Outcome}
    (hknown : ∀ operation, io.Mentions operation → s.Knows operation) :
    Placed { s with io } :=
  ⟨h.distinct, h.live, h.opened, hknown⟩

end Placed

section Groups

variable {s : State}

/-- A new group takes a number that nothing refers to. -/
theorem placed_newGroup (h : Placed s) (runtime : WriterGroupRuntime) :
    Placed (pushWriterGroup { s with groups := s.groups ++ [⟨runtime, false⟩] }
      s.groups.length) := by
  have hfresh : s.groups.length ∉ s.writerGroups := fun hmem =>
    (h.addressed _ hmem).false
  refine ⟨?_, ?_, h.opened, ?_⟩
  · exact List.nodup_append.mpr ⟨h.distinct, List.nodup_singleton _, by
      rintro group hgroup _ hnew rfl
      exact hfresh (List.mem_singleton.mp hnew ▸ hgroup)⟩
  · intro group
    simp only [pushWriterGroup, List.mem_append, List.mem_singleton]
    rcases Nat.lt_trichotomy group s.groups.length with hlt | heq | hgt
    · rw [List.getElem?_append_left hlt, ← h.live group]
      exact or_iff_left hlt.ne
    · subst heq
      simp
    · have hnone : (s.groups ++ [(⟨runtime, false⟩ : GroupObject)])[group]? = none :=
        List.getElem?_eq_none (by simpa using hgt)
      simp only [hnone, reduceCtorEq, false_and, exists_false, iff_false, not_or]
      exact ⟨fun hmem => (h.addressed group hmem).not_gt hgt, hgt.ne'⟩
  · rintro (group | receiver) hmentions
    · have hlt : group < s.groups.length := h.known (.wait group) hmentions
      change group < (s.groups ++ [(⟨runtime, false⟩ : GroupObject)]).length
      rw [List.length_append]
      omega
    · exact h.known (.receiveFrom receiver) hmentions

theorem sound_added (h : Sound s) (runtime : WriterGroupRuntime) : Sound (added s runtime) := by
  have hfresh : ¬ s.io.Mentions (.wait s.groups.length) := fun hmentions =>
    absurd (h.known _ hmentions) (Nat.lt_irrefl _)
  have hio : (added s runtime).io = s.io.initiate (.wait s.groups.length) := by
    change (s.io.cancel (.wait s.groups.length)).initiate _ = _
    rw [IoContext.cancel_of_not_mentions hfresh]
  have hplaced := placed_newGroup h.toPlaced runtime
  refine ⟨hplaced.withIo ?_, ?_, ?_⟩
  · intro operation hmentions
    rcases IoContext.mentions_initiate.1 hmentions with rfl | hmentions
    · change s.groups.length < (s.groups ++ [(⟨runtime, false⟩ : GroupObject)]).length
      rw [List.length_append]
      exact Nat.lt_succ_self _
    · exact hplaced.known operation (IoContext.mentions_cancel.1 hmentions)
  · intro group hgroup
    rw [hio, IoContext.pending_initiate]
    rcases List.mem_append.mp hgroup with hgroup | hgroup
    · have hne : group ≠ s.groups.length := (h.addressed group hgroup).ne
      rw [h.waiting group hgroup, if_neg (by simpa using hne)]
    · rw [List.mem_singleton.mp hgroup, IoContext.pending_eq_zero hfresh, if_pos rfl]
  · intro endpoint entry hentry
    rw [hio, IoContext.pending_initiate, if_neg (by simp)]
    exact h.receiving endpoint entry hentry

/-- Stopping a group and dropping it from the table. -/
theorem sound_removeGroup (h : Sound s) (ownerTag : Bytes) (group : Nat) :
    Sound (removeGroup ownerTag s group) := by
  rcases howned : s.owned ownerTag group with _ | _
  · rw [removeGroup_of_not_owned howned]
    exact h
  rw [removeGroup_of_owned howned]
  refine ⟨⟨h.distinct.filter _, ?_, h.opened, ?_⟩, ?_, ?_⟩
  · intro other
    simp only [stopGroup, List.mem_filter, List.getElem?_modify, ne_eq, decide_not,
      Bool.not_eq_true', decide_eq_false_iff_not]
    rw [h.live other]
    by_cases hother : group = other
    · simp [hother]
    · simp [hother, Ne.symm hother]
  · rintro (other | receiver) hmentions
    · have hlt : other < s.groups.length := h.known (.wait other) (IoContext.mentions_cancel.1 hmentions)
      change other < (s.groups.modify group _).length
      rw [List.length_modify]
      exact hlt
    · exact h.known (.receiveFrom receiver) (IoContext.mentions_cancel.1 hmentions)
  · intro other hother
    simp only [List.mem_filter, ne_eq, decide_not, Bool.not_eq_true', decide_eq_false_iff_not]
      at hother
    exact (IoContext.pending_cancel_of_ne _ (by simpa using hother.2)).trans
      (h.waiting other hother.1)
  · intro endpoint entry hentry
    exact (IoContext.pending_cancel_of_ne _ (by simp)).trans (h.receiving endpoint entry hentry)

end Groups

section Receivers

variable {s : State} {socket : Option Bytes} {endpoint : ReceiverKey}

/-- A receiver that is in use keeps its object. -/
theorem placed_assignReceiver (h : Placed s) {entry entry' : ReceiverEntry}
    (hentry : s.receivers.find? endpoint = some entry)
    (hreceiver : entry'.receiver = entry.receiver) : Placed (assignReceiver s endpoint entry') := by
  refine ⟨h.distinct, h.live, ?_, h.known⟩
  intro receiver other
  simp only [assignReceiver, OrderedMap.find?_assign]
  rw [h.opened receiver other]
  by_cases hother : other = endpoint
  · simp [hother, hentry, hreceiver]
  · simp [hother]

theorem sound_assignReceiver (h : Sound s) {entry entry' : ReceiverEntry}
    (hentry : s.receivers.find? endpoint = some entry)
    (hreceiver : entry'.receiver = entry.receiver) : Sound (assignReceiver s endpoint entry') := by
  refine ⟨placed_assignReceiver h.toPlaced hentry hreceiver, h.waiting, ?_⟩
  intro other found hfound
  rcases OrderedMap.find?_assign_eq_some.1 hfound with ⟨rfl, rfl⟩ | ⟨-, hfound⟩
  · rw [hreceiver]
    exact h.receiving other entry hentry
  · exact h.receiving other found hfound

theorem placed_opened (h : Placed s) (hnone : s.receivers.find? endpoint = none) :
    Placed (assignReceiver (opened s endpoint false) endpoint
      ⟨s.receiverObjects.length, 1, Nat.one_pos⟩) := by
  refine ⟨h.distinct, h.live, ?_, ?_⟩
  · intro receiver other
    change (s.receiverObjects ++ [(⟨endpoint, true⟩ : ReceiverObject)])[receiver]? = _ ↔ ∃ entry,
      (s.receivers.assign endpoint _).find? other = some entry ∧ _
    rw [OrderedMap.find?_assign]
    rcases Nat.lt_trichotomy receiver s.receiverObjects.length with hlt | heq | hgt
    · rw [List.getElem?_append_left hlt, h.opened receiver other]
      by_cases hother : other = endpoint
      · simp [hother, hnone, hlt.ne']
      · simp [hother]
    · subst heq
      have hno : ∀ entry, s.receivers.find? other = some entry →
          entry.receiver ≠ s.receiverObjects.length := fun entry hentry =>
        (h.receiver_lt hentry).ne
      by_cases hother : other = endpoint
      · simp [hother]
      · simpa [hother, Ne.symm hother] using hno
    · have hout : (s.receiverObjects ++ [(⟨endpoint, true⟩ : ReceiverObject)])[receiver]? = none :=
        List.getElem?_eq_none (by simpa using hgt)
      have hno : ∀ entry, s.receivers.find? other = some entry → entry.receiver ≠ receiver :=
        fun entry hentry => ((h.receiver_lt hentry).trans hgt).ne
      by_cases hother : other = endpoint
      · simp [hout, hother, hgt.ne]
      · simpa [hout, hother] using hno
  · rintro (group | receiver) hmentions
    · exact h.known (.wait group) hmentions
    · have hlt : receiver < s.receiverObjects.length := h.known (.receiveFrom receiver) hmentions
      change receiver < (s.receiverObjects ++ [(⟨endpoint, true⟩ : ReceiverObject)]).length
      rw [List.length_append]
      omega

theorem sound_opened (h : Sound s) (hnone : s.receivers.find? endpoint = none) :
    Sound (assignReceiver (opened s endpoint true) endpoint
      ⟨s.receiverObjects.length, 1, Nat.one_pos⟩) := by
  have hfresh : ¬ s.io.Mentions (.receiveFrom s.receiverObjects.length) := fun hmentions =>
    absurd (h.known _ hmentions) (Nat.lt_irrefl _)
  have hplaced := placed_opened h.toPlaced hnone
  refine ⟨hplaced.withIo ?_, ?_, ?_⟩
  · intro operation hmentions
    rcases IoContext.mentions_initiate.1 hmentions with rfl | hmentions
    · change s.receiverObjects.length <
        (s.receiverObjects ++ [(⟨endpoint, true⟩ : ReceiverObject)]).length
      rw [List.length_append]
      exact Nat.lt_succ_self _
    · exact hplaced.known operation hmentions
  · intro group hgroup
    exact (IoContext.pending_initiate _ _ _).trans (by
      rw [if_neg (by simp)]
      exact h.waiting group hgroup)
  · intro other entry hentry
    change (s.receivers.assign endpoint _).find? other = some entry at hentry
    change (s.io.initiate (.receiveFrom s.receiverObjects.length)).pending _ = 1
    rw [IoContext.pending_initiate]
    rcases OrderedMap.find?_assign_eq_some.1 hentry with ⟨-, rfl⟩ | ⟨-, hentry⟩
    · rw [IoContext.pending_eq_zero hfresh, if_pos rfl]
    · have hne := (h.receiver_lt hentry).ne
      rw [h.receiving other entry hentry, if_neg (by simpa using hne)]

theorem sound_acquireReceiver {u : Unit} {s' : State} (h : Sound s)
    (hrun : acquireReceiver socket endpoint true s = .ok u s') : Sound s' := by
  rcases acquireReceiver_run s socket endpoint true with
    ⟨entry, hentry, hok⟩ | ⟨-, error, -, herror⟩ | ⟨hnone, -, hok⟩
  · rw [hok] at hrun
    obtain ⟨-, rfl⟩ := EStateM.Result.ok.inj hrun
    exact sound_assignReceiver h hentry rfl
  · rw [herror] at hrun
    cases hrun
  · rw [hok] at hrun
    obtain ⟨-, rfl⟩ := EStateM.Result.ok.inj hrun
    exact sound_opened h hnone

theorem sound_releaseReceiver (h : Sound s) (endpoint : ReceiverKey) :
    Sound (releaseReceiver s endpoint) := by
  rw [releaseReceiver]
  rcases hentry : s.receivers.find? endpoint with _ | entry
  · exact h
  by_cases hused : 0 < entry.useCount - 1
  · simp only [hused, dif_pos]
    exact sound_assignReceiver h hentry rfl
  simp only [hused, dif_neg, not_false_eq_true]
  have hother : ∀ other found, (s.receivers.erase endpoint).find? other = some found →
      s.receivers.find? other = some found ∧ found.receiver ≠ entry.receiver := by
    intro other found hfound
    rw [OrderedMap.find?_erase] at hfound
    split at hfound
    · cases hfound
    · rename_i hne
      exact ⟨hfound, fun heq => hne (h.endpoint_eq hfound hentry heq)⟩
  refine ⟨⟨h.distinct, h.live, ?_, ?_⟩, ?_, ?_⟩
  · intro receiver other
    change (s.receiverObjects.modify entry.receiver _)[receiver]? = some _ ↔
      ∃ found, (s.receivers.erase endpoint).find? other = some found ∧ _
    rw [List.getElem?_modify]
    by_cases hreceiver : entry.receiver = receiver
    · subst hreceiver
      have hno : ∀ found, (s.receivers.erase endpoint).find? other = some found →
          found.receiver ≠ entry.receiver := fun found hfound => (hother other found hfound).2
      rcases s.receiverObjects[entry.receiver]? with _ | object
      · simpa using hno
      · simpa using hno
    · simp only [hreceiver, if_false, id_map', OrderedMap.find?_erase]
      rw [h.opened receiver other]
      by_cases hendpoint : other = endpoint
      · simp [hendpoint, hentry, hreceiver]
      · simp [hendpoint]
  · rintro (group | receiver) hmentions
    · exact h.known (.wait group) (IoContext.mentions_cancel.1 hmentions)
    · have hlt : receiver < s.receiverObjects.length :=
        h.known (.receiveFrom receiver) (IoContext.mentions_cancel.1 hmentions)
      change receiver < (s.receiverObjects.modify entry.receiver _).length
      rw [List.length_modify]
      exact hlt
  · intro group hgroup
    exact (IoContext.pending_cancel_of_ne _ (by simp)).trans (h.waiting group hgroup)
  · intro other found hfound
    obtain ⟨hfound, hne⟩ := hother other found hfound
    exact (IoContext.pending_cancel_of_ne _ (by simpa using hne)).trans
      (h.receiving other found hfound)

end Receivers

end IoThread

end PubSub

end Supernova
