/-
The owner tags of the entities that are registered: what each operation of the
engine does to them, and that removing a new entity restores the engine.
-/
import Supernova.PubSubEntities
import Supernova.PubSubStart
import Supernova.ReceiveDispatch

namespace Supernova

namespace OrderedMap

variable {κ V W : Type*} [MapKey κ] [DecidableEq κ]

/-- Replacing the value of a key changes no entry as seen through `f`, if the
new value looks like the old one. -/
theorem map_entries_assign {m : OrderedMap κ V} {k : κ} {v v' : V} {f : κ × V → W}
    (hfind : m.find? k = some v) (hf : f (k, v') = f (k, v)) :
    (m.assign k v').entries.map f = m.entries.map f := by
  obtain ⟨entries, hsorted⟩ := m
  change entries.lookup k = some v at hfind
  change (insertEntry k v' entries).map f = entries.map f
  induction entries with
  | nil => cases hfind
  | cons e entries ih =>
      obtain ⟨hhead, htail⟩ := List.pairwise_cons.mp hsorted
      rw [lookup_cons_eq] at hfind
      by_cases hk : k = e.1
      · rw [if_pos hk, Option.some.injEq] at hfind
        rw [insertEntry, if_pos hk, List.map_cons, List.map_cons, hf, hk, ← hfind]
      · rw [if_neg hk] at hfind
        have hafter : ¬ MapKey.sortKey k < MapKey.sortKey e.1 :=
          not_lt.mpr (hhead _ ((mem_entries_iff ⟨entries, htail⟩ k v).mpr hfind)).le
        rw [insertEntry, if_neg hk, if_neg hafter, List.map_cons, List.map_cons, ih htail hfind]

/-- A new key adds its entry. -/
theorem entries_assign_perm {m : OrderedMap κ V} {k : κ} (hfind : m.find? k = none) (v : V) :
    (m.assign k v).entries.Perm ((k, v) :: m.entries) := by
  apply insertEntry_perm
  rintro ⟨k', v'⟩ he rfl
  rw [mem_entries_iff, hfind] at he
  cases he

end OrderedMap

namespace PubSub

variable {e e' : Engine} {socket : Option Bytes} {ownerTag : Bytes}

/-- The owner tags of the writer groups and the readers, one for each. -/
def ownerTags (e : Engine) : List Bytes :=
  e.writerGroups.map (·.ownerTag) ++ e.readers.entries.map (·.2.ownerTag)

theorem mem_ownerTags {tag : Bytes} :
    tag ∈ ownerTags e ↔ (∃ group ∈ e.writerGroups, group.ownerTag = tag) ∨
      ∃ key reader, e.readers.find? key = some reader ∧ reader.ownerTag = tag := by
  simp only [ownerTags, List.mem_append, List.mem_map, Prod.exists]
  refine or_congr_right (exists_congr fun key => exists_congr fun reader => ?_)
  rw [OrderedMap.mem_entries_iff]

theorem ownerTags_removeDynamic (hrunning : e.running = true) (ownerTag : Bytes) :
    ownerTags (removeDynamic e ownerTag) = (ownerTags e).filter fun tag => tag ≠ ownerTag := by
  rw [ownerTags, writerGroups_removeDynamic hrunning, readers_removeDynamic hrunning, ownerTags,
    List.filter_append, List.filter_map, List.filter_map]
  rfl

theorem ownerTags_addDynamicWriterGroup {publisherIdType : PublisherIdType}
    {publisherId : UInt64} {group : DynamicWriterGroup}
    (h : addDynamicWriterGroup e socket ownerTag publisherIdType publisherId group = .ok e') :
    (ownerTags e').Perm (ownerTag :: ownerTags e) := by
  obtain ⟨-, rfl⟩ := addDynamicWriterGroup_eq_ok.1 h
  simp only [ownerTags, List.map_append, List.map_cons, List.map_nil, List.append_assoc,
    List.singleton_append]
  exact List.perm_middle

theorem ownerTags_addDynamicReader {reader : DynamicReader}
    (h : addDynamicReader e socket ownerTag reader = .ok e') :
    (ownerTags e').Perm (ownerTag :: ownerTags e) := by
  obtain ⟨⟨-, -, hfresh⟩, receivers, -, rfl⟩ := addDynamicReader_eq_ok.1 h
  have hentries := (OrderedMap.entries_assign_perm hfresh (newReader ownerTag reader)).map
    (·.2.ownerTag)
  exact (hentries.append_left _).trans List.perm_middle

theorem running_addDynamicWriterGroup {publisherIdType : PublisherIdType}
    {publisherId : UInt64} {group : DynamicWriterGroup}
    (h : addDynamicWriterGroup e socket ownerTag publisherIdType publisherId group = .ok e') :
    e'.running = true := by
  obtain ⟨⟨hrunning, -⟩, rfl⟩ := addDynamicWriterGroup_eq_ok.1 h
  exact hrunning

theorem running_addDynamicReader {reader : DynamicReader}
    (h : addDynamicReader e socket ownerTag reader = .ok e') : e'.running = true := by
  obtain ⟨⟨hrunning, -⟩, receivers, -, rfl⟩ := addDynamicReader_eq_ok.1 h
  exact hrunning

section Restoring

/-- The loop passes over the readers of other owners. -/
theorem foldl_removeReader_filter (entries : List (ReaderKey × ReaderRuntime)) (e : Engine) :
    entries.foldl (removeReader ownerTag) e =
      (entries.filter fun entry => entry.2.ownerTag = ownerTag).foldl
        (removeReader ownerTag) e := by
  induction entries generalizing e with
  | nil => rfl
  | cons entry entries ih =>
      by_cases htag : entry.2.ownerTag = ownerTag
      · rw [List.filter_cons, if_pos (by simpa using htag), List.foldl_cons, List.foldl_cons, ih]
      · rw [List.filter_cons, if_neg (by simpa using htag), List.foldl_cons, ih, removeReader,
          if_neg htag]

theorem removeDynamic_of_running (hrunning : e.running = true) (ownerTag : Bytes) :
    removeDynamic e ownerTag =
      (e.readers.entries.filter fun entry => entry.2.ownerTag = ownerTag).foldl
        (removeReader ownerTag)
        { e with writerGroups := e.writerGroups.filter fun group => group.ownerTag ≠ ownerTag } := by
  rw [removeDynamic, hrunning, Bool.not_true, if_neg Bool.false_ne_true,
    foldl_removeReader_filter]

theorem filter_writerGroups_of_not_mem (h : ownerTag ∉ ownerTags e) :
    e.writerGroups.filter (fun group => group.ownerTag ≠ ownerTag) = e.writerGroups := by
  apply List.filter_eq_self.mpr
  intro group hgroup
  simp only [ne_eq, decide_not, Bool.not_eq_true', decide_eq_false_iff_not]
  exact fun htag => h (mem_ownerTags.2 (.inl ⟨group, hgroup, htag⟩))

theorem filter_readers_of_not_mem (h : ownerTag ∉ ownerTags e) :
    e.readers.entries.filter (fun entry => entry.2.ownerTag = ownerTag) = [] := by
  apply List.filter_eq_nil_iff.mpr
  rintro ⟨key, reader⟩ hentry
  simp only [decide_eq_true_eq]
  exact fun htag => h (mem_ownerTags.2 (.inr
    ⟨key, reader, (OrderedMap.mem_entries_iff _ key reader).mp hentry, htag⟩))

/-- A new writer group is taken back without a trace. -/
theorem removeDynamic_addDynamicWriterGroup {publisherIdType : PublisherIdType}
    {publisherId : UInt64} {group : DynamicWriterGroup}
    (h : addDynamicWriterGroup e socket ownerTag publisherIdType publisherId group = .ok e')
    (hfree : ownerTag ∉ ownerTags e) : removeDynamic e' ownerTag = e := by
  have hrunning := running_addDynamicWriterGroup h
  obtain ⟨-, rfl⟩ := addDynamicWriterGroup_eq_ok.1 h
  rw [removeDynamic_of_running hrunning, filter_readers_of_not_mem hfree, List.foldl_nil,
    List.filter_append, filter_writerGroups_of_not_mem hfree]
  simp [newWriterGroup]

/-- What was acquired and is released leaves the receivers as they were. -/
theorem releaseReceiver_acquireReceiver
    {receivers receivers' : OrderedMap ReceiverKey ReceiverEntry} {key : ReceiverKey}
    (h : acquireReceiver receivers socket key = .ok receivers') :
    releaseReceiver receivers' key = receivers := by
  rcases acquireReceiver_eq_ok.1 h with ⟨entry, hentry, rfl⟩ | ⟨hnone, -, rfl⟩
  · have hpositive : 0 < entry.useCount + 1 - 1 := entry.used
    rw [releaseReceiver, OrderedMap.find?_assign, if_pos rfl]
    simp only [hpositive, dif_pos]
    exact OrderedMap.assign_assign hentry _
  · rw [releaseReceiver, OrderedMap.find?_assign, if_pos rfl]
    exact OrderedMap.erase_assign hnone _

/-- A new reader is taken back without a trace. -/
theorem removeDynamic_addDynamicReader {reader : DynamicReader}
    (h : addDynamicReader e socket ownerTag reader = .ok e')
    (hfree : ownerTag ∉ ownerTags e) : removeDynamic e' ownerTag = e := by
  have hrunning := running_addDynamicReader h
  obtain ⟨⟨-, -, hfresh⟩, receivers, hacquire, rfl⟩ := addDynamicReader_eq_ok.1 h
  have hdoomed : (e.readers.assign reader.key (newReader ownerTag reader)).entries.filter
      (fun entry => entry.2.ownerTag = ownerTag) =
        [(reader.key, newReader ownerTag reader)] := by
    have hperm := (OrderedMap.entries_assign_perm hfresh (newReader ownerTag reader)).filter
      fun entry => entry.2.ownerTag = ownerTag
    rw [List.filter_cons, if_pos (by simp [newReader]), filter_readers_of_not_mem hfree] at hperm
    exact List.perm_singleton.mp hperm
  have hreceivers : releaseReceiver receivers (newReader ownerTag reader).endpoint =
      e.receivers := releaseReceiver_acquireReceiver hacquire
  have howner : (newReader ownerTag reader).ownerTag = ownerTag := rfl
  rw [removeDynamic_of_running hrunning, hdoomed, List.foldl_cons, List.foldl_nil]
  simp only [removeReader, howner, if_true, hreceivers, OrderedMap.erase_assign hfresh,
    filter_writerGroups_of_not_mem hfree]

end Restoring

section Traffic

/-- A cycle of a group changes no owner. -/
theorem ownerTags_timerCompleted (e : Engine) (group : Nat)
    (sample : Nat → Nat → Nat → Option UaVariant) :
    ownerTags (timerCompleted e group sample) = ownerTags e := by
  have hgroups : (timerCompleted e group sample).writerGroups.map (·.ownerTag) =
      e.writerGroups.map (·.ownerTag) := by
    apply List.ext_getElem?
    intro i
    simp only [timerCompleted, List.getElem?_map, List.getElem?_modify]
    rcases e.writerGroups[i]? with _ | runtime
    · split <;> rfl
    · by_cases hi : group = i
      · simp [hi, publishGroup]
      · simp [hi]
  rw [ownerTags, hgroups]
  rfl

theorem map_entries_handleMessages {W : Type*} {f : ReaderKey × ReaderRuntime → W}
    (hf : ∀ key (reader : ReaderRuntime) firstDataSignalled dataSeen,
      f (key, { reader with firstDataSignalled, dataSeen }) = f (key, reader))
    (signalled : Nat → Bool) (message : NetworkMessage) (m : Nat)
    (messages : List DataSetMessage) (readers : OrderedMap ReaderKey ReaderRuntime) :
    (handleMessages signalled message m messages readers).1.entries.map f =
      readers.entries.map f := by
  induction messages generalizing m readers with
  | nil => rfl
  | cons dsm messages ih =>
      rcases handleMessages_cons signalled message m dsm messages readers with
        ⟨-, heq⟩ | ⟨reader, -, hfind, heq⟩
      · rw [heq]
        exact ih (m + 1) readers
      · obtain ⟨firstDataSignalled, dataSeen, hframe⟩ :=
          applyMessage_frame (signalled m) dsm.fields reader
        rw [heq, ih, OrderedMap.map_entries_assign hfind]
        rw [hframe]
        exact hf _ _ _ _

/-- A datagram changes no reader as seen without its flags. -/
theorem map_readers_receive {W : Type*} {f : ReaderKey × ReaderRuntime → W}
    (hf : ∀ key (reader : ReaderRuntime) firstDataSignalled dataSeen,
      f (key, { reader with firstDataSignalled, dataSeen }) = f (key, reader))
    (e : Engine) (endpoint : ReceiverKey) (signalled : Nat → Bool) (data : Bytes) :
    (receive e endpoint signalled data).1.readers.entries.map f = e.readers.entries.map f := by
  unfold receive
  split
  · unfold handleDatagram
    split
    · rfl
    · exact map_entries_handleMessages hf _ _ _ _ _
  · rfl

theorem frame_receive (e : Engine) (endpoint : ReceiverKey) (signalled : Nat → Bool)
    (data : Bytes) :
    (receive e endpoint signalled data).1.running = e.running ∧
      (receive e endpoint signalled data).1.writerGroups = e.writerGroups := by
  unfold receive
  split
  · unfold handleDatagram
    split <;> exact ⟨rfl, rfl⟩
  · exact ⟨rfl, rfl⟩

theorem ownerTags_receive (e : Engine) (endpoint : ReceiverKey) (signalled : Nat → Bool)
    (data : Bytes) : ownerTags (receive e endpoint signalled data).1 = ownerTags e := by
  rw [ownerTags, (frame_receive e endpoint signalled data).2,
    map_readers_receive (fun _ _ _ _ => rfl), ownerTags]

end Traffic

/-- What is configured has no owner. -/
theorem ownerTags_startStaged (surroundings : Surroundings) (configuration : Configuration) :
    ∀ tag ∈ ownerTags (after (startStaged surroundings configuration initial)), tag = [] := by
  apply preserves_startStaged (I := fun e => ∀ tag ∈ ownerTags e, tag = [])
  · intro e connection group runtime _ _ he hruntime tag htag
    obtain ⟨transmitter, -, hruntime⟩ := except_bind_eq_ok.1 hruntime
    obtain ⟨writers, -, hruntime⟩ := except_bind_eq_ok.1 hruntime
    rw [except_pure_eq_ok] at hruntime
    rcases mem_ownerTags.1 htag with ⟨group', hgroup', rfl⟩ | hreader
    · rcases List.mem_append.mp hgroup' with hgroup' | hgroup'
      · exact he _ (mem_ownerTags.2 (.inl ⟨group', hgroup', rfl⟩))
      · rw [List.mem_singleton.mp hgroup', ← hruntime]
    · exact he tag (mem_ownerTags.2 (.inr hreader))
  · intro e runtime he htag tag hmem
    rcases mem_ownerTags.1 hmem with hgroup | ⟨key, reader, hfind, rfl⟩
    · exact he tag (mem_ownerTags.2 (.inl hgroup))
    · rcases OrderedMap.find?_assign_eq_some.1 hfind with ⟨-, rfl⟩ | ⟨-, hfind⟩
      · exact htag.1
      · exact he _ (mem_ownerTags.2 (.inr ⟨key, reader, hfind, rfl⟩))
  · exact fun e receivers he => he
  · exact fun e he => he
  · simp [ownerTags, initial, OrderedMap.empty]

end PubSub

end Supernova
