/-
What adding and removing dynamic entities does to the engine: when an addition
is accepted, and which groups and readers a removal leaves.
-/
import Supernova.ExceptResults
import Supernova.PubSubEngine

namespace Supernova

namespace PubSub

variable {e e' : Engine} {socket : Option Bytes} {ownerTag : Bytes}

theorem addDynamicWriterGroup_eq_ok {publisherIdType : PublisherIdType} {publisherId : UInt64}
    {group : DynamicWriterGroup} :
    addDynamicWriterGroup e socket ownerTag publisherIdType publisherId group = .ok e' ↔
      (e.running = true ∧ group.fields ≠ [] ∧ isPositive group.publishingIntervalMs = true ∧
        (∀ other ∈ e.writerGroups, collides publisherIdType publisherId group.id other = false) ∧
        socket = none) ∧
      { e with writerGroups :=
          e.writerGroups ++ [newWriterGroup ownerTag publisherIdType publisherId group] } = e' := by
  unfold addDynamicWriterGroup
  rcases hrunning : e.running with _ | _
  · simp
  rcases hfields : group.fields with _ | ⟨field, fields⟩
  · simp
  rcases hinterval : isPositive group.publishingIntervalMs with _ | _
  · simp
  by_cases hcollides : e.writerGroups.any (collides publisherIdType publisherId group.id) = true
  · have hnot : ¬ ∀ other ∈ e.writerGroups,
        collides publisherIdType publisherId group.id other = false := by
      simpa [List.any_eq_true] using hcollides
    simp [hcollides, hnot]
  · have hall : ∀ other ∈ e.writerGroups,
        collides publisherIdType publisherId group.id other = false := by
      simpa [List.any_eq_true] using hcollides
    cases socket with
    | some error => simp [hcollides]
    | none => simpa [hcollides, except_pure_eq_ok] using fun _ => hall

theorem acquireReceiver_eq_ok {receivers receivers' : OrderedMap ReceiverKey ReceiverEntry}
    {key : ReceiverKey} : acquireReceiver receivers socket key = .ok receivers' ↔
      (∃ entry, receivers.find? key = some entry ∧
        receivers.assign key ⟨entry.useCount + 1, Nat.succ_pos _⟩ = receivers') ∨
      receivers.find? key = none ∧ socket = none ∧
        receivers.assign key ⟨1, Nat.one_pos⟩ = receivers' := by
  unfold acquireReceiver
  rcases hentry : receivers.find? key with _ | entry
  · cases socket <;> simp [except_pure_eq_ok]
  · simp [except_pure_eq_ok]

theorem addDynamicReader_eq_ok {reader : DynamicReader} :
    addDynamicReader e socket ownerTag reader = .ok e' ↔
      (e.running = true ∧ reader.targets ≠ [] ∧ e.readers.find? reader.key = none) ∧
      ∃ receivers, acquireReceiver e.receivers socket ⟨reader.host, reader.port⟩ = .ok receivers ∧
        { e with
          receivers := receivers
          readers := e.readers.assign reader.key (newReader ownerTag reader) } = e' := by
  unfold addDynamicReader
  rcases hrunning : e.running with _ | _
  · simp
  rcases htargets : reader.targets with _ | ⟨target, targets⟩
  · simp
  by_cases hcontains : e.readers.contains reader.key = true
  · have hnot : e.readers.find? reader.key ≠ none := by
      intro hnone
      simp [OrderedMap.contains, hnone] at hcontains
    simp [hcontains, hnot]
  · have hnone : e.readers.find? reader.key = none := by
      simpa [OrderedMap.contains] using hcontains
    simp only [hcontains, hnone, Bool.not_true, List.isEmpty_cons, Bool.false_eq_true, if_false,
      except_bind_eq_ok, except_pure_eq_ok, ne_eq, reduceCtorEq, not_false_eq_true, and_self,
      true_and]

section Removal

theorem removeReader_running (entry : ReaderKey × ReaderRuntime) :
    (removeReader ownerTag e entry).running = e.running := by
  rw [removeReader]
  split <;> rfl

theorem removeReader_writerGroups (entry : ReaderKey × ReaderRuntime) :
    (removeReader ownerTag e entry).writerGroups = e.writerGroups := by
  rw [removeReader]
  split <;> rfl

theorem foldl_removeReader (entries : List (ReaderKey × ReaderRuntime)) (e : Engine) :
    (entries.foldl (removeReader ownerTag) e).running = e.running ∧
      (entries.foldl (removeReader ownerTag) e).writerGroups = e.writerGroups ∧
      (entries.foldl (removeReader ownerTag) e).readers.entries =
        e.readers.entries.filter fun entry =>
          entries.all fun doomed => doomed.2.ownerTag ≠ ownerTag || entry.1 ≠ doomed.1 := by
  induction entries generalizing e with
  | nil => simp
  | cons entry entries ih =>
      obtain ⟨hrunning, hgroups, hreaders⟩ := ih (removeReader ownerTag e entry)
      rw [List.foldl_cons]
      refine ⟨hrunning.trans (removeReader_running entry),
        hgroups.trans (removeReader_writerGroups entry), hreaders.trans ?_⟩
      rw [removeReader]
      by_cases htag : entry.2.ownerTag = ownerTag
      · rw [if_pos htag]
        simp only [OrderedMap.erase, List.filter_filter, List.all_cons, htag]
        refine List.filter_congr fun other _ => ?_
        simp [Bool.and_comm]
      · rw [if_neg htag]
        simp [htag]

/-- A removal leaves exactly the readers of other owners. -/
theorem readers_removeDynamic (hrunning : e.running = true) :
    (removeDynamic e ownerTag).readers.entries =
      e.readers.entries.filter fun entry => entry.2.ownerTag ≠ ownerTag := by
  rw [removeDynamic, hrunning, Bool.not_true, if_neg Bool.false_ne_true]
  refine (foldl_removeReader _ _).2.2.trans (List.filter_congr fun entry hentry => ?_)
  by_cases htag : entry.2.ownerTag = ownerTag
  · simp only [htag, ne_eq, not_true_eq_false, decide_false]
    rw [List.all_eq_false]
    exact ⟨entry, hentry, by simp [htag]⟩
  · simp only [ne_eq, htag, not_false_eq_true, decide_true, List.all_eq_true]
    intro doomed hdoomed
    by_cases hkey : entry.1 = doomed.1
    · -- Entries of one key are the same entry.
      have hfind := (e.readers.mem_entries_iff entry.1 entry.2).mp hentry
      have hfind' := (e.readers.mem_entries_iff doomed.1 doomed.2).mp hdoomed
      rw [← hkey, hfind, Option.some.injEq] at hfind'
      simp [← hfind', htag]
    · simp [hkey]

theorem find?_removeDynamic (hrunning : e.running = true) (key : ReaderKey) :
    (removeDynamic e ownerTag).readers.find? key =
      (e.readers.find? key).filter fun reader => reader.ownerTag ≠ ownerTag := by
  apply Option.ext
  intro reader
  rw [← OrderedMap.mem_entries_iff, readers_removeDynamic hrunning, List.mem_filter,
    OrderedMap.mem_entries_iff, Option.filter_eq_some_iff]

theorem writerGroups_removeDynamic (hrunning : e.running = true) :
    (removeDynamic e ownerTag).writerGroups =
      e.writerGroups.filter fun group => group.ownerTag ≠ ownerTag := by
  rw [removeDynamic, hrunning, Bool.not_true, if_neg Bool.false_ne_true]
  exact (foldl_removeReader _ _).2.1

theorem running_removeDynamic : (removeDynamic e ownerTag).running = e.running := by
  rw [removeDynamic]
  split
  · rfl
  · exact (foldl_removeReader _ _).1

theorem removeDynamic_of_not_running (hrunning : e.running = false) :
    removeDynamic e ownerTag = e := by
  rw [removeDynamic, hrunning, Bool.not_false, if_pos rfl]

end Removal

end PubSub

end Supernova
