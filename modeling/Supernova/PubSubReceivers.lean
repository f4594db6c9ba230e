/-
How often each shared receiver is in use: its use count against the readers that
listen on its endpoint, over every run that starts the engine.
-/
import Supernova.PubSubOwners

namespace Supernova

namespace PubSub

/-- The readers that listen on an endpoint. -/
def liveReaders (readers : OrderedMap ReaderKey ReaderRuntime) (endpoint : ReceiverKey) : Nat :=
  readers.entries.countP fun entry => entry.2.endpoint = endpoint

/-- A receiver without an entry is not in use. -/
def useCount (receivers : OrderedMap ReceiverKey ReceiverEntry) (endpoint : ReceiverKey) : Nat :=
  match receivers.find? endpoint with
  | none => 0
  | some entry => entry.useCount

/-- Each receiver counts its readers, and is there as long as it has one. -/
def CountsReaders (e : Engine) : Prop :=
  ∀ endpoint, useCount e.receivers endpoint = liveReaders e.readers endpoint ∧
    (e.receivers.contains endpoint = true ↔ 0 < liveReaders e.readers endpoint)

/-- A start that throws aborts the startup of the server, so no run goes on from it. -/
def advance (e : Engine) : Event → Option Engine
  | .start surroundings configuration =>
      match startStaged surroundings configuration e with
      | .ok _ e' => some e'
      | .error _ _ => none
  | event => some (handle e event)

/-- The part of the law that each operation keeps. -/
def Balanced (receivers : OrderedMap ReceiverKey ReceiverEntry)
    (readers : OrderedMap ReaderKey ReaderRuntime) : Prop :=
  ∀ endpoint, useCount receivers endpoint = liveReaders readers endpoint

theorem contains_iff_useCount (receivers : OrderedMap ReceiverKey ReceiverEntry)
    (endpoint : ReceiverKey) :
    receivers.contains endpoint = true ↔ 0 < useCount receivers endpoint := by
  rw [OrderedMap.contains, useCount]
  rcases receivers.find? endpoint with _ | entry
  · simp
  · simpa using entry.used

theorem Balanced.countsReaders {e : Engine} (h : Balanced e.receivers e.readers) :
    CountsReaders e := by
  intro endpoint
  refine ⟨h endpoint, ?_⟩
  rw [contains_iff_useCount, h endpoint]

section Counts

variable {receivers receivers' : OrderedMap ReceiverKey ReceiverEntry}
  {readers : OrderedMap ReaderKey ReaderRuntime} {endpoint : ReceiverKey}
  {socket : Option Bytes}

theorem useCount_acquireReceiver
    (h : acquireReceiver receivers socket endpoint = .ok receivers') (other : ReceiverKey) :
    useCount receivers' other =
      useCount receivers other + if other = endpoint then 1 else 0 := by
  rcases acquireReceiver_eq_ok.1 h with ⟨entry, hentry, rfl⟩ | ⟨hnone, -, rfl⟩
  · rw [useCount, OrderedMap.find?_assign, useCount]
    by_cases hother : other = endpoint
    · simp [hother, hentry]
    · simp [hother]
  · rw [useCount, OrderedMap.find?_assign, useCount]
    by_cases hother : other = endpoint
    · simp [hother, hnone]
    · simp [hother]

theorem useCount_releaseReceiver (receivers : OrderedMap ReceiverKey ReceiverEntry)
    (endpoint other : ReceiverKey) :
    useCount (releaseReceiver receivers endpoint) other =
      useCount receivers other - if other = endpoint then 1 else 0 := by
  rw [releaseReceiver]
  rcases hentry : receivers.find? endpoint with _ | entry
  · by_cases hother : other = endpoint
    · simp [useCount, hother, hentry]
    · simp [hother]
  · by_cases hused : 0 < entry.useCount - 1
    · simp only [hused, dif_pos]
      rw [useCount, OrderedMap.find?_assign, useCount]
      by_cases hother : other = endpoint
      · simp [hother, hentry]
      · simp [hother]
    · simp only [hused, dif_neg, not_false_eq_true]
      rw [useCount, OrderedMap.find?_erase, useCount]
      by_cases hother : other = endpoint
      · simp only [hother, hentry, if_true]
        omega
      · simp [hother]

theorem liveReaders_assign {key : ReaderKey} (hfresh : readers.find? key = none)
    (reader : ReaderRuntime) (endpoint : ReceiverKey) :
    liveReaders (readers.assign key reader) endpoint =
      liveReaders readers endpoint + if endpoint = reader.endpoint then 1 else 0 := by
  rw [liveReaders, (OrderedMap.entries_assign_perm hfresh reader).countP_eq, List.countP_cons,
    liveReaders]
  by_cases hendpoint : endpoint = reader.endpoint
  · simp [hendpoint]
  · simp [hendpoint, Ne.symm hendpoint]

/-- A reader that is there is counted on its endpoint until it is erased. -/
theorem liveReaders_erase {key : ReaderKey} {reader : ReaderRuntime}
    (hfind : readers.find? key = some reader) (endpoint : ReceiverKey) :
    liveReaders (readers.erase key) endpoint + (if endpoint = reader.endpoint then 1 else 0) =
      liveReaders readers endpoint := by
  have hnone : (readers.erase key).find? key = none := by
    rw [OrderedMap.find?_erase, if_pos rfl]
  have hback : ((readers.erase key).assign key reader).entries.Perm readers.entries := by
    have hsame : ∀ other, (((readers.erase key).assign key reader).find? other).map id =
        (readers.find? other).map id := by
      intro other
      rw [OrderedMap.find?_assign, OrderedMap.find?_erase]
      by_cases hother : other = key
      · simp [hother, hfind]
      · simp [hother]
    simpa using OrderedMap.map_entries_perm hsame
  rw [← liveReaders_assign hnone reader endpoint, liveReaders, liveReaders, hback.countP_eq]

theorem Balanced.acquire (h : Balanced receivers readers) {key : ReaderKey}
    {reader : ReaderRuntime} (hfresh : readers.find? key = none)
    (hacquire : acquireReceiver receivers socket reader.endpoint = .ok receivers') :
    Balanced receivers' (readers.assign key reader) := by
  intro endpoint
  rw [useCount_acquireReceiver hacquire, liveReaders_assign hfresh, h endpoint]

theorem Balanced.release (h : Balanced receivers readers) {key : ReaderKey}
    {reader : ReaderRuntime} (hfind : readers.find? key = some reader) :
    Balanced (releaseReceiver receivers reader.endpoint) (readers.erase key) := by
  intro endpoint
  have hlive := liveReaders_erase hfind endpoint
  rw [useCount_releaseReceiver, h endpoint]
  omega

end Counts

section Steps

variable {e e' : Engine} {socket : Option Bytes} {ownerTag : Bytes}

/-- The loop of a removal, over readers that are all there. -/
theorem balanced_foldl_removeReader {entries : List (ReaderKey × ReaderRuntime)}
    (hsorted : entries.Pairwise fun entry entry' => entry.1 ≠ entry'.1)
    (hthere : ∀ entry ∈ entries, e.readers.find? entry.1 = some entry.2)
    (h : Balanced e.receivers e.readers) :
    Balanced (entries.foldl (removeReader ownerTag) e).receivers
      (entries.foldl (removeReader ownerTag) e).readers := by
  induction entries generalizing e with
  | nil => exact h
  | cons entry entries ih =>
      rw [List.pairwise_cons] at hsorted
      rw [List.forall_mem_cons] at hthere
      rw [List.foldl_cons]
      by_cases htag : entry.2.ownerTag = ownerTag
      · rw [removeReader, if_pos htag]
        refine ih hsorted.2 ?_ (h.release hthere.1)
        intro other hother
        simp only [OrderedMap.find?_erase]
        rw [if_neg (Ne.symm (hsorted.1 other hother)), hthere.2 other hother]
      · rw [removeReader, if_neg htag]
        exact ih hsorted.2 hthere.2 h

theorem balanced_removeDynamic (h : Balanced e.receivers e.readers) (ownerTag : Bytes) :
    Balanced (removeDynamic e ownerTag).receivers (removeDynamic e ownerTag).readers := by
  rw [removeDynamic]
  split
  · exact h
  · refine balanced_foldl_removeReader ?_ ?_ h
    · refine e.readers.sorted.imp ?_
      intro entry entry' hlt heq
      rw [heq] at hlt
      exact lt_irrefl _ hlt
    · exact fun entry hentry => (e.readers.mem_entries_iff entry.1 entry.2).mp hentry

theorem balanced_addDynamicReader {reader : DynamicReader} (h : Balanced e.receivers e.readers)
    (hadd : addDynamicReader e socket ownerTag reader = .ok e') :
    Balanced e'.receivers e'.readers := by
  obtain ⟨⟨-, -, hfresh⟩, receivers, hacquire, rfl⟩ := addDynamicReader_eq_ok.1 hadd
  exact h.acquire hfresh hacquire

theorem balanced_receive (h : Balanced e.receivers e.readers) (endpoint : ReceiverKey)
    (signalled : Nat → Bool) (data : Bytes) :
    Balanced (receive e endpoint signalled data).1.receivers
      (receive e endpoint signalled data).1.readers := by
  have hreceivers : (receive e endpoint signalled data).1.receivers = e.receivers := by
    unfold receive
    split
    · unfold handleDatagram
      split <;> rfl
    · rfl
  have hendpoints : (receive e endpoint signalled data).1.readers.entries.map (·.2.endpoint) =
      e.readers.entries.map (·.2.endpoint) :=
    map_readers_receive (fun _ _ _ _ => rfl) e endpoint signalled data
  intro other
  have hlive := congrArg (List.countP (· = other)) hendpoints
  simp only [List.countP_map] at hlive
  rw [hreceivers, h other]
  exact hlive.symm

theorem lifted_eq_ok {α : Type} {result : Except Bytes α} {a : α} :
    (lifted result) e = .ok a e' ↔ result = .ok a ∧ e = e' := by
  cases result <;> simp [lifted]

/-- What a turn of the group loop does when it returns. -/
theorem eq_of_buildWriterGroup {surroundings : Surroundings} {configuration : Configuration}
    {connection : ConnectionConfig} {group : WriterGroupConfig} {u : Unit}
    (h : buildWriterGroup surroundings configuration connection group e = .ok u e') :
    ∃ runtime, groupRuntime surroundings configuration connection group = .ok runtime ∧
      e' = { e with writerGroups := e.writerGroups ++ [runtime] } := by
  obtain ⟨runtime, e₁, hruntime, hmodify⟩ := estate_bind_eq_ok.1 h
  obtain ⟨hgroup, rfl⟩ := lifted_eq_ok.1 hruntime
  exact ⟨runtime, hgroup, (estate_modify_eq_ok.1 hmodify).symm⟩

/-- What a turn of the reader loop does when it returns: a new reader is in the table, and
its receiver is in use. -/
theorem eq_of_buildReader {surroundings : Surroundings} {connection : ConnectionConfig}
    {config : DataSetReaderConfig} {u : Unit}
    (h : buildReader surroundings connection config e = .ok u e') :
    ∃ (key : ReaderKey) (reader : ReaderRuntime)
        (receivers : OrderedMap ReceiverKey ReceiverEntry),
      e.readers.find? key = none ∧ reader.dataSeen = false ∧
      acquireReceiver e.receivers (surroundings.receiver reader.endpoint) reader.endpoint =
        .ok receivers ∧
      e' = { e with readers := e.readers.assign key reader, receivers } := by
  obtain ⟨targets, e₁, htargets, hrest⟩ := estate_bind_eq_ok.1 h
  obtain ⟨-, rfl⟩ := lifted_eq_ok.1 htargets
  obtain ⟨e₂, e₃, hget, hchecked⟩ := estate_bind_eq_ok.1 hrest
  obtain ⟨rfl, rfl⟩ := estate_get_eq_ok.1 hget
  split at hchecked
  · simp at hchecked
  · rename_i hcontains
    obtain ⟨u₁, e₄, hset, hopen⟩ := estate_bind_eq_ok.1 hchecked
    obtain ⟨receivers, e₅, hlifted, hmodify⟩ := estate_bind_eq_ok.1 hopen
    obtain ⟨hacquire, rfl⟩ := lifted_eq_ok.1 hlifted
    have he' := estate_modify_eq_ok.1 hmodify
    rw [← estate_set_eq_ok.1 hset] at he'
    refine ⟨⟨config.publisherId, config.writerGroupId, config.dataSetWriterId⟩, _, receivers,
      by simpa [OrderedMap.contains] using hcontains, ?_, ?_, he'.symm⟩
    · rfl
    · exact hacquire

/-- What a start does when it returns. -/
theorem eq_of_startStaged {surroundings : Surroundings} {configuration : Configuration}
    {u : Unit} (h : startStaged surroundings configuration e = .ok u e') :
    e.running = false ∧ ∃ u₁ e₁, buildRuntimes surroundings configuration e = .ok u₁ e₁ ∧
      e' = { e₁ with running := true } := by
  obtain ⟨e₁, e₂, hget, hchecked⟩ := estate_bind_eq_ok.1 h
  obtain ⟨rfl, rfl⟩ := estate_get_eq_ok.1 hget
  by_cases hrunning : e.running = true
  · simp [hrunning] at hchecked
  · rw [if_neg hrunning] at hchecked
    obtain ⟨u₁, e₁, hbuild, hmodify⟩ := estate_bind_eq_ok.1 hchecked
    exact ⟨by simpa using hrunning, u₁, e₁, hbuild, (estate_modify_eq_ok.1 hmodify).symm⟩

theorem advance_start_eq_some {surroundings : Surroundings} {configuration : Configuration} :
    advance e (.start surroundings configuration) = some e' ↔
      ∃ u, startStaged surroundings configuration e = .ok u e' := by
  rw [advance]
  rcases startStaged surroundings configuration e with ⟨u, e₁⟩ | ⟨error, e₁⟩
  · simp
  · simp

/-- The reader is new when it takes its place, so its receiver counts one more. -/
theorem balanced_buildReader {surroundings : Surroundings} {connection : ConnectionConfig}
    {reader : DataSetReaderConfig} {u : Unit} (h : Balanced e.receivers e.readers)
    (hbuild : buildReader surroundings connection reader e = .ok u e') :
    Balanced e'.receivers e'.readers := by
  obtain ⟨key, runtime, receivers, hfresh, -, hacquire, rfl⟩ := eq_of_buildReader hbuild
  exact h.acquire hfresh hacquire

theorem balanced_buildWriterGroup {surroundings : Surroundings} {configuration : Configuration}
    {connection : ConnectionConfig} {group : WriterGroupConfig} {u : Unit}
    (h : Balanced e.receivers e.readers)
    (hbuild : buildWriterGroup surroundings configuration connection group e = .ok u e') :
    Balanced e'.receivers e'.readers := by
  obtain ⟨runtime, -, rfl⟩ := eq_of_buildWriterGroup hbuild
  exact h

theorem balanced_buildConnection {surroundings : Surroundings} {configuration : Configuration}
    {connection : ConnectionConfig} {u : Unit} (h : Balanced e.receivers e.readers)
    (hbuild : buildConnection surroundings configuration connection e = .ok u e') :
    Balanced e'.receivers e'.readers := by
  obtain ⟨u₁, e₁, hgroups, hreaders⟩ := estate_bind_eq_ok.1 hbuild
  have h₁ : Balanced e₁.receivers e₁.readers :=
    forM_keeps (I := fun e => Balanced e.receivers e.readers)
      (fun _ _ _ _ _ h hbuild => balanced_buildWriterGroup h hbuild) h hgroups
  exact forM_keeps (I := fun e => Balanced e.receivers e.readers)
    (fun _ _ _ _ _ h hbuild => balanced_buildReader h hbuild) h₁ hreaders

theorem balanced_startStaged {surroundings : Surroundings} {configuration : Configuration}
    {u : Unit} (h : Balanced e.receivers e.readers)
    (hstart : startStaged surroundings configuration e = .ok u e') :
    Balanced e'.receivers e'.readers := by
  obtain ⟨-, u₁, e₁, hbuild, rfl⟩ := eq_of_startStaged hstart
  exact forM_keeps (I := fun e => Balanced e.receivers e.readers)
    (fun _ _ _ _ _ h hbuild => balanced_buildConnection h hbuild) h hbuild

theorem keeps_unlessRefused {I : Engine → Prop} {result : Except Bytes Engine} (h : I e)
    (hok : ∀ e', result = .ok e' → I e') : I (unlessRefused e result) := by
  cases result with
  | error error => exact h
  | ok e' => exact hok e' rfl

theorem balanced_advance {event : Event} (h : Balanced e.receivers e.readers)
    (hstep : advance e event = some e') : Balanced e'.receivers e'.readers := by
  cases event with
  | start surroundings configuration =>
      obtain ⟨u, hstart⟩ := advance_start_eq_some.1 hstep
      exact balanced_startStaged h hstart
  | ensureStarted => exact Option.some.inj hstep ▸ h
  | addWriterGroup socket ownerTag publisherIdType publisherId group =>
      obtain rfl := Option.some.inj hstep
      refine keeps_unlessRefused (I := fun e => Balanced e.receivers e.readers) h ?_
      intro e₁ hadd
      obtain ⟨-, rfl⟩ := addDynamicWriterGroup_eq_ok.1 hadd
      exact h
  | addReader socket ownerTag reader =>
      obtain rfl := Option.some.inj hstep
      exact keeps_unlessRefused (I := fun e => Balanced e.receivers e.readers) h
        fun e₁ hadd => balanced_addDynamicReader h hadd
  | remove ownerTag => exact Option.some.inj hstep ▸ balanced_removeDynamic h ownerTag
  | timer group sample => exact Option.some.inj hstep ▸ h
  | receive endpoint signalled data =>
      exact Option.some.inj hstep ▸ balanced_receive h endpoint signalled data
  | shutdown =>
      obtain rfl := Option.some.inj hstep
      unfold handle shutdown
      simp only
      split
      · exact h
      · exact fun _ => rfl

end Steps

/-- In every state of every run whose starts succeed, each receiver counts exactly
the readers that listen on its endpoint. -/
theorem countsReaders_throughout (events : List Event) :
    Throughout advance CountsReaders initial events := by
  refine throughout_of_invariant (I := fun e => Balanced e.receivers e.readers) ?_ ?_ ?_ events
  · exact fun e event e' h hstep => balanced_advance h hstep
  · exact fun e h => h.countsReaders
  · exact fun _ => rfl

end PubSub

end Supernova
