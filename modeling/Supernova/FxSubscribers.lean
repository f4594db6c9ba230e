/-
The status of subscriber endpoints under any interleaving of the two threads:
what is known at each point of the service thread, of the readers of the
connections, and of the callbacks that the io thread makes.
-/
import Supernova.FxInterleaving

namespace Supernova

namespace Fx

section Links

open PubSub

/-- A reader without its two flags. -/
def readerCore (reader : ReaderRuntime) : ReaderRuntime :=
  { reader with firstDataSignalled := false, dataSeen := false }

/-- Dynamic readers and the connections they are for: one reader for each, under
its tag and with its name, unless the connection is being cleared. -/
structure Linked (readers : OrderedMap ReaderKey ReaderRuntime) (connects : Bytes → Bytes → Prop)
    (clears : Bytes → Prop) : Prop where
  configured : ∀ key reader, readers.find? key = some reader → reader.ownerTag = [] →
    reader.onFirstData = none
  served : ∀ key reader, readers.find? key = some reader → reader.ownerTag ≠ [] →
    reader.targets ≠ [] ∧ ∃ name, reader.onFirstData = some name ∧ connects name reader.ownerTag
  single : ∀ key key' reader reader', readers.find? key = some reader →
    readers.find? key' = some reader' → reader.ownerTag ≠ [] →
    reader'.ownerTag = reader.ownerTag → key' = key
  manned : ∀ name tag, connects name tag →
    (∃ key reader, readers.find? key = some reader ∧ reader.ownerTag = tag) ∨ clears name

namespace Linked

variable {readers readers' : OrderedMap ReaderKey ReaderRuntime}
  {connects connects' : Bytes → Bytes → Prop} {clears clears' : Bytes → Prop}

theorem exists_core (hreaders : ∀ key, (readers'.find? key).map readerCore =
    (readers.find? key).map readerCore) {key : ReaderKey} {reader : ReaderRuntime}
    (hfind : readers.find? key = some reader) :
    ∃ reader', readers'.find? key = some reader' ∧ readerCore reader' = readerCore reader := by
  have hkey := hreaders key
  rw [hfind, Option.map_some, Option.map_eq_some_iff] at hkey
  exact hkey

theorem core_ext {reader reader' : ReaderRuntime} (h : readerCore reader' = readerCore reader) :
    reader'.ownerTag = reader.ownerTag ∧ reader'.targets = reader.targets ∧
      reader'.onFirstData = reader.onFirstData := by
  simp only [readerCore, ReaderRuntime.mk.injEq] at h
  exact ⟨h.2.2.2.2.1, h.2.2.2.2.2.2.2.1, h.2.2.2.2.2.2.2.2.1⟩

/-- The flags of the readers do not matter. -/
theorem congr (h : Linked readers connects clears)
    (hreaders : ∀ key, (readers'.find? key).map readerCore = (readers.find? key).map readerCore)
    (hconnects : ∀ name tag, connects' name tag ↔ connects name tag)
    (hclears : ∀ name, clears name → clears' name) : Linked readers' connects' clears' where
  configured := by
    intro key reader' hfind' htag
    obtain ⟨reader, hfind, hcore⟩ := exists_core (fun key => (hreaders key).symm) hfind'
    obtain ⟨htag', -, hname⟩ := core_ext hcore
    rw [← hname]
    exact h.configured key reader hfind (htag'.trans htag)
  served := by
    intro key reader' hfind' htag
    obtain ⟨reader, hfind, hcore⟩ := exists_core (fun key => (hreaders key).symm) hfind'
    obtain ⟨htag', htargets, hname⟩ := core_ext hcore
    simp only [← htargets, ← hname, ← htag', hconnects]
    exact h.served key reader hfind (by rwa [htag'])
  single := by
    intro key key' reader₁ reader₂ hfind₁ hfind₂ htag heq
    obtain ⟨reader, hfind, hcore⟩ := exists_core (fun key => (hreaders key).symm) hfind₁
    obtain ⟨reader', hfind', hcore'⟩ := exists_core (fun key => (hreaders key).symm) hfind₂
    rw [← (core_ext hcore).1] at htag heq
    rw [← (core_ext hcore').1] at heq
    exact h.single key key' reader reader' hfind hfind' htag heq
  manned := by
    intro name tag hname
    refine (h.manned name tag ((hconnects name tag).mp hname)).imp ?_ (hclears name)
    rintro ⟨key, reader, hfind, htag⟩
    obtain ⟨reader', hfind', hcore⟩ := exists_core hreaders hfind
    exact ⟨key, reader', hfind', (core_ext hcore).1.trans htag⟩

/-- Nobody is connected under a tag that no reader has. -/
theorem no_reader (h : Linked readers connects clears) {tag : Bytes} (hne : tag ≠ [])
    (hfree : ∀ name, ¬ connects name tag) {key : ReaderKey} {reader : ReaderRuntime}
    (hfind : readers.find? key = some reader) : reader.ownerTag ≠ tag := by
  rintro rfl
  obtain ⟨-, name, -, hname⟩ := h.served key reader hfind hne
  exact hfree name hname

/-- A new reader for a new connection. -/
theorem acquire (h : Linked readers connects clears) {key : ReaderKey} {reader : ReaderRuntime}
    {name : Bytes} (hfresh : readers.find? key = none) (htag : reader.ownerTag ≠ [])
    (htargets : reader.targets ≠ []) (hname : reader.onFirstData = some name)
    (hfree : ∀ other, ¬ connects other reader.ownerTag)
    (hconnects : ∀ other tag, connects' other tag ↔
      connects other tag ∨ other = name ∧ tag = reader.ownerTag) :
    Linked (readers.assign key reader) connects' clears where
  configured := by
    intro key' reader' hfind hblank
    rw [OrderedMap.find?_assign] at hfind
    split at hfind
    · rw [Option.some.injEq] at hfind
      subst hfind
      exact absurd hblank htag
    · exact h.configured key' reader' hfind hblank
  served := by
    intro key' reader' hfind htag'
    rw [OrderedMap.find?_assign] at hfind
    split at hfind
    · rw [Option.some.injEq] at hfind
      subst hfind
      exact ⟨htargets, name, hname, (hconnects _ _).mpr (.inr ⟨rfl, rfl⟩)⟩
    · obtain ⟨htargets', name', hname', hconnected⟩ := h.served key' reader' hfind htag'
      exact ⟨htargets', name', hname', (hconnects _ _).mpr (.inl hconnected)⟩
  single := by
    intro key₁ key₂ reader₁ reader₂ hfind₁ hfind₂ htag' heq
    rw [OrderedMap.find?_assign] at hfind₁ hfind₂
    split at hfind₁ <;> split at hfind₂
    · simp [*]
    · rw [Option.some.injEq] at hfind₁
      subst hfind₁
      exact absurd heq (h.no_reader htag hfree hfind₂)
    · rw [Option.some.injEq] at hfind₂
      subst hfind₂
      exact absurd heq.symm (h.no_reader htag hfree hfind₁)
    · exact h.single key₁ key₂ reader₁ reader₂ hfind₁ hfind₂ htag' heq
  manned := by
    intro other tag hother
    rcases (hconnects other tag).mp hother with hother | ⟨rfl, rfl⟩
    · refine (h.manned other tag hother).imp_left ?_
      rintro ⟨key', reader', hfind, htag'⟩
      have hne : key' ≠ key := by
        rintro rfl
        rw [hfresh] at hfind
        cases hfind
      exact ⟨key', reader', by rw [OrderedMap.find?_assign, if_neg hne, hfind], htag'⟩
    · exact .inl ⟨key, reader, by rw [OrderedMap.find?_assign, if_pos rfl], rfl⟩

/-- The readers under a tag go, and whoever is connected under it is cleared. -/
theorem release (h : Linked readers connects clears) {tag : Bytes}
    (hreaders : ∀ key, readers'.find? key =
      (readers.find? key).filter fun reader => reader.ownerTag ≠ tag)
    (hconnects : ∀ other t, t ≠ tag → (connects' other t ↔ connects other t))
    (hclears : ∀ other, clears other → clears' other)
    (hheld : ∀ other, connects' other tag → clears' other) :
    Linked readers' connects' clears' := by
  have hkept : ∀ key reader, readers'.find? key = some reader ↔
      readers.find? key = some reader ∧ reader.ownerTag ≠ tag := by
    intro key reader
    rw [hreaders, Option.filter_eq_some_iff, decide_eq_true_eq]
  constructor
  · intro key reader hfind htag
    exact h.configured key reader ((hkept key reader).mp hfind).1 htag
  · intro key reader hfind hblank
    obtain ⟨hfind, htag⟩ := (hkept key reader).mp hfind
    simp only [hconnects _ _ htag]
    exact h.served key reader hfind hblank
  · intro key key' reader reader' hfind hfind' htag heq
    exact h.single key key' reader reader' ((hkept _ _).mp hfind).1 ((hkept _ _).mp hfind').1
      htag heq
  · intro other t hother
    by_cases htag : t = tag
    · subst htag
      exact .inr (hheld other hother)
    · refine (h.manned other t ((hconnects other t htag).mp hother)).imp ?_ (hclears other)
      rintro ⟨key, reader, hfind, rfl⟩
      exact ⟨key, reader, (hkept key reader).mpr ⟨hfind, htag⟩, rfl⟩

/-- The connection that is being cleared is gone. -/
theorem clear (h : Linked readers connects clears) {name : Bytes}
    (hnone : ∀ key reader, readers.find? key = some reader → ¬ connects name reader.ownerTag)
    (hclears : ∀ other, clears other → other = name)
    (hconnects : ∀ other tag, connects' other tag ↔ connects other tag ∧ other ≠ name) :
    Linked readers connects' clears' where
  configured := h.configured
  served := by
    intro key reader hfind htag
    obtain ⟨htargets, other, hother, hconnected⟩ := h.served key reader hfind htag
    refine ⟨htargets, other, hother, (hconnects _ _).mpr ⟨hconnected, ?_⟩⟩
    rintro rfl
    exact hnone key reader hfind hconnected
  single := h.single
  manned := by
    intro other tag hother
    obtain ⟨hother, hne⟩ := (hconnects other tag).mp hother
    exact .inl ((h.manned other tag hother).resolve_right fun hclear => hne (hclears other hclear))

end Linked

end Links

section Invariant

/-- The establishment whose data plane is up and whose endpoint is not in the table. -/
def ServicePoint.pending : ServicePoint → Option Establishment
  | .viewing _ establishment => some establishment
  | .abandoning establishment _ => some establishment
  | .storing establishment _ => some establishment
  | _ => none

/-- The establishment whose data plane came up under the lock that is still held. -/
def ServicePoint.fresh : ServicePoint → Option Establishment
  | .viewing _ establishment => some establishment
  | .abandoning establishment _ => some establishment
  | .storing establishment _ => some establishment
  | .reconciling establishment => some establishment
  | .showing establishment _ => some establishment
  | _ => none

/-- The reader of the connection is removed, its endpoint is not yet cleared. -/
def ServicePoint.Clears : ServicePoint → Bytes → Prop
  | .clearing name' _ _, name => name = name'
  | _, _ => False

/-- The callback that is being made. -/
def IoPoint.callback : IoPoint → Option (PubSub.ReaderKey × Bytes)
  | .calling key connectionName _ _ => some (key, connectionName)
  | .marking key connectionName _ _ => some (key, connectionName)
  | .marked key connectionName _ _ => some (key, connectionName)
  | _ => none

def IoPoint.UnderLock : IoPoint → Prop
  | .marking _ _ _ _ => True
  | _ => False

/-- The callback of the reader is about to return true. -/
def IoPoint.HasMarked (key : PubSub.ReaderKey) : IoPoint → Prop
  | .marked key' _ _ _ => key = key'
  | _ => False

/-- The lock is held by a thread exactly when that is at a point under the lock. -/
def Locked (lock : Option Holder) (service : ServicePoint) (io : IoPoint) : Prop :=
  match lock with
  | none => service = .idle ∧ ¬ io.UnderLock
  | some .service => service ≠ .idle ∧ ¬ io.UnderLock
  | some .io => service = .idle ∧ io.UnderLock

/-- An established subscriber connection. -/
def Subscribes (fx : Engine) (name tag : Bytes) : Prop :=
  ∃ endpoint, fx.endpoints.find? name = some endpoint ∧ endpoint.active = true ∧
    endpoint.role = .subscriber ∧ endpoint.ownerTag = tag

/-- A subscriber connection whose data plane is up, also while its endpoint is
not stored yet. -/
def Connects (fx : Engine) (service : ServicePoint) (name tag : Bytes) : Prop :=
  Subscribes fx name tag ∨ ∃ establishment, service.pending = some establishment ∧
    establishment.endpoint.role = .subscriber ∧ establishment.name = name ∧
    establishment.endpoint.ownerTag = tag

/-- A reader under the tag has accepted data. -/
def Seen (pubSub : PubSub.Engine) (tag : Bytes) : Prop :=
  ∃ key reader, pubSub.readers.find? key = some reader ∧ reader.ownerTag = tag ∧
    reader.dataSeen = true

/-- A prepared establishment: its data plane goes with the role of its endpoint. -/
structure Suits (establishment : Establishment) : Prop where
  subscriber : ∀ reader, establishment.dataPlane = .subscriber reader →
    establishment.endpoint.role = .subscriber ∧ reader.onFirstData = some establishment.name
  publisher : ∀ dataset group, establishment.dataPlane = .publisher dataset group →
    establishment.endpoint.role = .publisher
  tagged : establishment.endpoint.ownerTag ≠ []
  initial : ∀ status, establishment.endpoint.statusVariable = some status → status = .initial

def Inactive (fx : Engine) (name : Bytes) : Prop :=
  ∀ endpoint, fx.endpoints.find? name = some endpoint → endpoint.active = false

/-- Nobody holds the tag of an establishment, and its name is not in use. -/
structure Unclaimed (fx : Engine) (establishment : Establishment) : Prop where
  inactive : Inactive fx establishment.name
  free : ∀ other, ¬ Holds fx other establishment.endpoint.ownerTag

/-- The endpoint of an establishment is in the table. -/
def Stored (fx : Engine) (establishment : Establishment) : Prop :=
  ∃ endpoint, fx.endpoints.find? establishment.name = some endpoint ∧ endpoint.active = true ∧
    endpoint.role = establishment.endpoint.role ∧
    endpoint.ownerTag = establishment.endpoint.ownerTag ∧
    endpoint.statusVariable = some .initial

/-- What is known at each point of the service thread. -/
def Known (fx : Engine) (pubSub : PubSub.Engine) : ServicePoint → Prop
  | .activating _ establishment => Suits establishment ∧ Inactive fx establishment.name
  | .viewing _ establishment => Suits establishment ∧ Unclaimed fx establishment
  | .abandoning establishment _ => Suits establishment ∧ Unclaimed fx establishment
  | .storing establishment endpoint => Suits establishment ∧ Unclaimed fx establishment ∧
      endpoint.role = establishment.endpoint.role ∧
      endpoint.ownerTag = establishment.endpoint.ownerTag ∧
      endpoint.statusVariable = some .initial
  | .reconciling establishment => Suits establishment ∧ Stored fx establishment
  | .showing establishment status => Suits establishment ∧ Stored fx establishment ∧
      (establishment.endpoint.role = .subscriber → status = .operational →
        Seen pubSub establishment.endpoint.ownerTag)
  | .removing name endpoint =>
      fx.endpoints.find? name = some endpoint ∧ endpoint.active = true
  | .clearing name endpoint gone =>
      fx.endpoints.find? name = some endpoint ∧ endpoint.active = true ∧
      (∀ key reader, pubSub.readers.find? key = some reader →
        reader.ownerTag ≠ endpoint.ownerTag) ∧
      (endpoint.role = .subscriber → endpoint.statusVariable = some .operational →
        ∃ entry ∈ gone, entry.2.ownerTag = endpoint.ownerTag ∧ entry.2.dataSeen = true)
  | _ => True

/-- What holds of every endpoint in the table. -/
structure Kept (endpoint : Endpoint) : Prop where
  shown : endpoint.statusVariable ≠ none
  initial : endpoint.active = false → endpoint.statusVariable = some .initial
  tagged : endpoint.ownerTag ≠ []

/-- What holds of the two threads, whatever they have done. -/
structure Synchronous (s : Threads) : Prop where
  running : s.server.pubSub.running = true
  locked : Locked s.lock s.service s.io
  kept : ∀ name endpoint, s.server.fx.endpoints.find? name = some endpoint → Kept endpoint
  distinct : ∀ name name' tag, Holds s.server.fx name tag → Holds s.server.fx name' tag →
    name = name'
  linked : Linked s.server.pubSub.readers (Connects s.server.fx s.service) s.service.Clears
  unsignalled : ∀ establishment, s.service.fresh = some establishment → ∀ key reader,
    s.server.pubSub.readers.find? key = some reader →
    reader.ownerTag = establishment.endpoint.ownerTag →
    reader.firstDataSignalled = false ∧ ¬ s.io.HasMarked key
  signalled : ∀ key reader name endpoint, s.server.pubSub.readers.find? key = some reader →
    reader.onFirstData = some name → s.server.fx.endpoints.find? name = some endpoint →
    endpoint.ownerTag = reader.ownerTag →
    (reader.firstDataSignalled = true ∨ s.io.HasMarked key) →
    endpoint.statusVariable = some .operational
  operational : ∀ name endpoint, s.server.fx.endpoints.find? name = some endpoint →
    endpoint.role = .subscriber → endpoint.statusVariable = some .operational →
    Seen s.server.pubSub endpoint.ownerTag ∨ s.service.Clears name
  callback : ∀ key name, s.io.callback = some (key, name) → ∃ reader,
    s.server.pubSub.readers.find? key = some reader ∧ reader.onFirstData = some name ∧
    reader.dataSeen = true
  known : Known s.server.fx s.server.pubSub s.service

/-- An establish that brings its data plane up has a tag that no other active
connection has. -/
def TagsDistinct (s : Threads) : Action → Prop
  | .service => ∀ environment establishment,
      s.service = .activating environment establishment →
      ∀ other endpoint, s.server.fx.endpoints.find? other = some endpoint →
        endpoint.active = true → other ≠ establishment.name →
        endpoint.ownerTag ≠ establishment.endpoint.ownerTag
  | _ => True

end Invariant

end Fx

end Supernova
