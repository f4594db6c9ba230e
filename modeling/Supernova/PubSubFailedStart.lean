/-
What a start that throws leaves behind.  Groups, readers and receivers enter the
engine one by one and nothing takes them out again, so the engine is clean
afterwards only when the very first of them was refused.
-/
import Supernova.PubSubReceivers

namespace Supernova

attribute [local semireducible] ByteArray.toList.loop

namespace PubSub

/-- No writer groups, no readers and no receivers. -/
structure Cleared (e : Engine) : Prop where
  writerGroups : e.writerGroups = []
  readers : e.readers = .empty
  receivers : e.receivers = .empty

/-- What a call answers: the exception that it throws, or what it makes the readers do. -/
def answer (e : Engine) : Event → Except Bytes (List (ReaderKey × Reaction))
  | .start surroundings configuration =>
      match startStaged surroundings configuration e with
      | .ok _ _ => .ok []
      | .error error _ => .error error
  | .addWriterGroup socket ownerTag publisherIdType publisherId group =>
      (addDynamicWriterGroup e socket ownerTag publisherIdType publisherId group).map fun _ => []
  | .addReader socket ownerTag reader =>
      (addDynamicReader e socket ownerTag reader).map fun _ => []
  | .receive endpoint signalled data => .ok (PubSub.receive e endpoint signalled data).2
  | _ => .ok []

/-- The answers to a sequence of calls, and the states that they lead to. -/
def responses (e : Engine) :
    List Event → List (Except Bytes (List (ReaderKey × Reaction)) × Engine)
  | [] => []
  | event :: events => (answer e event, handle e event) :: responses (handle e event) events

/-- The engine is cleared, and after `ensureStarted` it responds to every sequence of
calls as a freshly constructed engine does. -/
structure LeavesClean (e : Engine) : Prop where
  cleared : Cleared e
  fresh : ∀ events, responses (ensureStarted e) events =
    responses (ensureStarted initial) events

/-- What a start builds, one after the other. -/
inductive Item where
  | group (connection : ConnectionConfig) (group : WriterGroupConfig)
  | reader (connection : ConnectionConfig) (reader : DataSetReaderConfig)

def ConnectionConfig.items (connection : ConnectionConfig) : List Item :=
  connection.writerGroups.map (.group connection) ++ connection.readers.map (.reader connection)

/-- The writer groups and the readers in the order in which they are built. -/
def Configuration.items (configuration : Configuration) : List Item :=
  configuration.connections.flatMap ConnectionConfig.items

section

variable (surroundings : Surroundings) (configuration : Configuration)

/-- An item that is refused before anything of it enters the engine: a group whose
transmitter cannot be opened or whose fields do not all resolve, a reader whose targets
do not all resolve. -/
def ItemRefused : Item → Prop
  | .group connection group =>
      ∃ error, groupRuntime surroundings configuration connection group = .error error
  | .reader _ reader =>
      ∃ error, reader.targets.mapM (resolveVariable surroundings) = .error error

/-- The first item of the configuration is refused. -/
def RefusedFirst : Prop :=
  ∃ item rest, configuration.items = item :: rest ∧ ItemRefused surroundings configuration item

def buildItem : Item → Start Unit
  | .group connection group => buildWriterGroup surroundings configuration connection group
  | .reader connection reader => buildReader surroundings connection reader

theorem start_forM_append {α : Type} (as bs : List α) (f : α → Start PUnit) :
    (as ++ bs).forM f = as.forM f >>= fun _ => bs.forM f :=
  List.forM_append

theorem start_forM_map {α β : Type} (as : List α) (g : α → β) (f : β → Start PUnit) :
    (as.map g).forM f = as.forM fun a => f (g a) :=
  List.forM_map

theorem buildConnection_eq (connection : ConnectionConfig) :
    buildConnection surroundings configuration connection =
      connection.items.forM (buildItem surroundings configuration) := by
  rw [ConnectionConfig.items, start_forM_append, start_forM_map, start_forM_map]
  rfl

theorem buildRuntimes_eq : buildRuntimes surroundings configuration =
    configuration.items.forM (buildItem surroundings configuration) := by
  rw [buildRuntimes, Configuration.items]
  induction configuration.connections with
  | nil => rfl
  | cons connection connections ih =>
      rw [List.flatMap_cons, start_forM_append, ← ih, ← buildConnection_eq]
      rfl

end

section Building

variable {surroundings : Surroundings} {configuration : Configuration} {e e' : Engine}

theorem not_cleared_of_reader {key : ReaderKey} {reader : ReaderRuntime}
    (h : e.readers = e'.readers.assign key reader) : ¬ Cleared e := by
  intro hcleared
  have hfind : e.readers.find? key = some reader := by
    rw [h, OrderedMap.find?_assign, if_pos rfl]
  rw [hcleared.readers] at hfind
  cases hfind

theorem after_bind_of_ok {α β : Type} {p : Start α} {f : α → Start β} {a : α}
    (h : p e = .ok a e') : after ((p >>= f) e) = after (f a e') := by
  change after (EStateM.bind p f e) = _
  rw [EStateM.bind, h]

/-- Building an item refuses it and changes nothing, or leaves something in the engine. -/
theorem after_buildItem (item : Item) (e : Engine) :
    (after (buildItem surroundings configuration item e) = e ∧
      (ItemRefused surroundings configuration item ∨ ¬ Cleared e) ∧
      ∃ error, buildItem surroundings configuration item e = .error error e) ∨
    (¬ ItemRefused surroundings configuration item ∧
      ¬ Cleared (after (buildItem surroundings configuration item e))) := by
  cases item with
  | group connection group =>
      cases hgroup : groupRuntime surroundings configuration connection group with
      | error error =>
          have hrun : buildWriterGroup surroundings configuration connection group e =
              .error error e := by
            refine estate_bind_eq_error.2 (.inl ?_)
            rw [hgroup]
            rfl
          refine .inl ⟨by rw [buildItem, hrun]; rfl, .inl ⟨error, hgroup⟩, error, hrun⟩
      | ok runtime =>
          have hrun : buildWriterGroup surroundings configuration connection group e =
              .ok () { e with writerGroups := e.writerGroups ++ [runtime] } := by
            refine estate_bind_eq_ok.2 ⟨runtime, e, lifted_eq_ok.2 ⟨hgroup, rfl⟩, ?_⟩
            exact estate_modify_eq_ok.2 rfl
          refine .inr ⟨?_, ?_⟩
          · rintro ⟨error, herror⟩
            rw [hgroup] at herror
            cases herror
          · rw [buildItem, hrun]
            intro hcleared
            exact List.append_ne_nil_of_right_ne_nil _ (List.cons_ne_nil _ _)
              hcleared.writerGroups
  | reader connection reader =>
      cases htargets : reader.targets.mapM (resolveVariable surroundings) with
      | error error =>
          have hrun : buildReader surroundings connection reader e = .error error e := by
            refine estate_bind_eq_error.2 (.inl ?_)
            rw [htargets]
            rfl
          refine .inl ⟨by rw [buildItem, hrun]; rfl, .inl ⟨error, htargets⟩, error, hrun⟩
      | ok targets =>
          have hresolved : ¬ ItemRefused surroundings configuration (.reader connection reader) := by
            rintro ⟨error, herror⟩
            rw [htargets] at herror
            cases herror
          have hlifted : (lifted (reader.targets.mapM (resolveVariable surroundings)) : Start _) e =
              .ok targets e := lifted_eq_ok.2 ⟨htargets, rfl⟩
          by_cases hcontains : e.readers.contains
              ⟨reader.publisherId, reader.writerGroupId, reader.dataSetWriterId⟩ = true
          · have hrun : buildReader surroundings connection reader e = .error
                (text "PubSub: duplicate DataSetReader (publisherId/writerGroupId/dataSetWriterId)")
                e := by
              refine estate_bind_eq_error.2 (.inr ⟨targets, e, hlifted, ?_⟩)
              refine estate_bind_eq_error.2 (.inr ⟨e, e, rfl, ?_⟩)
              rw [if_pos hcontains]
              rfl
            refine .inl ⟨by rw [buildItem, hrun]; rfl, .inr ?_, _, hrun⟩
            intro hcleared
            rw [hcleared.readers] at hcontains
            cases hcontains
          · -- the reader is in the table before its receiver is opened
            refine .inr ⟨hresolved, ?_⟩
            rw [buildItem, buildReader, after_bind_of_ok hlifted,
              after_bind_of_ok (estate_get_eq_ok.2 ⟨rfl, rfl⟩), if_neg hcontains,
              after_bind_of_ok (a := PUnit.unit) (estate_set_eq_ok.2 rfl)]
            cases acquireReceiver e.receivers
                (surroundings.receiver ⟨connection.host, connection.port⟩)
                ⟨connection.host, connection.port⟩ with
            | error error => exact not_cleared_of_reader rfl
            | ok receivers => exact not_cleared_of_reader rfl

theorem preserves_notCleared (item : Item) :
    Preserves (fun e => ¬ Cleared e) (buildItem surroundings configuration item) := by
  intro e he
  rcases after_buildItem item e with ⟨hsame, -⟩ | ⟨-, hleft⟩
  · rw [hsame]
    exact he
  · exact hleft

/-- A build from a cleared engine leaves it cleared when nothing is configured or the
first item is refused, and only then. -/
theorem cleared_after_items_iff (items : List Item) (e : Engine) :
    Cleared (after (items.forM (buildItem surroundings configuration) e)) ↔
      Cleared e ∧ (items = [] ∨ ∃ item rest, items = item :: rest ∧
        ItemRefused surroundings configuration item) := by
  cases items with
  | nil =>
      change Cleared e ↔ _
      simp
  | cons item rest =>
      have hrest : Preserves (fun e => ¬ Cleared e)
          (rest.forM (buildItem surroundings configuration)) :=
        Preserves.forM fun item _ => preserves_notCleared item
      have hstep : ∀ a e₁, buildItem surroundings configuration item e = .ok a e₁ →
          after ((item :: rest).forM (buildItem surroundings configuration) e) =
            after (rest.forM (buildItem surroundings configuration) e₁) := by
        intro a e₁ hrun
        change after (EStateM.bind _ _ e) = _
        rw [EStateM.bind, hrun]
      have hstop : ∀ error e₁, buildItem surroundings configuration item e = .error error e₁ →
          after ((item :: rest).forM (buildItem surroundings configuration) e) = e₁ := by
        intro error e₁ hrun
        change after (EStateM.bind _ _ e) = _
        rw [EStateM.bind, hrun]
        rfl
      rcases after_buildItem item e with ⟨-, hrefused, error, hrun⟩ | ⟨hbuilt, hleft⟩
      · rw [hstop error e hrun]
        constructor
        · intro hcleared
          exact ⟨hcleared, .inr ⟨item, rest, rfl, hrefused.resolve_right (not_not.mpr hcleared)⟩⟩
        · exact fun h => h.1
      · refine iff_of_false ?_ ?_
        · cases hrun : buildItem surroundings configuration item e with
          | ok a e₁ =>
              rw [hstep a e₁ hrun]
              rw [hrun] at hleft
              exact hrest e₁ hleft
          | error error e₁ =>
              rw [hstop error e₁ hrun]
              rw [hrun] at hleft
              exact hleft
        · rintro ⟨-, hnil | ⟨item', rest', hitems, hrefused⟩⟩
          · cases hnil
          · cases hitems
            exact hbuilt hrefused

end Building

theorem leavesClean_iff_cleared (e : Engine) : LeavesClean e ↔ Cleared e := by
  constructor
  · exact fun h => h.cleared
  · intro h
    refine ⟨h, fun events => ?_⟩
    have hsame : ensureStarted e = ensureStarted initial := by
      rw [ensureStarted, h.writerGroups, h.readers, h.receivers]
      rfl
    rw [hsame]

/-- A start that throws leaves a clean engine exactly when there was one before and the
start was refused at once: because the engine is running, or at the first item of the
configuration. -/
theorem failedStart_leavesClean_iff {surroundings : Surroundings} {configuration : Configuration}
    {e e' : Engine} {error : Bytes}
    (h : startStaged surroundings configuration e = .error error e') :
    LeavesClean e' ↔
      Cleared e ∧ (e.running = true ∨ RefusedFirst surroundings configuration) := by
  rw [leavesClean_iff_cleared]
  rcases estate_bind_eq_error.1 h with hget | ⟨e₁, e₂, hget, hchecked⟩
  · exact absurd hget (by simp)
  · obtain ⟨rfl, rfl⟩ := estate_get_eq_ok.1 hget
    by_cases hrunning : e.running = true
    · rw [if_pos hrunning] at hchecked
      obtain ⟨-, rfl⟩ := estate_throw_eq_error.1 hchecked
      exact ⟨fun hcleared => ⟨hcleared, .inl hrunning⟩, fun h => h.1⟩
    · rw [if_neg hrunning] at hchecked
      rcases estate_bind_eq_error.1 hchecked with hbuild | ⟨u, e₁, -, hmodify⟩
      · have hafter : _ ↔ Cleared e ∧ (_ ∨ ∃ item rest, _ ∧
            ItemRefused surroundings configuration item) :=
          cleared_after_items_iff configuration.items e
        rw [← buildRuntimes_eq, hbuild] at hafter
        have hitems : configuration.items ≠ [] := by
          intro hnil
          rw [buildRuntimes_eq, hnil] at hbuild
          cases hbuild
        rw [show after (.error error e' : EStateM.Result Bytes Engine Unit) = e' from rfl]
          at hafter
        rw [hafter, RefusedFirst]
        exact and_congr_right fun _ => or_congr (iff_of_false hitems hrunning) Iff.rfl
      · exact absurd hmodify (by simp)

/-- Without any node in the address space the first group is refused, and nothing is left. -/
theorem failedStart_leavesClean_iff_firstGroup :
    ∃ error e', startStaged ⟨fun _ => none, fun _ => none, fun _ => none⟩
        (byteConfiguration 42) initial = .error error e' ∧ LeavesClean e' := by
  have hrun : ∃ error e', startStaged ⟨fun _ => none, fun _ => none, fun _ => none⟩
      (byteConfiguration 42) initial = .error error e' := ⟨_, _, rfl⟩
  obtain ⟨error, e', hrun⟩ := hrun
  refine ⟨error, e', hrun, (failedStart_leavesClean_iff hrun).mpr ⟨⟨rfl, rfl, rfl⟩, .inr ?_⟩⟩
  exact ⟨_, [], rfl, _, rfl⟩

section Counterexample

/-- A section whose first group is fine and whose second names a missing variable. -/
def missingVariableSection : Xsd.PubSubSection :=
  { publisherId := 7
    connection := [
      { address := text "opc.udp://239.0.0.5:4840"
        writerGroup := [
          { id := 1
            publishingIntervalMs := ⟨0x4059000000000000⟩
            dataSetWriter := [
              { id := 1
                field := [⟨some (text "b.x"), none⟩]
                fields_ne_nil := List.cons_ne_nil _ _ }]
            dataSetWriters_ne_nil := List.cons_ne_nil _ _ },
          { id := 2
            publishingIntervalMs := ⟨0x4059000000000000⟩
            dataSetWriter := [
              { id := 2
                field := [⟨some (text "b.y"), none⟩]
                fields_ne_nil := List.cons_ne_nil _ _ }]
            dataSetWriters_ne_nil := List.cons_ne_nil _ _ }]
        dataSetReader := [] }] }

def missingVariableConfiguration : Configuration :=
  ⟨.uInt16, 7, [⟨text "239.0.0.5", 4840, 1, true,
    [⟨1, ⟨0x4059000000000000⟩, [⟨1, [text "b.x"]⟩]⟩,
      ⟨2, ⟨0x4059000000000000⟩, [⟨2, [text "b.y"]⟩]⟩], []⟩]⟩

/-- Only `s.x` is a cache variable; every socket opens. -/
def oneVariable : Surroundings :=
  ⟨fun address => if address = text "b.x" then some (some 0) else none, fun _ => none,
    fun _ => none⟩

/-- A dynamic group with the coordinates of the first configured group. -/
def sameCoordinates : Event :=
  .addWriterGroup none [1] .uInt16 7
    { id := 1
      dataSetWriterId := 1
      publishingIntervalMs := ⟨0x4059000000000000⟩
      fields := [0]
      host := text "239.0.0.5"
      port := 4840 }

/-- The start throws and leaves the first group in the engine, so a later addition with
the same coordinates is refused that a fresh engine accepts. -/
theorem missingVariable_not_clean :
    configurationFromXsd missingVariableSection = .ok missingVariableConfiguration ∧
      ∃ error e', startStaged oneVariable missingVariableConfiguration initial =
          .error error e' ∧ e'.writerGroups.length = 1 ∧
        answer (ensureStarted e') sameCoordinates = .error (text
          "PubSub: writer group 1 of publisher 7 is already active") ∧
        answer (ensureStarted initial) sameCoordinates = .ok [] ∧ ¬ LeavesClean e' := by
  refine ⟨by decide, ?_⟩
  have hthrows : EStateM.run' (startStaged oneVariable missingVariableConfiguration) initial =
      none := by decide +kernel
  rw [EStateM.run', EStateM.run] at hthrows
  cases hrun : startStaged oneVariable missingVariableConfiguration initial with
  | ok u e' =>
      rw [hrun] at hthrows
      cases hthrows
  | error error e' =>
      obtain rfl : after (startStaged oneVariable missingVariableConfiguration initial) = e' := by
        rw [hrun]
        rfl
      have hlength : (after (startStaged oneVariable missingVariableConfiguration
          initial)).writerGroups.length = 1 := by decide +kernel
      refine ⟨error, _, rfl, hlength, by decide +kernel, by decide +kernel, fun hclean => ?_⟩
      rw [hclean.cleared.writerGroups] at hlength
      cases hlength

end Counterexample

end PubSub

end Supernova
