/-
When a reader counts as having seen data.  The engine marks a reader, and calls
its first-data callback, for every message that has a field for one of its
targets, whether or not a value came out of it and was stored.
-/
import Supernova.PubSubReceivers

namespace Supernova

namespace PubSub

/-- A field for which there is a target has been converted, and storing it returned Good;
`good` tells it of the field at each position. -/
def stores (good : Nat → Bool) (fields : List WireValue) (targets : List Nat) : Bool :=
  (fields.zip targets).zipIdx.any fun entry =>
    (wireToUaVariant entry.1.1).isSome && good entry.2

/-- What happens at the engine: a call other than the arrival of a datagram, or one turn
of the message loop for a message that is no keep-alive, with what the callback returns
and which fields are stored with Good status. -/
inductive Happening where
  | call (event : Event)
  | turn (signalled : Bool) (good : Nat → Bool) (key : ReaderKey) (fields : List WireValue)

/-- The engine, for which keys a field has been stored since the reader came, and what
the last turn made happen. -/
structure Watched where
  engine : Engine
  delivered : ReaderKey → Bool
  latest : List (ReaderKey × Reaction)

/-- One turn of the message loop. -/
def applyTurn (w : Watched) (signalled : Bool) (good : Nat → Bool) (key : ReaderKey)
    (fields : List WireValue) : Watched :=
  match w.engine.readers.find? key with
  | none => { w with latest := [] }
  | some reader =>
      { engine := { w.engine with
          readers := w.engine.readers.assign key (applyMessage signalled fields reader).1 }
        delivered := fun other => w.delivered other ||
          (decide (other = key) && stores good fields reader.targets)
        latest := (applyMessage signalled fields reader).2.map fun reaction => (key, reaction) }

/-- A key that has no reader has had nothing delivered when a reader comes to it. -/
def watch (w : Watched) : Happening → Option Watched
  | .call (.receive _ _ _) => none
  | .call event =>
      (advance w.engine event).map fun e =>
        { engine := e
          delivered := fun key => w.delivered key && w.engine.readers.contains key
          latest := [] }
  | .turn signalled good key fields => some (applyTurn w signalled good key fields)

def Watched.initial : Watched := ⟨PubSub.initial, fun _ => false, []⟩

/-- The turns that a datagram with this message stands for. -/
def turns (signalled : Nat → Bool) (good : Nat → Nat → Bool) (message : NetworkMessage) :
    Nat → List DataSetMessage → List Happening
  | _, [] => []
  | m, dsm :: messages =>
      if dsm.keepAlive then turns signalled good message (m + 1) messages
      else .turn (signalled m) (good m) (messageKey message dsm) dsm.fields ::
        turns signalled good message (m + 1) messages

/-- A reader is marked, or its first-data callback called, only when a field has been
stored for it. -/
structure SignalsDelivered (w : Watched) : Prop where
  marked : ∀ key reader, w.engine.readers.find? key = some reader → reader.dataSeen = true →
    w.delivered key = true
  called : ∀ key name, (key, Reaction.firstData name) ∈ w.latest → w.delivered key = true

/-- A message that has fields for the targets of a reader that is not marked yet stores
one of them. -/
def FirstStores (w : Watched) : Happening → Prop
  | .call _ => True
  | .turn _ good key fields => ∀ reader, w.engine.readers.find? key = some reader →
      reader.dataSeen = false → min fields.length reader.targets.length ≠ 0 →
      stores good fields reader.targets = true

section Turns

/-- The message loop of a datagram is the sequence of its turns. -/
theorem watch_turns (signalled : Nat → Bool) (good : Nat → Nat → Bool) (message : NetworkMessage)
    (m : Nat) (messages : List DataSetMessage) (w : Watched) :
    ∃ w', run watch w (turns signalled good message m messages) = some w' ∧
      w'.engine = { w.engine with
        readers := (handleMessages signalled message m messages w.engine.readers).1 } := by
  induction messages generalizing m w with
  | nil => exact ⟨w, rfl, rfl⟩
  | cons dsm messages ih =>
      rw [turns]
      cases hkeepAlive : dsm.keepAlive with
      | true =>
          rw [handleMessages, hkeepAlive, if_pos rfl, if_pos rfl]
          exact ih (m + 1) w
      | false =>
          rw [if_neg Bool.false_ne_true]
          obtain ⟨w', hrun, hengine⟩ := ih (m + 1)
            (applyTurn w (signalled m) (good m) (messageKey message dsm) dsm.fields)
          refine ⟨w', run_cons_eq_some.2 ⟨_, rfl, hrun⟩, hengine.trans ?_⟩
          rw [handleMessages, hkeepAlive, if_neg Bool.false_ne_true, applyTurn]
          cases w.engine.readers.find? (messageKey message dsm) <;> rfl

/-- The arrival of a datagram is the sequence of its turns. -/
theorem watch_datagram (w : Watched) (signalled : Nat → Bool) (good : Nat → Nat → Bool)
    {data : Bytes} {message : NetworkMessage} {c : Cursor UInt8 Built}
    (hdecode : decodeDatagram data = .ok message c) :
    ∃ w', run watch w (turns signalled good message 0 message.messages) = some w' ∧
      w'.engine = (handleDatagram w.engine signalled data).1 := by
  rw [handleDatagram, hdecode]
  exact watch_turns signalled good message 0 message.messages w

end Turns

section Steps

variable {e e' : Engine}

theorem min_ne_zero_of_stores {good : Nat → Bool} {fields : List WireValue} {targets : List Nat}
    (h : stores good fields targets = true) : min fields.length targets.length ≠ 0 := by
  intro hzero
  have hnil : fields.zip targets = [] := List.length_eq_zero_iff.mp (by
    rw [List.length_zip, hzero])
  simp [stores, hnil] at h

theorem dataSeen_applyMessage (signalled : Bool) (fields : List WireValue)
    (reader : ReaderRuntime) : (applyMessage signalled fields reader).1.dataSeen = true ↔
      reader.dataSeen = true ∨ min fields.length reader.targets.length ≠ 0 := by
  unfold applyMessage
  split
  · rename_i hzero
    simp [hzero]
  · rename_i hcount
    split
    · simp [hcount]
    · split <;> simp [hcount]

theorem min_ne_zero_of_firstData {signalled : Bool} {fields : List WireValue}
    {reader : ReaderRuntime} {name : Bytes}
    (h : Reaction.firstData name ∈ (applyMessage signalled fields reader).2) :
    min fields.length reader.targets.length ≠ 0 := by
  intro hzero
  rw [applyMessage, if_pos hzero] at h
  cases h

/-- A reader that is there after a step of the start was there before, or is new. -/
def KeepsReaders (e e' : Engine) : Prop :=
  ∀ key reader, e'.readers.find? key = some reader →
    e.readers.find? key = some reader ∨
      e.readers.find? key = none ∧ reader.dataSeen = false

theorem KeepsReaders.of_eq (h : e'.readers = e.readers) : KeepsReaders e e' := by
  intro key reader hfind
  rw [h] at hfind
  exact .inl hfind

theorem KeepsReaders.assign {e₀ : Engine} {key : ReaderKey} {reader : ReaderRuntime}
    (h : KeepsReaders e₀ e) (hfresh : e₀.readers.find? key = none)
    (hunseen : reader.dataSeen = false) (hreaders : e'.readers = e.readers.assign key reader) :
    KeepsReaders e₀ e' := by
  intro other found hfind
  rw [hreaders] at hfind
  rcases OrderedMap.find?_assign_eq_some.1 hfind with ⟨rfl, rfl⟩ | ⟨-, hfind⟩
  · exact .inr ⟨hfresh, hunseen⟩
  · exact h other found hfind

theorem readers_buildConnection {surroundings : Surroundings} {configuration : Configuration}
    {connection : ConnectionConfig} {u : Unit} {e₀ : Engine}
    (h : KeepsReaders e₀ e ∧ ∀ key, e.readers.find? key = none → e₀.readers.find? key = none)
    (hbuild : buildConnection surroundings configuration connection e = .ok u e') :
    KeepsReaders e₀ e' ∧ ∀ key, e'.readers.find? key = none → e₀.readers.find? key = none := by
  obtain ⟨u₁, e₁, hgroups, hreaders⟩ := estate_bind_eq_ok.1 hbuild
  have hkept : e₁.readers = e.readers := by
    refine forM_keeps (I := fun e₁ => e₁.readers = e.readers) ?_ rfl hgroups
    intro group _ e₂ u e₃ hsame hgroup
    obtain ⟨runtime, -, rfl⟩ := eq_of_buildWriterGroup hgroup
    exact hsame
  refine forM_keeps (I := fun e => KeepsReaders e₀ e ∧
    ∀ key, e.readers.find? key = none → e₀.readers.find? key = none) ?_ ?_ hreaders
  · rintro config - e₂ u e₃ ⟨hkeeps, hgrows⟩ hreader
    obtain ⟨key, reader, receivers, hfresh, hunseen, -, rfl⟩ := eq_of_buildReader hreader
    refine ⟨hkeeps.assign (hgrows key hfresh) hunseen rfl, fun other hnone => ?_⟩
    rw [OrderedMap.find?_assign] at hnone
    split at hnone
    · cases hnone
    · exact hgrows other hnone
  · refine ⟨fun key reader hfind => h.1 key reader (hkept ▸ hfind), fun key hnone => ?_⟩
    exact h.2 key (hkept ▸ hnone)

theorem keepsReaders_startStaged {surroundings : Surroundings} {configuration : Configuration}
    {u : Unit} (h : startStaged surroundings configuration e = .ok u e') : KeepsReaders e e' := by
  obtain ⟨-, u₁, e₁, hbuild, rfl⟩ := eq_of_startStaged h
  have hbuilt : KeepsReaders e e₁ ∧
      ∀ key, e₁.readers.find? key = none → e.readers.find? key = none :=
    forM_keeps (I := fun e₁ => KeepsReaders e e₁ ∧
        ∀ key, e₁.readers.find? key = none → e.readers.find? key = none)
      (fun _ _ _ _ _ h hbuild => readers_buildConnection h hbuild)
      ⟨.of_eq rfl, fun _ hnone => hnone⟩ hbuild
  exact hbuilt.1

/-- What a call other than the arrival of a datagram does to the readers. -/
theorem keepsReaders_advance {event : Event}
    (hevent : ∀ endpoint signalled data, event ≠ .receive endpoint signalled data)
    (hstep : advance e event = some e') : KeepsReaders e e' := by
  cases event with
  | start surroundings configuration =>
      obtain ⟨u, hstart⟩ := advance_start_eq_some.1 hstep
      exact keepsReaders_startStaged hstart
  | ensureStarted => exact Option.some.inj hstep ▸ .of_eq rfl
  | addWriterGroup socket ownerTag publisherIdType publisherId group =>
      obtain rfl := Option.some.inj hstep
      refine keeps_unlessRefused (I := KeepsReaders e) (.of_eq rfl) fun e₁ hadd => ?_
      obtain ⟨-, rfl⟩ := addDynamicWriterGroup_eq_ok.1 hadd
      exact .of_eq rfl
  | addReader socket ownerTag reader =>
      obtain rfl := Option.some.inj hstep
      refine keeps_unlessRefused (I := KeepsReaders e) (.of_eq rfl) fun e₁ hadd => ?_
      obtain ⟨⟨-, -, hfresh⟩, receivers, -, rfl⟩ := addDynamicReader_eq_ok.1 hadd
      exact KeepsReaders.assign (.of_eq rfl) hfresh rfl rfl
  | remove ownerTag =>
      obtain rfl := Option.some.inj hstep
      change KeepsReaders e (removeDynamic e ownerTag)
      cases hrunning : e.running with
      | false =>
          rw [removeDynamic_of_not_running hrunning]
          exact .of_eq rfl
      | true =>
          intro key reader hfind
          rw [find?_removeDynamic hrunning, Option.filter_eq_some_iff] at hfind
          exact .inl hfind.1
  | timer group sample => exact Option.some.inj hstep ▸ .of_eq rfl
  | receive endpoint signalled data => exact absurd rfl (hevent endpoint signalled data)
  | shutdown =>
      obtain rfl := Option.some.inj hstep
      change KeepsReaders e (shutdown e)
      unfold shutdown
      split
      · exact .of_eq rfl
      · intro key reader hfind
        cases hfind

end Steps

section Runs

/-- The marks are exact: a reader is marked when a field has been stored for it. -/
structure MarksExact (w : Watched) : Prop where
  marked : ∀ key reader, w.engine.readers.find? key = some reader →
    (reader.dataSeen = true ↔ w.delivered key = true)
  called : ∀ key name, (key, Reaction.firstData name) ∈ w.latest → w.delivered key = true

theorem MarksExact.signalsDelivered {w : Watched} (h : MarksExact w) : SignalsDelivered w where
  marked key reader hfind := (h.marked key reader hfind).mp
  called := h.called

theorem watch_call_eq_some {w w' : Watched} {event : Event}
    (h : watch w (.call event) = some w') :
    KeepsReaders w.engine w'.engine ∧
      w'.delivered = (fun key => w.delivered key && w.engine.readers.contains key) ∧
      w'.latest = [] := by
  have hevent : ∀ endpoint signalled data, event ≠ .receive endpoint signalled data := by
    rintro endpoint signalled data rfl
    cases h
  have hmap : (advance w.engine event).map (fun e =>
      { engine := e
        delivered := fun key => w.delivered key && w.engine.readers.contains key
        latest := [] : Watched }) = some w' := by
    cases event with
    | receive endpoint signalled data => exact absurd rfl (hevent endpoint signalled data)
    | _ => exact h
  obtain ⟨e, hstep, rfl⟩ := Option.map_eq_some_iff.mp hmap
  exact ⟨keepsReaders_advance hevent hstep, rfl, rfl⟩

theorem marksExact_call {w w' : Watched} {event : Event} (h : MarksExact w)
    (hstep : watch w (.call event) = some w') : MarksExact w' := by
  obtain ⟨hkeeps, hdelivered, hlatest⟩ := watch_call_eq_some hstep
  refine ⟨fun key reader hfind => ?_, fun key name hmem => ?_⟩
  · rw [hdelivered]
    rcases hkeeps key reader hfind with hbefore | ⟨hnone, hunseen⟩
    · simp [OrderedMap.contains, hbefore, h.marked key reader hbefore]
    · simp [OrderedMap.contains, hnone, hunseen]
  · rw [hlatest] at hmem
    cases hmem

theorem marksExact_turn {w : Watched} {signalled : Bool} {good : Nat → Bool} {key : ReaderKey}
    {fields : List WireValue} (h : MarksExact w)
    (hstores : FirstStores w (.turn signalled good key fields)) :
    MarksExact (applyTurn w signalled good key fields) := by
  unfold applyTurn
  cases hfind : w.engine.readers.find? key with
  | none =>
      refine ⟨h.marked, fun key name hmem => ?_⟩
      cases hmem
  | some reader =>
      have hexact := h.marked key reader hfind
      have hcount : reader.dataSeen = true ∨ min fields.length reader.targets.length ≠ 0 ↔
          w.delivered key = true ∨ stores good fields reader.targets = true := by
        rw [← hexact]
        cases hseen : reader.dataSeen with
        | true => simp
        | false =>
            simp only [Bool.false_eq_true, false_or]
            exact ⟨hstores reader hfind hseen, min_ne_zero_of_stores⟩
      refine ⟨fun other found hother => ?_, fun other name hmem => ?_⟩
      · simp only [OrderedMap.find?_assign] at hother
        by_cases hkey : other = key
        · rw [if_pos hkey, Option.some.injEq] at hother
          rw [← hother, dataSeen_applyMessage, hcount, hkey]
          simp
        · rw [if_neg hkey] at hother
          simpa [hkey] using h.marked other found hother
      · obtain ⟨reaction, hreaction, heq⟩ := List.mem_map.mp hmem
        cases heq
        have hdelivered := hcount.mp (.inr (min_ne_zero_of_firstData hreaction))
        simpa using hdelivered

/-- A turn that marks a reader without storing anything shows in the state after it. -/
theorem not_signalsDelivered_turn {w : Watched} {signalled : Bool} {good : Nat → Bool}
    {key : ReaderKey} {fields : List WireValue} (h : MarksExact w)
    (hnot : ¬ FirstStores w (.turn signalled good key fields)) :
    ¬ SignalsDelivered (applyTurn w signalled good key fields) := by
  intro hafter
  apply hnot
  intro reader hfind hunseen hcount
  have hnew : (applyTurn w signalled good key fields).engine.readers.find? key =
      some (applyMessage signalled fields reader).1 := by
    rw [applyTurn, hfind]
    exact (OrderedMap.find?_assign _ _ _ _).trans (if_pos rfl)
  have hdelivered := hafter.marked key _ hnew
    ((dataSeen_applyMessage signalled fields reader).mpr (.inr hcount))
  have hbefore : w.delivered key = false := by
    rw [← Bool.not_eq_true, ← h.marked key reader hfind, hunseen]
    exact Bool.false_ne_true
  simpa [applyTurn, hfind, hbefore] using hdelivered

/-- Marks and callbacks mean delivered data in every state of a run exactly when each
message that has fields for a reader not marked yet stores one of them. -/
theorem signalsDelivered_iff (happenings : List Happening) :
    Throughout watch SignalsDelivered .initial happenings ↔
      Along watch FirstStores .initial happenings := by
  refine throughout_iff_along (I := MarksExact) ?_ ?_ ?_ ?_
  · intro w happening w' h hfirst hstep
    cases happening with
    | call event => exact marksExact_call h hstep
    | turn signalled good key fields =>
        exact Option.some.inj hstep ▸ marksExact_turn h hfirst
  · exact fun w h => h.signalsDelivered
  · intro w happening w' h hnot hstep
    cases happening with
    | call event => exact absurd trivial hnot
    | turn signalled good key fields =>
        exact Option.some.inj hstep ▸ not_signalsDelivered_turn h hnot
  · refine ⟨fun key reader hfind => ?_, fun key name hmem => ?_⟩
    · cases hfind
    · cases hmem

section Counterexample

/-- A reader for the connection `c`, added to a started engine. -/
def firstDataReader : List Event :=
  [.ensureStarted, .addReader none [1]
    { publisherIdType := .uInt16
      publisherId := 7
      writerGroupId := 1
      dataSetWriterId := 1
      targets := [0]
      host := [1]
      port := 4840
      onFirstData := some [99] }]

/-- A message of the publisher whose only field is Null. -/
def nullDatagram : Bytes := [0xF1, 1, 7, 0, 1, 1, 0, 1, 1, 0, 1, 1, 0, 0]

/-- The turn of that message. -/
def nullTurn : Happening := .turn true (fun _ => true) ⟨7, 1, 1⟩ [.makeNull]

def nullRun : List Happening := firstDataReader.map .call ++ [nullTurn]

/-- The reader is marked and the callback called although no value comes out of the
datagram and nothing is written. -/
theorem nullDatagram_signals :
    (handleDatagram (firstDataReader.foldl handle initial) (fun _ => true) nullDatagram).2 =
      [(⟨7, 1, 1⟩, .firstData [99])] ∧
    (∃ w, run watch .initial nullRun = some w ∧
      w.engine = (handleDatagram (firstDataReader.foldl handle initial) (fun _ => true)
        nullDatagram).1 ∧
      (w.engine.readers.find? ⟨7, 1, 1⟩).map ReaderRuntime.dataSeen = some true ∧
      w.delivered ⟨7, 1, 1⟩ = false) ∧
    ¬ Throughout watch SignalsDelivered .initial nullRun := by
  have hrun : ∃ w, run watch .initial nullRun = some w ∧
      w.engine = (handleDatagram (firstDataReader.foldl handle initial) (fun _ => true)
        nullDatagram).1 ∧
      (w.engine.readers.find? ⟨7, 1, 1⟩).map ReaderRuntime.dataSeen = some true ∧
      w.delivered ⟨7, 1, 1⟩ = false :=
    ⟨_, rfl, rfl, rfl, rfl⟩
  refine ⟨by decide, hrun, fun h => ?_⟩
  obtain ⟨w, hrun, -, hmarked, hdelivered⟩ := hrun
  obtain ⟨reader, hfind, hseen⟩ := Option.map_eq_some_iff.mp hmarked
  have hstored := (h.last hrun).marked _ reader hfind hseen
  rw [hdelivered] at hstored
  cases hstored

end Counterexample

end Runs

end PubSub

end Supernova
