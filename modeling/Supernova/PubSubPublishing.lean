/-
The publishing cycle of a writer group: the delay of its timer and the message
that it samples and encodes, and which configurations can be published.
-/
import Supernova.PubSubValues
import Supernova.PubSubXsdBinding

namespace Supernova

attribute [local semireducible] ByteArray.toList.loop

namespace PubSub

section Timer

open BinaryFormat

/-- `static_cast<long long>` of a finite double; outside the range of the type
it is undefined. -/
def toLongLong (d : Double) : Option Int :=
  let truncated : Int := if d.rational < 0 then -⌊-d.rational⌋ else ⌊d.rational⌋
  if d.finite && -2 ^ 63 ≤ truncated && truncated < 2 ^ 63 then some truncated else none

/-- The delay of `scheduleGroup`, in microseconds. -/
def timerMicroseconds (publishingIntervalMs : Double) : Option Int :=
  if !publishingIntervalMs.finite then none
  else
    let product := Double.ofRational (publishingIntervalMs.rational * 1000)
    if !product.finite then none
    else (toLongLong (Double.ofRational (product.rational + 1 / 2))).map (max 1000)

/-- The magnitude of 2^63 among doubles. -/
def longLongEnd : Nat := 1086 * 2 ^ 52

theorem round_lt_longLongEnd_iff {x : ℚ} (hx : 0 ≤ x) :
    binary64.round x < longLongEnd ↔ x < 2 ^ 63 - 512 := by
  have h := round_lt_iff binary64 hx (s := 1084) (by decide)
  have hmid : ((2 : ℚ) ^ (binary64.fractionBits + 1) - 1 / 2) *
      2 ^ (binary64.leastExponent + (1084 : Nat)) = 2 ^ 63 - 512 := by
    norm_num [binary64, leastExponent]
  rw [hmid] at h
  exact h

theorem value_lt_of_lt_longLongEnd {magnitude : Nat} (h : magnitude < longLongEnd) :
    binary64.value magnitude ≤ 2 ^ 63 - 1024 := by
  have hvalue := value_le_of_lt binary64 (s := 1084) h
  have hlast : ((2 : ℚ) ^ (binary64.fractionBits + 1) - 1) *
      2 ^ (binary64.leastExponent + (1084 : Nat)) = 2 ^ 63 - 1024 := by
    norm_num [binary64, leastExponent]
  rwa [hlast] at hvalue

theorem le_value_of_longLongEnd_le {magnitude : Nat} (h : longLongEnd ≤ magnitude) :
    2 ^ 63 ≤ binary64.value magnitude := by
  have hvalue := le_value_of_le binary64 (s := 1084) h
  have hlast : (2 : ℚ) ^ (binary64.fractionBits + 1) *
      2 ^ (binary64.leastExponent + (1084 : Nat)) = 2 ^ 63 := by
    norm_num [binary64, leastExponent]
  rwa [hlast] at hvalue

theorem exists_toLongLong_iff {x : ℚ} (hx : 0 ≤ x) :
    (toLongLong (Double.ofRational x)).isSome ↔ x < 2 ^ 63 - 512 := by
  obtain ⟨hfinite, hrational⟩ := Double.ofRational_of_nonneg hx
  have hnonneg := value_nonneg binary64 (binary64.round x)
  rw [← round_lt_longLongEnd_iff hx]
  simp only [toLongLong, hfinite, hrational, if_neg (not_lt.mpr hnonneg), Bool.and_eq_true,
    decide_eq_true_eq]
  constructor
  · intro h
    split at h
    · rename_i hrange
      by_contra hnot
      have hvalue := le_value_of_longLongEnd_le (not_lt.mp hnot)
      have hfloor : (2 ^ 63 : Int) ≤ ⌊binary64.value (binary64.round x)⌋ := by
        rw [Int.le_floor]
        exact_mod_cast hvalue
      exact absurd hrange.2 (not_lt.mpr hfloor)
    · cases h
  · intro h
    have hvalue := value_lt_of_lt_longLongEnd h
    rw [if_pos]
    · rfl
    · refine ⟨⟨h.trans (by decide), ?_⟩, ?_⟩
      · exact le_trans (by norm_num) (Int.floor_nonneg.mpr hnonneg)
      · rw [Int.floor_lt]
        push_cast
        linarith

/-- The interval is too large for the timer exactly when its microseconds do
not round below 2^63. -/
theorem exists_timerMicroseconds_iff {intervalMs : Double}
    (hpositive : intervalMs.notPositive = false) :
    (∃ delay, timerMicroseconds intervalMs = some delay) ↔ intervalMs.isNaN = false ∧
      binary64.value intervalMs.magnitude * 1000 < 2 ^ 63 - 512 := by
  have hnonneg := value_nonneg binary64 intervalMs.magnitude
  by_cases hnan : intervalMs.isNaN = true
  · have hfinite : intervalMs.finite = false := by
      simp only [Double.isNaN, BinaryFormat.isNaN, decide_eq_true_eq] at hnan
      simp [Double.finite, hnan.le]
    simp [timerMicroseconds, hfinite, hnan]
  · rw [Bool.not_eq_true] at hnan
    simp only [Double.notPositive, hnan, Bool.not_false, Bool.true_and, Bool.or_eq_false_iff]
      at hpositive
    have hproduct : intervalMs.rational * 1000 =
        binary64.value intervalMs.magnitude * 1000 := by
      rw [Double.rational, hpositive.1, if_neg Bool.false_ne_true]
    have hproductNonneg : 0 ≤ intervalMs.rational * 1000 := by
      rw [hproduct]
      positivity
    obtain ⟨hfinite, hrational⟩ := Double.ofRational_of_nonneg hproductNonneg
    rw [← hproduct, ← round_lt_longLongEnd_iff hproductNonneg, and_iff_right hnan]
    have hsum : 0 ≤ binary64.value (binary64.round (intervalMs.rational * 1000)) + 1 / 2 := by
      have := value_nonneg binary64 (binary64.round (intervalMs.rational * 1000))
      positivity
    have hiff := exists_toLongLong_iff hsum
    by_cases hlt : binary64.round (intervalMs.rational * 1000) < longLongEnd
    · have hinterval : intervalMs.finite = true := by
        by_contra hnot
        simp only [Double.finite, decide_eq_true_eq, not_lt] at hnot
        have hvalue := le_value_of_longLongEnd_le (le_trans (by decide) hnot)
        rw [round_lt_longLongEnd_iff hproductNonneg, hproduct] at hlt
        linarith
      have hvalue := value_lt_of_lt_longLongEnd hlt
      have hsome := hiff.mpr (by linarith)
      obtain ⟨delay, hdelay⟩ := Option.isSome_iff_exists.mp hsome
      have hproductFinite : binary64.round (intervalMs.rational * 1000) < binary64.infinity :=
        hlt.trans (by decide)
      refine iff_of_true ⟨max 1000 delay, ?_⟩ hlt
      simp only [timerMicroseconds, hinterval, hfinite, hrational, hproductFinite, hdelay,
        decide_true, Bool.not_true, Bool.false_eq_true, if_false, Option.map_some]
    · have hvalue := le_value_of_longLongEnd_le (not_lt.mp hlt)
      have hnone : toLongLong (Double.ofRational
          (binary64.value (binary64.round (intervalMs.rational * 1000)) + 1 / 2)) = none := by
        rw [← Option.not_isSome_iff_eq_none, hiff]
        linarith
      refine iff_of_false ?_ hlt
      rintro ⟨delay, hdelay⟩
      simp only [timerMicroseconds, hrational, hnone, Option.map_none] at hdelay
      split_ifs at hdelay

end Timer

section Cycle

/-- The writer loop of `publishGroup`; `sample` is what each field's variable
holds when it is read. -/
def publishWriter (sample : Nat → Nat → Option UaVariant) (writer : WriterRuntime) :
    WriterRuntime × DataSetMessage :=
  ({ writer with sequenceNumber := writer.sequenceNumber + 1 },
    { dataSetWriterId := writer.id
      sequenceNumberEnabled := true
      sequenceNumber := writer.sequenceNumber + 1
      fields := writer.fieldVariables.mapIdx fun f v => publishedField (sample f v) })

/-- The message of a cycle, and the group after it. -/
def publishGroup (sample : Nat → Nat → Nat → Option UaVariant) (group : WriterGroupRuntime) :
    WriterGroupRuntime × NetworkMessage :=
  let published := group.writers.mapIdx fun w writer => publishWriter (sample w) writer
  ({ group with
      sequenceNumber := group.sequenceNumber + 1
      writers := published.map Prod.fst },
    { publisherIdType := group.publisherIdType
      publisherId := group.publisherId
      writerGroupIdEnabled := true
      writerGroupId := group.id
      groupSequenceNumberEnabled := true
      groupSequenceNumber := group.sequenceNumber + 1
      messages := published.map Prod.snd })

/-- A number, a Boolean or no value: a few bytes on the wire, whatever it is. -/
def UaVariant.small : UaVariant → Bool
  | .null => true
  | .scalar (.string _) => false
  | .scalar _ => true
  | .array _ _ => false
  | .other => false

def SmallSample (sample : Nat → Nat → Nat → Option UaVariant) : Prop :=
  ∀ w f variable' v, sample w f variable' = some v → v.small = true

/-- The group at run time is the configured one, whatever its cycles so far. -/
structure WriterGroupRuntime.RunsAs (configuration : Configuration) (group : WriterGroupConfig)
    (runtime : WriterGroupRuntime) : Prop where
  id : runtime.id = group.id
  interval : runtime.publishingIntervalMs = group.publishingIntervalMs
  publisherIdType : runtime.publisherIdType = configuration.publisherIdType
  publisherId : runtime.publisherId = configuration.publisherId
  writers : List.Forall₂ (fun writer runtime => runtime.id = writer.id ∧
    runtime.fieldVariables.length = writer.fields.length) group.writers runtime.writers

/-- The message shows the configured ids, the writers in order, and one field
for each configured field. -/
structure ShowsConfigured (configuration : Configuration) (group : WriterGroupConfig)
    (message : NetworkMessage) : Prop where
  publisherIdType : message.publisherIdType = configuration.publisherIdType
  publisherId : message.publisherId = configuration.publisherId
  writerGroupIdEnabled : message.writerGroupIdEnabled = true
  writerGroupId : message.writerGroupId = group.id
  writers : List.Forall₂ (fun writer d => d.dataSetWriterId = writer.id ∧
    d.fields.length = writer.fields.length) group.writers message.messages

/-- The timer can be set, and every cycle over small values is encoded and
decodes to what was configured. -/
def WriterGroupConfig.PublishedBy (configuration : Configuration) (group : WriterGroupConfig) :
    Prop :=
  (∃ delay, timerMicroseconds group.publishingIntervalMs = some delay) ∧
    ∀ runtime : WriterGroupRuntime, runtime.RunsAs configuration group →
      ∀ sample, SmallSample sample → ∃ bytes out c,
        encodeNetworkMessage (publishGroup sample runtime).2 = .ok bytes ∧
        decodeDatagram bytes = .ok out c ∧ ShowsConfigured configuration group out

/-- The limits of the timer and of the wire. -/
structure WriterGroupConfig.FitsWire (configuration : Configuration)
    (group : WriterGroupConfig) : Prop where
  number : group.publishingIntervalMs.isNaN = false
  interval : BinaryFormat.binary64.value group.publishingIntervalMs.magnitude * 1000 <
    2 ^ 63 - 512
  publisherId : configuration.publisherId ≤ publisherIdMaximum configuration.publisherIdType
  writers : group.writers.length ≤ 255
  fields : ∀ writer ∈ group.writers, writer.fields.length ≤ 0xFFFF
  sizes : 1 < group.writers.length → ∀ writer ∈ group.writers,
    5 + 9 * writer.fields.length ≤ 0xFFFF

theorem forall₂_mapIdx {α β γ : Type*} {P : α → β → Prop} {Q : α → γ → Prop}
    {as : List α} {bs : List β} (h : List.Forall₂ P as bs) (f : Nat → β → γ)
    (hf : ∀ i a b, P a b → Q a (f i b)) : List.Forall₂ Q as (bs.mapIdx f) := by
  induction h generalizing f with
  | nil => exact List.Forall₂.nil
  | cons hhead _ ih =>
      rw [List.mapIdx_cons]
      exact List.Forall₂.cons (hf 0 _ _ hhead) (ih _ fun i a b => hf (i + 1) a b)

theorem publishedField_of_small {sampled : Option UaVariant}
    (h : ∀ v, sampled = some v → v.small = true) :
    (publishedField sampled).fits = true ∧ (publishedField sampled).encodable = true ∧
      (publishedField sampled).encodedSize ≤ 9 := by
  rcases sampled with _ | v
  · exact ⟨rfl, rfl, by decide⟩
  · have hsmall := h v rfl
    rcases v with _ | v | ⟨type, elements⟩ | _
    · exact ⟨rfl, rfl, by decide⟩
    · cases v with
      | string v => cases hsmall
      | _ =>
          exact ⟨rfl, rfl, by simp [publishedField, uaVariantToWire, UaScalar.toWire,
            WireValue.encodedSize, WireValue.scalarSize, WireValue.makeBoolean,
            WireValue.makeSigned, WireValue.makeUnsigned, WireValue.makeFloat,
            WireValue.makeDouble, WireValue.makeNull]⟩
    · cases hsmall
    · cases hsmall

theorem messages_publishGroup (sample : Nat → Nat → Nat → Option UaVariant)
    (runtime : WriterGroupRuntime) : (publishGroup sample runtime).2.messages =
      runtime.writers.mapIdx fun w writer => (publishWriter (sample w) writer).2 := by
  apply List.ext_getElem?
  intro i
  simp [publishGroup, Option.map_map, Function.comp_def]

/-- What a cycle over small values publishes fits the wire, when the counts do. -/
theorem publishWriter_of_small {sample : Nat → Nat → Option UaVariant}
    (hsmall : ∀ f variable' v, sample f variable' = some v → v.small = true)
    (writer : WriterRuntime) :
    let d := (publishWriter sample writer).2
    d.dataSetWriterId = writer.id ∧ d.fields.length = writer.fieldVariables.length ∧
      d.encodable = true ∧ d.encodedSize ≤ 5 + 9 * writer.fieldVariables.length ∧
      (writer.fieldVariables.length ≤ 0xFFFF → d.fits = true) := by
  have hfield : ∀ v ∈ (publishWriter sample writer).2.fields,
      v.fits = true ∧ v.encodable = true ∧ v.encodedSize ≤ 9 := by
    intro v hv
    obtain ⟨f, hf, rfl⟩ := List.mem_mapIdx.mp hv
    exact publishedField_of_small fun v hv => hsmall f _ v hv
  have hlength : (publishWriter sample writer).2.fields.length =
      writer.fieldVariables.length := by
    simp [publishWriter]
  refine ⟨rfl, hlength, ?_, ?_, ?_⟩
  · rw [DataSetMessage.encodable, List.all_eq_true]
    exact fun v hv => (hfield v hv).2.1
  · have hsum : ((publishWriter sample writer).2.fields.map WireValue.encodedSize).sum ≤
        (publishWriter sample writer).2.fields.length * 9 := by
      have h := List.sum_le_card_nsmul
        ((publishWriter sample writer).2.fields.map WireValue.encodedSize) 9 ?_
      · simpa using h
      · intro n hn
        obtain ⟨v, hv, rfl⟩ := List.mem_map.mp hn
        exact (hfield v hv).2.2
    have henabled : (publishWriter sample writer).2.sequenceNumberEnabled = true := rfl
    rw [DataSetMessage.encodedSize, henabled, if_pos rfl]
    omega
  · intro hfew
    simp only [DataSetMessage.fits, hlength, Bool.and_eq_true, decide_eq_true_eq,
      List.all_eq_true]
    exact ⟨hfew, fun v hv => (hfield v hv).1⟩

theorem publishedBy_of_fitsWire {configuration : Configuration} {group : WriterGroupConfig}
    (haccepted : group.Accepted) (hfits : group.FitsWire configuration) :
    group.PublishedBy configuration := by
  refine ⟨(exists_timerMicroseconds_iff haccepted.interval).mpr
    ⟨hfits.number, hfits.interval⟩, ?_⟩
  intro runtime hruns sample hsmall
  have hwriter := fun w => @publishWriter_of_small (sample w)
    fun f variable' v hv => hsmall w f variable' v hv
  have hmessages := messages_publishGroup sample runtime
  have hall : List.Forall₂ (fun writer d =>
      (d.dataSetWriterId = writer.id ∧ d.fields.length = writer.fields.length) ∧
        d.encodable = true ∧ d.encodedSize ≤ 5 + 9 * writer.fields.length ∧
        (writer.fields.length ≤ 0xFFFF → d.fits = true))
      group.writers (publishGroup sample runtime).2.messages := by
    rw [hmessages]
    refine forall₂_mapIdx hruns.writers _ ?_
    intro w writer runtimeWriter ⟨hid, hlength⟩
    obtain ⟨hid', hlength', hencodable, hsize, hfit⟩ := hwriter w runtimeWriter
    rw [hlength] at hsize hfit
    exact ⟨⟨hid'.trans hid, hlength'.trans hlength⟩, hencodable, hsize, hfit⟩
  have hcount := hall.length_eq
  have hmem : ∀ d ∈ (publishGroup sample runtime).2.messages, ∃ writer ∈ group.writers,
      d.encodable = true ∧ d.encodedSize ≤ 5 + 9 * writer.fields.length ∧
        (writer.fields.length ≤ 0xFFFF → d.fits = true) := by
    intro d hd
    obtain ⟨writer, hw, -, h⟩ := exists_of_mem_forall₂ hall hd
    exact ⟨writer, hw, h⟩
  have hencodable : (publishGroup sample runtime).2.encodable = true := by
    simp only [NetworkMessage.encodable, Bool.and_eq_true, Bool.not_eq_true',
      List.isEmpty_eq_false_iff, decide_eq_true_eq, List.all_eq_true, Bool.or_eq_true]
    refine ⟨⟨⟨?_, hcount ▸ hfits.writers⟩, ?_⟩, ?_⟩
    · intro hnil
      rw [hnil, List.length_nil, List.length_eq_zero_iff] at hcount
      exact haccepted.writers hcount
    · intro d hd
      obtain ⟨writer, -, hencodable, -⟩ := hmem d hd
      exact hencodable
    · rcases Nat.lt_or_ge 1 group.writers.length with hmany | hone
      · refine .inr fun d hd => ?_
        obtain ⟨writer, hw, -, hsize, -⟩ := hmem d hd
        exact hsize.trans (hfits.sizes hmany writer hw)
      · exact .inl (hcount ▸ hone)
  obtain ⟨bytes, hbytes⟩ := (encodeNetworkMessage_ok_iff _).mpr hencodable
  have hfit : ∀ d ∈ (publishGroup sample runtime).2.messages, d.fits = true := by
    intro d hd
    obtain ⟨writer, hw, -, -, hfit⟩ := hmem d hd
    exact hfit (hfits.fields writer hw)
  obtain ⟨k, hrun⟩ := reads_networkMessage hbytes hfit [] {}
  rw [List.append_nil] at hrun
  refine ⟨bytes, _, _, hbytes, hrun, ?_⟩
  constructor
  · exact hruns.publisherIdType
  · have hid : (publishGroup sample runtime).2.publisherId ≤
        publisherIdMaximum (publishGroup sample runtime).2.publisherIdType := by
      change runtime.publisherId ≤ publisherIdMaximum runtime.publisherIdType
      rw [hruns.publisherId, hruns.publisherIdType]
      exact hfits.publisherId
    exact (receivedPublisherId_of_le hid).trans hruns.publisherId
  · rfl
  · exact hruns.id
  · change List.Forall₂ _ _ (List.map DataSetMessage.received _)
    rw [List.forall₂_map_right_iff]
    refine hall.imp fun writer d h => ?_
    simpa [DataSetMessage.received] using h.1

/-- A group before its first cycle, with all its fields on one variable. -/
def startingGroup (configuration : Configuration) (group : WriterGroupConfig) :
    WriterGroupRuntime :=
  { id := group.id
    publishingIntervalMs := group.publishingIntervalMs
    sequenceNumber := 0
    publisherIdType := configuration.publisherIdType
    publisherId := configuration.publisherId
    ownerTag := []
    transmitter := ⟨[], 0, 1, true⟩
    writers := group.writers.map fun writer =>
      ⟨writer.id, 0, List.replicate writer.fields.length 0⟩ }

theorem startingGroup_runsAs (configuration : Configuration) (group : WriterGroupConfig) :
    (startingGroup configuration group).RunsAs configuration group where
  id := rfl
  interval := rfl
  publisherIdType := rfl
  publisherId := rfl
  writers := by
    simp only [startingGroup]
    rw [List.forall₂_map_right_iff]
    exact List.forall₂_same.mpr fun writer _ => ⟨rfl, List.length_replicate⟩

/-- A UInt64 takes nine bytes, the most of all small values. -/
theorem encodedSize_of_uInt64 (group : WriterRuntime) :
    (publishWriter (fun _ _ => some (.scalar (.uInt64 0))) group).2.encodedSize =
      5 + 9 * group.fieldVariables.length := by
  have hsum : ∀ fields : List Nat, ((fields.mapIdx fun _ _ =>
      publishedField (some (.scalar (.uInt64 0)))).map WireValue.encodedSize).sum =
        9 * fields.length := by
    intro fields
    induction fields with
    | nil => rfl
    | cons v fields ih =>
        rw [List.mapIdx_cons, List.map_cons, List.sum_cons, ih, List.length_cons]
        change 9 + 9 * fields.length = _
        omega
  simp only [publishWriter, DataSetMessage.encodedSize, if_true, hsum]
  omega

theorem fitsWire_of_publishedBy {configuration : Configuration} {group : WriterGroupConfig}
    (haccepted : group.Accepted) (h : group.PublishedBy configuration) :
    group.FitsWire configuration := by
  obtain ⟨hnumber, hinterval⟩ := (exists_timerMicroseconds_iff haccepted.interval).mp h.1
  obtain ⟨bytes, out, c, hbytes, hrun, hshows⟩ := h.2 _
    (startingGroup_runsAs configuration group) (fun _ _ _ => some (.scalar (.uInt64 0)))
    (fun _ _ _ v hv => by cases hv; rfl)
  have hencodable := (encodeNetworkMessage_ok_iff _).mp ⟨bytes, hbytes⟩
  rw [NetworkMessage.encodable, messages_publishGroup] at hencodable
  simp only [Bool.and_eq_true, decide_eq_true_eq, List.all_eq_true, Bool.or_eq_true,
    List.length_mapIdx, startingGroup, List.length_map] at hencodable
  have hid := publisherId_le_of_decodeDatagram hrun
  rw [hshows.publisherId, hshows.publisherIdType] at hid
  have hfits := fits_of_decodeDatagram hrun
  refine ⟨hnumber, hinterval, hid, hencodable.1.1.2, ?_, ?_⟩
  · intro writer hwriter
    obtain ⟨d, hd, -, hlength⟩ := exists_of_mem_forall₂ hshows.writers.flip hwriter
    have hfew := hfits d hd
    simp only [DataSetMessage.fits, Bool.and_eq_true, decide_eq_true_eq] at hfew
    exact hlength ▸ hfew.1
  · intro hmany writer hwriter
    have hsizes := hencodable.2.resolve_left (not_le.mpr hmany)
    obtain ⟨i, hi, rfl⟩ := List.mem_iff_getElem.mp hwriter
    have hsize := hsizes _ (List.mem_mapIdx.mpr ⟨i, by simpa using hi, rfl⟩)
    rw [encodedSize_of_uInt64] at hsize
    simpa using hsize

/-- A section of one group, every 100 milliseconds, of a publisher with a Byte id. -/
def byteSection (publisherId : UInt64) : Xsd.PubSubSection :=
  { publisherId
    publisherIdType := text "Byte"
    connection := [
      { address := text "opc.udp://239.0.0.5:4840"
        writerGroup := [
          { id := 1
            publishingIntervalMs := ⟨0x4059000000000000⟩
            dataSetWriter := [
              { id := 1
                field := [⟨some (text "s.x"), none⟩]
                fields_ne_nil := List.cons_ne_nil _ _ }]
            dataSetWriters_ne_nil := List.cons_ne_nil _ _ }]
        dataSetReader := [] }] }

def byteGroup : WriterGroupConfig :=
  ⟨1, ⟨0x4059000000000000⟩, [⟨1, [text "s.x"]⟩]⟩

def byteConfiguration (publisherId : UInt64) : Configuration :=
  ⟨.byte, publisherId, [⟨text "239.0.0.5", 4840, 1, true, [byteGroup], []⟩]⟩

end Cycle

end PubSub

end Supernova
