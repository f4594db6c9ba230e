/-
The sequence numbers of the datagrams that a writer group hands to its
transmitter.  A cycle counts before it encodes, so a cycle that fails to encode
uses its numbers up, and the next datagram shows a gap.
-/
import Mathlib.Data.List.Chain
import Supernova.PubSubPublishing

namespace Supernova

namespace PubSub

/-- What the variables hold in one cycle: by writer, field and variable. -/
abbrev Sample := Nat → Nat → Nat → Option UaVariant

/-- The fields that a cycle puts into its messages, by writer. -/
def sampledFields (sample : Sample) (group : WriterGroupRuntime) : List (List WireValue) :=
  group.writers.mapIdx fun w writer =>
    writer.fieldVariables.mapIdx fun f v => publishedField (sample w f v)

/-- The sampled values fit a message: there are writers but not too many, each value can
be encoded, and several messages are each small enough for their declared size. -/
def cycleFits (group : WriterGroupRuntime) (sample : Sample) : Bool :=
  !group.writers.isEmpty && group.writers.length ≤ 255 &&
    (sampledFields sample group).all (fun fields => fields.all WireValue.encodable) &&
    (group.writers.length ≤ 1 || (sampledFields sample group).all fun fields =>
      5 + (fields.map WireValue.encodedSize).sum ≤ 0xFFFF)

/-- The datagrams that a run of cycles hands to the transmitter, each with its message;
a cycle that fails to encode hands over none. -/
def transmitted (group : WriterGroupRuntime) : List Sample → List (NetworkMessage × Bytes)
  | [] => []
  | sample :: samples =>
      match encodeNetworkMessage (publishGroup sample group).2 with
      | .error _ => transmitted (publishGroup sample group).1 samples
      | .ok datagram => ((publishGroup sample group).2, datagram) ::
          transmitted (publishGroup sample group).1 samples

/-- The numbers of the group and of every writer are the next ones modulo 2^16. -/
def NextNumbers (d d' : NetworkMessage × Bytes) : Prop :=
  d'.1.groupSequenceNumber = d.1.groupSequenceNumber + 1 ∧
    List.Forall₂ (fun m m' : DataSetMessage => m'.dataSetWriterId = m.dataSetWriterId ∧
      m'.sequenceNumber = m.sequenceNumber + 1) d.1.messages d'.1.messages

/-- Consecutive datagrams carry consecutive numbers. -/
def GapFree (datagrams : List (NetworkMessage × Bytes)) : Prop :=
  List.IsChain NextNumbers datagrams

/-- The cycles that fail between two that encode come in multiples of 2^16, which takes
the 16-bit numbers around to where they were; none at all is the usual case. -/
def FailsInRounds (fits : Sample → Bool) (samples : List Sample) : Prop :=
  ∀ before first failing second after,
    samples = before ++ first :: (failing ++ second :: after) →
    fits first = true → (∀ sample ∈ failing, fits sample = false) → fits second = true →
    2 ^ 16 ∣ failing.length

section Encoding

variable (group : WriterGroupRuntime) (sample : Sample)

theorem sampledFields_eq : sampledFields sample group =
    (publishGroup sample group).2.messages.map DataSetMessage.fields := by
  rw [messages_publishGroup]
  apply List.ext_getElem?
  intro i
  simp [sampledFields, publishWriter, Option.map_map, Function.comp_def]

theorem encodedSize_of_mem {d : DataSetMessage} (hd : d ∈ (publishGroup sample group).2.messages) :
    d.encodedSize = 5 + (d.fields.map WireValue.encodedSize).sum := by
  rw [messages_publishGroup] at hd
  obtain ⟨w, hw, rfl⟩ := List.mem_mapIdx.mp hd
  rw [DataSetMessage.encodedSize, show (publishWriter (sample w) _).2.sequenceNumberEnabled = true
    from rfl, if_pos rfl]
  omega

/-- Whether a cycle encodes depends on its values only, not on the numbers. -/
theorem encodable_publishGroup :
    (publishGroup sample group).2.encodable = cycleFits group sample := by
  have hlength : (publishGroup sample group).2.messages.length = group.writers.length := by
    rw [messages_publishGroup, List.length_mapIdx]
  have hsizes : ((publishGroup sample group).2.messages.all fun d => d.encodedSize ≤ 0xFFFF) =
      (publishGroup sample group).2.messages.all fun d =>
        5 + (d.fields.map WireValue.encodedSize).sum ≤ 0xFFFF := by
    rw [Bool.eq_iff_iff, List.all_eq_true, List.all_eq_true]
    refine forall₂_congr fun d hd => ?_
    rw [encodedSize_of_mem group sample hd]
  have hempty : (publishGroup sample group).2.messages.isEmpty = group.writers.isEmpty := by
    rw [Bool.eq_iff_iff, List.isEmpty_iff, List.isEmpty_iff, ← List.length_eq_zero_iff, hlength,
      List.length_eq_zero_iff]
  rw [NetworkMessage.encodable, cycleFits, sampledFields_eq, List.all_map, List.all_map, hlength,
    hsizes, hempty]
  rfl

theorem encodes_iff_cycleFits :
    (∃ datagram, encodeNetworkMessage (publishGroup sample group).2 = .ok datagram) ↔
      cycleFits group sample = true := by
  rw [encodeNetworkMessage_ok_iff, encodable_publishGroup]

end Encoding

section Numbers

/-- The group after a number of cycles: only its numbers have moved. -/
def advanced (n : Nat) (group : WriterGroupRuntime) : WriterGroupRuntime :=
  { group with
    sequenceNumber := group.sequenceNumber + UInt16.ofNat n
    writers := group.writers.map fun writer =>
      { writer with sequenceNumber := writer.sequenceNumber + UInt16.ofNat n } }

theorem publishGroup_fst (sample : Sample) (group : WriterGroupRuntime) :
    (publishGroup sample group).1 = advanced 1 group := by
  have hwriters : (group.writers.mapIdx fun w writer => publishWriter (sample w) writer).map
      Prod.fst = group.writers.map fun writer =>
        { writer with sequenceNumber := writer.sequenceNumber + UInt16.ofNat 1 } := by
    apply List.ext_getElem?
    intro i
    simp [publishWriter, Option.map_map, Function.comp_def]
  simp only [publishGroup, hwriters, advanced]
  rfl

theorem advanced_advanced (m n : Nat) (group : WriterGroupRuntime) :
    advanced m (advanced n group) = advanced (n + m) group := by
  simp [advanced, UInt16.ofNat_add, UInt16.add_assoc]

theorem cycleFits_advanced (n : Nat) (group : WriterGroupRuntime) :
    cycleFits (advanced n group) = cycleFits group := by
  funext sample
  have hfields : sampledFields sample (advanced n group) = sampledFields sample group := by
    apply List.ext_getElem?
    intro i
    simp [sampledFields, advanced, Option.map_map, Function.comp_def]
  have hlength : (advanced n group).writers.length = group.writers.length := List.length_map _
  have hempty : (advanced n group).writers.isEmpty = group.writers.isEmpty := List.isEmpty_map
  rw [cycleFits, cycleFits, hfields, hlength, hempty]

/-- Two cycles with `n` others between carry consecutive numbers exactly when `n` is a
multiple of 2^16. -/
theorem nextNumbers_iff (group : WriterGroupRuntime) (n : Nat) (sample sample' : Sample)
    (datagram datagram' : Bytes) :
    NextNumbers ((publishGroup sample group).2, datagram)
      ((publishGroup sample' (advanced (n + 1) group)).2, datagram') ↔ 2 ^ 16 ∣ n := by
  have hround : UInt16.ofNat (n + 1) = 1 ↔ 2 ^ 16 ∣ n := by
    rw [← UInt16.toNat_inj, UInt16.toNat_ofNat', Nat.dvd_iff_mod_eq_zero]
    change (n + 1) % 2 ^ 16 = 1 ↔ _
    omega
  rw [← hround]
  constructor
  · rintro ⟨hnumber, -⟩
    change group.sequenceNumber + UInt16.ofNat (n + 1) + 1 = group.sequenceNumber + 1 + 1
      at hnumber
    exact (UInt16.add_right_inj _).mp ((UInt16.add_left_inj _).mp hnumber)
  · intro hone
    refine ⟨?_, ?_⟩
    · change group.sequenceNumber + UInt16.ofNat (n + 1) + 1 = group.sequenceNumber + 1 + 1
      rw [hone]
    · rw [messages_publishGroup, messages_publishGroup, List.forall₂_iff_get]
      refine ⟨by simp [advanced], fun i h h' => ?_⟩
      simp [advanced, publishWriter, hone]

end Numbers

section Runs

variable {group : WriterGroupRuntime} {sample : Sample} {samples : List Sample}

theorem transmitted_cons_of_not_fits (h : cycleFits group sample = false) :
    transmitted group (sample :: samples) = transmitted (advanced 1 group) samples := by
  have hfails : ¬ ∃ datagram, encodeNetworkMessage (publishGroup sample group).2 =
      .ok datagram := by
    rw [encodes_iff_cycleFits, h]
    exact Bool.false_ne_true
  rw [transmitted]
  split
  · rw [publishGroup_fst]
  · rename_i datagram hdatagram
    exact absurd ⟨datagram, hdatagram⟩ hfails

theorem transmitted_cons_of_fits (h : cycleFits group sample = true) :
    ∃ datagram, encodeNetworkMessage (publishGroup sample group).2 = .ok datagram ∧
      ∀ samples, transmitted group (sample :: samples) =
        ((publishGroup sample group).2, datagram) :: transmitted (advanced 1 group) samples := by
  obtain ⟨datagram, hdatagram⟩ := (encodes_iff_cycleFits group sample).mpr h
  refine ⟨datagram, hdatagram, fun samples => ?_⟩
  rw [transmitted, hdatagram, publishGroup_fst]

/-- The failing cycles in front of one that encodes only move the numbers. -/
theorem transmitted_append_of_not_fits {failing : List Sample}
    (h : ∀ sample ∈ failing, cycleFits group sample = false) (samples : List Sample) :
    transmitted group (failing ++ samples) =
      transmitted (advanced failing.length group) samples := by
  induction failing generalizing group with
  | nil =>
      have hzero : advanced 0 group = group := by simp [advanced]
      rw [List.nil_append, List.length_nil, hzero]
  | cons sample failing ih =>
      rw [List.forall_mem_cons] at h
      rw [List.cons_append, transmitted_cons_of_not_fits h.1,
        ih (by rw [cycleFits_advanced]; exact h.2), advanced_advanced, List.length_cons,
        Nat.add_comm]

/-- No cycle encodes, or there is a first one that does. -/
theorem split_at_fits (fits : Sample → Bool) (samples : List Sample) :
    (∀ sample ∈ samples, fits sample = false) ∨
      ∃ failing second after, samples = failing ++ second :: after ∧
        (∀ sample ∈ failing, fits sample = false) ∧ fits second = true := by
  induction samples with
  | nil => exact .inl (by simp)
  | cons sample samples ih =>
      cases hfits : fits sample with
      | true => exact .inr ⟨[], sample, samples, rfl, by simp, hfits⟩
      | false =>
          rcases ih with hnone | ⟨failing, second, after, rfl, hfailing, hsecond⟩
          · exact .inl (List.forall_mem_cons.mpr ⟨hfits, hnone⟩)
          · exact .inr ⟨sample :: failing, second, after, rfl,
              List.forall_mem_cons.mpr ⟨hfits, hfailing⟩, hsecond⟩

theorem takeWhile_of_split {fits : Sample → Bool} {failing : List Sample} {second : Sample}
    (hfailing : ∀ sample ∈ failing, fits sample = false) (hsecond : fits second = true)
    (after : List Sample) :
    (failing ++ second :: after).takeWhile (fun sample => !fits sample) = failing := by
  rw [List.takeWhile_append_of_pos fun sample hmem => by rw [hfailing sample hmem]; rfl,
    List.takeWhile_cons_of_neg (by simp [hsecond]), List.append_nil]

theorem failsInRounds_cons_of_not_fits {fits : Sample → Bool} (h : fits sample = false) :
    FailsInRounds fits (sample :: samples) ↔ FailsInRounds fits samples := by
  constructor
  · intro hrounds before first failing second after hsamples
    exact hrounds (sample :: before) first failing second after (by rw [hsamples]; rfl)
  · intro hrounds before first failing second after hsamples hfirst
    cases before with
    | nil =>
        rw [List.nil_append, List.cons.injEq] at hsamples
        rw [← hsamples.1, h] at hfirst
        cases hfirst
    | cons sample' before =>
        rw [List.cons_append, List.cons.injEq] at hsamples
        exact hrounds before first failing second after hsamples.2 hfirst

theorem failsInRounds_cons_of_fits {fits : Sample → Bool} (h : fits sample = true) :
    FailsInRounds fits (sample :: samples) ↔
      (∀ failing second after, samples = failing ++ second :: after →
        (∀ sample ∈ failing, fits sample = false) → fits second = true →
        2 ^ 16 ∣ failing.length) ∧ FailsInRounds fits samples := by
  constructor
  · intro hrounds
    refine ⟨?_, ?_⟩
    · intro failing second after hsamples
      exact fun hfailing hsecond =>
        hrounds [] sample failing second after (by rw [hsamples]; rfl) h hfailing hsecond
    · intro before first failing second after hsamples
      exact hrounds (sample :: before) first failing second after (by rw [hsamples]; rfl)
  · rintro ⟨hnext, hrounds⟩ before first failing second after hsamples hfirst
    cases before with
    | nil =>
        rw [List.nil_append, List.cons.injEq] at hsamples
        exact hnext failing second after hsamples.2
    | cons sample' before =>
        rw [List.cons_append, List.cons.injEq] at hsamples
        exact hrounds before first failing second after hsamples.2 hfirst

/-- The datagrams of a run of cycles carry consecutive numbers exactly when the cycles
that fail between two datagrams come in multiples of 2^16: a failing cycle uses numbers
up although nothing is lost on the way. -/
theorem gapFree_iff_failsInRounds (group : WriterGroupRuntime) (samples : List Sample) :
    GapFree (transmitted group samples) ↔ FailsInRounds (cycleFits group) samples := by
  induction samples generalizing group with
  | nil => simp [GapFree, transmitted, FailsInRounds]
  | cons sample samples ih =>
      have ih' := ih (advanced 1 group)
      rw [cycleFits_advanced] at ih'
      cases hfits : cycleFits group sample with
      | false =>
          rw [transmitted_cons_of_not_fits hfits, ih', failsInRounds_cons_of_not_fits hfits]
      | true =>
          obtain ⟨datagram, -, htransmitted⟩ := transmitted_cons_of_fits hfits
          rw [GapFree, htransmitted, List.isChain_cons, failsInRounds_cons_of_fits hfits]
          refine and_congr ?_ ih'
          rcases split_at_fits (cycleFits group) samples with
            hnone | ⟨failing, second, after, rfl, hfailing, hsecond⟩
          · -- no further datagram, so there is nothing to compare with
            have hempty : transmitted (advanced 1 group) (samples ++ []) = [] :=
              transmitted_append_of_not_fits (by rwa [cycleFits_advanced]) []
            rw [List.append_nil] at hempty
            rw [hempty]
            refine iff_of_true (fun d hd => by cases hd) ?_
            rintro failing second after rfl - hsecond
            rw [hnone second (by simp)] at hsecond
            cases hsecond
          · have hsecond' : cycleFits (advanced (failing.length + 1) group) second = true := by
              rwa [cycleFits_advanced]
            obtain ⟨datagram', -, htransmitted'⟩ := transmitted_cons_of_fits hsecond'
            rw [transmitted_append_of_not_fits (by rwa [cycleFits_advanced]), advanced_advanced,
              Nat.add_comm 1, htransmitted' after, List.head?_cons]
            constructor
            · rintro hnumbers failing' other after' hsamples hfailing' hother
              have hsame : failing' = failing := by
                rw [← takeWhile_of_split hfailing' hother after', ← hsamples,
                  takeWhile_of_split hfailing hsecond after]
              rw [hsame]
              exact (nextNumbers_iff group _ _ _ _ _).mp (hnumbers _ rfl)
            · rintro hround d hd
              cases hd
              exact (nextNumbers_iff group _ _ _ _ _).mpr
                (hround failing second after rfl hfailing hsecond)

end Runs

section Counterexample

/-- Two writers with one field each, before the first cycle. -/
def twoWriterGroup : WriterGroupRuntime :=
  { id := 1
    publishingIntervalMs := ⟨0x4059000000000000⟩
    sequenceNumber := 0
    publisherIdType := .uInt16
    publisherId := 1
    ownerTag := []
    transmitter := ⟨[], 4840, 1, true⟩
    writers := [⟨1, 0, [0]⟩, ⟨2, 0, [1]⟩] }

/-- Every variable holds the same string. -/
def stringSample (s : Bytes) : Sample := fun _ _ _ => some (.scalar (.string s))

/-- The string is too large for a message of two in one cycle. -/
def oversized : Bytes := List.replicate 65536 97

theorem stringSample_fits : cycleFits twoWriterGroup (stringSample []) = true := by
  decide

theorem encodedSize_publishedString {s : Bytes} (h : ∀ c ∈ s, c ≠ 0) :
    (publishedField (some (.scalar (.string s)))).encodedSize = 5 + s.length := by
  have hwhole : s.takeWhile (· ≠ 0) = s :=
    List.takeWhile_eq_self_iff.mpr fun c hc => decide_eq_true (h c hc)
  change 1 + (4 + (s.takeWhile (· ≠ 0)).length) = 5 + s.length
  rw [hwhole]
  omega

theorem stringSample_not_fits : cycleFits twoWriterGroup (stringSample oversized) = false := by
  have hlength : oversized.length = 65536 := List.length_replicate
  have hsize : (publishedField (some (.scalar (.string oversized)))).encodedSize =
      5 + oversized.length := by
    apply encodedSize_publishedString
    intro c hc
    rw [List.eq_of_mem_replicate hc]
    decide
  simp [cycleFits, sampledFields, twoWriterGroup, stringSample, hlength, hsize]

/-- The cycle in the middle fails, so the datagrams around it are numbered 1 and 3. -/
theorem twoWriterGroup_gap :
    ¬ GapFree (transmitted twoWriterGroup
      [stringSample [], stringSample oversized, stringSample []]) := by
  obtain ⟨datagram, -, hfirst⟩ := transmitted_cons_of_fits stringSample_fits
  have hfits : cycleFits (advanced 2 twoWriterGroup) (stringSample []) = true := by
    rw [cycleFits_advanced]
    exact stringSample_fits
  obtain ⟨datagram', -, hsecond⟩ := transmitted_cons_of_fits hfits
  rw [hfirst, transmitted_cons_of_not_fits
    (by rw [cycleFits_advanced]; exact stringSample_not_fits), advanced_advanced, hsecond]
  intro h
  have hnumber : (3 : UInt16) = 1 + 1 := (List.isChain_cons_cons.mp h).1.1
  cases hnumber

end Counterexample

end PubSub

end Supernova
