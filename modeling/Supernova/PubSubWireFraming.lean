/-
The framing of several DataSetMessages in one datagram.  The sizes array is
read and ignored: messages are decoded back to back, each from the byte behind
the previous one, and other sizes would have changed nothing.
-/
import Supernova.PubSubWireReads

namespace Supernova

namespace PubSub

open Scanner

/-- `message` is the decoding of exactly the bytes `chunk`. -/
def ReadFrom (message : DataSetMessage) (chunk : Bytes) : Prop :=
  Reads (decodeDataSetMessage message.dataSetWriterId) chunk message

/-- The messages are the decodings of the ranges that the sizes assign to them. -/
def FramedAs (payload : Bytes) (sizes : List Nat) (messages : List DataSetMessage) : Prop :=
  ∃ (chunks : List Bytes) (rest : Bytes), payload = chunks.flatten ++ rest ∧
    chunks.map List.length = sizes ∧ List.Forall₂ ReadFrom messages chunks

/-- Each message is read from the byte at which its declared range starts. -/
def StartAsDeclared (payload : Bytes) (sizes : List Nat) (messages : List DataSetMessage) :
    Prop :=
  ∀ i message, messages[i]? = some message → ∃ c,
    decodeDataSetMessage message.dataSetWriterId ⟨payload.drop (sizes.take i).sum, {}⟩ =
      .ok message c

theorem writerId_of_decodeDataSetMessage {writerId : UInt16} {c c' : Cursor UInt8 Built}
    {message : DataSetMessage} (h : decodeDataSetMessage writerId c = .ok message c') :
    message.dataSetWriterId = writerId := by
  obtain ⟨flags, c₁, -, h⟩ := bind_eq_ok.1 h
  obtain ⟨sequenceNumber, c₂, -, h⟩ := bind_eq_ok.1 h
  dsimp only at h
  split at h
  · cases h
    rfl
  · split at h
    · cases h
    · split at h
      · cases h
      · obtain ⟨fields, c₃, -, h⟩ := bind_eq_ok.1 h
        cases h
        rfl

/-- The message loop reads one chunk after the other. -/
theorem chunks_of_decodeMessages {writerIds : List UInt16} {c c' : Cursor UInt8 Built}
    {messages : List DataSetMessage} (h : decodeMessages writerIds c = .ok messages c') :
    messages.map DataSetMessage.dataSetWriterId = writerIds ∧
      ∃ chunks : List Bytes, c.rest = chunks.flatten ++ c'.rest ∧
        List.Forall₂ ReadFrom messages chunks := by
  induction writerIds generalizing c messages with
  | nil =>
      cases h
      exact ⟨rfl, [], rfl, List.Forall₂.nil⟩
  | cons writerId writerIds ih =>
      obtain ⟨message, c₁, hhead, h⟩ := bind_eq_ok.1 h
      obtain ⟨tail, c₂, htail, hpure⟩ := bind_eq_ok.1 h
      cases hpure
      obtain ⟨hids, chunks, hchunks, hall⟩ := ih htail
      obtain ⟨chunk, hchunk, hreads⟩ := exact_dataSetMessage writerId c message c₁ hhead
      have hid := writerId_of_decodeDataSetMessage hhead
      refine ⟨by rw [List.map_cons, hid, hids], chunk :: chunks, ?_, ?_⟩
      · rw [hchunk, hchunks, List.flatten_cons, List.append_assoc]
      · refine List.Forall₂.cons ?_ hall
        rw [ReadFrom, hid]
        exact hreads

theorem reads_decodeMessages {messages : List DataSetMessage} {chunks : List Bytes}
    (h : List.Forall₂ ReadFrom messages chunks) :
    Reads (decodeMessages (messages.map DataSetMessage.dataSetWriterId)) chunks.flatten
      messages := by
  induction h with
  | nil => exact Reads.pure []
  | cons hhead _ ih => exact hhead.bind (ih.map (_ :: ·))

/-- The ranges of the messages are unique in a payload. -/
theorem chunks_unique {messages : List DataSetMessage} {chunks chunks' : List Bytes}
    {rest rest' : Bytes} (h : List.Forall₂ ReadFrom messages chunks)
    (h' : List.Forall₂ ReadFrom messages chunks')
    (hsame : chunks.flatten ++ rest = chunks'.flatten ++ rest') : chunks = chunks' := by
  induction h generalizing chunks' with
  | nil =>
      cases h'
      rfl
  | @cons message chunk messages chunks hhead _ ih =>
      cases h' with
      | @cons _ chunk' _ chunks' hhead' htail' =>
          simp only [List.flatten_cons, List.append_assoc] at hsame
          obtain ⟨k, hrun⟩ := hhead (chunks.flatten ++ rest) {}
          rw [hsame] at hrun
          obtain ⟨-, hrest⟩ := hhead'.unique hrun
          dsimp only at hrest
          have hchunk : chunk = chunk' := by
            rw [hrest] at hsame
            exact List.append_cancel_right hsame
          rw [hchunk, ih htail' hrest]

theorem startAsDeclared_of_framedAs {payload : Bytes} {sizes : List Nat}
    {messages : List DataSetMessage} (h : FramedAs payload sizes messages) :
    StartAsDeclared payload sizes messages := by
  obtain ⟨chunks, rest, rfl, rfl, hall⟩ := h
  induction hall with
  | nil =>
      intro i message hi
      cases hi
  | @cons head chunk messages chunks hhead _ ih =>
      intro i message hi
      rw [List.flatten_cons, List.append_assoc]
      cases i with
      | zero =>
          cases hi
          obtain ⟨k, hrun⟩ := hhead (chunks.flatten ++ rest) {}
          exact ⟨_, hrun⟩
      | succ i =>
          obtain ⟨c, hrun⟩ := ih i message hi
          refine ⟨c, ?_⟩
          rw [List.map_cons, List.take_succ_cons, List.sum_cons, List.drop_append,
            List.drop_of_length_le (Nat.le_add_right _ _), List.nil_append,
            Nat.add_sub_cancel_left]
          exact hrun

/-- Any two bytes are read as a number of 16 bits. -/
theorem reads_u16_times (n : Nat) {bytes : Bytes} (hlength : bytes.length = 2 * n)
    (diagnostic : String) :
    ∃ values, Reads (Scanner.times n (Reader.u16 diagnostic)) bytes values := by
  induction n generalizing bytes with
  | zero =>
      have hnil : bytes = [] := List.length_eq_zero_iff.mp hlength
      rw [hnil]
      exact ⟨[], Reads.pure []⟩
  | succ n ih =>
      have htake : (bytes.take 2).length = 2 := List.length_take_of_le (by omega)
      have hdrop : (bytes.drop 2).length = 2 * n := by
        rw [List.length_drop]
        omega
      obtain ⟨values, htail⟩ := ih hdrop
      have hhead := (reads_take (γ := Built) (bytes.take 2) diagnostic).map
        fun bytes => UInt16.ofNat (ofLittleEndian bytes)
      rw [htake] at hhead
      have hreads := hhead.bind (f := fun value =>
        Scanner.times n (Reader.u16 diagnostic) >>= fun values => pure (value :: values))
        (htail.map _)
      rw [List.take_append_drop] at hreads
      exact ⟨_, hreads⟩

/-- Any bytes of the right number are read as sizes. -/
theorem reads_anySizes {flags : NetworkFlags} {messageCount : Nat}
    {sizes sizes' : Bytes} {declaredSizes : List UInt16}
    (h : Reads (decodeSizes flags messageCount) sizes declaredSizes)
    (hlength : sizes'.length = sizes.length) :
    ∃ declaredSizes', Reads (decodeSizes flags messageCount) sizes' declaredSizes' := by
  unfold decodeSizes at h ⊢
  split at h
  · rename_i hpresent
    rw [if_pos hpresent]
    apply reads_u16_times
    -- the bytes after the sizes show how many bytes the loop has taken
    let zeros : Bytes := List.replicate (2 * messageCount) 0
    have hzeros : zeros.length = 2 * messageCount := List.length_replicate
    have htake : ((sizes ++ zeros).take (2 * messageCount)).length = 2 * messageCount := by
      apply List.length_take_of_le
      rw [List.length_append]
      omega
    obtain ⟨values, hvalues⟩ := reads_u16_times messageCount htake
      "truncated DataSetMessage sizes"
    obtain ⟨k, hrun⟩ := h zeros {}
    rw [← List.take_append_drop (2 * messageCount) (sizes ++ zeros)] at hrun
    have hrest := congrArg List.length (hvalues.unique hrun).2
    simp only [List.length_drop, List.length_append] at hrest
    omega
  · rename_i habsent
    rw [if_neg habsent]
    obtain ⟨k, hrun⟩ := h [] {}
    rw [List.append_nil] at hrun
    have hnil : sizes = [] := by
      cases hrun
      rfl
    rw [hnil] at hlength
    rw [List.length_eq_zero_iff.mp hlength]
    exact ⟨[], Reads.pure []⟩

/-- An accepted datagram: what stands in front, the declared sizes, the ranges
of the messages, and what is left over. -/
theorem parts_of_decodeDatagram {data : Bytes} {out : NetworkMessage}
    {c : Cursor UInt8 Built} (h : decodeDatagram data = .ok out c) :
    ∃ (front sizes : Bytes) (networkFront : NetworkFront) (declaredSizes : List UInt16)
      (chunks : List Bytes),
      data = front ++ (sizes ++ (chunks.flatten ++ c.rest)) ∧
        Reads decodeNetworkFront front networkFront ∧
        Reads (decodeSizes networkFront.flags networkFront.writerIds.length) sizes
          declaredSizes ∧
        List.Forall₂ ReadFrom out.messages chunks ∧
        out.messages.map DataSetMessage.dataSetWriterId = networkFront.writerIds ∧
        out = { networkFront.out with messages := out.messages } := by
  obtain ⟨header, c₁, hheader, h⟩ := bind_eq_ok.1 h
  obtain ⟨messages, c₂, hmessages, hpure⟩ := bind_eq_ok.1 h
  cases hpure
  obtain ⟨networkFront, c₃, hfront, hheader⟩ := bind_eq_ok.1 hheader
  obtain ⟨declaredSizes, c₄, hsizes, hpure⟩ := bind_eq_ok.1 hheader
  cases hpure
  obtain ⟨front, hfrontBytes, hfrontReads⟩ :=
    Consumes.exact consumes_networkFront _ networkFront c₃ hfront
  obtain ⟨sizes, hsizesBytes, hsizesReads⟩ :=
    (consumes_sizes _ _).exact c₃ declaredSizes c₁ hsizes
  obtain ⟨hids, chunks, hchunks, hall⟩ := chunks_of_decodeMessages hmessages
  refine ⟨front, sizes, networkFront, declaredSizes, chunks, ?_, hfrontReads, hsizesReads,
    hall, hids, rfl⟩
  rw [← hchunks, ← hsizesBytes]
  exact hfrontBytes

/-- The decoder on the parts of a datagram, whatever the sizes say. -/
theorem decodeDatagram_of_parts (rest : Bytes) {front sizes : Bytes} {networkFront : NetworkFront}
    {declaredSizes : List UInt16} {messages : List DataSetMessage} {chunks : List Bytes}
    (hfront : Reads decodeNetworkFront front networkFront)
    (hsizes : Reads (decodeSizes networkFront.flags networkFront.writerIds.length) sizes
      declaredSizes)
    (hmessages : List.Forall₂ ReadFrom messages chunks)
    (hids : messages.map DataSetMessage.dataSetWriterId = networkFront.writerIds) :
    ∃ c, decodeDatagram (front ++ (sizes ++ (chunks.flatten ++ rest))) =
      .ok { networkFront.out with messages } c ∧ c.rest = rest := by
  have hloop := reads_decodeMessages hmessages
  rw [hids] at hloop
  have hheader : Reads decodeNetworkHeader (front ++ sizes)
      ⟨networkFront.out, networkFront.writerIds, declaredSizes⟩ :=
    hfront.bind (hsizes.map _)
  have hreads : Reads decodeNetworkMessage (front ++ sizes ++ chunks.flatten)
      { networkFront.out with messages } :=
    hheader.bind (hloop.map _)
  obtain ⟨k, hrun⟩ := hreads rest {}
  simp only [List.append_assoc] at hrun
  exact ⟨_, hrun, rfl⟩

/-- In every accepted datagram the messages are decoded back to back from the
bytes behind the declared sizes; sizes of the same number but of any other
value give the same message; and the declared ranges are the ones that were
decoded exactly when the declared sizes are the lengths of those bytes. -/
theorem decodeDatagram_framing {data : Bytes} {out : NetworkMessage}
    {c : Cursor UInt8 Built} (h : decodeDatagram data = .ok out c) :
    ∃ (front sizes : Bytes) (networkFront : NetworkFront) (declaredSizes : List UInt16)
      (chunks : List Bytes),
      data = front ++ (sizes ++ (chunks.flatten ++ c.rest)) ∧
        Reads decodeNetworkFront front networkFront ∧
        Reads (decodeSizes networkFront.flags networkFront.writerIds.length) sizes
          declaredSizes ∧
        List.Forall₂ ReadFrom out.messages chunks ∧
        (∀ sizes' : Bytes, sizes'.length = sizes.length → ∃ c',
          decodeDatagram (front ++ (sizes' ++ (chunks.flatten ++ c.rest))) = .ok out c') ∧
        (FramedAs (chunks.flatten ++ c.rest) (declaredSizes.map UInt16.toNat)
          out.messages ↔ declaredSizes.map UInt16.toNat = chunks.map List.length) := by
  obtain ⟨front, sizes, networkFront, declaredSizes, chunks, hdata, hfront, hsizes, hall,
    hids, hout⟩ := parts_of_decodeDatagram h
  refine ⟨front, sizes, networkFront, declaredSizes, chunks, hdata, hfront, hsizes, hall,
    ?_, ?_⟩
  · intro sizes' hlength
    obtain ⟨declaredSizes', hsizes'⟩ := reads_anySizes hsizes hlength
    obtain ⟨c', hrun, -⟩ := decodeDatagram_of_parts c.rest hfront hsizes' hall hids
    rw [← hout] at hrun
    exact ⟨c', hrun⟩
  · constructor
    · rintro ⟨chunks', rest, hsame, hlengths, hall'⟩
      rw [← hlengths, chunks_unique hall hall' hsame]
    · intro hlengths
      exact ⟨chunks, c.rest, rfl, hlengths.symm, hall⟩

/-- Two messages of five bytes each, declared with six and five bytes, and one
byte that nothing reads. -/
def misframedPayload : Bytes := [1, 1, 0, 1, 1, 1, 1, 0, 1, 0, 0]

def misframedDatagram : Bytes := [0x41, 2, 1, 0, 2, 0, 6, 0, 5, 0] ++ misframedPayload

/-- The datagram is accepted with the declared sizes six and five, and no message can be
read behind its first six bytes. -/
theorem decode_misframedDatagram :
    ∃ header c₁ out c e c', decodeNetworkHeader ⟨misframedDatagram, {}⟩ = .ok header c₁ ∧
      decodeDatagram misframedDatagram = .ok out c ∧
      decodeDataSetMessage 2 ⟨misframedPayload.drop 6, {}⟩ = .error e c' ∧
      c₁.rest = misframedPayload ∧ header.declaredSizes = [6, 5] ∧
      (out.messages[1]?).map DataSetMessage.dataSetWriterId = some 2 := by
  have hrun : (match decodeNetworkHeader ⟨misframedDatagram, {}⟩,
        decodeDatagram misframedDatagram,
        decodeDataSetMessage 2 ⟨misframedPayload.drop 6, {}⟩ with
      | .ok header c₁, .ok out _, .error _ _ =>
          decide (c₁.rest = misframedPayload ∧ header.declaredSizes = [6, 5] ∧
            (out.messages[1]?).map DataSetMessage.dataSetWriterId = some 2)
      | _, _, _ => false) = true := by
    decide
  split at hrun
  · rename_i hheader hdecoded hrefused
    exact ⟨_, _, _, _, _, _, hheader, hdecoded, hrefused, of_decide_eq_true hrun⟩
  · cases hrun

theorem decodeDatagram_framing_misframed :
    ∃ out c front sizes networkFront declaredSizes chunks,
      decodeDatagram misframedDatagram = .ok out c ∧
        misframedDatagram = front ++ (sizes ++ (List.flatten chunks ++ c.rest)) ∧
        Reads decodeNetworkFront front networkFront ∧
        Reads (decodeSizes networkFront.flags networkFront.writerIds.length) sizes
          declaredSizes ∧
        List.Forall₂ ReadFrom out.messages chunks := by
  obtain ⟨-, -, out, c, -, -, -, hrun, -⟩ := decode_misframedDatagram
  obtain ⟨front, sizes, networkFront, declaredSizes, chunks, hdata, hfront, hsizes, hall, -⟩ :=
    decodeDatagram_framing hrun
  exact ⟨out, c, front, sizes, networkFront, declaredSizes, chunks, hrun, hdata, hfront,
    hsizes, hall⟩

/-- The datagram is accepted, although its messages are not the declared ranges,
and the second one is not even read from where its declared range starts. -/
theorem misframedDatagram_not_framed :
    ∃ header c₁ out c, decodeNetworkHeader ⟨misframedDatagram, {}⟩ = .ok header c₁ ∧
      c₁.rest = misframedPayload ∧ decodeDatagram misframedDatagram = .ok out c ∧
      ¬ FramedAs misframedPayload (header.declaredSizes.map UInt16.toNat) out.messages ∧
      ¬ StartAsDeclared misframedPayload (header.declaredSizes.map UInt16.toNat)
        out.messages := by
  obtain ⟨header, c₁, out, c, e, c', hheader, hrun, hrefused, hrest, hsizes, hsecond⟩ :=
    decode_misframedDatagram
  refine ⟨header, c₁, out, c, hheader, hrest, hrun, ?_⟩
  rw [← not_or]
  intro h
  obtain ⟨message, hmessage, hid⟩ := Option.map_eq_some_iff.1 hsecond
  obtain ⟨c'', hread⟩ := h.elim startAsDeclared_of_framedAs id 1 message hmessage
  rw [hsizes, hid] at hread
  cases hrefused.symm.trans hread

end PubSub

end Supernova
