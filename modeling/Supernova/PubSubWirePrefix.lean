/-
Prefix exactness of the decoder: an accepted datagram is accepted because of
the bytes that were consumed, all of them and no others.
-/
import Supernova.PubSubReceived
import Supernova.PubSubWireReads

namespace Supernova

namespace PubSub

open Scanner

def Refused (data : Bytes) : Prop :=
  ∃ diagnostic c, decodeDatagram data = .error diagnostic c

/-- The first `n` bytes decide that the datagram is accepted as `out`: fewer of
them are refused, and whatever follows them changes nothing. -/
structure DecidedBy (n : Nat) (data : Bytes) (out : NetworkMessage) : Prop where
  le_length : n ≤ data.length
  shorter : ∀ cut, cut <+: data → cut.length < n → Refused cut
  same : ∀ data', n ≤ data'.length → data'.take n = data.take n →
    ∃ c, decodeDatagram data' = .ok out c

theorem exact_messages (writerIds : List UInt16) : Exact (decodeMessages writerIds) := by
  induction writerIds with
  | nil => exact exact_pure []
  | cons writerId writerIds ih =>
      exact (exact_dataSetMessage writerId).bind fun _ => ih.bind fun _ => exact_pure _

theorem exact_networkMessage : Exact decodeNetworkMessage :=
  Exact.bind (Consumes.exact consumes_networkHeader) fun header =>
    (exact_messages header.writerIds).bind fun _ => exact_pure _

theorem decidedBy_of_reads {xs r : Bytes} {out : NetworkMessage}
    (h : Reads decodeNetworkMessage xs out) : DecidedBy xs.length (xs ++ r) out where
  le_length := by simp
  shorter cut hcut hshort := by
    have hprefix : cut <+: xs :=
      List.prefix_of_prefix_length_le hcut (List.prefix_append xs r) hshort.le
    exact Exact.refuses_shorter exact_networkMessage h hprefix hshort {}
  same data' hlength hsame := by
    rw [List.take_left] at hsame
    obtain ⟨k, hrun⟩ := h (data'.drop xs.length) {}
    rw [← hsame, List.length_take_of_le hlength, List.take_append_drop] at hrun
    exact ⟨_, hrun⟩

/-- At most one number of bytes decides. -/
theorem DecidedBy.unique {n n' : Nat} {data : Bytes} {out out' : NetworkMessage}
    (h : DecidedBy n data out) (h' : DecidedBy n' data out') : n = n' := by
  have hle : ∀ {n n' : Nat} {out out' : NetworkMessage}, DecidedBy n data out →
      DecidedBy n' data out' → n ≤ n' := by
    intro n n' out out' h h'
    by_contra hlt
    obtain ⟨c, hok⟩ := h'.same (data.take n') (by simp [h'.le_length]) (by simp)
    obtain ⟨diagnostic, c', herror⟩ :=
      h.shorter (data.take n') (List.take_prefix n' data) (by simp; omega)
    rw [hok] at herror
    cases herror
  exact Nat.le_antisymm (hle h h') (hle h' h)

/-- What an accepted datagram decodes to is decided by the bytes consumed, and
an encoded message is consumed as a whole. -/
theorem decodeDatagram_prefixExact :
    (∀ data out c, decodeDatagram data = .ok out c → ∃ n, DecidedBy n data out) ∧
    ∀ message bytes, encodeNetworkMessage message = .ok bytes →
      (∀ d ∈ message.messages, d.fits = true) →
      ∃ out, DecidedBy bytes.length bytes out := by
  constructor
  · intro data out c h
    obtain ⟨xs, hxs, hreads⟩ := exact_networkMessage _ out c h
    simp only at hxs
    rw [hxs]
    exact ⟨xs.length, decidedBy_of_reads hreads⟩
  · intro message bytes hbytes hfits
    have hdecided := decidedBy_of_reads (r := []) (reads_networkMessage hbytes hfits)
    rw [List.append_nil] at hdecided
    exact ⟨message.received, hdecided⟩

end PubSub

end Supernova
