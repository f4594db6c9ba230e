/-
How many wire values a datagram can make the decoder build, whether it is
accepted or refused.  Every value costs the byte that carries it, except the
elements of a Null array, which have no bytes and are limited in number.
-/
import Supernova.PubSubWireReads

namespace Supernova

namespace PubSub

open Scanner

/-- The bytes left and the values built never exceed what was there before;
each byte read pays for one value and for 200000 elements of a Null array. -/
structure Bounded (c c' : Cursor UInt8 Built) : Prop where
  values : c'.account.values + c'.rest.length ≤ c.account.values + c.rest.length
  nullElements : c'.account.nullElements + 200000 * c'.rest.length ≤
    c.account.nullElements + 200000 * c.rest.length

theorem Bounded.refl (c : Cursor UInt8 Built) : Bounded c c :=
  ⟨Nat.le_refl _, Nat.le_refl _⟩

theorem Bounded.trans (c₁ c₂ c₃ : Cursor UInt8 Built) (h : Bounded c₁ c₂)
    (h' : Bounded c₂ c₃) : Bounded c₁ c₃ :=
  ⟨Nat.le_trans h'.values h.values, Nat.le_trans h'.nullElements h.nullElements⟩

/-- A part that builds nothing is bounded. -/
theorem keeps_of_consumes {α : Type} {p : Reader α} {n : Nat} (hp : Consumes n p) :
    Keeps Bounded p := by
  intro c
  have haccount := hp.account c
  have hrest := hp.rest_le c
  constructor
  · rw [haccount]
    omega
  · rw [haccount]
    omega

/-- Every value costs a byte, except for up to `n` elements of a Null array. -/
structure Grows (n : Nat) (c c' : Cursor UInt8 Built) : Prop where
  rest : c'.rest.length ≤ c.rest.length
  values : c'.account.values + c'.rest.length ≤ c.account.values + c.rest.length
  nullElements : c'.account.nullElements ≤ c.account.nullElements + n

theorem Grows.refl (n : Nat) (c : Cursor UInt8 Built) : Grows n c c :=
  ⟨Nat.le_refl _, Nat.le_refl _, Nat.le_add_right _ n⟩

theorem Grows.trans {m n : Nat} {c₁ c₂ c₃ : Cursor UInt8 Built} (h : Grows m c₁ c₂)
    (h' : Grows n c₂ c₃) : Grows (n + m) c₁ c₃ where
  rest := Nat.le_trans h'.rest h.rest
  values := Nat.le_trans h'.values h.values
  nullElements := by
    have hm := h.nullElements
    have hn := h'.nullElements
    omega

theorem Grows.mono {m n : Nat} (hmn : m ≤ n) {c c' : Cursor UInt8 Built}
    (h : Grows m c c') : Grows n c c' :=
  ⟨h.rest, h.values, Nat.le_trans h.nullElements (Nat.add_le_add_left hmn _)⟩

theorem grows_of_consumes {α : Type} {p : Reader α} {n : Nat} (hp : Consumes n p)
    (c : Cursor UInt8 Built) : Grows 0 c (finalCursor (p c)) where
  rest := hp.rest_le c
  values := (keeps_of_consumes hp c).values
  nullElements := by rw [hp.account c, Nat.add_zero]

theorem grows_bind {α δ : Type} {p : Reader α} {f : α → Reader δ} {m n : Nat}
    {c : Cursor UInt8 Built} (hp : Grows m c (finalCursor (p c)))
    (hf : ∀ a c₁, p c = .ok a c₁ → Grows n c₁ (finalCursor (f a c₁))) :
    Grows (n + m) c (finalCursor ((p >>= f) c)) := by
  cases hrun : p c with
  | error e c₁ =>
      rw [hrun, finalCursor_error] at hp
      rw [finalCursor_bind_of_error hrun]
      exact hp.mono (Nat.le_add_left m n)
  | ok a c₁ =>
      rw [hrun, finalCursor_ok] at hp
      rw [finalCursor_bind_of_ok hrun]
      exact hp.trans (hf a c₁ hrun)

/-- One element costs a byte, or is one more element of a Null array. -/
theorem decodeElement_grows (elementType : UInt8) (c : Cursor UInt8 Built) :
    Grows 1 c (finalCursor (decodeElement elementType c)) := by
  have hscalar := consumes_scalarBody elementType
  have hbody := grows_of_consumes hscalar c
  rw [decodeElement]
  cases hrun : decodeScalarBody elementType c with
  | error e c₁ =>
      rw [hrun, finalCursor_error] at hbody
      rw [finalCursor_bind_of_error hrun]
      exact hbody.mono (Nat.zero_le 1)
  | ok element c₁ =>
      have haccount := hscalar.account c
      have hreads := hscalar.reads c element c₁ hrun
      rw [hrun, finalCursor_ok] at haccount
      rw [finalCursor_bind_of_ok hrun]
      by_cases hnull : BuiltinType.ofCode elementType = .null
      · simp only [hnull, if_true] at hreads
        constructor <;>
          simp only [bind_apply, chargeElement, charge, pure_apply, finalCursor_ok,
            haccount, hnull, if_true] <;> omega
      · simp only [hnull, if_false] at hreads
        constructor <;>
          simp only [bind_apply, chargeElement, charge, pure_apply, finalCursor_ok,
            haccount, hnull, if_false] <;> omega

/-- The element loop, by induction on the number of its turns. -/
theorem decodeElement_times_grows (elementType : UInt8) (n : Nat)
    (c : Cursor UInt8 Built) :
    Grows n c (finalCursor (Scanner.times n (decodeElement elementType) c)) := by
  induction n generalizing c with
  | zero => exact Grows.refl 0 c
  | succ n ih =>
      apply grows_bind (decodeElement_grows elementType c)
      intro element c₁ _
      have hrest := grows_bind (n := 0) (ih c₁)
        fun elements c₂ _ => grows_of_consumes (consumes_pure (element :: elements)) c₂
      rwa [Nat.zero_add] at hrest

theorem decodeElements_grows (elementType : UInt8) (length : Int)
    (c : Cursor UInt8 Built) :
    Grows 1000000 c (finalCursor (decodeElements elementType length c)) := by
  unfold decodeElements
  split
  · split
    · exact Grows.refl _ c
    · apply (decodeElement_times_grows elementType length.toNat c).mono
      omega
  · exact Grows.refl _ c

/-- An array reads four bytes before its first element. -/
theorem decodeArray_grows (elementType : UInt8) (c : Cursor UInt8 Built) :
    Grows 0 c (finalCursor (decodeArray elementType c)) ∨
      Grows 1000000 c (finalCursor (decodeArray elementType c)) ∧
        (finalCursor (decodeArray elementType c)).rest.length + 4 ≤ c.rest.length := by
  have hlength := consumes_u32 "truncated array length"
  have hstart := grows_of_consumes hlength c
  rw [decodeArray]
  cases hrun : Reader.u32 "truncated array length" c with
  | error e c₁ =>
      rw [hrun, finalCursor_error] at hstart
      rw [finalCursor_bind_of_error hrun]
      exact Or.inl hstart
  | ok rawLength c₁ =>
      rw [hrun, finalCursor_ok] at hstart
      have hpaid := hlength.reads c rawLength c₁ hrun
      rw [finalCursor_bind_of_ok hrun]
      have hloop := grows_bind (n := 0)
        (decodeElements_grows elementType (toSigned 32 rawLength.toNat) c₁)
        fun elements c₂ _ => grows_of_consumes
          (consumes_pure (WireValue.makeArray (BuiltinType.ofCode elementType) elements)) c₂
      exact Or.inr ⟨hstart.trans hloop,
        Nat.le_trans (Nat.add_le_add_right hloop.rest 4) hpaid⟩

/-- Behind the mask a value builds no more than the bytes that it reads, Null
elements apart. -/
theorem decodeVariantBody_values (mask : UInt8) (c : Cursor UInt8 Built) :
    (finalCursor (decodeVariantBody mask c)).account.values +
        (finalCursor (decodeVariantBody mask c)).rest.length ≤
      c.account.values + c.rest.length := by
  unfold decodeVariantBody
  split
  · exact Nat.le_refl _
  · split
    · rcases decodeArray_grows (mask &&& 0x3F) c with hgrows | ⟨hgrows, -⟩
      · exact hgrows.values
      · exact hgrows.values
    · exact (keeps_of_consumes (consumes_scalarBody _) c).values

/-- The mask and the length of an array are five bytes, which pay for all the
elements that the limit allows. -/
theorem keeps_variant : Keeps Bounded decodeVariant := by
  intro c
  have hmask := consumes_u8 "truncated variant mask"
  have hstart := keeps_of_consumes hmask c
  rw [decodeVariant]
  cases hrun : Reader.u8 "truncated variant mask" c with
  | error e c₁ =>
      rw [hrun, finalCursor_error] at hstart
      rw [finalCursor_bind_of_error hrun]
      exact hstart
  | ok mask c₁ =>
      have hpaid := hmask.reads c mask c₁ hrun
      have haccount := hmask.account c
      rw [hrun, finalCursor_ok] at hstart haccount
      rw [finalCursor_bind_of_ok hrun]
      refine ⟨Nat.le_trans (decodeVariantBody_values mask c₁) hstart.values, ?_⟩
      have hnull := hstart.nullElements
      unfold decodeVariantBody
      split
      · exact hnull
      · split
        · rcases decodeArray_grows (mask &&& 0x3F) c₁ with hgrows | ⟨hgrows, hmore⟩
          · have hrest := hgrows.rest
            have hgrown := hgrows.nullElements
            omega
          · have hgrown := hgrows.nullElements
            rw [haccount] at hgrown
            omega
        · exact Nat.le_trans
            (keeps_of_consumes (consumes_scalarBody (mask &&& 0x3F)) c₁).nullElements hnull

theorem keeps_bind {α δ : Type} {p : Reader α} {f : α → Reader δ}
    (hp : Keeps Bounded p) (hf : ∀ a, Keeps Bounded (f a)) : Keeps Bounded (p >>= f) :=
  hp.bind Bounded.trans hf

theorem keeps_return {α : Type} (a : α) : Keeps Bounded (pure a : Reader α) :=
  keeps_pure Bounded.refl a

theorem keeps_refuse {α : Type} (e : String) : Keeps Bounded (throw e : Reader α) :=
  keeps_throw Bounded.refl e

/-- Success leaves a byte over that pays for one more value. -/
structure Pays {α : Type} (p : Reader α) : Prop where
  keeps : Keeps Bounded p
  pays : ∀ c a c', p c = .ok a c' →
    c'.account.values + c'.rest.length + 1 ≤ c.account.values + c.rest.length

theorem pays_variant : Pays decodeVariant where
  keeps := keeps_variant
  pays c v c' h := by
    obtain ⟨mask, c₁, h₁, h₂⟩ := bind_eq_ok.1 h
    have hmask := consumes_u8 "truncated variant mask"
    have hpaid := hmask.reads c mask c₁ h₁
    have haccount := hmask.account c
    have hvalues := decodeVariantBody_values mask c₁
    rw [h₁, finalCursor_ok] at haccount
    rw [h₂, finalCursor_ok, haccount] at hvalues
    omega

theorem Consumes.pays_bind {α δ : Type} {p : Reader α} {f : α → Reader δ}
    (hp : Consumes 1 p) (hf : ∀ a, Keeps Bounded (f a)) : Pays (p >>= f) where
  keeps := keeps_bind (keeps_of_consumes hp) hf
  pays c d c' h := by
    obtain ⟨a, c₁, h₁, h₂⟩ := bind_eq_ok.1 h
    have hpaid := hp.reads c a c₁ h₁
    have haccount := hp.account c
    have hvalues := (hf a c₁).values
    rw [h₁, finalCursor_ok] at haccount
    rw [h₂, finalCursor_ok, haccount] at hvalues
    omega

/-- A DataValue starts with a mask, which pays for the field that it fills. -/
theorem pays_dataValueField : Pays decodeDataValueField := by
  apply Consumes.pays_bind (consumes_u8 _)
  intro mask
  have htail := fun value => keeps_of_consumes (consumes_dataValueTail mask value)
  dsimp only
  split
  · exact keeps_bind keeps_variant htail
  · exact keeps_bind (keeps_return _) htail

/-- Storing a field is paid by the byte that its value left over. -/
theorem Pays.keeps_stored {p : Reader WireValue} (hp : Pays p) :
    Keeps Bounded (p >>= fun value => do
      Scanner.charge fun built => { built with values := built.values + 1 }
      pure value) := by
  intro c
  have hkeeps := hp.keeps c
  cases hrun : p c with
  | error e c₁ =>
      rw [hrun, finalCursor_error] at hkeeps
      rw [finalCursor_bind_of_error hrun]
      exact hkeeps
  | ok value c₁ =>
      have hpays := hp.pays c value c₁ hrun
      rw [hrun, finalCursor_ok] at hkeeps
      rw [finalCursor_bind_of_ok hrun]
      have hnull := hkeeps.nullElements
      constructor
      · simp only [bind_apply, charge, pure_apply, finalCursor_ok]
        omega
      · exact hnull

theorem keeps_field (fieldEncoding : UInt8) : Keeps Bounded (decodeField fieldEncoding) := by
  unfold decodeField
  split
  · exact Pays.keeps_stored pays_variant
  · exact Pays.keeps_stored pays_dataValueField

theorem keeps_fields (fieldEncoding : UInt8) :
    Keeps Bounded (decodeFields fieldEncoding) := by
  apply keeps_bind (keeps_of_consumes (consumes_u16 _))
  intro fieldCount
  exact (keeps_field fieldEncoding).times Bounded.refl Bounded.trans _

theorem keeps_dataSetMessage (dataSetWriterId : UInt16) :
    Keeps Bounded (decodeDataSetMessage dataSetWriterId) := by
  apply keeps_bind (keeps_of_consumes consumes_dataSetFlags)
  intro flags
  apply keeps_bind (keeps_of_consumes (consumes_dataSetHeader flags))
  intro sequenceNumber
  dsimp only
  split
  · exact keeps_return _
  · split
    · exact keeps_refuse _
    · split
      · exact keeps_refuse _
      · exact keeps_bind (keeps_fields _) fun _ => keeps_return _

theorem keeps_messages (writerIds : List UInt16) :
    Keeps Bounded (decodeMessages writerIds) := by
  induction writerIds with
  | nil => exact keeps_return []
  | cons writerId writerIds ih =>
      exact keeps_bind (keeps_dataSetMessage writerId) fun _ =>
        keeps_bind ih fun _ => keeps_return _

theorem keeps_networkMessage : Keeps Bounded decodeNetworkMessage := by
  apply keeps_bind (keeps_of_consumes consumes_networkHeader)
  intro header
  exact keeps_bind (keeps_messages header.writerIds) fun _ => keeps_return _

/-- All values that the account has counted. -/
def Built.total (built : Built) : Nat := built.values + built.nullElements

/-- The value itself and the elements that it holds. -/
def WireValue.valueCount (v : WireValue) : Nat := v.elements.length + 1

def DataSetMessage.valueCount (message : DataSetMessage) : Nat :=
  (message.fields.map WireValue.valueCount).sum

/-- All fields of all messages and all elements of all arrays. -/
def NetworkMessage.valueCount (message : NetworkMessage) : Nat :=
  (message.messages.map DataSetMessage.valueCount).sum

section Tally

/-- The account counts elements and fields, so a value counts its elements
until it is stored. -/
theorem tallies_scalarBody (type : UInt8) :
    Tallies Built.total (fun v => v.elements.length) (decodeScalarBody type) := by
  unfold decodeScalarBody
  split
  · exact tallies_pure rfl
  · exact (consumes_u8 _).tallies.map fun _ => rfl
  · exact (consumes_u8 _).tallies.map fun _ => rfl
  · exact (consumes_u8 _).tallies.map fun _ => rfl
  · exact (consumes_u16 _).tallies.map fun _ => rfl
  · exact (consumes_u16 _).tallies.map fun _ => rfl
  · exact (consumes_u32 _).tallies.map fun _ => rfl
  · exact (consumes_u32 _).tallies.map fun _ => rfl
  · exact (consumes_u64 _).tallies.map fun _ => rfl
  · exact (consumes_u64 _).tallies.map fun _ => rfl
  · exact (consumes_u32 _).tallies.map fun _ => rfl
  · exact (consumes_u64 _).tallies.map fun _ => rfl
  · exact (consumes_str _).tallies.map fun _ => rfl
  · exact (consumes_u64 _).tallies.map fun _ => rfl
  · exact tallies_throw _ _

theorem tallies_element (elementType : UInt8) :
    Tallies Built.total (fun _ => 1) (decodeElement elementType) := by
  apply (consumes_scalarBody elementType).bind_tallies
  intro element c v c' h
  obtain ⟨u, c₁, h₁, h₂⟩ := bind_eq_ok.1 h
  cases h₁
  cases h₂
  by_cases hnull : BuiltinType.ofCode elementType = .null
  · simp only [Built.total, hnull, if_true]
    omega
  · simp only [Built.total, hnull, if_false]
    omega

theorem tallies_elements (elementType : UInt8) (length : Int) :
    Tallies Built.total List.length (decodeElements elementType length) := by
  have htimes := fun n => (tallies_element elementType).times n
  simp only [List.map_const', List.sum_replicate_nat, Nat.mul_one] at htimes
  unfold decodeElements
  split
  · split
    · exact tallies_throw _ _
    · exact htimes _
  · exact tallies_pure rfl

theorem tallies_array (elementType : UInt8) :
    Tallies Built.total (fun v => v.elements.length) (decodeArray elementType) := by
  apply (consumes_u32 _).bind_tallies
  intro rawLength
  exact (tallies_elements elementType _).map fun _ => rfl

theorem tallies_variant :
    Tallies Built.total (fun v => v.elements.length) decodeVariant := by
  apply (consumes_u8 _).bind_tallies
  intro mask
  unfold decodeVariantBody
  split
  · exact tallies_throw _ _
  · split
    · exact tallies_array _
    · exact tallies_scalarBody _

theorem tallies_dataValueTail (mask : UInt8) {p : Reader WireValue}
    (hp : Tallies Built.total (fun v => v.elements.length) p) :
    Tallies Built.total (fun v => v.elements.length) (p >>= decodeDataValueTail mask) := by
  apply hp.bind
  intro value c v c' h
  have haccount := (consumes_dataValueTail mask value).account c
  rw [h, finalCursor_ok] at haccount
  have hvalue : v = value := by
    unfold decodeDataValueTail at h
    iterate 5 obtain ⟨_, _, -, h⟩ := bind_eq_ok.1 h
    cases h
    rfl
  rw [haccount, hvalue]

theorem tallies_dataValueField :
    Tallies Built.total (fun v => v.elements.length) decodeDataValueField := by
  apply (consumes_u8 _).bind_tallies
  intro mask
  dsimp only
  split
  · exact tallies_dataValueTail mask tallies_variant
  · exact tallies_dataValueTail mask (tallies_pure rfl)

/-- Storing a field counts the value itself. -/
theorem tallies_stored {p : Reader WireValue}
    (hp : Tallies Built.total (fun v => v.elements.length) p) :
    Tallies Built.total WireValue.valueCount (p >>= fun value => do
      Scanner.charge fun built => { built with values := built.values + 1 }
      pure value) := by
  apply hp.bind
  intro value c v c' h
  obtain ⟨u, c₁, h₁, h₂⟩ := bind_eq_ok.1 h
  cases h₁
  cases h₂
  simp only [Built.total, WireValue.valueCount]
  omega

theorem tallies_fields (fieldEncoding : UInt8) :
    Tallies Built.total (fun fields => (fields.map WireValue.valueCount).sum)
      (decodeFields fieldEncoding) := by
  apply (consumes_u16 _).bind_tallies
  intro fieldCount
  have hfield : Tallies Built.total WireValue.valueCount (decodeField fieldEncoding) := by
    unfold decodeField
    split
    · exact tallies_stored tallies_variant
    · exact tallies_stored tallies_dataValueField
  exact hfield.times _

theorem tallies_dataSetMessage (dataSetWriterId : UInt16) :
    Tallies Built.total DataSetMessage.valueCount
      (decodeDataSetMessage dataSetWriterId) := by
  apply Consumes.bind_tallies consumes_dataSetFlags
  intro flags
  apply (consumes_dataSetHeader flags).bind_tallies
  intro sequenceNumber
  dsimp only
  split
  · exact tallies_pure rfl
  · split
    · exact tallies_throw _ _
    · split
      · exact tallies_throw _ _
      · exact (tallies_fields _).map fun _ => rfl

theorem tallies_messages (writerIds : List UInt16) :
    Tallies Built.total (fun messages => (messages.map DataSetMessage.valueCount).sum)
      (decodeMessages writerIds) := by
  induction writerIds with
  | nil => exact tallies_pure rfl
  | cons writerId writerIds ih => exact (tallies_dataSetMessage writerId).cons ih

/-- For an accepted datagram the account is what the message holds. -/
theorem tallies_networkMessage :
    Tallies Built.total NetworkMessage.valueCount decodeNetworkMessage := by
  apply Consumes.bind_tallies consumes_networkHeader
  intro header
  exact (tallies_messages header.writerIds).map fun _ => rfl

end Tally

/-- Whether a datagram is accepted or refused, the decoder stores at most one
value for each byte, apart from the elements of Null arrays, of which there are
at most 200000 for each byte; an accepted message holds what was stored. -/
theorem decodeDatagram_bounded (data : Bytes) :
    (finalCursor (decodeDatagram data)).account.values ≤ data.length ∧
      (finalCursor (decodeDatagram data)).account.nullElements ≤ 200000 * data.length ∧
      ∀ out c, decodeDatagram data = .ok out c →
        out.valueCount = c.account.values + c.account.nullElements := by
  have hbounded := keeps_networkMessage ⟨data, {}⟩
  have hvalues := hbounded.values
  have hnull := hbounded.nullElements
  dsimp only at hvalues hnull
  unfold decodeDatagram
  refine ⟨by omega, by omega, ?_⟩
  intro out c hrun
  have htotal := tallies_networkMessage ⟨data, {}⟩ out c hrun
  simp only [Built.total] at htotal
  omega

/-- One message with one field: a Null array that announces 20 elements. -/
def nullArrayDatagram : Bytes := [1, 1, 1, 0, 0x80, 20, 0, 0, 0]

/-- Nine bytes make the decoder build 21 values. -/
theorem nullArrayDatagram_exceeds :
    nullArrayDatagram.length < (finalCursor (decodeDatagram nullArrayDatagram)).account.total := by
  decide +kernel

end PubSub

end Supernova
