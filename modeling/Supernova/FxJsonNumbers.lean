/-
The numbers of the JSON parser: it reads exactly the number grammar, and the
stream that converts the text finds the double that the number denotes.
-/
import Mathlib.Tactic.FieldSimp
import Supernova.FxJsonGrammar

namespace Supernova

namespace Fx

open BinaryFormat TextParser

section Conversion

/-- What may stand behind a number: no byte that would continue it. -/
def EndsNumber (r : Bytes) : Prop :=
  isDigit (r.headD 0) = false ∧ r.headD 0 ≠ 46 ∧ r.headD 0 ≠ 101 ∧ r.headD 0 ≠ 69

theorem endsNumber_nil : EndsNumber [] := by
  refine ⟨?_, ?_, ?_, ?_⟩ <;> decide

/-- Behind the whole part, or behind the fraction, no digit follows. -/
theorem exponentText_headD (exponent : Option Exponent) {r : Bytes} (hr : EndsNumber r) :
    isDigit ((exponentText exponent ++ r).headD 0) = false ∧
      (exponentText exponent ++ r).headD 0 ≠ 46 := by
  rcases exponent with _ | e
  · exact ⟨hr.1, hr.2.1⟩
  · rcases e.mark_eq with hmark | hmark
    · simp [exponentText, Exponent.text, hmark, isDigit]
    · simp [exponentText, Exponent.text, hmark, isDigit]

theorem fractionText_headD (fraction : Option Bytes) (exponent : Option Exponent) {r : Bytes}
    (hr : EndsNumber r) :
    isDigit ((fractionText fraction ++ (exponentText exponent ++ r)).headD 0) = false := by
  rcases fraction with _ | ds
  · exact (exponentText_headD exponent hr).1
  · rfl

/-- The first byte of the whole part is a digit. -/
theorem Numeral.whole_cons (n : Numeral) :
    ∃ c ds, n.whole = c :: ds ∧ ∀ d ∈ c :: ds, isDigit d = true := by
  rcases n.whole_digits with hzero | ⟨⟨hne, hall⟩, -⟩
  · exact ⟨48, [], hzero, fun d hd => by rw [List.mem_singleton.mp hd]; rfl⟩
  · obtain ⟨c, ds, hcons⟩ := List.exists_cons_of_ne_nil hne
    exact ⟨c, ds, hcons, hcons ▸ hall⟩

theorem Numeral.whole_isDigit (n : Numeral) : ∀ c ∈ n.whole, isDigit c = true := by
  obtain ⟨c, ds, hcons, hall⟩ := n.whole_cons
  exact hcons ▸ hall

theorem decimalMagnitude_unsignedText (n : Numeral) :
    decimalMagnitude n.unsignedText = n.magnitude := by
  have hends := fractionText_headD n.fraction n.exponent endsNumber_nil
  rw [List.append_nil] at hends
  have hwhole := takeWhile_isDigit_append n.whole_isDigit hends
  have hbehind := dropWhile_isDigit_append n.whole_isDigit hends
  have hexponent := exponentText_headD n.exponent endsNumber_nil
  rw [List.append_nil] at hexponent
  have hpower : (let exponent := (exponentText n.exponent).tail
      if exponent.head? = some 45 then -(digitsValue exponent.tail : Int)
      else if exponent.head? = some 43 then digitsValue exponent.tail
      else digitsValue exponent) = n.exponent.elim 0 Exponent.power := by
    rcases n.exponent with _ | e
    · rfl
    · obtain ⟨hne, hall⟩ := e.digits_digits
      obtain ⟨c, ds, hcons⟩ := List.exists_cons_of_ne_nil hne
      have hc : isDigit c = true := hall c (hcons ▸ List.mem_cons_self)
      have hminus : c ≠ 45 := by rintro rfl; simp [isDigit] at hc
      have hplus : c ≠ 43 := by rintro rfl; simp [isDigit] at hc
      rcases e.sign_eq with hsign | hsign | hsign
      · simp [exponentText, Exponent.text, Exponent.power, hsign, hcons, hminus, hplus]
      · simp [exponentText, Exponent.text, Exponent.power, hsign]
      · simp [exponentText, Exponent.text, Exponent.power, hsign]
  simp only [decimalMagnitude, Numeral.unsignedText, hwhole, hbehind, Numeral.magnitude,
    ← hpower]
  rcases hfraction : n.fraction with _ | ds
  · have hhead : (exponentText n.exponent).head? ≠ some 46 := by
      intro hhead
      apply hexponent.2
      rw [List.headD_eq_head?_getD, hhead]
      rfl
    simp [fractionText, hhead]
  · have hall := (n.fraction_digits ds hfraction).2
    have htake := takeWhile_isDigit_append hall hexponent.1
    have hdrop := dropWhile_isDigit_append hall hexponent.1
    simp only [fractionText, Option.elim_some, List.cons_append, List.head?_cons, if_true,
      List.tail_cons, htake, hdrop, digitsValue_append]
    rw [zpow_sub₀ (by norm_num)]
    push_cast
    rw [zpow_natCast]
    field_simp

/-- The stream finds the double that the number denotes, or overflows. -/
theorem extractDouble_text (n : Numeral) (value : Double) :
    extractDouble n.text = some value ↔ n.Denotes value := by
  obtain ⟨c, ds, hcons, hall⟩ := n.whole_cons
  have hc : isDigit c = true := hall c List.mem_cons_self
  have hminus : c ≠ 45 := by rintro rfl; simp [isDigit] at hc
  have hunsigned : n.unsignedText.head? = some c := by
    simp [Numeral.unsignedText, hcons]
  have hhead : (n.text.head? = some 45) ↔ n.negative = true := by
    rcases hnegative : n.negative with _ | _
    · simp [Numeral.text, signText, hnegative, hunsigned, hminus]
    · simp [Numeral.text, signText, hnegative]
  have htail : (if n.negative = true then n.text.tail else n.text) = n.unsignedText := by
    rcases hnegative : n.negative with _ | _
    · simp [Numeral.text, signText, hnegative]
    · simp [Numeral.text, signText, hnegative]
  have hsign : decide (n.text.head? = some 45) = n.negative := by
    simp only [hhead, Bool.decide_eq_true]
  simp only [extractDouble, hsign, htail, decimalMagnitude_unsignedText]
  split
  · rename_i hfinite
    simp [Numeral.Denotes, hfinite, eq_comm]
  · rename_i hinfinite
    simp [Numeral.Denotes, hinfinite]

end Conversion

section Scanning

variable (size : Nat) (start : Bytes)

theorem accepts_skipSign : skipSign.Accepts (fun x _ => ∃ negative, x = signText negative)
    fun r => r.headD 0 ≠ 45 where
  complete := by
    rintro _ _ r ⟨negative, rfl⟩ hr
    simp only [skipSign, parses_peek_bind]
    rcases negative with _ | _
    · simp only [signText, Bool.false_eq_true, if_false, List.nil_append, if_neg hr]
      exact parses_pure.2 ⟨rfl, rfl⟩
    · simp [signText]
  sound := by
    intro s x r h
    simp only [skipSign, parses_peek_bind] at h
    split at h
    · rename_i hhead
      rcases s with _ | ⟨c, s⟩
      · simp at hhead
      · simp only [List.headD_cons] at hhead
        rw [parses_advance.1 h, hhead]
        exact ⟨[45], rfl, true, rfl⟩
    · rw [(parses_pure.1 h).2]
      exact ⟨[], rfl, false, rfl⟩

theorem accepts_skipDigits :
    skipDigits.Accepts (fun x _ => ∀ c ∈ x, isDigit c = true)
      fun r => isDigit (r.headD 0) = false where
  complete x _ r hx hr := by
    rw [parses_skipDigits, dropWhile_isDigit_append hx hr]
  sound s _ r h := by
    rw [parses_skipDigits.1 h]
    exact ⟨s.takeWhile isDigit, List.takeWhile_append_dropWhile.symm,
      fun _ hc => List.mem_takeWhile_imp hc⟩

/-- At a digit, the digits are not empty. -/
theorem exists_digits {s r : Bytes} {x : PUnit} (hhead : isDigit (s.headD 0) = true)
    (h : skipDigits.Parses s x r) :
    ∃ ds, s = ds ++ r ∧ Digits ds ∧ ds.head? = some (s.headD 0) := by
  obtain ⟨ds, rfl, hds⟩ := accepts_skipDigits.sound s x r h
  rcases ds with _ | ⟨c, ds⟩
  · have hr : r.headD 0 ≠ r.headD 0 := by
      have hdrop := parses_skipDigits.1 h
      rcases r with _ | ⟨c, r⟩
      · simp [isDigit] at hhead
      · simp only [List.nil_append, List.headD_cons] at hhead hdrop
        rw [List.dropWhile_cons_of_pos hhead] at hdrop
        have hlength := congrArg List.length hdrop
        have hle := List.length_dropWhile_le isDigit r
        simp only [List.length_cons] at hlength
        omega
    exact absurd rfl hr
  · exact ⟨c :: ds, rfl, ⟨List.cons_ne_nil c ds, hds⟩, rfl⟩

theorem accepts_skipWhole : (skipWhole size start).Accepts
    (fun x _ => x = [48] ∨ (Digits x ∧ x.head? ≠ some 48))
    fun r => isDigit (r.headD 0) = false where
  complete := by
    rintro x ⟨⟩ r (rfl | ⟨⟨hne, hall⟩, hhead⟩) hr
    · simp [skipWhole]
    · obtain ⟨c, ds, rfl⟩ := List.exists_cons_of_ne_nil hne
      have hc : c ≠ 48 := by simpa using hhead
      simp only [skipWhole, parses_peek_bind, List.cons_append, List.headD_cons, if_neg hc,
        hall c List.mem_cons_self, if_true]
      exact accepts_skipDigits.complete _ _ r hall hr
  sound := by
    intro s x r h
    simp only [skipWhole, parses_peek_bind] at h
    split at h
    · rename_i hhead
      rcases s with _ | ⟨c, s⟩
      · simp at hhead
      · simp only [List.headD_cons] at hhead
        rw [parses_advance.1 h, hhead]
        exact ⟨[48], rfl, .inl rfl⟩
    split at h
    · rename_i hzero hdigit
      obtain ⟨ds, hs, hds, hhead⟩ := exists_digits hdigit h
      refine ⟨ds, hs, .inr ⟨hds, ?_⟩⟩
      rw [hhead]
      simpa using hzero
    · exact ((parses_failAt size).mp h).elim

theorem accepts_skipFraction : (skipFraction size).Accepts
    (fun x _ => ∃ fraction : Option Bytes, (∀ ds ∈ fraction, Digits ds) ∧ x = fractionText fraction)
    fun r => isDigit (r.headD 0) = false ∧ r.headD 0 ≠ 46 where
  complete := by
    rintro _ ⟨⟩ r ⟨fraction, hfraction, rfl⟩ hr
    rcases fraction with _ | ds
    · simp only [skipFraction, fractionText, Option.elim_none, List.nil_append, parses_peek_bind,
        if_neg hr.2]
      exact parses_pure.2 ⟨rfl, rfl⟩
    · obtain ⟨hne, hall⟩ := hfraction ds rfl
      obtain ⟨c, ds, rfl⟩ := List.exists_cons_of_ne_nil hne
      simp only [skipFraction, fractionText, Option.elim_some, parses_peek_bind,
        List.cons_append, List.headD_cons, if_true, parses_advance_bind, List.tail_cons,
        hall c List.mem_cons_self]
      exact accepts_skipDigits.complete _ _ r hall hr.1
  sound := by
    intro s x r h
    simp only [skipFraction, parses_peek_bind] at h
    split at h
    · rename_i hpoint
      rcases s with _ | ⟨c, s⟩
      · simp at hpoint
      simp only [List.headD_cons] at hpoint
      simp only [parses_advance_bind, List.tail_cons, parses_peek_bind] at h
      split at h
      · rename_i hdigit
        obtain ⟨ds, rfl, hds, -⟩ := exists_digits hdigit h
        refine ⟨46 :: ds, by rw [hpoint]; rfl, some ds, ?_, rfl⟩
        intro ds' hds'
        exact Option.mem_some.mp hds' ▸ hds
      · exact ((parses_fail size).mp h).elim
    · rw [(parses_pure.1 h).2]
      exact ⟨[], rfl, none, by simp, rfl⟩

theorem accepts_skipExponentSign : skipExponentSign.Accepts
    (fun x _ => ∃ sign : Option UInt8, (sign = none ∨ sign = some 43 ∨ sign = some 45) ∧
      x = sign.toList) fun r => isDigit (r.headD 0) = true where
  complete := by
    rintro _ ⟨⟩ r ⟨sign, hsign, rfl⟩ hr
    rcases hsign with rfl | rfl | rfl
    · have hplus : r.headD 0 ≠ 43 := by rintro h; rw [h] at hr; simp [isDigit] at hr
      have hminus : r.headD 0 ≠ 45 := by rintro h; rw [h] at hr; simp [isDigit] at hr
      simp only [skipExponentSign, Option.toList_none, List.nil_append, parses_peek_bind,
        hplus, hminus, or_self, if_false]
      exact parses_pure.2 ⟨rfl, rfl⟩
    · simp [skipExponentSign]
    · simp [skipExponentSign]
  sound := by
    intro s x r h
    simp only [skipExponentSign, parses_peek_bind] at h
    split at h
    · rename_i hsign
      rcases s with _ | ⟨c, s⟩
      · simp at hsign
      simp only [List.headD_cons] at hsign
      rw [parses_advance.1 h]
      exact ⟨[c], rfl, some c, by simpa using hsign, rfl⟩
    · rw [(parses_pure.1 h).2]
      exact ⟨[], rfl, none, .inl rfl, rfl⟩

theorem accepts_skipExponent : (skipExponent size).Accepts
    (fun x _ => ∃ exponent, x = exponentText exponent) EndsNumber where
  complete := by
    rintro _ ⟨⟩ r ⟨exponent, rfl⟩ hr
    rcases exponent with _ | e
    · simp only [skipExponent, exponentText, Option.elim_none, List.nil_append, parses_peek_bind,
        hr.2.2.1, hr.2.2.2, or_self, if_false]
      exact parses_pure.2 ⟨rfl, rfl⟩
    · obtain ⟨hne, hall⟩ := e.digits_digits
      obtain ⟨c, ds, hcons⟩ := List.exists_cons_of_ne_nil hne
      have hc : isDigit c = true := hall c (hcons ▸ List.mem_cons_self)
      simp only [skipExponent, exponentText, Option.elim_some, Exponent.text, parses_peek_bind,
        List.cons_append, List.headD_cons, e.mark_eq, if_true, parses_advance_bind,
        List.tail_cons, List.append_assoc]
      rw [parses_bind]
      refine ⟨⟨⟩, e.digits ++ r, ?_, ?_⟩
      · exact accepts_skipExponentSign.complete _ _ _ ⟨e.sign, e.sign_eq, rfl⟩ (by simpa [hcons] using hc)
      · simp only [parses_peek_bind, hcons, List.cons_append, List.headD_cons, hc, if_true]
        exact accepts_skipDigits.complete (c :: ds) _ r (hcons ▸ hall) hr.1
  sound := by
    intro s x r h
    simp only [skipExponent, parses_peek_bind] at h
    split at h
    · rename_i hmark
      rcases s with _ | ⟨c, s⟩
      · simp at hmark
      simp only [List.headD_cons] at hmark
      simp only [parses_advance_bind, List.tail_cons] at h
      rw [parses_bind] at h
      obtain ⟨_, s₁, hsign, h⟩ := h
      obtain ⟨_, rfl, sign, hallowed, rfl⟩ := accepts_skipExponentSign.sound _ _ _ hsign
      simp only [parses_peek_bind] at h
      split at h
      · rename_i hdigit
        obtain ⟨ds, rfl, hds, -⟩ := exists_digits hdigit h
        exact ⟨c :: (sign.toList ++ ds), by simp, some ⟨c, sign, ds, hmark, hallowed, hds⟩, rfl⟩
      · exact ((parses_fail size).mp h).elim
    · rw [(parses_pure.1 h).2]
      exact ⟨[], rfl, none, rfl⟩

/-- The parser of numbers reads exactly the numbers that denote a finite double. -/
theorem accepts_parseNumber : (parseNumber size).Accepts NumberText EndsNumber where
  complete := by
    rintro _ value r ⟨n, rfl, hvalue⟩ hr
    have hexponent := exponentText_headD n.exponent hr
    have hfraction := fractionText_headD n.fraction n.exponent hr
    obtain ⟨c, ds, hcons, hall⟩ := n.whole_cons
    have hc : isDigit c = true := hall c List.mem_cons_self
    have hminus : c ≠ 45 := by rintro rfl; simp [isDigit] at hc
    have htext : n.text ++ r = signText n.negative ++ (n.whole ++ (fractionText n.fraction ++
        (exponentText n.exponent ++ r))) := by
      simp [Numeral.text, Numeral.unsignedText]
    have hpiece : (n.text ++ r).take ((n.text ++ r).length - r.length) = n.text := by simp
    simp only [parseNumber, parses_rest_bind]
    rw [parses_bind]
    refine ⟨⟨⟩, _, htext ▸ accepts_skipSign.complete _ _ _ ⟨n.negative, rfl⟩
      (by simpa [hcons] using hminus), ?_⟩
    rw [parses_bind]
    refine ⟨⟨⟩, _, (accepts_skipWhole size _).complete _ _ _ n.whole_digits hfraction, ?_⟩
    rw [parses_bind]
    refine ⟨⟨⟩, _, (accepts_skipFraction size).complete _ _ _
      ⟨n.fraction, n.fraction_digits, rfl⟩ hexponent, ?_⟩
    rw [parses_bind]
    refine ⟨⟨⟩, _, (accepts_skipExponent size).complete _ _ _ ⟨n.exponent, rfl⟩ hr, ?_⟩
    simp only [parses_rest_bind, hpiece, (extractDouble_text n value).mpr hvalue]
    exact parses_pure.2 ⟨rfl, rfl⟩
  sound := by
    intro s value r h
    simp only [parseNumber, parses_rest_bind] at h
    rw [parses_bind] at h
    obtain ⟨_, s₁, hsign, h⟩ := h
    rw [parses_bind] at h
    obtain ⟨_, s₂, hwhole, h⟩ := h
    rw [parses_bind] at h
    obtain ⟨_, s₃, hfraction, h⟩ := h
    rw [parses_bind] at h
    obtain ⟨_, s₄, hexponent, h⟩ := h
    simp only [parses_rest_bind] at h
    obtain ⟨_, rfl, exponent, rfl⟩ := (accepts_skipExponent size).sound _ _ _ hexponent
    obtain ⟨_, rfl, fraction, hfractionDigits, rfl⟩ := (accepts_skipFraction size).sound _ _ _ hfraction
    obtain ⟨whole, rfl, hwholeDigits⟩ := (accepts_skipWhole size _).sound _ _ _ hwhole
    obtain ⟨_, rfl, negative, rfl⟩ := accepts_skipSign.sound _ _ _ hsign
    let n : Numeral := ⟨negative, whole, fraction, exponent, hwholeDigits, hfractionDigits⟩
    have htext : signText negative ++ (whole ++ (fractionText fraction ++
        (exponentText exponent ++ s₄))) = n.text ++ s₄ := by
      simp [n, Numeral.text, Numeral.unsignedText]
    have hpiece : (n.text ++ s₄).take ((n.text ++ s₄).length - s₄.length) = n.text := by simp
    rw [htext, hpiece] at h
    rcases hextract : extractDouble n.text with _ | value'
    · rw [hextract] at h
      exact ((parses_failAt size).mp h).elim
    · rw [hextract] at h
      obtain ⟨rfl, rfl⟩ := parses_pure.1 h
      exact ⟨n.text, htext, n, rfl, (extractDouble_text n value).mp hextract⟩

end Scanning

end Fx

end Supernova
