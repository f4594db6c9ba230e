/-
Which strings are network addresses.  An address is the scheme, a host, a
colon, the digits of a port and slashes; the parser accepts these strings, no
others, and its digit loop never leaves the range of an `int`.
-/
import Mathlib.Data.List.TakeWhile
import Supernova.DecimalText
import Supernova.ExceptResults
import Supernova.PubSubConfiguration

namespace Supernova

attribute [local semireducible] ByteArray.toList.loop

namespace PubSub

/-- The string that is written from a host, the digits of a port and slashes. -/
def networkAddress (host digits : Bytes) (slashes : Nat) : Bytes :=
  text "opc.udp://" ++ (host ++ colonByte :: digits) ++ List.replicate slashes slashByte

/-- An address of a host and a port: the host is what stands between the scheme
and the last colon, and the port is written in digits of any number. -/
def Addresses (address host : Bytes) (port : Nat) : Prop :=
  ∃ digits slashes, address = networkAddress host digits slashes ∧
    host ≠ [] ∧ rfind colonByte address = some ((text "opc.udp://").length + host.length) ∧
    digits ≠ [] ∧ (∀ c ∈ digits, isDigit c = true) ∧ digitsValue digits = port ∧
    1 ≤ port ∧ port ≤ 65535

/-- An integer that the code computes in an `int`. -/
def checkedInt (n : Int) : Option Int :=
  if -2 ^ 31 ≤ n ∧ n < 2 ^ 31 then some n else none

/-- The port digit loop with every integer it computes; there is no result when
one of them overflows. -/
def parsePortChecked (address : Bytes) : Int → Bytes → Option (Except Bytes Int)
  | parsed, [] => some (.ok parsed)
  | parsed, digit :: portText =>
      if digit < 48 ∨ 57 < digit then
        some (.error (text "PubSub configuration: non-numeric port in address '" ++ address ++
          text "'"))
      else do
        let scaled ← checkedInt (parsed * 10)
        let parsed ← checkedInt (scaled + (digit.toNat - 48))
        if 65535 < parsed then
          some (.error (text "PubSub configuration: port out of range in address '" ++
            address ++ text "'"))
        else parsePortChecked address parsed portText

theorem checkedInt_natCast {n : Nat} (hn : n < 2 ^ 31) : checkedInt n = some (n : Int) :=
  if_pos ⟨by omega, by exact_mod_cast hn⟩

theorem isDigit_iff {c : UInt8} : isDigit c = true ↔ ¬ (c < 48 ∨ 57 < c) := by
  rw [isDigit, Bool.and_eq_true, decide_eq_true_iff, decide_eq_true_iff, not_or,
    UInt8.not_lt, UInt8.not_lt]

theorem digit_le {c : UInt8} (hc : ¬ (c < 48 ∨ 57 < c)) : 48 ≤ c.toNat ∧ c.toNat ≤ 57 := by
  rw [not_or, UInt8.not_lt, UInt8.not_lt, UInt8.le_iff_toNat_le, UInt8.le_iff_toNat_le] at hc
  exact hc

/-- While the running value is at most the largest port, the next one fits an `int`. -/
theorem parsePortChecked_eq (address : Bytes) {parsed : Nat} (hparsed : parsed ≤ 65535)
    (portText : Bytes) : parsePortChecked address parsed portText =
      some ((parsePort address parsed portText).map fun port => (port : Int)) := by
  induction portText generalizing parsed with
  | nil => rfl
  | cons digit portText ih =>
      rw [parsePortChecked, parsePort]
      by_cases hdigit : digit < 48 ∨ 57 < digit
      · rw [if_pos hdigit, if_pos hdigit]
        rfl
      · have hle := digit_le hdigit
        have hsum : (parsed * 10 : Nat) + ((digit.toNat : Int) - 48) =
            ((parsed * 10 + (digit.toNat - 48) : Nat) : Int) := by
          omega
        have hscaled : checkedInt ((parsed : Int) * 10) = some ((parsed * 10 : Nat) : Int) := by
          exact_mod_cast checkedInt_natCast (n := parsed * 10) (by omega)
        rw [if_neg hdigit, if_neg hdigit, hscaled, Option.bind_eq_bind, Option.bind_some, hsum,
          checkedInt_natCast (by omega), Option.bind_some]
        by_cases hlarge : 65535 < parsed * 10 + (digit.toNat - 48)
        · rw [if_pos hlarge, if_pos (by exact_mod_cast hlarge)]
          rfl
        · rw [if_neg hlarge, if_neg (by exact_mod_cast hlarge), ih (by omega)]

/-- The running value of the digit loop. -/
def portValue (parsed : Nat) (portText : Bytes) : Nat :=
  portText.foldl (fun n c => 10 * n + (c.toNat - 48)) parsed

theorem le_portValue (parsed : Nat) (portText : Bytes) : parsed ≤ portValue parsed portText := by
  induction portText generalizing parsed with
  | nil => exact Nat.le_refl parsed
  | cons digit portText ih =>
      have hstep : parsed ≤ 10 * parsed + (digit.toNat - 48) := by omega
      exact hstep.trans (ih _)

/-- The early range check refuses no more than a check of the final value would. -/
theorem parsePort_eq_ok_iff (address : Bytes) {parsed : Nat} (hparsed : parsed ≤ 65535)
    (portText : Bytes) (port : Nat) : parsePort address parsed portText = .ok port ↔
      (∀ c ∈ portText, isDigit c = true) ∧ portValue parsed portText = port ∧
        port ≤ 65535 := by
  induction portText generalizing parsed with
  | nil =>
      constructor
      · intro h
        cases h
        exact ⟨by simp, rfl, hparsed⟩
      · rintro ⟨-, rfl, -⟩
        rfl
  | cons digit portText ih =>
      rw [parsePort, List.forall_mem_cons, isDigit_iff, Nat.mul_comm parsed 10]
      by_cases hdigit : digit < 48 ∨ 57 < digit
      · rw [if_pos hdigit]
        constructor
        · intro h
          cases h
        · intro h
          exact absurd hdigit h.1.1
      · rw [if_neg hdigit]
        by_cases hlarge : 65535 < 10 * parsed + (digit.toNat - 48)
        · rw [if_pos hlarge]
          constructor
          · intro h
            cases h
          · rintro ⟨-, hvalue, hport⟩
            have hle := le_portValue (10 * parsed + (digit.toNat - 48)) portText
            change portValue (10 * parsed + (digit.toNat - 48)) portText = port at hvalue
            omega
        · rw [if_neg hlarge, ih (by omega)]
          exact ⟨fun h => ⟨⟨hdigit, h.1⟩, h.2⟩, fun h => ⟨h.1.2, h.2⟩⟩

theorem withoutTrailingSlashes_append_replicate {s : Bytes} {c : UInt8} (hc : c ≠ slashByte)
    (slashes : Nat) :
    withoutTrailingSlashes (s ++ [c] ++ List.replicate slashes slashByte) = s ++ [c] := by
  rw [withoutTrailingSlashes, List.reverse_append, List.reverse_replicate,
    List.dropWhile_append_of_pos (by simp), List.reverse_append, List.reverse_singleton,
    List.singleton_append, List.dropWhile_cons_of_neg (by simp [hc]), List.reverse_cons,
    List.reverse_reverse]

theorem exists_slashes (s : Bytes) : ∃ slashes,
    s = withoutTrailingSlashes s ++ List.replicate slashes slashByte := by
  refine ⟨(s.reverse.takeWhile (· = slashByte)).length, ?_⟩
  have hall : s.reverse.takeWhile (· = slashByte) =
      List.replicate (s.reverse.takeWhile (· = slashByte)).length slashByte := by
    apply List.eq_replicate_of_mem
    intro b hb
    simpa using List.mem_takeWhile_imp hb
  rw [withoutTrailingSlashes, ← List.reverse_replicate, ← hall, ← List.reverse_append,
    List.takeWhile_append_dropWhile, List.reverse_reverse]

theorem isDigit_ne {c : UInt8} (hc : isDigit c = true) : c ≠ colonByte ∧ c ≠ slashByte := by
  constructor
  · rintro rfl
    cases hc
  · rintro rfl
    cases hc

theorem take_scheme_iff {address : Bytes} :
    address.take (text "opc.udp://").length = text "opc.udp://" ↔
      ∃ rest, address = text "opc.udp://" ++ rest := by
  rw [← List.prefix_iff_eq_take.trans eq_comm]
  exact ⟨fun ⟨rest, h⟩ => ⟨rest, h.symm⟩, fun ⟨rest, h⟩ => ⟨rest, h.symm⟩⟩

/-- The parser reads an address back as the host and the port that it was written from. -/
theorem parseNetworkAddress_networkAddress {host digits : Bytes} (slashes : Nat)
    (hhost : host ≠ []) (hdigits : digits ≠ []) (hall : ∀ c ∈ digits, isDigit c = true)
    (hpos : 1 ≤ digitsValue digits) (hle : digitsValue digits ≤ 65535) :
    parseNetworkAddress (networkAddress host digits slashes) =
      .ok (host, UInt16.ofNat (digitsValue digits)) := by
  obtain ⟨front, last, rfl⟩ := (List.eq_nil_or_concat' digits).resolve_left hdigits
  have hlast : last ≠ slashByte := (isDigit_ne (hall last (by simp))).2
  have hcolon : colonByte ∉ front ++ [last] := fun hmem => (isDigit_ne (hall _ hmem)).1 rfl
  have hrest : withoutTrailingSlashes
      ((host ++ colonByte :: (front ++ [last])) ++ List.replicate slashes slashByte) =
        host ++ colonByte :: (front ++ [last]) := by
    have h := withoutTrailingSlashes_append_replicate (s := host ++ colonByte :: front)
      hlast slashes
    simpa using h
  have hfind : rfind colonByte (host ++ colonByte :: (front ++ [last])) = some host.length :=
    rfind_eq_some_iff.2 ⟨host, front ++ [last], rfl, hcolon, rfl⟩
  have hport : parsePort (networkAddress host (front ++ [last]) slashes) 0 (front ++ [last]) =
      .ok (digitsValue (front ++ [last])) :=
    (parsePort_eq_ok_iff _ (Nat.zero_le 65535) _ _).mpr ⟨hall, rfl, hle⟩
  have hend : ¬ (host.length = 0 ∨
      host.length = (host ++ colonByte :: (front ++ [last])).length - 1) := by
    have := List.length_pos_of_ne_nil hhost
    simp only [List.length_append, List.length_cons, List.length_nil]
    omega
  have htext : (host ++ colonByte :: (front ++ [last])).drop (host.length + 1) =
      front ++ [last] := by
    rw [← List.drop_drop, List.drop_left, List.drop_one, List.tail_cons]
  have haddress : networkAddress host (front ++ [last]) slashes = text "opc.udp://" ++
      ((host ++ colonByte :: (front ++ [last])) ++ List.replicate slashes slashByte) := by
    rw [networkAddress, List.append_assoc]
  have hscheme : (networkAddress host (front ++ [last]) slashes).take
      (text "opc.udp://").length = text "opc.udp://" :=
    take_scheme_iff.2 ⟨_, haddress⟩
  have hdrop : (networkAddress host (front ++ [last]) slashes).drop
      (text "opc.udp://").length =
        (host ++ colonByte :: (front ++ [last])) ++ List.replicate slashes slashByte := by
    rw [haddress, List.drop_left]
  simp only [parseNetworkAddress]
  rw [if_neg (not_not.mpr hscheme), hdrop, hrest, hfind]
  simp only [if_neg hend, htext, hport]
  change (if digitsValue (front ++ [last]) = 0 then _ else _) = _
  rw [if_neg (by omega), List.take_left]
  rfl

/-- Whatever the parser accepts was written as an address. -/
theorem addresses_of_parseNetworkAddress {address host : Bytes} {port : UInt16}
    (h : parseNetworkAddress address = .ok (host, port)) :
    ∃ digits slashes, address = networkAddress host digits slashes ∧ host ≠ [] ∧
      digits ≠ [] ∧ (∀ c ∈ digits, isDigit c = true) ∧ digitsValue digits = port.toNat ∧
      1 ≤ port.toNat := by
  simp only [parseNetworkAddress] at h
  split at h
  · cases h
  · rename_i hscheme
    obtain ⟨rest, rfl⟩ := take_scheme_iff.1 (not_not.mp hscheme)
    rw [List.drop_left] at h
    obtain ⟨slashes, hslashes⟩ := exists_slashes rest
    generalize withoutTrailingSlashes rest = authority at h hslashes
    subst hslashes
    split at h
    · cases h
    · rename_i colon hfind
      obtain ⟨before, digits, rfl, hcolon, rfl⟩ := rfind_eq_some_iff.1 hfind
      have htext : (before ++ colonByte :: digits).drop (before.length + 1) = digits := by
        rw [← List.drop_drop, List.drop_left, List.drop_one, List.tail_cons]
      split at h
      · cases h
      · rename_i hend
        rw [htext, List.take_left] at h
        obtain ⟨parsed, hparse, h⟩ := except_bind_eq_ok.1 h
        obtain ⟨hall, rfl, hle⟩ := (parsePort_eq_ok_iff _ (Nat.zero_le 65535) _ _).mp hparse
        split at h
        · cases h
        · rename_i hzero
          cases h
          simp only [List.length_append, List.length_cons] at hend
          have hport : (UInt16.ofNat (portValue 0 digits)).toNat = portValue 0 digits :=
            UInt16.toNat_ofNat_of_lt' (Nat.lt_succ_of_le hle)
          refine ⟨digits, slashes, List.append_assoc _ _ _ |>.symm, ?_, ?_, hall, ?_, ?_⟩
          · rintro rfl
            simp at hend
          · rintro rfl
            simp at hend
          · exact hport.symm
          · omega

theorem decimal_ne_nil (n : Nat) : decimal n ≠ [] := by
  by_cases h : n < 10
  · rw [decimal_of_lt h]
    exact List.cons_ne_nil _ _
  · rw [decimal_of_le (by omega)]
    simp

/-- The host of an address ends at its last colon. -/
theorem rfind_networkAddress {digits : Bytes} (host : Bytes) (slashes : Nat)
    (hall : ∀ c ∈ digits, isDigit c = true) :
    rfind colonByte (networkAddress host digits slashes) =
      some ((text "opc.udp://").length + host.length) := by
  refine rfind_eq_some_iff.2 ⟨text "opc.udp://" ++ host,
    digits ++ List.replicate slashes slashByte, ?_, ?_, List.length_append⟩
  · simp [networkAddress]
  · intro hmem
    rcases List.mem_append.mp hmem with hdigit | hslash
    · exact (isDigit_ne (hall _ hdigit)).1 rfl
    · exact absurd (List.eq_of_mem_replicate hslash) (by decide)

theorem parseNetworkAddress_eq_ok_iff (address host : Bytes) (port : UInt16) :
    parseNetworkAddress address = .ok (host, port) ↔ Addresses address host port.toNat := by
  have hlt := port.toNat_lt
  constructor
  · intro h
    obtain ⟨digits, slashes, rfl, hhost, hdigits, hall, hvalue, hpos⟩ :=
      addresses_of_parseNetworkAddress h
    exact ⟨digits, slashes, rfl, hhost, rfind_networkAddress host slashes hall, hdigits, hall,
      hvalue, hpos, by omega⟩
  · rintro ⟨digits, slashes, rfl, hhost, -, hdigits, hall, hvalue, hpos, hle⟩
    rw [parseNetworkAddress_networkAddress slashes hhost hdigits hall (by omega) (by omega),
      hvalue, UInt16.ofNat_toNat]

/-- A string is accepted exactly when it is an address, and its host and port are
the result; every other string is refused.  The digit loop computes no integer
beyond an `int`, however many digits there are. -/
theorem parseNetworkAddress_exact (address : Bytes) :
    (∀ host port, parseNetworkAddress address = .ok (host, port) ↔
      Addresses address host port.toNat) ∧
    ((∀ host port, ¬ Addresses address host port) →
      ∃ refusal, parseNetworkAddress address = .error refusal) ∧
    (∀ portText, parsePortChecked address 0 portText =
      some ((parsePort address 0 portText).map fun port => (port : Int))) ∧
    ∀ host p, host ≠ [] → 1 ≤ p → p ≤ 65535 →
      parseNetworkAddress (text "opc.udp://" ++ host ++ [colonByte] ++ decimal p) =
        .ok (host, UInt16.ofNat p) := by
  refine ⟨parseNetworkAddress_eq_ok_iff address, ?_,
    parsePortChecked_eq address (Nat.zero_le 65535), ?_⟩
  · intro hnone
    cases hparse : parseNetworkAddress address with
    | error refusal => exact ⟨refusal, rfl⟩
    | ok result =>
        obtain ⟨host, port⟩ := result
        exact absurd ((parseNetworkAddress_eq_ok_iff _ _ _).mp hparse) (hnone _ _)
  · intro host p hhost hpos hle
    have h : parseNetworkAddress (networkAddress host (decimal p) 0) =
        .ok (host, UInt16.ofNat (digitsValue (decimal p))) :=
      parseNetworkAddress_networkAddress 0 hhost (decimal_ne_nil p)
        (fun c hc => isDigit_of_mem_decimal hc) (by rwa [digitsValue_decimal])
        (by rwa [digitsValue_decimal])
    rw [digitsValue_decimal] at h
    simpa [networkAddress] using h

theorem parseNetworkAddress_exact_loopback :
    parseNetworkAddress (text "opc.udp://" ++ text "[::1]" ++ [colonByte] ++ decimal 4840) =
      .ok (text "[::1]", 4840) :=
  (parseNetworkAddress_exact []).2.2.2 (text "[::1]") 4840 (by decide) (by decide) (by decide)

end PubSub

end Supernova
