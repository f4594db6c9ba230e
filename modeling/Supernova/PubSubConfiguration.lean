/-
The configuration of the publish/subscribe engine: publisher id types with
their names and maxima, network addresses, and the configured connections.
-/
import Supernova.PubSubWire
import Supernova.StandardString

namespace Supernova

attribute [local semireducible] ByteArray.toList.loop

namespace PubSub

def parsePublisherIdType (name : Bytes) : Except Bytes PublisherIdType :=
  if name = text "Byte" then pure .byte
  else if name = text "UInt16" then pure .uInt16
  else if name = text "UInt32" then pure .uInt32
  else if name = text "UInt64" then pure .uInt64
  else throw (text "PubSub configuration: unknown publisherIdType '" ++ name ++
    text "' (expected Byte, UInt16, UInt32 or UInt64)")

def publisherIdTypeName : PublisherIdType → Bytes
  | .byte => text "Byte"
  | .uInt16 => text "UInt16"
  | .uInt32 => text "UInt32"
  | .uInt64 => text "UInt64"

/-- Largest publisher id the given wire type can carry. -/
def publisherIdMaximum : PublisherIdType → UInt64
  | .byte => 0xFF
  | .uInt16 => 0xFFFF
  | .uInt32 => 0xFFFFFFFF
  | .uInt64 => 0xFFFFFFFFFFFFFFFF

def colonByte : UInt8 := 58

def slashByte : UInt8 := 47

/-- The loop that erases slashes from the end of an address. -/
def withoutTrailingSlashes (s : Bytes) : Bytes :=
  (s.reverse.dropWhile (· = slashByte)).reverse

/-- The port digit loop; the running value is refused as soon as it is too
large, so it never grows beyond what an `int` holds. -/
def parsePort (address : Bytes) : Nat → Bytes → Except Bytes Nat
  | parsed, [] => pure parsed
  | parsed, digit :: portText =>
      if digit < 48 ∨ 57 < digit then
        throw (text "PubSub configuration: non-numeric port in address '" ++ address ++
          text "'")
      else if 65535 < parsed * 10 + (digit.toNat - 48) then
        throw (text "PubSub configuration: port out of range in address '" ++ address ++
          text "'")
      else parsePort address (parsed * 10 + (digit.toNat - 48)) portText

def parseNetworkAddress (address : Bytes) : Except Bytes (Bytes × UInt16) :=
  let scheme := text "opc.udp://"
  if address.take scheme.length ≠ scheme then
    throw (text "PubSub configuration: address '" ++ address ++
      text "' does not start with opc.udp://")
  else
    let rest := withoutTrailingSlashes (address.drop scheme.length)
    let lacksPort := text "PubSub configuration: address '" ++ address ++
      text "' lacks a :port"
    match rfind colonByte rest with
    | none => throw lacksPort
    | some colon =>
        if colon = 0 ∨ colon = rest.length - 1 then throw lacksPort
        else do
          let parsed ← parsePort address 0 (rest.drop (colon + 1))
          if parsed = 0 then
            throw (text "PubSub configuration: port out of range in address '" ++
              address ++ text "'")
          else pure (rest.take colon, UInt16.ofNat parsed)

example : parseNetworkAddress (text "opc.udp://[::1]:4840/") =
    .ok (text "[::1]", 4840) := by decide

end PubSub

end Supernova
