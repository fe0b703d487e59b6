import EspNetwork.Lib.Decimal

/-!
# Printing a record (`reflection/main/station_example_main.cpp`)

`to_string` and `append_uint8_array`. A record has the members that reflection finds, in
order; a member is an array of `uint8_t` or a number, which `operator<<` prints in decimal
(the hexadecimal branch ends with `std::dec`).
-/

namespace EspNetwork.Reflection

open CLib

inductive Value
  /-- `uint8_t[N]` -/
  | array (bs : Bytes)
  | number (n : ℤ)
deriving DecidableEq

structure Member where
  identifier : Bytes
  value : Value
deriving DecidableEq

/-- `std::hex << std::setw(2) << std::setfill('0')` of a byte. -/
def hexByte (b : Byte) : Bytes :=
  let digit (d : ℕ) : Byte := (bytes "0123456789abcdef").getD d 0
  [digit (b.toNat / 16), digit (b.toNat % 16)]

/-- `append_uint8_array`: six bytes are a MAC address, others a text up to the first NUL. -/
def appendUint8Array (arr : Bytes) : Bytes :=
  if arr.length = 6 then [chr ':'].intercalate (arr.map hexByte)
  else chr '"' :: arr.takeWhile (· ≠ 0) ++ [chr '"']

def Value.text : Value → Bytes
  | array bs => appendUint8Array bs
  | number n => printLd n

/-- The loop over the members; `first` as in the source. -/
def appendMembers : Bool → List Member → Bytes
  | _, [] => []
  | first, m :: ms =>
    (if first then [] else bytes ", \n\t") ++ m.identifier ++ bytes " = " ++ m.value.text ++ appendMembers false ms

/-- `to_string` of a record of the type `identifier`. -/
def toString (identifier : Bytes) (ms : List Member) : Bytes :=
  identifier ++ bytes " \n\x7b\t" ++ appendMembers true ms ++ bytes " \x7d"

end EspNetwork.Reflection
