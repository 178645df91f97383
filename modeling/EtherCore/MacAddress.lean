import EtherCore.Text.Ascii
import EtherCore.Text.Blank

/-!
Ethernet addresses of 48 bits: six octets, the number they form, and their notation.
-/

namespace EtherCore

open Text

/-- An Ethernet address, the most significant octet first. -/
structure MacAddress where
  o₁ : UInt8
  o₂ : UInt8
  o₃ : UInt8
  o₄ : UInt8
  o₅ : UInt8
  o₆ : UInt8
deriving DecidableEq

/-- A text that is no Ethernet address. -/
structure InvalidMacAddress where
  text : String
deriving DecidableEq

/-- The wording for a text that is no Ethernet address. -/
def InvalidMacAddress.message (e : InvalidMacAddress) : String :=
  "invalid MAC address: '" ++ e.text ++ "'"

namespace MacAddress

/-! ### Octets and numbers -/

/-- The six octets. -/
def octets (m : MacAddress) : List UInt8 := [m.o₁, m.o₂, m.o₃, m.o₄, m.o₅, m.o₆]

/-- The number that the octets form. -/
def toNat (m : MacAddress) : Nat := ofDigits 256 (m.octets.map UInt8.toNat)

/-- The number that the octets form, as a 64-bit word. -/
def toWord (m : MacAddress) : UInt64 := UInt64.ofNat m.toNat

/-- The address whose octets form a number, if the number has at most 48 bits. -/
def ofNat? (n : Nat) : Option MacAddress :=
  let octet (i : Nat) : UInt8 := UInt8.ofNat (n >>> (8 * i))
  if n < Nat.pow 2 48 then some ⟨octet 5, octet 4, octet 3, octet 2, octet 1, octet 0⟩ else none

/-! ### Notation -/

/-- The octets in lower-case hexadecimal between colons. -/
def text (m : MacAddress) : String :=
  String.intercalate ":" (m.octets.map fun o => hex 2 o.toNat)

/-- The text of an address under the name of its kind. -/
def labelled (m : MacAddress) : String := "MacAddress(" ++ m.text ++ ")"

/-- An octet of exactly two hexadecimal digits. -/
def octet? : List Char → Option UInt8
  | [a, b] =>
    match hexDigit? a, hexDigit? b with
    | some x, some y => some (UInt8.ofNat (16 * x + y))
    | _, _ => none
  | _ => none

/-- Reads six octets between colons or hyphens, with blanks at the ends. -/
def parse (s : String) : Except InvalidMacAddress MacAddress :=
  let parts := splitOn (fun c => c = ':' || c = '-') (trimChars s.toList)
  match parts.map octet? with
  | [some a, some b, some c, some d, some e, some f] => .ok ⟨a, b, c, d, e, f⟩
  | _ => .error ⟨s⟩

end MacAddress

end EtherCore
