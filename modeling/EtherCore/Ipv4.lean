import EtherCore.Text.Ascii

/-!
Internet addresses of 32 bits and their notation as four decimal octets.
-/

namespace EtherCore

open Text

/-- An internet address as the number that its octets form, the most significant first. -/
structure Ipv4 where
  value : UInt32
deriving DecidableEq

namespace Ipv4

/-- The four octets. -/
def octets (a : Ipv4) : List Nat :=
  [3, 2, 1, 0].map fun i => (a.value.toNat >>> (8 * i)) % 256

/-- The octets in decimal between points. -/
def text (a : Ipv4) : String := String.intercalate "." (a.octets.map toString)

/-- An octet of one to three decimal digits, with no zero in front of another digit. -/
def octet? (cs : List Char) : Option Nat :=
  match cs.mapM decimalDigit? with
  | none => none
  | some ds =>
    let n := ofDigits 10 ds
    if ds = [] ∨ 3 < ds.length ∨ (ds.head? = some 0 ∧ 1 < ds.length) ∨ 255 < n then none else some n

/-- Reads four octets between points. -/
def parse? (s : String) : Option Ipv4 :=
  match (splitOn (fun c => c = '.') s.toList).map octet? with
  | [some a, some b, some c, some d] => some ⟨UInt32.ofNat (ofDigits 256 [a, b, c, d])⟩
  | _ => none

end Ipv4

end EtherCore
