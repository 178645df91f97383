import EtherCore.Binary64.Decimal
import EtherCore.Text.Blank

/-!
Clock frequencies in whole Hertz: reading them with a unit, and writing them in the largest unit
that is not greater.
-/

namespace EtherCore

open Text

/-- A frequency in whole Hertz. -/
structure Frequency where
  hertz : UInt64
deriving DecidableEq

/-- A text that is no frequency, without the blanks around it. -/
structure InvalidFrequency where
  text : String
deriving DecidableEq

/-- The wording for a text that is no frequency. -/
def InvalidFrequency.message (e : InvalidFrequency) : String :=
  "invalid frequency: '" ++ e.text ++ "'"

namespace Frequency

/-! ### Conversions -/

/-- The whole Hertz of a number, if it is at least one and at most `2 ^ 64`. -/
def ofBinary64? (x : Binary64) : Option Frequency :=
  if !x.isFinite || x.lt (.ofNat 1) || (Binary64.ofNat UInt64.size).lt x then none
  else some ⟨x.toWord⟩

/-- The frequency divided by a number of Hertz. -/
def per (f : Frequency) (unit : Nat) : Binary64 :=
  (Binary64.ofNat f.hertz.toNat).div (.ofNat unit)

/-- The frequency in megahertz. -/
def megahertz (f : Frequency) : Binary64 := f.per 1000000

/-- The length of one cycle in nanoseconds. -/
def periodNs (f : Frequency) : Binary64 :=
  (Binary64.ofNat 1000000000).div (.ofNat f.hertz.toNat)

/-! ### Text -/

/-- Numbers in frequencies and constraints: no exponent, no point after a whole number. -/
def style : Binary64.Style := ⟨"NaN", "inf", false⟩

/-- A frequency in the largest unit that is not greater than it. -/
def text (f : Frequency) : String :=
  let n := f.hertz.toNat
  if 1000000000 ≤ n then (f.per 1000000000).text style ++ "GHz"
  else if 1000000 ≤ n then (f.per 1000000).text style ++ "MHz"
  else if 1000 ≤ n then (f.per 1000).text style ++ "KHz"
  else toString n ++ "Hz"

/-- The text of a frequency under the name of its kind. -/
def labelled (f : Frequency) : String := "Frequency(" ++ f.text ++ ")"

/-- The units in which a frequency can be written, and how many Hertz they are. -/
def units : List (String × Nat) :=
  [("ghz", 1000000000), ("mhz", 1000000), ("khz", 1000), ("hz", 1)]

/-- The number and the unit of a lower-case text; without a unit the number is in Hertz. -/
def splitUnit (cs : List Char) : List Char × Nat :=
  let found := units.findSome? fun u => (beforeEnd? u.1.toList cs).map fun rest => (rest, u.2)
  found.getD (cs, 1)

/-- Reads a number with an optional unit, in either case, and cuts it to whole Hertz. -/
def parse (s : String) : Except InvalidFrequency Frequency :=
  let given := trim s
  let parts := splitUnit (lower given).toList
  let value := (Binary64.read? (trimChars parts.1)).map fun x => x.mul (.ofNat parts.2)
  match value.bind ofBinary64? with
  | some f => .ok f
  | none => .error ⟨given⟩

end Frequency

end EtherCore
