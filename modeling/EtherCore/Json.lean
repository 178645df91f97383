import EtherCore.Binary64.Decimal
import EtherCore.Text.Ascii

/-!
JSON values whose objects keep the order of their fields, and their text on indented lines.
-/

namespace EtherCore

open Text

/-- A JSON value. -/
inductive Json where
  | null
  | boolean (b : Bool)
  | number (n : Nat)
  | float (x : Binary64)
  | string (s : String)
  | array (items : List Json)
  | object (fields : List (String × Json))

namespace Json

/-- The value that may be absent. -/
def ofOption {α : Type} (f : α → Json) : Option α → Json
  | some a => f a
  | none => .null

/-! ### Strings -/

/-- A character inside the quotes of a JSON string. -/
def escapedChar (c : Char) : String :=
  if c = '"' then "\\\""
  else if c = '\\' then "\\\\"
  else if c = '\x08' then "\\b"
  else if c = '\t' then "\\t"
  else if c = '\n' then "\\n"
  else if c = '\x0c' then "\\f"
  else if c = '\r' then "\\r"
  else if c.toNat < 0x20 then "\\u" ++ hex 4 c.toNat
  else String.singleton c

/-- A string in quotes. -/
def quote (s : String) : String := "\"" ++ String.join (s.toList.map escapedChar) ++ "\""

/-! ### Text -/

/-- Numbers in JSON: no exponent, and a point after a whole number. -/
def floatStyle : Binary64.Style := ⟨"null", "null", true⟩

/-- The text of a floating point number, `null` where it is none. -/
def floatText (x : Binary64) : String := if x.isFinite then x.text floatStyle else "null"

/-- The start of a line at a depth, two blanks for each level. -/
def lineStart (depth : Nat) : String := "\n" ++ String.ofList (List.replicate (2 * depth) ' ')

/-- Parts between brackets, each on a line of its own one level deeper than the brackets. -/
def bracketed (opening closing : String) (depth : Nat) (parts : List String) : String :=
  if parts = [] then opening ++ closing
  else
    opening ++ String.intercalate "," (parts.map fun p => lineStart (depth + 1) ++ p)
      ++ lineStart depth ++ closing

mutual

/-- The text of a value whose first line stands at a depth. -/
def textAt (depth : Nat) : Json → String
  | .null => "null"
  | .boolean b => toString b
  | .number n => toString n
  | .float x => floatText x
  | .string s => quote s
  | .array items => bracketed "[" "]" depth (itemTexts (depth + 1) items)
  | .object fields => bracketed "\x7b" "\x7d" depth (fieldTexts (depth + 1) fields)

/-- The texts of items at a depth. -/
def itemTexts (depth : Nat) : List Json → List String
  | [] => []
  | v :: vs => textAt depth v :: itemTexts depth vs

/-- The texts of fields at a depth. -/
def fieldTexts (depth : Nat) : List (String × Json) → List String
  | [] => []
  | (k, v) :: fs => (quote k ++ ": " ++ textAt depth v) :: fieldTexts depth fs

end

/-- The text of a value on indented lines. -/
def text (v : Json) : String := textAt 0 v

end Json

end EtherCore
