import EtherCore.Binary64.Decimal
import EtherCore.Document.Value
import EtherCore.Text.Ascii

/-!
The text of a value as a message shows it: one line where the strings in it allow, tables in
braces, and the quotes of a string chosen so that little has to be escaped.
-/

namespace EtherCore

open Text

/-! ### Strings -/

/-- Characters that have to be escaped wherever they stand: controls other than tab and line
feed. -/
def isControl (c : Char) : Bool :=
  (c.toNat < 0x20 && c ≠ '\t' && c ≠ '\n') || c.toNat = 0x7f

/-- A character inside double quotes, the quote itself apart. -/
def escaped (c : Char) : List Char :=
  if c = '\\' then ['\\', '\\']
  else if c = '\x08' then ['\\', 'b']
  else if c = '\t' then ['\\', 't']
  else if c = '\n' then ['\\', 'n']
  else if c = '\x0c' then ['\\', 'f']
  else if c = '\r' then ['\\', 'r']
  else if isControl c then '\\' :: 'u' :: (hexUpper 4 c.toNat).toList
  else [c]

/-- Characters between double quotes on one line. -/
def escapedLine (cs : List Char) : List Char :=
  cs.flatMap fun c => if c = '"' then ['\\', '"'] else escaped c

/-- Characters between tripled double quotes: a line feed stands as it is, and of quotes in a row
every third is escaped.  The count says how many quotes stand just before. -/
def escapedLines : Nat → List Char → List Char
  | _, [] => []
  | quotes, c :: cs =>
    if c = '"' then
      if quotes = 2 then '\\' :: '"' :: escapedLines 0 cs else '"' :: escapedLines (quotes + 1) cs
    else if c = '\n' then '\n' :: escapedLines 0 cs
    else escaped c ++ escapedLines 0 cs

/-- The longest run of a character. -/
def longestRun (q : Char) (cs : List Char) : Nat :=
  (cs.foldl (fun r c => if c = q then (max r.1 (r.2 + 1), r.2 + 1) else (r.1, 0)) (0, 0)).1

/-- The forms in which a string can be quoted. -/
inductive QuoteForm where
  | basic
  | literal
  | basicLines
  | literalLines
deriving DecidableEq

/-- The first form that shows a string without escapes, where there is one; else a form with
escapes, on lines if the string has any. -/
def quoteForm (cs : List Char) : QuoteForm :=
  let clean := !cs.any isControl
  let oneLine := !cs.contains '\n'
  if clean && oneLine && !cs.contains '\\' && !cs.contains '"' then .basic
  else if clean && oneLine && !cs.contains '\'' then .literal
  else if clean && !cs.contains '\\' && longestRun '"' cs ≤ 2 then .basicLines
  else if clean && longestRun '\'' cs ≤ 2 then .literalLines
  else if oneLine then .basic else .basicLines

/-- A string in a form; a string of several lines starts on a line of its own. -/
def quotedAs (form : QuoteForm) (cs : List Char) : List Char :=
  let start := if cs.contains '\n' then ['\n'] else []
  match form with
  | .basic => '"' :: escapedLine cs ++ ['"']
  | .literal => '\'' :: cs ++ ['\'']
  | .basicLines => ['"', '"', '"'] ++ start ++ escapedLines 0 cs ++ ['"', '"', '"']
  | .literalLines => ['\'', '\'', '\''] ++ start ++ cs ++ ['\'', '\'', '\'']

/-- A string in quotes. -/
def stringText (s : String) : String := String.ofList (quotedAs (quoteForm s.toList) s.toList)

/-! ### Keys -/

/-- Characters of a key that needs no quotes. -/
def isBareKeyChar (c : Char) : Bool := c.isAlphanum || c = '_' || c = '-'

/-- A key, in quotes where it needs them. -/
def keyText (s : String) : String :=
  let cs := s.toList
  let clean := !cs.any isControl && !cs.contains '\n'
  let escapes := cs.contains '\\' || cs.contains '"'
  if !cs.isEmpty && cs.all isBareKeyChar then s
  else if clean && escapes && !cs.contains '\'' then String.ofList (quotedAs .literal cs)
  else String.ofList (quotedAs .basic cs)

/-! ### Values -/

/-- Numbers in documents: no exponent, and a point after a whole number. -/
def floatStyle : Binary64.Style := ⟨"nan", "inf", true⟩

/-- The key of the table in which a message shows a date and time that stands alone. -/
def datetimeKey : String := "$__toml_private_datetime"

/-- Entries in braces. -/
def tableText (entries : List String) : String :=
  if entries = [] then "\x7b\x7d" else "\x7b " ++ String.intercalate ", " entries ++ " \x7d"

namespace Value

mutual

/-- The text of a value that is part of another. -/
def partText : Value → String
  | .string s => stringText s
  | .integer n => toString n
  | .float x => x.text floatStyle
  | .boolean b => toString b
  | .datetime d => d.text
  | .array xs => "[" ++ String.intercalate ", " (itemTexts xs) ++ "]"
  | .table es => tableText (entryTexts es)

/-- The texts of items. -/
def itemTexts : List Value → List String
  | [] => []
  | v :: vs => v.partText :: itemTexts vs

/-- The texts of entries. -/
def entryTexts : List (String × Value) → List String
  | [] => []
  | (k, v) :: es => (keyText k ++ " = " ++ v.partText) :: entryTexts es

end

/-- The text of a value.  A date and time that stands alone is shown as a table. -/
def text : Value → String
  | .datetime d => tableText [keyText datetimeKey ++ " = " ++ stringText d.text]
  | v => v.partText

end Value

end EtherCore
