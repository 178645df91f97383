import EtherCore.Text.Ascii

/-!
Findings that do not stop the generation of a core: their codes, their text, and questions
about a log of them.
-/

namespace EtherCore

open Text

/-! ### Codes -/

/-- How much attention a finding deserves. -/
inductive Severity where
  /-- Something worth knowing, such as an option passed on unchecked. -/
  | note
  /-- An option without effect. -/
  | warning
deriving DecidableEq

namespace Severity

/-- The word for a severity. -/
def text : Severity → String
  | .note => "note"
  | .warning => "warning"

/-- The graver of two severities. -/
def max : Severity → Severity → Severity
  | .note, s => s
  | .warning, _ => .warning

end Severity

/-- The kind of finding that a code names. -/
inductive Category where
  | warning
  | note
  | timing
deriving DecidableEq

/-- The letter of a category. -/
def Category.letter : Category → Char
  | .warning => 'W'
  | .note => 'N'
  | .timing => 'T'

/-- The code of a finding. -/
structure Code where
  category : Category
  number : UInt16
deriving DecidableEq

namespace Code

/-- A delay was given for a PHY that has none. -/
def unusedDelay : Code := ⟨.warning, 101⟩

/-- A key that is not recognized was passed on to the system on chip. -/
def forwardedKey : Code := ⟨.note, 102⟩

/-- A key that is not recognized has the name of an argument of the system on chip. -/
def shadowedKey : Code := ⟨.warning, 103⟩

/-- A PHY without physical clocks got no constraints. -/
def constraintsSkipped : Code := ⟨.timing, 1⟩

/-- The letter of the category and at least three digits. -/
def text (c : Code) : String := String.singleton c.category.letter ++ decimal 3 c.number.toNat

end Code

/-! ### Findings -/

/-- A finding about a configuration. -/
structure Diagnostic where
  severity : Severity
  code : Code
  message : String
  /-- The key or component that the finding is about. -/
  subject : Option String
  notes : List String
  help : List String
deriving DecidableEq

namespace Diagnostic

/-- A warning without further lines. -/
def warning (code : Code) (message : String) : Diagnostic := ⟨.warning, code, message, none, [], []⟩

/-- A note without further lines. -/
def note (code : Code) (message : String) : Diagnostic := ⟨.note, code, message, none, [], []⟩

/-- The finding with its subject named. -/
def about (d : Diagnostic) (subject : String) : Diagnostic := { d with subject := some subject }

/-- The finding with one more line of explanation. -/
def addNote (d : Diagnostic) (line : String) : Diagnostic := { d with notes := d.notes ++ [line] }

/-- The finding with one more line of advice. -/
def addHelp (d : Diagnostic) (line : String) : Diagnostic := { d with help := d.help ++ [line] }

/-- The finding with its code and subject, and its explanations and advice on lines of their
own. -/
def text (d : Diagnostic) : String :=
  let subject := match d.subject with
    | some s => " (" ++ s ++ ")"
    | none => ""
  d.severity.text ++ "[" ++ d.code.text ++ "]: " ++ d.message ++ subject
    ++ String.join (d.notes.map fun n => "\n  = note: " ++ n)
    ++ String.join (d.help.map fun h => "\n  = help: " ++ h)

end Diagnostic

/-! ### Logs -/

/-- Findings in the order in which they were made. -/
abbrev Log := List Diagnostic

namespace Log

/-- The gravest severity in a log. -/
def worst (log : Log) : Option Severity :=
  (log.map (·.severity)).foldl (fun w s => some (match w with | some w => w.max s | none => s)) none

/-- Tells whether a log has a finding of a code. -/
def hasCode (log : Log) (code : Code) : Bool := log.any fun d => d.code = code

/-- The findings of a code. -/
def withCode (log : Log) (code : Code) : Log := log.filter fun d => d.code = code

end Log

end EtherCore
