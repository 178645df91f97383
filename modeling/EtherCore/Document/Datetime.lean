import EtherCore.Text.Ascii

/-!
Dates and times of day as a document writes them: a date, a time, or both with an optional
offset from universal time.
-/

namespace EtherCore

open Text

/-- What reads a piece from the front of a character sequence and leaves the rest, or refuses. -/
abbrev Reader (α : Type) := List Char → Option (α × List Char)

/-! ### Types -/

/-- A day of a year. -/
structure Date where
  year : Nat
  month : Nat
  day : Nat
deriving DecidableEq

/-- A time of day; the fraction of a second is in nanoseconds. -/
structure TimeOfDay where
  hour : Nat
  minute : Nat
  second : Nat
  nanosecond : Nat
deriving DecidableEq

/-- The distance from universal time. -/
inductive TimeOffset where
  | universal
  | minutes (negative : Bool) (count : Nat)
deriving DecidableEq

/-- A date, a time of day, or a moment. -/
inductive Datetime where
  | date (d : Date)
  | time (t : TimeOfDay)
  | moment (d : Date) (t : TimeOfDay) (offset : Option TimeOffset)
deriving DecidableEq

/-! ### Text -/

/-- A fraction of a second after its point, without zeros at its end; nothing for zero. -/
def fractionText (nanosecond : Nat) : String :=
  if nanosecond = 0 then ""
  else
    let digits := padLeft 9 '0' (Nat.toDigits 10 nanosecond)
    "." ++ String.ofList (digits.reverse.dropWhile fun c => c = '0').reverse

/-- Year, month and day between hyphens. -/
def Date.text (d : Date) : String :=
  decimal 4 d.year ++ "-" ++ decimal 2 d.month ++ "-" ++ decimal 2 d.day

/-- Hour, minute and second between colons. -/
def TimeOfDay.text (t : TimeOfDay) : String :=
  decimal 2 t.hour ++ ":" ++ decimal 2 t.minute ++ ":" ++ decimal 2 t.second
    ++ fractionText t.nanosecond

/-- `Z`, or a sign, hours and minutes. -/
def TimeOffset.text : TimeOffset → String
  | .universal => "Z"
  | .minutes negative count =>
    (if negative then "-" else "+") ++ decimal 2 (count / 60) ++ ":" ++ decimal 2 (count % 60)

/-- A date and time in the form in which documents write it, with `T` between the two. -/
def Datetime.text : Datetime → String
  | .date d => d.text
  | .time t => t.text
  | .moment d t none => d.text ++ "T" ++ t.text
  | .moment d t (some o) => d.text ++ "T" ++ t.text ++ o.text

/-! ### Reading -/

/-- Reads exactly `count` digits. -/
def readDigits (count : Nat) : Reader Nat := fun cs =>
  match (cs.take count).mapM decimalDigit? with
  | some ds => if ds.length = count then some (ofDigits 10 ds, cs.drop count) else none
  | none => none

/-- Reads a number of two digits that is between two bounds. -/
def readTwo (low high : Nat) : Reader Nat := fun cs =>
  match readDigits 2 cs with
  | some (n, rest) => if low ≤ n ∧ n ≤ high then some (n, rest) else none
  | none => none

/-- Tells whether a year has a 29th of February. -/
def isLeapYear (year : Nat) : Bool := year % 4 = 0 && (year % 100 ≠ 0 || year % 400 = 0)

/-- The number of days of a month. -/
def daysIn (year month : Nat) : Nat :=
  if month = 2 then if isLeapYear year then 29 else 28
  else if month = 4 ∨ month = 6 ∨ month = 9 ∨ month = 11 then 30
  else 31

/-- Reads a date. -/
def readDate : Reader Date := fun cs => do
  let (year, cs) ← readDigits 4 cs
  let cs ← afterStart? ['-'] cs
  let (month, cs) ← readTwo 1 12 cs
  let cs ← afterStart? ['-'] cs
  let (day, cs) ← readTwo 1 31 cs
  if day ≤ daysIn year month then some (⟨year, month, day⟩, cs) else none

/-- The nanoseconds of the digits after the point; digits after the ninth do not count. -/
def nanoseconds (digits : List Nat) : Nat :=
  ofDigits 10 (digits.take 9) * Nat.pow 10 (9 - digits.length)

/-- Reads the fraction of a second, which may be absent. -/
def readFraction : Reader Nat := fun cs =>
  match cs with
  | '.' :: rest =>
    let digits := rest.takeWhile Char.isDigit
    match digits.mapM decimalDigit? with
    | some (d :: ds) => some (nanoseconds (d :: ds), rest.dropWhile Char.isDigit)
    | _ => some (0, cs)
  | _ => some (0, cs)

/-- Reads a time of day. -/
def readTime : Reader TimeOfDay := fun cs => do
  let (hour, cs) ← readTwo 0 23 cs
  let cs ← afterStart? [':'] cs
  let (minute, cs) ← readTwo 0 59 cs
  let cs ← afterStart? [':'] cs
  let (second, cs) ← readTwo 0 60 cs
  let (nanosecond, cs) ← readFraction cs
  some (⟨hour, minute, second, nanosecond⟩, cs)

/-- Reads hours and minutes of an offset. -/
def readOffsetMinutes (negative : Bool) : Reader TimeOffset := fun cs => do
  let (hours, cs) ← readTwo 0 23 cs
  let cs ← afterStart? [':'] cs
  let (minutes, cs) ← readTwo 0 59 cs
  let count := 60 * hours + minutes
  some (.minutes (negative && decide (0 < count)) count, cs)

/-- Reads an offset. -/
def readOffset : Reader TimeOffset := fun cs =>
  match cs with
  | 'Z' :: rest | 'z' :: rest => some (.universal, rest)
  | '+' :: rest => readOffsetMinutes false rest
  | '-' :: rest => readOffsetMinutes true rest
  | _ => none

/-- Reads what may follow a date: a time after `T` or a space, and then perhaps an offset. -/
def readMoment (d : Date) : Reader Datetime := fun cs =>
  match cs with
  | 'T' :: rest | 't' :: rest | ' ' :: rest =>
    match readTime rest with
    | none => none
    | some (t, rest) =>
      match readOffset rest with
      | some (o, rest) => some (.moment d t (some o), rest)
      | none => some (.moment d t none, rest)
  | _ => none

/-- Reads a date, a time of day, or both. -/
def readDatetime : Reader Datetime := fun cs =>
  match readDate cs with
  | some (d, rest) => (readMoment d rest).orElse fun _ => some (.date d, rest)
  | none => (readTime cs).map fun r => (.time r.1, r.2)

/-- The date and time that a whole text names. -/
def Datetime.ofText? (s : String) : Option Datetime :=
  match readDatetime s.toList with
  | some (d, []) => some d
  | _ => none

end EtherCore
