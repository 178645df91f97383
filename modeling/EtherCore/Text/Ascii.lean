/-!
ASCII letters and digits: lower case, the values of digits, and numbers written with a fixed
least number of digits.
-/

namespace EtherCore.Text

/-! ### Case -/

/-- A text with `A` to `Z` replaced by their lower case; every other character stays. -/
def lower (s : String) : String := String.ofList (s.toList.map Char.toLower)

/-! ### Digits -/

/-- The value of a decimal digit. -/
def decimalDigit? (c : Char) : Option Nat :=
  if '0' ≤ c ∧ c ≤ '9' then some (c.toNat - '0'.toNat) else none

/-- The value of a hexadecimal digit, in either case. -/
def hexDigit? (c : Char) : Option Nat :=
  if '0' ≤ c ∧ c ≤ '9' then some (c.toNat - '0'.toNat)
  else if 'a' ≤ c ∧ c ≤ 'f' then some (c.toNat - 'a'.toNat + 10)
  else if 'A' ≤ c ∧ c ≤ 'F' then some (c.toNat - 'A'.toNat + 10)
  else none

/-- The number that digits in a base denote, the most significant digit first. -/
def ofDigits (base : Nat) (ds : List Nat) : Nat := ds.foldl (fun n d => base * n + d) 0

/-! ### Numbers with a least width -/

/-- A character sequence brought to a least length by a filler in front. -/
def padLeft (width : Nat) (filler : Char) (cs : List Char) : List Char :=
  List.replicate (width - cs.length) filler ++ cs

/-- A number in decimal with at least `width` digits. -/
def decimal (width n : Nat) : String := String.ofList (padLeft width '0' (Nat.toDigits 10 n))

/-- A number in lower-case hexadecimal with at least `width` digits. -/
def hex (width n : Nat) : String := String.ofList (padLeft width '0' (Nat.toDigits 16 n))

/-- A number in upper-case hexadecimal with at least `width` digits. -/
def hexUpper (width n : Nat) : String :=
  String.ofList (padLeft width '0' ((Nat.toDigits 16 n).map Char.toUpper))

/-- A number in hexadecimal after `0x`, with no digit more than it needs. -/
def hexLiteral (n : Nat) : String := "0x" ++ hex 1 n

/-- A number in hexadecimal after `0x`, with at least eight digits. -/
def hexWord (n : Nat) : String := "0x" ++ hex 8 n

/-! ### Parts of a character sequence -/

/-- The parts of a character sequence between the characters that separate, at least one. -/
def splitOn (separates : Char → Bool) : List Char → List (List Char)
  | [] => [[]]
  | c :: cs =>
    if separates c then [] :: splitOn separates cs
    else
      match splitOn separates cs with
      | [] => [[c]]
      | part :: parts => (c :: part) :: parts

/-- What is left of a character sequence after a given start, if it starts so. -/
def afterStart? : List Char → List Char → Option (List Char)
  | [], cs => some cs
  | _ :: _, [] => none
  | p :: ps, c :: cs => if p = c then afterStart? ps cs else none

/-- What stands in front of a given end, if the character sequence ends so. -/
def beforeEnd? (ending cs : List Char) : Option (List Char) :=
  (afterStart? ending.reverse cs.reverse).map List.reverse

theorem splitOn_ne_nil (separates : Char → Bool) (cs : List Char) : splitOn separates cs ≠ [] := by
  cases cs with
  | nil => simp [splitOn]
  | cons c cs =>
    rw [splitOn]
    split
    · simp
    · split <;> simp

theorem afterStart?_eq_some {ps cs rest : List Char} :
    afterStart? ps cs = some rest ↔ cs = ps ++ rest := by
  induction ps generalizing cs with
  | nil => simp [afterStart?]
  | cons p ps ih =>
    cases cs with
    | nil => simp [afterStart?]
    | cons c cs =>
      by_cases h : p = c
      · simp [afterStart?, h, ih]
      · simp [afterStart?, h, Ne.symm h]

end EtherCore.Text
