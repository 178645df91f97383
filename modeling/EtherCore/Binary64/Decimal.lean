import EtherCore.Binary64.Basic
import EtherCore.Text.Ascii

/-!
Doubles in decimal: the shortest digits that read back, a fixed number of places, and the double
nearest to a decimal text.
-/

namespace EtherCore.Binary64

open Text

/-! ### The shortest digits -/

/-- The two scales that compare `d * 10 ^ p` with `n * 2 ^ e`: the one is below the other iff
`d` times the first scale is below `n` times the second. -/
def gridScales (e p : Int) : Nat × Nat :=
  (Nat.pow 2 (-e).toNat * Nat.pow 10 p.toNat, Nat.pow 2 e.toNat * Nat.pow 10 (-p).toNat)

/-- The count `d` for which `d * 10 ^ p` rounds to the double `m * 2 ^ e`, if one of the two
neighbours of `m * 2 ^ e` among the multiples of `10 ^ p` does; of two the nearer, and of two as
near the larger.  The doubles around `m * 2 ^ e` are half as far below as above when `m` is the
least mantissa, and a midpoint rounds to `m * 2 ^ e` when `m` is even. -/
def gridPoint? (m : Nat) (e p : Int) : Option Nat :=
  let scales := gridScales (e - 2) p
  let value := 4 * m * scales.2
  let low := (4 * m - if m = Nat.pow 2 52 ∧ e ≠ -1074 then 1 else 2) * scales.2
  let high := (4 * m + 2) * scales.2
  let inside (d : Nat) : Bool :=
    let x := d * scales.1
    if m % 2 = 0 then low ≤ x && x ≤ high else low < x && x < high
  let d := value / scales.1
  match inside d, inside (d + 1) with
  | true, true => some (if value - d * scales.1 < (d + 1) * scales.1 - value then d else d + 1)
  | true, false => some d
  | false, true => some (d + 1)
  | false, false => none

/-- The first grid, going down from the multiples of `10 ^ p`, with a point that rounds to the
double: the point and the exponent of its grid. -/
def searchGrids (m : Nat) (e : Int) : Nat → Int → Nat × Int
  | 0, p => (0, p)
  | steps + 1, p =>
    match gridPoint? m e p with
    | some d => (d, p)
    | none => searchGrids m e steps (p - 1)

/-- The shortest decimal `d * 10 ^ p` that rounds to the double `m * 2 ^ e`, and the nearest of
the shortest.  The search starts above the value; 324 places below the point and 17 digits more
always suffice. -/
def shortest (m : Nat) (e : Int) : Nat × Int :=
  if m = 0 then (0, 0)
  else
    let whole := m * Nat.pow 2 e.toNat / Nat.pow 2 (-e).toNat
    let top := (Nat.toDigits 10 whole).length
    searchGrids m e (top + 345) top

/-! ### Decimal texts -/

/-- The decimal `d * 10 ^ p` without an exponent. -/
def positional (d : Nat) (p : Int) : String :=
  let digits := Nat.toDigits 10 d
  if 0 ≤ p then String.ofList (digits ++ List.replicate p.toNat '0')
  else
    let places := (-p).toNat
    let padded := padLeft (places + 1) '0' digits
    let whole := padded.length - places
    String.ofList (padded.take whole ++ '.' :: padded.drop whole)

/-- The choices that a text of doubles leaves open. -/
structure Style where
  /-- The text of not-a-number. -/
  nan : String
  /-- The text of the positive infinity. -/
  infinity : String
  /-- Whether a whole number ends in `.0`. -/
  wholePoint : Bool

/-- The sign of a text. -/
def signText (negative : Bool) : String := if negative then "-" else ""

/-- A double in its shortest digits, without an exponent. -/
def text (style : Style) : Binary64 → String
  | .finite s m e _ =>
    let r := shortest m e
    signText s ++ positional r.1 r.2 ++ if style.wholePoint && decide (0 ≤ r.2) then ".0" else ""
  | .infinite s => signText s ++ style.infinity
  | .nan => style.nan

/-- A double with a fixed number of places after the point, the exact value rounded with a half
to the even neighbour; a negative zero keeps its sign. -/
def fixed (style : Style) (places : Nat) : Binary64 → String
  | .finite s m e _ =>
    let units := roundHalfEven (m * Nat.pow 2 e.toNat * Nat.pow 10 places) (Nat.pow 2 (-e).toNat)
    signText s ++ positional units (-places)
  | .infinite s => signText s ++ style.infinity
  | .nan => style.nan

/-! ### Reading a decimal -/

/-- The double nearest to `d * 10 ^ p`.  Beyond the range of the doubles the power is not
formed. -/
def ofDecimal (negative : Bool) (d : Nat) (p : Int) : Binary64 :=
  if d = 0 then zero negative
  else if 310 < p then .infinite negative
  else if (d.log2 : Int) + 1 + 3 * p < -1076 then zero negative
  else nearest negative (d * Nat.pow 10 p.toNat) (Nat.pow 10 (-p).toNat)

/-- The digits at the start of a character sequence, with their values, and the rest. -/
def spanDigits : List Char → List Nat × List Char
  | [] => ([], [])
  | c :: cs =>
    match decimalDigit? c with
    | some d => let r := spanDigits cs; (d :: r.1, r.2)
    | none => ([], c :: cs)

/-- The sign at the start of a character sequence, and the rest. -/
def spanSign : List Char → Bool × List Char
  | '-' :: cs => (true, cs)
  | '+' :: cs => (false, cs)
  | cs => (false, cs)

/-- An exponent that takes up a whole character sequence: nothing, or `e`, an optional sign and
digits. -/
def readExponent? : List Char → Option Int
  | [] => some 0
  | c :: cs =>
    if c = 'e' ∨ c = 'E' then
      match spanSign cs with
      | (negative, rest) =>
        match spanDigits rest with
        | (d :: ds, []) =>
          let n : Int := ofDigits 10 (d :: ds)
          some (if negative then -n else n)
        | _ => none
    else none

/-- The double nearest to an unsigned decimal text: digits with at most one point among or
around them, and an optional exponent. -/
def readMagnitude? (negative : Bool) (cs : List Char) : Option Binary64 :=
  let whole := spanDigits cs
  let fraction :=
    match whole.2 with
    | '.' :: rest => spanDigits rest
    | rest => ([], rest)
  if whole.1 = [] ∧ fraction.1 = [] then none
  else
    (readExponent? fraction.2).map fun e =>
      ofDecimal negative (ofDigits 10 (whole.1 ++ fraction.1)) (e - fraction.1.length)

/-- The double nearest to a decimal text, which may also name an infinity or not-a-number in
either case. -/
def read? (cs : List Char) : Option Binary64 :=
  let (negative, rest) := spanSign cs
  let word := String.ofList (rest.map Char.toLower)
  if word = "inf" ∨ word = "infinity" then some (.infinite negative)
  else if word = "nan" then some .nan
  else readMagnitude? negative rest

end EtherCore.Binary64
