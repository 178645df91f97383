import EtherCore.Binary64.Decimal
import EtherCore.Document.Value

/-!
The values of a document that have no parts: strings in four forms, numbers, booleans, dates and
times.
-/

namespace EtherCore

open Text

/-! ### Characters -/

/-- Blanks inside a line. -/
def isLineBlank (c : Char) : Bool := c = ' ' || c = '\t'

/-- Characters that may stand in comments and strings: all but controls other than the tab. -/
def isPlain (c : Char) : Bool := c = '\t' || (0x20 ≤ c.toNat && c.toNat ≠ 0x7f)

/-- What follows the end of a line: a line feed, or a carriage return and a line feed. -/
def afterLineEnd? : List Char → Option (List Char)
  | '\n' :: cs => some cs
  | '\r' :: '\n' :: cs => some cs
  | _ => none

/-- A character sequence without the line end at its start, if there is one. -/
def dropLineEnd (cs : List Char) : List Char := (afterLineEnd? cs).getD cs

/-- A character sequence without the blanks of its first line. -/
def dropBlanks (cs : List Char) : List Char := cs.dropWhile isLineBlank

theorem length_dropWhile_le (p : Char → Bool) (cs : List Char) :
    (cs.dropWhile p).length ≤ cs.length :=
  (List.dropWhile_sublist p).length_le

theorem length_of_afterLineEnd? {cs rest : List Char} (h : afterLineEnd? cs = some rest) :
    rest.length < cs.length := by
  unfold afterLineEnd? at h
  split at h
  · cases h; simp
  · cases h; simp only [List.length_cons]; omega
  · cases h

/-! ### Strings -/

/-- The character of an escape of one letter. -/
def escapeChar? : Char → Option Char
  | 'b' => some '\x08'
  | 't' => some '\t'
  | 'n' => some '\n'
  | 'f' => some '\x0c'
  | 'r' => some '\r'
  | '"' => some '"'
  | '\\' => some '\\'
  | _ => none

/-- The character whose code point is written in hexadecimal digits. -/
def codePoint? (digits : List Char) : Option Char :=
  match digits.mapM hexDigit? with
  | some ds =>
    let n := ofDigits 16 ds
    if n.isValidChar then some (Char.ofNat n) else none
  | none => none

/-- What a reader of characters gives with one character more in front. -/
def consTo (c : Char) (r : Option (List Char × List Char)) : Option (List Char × List Char) :=
  r.map fun x => (c :: x.1, x.2)

/-- Reads what stands between double quotes, up to the closing one. -/
def readBasic : List Char → Option (List Char × List Char)
  | [] => none
  | '"' :: cs => some ([], cs)
  | '\\' :: 'u' :: a :: b :: c :: d :: cs =>
    (codePoint? [a, b, c, d]).bind fun x => consTo x (readBasic cs)
  | '\\' :: 'U' :: a :: b :: c :: d :: e :: f :: g :: h :: cs =>
    (codePoint? [a, b, c, d, e, f, g, h]).bind fun x => consTo x (readBasic cs)
  | '\\' :: e :: cs => (escapeChar? e).bind fun x => consTo x (readBasic cs)
  | c :: cs => if isPlain c && c ≠ '\\' then consTo c (readBasic cs) else none

/-- Reads what stands between single quotes, up to the closing one. -/
def readLiteral : List Char → Option (List Char × List Char)
  | [] => none
  | '\'' :: cs => some ([], cs)
  | c :: cs => if isPlain c then consTo c (readLiteral cs) else none

/-- A character sequence without the blanks and line ends at its start. -/
def dropSpace : List Char → List Char
  | ' ' :: cs | '\t' :: cs | '\n' :: cs => dropSpace cs
  | '\r' :: '\n' :: cs => dropSpace cs
  | cs => cs

theorem length_dropSpace_le (cs : List Char) : (dropSpace cs).length ≤ cs.length := by
  fun_induction dropSpace cs <;> simp_all <;> omega

/-- What follows a backslash that ends a line: the next character that is no space. -/
def afterContinuation? (cs : List Char) : Option (List Char) :=
  (afterLineEnd? (dropBlanks cs)).map dropSpace

theorem length_of_afterContinuation? {cs rest : List Char} (h : afterContinuation? cs = some rest) :
    rest.length < cs.length := by
  obtain ⟨r, hr, rfl⟩ := Option.map_eq_some_iff.1 h
  have h1 := length_of_afterLineEnd? hr
  have h2 := length_dropWhile_le isLineBlank cs
  have h3 := length_dropSpace_le r
  unfold dropBlanks at h1
  omega

/-- Reads what stands between tripled double quotes.  Up to two quotes may stand before the
closing ones, and a backslash takes away the line end after it with all space that follows. -/
def readBasicLines (cs : List Char) : Option (List Char × List Char) :=
  match cs with
  | [] => none
  | '"' :: '"' :: '"' :: '"' :: '"' :: cs => some (['"', '"'], cs)
  | '"' :: '"' :: '"' :: '"' :: cs => some (['"'], cs)
  | '"' :: '"' :: '"' :: cs => some ([], cs)
  | '"' :: cs => consTo '"' (readBasicLines cs)
  | '\n' :: cs => consTo '\n' (readBasicLines cs)
  | '\r' :: '\n' :: cs => consTo '\n' (readBasicLines cs)
  | '\\' :: 'u' :: a :: b :: c :: d :: cs =>
    (codePoint? [a, b, c, d]).bind fun x => consTo x (readBasicLines cs)
  | '\\' :: 'U' :: a :: b :: c :: d :: e :: f :: g :: h :: cs =>
    (codePoint? [a, b, c, d, e, f, g, h]).bind fun x => consTo x (readBasicLines cs)
  | '\\' :: cs =>
    match _h : afterContinuation? cs with
    | some rest => readBasicLines rest
    | none =>
      match cs with
      | e :: cs => (escapeChar? e).bind fun x => consTo x (readBasicLines cs)
      | [] => none
  | c :: cs => if isPlain c then consTo c (readBasicLines cs) else none
termination_by cs.length
decreasing_by
  all_goals simp only [List.length_cons]
  all_goals try omega
  have := length_of_afterContinuation? ‹_›
  omega

/-- Reads what stands between tripled single quotes, up to two of which may stand before the
closing ones. -/
def readLiteralLines : List Char → Option (List Char × List Char)
  | [] => none
  | '\'' :: '\'' :: '\'' :: '\'' :: '\'' :: cs => some (['\'', '\''], cs)
  | '\'' :: '\'' :: '\'' :: '\'' :: cs => some (['\''], cs)
  | '\'' :: '\'' :: '\'' :: cs => some ([], cs)
  | '\n' :: cs => consTo '\n' (readLiteralLines cs)
  | '\r' :: '\n' :: cs => consTo '\n' (readLiteralLines cs)
  | c :: cs => if isPlain c then consTo c (readLiteralLines cs) else none

/-- Reads a string on one line. -/
def readLineString : Reader String := fun cs =>
  let chars := match cs with
    | '"' :: cs => readBasic cs
    | '\'' :: cs => readLiteral cs
    | _ => none
  chars.map fun x => (String.ofList x.1, x.2)

/-- Reads a string; one that starts with a line end does not contain it. -/
def readString : Reader String := fun cs =>
  match cs with
  | '"' :: '"' :: '"' :: cs =>
    (readBasicLines (dropLineEnd cs)).map fun x => (String.ofList x.1, x.2)
  | '\'' :: '\'' :: '\'' :: cs =>
    (readLiteralLines (dropLineEnd cs)).map fun x => (String.ofList x.1, x.2)
  | cs => readLineString cs

/-! ### Numbers -/

/-- Reads further digits, each after at most one underscore. -/
def readDigitTail (isDigit : Char → Bool) : List Char → List Char × List Char
  | [] => ([], [])
  | '_' :: c :: cs =>
    if isDigit c then
      let r := readDigitTail isDigit cs
      (c :: r.1, r.2)
    else ([], '_' :: c :: cs)
  | c :: cs =>
    if isDigit c then
      let r := readDigitTail isDigit cs
      (c :: r.1, r.2)
    else ([], c :: cs)

/-- Reads digits, which may have single underscores between them. -/
def readDigitRun (isDigit : Char → Bool) : Reader (List Char)
  | [] => none
  | c :: cs =>
    if isDigit c then
      let r := readDigitTail isDigit cs
      some (c :: r.1, r.2)
    else none

/-- Reads a sign and the digits of a whole number, which do not start with a zero before
another digit. -/
def readWhole : Reader (Bool × List Char) := fun cs =>
  let s := Binary64.spanSign cs
  match s.2 with
  | '0' :: rest => some ((s.1, ['0']), rest)
  | rest => (readDigitRun Char.isDigit rest).map fun r => ((s.1, r.1), r.2)

/-- The number that digits in a base denote. -/
def digitsValue (base : Nat) (digits : List Char) : Nat :=
  ofDigits base (digits.filterMap hexDigit?)

/-- A whole number of 64 bits with a sign. -/
def integerOf? (negative : Bool) (n : Nat) : Option Value :=
  if negative then if n ≤ Nat.pow 2 63 then some (.integer (Int64.ofInt (-n))) else none
  else if n < Nat.pow 2 63 then some (.integer (Int64.ofNat n)) else none

/-- Reads the digits of a whole number in a base other than ten. -/
def readBased (base : Nat) (isDigit : Char → Bool) : Reader Value := fun cs =>
  (readDigitRun isDigit cs).bind fun r =>
    (integerOf? false (digitsValue base r.1)).map fun v => (v, r.2)

/-- Reads a whole number. -/
def readInteger : Reader Value := fun cs =>
  match cs with
  | '0' :: 'x' :: rest => readBased 16 (fun c => (hexDigit? c).isSome) rest
  | '0' :: 'o' :: rest => readBased 8 (fun c => '0' ≤ c && c ≤ '7') rest
  | '0' :: 'b' :: rest => readBased 2 (fun c => c = '0' || c = '1') rest
  | cs =>
    (readWhole cs).bind fun r =>
      (integerOf? r.1.1 (digitsValue 10 r.1.2)).map fun v => (v, r.2)

/-- Reads the point and the digits after it. -/
def readPlaces : Reader (List Char)
  | '.' :: cs => readDigitRun Char.isDigit cs
  | _ => none

/-- Reads an exponent. -/
def readScale : Reader Int
  | c :: cs =>
    if c = 'e' || c = 'E' then
      let s := Binary64.spanSign cs
      (readDigitRun Char.isDigit s.2).map fun r =>
        let n : Int := digitsValue 10 r.1
        (if s.1 then -n else n, r.2)
    else none
  | [] => none

/-- The number of digits, places and an exponent; one too large to be a number is refused, unless
it is negative. -/
def floatOf? (negative : Bool) (digits places : List Char) (scale : Int) : Option Value :=
  let x := Binary64.ofDecimal negative (digitsValue 10 (digits ++ places)) (scale - places.length)
  if x = .infinite false then none else some (.float x)

/-- Reads a number with places, with an exponent, or with both. -/
def readDecimal : Reader Value := fun cs =>
  (readWhole cs).bind fun whole =>
    match readPlaces whole.2 with
    | some places =>
      let scale := (readScale places.2).getD (0, places.2)
      (floatOf? whole.1.1 whole.1.2 places.1 scale.1).map fun v => (v, scale.2)
    | none =>
      (readScale whole.2).bind fun scale =>
        (floatOf? whole.1.1 whole.1.2 [] scale.1).map fun v => (v, scale.2)

/-- Reads an infinity or not-a-number. -/
def readSpecial : Reader Value := fun cs =>
  let s := Binary64.spanSign cs
  match s.2 with
  | 'i' :: 'n' :: 'f' :: rest => some (.float (.infinite s.1), rest)
  | 'n' :: 'a' :: 'n' :: rest => some (.float .nan, rest)
  | _ => none

/-! ### Scalars -/

/-- Reads what starts with a digit or a sign. -/
def readNumber : Reader Value := fun cs =>
  match readDatetime cs with
  | some (d, rest) => some (.datetime d, rest)
  | none => ((readDecimal cs).orElse fun _ => readSpecial cs).orElse fun _ => readInteger cs

/-- Reads a value that has no parts; its first character tells its kind. -/
def readScalar : Reader Value := fun cs =>
  match cs with
  | '"' :: _ | '\'' :: _ => (readString cs).map fun r => (.string r.1, r.2)
  | 't' :: 'r' :: 'u' :: 'e' :: rest => some (.boolean true, rest)
  | 'f' :: 'a' :: 'l' :: 's' :: 'e' :: rest => some (.boolean false, rest)
  | c :: _ =>
    if c.isDigit || c = '+' || c = '-' then readNumber cs
    else if c = 'i' || c = 'n' then readSpecial cs
    else none
  | [] => none

end EtherCore
