/-!
Double precision numbers as exact values: a signed magnitude `m * 2 ^ e`, an infinity, or not a
number.  Every operation takes the exact result, a quotient of natural numbers, and rounds it
once to the nearest number, a half to the even neighbour.
-/

namespace EtherCore

/-- The pairs `(m, e)` that name the magnitude `m * 2 ^ e` of a finite double, one pair for each
magnitude. -/
def Canonical (m : Nat) (e : Int) : Prop :=
  m < Nat.pow 2 53 ∧ -1074 ≤ e ∧ e ≤ 971 ∧ (Nat.pow 2 52 ≤ m ∨ e = -1074)

instance (m : Nat) (e : Int) : Decidable (Canonical m e) := by
  unfold Canonical; infer_instance

/-- A double precision number. -/
inductive Binary64 where
  | finite (negative : Bool) (mantissa : Nat) (exponent : Int)
      (canonical : Canonical mantissa exponent)
  | infinite (negative : Bool)
  | nan
deriving DecidableEq

namespace Binary64

/-! ### Rounding a quotient -/

/-- The quotient `num / den` as a natural number, a half to the even neighbour. -/
def roundHalfEven (num den : Nat) : Nat :=
  let q := num / den
  let r := num % den
  if 2 * r < den then q else if den < 2 * r then q + 1 else q + q % 2

/-- The quotient `num / den * 2 ^ e`, again as a numerator and a denominator. -/
def scaled (num den : Nat) (e : Int) : Nat × Nat :=
  (num * Nat.pow 2 e.toNat, den * Nat.pow 2 (-e).toNat)

/-- The exponent of the greatest power of two that is at most `num / den`. -/
def floorLog2 (num den : Nat) : Int :=
  let k : Int := (num.log2 : Int) - den.log2
  let s := scaled num den (-k)
  if s.1 < s.2 then k - 1 else k

/-- A zero of either sign. -/
def zero (negative : Bool) : Binary64 := .finite negative 0 (-1074) (by decide)

/-- The number `m * 2 ^ e`, or an infinity where the pair is too large for a finite double. -/
def ofPair (negative : Bool) (m : Nat) (e : Int) : Binary64 :=
  if h : Canonical m e then .finite negative m e h else .infinite negative

/-- The double nearest to `num / den`. -/
def nearest (negative : Bool) (num den : Nat) : Binary64 :=
  if num = 0 then zero negative
  else
    let e := max (floorLog2 num den - 52) (-1074)
    let s := scaled num den (-e)
    let m := roundHalfEven s.1 s.2
    if m = Nat.pow 2 53 then ofPair negative (Nat.pow 2 52) (e + 1) else ofPair negative m e

/-- The double nearest to `num / den * 2 ^ e`. -/
def nearestScaled (negative : Bool) (num den : Nat) (e : Int) : Binary64 :=
  nearest negative (scaled num den e).1 (scaled num den e).2

/-- The double nearest to a natural number. -/
def ofNat (n : Nat) : Binary64 := nearest false n 1

/-! ### Arithmetic -/

/-- The product, rounded once. -/
def mul : Binary64 → Binary64 → Binary64
  | .finite s m e _, .finite t n f _ => nearestScaled (s != t) (m * n) 1 (e + f)
  | .finite s m _ _, .infinite t => if m = 0 then .nan else .infinite (s != t)
  | .infinite s, .finite t n _ _ => if n = 0 then .nan else .infinite (s != t)
  | .infinite s, .infinite t => .infinite (s != t)
  | _, _ => .nan

/-- The quotient, rounded once. -/
def div : Binary64 → Binary64 → Binary64
  | .finite s m e _, .finite t n f _ =>
    if n = 0 then if m = 0 then .nan else .infinite (s != t)
    else nearestScaled (s != t) m n (e - f)
  | .finite s _ _ _, .infinite t => zero (s != t)
  | .infinite s, .finite t _ _ _ => .infinite (s != t)
  | _, _ => .nan

/-! ### Order and whole numbers -/

/-- The value in units of the least positive double, with the infinities just beyond the finite
values; nothing for not-a-number. -/
def units? : Binary64 → Option Int
  | .finite s m e _ =>
    let n : Int := (m * Nat.pow 2 (e + 1074).toNat : Nat)
    some (if s then -n else n)
  | .infinite s => some (if s then -(Nat.pow 2 2098 : Nat) else (Nat.pow 2 2098 : Nat))
  | .nan => none

/-- Tells whether one number is below another; not-a-number is below nothing. -/
def lt (x y : Binary64) : Bool :=
  match x.units?, y.units? with
  | some a, some b => a < b
  | _, _ => false

/-- Tells whether the value is a real number. -/
def isFinite : Binary64 → Bool
  | .finite .. => true
  | _ => false

/-- The whole part, held between zero and the greatest 64-bit word. -/
def toWord : Binary64 → UInt64
  | .finite false m e _ =>
    UInt64.ofNat (min (m * Nat.pow 2 e.toNat / Nat.pow 2 (-e).toNat) (UInt64.size - 1))
  | .infinite false => UInt64.ofNat (UInt64.size - 1)
  | _ => 0

/-! ### The 64-bit pattern -/

/-- The number of a 64-bit pattern: a sign bit, eleven bits of exponent, 52 of fraction. -/
def ofBits (bits : UInt64) : Binary64 :=
  let n : Nat := bits.toNat
  let negative : Bool := Nat.pow 2 63 ≤ n
  let field : Nat := n / Nat.pow 2 52 % Nat.pow 2 11
  let fraction : Nat := n % Nat.pow 2 52
  if field = 2047 then if fraction = 0 then .infinite negative else .nan
  else if field = 0 then ofPair negative fraction (-1074)
  else ofPair negative (Nat.pow 2 52 + fraction) ((field : Int) - 1075)

/-- The 64-bit pattern of a number; not-a-number has one pattern. -/
def toBits (x : Binary64) : UInt64 :=
  let sign (negative : Bool) : Nat := if negative then Nat.pow 2 63 else 0
  UInt64.ofNat <| match x with
    | .finite s m e _ =>
      if m < Nat.pow 2 52 then sign s + m
      else sign s + (e + 1075).toNat * Nat.pow 2 52 + (m - Nat.pow 2 52)
    | .infinite s => sign s + 2047 * Nat.pow 2 52
    | .nan => 2047 * Nat.pow 2 52 + Nat.pow 2 51

end Binary64

end EtherCore
