import EtherCore.MacAddress
import EtherCore.Proofs.Text.Case
import EtherCore.Proofs.Text.Split
import Mathlib.Algebra.Ring.Nat

/-!
Ethernet addresses and the numbers that they stand for.  The notation is six groups of two
hexadecimal digits, and the reader accepts exactly that, with the number that the twelve digits
form (`parse_eq_ok_iff`).
-/

namespace EtherCore.MacAddress

open Text

/-! ### Numbers -/

theorem toNat_eq (m : MacAddress) : m.toNat = 256 * (256 * (256 * (256 * (256 * m.o₁.toNat
    + m.o₂.toNat) + m.o₃.toNat) + m.o₄.toNat) + m.o₅.toNat) + m.o₆.toNat := by
  simp [toNat, octets, ofDigits]

theorem toNat_lt (m : MacAddress) : m.toNat < 2 ^ 48 := by
  have h₁ := m.o₁.toNat_lt
  have h₂ := m.o₂.toNat_lt
  have h₃ := m.o₃.toNat_lt
  have h₄ := m.o₄.toNat_lt
  have h₅ := m.o₅.toNat_lt
  have h₆ := m.o₆.toNat_lt
  rw [toNat_eq]
  omega

theorem toNat_toWord (m : MacAddress) : m.toWord.toNat = m.toNat := by
  have := m.toNat_lt
  exact UInt64.toNat_ofNat_of_lt' (by unfold UInt64.size; omega)

/-- Different addresses stand for different numbers. -/
theorem eq_of_toNat_eq {m m' : MacAddress} (h : m.toNat = m'.toNat) : m = m' := by
  have h₂ := m.o₂.toNat_lt
  have h₃ := m.o₃.toNat_lt
  have h₄ := m.o₄.toNat_lt
  have h₅ := m.o₅.toNat_lt
  have h₆ := m.o₆.toNat_lt
  have h₂' := m'.o₂.toNat_lt
  have h₃' := m'.o₃.toNat_lt
  have h₄' := m'.o₄.toNat_lt
  have h₅' := m'.o₅.toNat_lt
  have h₆' := m'.o₆.toNat_lt
  rw [toNat_eq, toNat_eq] at h
  obtain ⟨a, b, c, d, e, f⟩ := m
  obtain ⟨a', b', c', d', e', f'⟩ := m'
  simp only [mk.injEq, ← UInt8.toNat_inj] at *
  omega

theorem toNat_of_ofNat? {n : Nat} {m : MacAddress} (h : ofNat? n = some m) : m.toNat = n := by
  unfold ofNat? at h
  dsimp only at h
  split at h
  · next hn =>
    obtain rfl := Option.some.inj h
    have hn' : n < 2 ^ 48 := hn
    simp only [toNat_eq, UInt8.toNat_ofNat', Nat.shiftRight_eq_div_pow]
    omega
  · cases h

theorem exists_ofNat? {n : Nat} (h : n < 2 ^ 48) : ∃ m, ofNat? n = some m ∧ m.toNat = n := by
  have hn : n < Nat.pow 2 48 := h
  have hsome : ∃ m, ofNat? n = some m := by
    unfold ofNat?
    dsimp only
    rw [if_pos hn]
    exact ⟨_, rfl⟩
  obtain ⟨m, hm⟩ := hsome
  exact ⟨m, hm, toNat_of_ofNat? hm⟩

/-! ### Notation -/

/-- Groups of two hexadecimal digits between colons or hyphens, with the values of the digits. -/
inductive Groups : List Char → List Nat → Prop
  | last {a b : Char} {x y : Nat} (ha : hexDigit? a = some x) (hb : hexDigit? b = some y) :
    Groups [a, b] [x, y]
  | cons {a b c : Char} {x y : Nat} {cs : List Char} {ds : List Nat} (ha : hexDigit? a = some x)
    (hb : hexDigit? b = some y) (hc : c = ':' ∨ c = '-') (h : Groups cs ds) :
    Groups (a :: b :: c :: cs) (x :: y :: ds)

/-- A text denotes a number as an Ethernet address: it is six groups, with blanks at the ends, and
the number is that of the twelve digits. -/
def Denotes (s : String) (n : Nat) : Prop :=
  ∃ ds, Groups (trimChars s.toList) ds ∧ ds.length = 12 ∧ ofDigits 16 ds = n

/-- The characters between groups. -/
def separates (c : Char) : Bool := c = ':' || c = '-'

/-- The octets of which two digits each are given. -/
def octetsOf : List Nat → List UInt8
  | x :: y :: ds => UInt8.ofNat (16 * x + y) :: octetsOf ds
  | _ => []

/-- Two digits form an octet. -/
theorem toNat_ofDigits {a b : Char} {x y : Nat} (ha : hexDigit? a = some x)
    (hb : hexDigit? b = some y) : (UInt8.ofNat (16 * x + y)).toNat = 16 * x + y := by
  have := (toLower_of_hexDigit? ha).1
  have := (toLower_of_hexDigit? hb).1
  exact UInt8.toNat_ofNat_of_lt' (by unfold UInt8.size; omega)

theorem separates_of_hexDigit? {c : Char} {x : Nat} (h : hexDigit? c = some x) :
    separates c = false := by
  have hcolon : hexDigit? ':' = none := by decide
  have hhyphen : hexDigit? '-' = none := by decide
  cases hc : separates c with
  | false => rfl
  | true =>
    simp only [separates, Bool.or_eq_true, decide_eq_true_eq] at hc
    rcases hc with rfl | rfl
    · rw [hcolon] at h
      cases h
    · rw [hhyphen] at h
      cases h

theorem octet?_eq_some {cs : List Char} {o : UInt8} (h : octet? cs = some o) :
    ∃ a b x y, cs = [a, b] ∧ hexDigit? a = some x ∧ hexDigit? b = some y ∧
      o = UInt8.ofNat (16 * x + y) := by
  unfold octet? at h
  split at h
  · next a b =>
    split at h
    · next x y hx hy => exact ⟨a, b, x, y, rfl, hx, hy, (Option.some.inj h).symm⟩
    · cases h
  · cases h

namespace Groups

variable {cs : List Char} {ds : List Nat}

/-- The parts of a text of groups are its octets. -/
theorem octets (h : Groups cs ds) :
    (splitOn separates cs).map octet? = (octetsOf ds).map some := by
  induction h with
  | @last a b x y ha hb =>
    have hone : ∀ c ∈ [a, b], separates c = false := by
      simp [separates_of_hexDigit? ha, separates_of_hexDigit? hb]
    rw [splitOn_of_forall hone]
    simp [octet?, ha, hb, octetsOf]
  | @cons a b c x y cs ds ha hb hc h ih =>
    have hone : ∀ c ∈ [a, b], separates c = false := by
      simp [separates_of_hexDigit? ha, separates_of_hexDigit? hb]
    have hsep : separates c = true := by simpa [separates] using hc
    rw [show a :: b :: c :: cs = [a, b] ++ c :: cs from rfl, splitOn_append_cons hone hsep,
      List.map_cons, ih]
    simp [octet?, ha, hb, octetsOf]

/-- A text whose parts are octets is one of groups. -/
theorem of_octets {os : List UInt8} (h : (splitOn separates cs).map octet? = os.map some) :
    ∃ ds, Groups cs ds ∧ octetsOf ds = os := by
  induction os generalizing cs with
  | nil => exact absurd (List.map_eq_nil_iff.1 h) (splitOn_ne_nil separates cs)
  | cons o os ih =>
    obtain hone | ⟨front, c, rest, rfl, hc, hfront⟩ := splitOn_cases separates cs
    · rw [splitOn_of_forall hone] at h
      obtain ⟨ho, hos⟩ := List.cons.inj h
      obtain ⟨a, b, x, y, rfl, ha, hb, rfl⟩ := octet?_eq_some ho
      obtain rfl := List.map_eq_nil_iff.1 hos.symm
      exact ⟨[x, y], .last ha hb, rfl⟩
    · rw [splitOn_append_cons hfront hc] at h
      obtain ⟨ho, hos⟩ := List.cons.inj h
      obtain ⟨a, b, x, y, rfl, ha, hb, rfl⟩ := octet?_eq_some ho
      obtain ⟨ds, hds, rfl⟩ := ih hos
      exact ⟨x :: y :: ds, .cons ha hb (by simpa [separates] using hc) hds, rfl⟩

theorem length_octetsOf (h : Groups cs ds) : ds.length = 2 * (octetsOf ds).length := by
  induction h with
  | last ha hb => rfl
  | cons ha hb hc h ih =>
    simp only [octetsOf, List.length_cons]
    omega

/-- The octets and the digits form one number. -/
theorem foldl_octetsOf (h : Groups cs ds) (n : Nat) :
    ((octetsOf ds).map UInt8.toNat).foldl (fun n d => 256 * n + d) n
      = ds.foldl (fun n d => 16 * n + d) n := by
  induction h generalizing n with
  | last ha hb =>
    simp only [octetsOf, List.map_cons, List.map_nil, List.foldl_cons, List.foldl_nil,
      toNat_ofDigits ha hb]
    omega
  | cons ha hb hc h ih =>
    simp only [octetsOf, List.map_cons, List.foldl_cons, toNat_ofDigits ha hb, ih]
    congr 1
    omega

/-- Six groups are the octets of an address, whose number is that of the digits. -/
theorem exists_octets (h : Groups cs ds) (hlength : ds.length = 12) :
    ∃ m : MacAddress, octetsOf ds = m.octets ∧ m.toNat = ofDigits 16 ds := by
  have hsix : (octetsOf ds).length = 6 := by
    have := h.length_octetsOf
    omega
  obtain ⟨m, hm⟩ : ∃ m : MacAddress, octetsOf ds = m.octets := by
    match octetsOf ds, hsix with
    | [a, b, c, d, e, f], _ => exact ⟨⟨a, b, c, d, e, f⟩, rfl⟩
  refine ⟨m, hm, ?_⟩
  rw [ofDigits, ← h.foldl_octetsOf, hm]
  rfl

end Groups

theorem parse_eq_ok {s : String} {m : MacAddress} :
    parse s = .ok m ↔
      (splitOn separates (trimChars s.toList)).map octet? = m.octets.map some := by
  unfold parse
  dsimp only
  rw [show (fun c => decide (c = ':') || decide (c = '-')) = separates from rfl]
  split
  · next a b c d e f heq =>
    rw [heq]
    obtain ⟨o₁, o₂, o₃, o₄, o₅, o₆⟩ := m
    simp [octets]
  · next hne =>
    constructor
    · intro h
      cases h
    · intro h
      exact absurd h (hne _ _ _ _ _ _)

/-- The reader accepts exactly the texts that denote an address, as the address that they denote. -/
theorem parse_eq_ok_iff {s : String} {m : MacAddress} :
    parse s = .ok m ↔ Denotes s m.toNat := by
  rw [parse_eq_ok]
  constructor
  · intro h
    obtain ⟨ds, hds, hos⟩ := Groups.of_octets h
    refine ⟨ds, hds, ?_, ?_⟩
    · rw [hds.length_octetsOf, hos]
      rfl
    · rw [ofDigits, ← hds.foldl_octetsOf, hos]
      rfl
  · rintro ⟨ds, hds, hlength, hvalue⟩
    obtain ⟨m', hm', hsame⟩ := hds.exists_octets hlength
    rw [hds.octets, hm', eq_of_toNat_eq (hsame.trans hvalue)]

theorem exists_parse {s : String} {n : Nat} (h : Denotes s n) :
    ∃ m, parse s = .ok m ∧ m.toNat = n := by
  obtain ⟨ds, hds, hlength, hvalue⟩ := h
  obtain ⟨m, -, hm⟩ := hds.exists_octets hlength
  rw [hvalue] at hm
  exact ⟨m, parse_eq_ok_iff.2 ⟨ds, hds, hlength, hvalue.trans hm.symm⟩, hm⟩

end EtherCore.MacAddress
