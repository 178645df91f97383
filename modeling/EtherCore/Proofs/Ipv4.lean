import EtherCore.Ipv4
import EtherCore.Proofs.Text.Split
import Mathlib.Tactic.IntervalCases

/-!
Internet addresses in their notation.  It is four octets in decimal between points, each with no
digit more than it needs, and the reader accepts exactly that (`parse?_eq_some_iff`).
-/

namespace EtherCore.Ipv4

open Text

/-! ### Octets -/

theorem decimalDigit?_eq_some {c : Char} {x : Nat} (h : decimalDigit? c = some x) :
    x < 10 ∧ c = Nat.digitChar x := by
  unfold decimalDigit? at h
  split at h
  · next hc =>
    have hlow : 48 ≤ c.toNat := hc.1
    have hhigh : c.toNat ≤ 57 := hc.2
    have hx : c.toNat - 48 = x := Option.some.inj h
    refine ⟨by omega, ?_⟩
    rw [← c.ofNat_toNat, ← hx]
    interval_cases c.toNat <;> rfl
  · cases h

theorem eq_map_digitChar {cs : List Char} {ds : List Nat}
    (h : cs.mapM decimalDigit? = some ds) : cs = ds.map Nat.digitChar ∧ ∀ d ∈ ds, d < 10 := by
  induction cs generalizing ds with
  | nil =>
    cases h
    exact ⟨rfl, fun _ hd => absurd hd List.not_mem_nil⟩
  | cons c cs ih =>
    simp only [List.mapM_cons, Option.bind_eq_bind, Option.bind_eq_some_iff, Option.pure_def,
      Option.some.injEq] at h
    obtain ⟨x, hx, ds, hds, rfl⟩ := h
    obtain ⟨hlt, rfl⟩ := decimalDigit?_eq_some hx
    obtain ⟨rfl, hall⟩ := ih hds
    exact ⟨rfl, List.forall_mem_cons.2 ⟨hlt, hall⟩⟩

/-- Up to three digits, of which the first of several is not zero, are the notation of their
number. -/
theorem toDigits_ofDigits {ds : List Nat} (hlt : ∀ d ∈ ds, d < 10) (hnil : ds ≠ [])
    (hlength : ds.length ≤ 3) (hzero : ds.head? = some 0 → ds.length ≤ 1) :
    Nat.toDigits 10 (ofDigits 10 ds) = ds.map Nat.digitChar := by
  have one : ∀ x < 10, Nat.toDigits 10 (ofDigits 10 [x]) = [x].map Nat.digitChar := by decide
  have two : ∀ x < 10, x ≠ 0 → ∀ y < 10,
      Nat.toDigits 10 (ofDigits 10 [x, y]) = [x, y].map Nat.digitChar := by decide +kernel
  have three : ∀ x < 10, x ≠ 0 → ∀ y < 10, ∀ z < 10,
      Nat.toDigits 10 (ofDigits 10 [x, y, z]) = [x, y, z].map Nat.digitChar := by decide +kernel
  match ds with
  | [] => exact absurd rfl hnil
  | [x] => exact one x (hlt x (by simp))
  | [x, y] =>
    have hx : x ≠ 0 := by
      rintro rfl
      exact absurd (hzero rfl) (by simp)
    exact two x (hlt x (by simp)) hx y (hlt y (by simp))
  | [x, y, z] =>
    have hx : x ≠ 0 := by
      rintro rfl
      exact absurd (hzero rfl) (by simp)
    exact three x (hlt x (by simp)) hx y (hlt y (by simp)) z (hlt z (by simp))
  | _ :: _ :: _ :: _ :: _ =>
    simp only [List.length_cons] at hlength
    omega

/-- The reader of an octet accepts exactly the decimal notation of a number below 256. -/
theorem octet?_eq_some_iff {cs : List Char} {n : Nat} :
    octet? cs = some n ↔ n < 256 ∧ cs = Nat.toDigits 10 n := by
  constructor
  · intro h
    unfold octet? at h
    split at h
    · cases h
    · next ds hds =>
      obtain ⟨rfl, hlt⟩ := eq_map_digitChar hds
      dsimp only at h
      split at h
      · cases h
      · next hchecks =>
        simp only [not_or, not_and, Nat.not_lt] at hchecks
        obtain ⟨hnil, hlength, hzero, hle⟩ := hchecks
        obtain rfl := Option.some.inj h
        exact ⟨by omega, (toDigits_ofDigits hlt hnil hlength hzero).symm⟩
  · rintro ⟨hn, rfl⟩
    have hall : ∀ n < 256, octet? (Nat.toDigits 10 n) = some n := by decide +kernel
    exact hall n hn

/-! ### Addresses -/

/-- Four octets in decimal between points. -/
def quad (a b c d : Nat) : String :=
  toString a ++ "." ++ toString b ++ "." ++ toString c ++ "." ++ toString d

/-- A text denotes a number as an internet address: it is four octets between points, of which the
first is the most significant. -/
def Denotes (s : String) (n : Nat) : Prop :=
  ∃ a b c d : Nat, a < 256 ∧ b < 256 ∧ c < 256 ∧ d < 256 ∧ s = quad a b c d ∧
    n = ofDigits 256 [a, b, c, d]

theorem toList_quad (a b c d : Nat) : (quad a b c d).toList = Nat.toDigits 10 a
    ++ '.' :: (Nat.toDigits 10 b ++ '.' :: (Nat.toDigits 10 c ++ '.' :: Nat.toDigits 10 d)) := by
  simp [quad]

theorem splitOn_quad (a b c d : Nat) : splitOn (fun x => x = '.') (quad a b c d).toList
    = [Nat.toDigits 10 a, Nat.toDigits 10 b, Nat.toDigits 10 c, Nat.toDigits 10 d] := by
  have hdigits (n : Nat) : ∀ x ∈ Nat.toDigits 10 n, decide (x = '.') = false := by
    intro x hx
    have hdigit := Nat.isDigit_of_mem_toDigits (by decide) (by decide) hx
    refine decide_eq_false fun hdot => ?_
    rw [hdot] at hdigit
    revert hdigit
    decide
  rw [toList_quad, splitOn_append_cons (hdigits a) rfl, splitOn_append_cons (hdigits b) rfl,
    splitOn_append_cons (hdigits c) rfl, splitOn_of_forall (hdigits d)]

theorem ofDigits_lt {a b c d : Nat} (ha : a < 256) (hb : b < 256) (hc : c < 256) (hd : d < 256) :
    ofDigits 256 [a, b, c, d] < 2 ^ 32 := by
  simp only [ofDigits, List.foldl_cons, List.foldl_nil]
  omega

theorem exists_parse? {s : String} {n : Nat} (h : Denotes s n) :
    ∃ a, parse? s = some a ∧ a.value.toNat = n := by
  obtain ⟨a, b, c, d, ha, hb, hc, hd, rfl, rfl⟩ := h
  refine ⟨⟨UInt32.ofNat (ofDigits 256 [a, b, c, d])⟩, ?_,
    UInt32.toNat_ofNat_of_lt' (ofDigits_lt ha hb hc hd)⟩
  unfold parse?
  rw [splitOn_quad]
  simp only [List.map_cons, List.map_nil, octet?_eq_some_iff.2 ⟨ha, rfl⟩,
    octet?_eq_some_iff.2 ⟨hb, rfl⟩, octet?_eq_some_iff.2 ⟨hc, rfl⟩, octet?_eq_some_iff.2 ⟨hd, rfl⟩]

theorem denotes_of_parse? {s : String} {x : Ipv4} (h : parse? s = some x) :
    Denotes s x.value.toNat := by
  unfold parse? at h
  split at h
  · next a b c d hparts =>
    obtain rfl := Option.some.inj h
    obtain ⟨p, ps, hp, ha, hps⟩ := List.map_eq_cons_iff.1 hparts
    obtain ⟨q, qs, rfl, hb, hqs⟩ := List.map_eq_cons_iff.1 hps
    obtain ⟨r, rs, rfl, hc, hrs⟩ := List.map_eq_cons_iff.1 hqs
    obtain ⟨t, ts, rfl, hd, hts⟩ := List.map_eq_cons_iff.1 hrs
    obtain rfl := List.map_eq_nil_iff.1 hts
    obtain ⟨ha', rfl⟩ := octet?_eq_some_iff.1 ha
    obtain ⟨hb', rfl⟩ := octet?_eq_some_iff.1 hb
    obtain ⟨hc', rfl⟩ := octet?_eq_some_iff.1 hc
    obtain ⟨hd', rfl⟩ := octet?_eq_some_iff.1 hd
    refine ⟨a, b, c, d, ha', hb', hc', hd', String.toList_injective ?_, ?_⟩
    · rw [toList_quad, ← intercalate_splitOn '.' s.toList, hp]
      simp [List.intercalate]
    · exact UInt32.toNat_ofNat_of_lt' (ofDigits_lt ha' hb' hc' hd')
  · cases h

/-- The reader accepts exactly the texts that denote an address, as the address that they denote. -/
theorem parse?_eq_some_iff {s : String} {a : Ipv4} :
    parse? s = some a ↔ Denotes s a.value.toNat := by
  refine ⟨denotes_of_parse?, fun h => ?_⟩
  obtain ⟨a', ha', hsame⟩ := exists_parse? h
  rw [ha', show a' = a from congrArg mk (UInt32.toNat_inj.1 hsame)]

end EtherCore.Ipv4
