import EtherCore.Proofs.MacAddress

/-!
Ethernet addresses in their three forms.  What the reader accepts is written again as the same text
with small letters and colons, and an address, its text and its number are read back from one another
(`codec`).
-/

namespace EtherCore.MacAddress

open Text

/-! ### Texts of groups -/

/-- How a character of the notation is written. -/
def written (c : Char) : Char := if c.toLower = '-' then ':' else c.toLower

/-- The notation as it is written: no blanks at the ends, small letters, and colons for hyphens. -/
def canonical (s : String) : String :=
  String.ofList ((lower (trim s)).toList.map fun c => if c = '-' then ':' else c)

/-- The octets in small hexadecimal letters between colons. -/
def octetsText (os : List UInt8) : String := ":".intercalate (os.map fun o => hex 2 o.toNat)

/-- The digits of octets, two for each. -/
def digitsOf (os : List UInt8) : List Nat := os.flatMap fun o => [o.toNat / 16, o.toNat % 16]

theorem toList_canonical (s : String) : (canonical s).toList = (trimChars s.toList).map written := by
  rw [canonical, String.toList_ofList, lower, String.toList_ofList, trim, String.toList_ofList,
    List.map_map]
  rfl

theorem toList_hex {x y : Nat} (hx : x < 16) (hy : y < 16) :
    (hex 2 (16 * x + y)).toList = [Nat.digitChar x, Nat.digitChar y] := by
  have hall : ∀ x < 16, ∀ y < 16,
      padLeft 2 '0' (Nat.toDigits 16 (16 * x + y)) = [Nat.digitChar x, Nat.digitChar y] := by
    decide +kernel
  rw [hex, String.toList_ofList, hall x hx y hy]

theorem toList_octetsText_cons (o p : UInt8) (os : List UInt8) :
    (octetsText (o :: p :: os)).toList =
      (hex 2 o.toNat).toList ++ ':' :: (octetsText (p :: os)).toList := by
  rw [octetsText, List.map_cons, List.map_cons, String.intercalate_cons_cons, String.toList_append,
    String.toList_append, List.append_assoc]
  rfl

theorem toList_octetsText_singleton (o : UInt8) :
    (octetsText [o]).toList = (hex 2 o.toNat).toList := by
  rw [octetsText, List.map_singleton, String.intercalate_singleton]

theorem written_of_hexDigit? {c : Char} {x : Nat} (h : hexDigit? c = some x) :
    written c = Nat.digitChar x := by
  have hhyphen : ∀ x < 16, Nat.digitChar x ≠ '-' := by decide
  obtain ⟨hx, hc⟩ := hexDigit?_eq_some_iff.1 h
  rw [written, hc, if_neg (hhyphen x hx)]

theorem written_of_separates {c : Char} (h : c = ':' ∨ c = '-') : written c = ':' := by
  rcases h with rfl | rfl <;> decide

namespace Groups

variable {cs : List Char} {ds : List Nat}

theorem isBlank_eq_false (h : Groups cs ds) : ∀ c ∈ cs, isBlank c = false := by
  have hdigit {c : Char} {x : Nat} (hc : hexDigit? c = some x) : isBlank c = false := by
    have hall : ∀ x < 16, isBlank (Nat.digitChar x) = false := by decide
    obtain ⟨hx, hc⟩ := hexDigit?_eq_some_iff.1 hc
    rw [← isBlank_toLower, hc, hall x hx]
  induction h with
  | last ha hb => simp [hdigit ha, hdigit hb]
  | @cons a b c x y cs ds ha hb hc h ih =>
    have hsep : isBlank c = false := by
      rcases hc with rfl | rfl <;> decide
    simpa [hdigit ha, hdigit hb, hsep] using ih

/-- A text of groups has one sequence of digits. -/
theorem unique {ds' : List Nat} (h : Groups cs ds) (h' : Groups cs ds') : ds = ds' := by
  induction h generalizing ds' with
  | last ha hb =>
    cases h' with
    | last ha' hb' =>
      obtain rfl := Option.some.inj (ha.symm.trans ha')
      obtain rfl := Option.some.inj (hb.symm.trans hb')
      rfl
  | cons ha hb hc h ih =>
    cases h' with
    | cons ha' hb' hc' h' =>
      obtain rfl := Option.some.inj (ha.symm.trans ha')
      obtain rfl := Option.some.inj (hb.symm.trans hb')
      rw [ih h']

/-- A text of groups has an octet. -/
theorem exists_octetsOf (h : Groups cs ds) : ∃ o os, octetsOf ds = o :: os := by
  cases h with
  | last ha hb => exact ⟨_, [], rfl⟩
  | cons ha hb hc h => exact ⟨_, _, rfl⟩

/-- The octets of a text of groups are written as the text is. -/
theorem toList_octetsText (h : Groups cs ds) :
    (octetsText (octetsOf ds)).toList = cs.map written := by
  have hgroup {a b : Char} {x y : Nat} (ha : hexDigit? a = some x) (hb : hexDigit? b = some y) :
      (hex 2 (UInt8.ofNat (16 * x + y)).toNat).toList = [written a, written b] := by
    rw [toNat_ofDigits ha hb, toList_hex (hexDigit?_eq_some_iff.1 ha).1
      (hexDigit?_eq_some_iff.1 hb).1, written_of_hexDigit? ha, written_of_hexDigit? hb]
  induction h with
  | last ha hb =>
    show (octetsText [_]).toList = _
    rw [toList_octetsText_singleton, hgroup ha hb]
    rfl
  | cons ha hb hc h ih =>
    obtain ⟨o, os, hos⟩ := h.exists_octetsOf
    rw [hos] at ih
    rw [octetsOf, hos, toList_octetsText_cons, hgroup ha hb, ih, List.map_cons, List.map_cons,
      List.map_cons, written_of_separates hc]
    rfl

end Groups

/-! ### Texts of octets -/

theorem octetsOf_digitsOf (os : List UInt8) : octetsOf (digitsOf os) = os := by
  induction os with
  | nil => rfl
  | cons o os ih =>
    have hsum : 16 * (o.toNat / 16) + o.toNat % 16 = o.toNat := Nat.div_add_mod _ _
    show UInt8.ofNat (16 * (o.toNat / 16) + o.toNat % 16) :: octetsOf (digitsOf os) = o :: os
    rw [hsum, ih, UInt8.ofNat_toNat]

/-- What is written for octets is a text of groups. -/
theorem groups_octetsText (o : UInt8) (os : List UInt8) :
    Groups (octetsText (o :: os)).toList (digitsOf (o :: os)) := by
  have hhex (o : UInt8) :
      (hex 2 o.toNat).toList = [Nat.digitChar (o.toNat / 16), Nat.digitChar (o.toNat % 16)] := by
    have hlt := o.toNat_lt
    rw [← toList_hex (by omega) (Nat.mod_lt _ (by decide)), Nat.div_add_mod]
  have hhigh (o : UInt8) : hexDigit? (Nat.digitChar (o.toNat / 16)) = some (o.toNat / 16) := by
    have hlt := o.toNat_lt
    exact hexDigit?_digitChar (by omega)
  have hlow (o : UInt8) : hexDigit? (Nat.digitChar (o.toNat % 16)) = some (o.toNat % 16) :=
    hexDigit?_digitChar (Nat.mod_lt _ (by decide))
  induction os generalizing o with
  | nil =>
    rw [toList_octetsText_singleton, hhex]
    exact .last (hhigh o) (hlow o)
  | cons p os ih =>
    rw [toList_octetsText_cons, hhex]
    exact .cons (hhigh o) (hlow o) (Or.inl rfl) (ih p)

/-! ### The three forms -/

/-- A text is read exactly if it is six groups, as the number that the digits form, and the address
is written as the text is. -/
structure Reads (s : String) : Prop where
  accepted_iff : (∃ m, parse s = .ok m) ↔
    ∃ ds, Groups (trimChars s.toList) ds ∧ ds.length = 12
  value : ∀ m, parse s = .ok m → ∀ ds, Groups (trimChars s.toList) ds →
    m.toWord.toNat = ofDigits 16 ds
  text : ∀ m, parse s = .ok m → m.text = canonical s

/-- An address is read back from its text and from its number. -/
structure ReadBack (m : MacAddress) : Prop where
  parse_text : parse m.text = .ok m
  ofNat?_toWord : ofNat? m.toWord.toNat = some m

/-- A word is the number of an address exactly if it has at most 48 bits. -/
structure OfWord (v : UInt64) : Prop where
  some_iff : (∃ m, ofNat? v.toNat = some m ∧ m.toWord = v) ↔ v.toNat < 2 ^ 48
  none_iff : ofNat? v.toNat = none ↔ ¬ v.toNat < 2 ^ 48

theorem exists_parse_iff {s : String} :
    (∃ m, parse s = .ok m) ↔ ∃ ds, Groups (trimChars s.toList) ds ∧ ds.length = 12 := by
  constructor
  · rintro ⟨m, hm⟩
    obtain ⟨ds, hds, hlength, -⟩ := parse_eq_ok_iff.1 hm
    exact ⟨ds, hds, hlength⟩
  · rintro ⟨ds, hds, hlength⟩
    obtain ⟨m, hm, -⟩ := exists_parse ⟨ds, hds, hlength, rfl⟩
    exact ⟨m, hm⟩

/-- An address is written as the text that it was read from, in its canonical form. -/
theorem text_of_parse {s : String} {m : MacAddress} (h : parse s = .ok m) :
    m.text = canonical s := by
  obtain ⟨ds, hds, hoctets⟩ := Groups.of_octets (parse_eq_ok.1 h)
  apply String.toList_injective
  show (octetsText m.octets).toList = _
  rw [toList_canonical, ← hds.toList_octetsText, hoctets]

theorem parse_text (m : MacAddress) : parse m.text = .ok m := by
  have hgroups : Groups m.text.toList (digitsOf m.octets) := groups_octetsText _ _
  rw [parse_eq_ok, trimChars_of_forall hgroups.isBlank_eq_false, hgroups.octets, octetsOf_digitsOf]

theorem ofNat?_toNat (m : MacAddress) : ofNat? m.toNat = some m := by
  obtain ⟨m', hm', hsame⟩ := exists_ofNat? m.toNat_lt
  rw [hm', eq_of_toNat_eq hsame]

theorem ofNat?_eq_none_iff {n : Nat} : ofNat? n = none ↔ ¬ n < 2 ^ 48 := by
  constructor
  · intro hnone hlt
    obtain ⟨m, hm, -⟩ := exists_ofNat? hlt
    rw [hnone] at hm
    cases hm
  · intro hlt
    by_contra hsome
    obtain ⟨m, hm⟩ := Option.ne_none_iff_exists'.1 hsome
    rw [← toNat_of_ofNat? hm] at hlt
    exact hlt m.toNat_lt

/-- Texts, addresses and words are read from one another without loss. -/
theorem codec : (∀ s, Reads s) ∧ (∀ m, ReadBack m) ∧ ∀ v, OfWord v := by
  refine ⟨fun s => ⟨exists_parse_iff, fun m hm ds hds => ?_, fun m => text_of_parse⟩,
    fun m => ⟨parse_text m, ?_⟩, fun v => ⟨⟨?_, fun hv => ?_⟩, ofNat?_eq_none_iff⟩⟩
  · obtain ⟨ds', hds', -, hvalue⟩ := parse_eq_ok_iff.1 hm
    rw [hds.unique hds', hvalue, toNat_toWord]
  · rw [toNat_toWord, ofNat?_toNat]
  · rintro ⟨m, hm, -⟩
    rw [← toNat_of_ofNat? hm]
    exact m.toNat_lt
  · obtain ⟨m, hm, hvalue⟩ := exists_ofNat? hv
    exact ⟨m, hm, UInt64.toNat_inj.1 (m.toNat_toWord.trans hvalue)⟩

/-- Both separators in one text, letters in both cases, and blanks at the ends. -/
example :
    let m : MacAddress := ⟨0x10, 0xe2, 0xd5, 0x00, 0x0a, 0xff⟩
    parse " 10-E2:d5-00:0A-ff\n" = .ok m ∧ m.text = "10:e2:d5:00:0a:ff" ∧
      m.toWord = 0x10e2d5000aff := by
  decide +kernel

end EtherCore.MacAddress
