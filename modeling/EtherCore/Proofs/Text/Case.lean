import EtherCore.Text.Ascii
import EtherCore.Text.Blank
import Mathlib.Data.List.Basic

/-!
Letters, digits and blanks.  Letters are no blanks in either case, so that folding the case of a
text moves no blank (`trimChars_map_toLower`), and a hexadecimal digit is known by its lower case
(`hexDigit?_eq_some_iff`).
-/

namespace EtherCore.Text

/-! ### ASCII -/

/-- A property of ASCII characters is checked at each of their numbers. -/
theorem ascii_forall {P : Char → Prop} (h : ∀ n < 128, P (Char.ofNat n)) {c : Char}
    (hc : c.toNat < 128) : P c := by
  have hnumber := h c.toNat hc
  rwa [c.ofNat_toNat] at hnumber

/-- Only ASCII letters have a case. -/
theorem toLower_of_not_ascii {c : Char} (hc : ¬ c.toNat < 128) : c.toLower = c := by
  unfold Char.toLower
  refine dif_neg ?_
  rintro ⟨-, hZ⟩
  have hZ' : c.toNat ≤ 90 := UInt32.le_iff_toNat_le.1 hZ
  omega

/-! ### Blanks -/

/-- Letters are no blanks in either case. -/
theorem isBlank_toLower (c : Char) : isBlank c.toLower = isBlank c := by
  by_cases hc : c.toNat < 128
  · exact ascii_forall (P := fun c => isBlank c.toLower = isBlank c) (by decide +kernel) hc
  · rw [toLower_of_not_ascii hc]

theorem trimChars_map_toLower (cs : List Char) :
    trimChars (cs.map Char.toLower) = (trimChars cs).map Char.toLower := by
  have hblank : isBlank ∘ Char.toLower = isBlank := funext isBlank_toLower
  unfold trimChars
  rw [List.dropWhile_map, hblank, ← List.map_reverse, List.dropWhile_map, hblank, List.map_reverse]

theorem dropWhile_isBlank_of_forall {cs : List Char} (h : ∀ c ∈ cs, isBlank c = false) :
    cs.dropWhile isBlank = cs := by
  cases cs with
  | nil => rfl
  | cons c cs =>
    apply List.dropWhile_cons_of_neg
    simp [h c List.mem_cons_self]

/-- A text without blanks has none at its ends. -/
theorem trimChars_of_forall {cs : List Char} (h : ∀ c ∈ cs, isBlank c = false) :
    trimChars cs = cs := by
  have hreverse : ∀ c ∈ cs.reverse, isBlank c = false := fun c hc => h c (List.mem_reverse.1 hc)
  rw [trimChars, dropWhile_isBlank_of_forall h, dropWhile_isBlank_of_forall hreverse,
    List.reverse_reverse]

/-! ### Hexadecimal digits -/

theorem toNat_lt_of_hexDigit? {c : Char} {x : Nat} (h : hexDigit? c = some x) : c.toNat < 128 := by
  unfold hexDigit? at h
  split_ifs at h with hdigit hlower hupper
  · have hhigh : c.toNat ≤ 57 := hdigit.2
    omega
  · have hhigh : c.toNat ≤ 102 := hlower.2
    omega
  · have hhigh : c.toNat ≤ 70 := hupper.2
    omega

theorem toLower_of_hexDigit? {c : Char} {x : Nat} (h : hexDigit? c = some x) :
    x < 16 ∧ c.toLower = Nat.digitChar x :=
  ascii_forall (P := fun c => ∀ x ∈ hexDigit? c, x < 16 ∧ c.toLower = Nat.digitChar x)
    (by decide +kernel) (toNat_lt_of_hexDigit? h) x h

theorem hexDigit?_digitChar {x : Nat} (hx : x < 16) : hexDigit? (Nat.digitChar x) = some x := by
  have hall : ∀ x < 16, hexDigit? (Nat.digitChar x) = some x := by decide
  exact hall x hx

/-- A hexadecimal digit is the digit of its value in either case. -/
theorem hexDigit?_eq_some_iff {c : Char} {x : Nat} :
    hexDigit? c = some x ↔ x < 16 ∧ c.toLower = Nat.digitChar x := by
  refine ⟨toLower_of_hexDigit?, ?_⟩
  rintro ⟨hx, hc⟩
  by_cases hascii : c.toNat < 128
  · exact ascii_forall
      (P := fun c => ∀ x < 16, c.toLower = Nat.digitChar x → hexDigit? c = some x)
      (by decide +kernel) hascii x hx hc
  · rw [← hexDigit?_digitChar hx, ← hc, toLower_of_not_ascii hascii]

end EtherCore.Text
