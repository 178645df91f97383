import EtherCore.Proofs.Binary64.Shortest
import Mathlib.Data.List.Basic

/-!
Doubles read back from their texts.  A text without an exponent is digits, and after a point further
digits (`Plain`).  It is read as the number that its digits denote, and every finite double is read
back from its text (`read?_text`).
-/

namespace EtherCore.Binary64

open Text

variable {cs : List Char} {ds fs : List ℕ} {m : ℕ} {e : ℤ}

/-! ### Digits -/

theorem decimalDigit?_digitChar {x : ℕ} (hx : x < 10) :
    decimalDigit? (Nat.digitChar x) = some x := by
  have hall : ∀ x < 10, decimalDigit? (Nat.digitChar x) = some x := by decide
  exact hall x hx

theorem ofDigits_concat (ds : List ℕ) (x : ℕ) :
    ofDigits 10 (ds ++ [x]) = 10 * ofDigits 10 ds + x := by
  simp [ofDigits]

/-- Zeros in front of digits denote nothing. -/
theorem ofDigits_zeros_append (k : ℕ) (ds : List ℕ) :
    ofDigits 10 (List.replicate k 0 ++ ds) = ofDigits 10 ds := by
  induction k with
  | zero => rfl
  | succ k ih => simpa [List.replicate_succ, ofDigits] using ih

/-- Zeros behind digits denote a power of ten. -/
theorem ofDigits_append_zeros (ds : List ℕ) (k : ℕ) :
    ofDigits 10 (ds ++ List.replicate k 0) = ofDigits 10 ds * 10 ^ k := by
  induction k with
  | zero => simp
  | succ k ih =>
    rw [List.replicate_succ', ← List.append_assoc, ofDigits_concat, ih]
    ring

/-- The notation of a number is digits that denote it. -/
theorem exists_digits (n : ℕ) : ∃ ds : List ℕ, ds ≠ [] ∧ (∀ x ∈ ds, x < 10) ∧
    Nat.toDigits 10 n = ds.map Nat.digitChar ∧ ofDigits 10 ds = n := by
  induction n using Nat.strong_induction_on with
  | _ n ih =>
    by_cases hn : n < 10
    · exact ⟨[n], by simp, by simpa using hn, Nat.toDigits_of_lt_base hn, by simp [ofDigits]⟩
    · obtain ⟨ds, hne, hds, hchars, hvalue⟩ := ih (n / 10) (by omega)
      refine ⟨ds ++ [n % 10], by simp, ?_, ?_, ?_⟩
      · intro x hx
        obtain hx | hx := List.mem_append.1 hx
        · exact hds x hx
        · rw [List.mem_singleton.1 hx]
          omega
      · rw [Nat.toDigits_of_base_le (by norm_num) (by omega), hchars, List.map_append]
        rfl
      · rw [ofDigits_concat, hvalue]
        omega

/-- Digits are read up to the first character that is no digit. -/
theorem spanDigits_append (hds : ∀ x ∈ ds, x < 10) (rest : List Char)
    (hrest : ∀ c ∈ rest.head?, decimalDigit? c = none) :
    spanDigits (ds.map Nat.digitChar ++ rest) = (ds, rest) := by
  induction ds with
  | nil =>
    cases rest with
    | nil => rfl
    | cons c rest => simp [spanDigits, hrest c rfl]
  | cons x ds ih =>
    obtain ⟨hx, hds⟩ := List.forall_mem_cons.1 hds
    simp [spanDigits, decimalDigit?_digitChar hx, ih hds]

theorem spanDigits_map (hds : ∀ x ∈ ds, x < 10) :
    spanDigits (ds.map Nat.digitChar) = (ds, []) := by
  simpa using spanDigits_append hds [] (by simp)

/-! ### Texts without an exponent -/

/-- The characters `cs` are the digits `ds`, and after a point the digits `fs`; without a point
there are none. -/
inductive Plain : List Char → List ℕ → List ℕ → Prop where
  | whole {ds : List ℕ} (hne : ds ≠ []) (hds : ∀ x ∈ ds, x < 10) :
      Plain (ds.map Nat.digitChar) ds []
  | point {ds fs : List ℕ} (hne : ds ≠ []) (hds : ∀ x ∈ ds, x < 10) (hfs : ∀ x ∈ fs, x < 10) :
      Plain (ds.map Nat.digitChar ++ '.' :: fs.map Nat.digitChar) ds fs

/-- A plain text has a digit in front. -/
theorem Plain.exists_cons (h : Plain cs ds fs) :
    ∃ x rest, x < 10 ∧ cs = Nat.digitChar x :: rest := by
  cases h with
  | whole hne hds =>
    obtain ⟨x, ds, rfl⟩ := List.exists_cons_of_ne_nil hne
    exact ⟨x, _, hds x (by simp), rfl⟩
  | point hne hds hfs =>
    obtain ⟨x, ds, rfl⟩ := List.exists_cons_of_ne_nil hne
    exact ⟨x, _, hds x (by simp), rfl⟩

/-- A plain text has nothing but digits and points. -/
theorem Plain.forall_mem (h : Plain cs ds fs) {c : Char} (hc : c ∈ cs) :
    c = '.' ∨ ∃ x < 10, c = Nat.digitChar x := by
  cases h with
  | whole hne hds =>
    obtain ⟨x, hx, rfl⟩ := List.mem_map.1 hc
    exact .inr ⟨x, hds x hx, rfl⟩
  | point hne hds hfs =>
    obtain hc | hc := List.mem_append.1 hc
    · obtain ⟨x, hx, rfl⟩ := List.mem_map.1 hc
      exact .inr ⟨x, hds x hx, rfl⟩
    · obtain rfl | hc := List.mem_cons.1 hc
      · exact .inl rfl
      · obtain ⟨x, hx, rfl⟩ := List.mem_map.1 hc
        exact .inr ⟨x, hfs x hx, rfl⟩

/-- A plain text is read as the number that its digits denote, with as many places as stand behind
the point. -/
theorem readMagnitude?_of_plain (negative : Bool) (h : Plain cs ds fs) :
    readMagnitude? negative cs
      = some (ofDecimal negative (ofDigits 10 (ds ++ fs)) (-(fs.length : ℤ))) := by
  cases h with
  | whole hne hds =>
    simp [readMagnitude?, spanDigits_map hds, readExponent?, hne]
  | point hne hds hfs =>
    have hspan := spanDigits_append hds ('.' :: fs.map Nat.digitChar) (by simp; decide)
    simp [readMagnitude?, hspan, spanDigits_map hfs, readExponent?, hne]

/-- A plain text is no word, and the sign in front of it is read. -/
theorem read?_of_plain (negative : Bool) (h : Plain cs ds fs) :
    read? ((signText negative).toList ++ cs) = readMagnitude? negative cs := by
  obtain ⟨x, rest, hx, rfl⟩ := h.exists_cons
  have hdigit : ∀ x < 10, Nat.digitChar x ≠ '-' ∧ Nat.digitChar x ≠ '+' ∧
      (Nat.digitChar x).toLower ≠ 'i' ∧ (Nat.digitChar x).toLower ≠ 'n' := by decide
  obtain ⟨hminus, hplus, hi, hn⟩ := hdigit x hx
  have hsign : spanSign ((signText negative).toList ++ Nat.digitChar x :: rest)
      = (negative, Nat.digitChar x :: rest) := by
    cases negative with
    | true => rfl
    | false =>
      change spanSign (Nat.digitChar x :: rest) = _
      unfold spanSign
      split
      · simp_all
      · simp_all
      · rfl
  have hword (w : String) (hw : w.toList.head? = some 'i' ∨ w.toList.head? = some 'n') :
      String.ofList ((Nat.digitChar x :: rest).map Char.toLower) ≠ w := by
    rintro rfl
    simp [hi, hn] at hw
  rw [read?, hsign]
  simp only
  rw [if_neg (not_or.2 ⟨hword _ (by decide), hword _ (by decide)⟩), if_neg (hword _ (by decide))]

theorem forall_mem_zeros_append {k : ℕ} (hds : ∀ x ∈ ds, x < 10) :
    ∀ x ∈ List.replicate k 0 ++ ds, x < 10 := by
  intro x hx
  obtain hx | hx := List.mem_append.1 hx
  · rw [List.eq_of_mem_replicate hx]
    norm_num
  · exact hds x hx

/-- Multiples of a power of ten are written with zeros at the end. -/
theorem toList_positional_of_nonneg (d k : ℕ) : ∃ ds : List ℕ, ds ≠ [] ∧ (∀ x ∈ ds, x < 10) ∧
    (positional d k).toList = ds.map Nat.digitChar ∧ ofDigits 10 ds = d * 10 ^ k := by
  obtain ⟨ds, hne, hds, hchars, hvalue⟩ := exists_digits d
  refine ⟨ds ++ List.replicate k 0, by simp [hne], ?_, ?_, ?_⟩
  · intro x hx
    exact forall_mem_zeros_append hds x (List.mem_append.2 (List.mem_append.1 hx).symm)
  · simp [positional, hchars]
  · rw [ofDigits_append_zeros, hvalue]

/-- Fractions are written with as many places as their unit has, and a digit in front of them. -/
theorem toList_positional_of_neg (d k : ℕ) : ∃ ds fs : List ℕ, ds ≠ [] ∧
    (∀ x ∈ ds ++ fs, x < 10) ∧ (positional d (Int.negSucc k)).toList
      = ds.map Nat.digitChar ++ '.' :: fs.map Nat.digitChar ∧
    ofDigits 10 (ds ++ fs) = d ∧ fs.length = k + 1 := by
  obtain ⟨ds, hne, hds, hchars, hvalue⟩ := exists_digits d
  obtain ⟨all, hall⟩ : ∃ all, List.replicate (k + 1 + 1 - ds.length) 0 ++ ds = all := ⟨_, rfl⟩
  have hlength : k + 1 < all.length := by
    rw [← hall, List.length_append, List.length_replicate]
    omega
  have hpadded : padLeft (k + 1 + 1) '0' (Nat.toDigits 10 d) = all.map Nat.digitChar := by
    rw [padLeft, hchars, ← hall, List.map_append, List.map_replicate, List.length_map]
    rfl
  refine ⟨all.take (all.length - (k + 1)), all.drop (all.length - (k + 1)), ?_, ?_, ?_, ?_, ?_⟩
  · rw [Ne, List.take_eq_nil_iff, not_or]
    exact ⟨by omega, List.ne_nil_of_length_pos (by omega)⟩
  · rw [List.take_append_drop, ← hall]
    exact forall_mem_zeros_append hds
  · have hplaces : (-Int.negSucc k).toNat = k + 1 := rfl
    rw [positional, if_neg (by omega)]
    simp only [hplaces, hpadded, String.toList_ofList, List.length_map, List.map_take,
      List.map_drop]
  · rw [List.take_append_drop, ← hall, ofDigits_zeros_append, hvalue]
  · rw [List.length_drop]
    omega

/-- A decimal is written as a plain text of its value, also with a point behind a whole number. -/
theorem exists_plain (point : Bool) (d : ℕ) (p : ℤ) :
    ∃ ds fs, Plain ((positional d p).toList ++
        (if point && decide (0 ≤ p) then ".0" else "").toList) ds fs ∧
      (ofDigits 10 (ds ++ fs) : ℚ) * 10 ^ (-(fs.length : ℤ)) = d * 10 ^ p := by
  cases p with
  | ofNat k =>
    obtain ⟨ds, hne, hds, hchars, hvalue⟩ := toList_positional_of_nonneg d k
    have hk : decide (0 ≤ Int.ofNat k) = true := decide_eq_true (Int.natCast_nonneg k)
    rw [Int.ofNat_eq_natCast] at hk ⊢
    rw [hchars, hk, Bool.and_true]
    cases point with
    | false =>
      refine ⟨ds, [], ?_, ?_⟩
      · simpa using Plain.whole hne hds
      · rw [List.append_nil, hvalue]
        simp
    | true =>
      refine ⟨ds, [0], @Plain.point ds [0] hne hds (by simp), ?_⟩
      rw [ofDigits_concat, hvalue]
      simp
      ring
  | negSucc k =>
    obtain ⟨ds, fs, hne, hall, hchars, hvalue, hlength⟩ := toList_positional_of_neg d k
    have hk : decide (0 ≤ Int.negSucc k) = false := decide_eq_false (by omega)
    rw [hchars, hk, Bool.and_false]
    refine ⟨ds, fs, ?_, ?_⟩
    · simpa using Plain.point hne (fun x hx => hall x (List.mem_append_left _ hx))
        (fun x hx => hall x (List.mem_append_right _ hx))
    · rw [hvalue, hlength]
      rfl

/-! ### Reading back -/

/-- The text of a positive double is plain. -/
theorem exists_plain_text (style : Style) (h : Canonical m e) :
    ∃ ds fs, Plain (text style (.finite false m e h)).toList ds fs := by
  obtain ⟨ds, fs, hplain, -⟩ :=
    exists_plain style.wholePoint (shortest m e).1 (shortest m e).2
  refine ⟨ds, fs, ?_⟩
  rwa [text, String.toList_append, String.toList_append, List.append_assoc]

/-- Every finite double is read back from its text. -/
theorem read?_text (style : Style) (s : Bool) (h : Canonical m e) :
    read? (text style (.finite s m e h)).toList = some (.finite s m e h) := by
  obtain ⟨ds, fs, hplain, hvalue⟩ :=
    exists_plain style.wholePoint (shortest m e).1 (shortest m e).2
  rw [text, String.toList_append, String.toList_append, List.append_assoc,
    read?_of_plain s hplain, readMagnitude?_of_plain s hplain]
  obtain rfl | hm := m.eq_zero_or_pos
  · have hzero : ofDigits 10 (ds ++ fs) = 0 := by
      simp only [shortest, if_true, Nat.cast_zero, zero_mul, mul_eq_zero, Nat.cast_eq_zero]
        at hvalue
      exact hvalue.resolve_right (zpow_ne_zero _ (by norm_num))
    have he : e = -1074 := (canonical_iff.1 h).2.2.2.resolve_left (by norm_num)
    subst he
    rw [hzero, ofDecimal_zero]
    rfl
  · have hr := shortest_spec h hm
    rw [← hvalue] at hr
    rw [ofDecimal_eq s (by omega) hm h hr]

end EtherCore.Binary64
