import EtherCore.Proofs.Binary64.Nearest

/-!
Whole numbers among the doubles.  Up to `2 ^ 53` every whole number is one (`exists_pair`).  The
whole part of a double is the greatest whole number that is not above it (`le_toWord_iff`), and a
number is rounded to a double with the whole part `n` iff it is near enough
(`Rounds.roundsBack_iff`).
-/

namespace EtherCore.Binary64

variable {m n : ℕ} {e : ℤ} {v : ℚ}

/-! ### Whole numbers are doubles -/

/-- Half the distance from a whole number below `2 ^ 54` to the double below it, which is at half
the distance of the one above if the number is a power of two. -/
def halfGap (n : ℕ) : ℚ := (if n = 2 ^ n.log2 then 1 else 2) * 2 ^ ((n.log2 : ℤ) - 54)

/-- The lower end of the interval of a normal double that is a power of two or not. -/
theorem low_eq (he : e ≠ -1074) :
    low m e = m * 2 ^ e - (if m = 2 ^ 52 then 1 else 2) * 2 ^ (e - 2) := by
  rw [low, two_zpow_eq e]
  simp only [he, ne_eq, not_false_eq_true, and_true]
  ring

/-- A whole number below `2 ^ 53`, shifted to the left as far as a mantissa goes, is a double. -/
theorem exists_pair_of_lt (hn : 0 < n) (hlt : n < 2 ^ 53) : ∃ m e, Canonical m e ∧ 0 < m ∧
    (m : ℚ) * 2 ^ e = n ∧ low m e = n - halfGap n ∧ (m % 2 = 1 ↔ n % 2 = 1 ∧ n.log2 = 52) := by
  have hlog : n.log2 < 53 := (Nat.log2_lt hn.ne').2 hlt
  obtain ⟨j, hj⟩ : ∃ j, n.log2 + j = 52 := ⟨52 - n.log2, by omega⟩
  have hlower : 2 ^ n.log2 ≤ n := Nat.log2_self_le hn.ne'
  have hupper : n < 2 ^ (n.log2 + 1) := Nat.lt_log2_self
  have hpow : 2 ^ 52 = 2 ^ n.log2 * 2 ^ j := by rw [← Nat.pow_add, hj]
  have hvalue : ((n * 2 ^ j : ℕ) : ℚ) * 2 ^ ((n.log2 : ℤ) - 52) = n := by
    push_cast
    rw [← zpow_natCast, mul_assoc, ← zpow_add₀ (by norm_num),
      show (j : ℤ) + (n.log2 - 52) = 0 by omega, zpow_zero, mul_one]
  have hleast : n * 2 ^ j = 2 ^ 52 ↔ n = 2 ^ n.log2 := by
    rw [hpow]
    exact Nat.mul_left_inj (Nat.two_pow_pos j).ne'
  refine ⟨n * 2 ^ j, (n.log2 : ℤ) - 52, canonical_iff.2 ⟨?_, by omega, by omega, .inl ?_⟩,
    by positivity, hvalue, ?_, ?_⟩
  · calc n * 2 ^ j < 2 ^ (n.log2 + 1) * 2 ^ j := Nat.mul_lt_mul_of_pos_right hupper (by positivity)
      _ = 2 ^ 53 := by rw [← Nat.pow_add]; congr 1; omega
  · rw [hpow]
    exact Nat.mul_le_mul_right _ hlower
  · rw [low_eq (by omega), hvalue, halfGap]
    simp only [hleast]
    congr 3
    ring
  · obtain rfl | hj0 := j.eq_zero_or_pos
    · rw [Nat.pow_zero, Nat.mul_one]
      exact ⟨fun hodd => ⟨hodd, by omega⟩, fun h => h.1⟩
    · have heven : n * 2 ^ j % 2 = 0 :=
        Nat.mod_eq_zero_of_dvd ((dvd_pow_self 2 hj0.ne').mul_left n)
      exact ⟨fun hodd => by omega, fun h => by omega⟩

/-- A whole number up to `2 ^ 53` is a double, and its mantissa is even unless the number is odd
and has all the bits of a mantissa. -/
theorem exists_pair (hn : 0 < n) (hle : n ≤ 2 ^ 53) : ∃ m e, Canonical m e ∧ 0 < m ∧
    (m : ℚ) * 2 ^ e = n ∧ low m e = n - halfGap n ∧ (m % 2 = 1 ↔ n % 2 = 1 ∧ n.log2 = 52) := by
  obtain hlt | rfl := hle.lt_or_eq
  · exact exists_pair_of_lt hn hlt
  · have hlog : Nat.log2 (2 ^ 53) = 53 := Nat.log2_two_pow
    refine ⟨2 ^ 52, 1, by decide, by norm_num, by norm_num, ?_, by decide⟩
    rw [low, halfGap, hlog]
    norm_num

/-! ### Rounding near a whole number -/

/-- A number that is not below a whole number is not rounded below it. -/
theorem Rounds.natCast_le (hr : Rounds v m e) (h : Canonical m e) (hn : 0 < n) (hle : n ≤ 2 ^ 53)
    (hv : n ≤ v) : (n : ℚ) ≤ m * 2 ^ e := by
  obtain ⟨m', e', h', -, hvalue, -, -⟩ := exists_pair hn hle
  have hlow : low m' e' < v := (low_lt_value m' e').trans_le (hvalue ▸ hv)
  exact hvalue ▸ (hr.value_le_iff h' h).2 ⟨hlow.le, fun _ => hlow⟩

/-- A number that is not above a whole number is not rounded above it. -/
theorem Rounds.le_natCast (hr : Rounds v m e) (h : Canonical m e) (hn : 0 < n) (hle : n ≤ 2 ^ 53)
    (hv : v ≤ n) : (m : ℚ) * 2 ^ e ≤ n := by
  obtain ⟨m', e', h', -, hvalue, -, -⟩ := exists_pair hn hle
  have hhigh : v < high m' e' := (hvalue ▸ hv).trans_lt (value_lt_high m' e')
  exact hvalue ▸ (hr.le_value_iff h' h).2 ⟨hhigh.le, fun _ => hhigh⟩

/-- A number is not rounded below a whole number iff it is at most half a gap below it, and less
than that if the mantissa of the whole number is odd. -/
theorem Rounds.natCast_le_iff (hr : Rounds v m e) (h : Canonical m e) (hn : 0 < n)
    (hle : n ≤ 2 ^ 53) : (n : ℚ) ≤ m * 2 ^ e ↔
      n - halfGap n ≤ v ∧ (n % 2 = 1 ∧ n.log2 = 52 → n - halfGap n < v) := by
  obtain ⟨m', e', h', -, hvalue, hlow, hodd⟩ := exists_pair hn hle
  rw [← hodd, ← hlow, ← hvalue]
  exact hr.value_le_iff h' h

theorem log2_eq_52_iff : n.log2 = 52 ↔ 2 ^ 52 ≤ n ∧ n < 2 ^ 53 := by
  obtain rfl | hn := n.eq_zero_or_pos
  · decide
  · exact Nat.log2_eq_iff hn.ne'

theorem halfGap_of_odd (hlog : n.log2 = 52) (hodd : n % 2 = 1) : halfGap n = 1 / 2 := by
  have hne : n ≠ 2 ^ 52 := by omega
  rw [halfGap, hlog, if_neg hne]
  norm_num

/-- Doubles from `2 ^ 52` to `2 ^ 53` are the whole numbers. -/
theorem halfGap_succ (hlog : n.log2 = 52) : halfGap (n + 1) = 1 / 2 := by
  obtain ⟨hlower, hupper⟩ := log2_eq_52_iff.1 hlog
  obtain hlt | heq := (Nat.succ_le_of_lt hupper).lt_or_eq
  · have hlog' : (n + 1).log2 = 52 := log2_eq_52_iff.2 ⟨by omega, hlt⟩
    rw [halfGap, hlog', if_neg (by omega)]
    norm_num
  · rw [halfGap, show n + 1 = 2 ^ 53 from heq, Nat.log2_two_pow, if_pos rfl]
    norm_num

/-- Below `2 ^ 52` there are doubles between whole numbers. -/
theorem halfGap_le_quarter (hn : 0 < n) (hle : n ≤ 2 ^ 52) : halfGap n ≤ 1 / 4 := by
  obtain hlt | rfl := hle.lt_or_eq
  · have hlog : n.log2 < 52 := (Nat.log2_lt hn.ne').2 hlt
    have hpow : (2 : ℚ) ^ ((n.log2 : ℤ) - 54) ≤ 2 ^ (-3 : ℤ) :=
      zpow_le_zpow_right₀ (by norm_num) (by omega)
    have htwo : (if n = 2 ^ n.log2 then 1 else 2 : ℚ) ≤ 2 := by split <;> norm_num
    calc halfGap n ≤ 2 * 2 ^ (-3 : ℤ) :=
          mul_le_mul htwo hpow (two_zpow_pos _).le (by norm_num)
      _ = 1 / 4 := by norm_num
  · rw [halfGap, Nat.log2_two_pow, if_pos rfl]
    norm_num

/-- The number `v` is so near the whole number `n` that the whole part of the double nearest to it
is `n`: at most half a gap below `n`, and where the doubles are whole numbers also at most a half
above, less than a half if `n` is odd. -/
structure RoundsBack (v : ℚ) (n : ℕ) : Prop where
  below : n - v ≤ halfGap n
  above : n.log2 = 52 → v - n ≤ 1 / 2
  odd : n.log2 = 52 → n % 2 = 1 → |v - n| < 1 / 2

theorem roundsBack_self (n : ℕ) : RoundsBack n n := by
  have hgap : 0 ≤ halfGap n := by
    rw [halfGap]
    refine mul_nonneg ?_ (two_zpow_pos _).le
    split <;> norm_num
  exact ⟨by simpa using hgap, by norm_num, by norm_num⟩

/-- Below `2 ^ 52` a number less than a half above `n` keeps its whole part. -/
theorem Rounds.lt_succ_of_lt (hr : Rounds v m e) (h : Canonical m e) (hlt : n < 2 ^ 52)
    (hv : v < n + 1 / 2) : (m : ℚ) * 2 ^ e < n + 1 := by
  by_contra hge
  have hge' : ((n + 1 : ℕ) : ℚ) ≤ m * 2 ^ e := by
    push_cast
    exact not_lt.1 hge
  have hbelow := ((hr.natCast_le_iff h n.succ_pos (by omega)).1 hge').1
  have hgap := halfGap_le_quarter n.succ_pos (Nat.succ_le_of_lt hlt)
  push_cast at hbelow
  linarith

/-- Between `2 ^ 52` and `2 ^ 53` a number at most a half above `n` keeps its whole part, and a half
goes to the even neighbour. -/
theorem Rounds.lt_succ_iff (hr : Rounds v m e) (h : Canonical m e) (hlog : n.log2 = 52) :
    (m : ℚ) * 2 ^ e < n + 1 ↔ v - n ≤ 1 / 2 ∧ (n % 2 = 1 → v - n < 1 / 2) := by
  obtain ⟨hlower, hupper⟩ := log2_eq_52_iff.1 hlog
  have hsucc := hr.natCast_le_iff h n.succ_pos (Nat.succ_le_of_lt hupper)
  rw [Nat.succ_eq_add_one, halfGap_succ hlog] at hsucc
  push_cast at hsucc
  rw [← not_le, hsucc]
  obtain heven | hodd := Nat.mod_two_eq_zero_or_one n
  · have hlog' : (n + 1).log2 = 52 := log2_eq_52_iff.2 ⟨by omega, by omega⟩
    have hstrict : (n + 1) % 2 = 1 ∧ (n + 1).log2 = 52 := ⟨by omega, hlog'⟩
    constructor
    · intro hnot
      refine ⟨?_, fun hodd => by omega⟩
      by_contra hgt
      exact hnot ⟨by linarith, fun _ => by linarith⟩
    · rintro ⟨hle, -⟩ ⟨-, hgt⟩
      linarith [hgt hstrict]
  · constructor
    · intro hnot
      have hlt : v - n < 1 / 2 := by
        by_contra hge
        exact hnot ⟨by linarith, fun hsucc => by omega⟩
      exact ⟨hlt.le, fun _ => hlt⟩
    · rintro ⟨-, hlt⟩ ⟨hge, -⟩
      linarith [hlt hodd]

/-- Where doubles are not the whole numbers, nothing that is near `n` is rounded as far as the next
whole number. -/
theorem Rounds.lt_succ_of_log2_ne (hr : Rounds v m e) (h : Canonical m e) (hle : n ≤ 2 ^ 53)
    (hlog : n.log2 ≠ 52) (hv : v - n ≤ n / 2 ^ 53) : (m : ℚ) * 2 ^ e < n + 1 := by
  by_cases hsmall : n < 2 ^ 52
  · refine hr.lt_succ_of_lt h hsmall ?_
    have hnQ : (n : ℚ) < 2 ^ 52 := by exact_mod_cast hsmall
    linarith
  · have htop : n = 2 ^ 53 := by
      by_contra hne
      exact hlog (log2_eq_52_iff.2 ⟨by omega, by omega⟩)
    subst htop
    have hhigh : v ≤ high (2 ^ 52) 1 := by
      rw [high]
      norm_num at hv ⊢
      linarith
    have htop := (hr.le_value_iff (by decide) h).2 ⟨hhigh, fun hodd => absurd hodd (by decide)⟩
    norm_num at htop ⊢
    linarith

/-- A number that is near `n` is rounded to a double within one of it. -/
theorem Rounds.within_one (hr : Rounds v m e) (h : Canonical m e) (hn : 0 < n) (hle : n ≤ 2 ^ 53)
    (hnear : |v - n| ≤ n / 2 ^ 53) : ((n - 1 : ℕ) : ℚ) ≤ m * 2 ^ e ∧ (m : ℚ) * 2 ^ e < n + 2 := by
  obtain ⟨hbelow, habove⟩ := abs_le.1 hnear
  have hstep : (n : ℚ) / 2 ^ 53 ≤ 1 := by
    rw [div_le_one (by norm_num)]
    exact_mod_cast hle
  constructor
  · obtain rfl | hn1 := Nat.eq_or_lt_of_le hn
    · rw [Nat.sub_self, Nat.cast_zero]
      exact mul_nonneg m.cast_nonneg (two_zpow_pos e).le
    · refine hr.natCast_le h (by omega) (by omega) ?_
      rw [Nat.cast_sub hn, Nat.cast_one]
      linarith
  · by_cases hlog : n.log2 = 52
    · have hsucc : (m : ℚ) * 2 ^ e ≤ (n + 1 : ℕ) := by
        refine hr.le_natCast h n.succ_pos (Nat.succ_le_of_lt (log2_eq_52_iff.1 hlog).2) ?_
        push_cast
        linarith
      push_cast at hsucc
      linarith
    · linarith [hr.lt_succ_of_log2_ne h hle hlog habove]

/-- Up to `2 ^ 53`, of the numbers that differ from `n` by at most `2 ^ -53` of it those that are
near enough are rounded to a double with the whole part `n`. -/
theorem Rounds.roundsBack_iff (hr : Rounds v m e) (h : Canonical m e) (hn : 0 < n)
    (hle : n ≤ 2 ^ 53) (hnear : |v - n| ≤ n / 2 ^ 53) :
    RoundsBack v n ↔ (n : ℚ) ≤ m * 2 ^ e ∧ (m : ℚ) * 2 ^ e < n + 1 := by
  rw [hr.natCast_le_iff h hn hle]
  have habove := (abs_le.1 hnear).2
  by_cases hlog : n.log2 = 52
  · rw [hr.lt_succ_iff h hlog]
    constructor
    · rintro ⟨hbelow, habove, hodd⟩
      refine ⟨⟨by linarith, fun hn => ?_⟩, habove hlog, fun hn => (abs_lt.1 (hodd hlog hn)).2⟩
      rw [halfGap_of_odd hlog hn.1]
      linarith [(abs_lt.1 (hodd hlog hn.1)).1]
    · rintro ⟨⟨hbelow, hstrict⟩, habove, hodd⟩
      refine ⟨by linarith, fun _ => habove, fun _ hn => abs_lt.2 ⟨?_, hodd hn⟩⟩
      have hlt := hstrict ⟨hn, hlog⟩
      rw [halfGap_of_odd hlog hn] at hlt
      linarith
  · have hlt := hr.lt_succ_of_log2_ne h hle hlog habove
    constructor
    · rintro ⟨hbelow, -, -⟩
      exact ⟨⟨by linarith, fun hn => absurd hn.2 hlog⟩, hlt⟩
    · rintro ⟨⟨hbelow, -⟩, -⟩
      exact ⟨by linarith, fun hlog' => absurd hlog' hlog, fun hlog' => absurd hlog' hlog⟩

/-! ### The whole part -/

/-- The whole part of a positive double that fits a word. -/
theorem le_toWord_iff (h : Canonical m e) (hlt : (m : ℚ) * 2 ^ e < 2 ^ 64) (k : ℕ) :
    k ≤ (toWord (.finite false m e h)).toNat ↔ (k : ℚ) ≤ m * 2 ^ e := by
  have hfloor (k : ℕ) : k ≤ m * 2 ^ e.toNat / 2 ^ (-e).toNat ↔ (k : ℚ) ≤ m * 2 ^ e := by
    have hpos : (0 : ℚ) < 2 ^ (-e).toNat := by positivity
    rw [Nat.le_div_iff_mul_le (by positivity), ← @Nat.cast_le ℚ]
    push_cast
    rw [← zpow_mul_pow_toNat (by norm_num : (2 : ℚ) ≠ 0) e, ← mul_assoc]
    exact mul_le_mul_iff_left₀ hpos
  have hsmall : m * 2 ^ e.toNat / 2 ^ (-e).toNat < UInt64.size := by
    by_contra hge
    have hge' := (hfloor UInt64.size).1 (not_lt.1 hge)
    rw [show (UInt64.size : ℚ) = 2 ^ 64 by norm_num [UInt64.size]] at hge'
    exact absurd hge' (not_le.2 hlt)
  have hword : (toWord (.finite false m e h)).toNat = m * 2 ^ e.toNat / 2 ^ (-e).toNat := by
    simp only [toWord, Nat.pow_eq]
    rw [Nat.min_eq_left (Nat.le_sub_one_of_lt hsmall)]
    exact UInt64.toNat_ofNat_of_lt' hsmall
  rw [hword, hfloor]

end EtherCore.Binary64
