import EtherCore.Binary64.Basic
import Mathlib.Algebra.Order.Field.Power
import Mathlib.Tactic.FieldSimp
import Mathlib.Tactic.Linarith
import Mathlib.Tactic.Positivity
import Mathlib.Tactic.Ring

/-!
The numbers that round to a double.  They are an interval around it (`Rounds`) that reaches half
way to its two neighbours, with its ends if the mantissa is even.  Rounding a quotient gives the one
double whose interval holds the quotient (`nearest_spec`, `nearest_eq`), and a double is at most
another iff the lower end of its interval is not above the number that was rounded
(`Rounds.value_le_iff`): that is how a sequence of roundings is followed.
-/

namespace EtherCore.Binary64

variable {num den m m' n : ℕ} {e e' : ℤ} {v : ℚ}

/-- The number that a finite double stands for, without its sign. -/
def magnitude : Binary64 → ℚ
  | .finite _ m e _ => m * 2 ^ e
  | _ => 0

theorem canonical_iff :
    Canonical m e ↔ m < 2 ^ 53 ∧ -1074 ≤ e ∧ e ≤ 971 ∧ (2 ^ 52 ≤ m ∨ e = -1074) := by
  simp only [Canonical, Nat.pow_eq]

/-! ### The interval of a double -/

/-- The lower end of the numbers that round to `m * 2 ^ e`: half way to the double below, which is
at half the distance if `m` is the least mantissa. -/
def low (m : ℕ) (e : ℤ) : ℚ := (4 * m - if m = 2 ^ 52 ∧ e ≠ -1074 then 1 else 2) * 2 ^ (e - 2)

/-- The upper end of the numbers that round to `m * 2 ^ e`: half way to the double above. -/
def high (m : ℕ) (e : ℤ) : ℚ := (4 * m + 2) * 2 ^ (e - 2)

/-- The number `v` rounds to `m * 2 ^ e`, a half to the even neighbour. -/
structure Rounds (v : ℚ) (m : ℕ) (e : ℤ) : Prop where
  low_le : low m e ≤ v
  le_high : v ≤ high m e
  of_odd : m % 2 = 1 → low m e < v ∧ v < high m e

theorem zpow_mul_pow_toNat {b : ℚ} (hb : b ≠ 0) (k : ℤ) : b ^ k * b ^ (-k).toNat = b ^ k.toNat := by
  rw [← zpow_natCast, ← zpow_natCast, ← zpow_add₀ hb]
  congr 1
  omega

theorem two_zpow_pos (e : ℤ) : (0 : ℚ) < 2 ^ e := zpow_pos (by norm_num) e

theorem two_zpow_succ (e : ℤ) : (2 : ℚ) ^ (e + 1) = 2 * 2 ^ e := by
  rw [zpow_add_one₀ (by norm_num), mul_comm]

theorem two_zpow_eq (e : ℤ) : (2 : ℚ) ^ e = 4 * 2 ^ (e - 2) := by
  rw [show e = e - 2 + 1 + 1 by ring, two_zpow_succ, two_zpow_succ]
  ring_nf

theorem low_lt_value (m : ℕ) (e : ℤ) : low m e < m * 2 ^ e := by
  rw [low, two_zpow_eq e]
  have hpos := two_zpow_pos (e - 2)
  split <;> nlinarith

theorem value_lt_high (m : ℕ) (e : ℤ) : m * 2 ^ e < high m e := by
  rw [high, two_zpow_eq e]
  have hpos := two_zpow_pos (e - 2)
  nlinarith

theorem high_eq (m : ℕ) (e : ℤ) : high m e = (2 * m + 1) * 2 ^ (e - 1) := by
  rw [high, show e - 1 = e - 2 + 1 by ring, two_zpow_succ]
  ring

/-- A double rounds to itself. -/
theorem rounds_self (m : ℕ) (e : ℤ) : Rounds (m * 2 ^ e) m e where
  low_le := (low_lt_value m e).le
  le_high := (value_lt_high m e).le
  of_odd _ := ⟨low_lt_value m e, value_lt_high m e⟩

/-! ### The order of doubles -/

/-- Doubles with a greater exponent are greater. -/
theorem value_lt_of_exponent_lt (h : Canonical m e) (h' : Canonical m' e') (hlt : e < e') :
    (m : ℚ) * 2 ^ e < m' * 2 ^ e' := by
  obtain ⟨hm, hmin, -, -⟩ := canonical_iff.1 h
  obtain ⟨-, -, -, hnormal⟩ := canonical_iff.1 h'
  have hm' : (2 : ℚ) ^ 52 ≤ m' := by
    have : 2 ^ 52 ≤ m' := hnormal.resolve_right (by omega)
    exact_mod_cast this
  have hm53 : (m : ℚ) < 2 ^ 53 := by exact_mod_cast hm
  have hpow : (2 : ℚ) ^ (e + 1) ≤ 2 ^ e' := zpow_le_zpow_right₀ (by norm_num) (by omega)
  have hpos := two_zpow_pos e
  calc (m : ℚ) * 2 ^ e < 2 ^ 53 * 2 ^ e := by gcongr
    _ = 2 ^ 52 * 2 ^ (e + 1) := by rw [two_zpow_succ]; ring
    _ ≤ m' * 2 ^ e' := by gcongr

/-- A double has one canonical pair. -/
theorem eq_of_value_eq (h : Canonical m e) (h' : Canonical m' e')
    (heq : (m : ℚ) * 2 ^ e = m' * 2 ^ e') : m = m' ∧ e = e' := by
  obtain hlt | rfl | hgt := lt_trichotomy e e'
  · exact absurd heq (value_lt_of_exponent_lt h h' hlt).ne
  · exact ⟨by exact_mod_cast mul_right_cancel₀ (two_zpow_pos e).ne' heq, rfl⟩
  · exact absurd heq (value_lt_of_exponent_lt h' h hgt).ne'

/-- Two mantissas of one exponent leave room for the halves between them. -/
theorem high_le_low_of_lt (hlt : m < m') (e : ℤ) :
    high m e ≤ low m' e ∧ (m % 2 = 0 → m' % 2 = 0 → high m e < low m' e) := by
  have hpos := two_zpow_pos (e - 2)
  have hgap : (4 * m' - 2 : ℚ) * 2 ^ (e - 2) ≤ low m' e := by
    rw [low]
    gcongr
    split <;> norm_num
  constructor
  · have hstep : (m : ℚ) + 1 ≤ m' := by exact_mod_cast hlt
    refine le_trans ?_ hgap
    rw [high]
    gcongr
    linarith
  · intro heven heven'
    have hstep : (m : ℚ) + 2 ≤ m' := by exact_mod_cast (by omega : m + 2 ≤ m')
    refine lt_of_lt_of_le ?_ hgap
    rw [high]
    gcongr
    linarith

/-- Below the least mantissa the gap is the smaller one. -/
theorem le_low_of_normal (hm : 2 ^ 52 ≤ m) (he : e ≠ -1074) :
    (2 ^ 54 - 1) * (2 : ℚ) ^ (e - 2) ≤ low m e := by
  rw [low]
  refine mul_le_mul_of_nonneg_right ?_ (two_zpow_pos (e - 2)).le
  obtain rfl | hlt := hm.eq_or_lt
  · rw [if_pos ⟨rfl, he⟩]
    norm_num
  · rw [if_neg fun hleast => hlt.ne' hleast.1]
    have hstep : (2 : ℚ) ^ 52 + 1 ≤ m := by exact_mod_cast hlt
    linarith

/-- The greatest mantissa of one exponent and the least of the next are half a step apart. -/
theorem high_le_low_of_exponent_lt (h : Canonical m e) (h' : Canonical m' e') (hlt : e < e') :
    high m e ≤ low m' e' ∧ (m % 2 = 0 → high m e < low m' e') := by
  obtain ⟨hm, hmin, -, -⟩ := canonical_iff.1 h
  obtain ⟨-, -, -, hnormal'⟩ := canonical_iff.1 h'
  have hpow : (2 : ℚ) ^ (e - 1) ≤ 2 ^ (e' - 2) := zpow_le_zpow_right₀ (by norm_num) (by omega)
  have hstep : (2 ^ 54 - 1) * (2 : ℚ) ^ (e - 1) ≤ low m' e' :=
    (mul_le_mul_of_nonneg_left hpow (by norm_num)).trans
      (le_low_of_normal (hnormal'.resolve_right (by omega)) (by omega))
  have hpos := two_zpow_pos (e - 1)
  rw [high_eq]
  constructor
  · have hmQ : (m : ℚ) + 1 ≤ 2 ^ 53 := by exact_mod_cast hm
    refine le_trans (mul_le_mul_of_nonneg_right ?_ hpos.le) hstep
    linarith
  · intro heven
    have hmQ : (m : ℚ) + 2 ≤ 2 ^ 53 := by exact_mod_cast (by omega : m + 2 ≤ 2 ^ 53)
    refine lt_of_lt_of_le (mul_lt_mul_of_pos_right ?_ hpos) hstep
    linarith

/-- The intervals of two doubles meet in one point at most, and then one mantissa is odd. -/
theorem high_le_low (h : Canonical m e) (h' : Canonical m' e')
    (hlt : (m : ℚ) * 2 ^ e < m' * 2 ^ e') :
    high m e ≤ low m' e' ∧ (m % 2 = 0 → m' % 2 = 0 → high m e < low m' e') := by
  obtain he | rfl | he := lt_trichotomy e e'
  · obtain ⟨hle, hstrict⟩ := high_le_low_of_exponent_lt h h' he
    exact ⟨hle, fun heven _ => hstrict heven⟩
  · exact high_le_low_of_lt
      (by exact_mod_cast lt_of_mul_lt_mul_right hlt (two_zpow_pos e).le) e
  · exact absurd hlt (value_lt_of_exponent_lt h' h he).not_gt

/-- A double is at most the rounded one iff the number is not below its interval. -/
theorem Rounds.value_le_iff (hr : Rounds v m' e') (h : Canonical m e) (h' : Canonical m' e') :
    (m : ℚ) * 2 ^ e ≤ m' * 2 ^ e' ↔ low m e ≤ v ∧ (m % 2 = 1 → low m e < v) := by
  constructor
  · intro hle
    obtain hlt | heq := hle.lt_or_eq
    · have hbelow : low m e < v :=
        calc low m e < m * 2 ^ e := low_lt_value m e
          _ < high m e := value_lt_high m e
          _ ≤ low m' e' := (high_le_low h h' hlt).1
          _ ≤ v := hr.low_le
      exact ⟨hbelow.le, fun _ => hbelow⟩
    · obtain ⟨rfl, rfl⟩ := eq_of_value_eq h h' heq
      exact ⟨hr.low_le, fun hodd => (hr.of_odd hodd).1⟩
  · rintro ⟨hlow, hodd⟩
    by_contra hlt
    obtain ⟨hmeet, heven⟩ := high_le_low h' h (not_le.1 hlt)
    -- The number is where the two intervals meet, and one of them is without its ends.
    have hend : v = high m' e' := le_antisymm hr.le_high (hmeet.trans hlow)
    obtain hm' | hm' := Nat.mod_two_eq_zero_or_one m'
    · obtain hm | hm := Nat.mod_two_eq_zero_or_one m
      · exact absurd hr.le_high (not_le.2 ((heven hm' hm).trans_le hlow))
      · exact absurd (hmeet.trans_lt (hodd hm)) (not_lt.2 hr.le_high)
    · exact absurd hend (hr.of_odd hm').2.ne

/-- The rounded double is at most another iff the number is not above the other's interval. -/
theorem Rounds.le_value_iff (hr : Rounds v m' e') (h : Canonical m e) (h' : Canonical m' e') :
    (m' : ℚ) * 2 ^ e' ≤ m * 2 ^ e ↔ v ≤ high m e ∧ (m % 2 = 1 → v < high m e) := by
  constructor
  · intro hle
    obtain hlt | heq := hle.lt_or_eq
    · have habove : v < high m e :=
        calc v ≤ high m' e' := hr.le_high
          _ ≤ low m e := (high_le_low h' h hlt).1
          _ < m * 2 ^ e := low_lt_value m e
          _ < high m e := value_lt_high m e
      exact ⟨habove.le, fun _ => habove⟩
    · obtain ⟨rfl, rfl⟩ := eq_of_value_eq h' h heq
      exact ⟨hr.le_high, fun hodd => (hr.of_odd hodd).2⟩
  · rintro ⟨hhigh, hodd⟩
    by_contra hlt
    obtain ⟨hmeet, heven⟩ := high_le_low h h' (not_le.1 hlt)
    have hend : v = low m' e' := le_antisymm (hhigh.trans hmeet) hr.low_le
    obtain hm' | hm' := Nat.mod_two_eq_zero_or_one m'
    · obtain hm | hm := Nat.mod_two_eq_zero_or_one m
      · exact absurd hr.low_le (not_le.2 (hhigh.trans_lt (heven hm hm')))
      · exact absurd ((hodd hm).trans_le hmeet) (not_lt.2 hr.low_le)
    · exact absurd hend (hr.of_odd hm').1.ne'

/-- A number rounds to one double. -/
theorem Rounds.unique (hr : Rounds v m e) (hr' : Rounds v m' e') (h : Canonical m e)
    (h' : Canonical m' e') : m = m' ∧ e = e' :=
  eq_of_value_eq h h' <| le_antisymm
    ((hr'.value_le_iff h h').2 ⟨hr.low_le, fun hodd => (hr.of_odd hodd).1⟩)
    ((hr.value_le_iff h' h).2 ⟨hr'.low_le, fun hodd => (hr'.of_odd hodd).1⟩)

/-! ### Rounding a quotient -/

theorem scaled_pos (num : ℕ) (hd : 0 < den) (e : ℤ) : 0 < (scaled num den e).2 := by
  simp only [scaled, Nat.pow_eq]
  positivity

theorem scaled_ratio (num den : ℕ) (e : ℤ) :
    ((scaled num den e).1 : ℚ) / (scaled num den e).2 = num / den * 2 ^ e := by
  obtain ⟨k, rfl | rfl⟩ := e.eq_nat_or_neg
  · simp [scaled, mul_div_right_comm]
  · simp [scaled, div_eq_mul_inv, mul_assoc, mul_comm (den : ℚ)⁻¹]

theorem scaled_lt_iff (hd : 0 < den) (e : ℤ) :
    (scaled num den e).1 < (scaled num den e).2 ↔ (num / den : ℚ) < 2 ^ (-e) := by
  have hpos : (0 : ℚ) < (scaled num den e).2 := by exact_mod_cast scaled_pos num hd e
  have hexp : (2 : ℚ) ^ (-e) * 2 ^ e = 1 := by
    rw [← zpow_add₀ (by norm_num), neg_add_cancel, zpow_zero]
  calc (scaled num den e).1 < (scaled num den e).2
      ↔ ((scaled num den e).1 : ℚ) / (scaled num den e).2 < 1 := by
        rw [div_lt_one hpos, Nat.cast_lt]
    _ ↔ (num / den : ℚ) * 2 ^ e < 2 ^ (-e) * 2 ^ e := by rw [scaled_ratio, hexp]
    _ ↔ (num / den : ℚ) < 2 ^ (-e) := mul_lt_mul_iff_left₀ (two_zpow_pos e)

/-- The quotient is between two powers of two. -/
theorem floorLog2_spec (hn : 0 < num) (hd : 0 < den) :
    (2 : ℚ) ^ floorLog2 num den ≤ num / den ∧ (num / den : ℚ) < 2 ^ (floorLog2 num den + 1) := by
  have hdQ : (0 : ℚ) < den := by exact_mod_cast hd
  have hnum1 : (2 : ℚ) ^ (num.log2 : ℤ) ≤ num := by exact_mod_cast Nat.log2_self_le hn.ne'
  have hnum2 : (num : ℚ) < 2 ^ (num.log2 + 1 : ℤ) := by
    exact_mod_cast Nat.lt_log2_self (n := num)
  have hden1 : (2 : ℚ) ^ (den.log2 : ℤ) ≤ den := by exact_mod_cast Nat.log2_self_le hd.ne'
  have hden2 : (den : ℚ) < 2 ^ (den.log2 + 1 : ℤ) := by
    exact_mod_cast Nat.lt_log2_self (n := den)
  have hsub (a b : ℤ) : (2 : ℚ) ^ (a - b) * 2 ^ b = 2 ^ a := by
    rw [← zpow_add₀ (by norm_num), sub_add_cancel]
  -- The logarithms of the two numbers give the exponent up to one.
  have hlower : (2 : ℚ) ^ ((num.log2 : ℤ) - den.log2 - 1) ≤ num / den := by
    rw [le_div_iff₀ hdQ, sub_sub]
    calc (2 : ℚ) ^ ((num.log2 : ℤ) - (den.log2 + 1)) * den
        ≤ 2 ^ ((num.log2 : ℤ) - (den.log2 + 1)) * 2 ^ (den.log2 + 1 : ℤ) := by gcongr
      _ ≤ num := by rw [hsub]; exact hnum1
  have hupper : (num / den : ℚ) < 2 ^ ((num.log2 : ℤ) - den.log2 + 1) := by
    rw [div_lt_iff₀ hdQ, show (num.log2 : ℤ) - den.log2 + 1 = num.log2 + 1 - den.log2 by ring]
    calc (num : ℚ) < 2 ^ ((num.log2 : ℤ) + 1) := hnum2
      _ = 2 ^ ((num.log2 : ℤ) + 1 - den.log2) * 2 ^ (den.log2 : ℤ) := (hsub _ _).symm
      _ ≤ 2 ^ ((num.log2 : ℤ) + 1 - den.log2) * den := by gcongr
  rw [floorLog2]
  split
  · rename_i hlt
    rw [scaled_lt_iff hd, neg_neg] at hlt
    exact ⟨hlower, by rwa [sub_add_cancel]⟩
  · rename_i hge
    rw [scaled_lt_iff hd, neg_neg, not_lt] at hge
    exact ⟨hge, hupper⟩

/-- The whole number `m` is at most a half away from `w`, and less than a half if it is odd. -/
structure HalfEven (w : ℚ) (m : ℕ) : Prop where
  lower : 2 * m - 1 ≤ 2 * w
  upper : 2 * w ≤ 2 * m + 1
  of_odd : m % 2 = 1 → 2 * m - 1 < 2 * w ∧ 2 * w < 2 * m + 1

theorem halfEven_roundHalfEven (num : ℕ) (hd : 0 < den) :
    HalfEven (num / den) (roundHalfEven num den) := by
  have hdQ : (0 : ℚ) < den := by exact_mod_cast hd
  have hdiv : (num / den : ℚ) = (num / den : ℕ) + (num % den : ℕ) / den := by
    field_simp
    exact_mod_cast (Nat.div_add_mod num den).symm
  have hr0 : (0 : ℚ) ≤ (num % den : ℕ) / den := by positivity
  have hr1 : ((num % den : ℕ) / den : ℚ) < 1 := by
    rw [div_lt_one hdQ]
    exact_mod_cast Nat.mod_lt num hd
  simp only [roundHalfEven]
  rw [hdiv]
  split_ifs with hless hmore
  · have hhalf : 2 * ((num % den : ℕ) / den : ℚ) < 1 := by
      rw [← mul_div_assoc, div_lt_one hdQ]
      exact_mod_cast hless
    exact ⟨by linarith, by linarith, fun _ => ⟨by linarith, by linarith⟩⟩
  · have hhalf : 1 < 2 * ((num % den : ℕ) / den : ℚ) := by
      rw [← mul_div_assoc, one_lt_div hdQ]
      exact_mod_cast hmore
    refine ⟨?_, ?_, fun _ => ⟨?_, ?_⟩⟩ <;> push_cast <;> linarith
  · have hhalf : 2 * ((num % den : ℕ) / den : ℚ) = 1 := by
      rw [← mul_div_assoc, div_eq_one_iff_eq hdQ.ne']
      exact_mod_cast (by omega : 2 * (num % den) = den)
    obtain heven | hodd := Nat.mod_two_eq_zero_or_one (num / den)
    · rw [heven]
      exact ⟨by push_cast; linarith, by push_cast; linarith, fun h => by omega⟩
    · rw [hodd]
      exact ⟨by push_cast; linarith, by push_cast; linarith, fun h => by omega⟩

/-- A mantissa that is rounded in units of `2 ^ e` names the double. -/
theorem HalfEven.rounds {w : ℚ} (h : HalfEven w m) (hw : e = -1074 ∨ 2 ^ 52 ≤ w) :
    Rounds (w * 2 ^ e) m e := by
  have hpos := two_zpow_pos (e - 2)
  have hscale : w * 2 ^ e = 4 * w * 2 ^ (e - 2) := by
    rw [two_zpow_eq e]
    ring
  have hlow : low m e ≤ 4 * w * 2 ^ (e - 2) ∧ (m % 2 = 1 → low m e < 4 * w * 2 ^ (e - 2)) := by
    rw [low]
    split
    · rename_i hleast
      have hm : (m : ℚ) = 2 ^ 52 := by exact_mod_cast hleast.1
      have hw52 := hw.resolve_left hleast.2
      have hlt : (4 * m - 1) * (2 : ℚ) ^ (e - 2) < 4 * w * 2 ^ (e - 2) :=
        mul_lt_mul_of_pos_right (by linarith) hpos
      exact ⟨hlt.le, fun _ => hlt⟩
    · refine ⟨mul_le_mul_of_nonneg_right ?_ hpos.le,
        fun hodd => mul_lt_mul_of_pos_right ?_ hpos⟩
      · linarith [h.lower]
      · linarith [(h.of_odd hodd).1]
  rw [hscale]
  refine ⟨hlow.1, ?_, fun hodd => ⟨hlow.2 hodd, ?_⟩⟩
  · rw [high]
    exact mul_le_mul_of_nonneg_right (by linarith [h.upper]) hpos.le
  · rw [high]
    exact mul_lt_mul_of_pos_right (by linarith [(h.of_odd hodd).2]) hpos

/-- A mantissa that is rounded up to `2 ^ 53` is the least one of the next exponent. -/
theorem HalfEven.rounds_carry {w : ℚ} (h : HalfEven w (2 ^ 53)) (hw : w < 2 ^ 53)
    (he : -1074 ≤ e) : Rounds (w * 2 ^ e) (2 ^ 52) (e + 1) := by
  have hpos := two_zpow_pos (e - 1)
  have hscale : w * 2 ^ e = 2 * w * 2 ^ (e - 1) := by
    rw [show (2 : ℚ) ^ e = 2 ^ (e - 1 + 1) by rw [sub_add_cancel], two_zpow_succ]
    ring
  have hlower := h.lower
  push_cast at hlower
  rw [hscale]
  refine ⟨?_, ?_, fun hodd => absurd hodd (by decide)⟩
  · rw [low, if_pos ⟨rfl, by omega⟩, show e + 1 - 2 = e - 1 by ring]
    push_cast
    exact mul_le_mul_of_nonneg_right (by linarith) hpos.le
  · rw [high, show e + 1 - 2 = e - 1 by ring]
    push_cast
    exact mul_le_mul_of_nonneg_right (by linarith) hpos.le

/-- What is too large for a double starts half way beyond the greatest one. -/
def limit : ℚ := (2 ^ 54 - 1) * 2 ^ (970 : ℤ)

theorem Rounds.exponent_le (hr : Rounds v m e) (hm : 2 ^ 52 ≤ m) (hv : v < limit) : e ≤ 971 := by
  by_contra hgt
  have hpow : (2 : ℚ) ^ (970 : ℤ) ≤ 2 ^ (e - 2) := zpow_le_zpow_right₀ (by norm_num) (by omega)
  have hlow : limit ≤ low m e :=
    (mul_le_mul_of_nonneg_left hpow (by norm_num)).trans (le_low_of_normal hm (by omega))
  exact absurd (hlow.trans hr.low_le) (not_le.2 hv)

/-- A positive quotient below the limit becomes the double whose interval holds it. -/
theorem nearest_spec (negative : Bool) (hn : 0 < num) (hd : 0 < den)
    (hlimit : (num / den : ℚ) < limit) :
    ∃ m e, ∃ h : Canonical m e,
      nearest negative num den = .finite negative m e h ∧ Rounds (num / den) m e := by
  obtain ⟨hlower, hupper⟩ := floorLog2_spec hn hd
  obtain ⟨e, he⟩ : ∃ e, max (floorLog2 num den - 52) (-1074) = e := ⟨_, rfl⟩
  have hpos := two_zpow_pos e
  -- In units of `2 ^ e` the quotient is below `2 ^ 53`, and at least `2 ^ 52` above the floor.
  obtain ⟨w, hw⟩ : ∃ w : ℚ, num / den * 2 ^ (-e) = w := ⟨_, rfl⟩
  have hvw : (num / den : ℚ) = w * 2 ^ e := by
    rw [← hw, mul_assoc, ← zpow_add₀ (by norm_num), neg_add_cancel, zpow_zero, mul_one]
  have hw53 : w < 2 ^ 53 := by
    have hpow : (2 : ℚ) ^ (floorLog2 num den + 1) ≤ 2 ^ 53 * 2 ^ e := by
      rw [← zpow_ofNat, ← zpow_add₀ (by norm_num)]
      exact zpow_le_zpow_right₀ (by norm_num) (by omega)
    exact lt_of_mul_lt_mul_right (hvw ▸ hupper.trans_le hpow) hpos.le
  have hw52 : e = -1074 ∨ 2 ^ 52 ≤ w := by
    refine or_iff_not_imp_left.2 fun hne => ?_
    have hpow : (2 : ℚ) ^ 52 * 2 ^ e ≤ 2 ^ floorLog2 num den := by
      rw [← zpow_ofNat, ← zpow_add₀ (by norm_num)]
      exact zpow_le_zpow_right₀ (by norm_num) (by omega)
    exact le_of_mul_le_mul_right (hvw ▸ hpow.trans hlower) hpos
  have hhalf := halfEven_roundHalfEven (scaled num den (-e)).1 (scaled_pos num hd (-e))
  rw [scaled_ratio, hw] at hhalf
  rw [hvw] at hlimit ⊢
  rw [nearest, if_neg hn.ne']
  simp only [he, Nat.pow_eq]
  generalize roundHalfEven (scaled num den (-e)).1 (scaled num den (-e)).2 = m at hhalf ⊢
  have hm53 : m ≤ 2 ^ 53 := by
    have hmQ : (m : ℚ) < 2 ^ 53 + 1 := by linarith [hhalf.lower]
    exact Nat.lt_succ_iff.1 (by exact_mod_cast hmQ)
  split
  · rename_i hcarry
    subst hcarry
    have hr : Rounds (w * 2 ^ e) (2 ^ 52) (e + 1) := hhalf.rounds_carry hw53 (by omega)
    have hc : Canonical (2 ^ 52) (e + 1) :=
      canonical_iff.2 ⟨by norm_num, by omega, hr.exponent_le le_rfl hlimit, .inl le_rfl⟩
    exact ⟨_, _, hc, by rw [ofPair, dif_pos hc], hr⟩
  · have hr := hhalf.rounds hw52
    have hm52 : 2 ^ 52 ≤ m ∨ e = -1074 := by
      refine hw52.symm.imp_left fun hw52 => ?_
      have hmQ : (2 : ℚ) ^ 52 < m + 1 := by linarith [hhalf.upper]
      exact Nat.lt_succ_iff.1 (by exact_mod_cast hmQ)
    have hc : Canonical m e := by
      refine canonical_iff.2 ⟨by omega, by omega, ?_, hm52⟩
      obtain hm | rfl := hm52
      · exact hr.exponent_le hm hlimit
      · norm_num
    exact ⟨_, _, hc, by rw [ofPair, dif_pos hc], hr⟩

theorem Rounds.lt_limit (hr : Rounds v m e) (h : Canonical m e) : v < limit := by
  obtain ⟨hm, -, he, -⟩ := canonical_iff.1 h
  have hnonneg : (0 : ℚ) ≤ 2 * m + 1 := by positivity
  have hpow : (2 : ℚ) ^ (e - 1) ≤ 2 ^ (970 : ℤ) := zpow_le_zpow_right₀ (by norm_num) (by omega)
  have hhigh : high m e ≤ (2 * m + 1) * 2 ^ (970 : ℤ) :=
    high_eq m e ▸ mul_le_mul_of_nonneg_left hpow hnonneg
  have hpos := two_zpow_pos 970
  rw [limit]
  obtain heven | hodd := Nat.mod_two_eq_zero_or_one m
  · have hmQ : (2 * m + 1 : ℚ) < 2 ^ 54 - 1 := by
      have hm2 : (m : ℚ) + 2 ≤ 2 ^ 53 := by exact_mod_cast (by omega : m + 2 ≤ 2 ^ 53)
      linarith only [hm2]
    exact (hr.le_high.trans hhigh).trans_lt (mul_lt_mul_of_pos_right hmQ hpos)
  · have hmQ : (2 * m + 1 : ℚ) ≤ 2 ^ 54 - 1 := by
      have hm1 : (m : ℚ) + 1 ≤ 2 ^ 53 := by exact_mod_cast hm
      linarith only [hm1]
    exact ((hr.of_odd hodd).2.trans_le hhigh).trans_le (mul_le_mul_of_nonneg_right hmQ hpos.le)

theorem low_pos (hm : 0 < m) (e : ℤ) : 0 < low m e := by
  have hmQ : (1 : ℚ) ≤ m := by exact_mod_cast hm
  rw [low]
  refine mul_pos ?_ (two_zpow_pos _)
  split <;> linarith

/-- A quotient that rounds to a positive double becomes this double. -/
theorem nearest_eq (negative : Bool) (hd : 0 < den) (hm : 0 < m) (h : Canonical m e)
    (hr : Rounds (num / den) m e) : nearest negative num den = .finite negative m e h := by
  have hn : 0 < num := by
    have hpos : (0 : ℚ) < num / den := (low_pos hm e).trans_le hr.low_le
    refine Nat.pos_of_ne_zero fun hzero => ?_
    rw [hzero, Nat.cast_zero, zero_div] at hpos
    exact hpos.false
  obtain ⟨m', e', h', hnearest, hr'⟩ := nearest_spec negative hn hd (hr.lt_limit h)
  obtain ⟨rfl, rfl⟩ := hr.unique hr' h h'
  exact hnearest

end EtherCore.Binary64
