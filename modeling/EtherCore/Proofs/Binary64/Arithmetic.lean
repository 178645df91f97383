import EtherCore.Proofs.Binary64.Whole

/-!
Arithmetic of positive doubles.  A whole number up to `2 ^ 53` is converted without loss
(`ofNat_eq`), a quotient and a product are rounded once (`div_spec`, `mul_spec`), rounding changes a
number by at most `2 ^ -53` of it (`Rounds.error_le`), and the order is the order of the numbers
(`lt_iff`).
-/

namespace EtherCore.Binary64

variable {m m' n : ℕ} {e e' : ℤ} {v : ℚ}

/-! ### Rounded operations -/

theorem ofNat_eq (h : Canonical m e) (hm : 0 < m) (hv : (m : ℚ) * 2 ^ e = n) :
    ofNat n = .finite false m e h := by
  refine nearest_eq false Nat.one_pos hm h ?_
  rw [Nat.cast_one, div_one, ← hv]
  exact rounds_self m e

theorem lt_limit_of_le (hv : v ≤ 2 ^ 64) : v < limit := by
  have hpow : (2 : ℚ) ^ (64 : ℤ) ≤ 2 ^ (970 : ℤ) := zpow_le_zpow_right₀ (by norm_num) (by norm_num)
  have hstep : (1 : ℚ) < 2 ^ 54 - 1 := by norm_num
  rw [zpow_ofNat] at hpow
  calc v ≤ 2 ^ 64 := hv
    _ ≤ 2 ^ (970 : ℤ) := hpow
    _ = 1 * 2 ^ (970 : ℤ) := (one_mul _).symm
    _ < limit := mul_lt_mul_of_pos_right hstep (two_zpow_pos 970)

theorem nearestScaled_spec {num den : ℕ} (hn : 0 < num) (hd : 0 < den)
    (hv : (num : ℚ) / den * 2 ^ e = v) (hlimit : v < limit) :
    ∃ m f, ∃ h : Canonical m f,
      nearestScaled false num den e = .finite false m f h ∧ Rounds v m f := by
  have hratio := scaled_ratio num den e
  rw [hv] at hratio
  have hnum : 0 < (scaled num den e).1 := by
    simp only [scaled, Nat.pow_eq]
    positivity
  rw [← hratio] at hlimit ⊢
  exact nearest_spec false hnum (scaled_pos num hd e) hlimit

/-- The quotient of positive doubles is the double nearest to the quotient. -/
theorem div_spec (hm : 0 < m) (hm' : 0 < m') (h : Canonical m e) (h' : Canonical m' e')
    (hlimit : (m : ℚ) * 2 ^ e / (m' * 2 ^ e') < limit) :
    ∃ k f, ∃ hc : Canonical k f,
      div (.finite false m e h) (.finite false m' e' h') = .finite false k f hc ∧
        Rounds (m * 2 ^ e / (m' * 2 ^ e')) k f := by
  have hratio : (m : ℚ) / m' * 2 ^ (e - e') = m * 2 ^ e / (m' * 2 ^ e') := by
    rw [zpow_sub₀ (by norm_num)]
    ring
  rw [div, if_neg hm'.ne', bne_self_eq_false]
  exact nearestScaled_spec hm hm' hratio hlimit

/-- The product of positive doubles is the double nearest to the product. -/
theorem mul_spec (hm : 0 < m) (hm' : 0 < m') (h : Canonical m e) (h' : Canonical m' e')
    (hlimit : (m : ℚ) * 2 ^ e * (m' * 2 ^ e') < limit) :
    ∃ k f, ∃ hc : Canonical k f,
      mul (.finite false m e h) (.finite false m' e' h') = .finite false k f hc ∧
        Rounds (m * 2 ^ e * (m' * 2 ^ e')) k f := by
  have hratio : ((m * m' : ℕ) : ℚ) / (1 : ℕ) * 2 ^ (e + e') = m * 2 ^ e * (m' * 2 ^ e') := by
    rw [zpow_add₀ (by norm_num)]
    push_cast
    ring
  rw [mul, bne_self_eq_false]
  exact nearestScaled_spec (Nat.mul_pos hm hm') Nat.one_pos hratio hlimit

/-- A number that is not below one rounds to a double with a full mantissa. -/
theorem Rounds.normal (hr : Rounds v m e) (h : Canonical m e) (hv : 1 ≤ v) :
    2 ^ 52 ≤ m ∧ e ≠ -1074 := by
  obtain ⟨hm, -, -, hnormal⟩ := canonical_iff.1 h
  have he : e ≠ -1074 := by
    rintro rfl
    have hmQ : (m : ℚ) + 1 ≤ 2 ^ 53 := by exact_mod_cast hm
    have hpow : (2 : ℚ) ^ (-1074 - 1 : ℤ) ≤ 2 ^ (-54 : ℤ) :=
      zpow_le_zpow_right₀ (by norm_num) (by norm_num)
    have hhigh : v ≤ (2 * m + 1) * 2 ^ (-54 : ℤ) :=
      (high_eq m (-1074) ▸ hr.le_high).trans (mul_le_mul_of_nonneg_left hpow (by positivity))
    clear hpow
    norm_num at hhigh
    linarith
  exact ⟨hnormal.resolve_right he, he⟩

/-- Rounding changes a number that is not too small by at most `2 ^ -53` of it. -/
theorem Rounds.error_le (hr : Rounds v m e) (hm : 2 ^ 52 ≤ m) (he : e ≠ -1074) :
    |m * 2 ^ e - v| ≤ v / 2 ^ 53 := by
  obtain ⟨b, hb⟩ : ∃ b : ℚ, 2 ^ (e - 2) = b := ⟨_, rfl⟩
  have hpos : 0 < b := hb ▸ two_zpow_pos (e - 2)
  have hmQ : (2 : ℚ) ^ 52 * b ≤ m * b :=
    mul_le_mul_of_nonneg_right (by exact_mod_cast hm) hpos.le
  have hlow := hr.low_le
  have hhigh := hr.le_high
  rw [low_eq he, two_zpow_eq e, hb] at hlow
  rw [high, hb] at hhigh
  rw [two_zpow_eq e, hb, abs_le, neg_le, neg_sub]
  constructor
  · -- Above the double a half of the step is `2 ^ -53` of it.
    obtain hle | hge := le_total v (m * (4 * b))
    · have hv : 0 ≤ v := (low_pos (by omega) e).le.trans hr.low_le
      have hquot : 0 ≤ v / 2 ^ 53 := by positivity
      linarith
    · linarith
  · -- Below the least mantissa the half is the smaller one.
    split at hlow
    · linarith
    · rename_i hne
      have hmQ' : ((2 : ℚ) ^ 52 + 1) * b ≤ m * b :=
        mul_le_mul_of_nonneg_right (by exact_mod_cast (by omega : 2 ^ 52 + 1 ≤ m)) hpos.le
      linarith

/-! ### Order -/

/-- All doubles are whole multiples of the least one. -/
theorem cast_units (h : Canonical m e) :
    ((m * 2 ^ (e + 1074).toNat : ℕ) : ℚ) = m * 2 ^ e * 2 ^ (1074 : ℤ) := by
  have hmin := (canonical_iff.1 h).2.1
  rw [mul_assoc, ← zpow_add₀ (by norm_num), ← Int.toNat_of_nonneg (by omega : 0 ≤ e + 1074),
    zpow_natCast]
  push_cast
  rfl

theorem lt_iff (h : Canonical m e) (h' : Canonical m' e') :
    lt (.finite false m e h) (.finite false m' e' h') = true ↔ (m : ℚ) * 2 ^ e < m' * 2 ^ e' := by
  have hunits : lt (.finite false m e h) (.finite false m' e' h') = true
      ↔ m * 2 ^ (e + 1074).toNat < m' * 2 ^ (e' + 1074).toNat := by
    simp only [lt, units?, Nat.pow_eq, Bool.false_eq_true, if_false, decide_eq_true_eq, Nat.cast_lt]
  rw [hunits, ← @Nat.cast_lt ℚ, cast_units h, cast_units h']
  exact mul_lt_mul_iff_left₀ (two_zpow_pos 1074)

end EtherCore.Binary64
