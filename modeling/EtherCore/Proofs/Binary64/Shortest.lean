import EtherCore.Binary64.Decimal
import EtherCore.Proofs.Binary64.Nearest

/-!
The shortest decimal of a double.  The search through the grids of decimals always ends with a
decimal of the interval of the double (`shortest_spec`), and the double nearest to such a decimal is
the one that was searched for (`ofDecimal_eq`).
-/

namespace EtherCore.Binary64

variable {d m : ℕ} {e p q : ℤ}

/-! ### One grid -/

/-- The two scales are the units of the two sides, times one common factor. -/
theorem gridScales_spec (e p : ℤ) : ∃ c : ℚ, 0 < c ∧
    ((gridScales e p).1 : ℚ) = 10 ^ p * c ∧ ((gridScales e p).2 : ℚ) = 2 ^ e * c := by
  refine ⟨2 ^ (-e).toNat * 10 ^ (-p).toNat, by positivity, ?_, ?_⟩
  · have hten := zpow_mul_pow_toNat (by norm_num : (10 : ℚ) ≠ 0) p
    simp only [gridScales, Nat.pow_eq]
    push_cast
    rw [← hten]
    ring
  · have htwo := zpow_mul_pow_toNat (by norm_num : (2 : ℚ) ≠ 0) e
    simp only [gridScales, Nat.pow_eq]
    push_cast
    rw [← htwo]
    ring

theorem mul_scale_le_iff (e p : ℤ) (d n : ℕ) :
    d * (gridScales e p).1 ≤ n * (gridScales e p).2 ↔ (d * 10 ^ p : ℚ) ≤ n * 2 ^ e := by
  obtain ⟨c, hc, hten, htwo⟩ := gridScales_spec e p
  rw [← @Nat.cast_le ℚ, Nat.cast_mul, Nat.cast_mul, hten, htwo, ← mul_assoc, ← mul_assoc]
  exact mul_le_mul_iff_left₀ hc

theorem mul_scale_lt_iff (e p : ℤ) (d n : ℕ) :
    d * (gridScales e p).1 < n * (gridScales e p).2 ↔ (d * 10 ^ p : ℚ) < n * 2 ^ e := by
  obtain ⟨c, hc, hten, htwo⟩ := gridScales_spec e p
  rw [← @Nat.cast_lt ℚ, Nat.cast_mul, Nat.cast_mul, hten, htwo, ← mul_assoc, ← mul_assoc]
  exact mul_lt_mul_iff_left₀ hc

theorem le_mul_scale_iff (e p : ℤ) (d n : ℕ) :
    n * (gridScales e p).2 ≤ d * (gridScales e p).1 ↔ (n * 2 ^ e : ℚ) ≤ d * 10 ^ p := by
  rw [← not_lt, mul_scale_lt_iff, not_lt]

theorem lt_mul_scale_iff (e p : ℤ) (d n : ℕ) :
    n * (gridScales e p).2 < d * (gridScales e p).1 ↔ (n * 2 ^ e : ℚ) < d * 10 ^ p := by
  rw [← not_le, mul_scale_le_iff, not_le]

/-- Tells whether the point `d * 10 ^ p` is inside the bounds that the search compares with. -/
def inside (m : ℕ) (e p : ℤ) (d : ℕ) : Bool :=
  let scales := gridScales (e - 2) p
  let lower := (4 * m - if m = Nat.pow 2 52 ∧ e ≠ -1074 then 1 else 2) * scales.2
  let upper := (4 * m + 2) * scales.2
  let x := d * scales.1
  if m % 2 = 0 then lower ≤ x && x ≤ upper else lower < x && x < upper

/-- The greatest point of a grid that is not above the double. -/
def pointBelow (m : ℕ) (e p : ℤ) : ℕ :=
  4 * m * (gridScales (e - 2) p).2 / (gridScales (e - 2) p).1

theorem inside_iff (hm : 0 < m) (e p : ℤ) (d : ℕ) :
    inside m e p d = true ↔ Rounds (d * 10 ^ p) m e := by
  have hlow : (((4 * m - if m = Nat.pow 2 52 ∧ e ≠ -1074 then 1 else 2 : ℕ) : ℚ)) * 2 ^ (e - 2)
      = low m e := by
    rw [low, Nat.cast_sub (by split <;> omega), Nat.pow_eq]
    push_cast
    rfl
  have hhigh : ((4 * m + 2 : ℕ) : ℚ) * 2 ^ (e - 2) = high m e := by
    rw [high]
    push_cast
    rfl
  unfold inside
  dsimp only
  obtain heven | hodd := Nat.mod_two_eq_zero_or_one m
  · rw [if_pos heven, Bool.and_eq_true, decide_eq_true_eq, decide_eq_true_eq, le_mul_scale_iff,
      mul_scale_le_iff, hlow, hhigh]
    exact ⟨fun h => ⟨h.1, h.2, fun hodd => by omega⟩, fun h => ⟨h.low_le, h.le_high⟩⟩
  · rw [if_neg (by omega), Bool.and_eq_true, decide_eq_true_eq, decide_eq_true_eq,
      lt_mul_scale_iff, mul_scale_lt_iff, hlow, hhigh]
    exact ⟨fun h => ⟨h.1.le, h.2.le, fun _ => h⟩, fun h => h.of_odd hodd⟩

/-- A grid gives one of the two points around the double that are inside, the nearer of two. -/
theorem gridPoint?_eq (m : ℕ) (e p : ℤ) : gridPoint? m e p =
    (let scales := gridScales (e - 2) p
      let value := 4 * m * scales.2
      let d := pointBelow m e p
      match inside m e p d, inside m e p (d + 1) with
      | true, true =>
        some (if value - d * scales.1 < (d + 1) * scales.1 - value then d else d + 1)
      | true, false => some d
      | false, true => some (d + 1)
      | false, false => none) := rfl

theorem inside_of_gridPoint? (h : gridPoint? m e p = some d) : inside m e p d = true := by
  rw [gridPoint?_eq] at h
  dsimp only at h
  split at h
  · split at h <;> cases h <;> assumption
  · cases h
    assumption
  · cases h
    assumption
  · cases h

theorem isSome_gridPoint?_of_inside (h : inside m e p (pointBelow m e p) = true) :
    (gridPoint? m e p).isSome := by
  rw [gridPoint?_eq]
  dsimp only
  rw [h]
  split <;> simp_all

/-- The point below the double is less than one step of the grid below it. -/
theorem pointBelow_spec (m : ℕ) (e p : ℤ) :
    (pointBelow m e p * 10 ^ p : ℚ) ≤ m * 2 ^ e ∧
      (m * 2 ^ e : ℚ) < (pointBelow m e p + 1) * 10 ^ p := by
  have hscale : 0 < (gridScales (e - 2) p).1 := by
    simp only [gridScales, Nat.pow_eq]
    positivity
  have hle : pointBelow m e p * (gridScales (e - 2) p).1 ≤ 4 * m * (gridScales (e - 2) p).2 :=
    Nat.div_mul_le_self _ _
  have hlt : 4 * m * (gridScales (e - 2) p).2
      < (pointBelow m e p + 1) * (gridScales (e - 2) p).1 := by
    rw [mul_comm (pointBelow m e p + 1)]
    exact Nat.lt_mul_div_succ _ hscale
  rw [mul_scale_le_iff] at hle
  rw [lt_mul_scale_iff] at hlt
  push_cast at hle hlt
  rw [two_zpow_eq]
  constructor <;> linarith

/-- A grid with steps of at most a quarter of the double's own step has a point inside. -/
theorem isSome_gridPoint? (hm : 0 < m) (hfine : (10 : ℚ) ^ p ≤ 2 ^ (e - 2)) :
    (gridPoint? m e p).isSome := by
  obtain ⟨hbelow, habove⟩ := pointBelow_spec m e p
  have hhigh := hbelow.trans_lt (value_lt_high m e)
  have hlow : low m e < pointBelow m e p * 10 ^ p := by
    have hquarter : low m e ≤ (4 * m - 1) * 2 ^ (e - 2) := by
      rw [low]
      refine mul_le_mul_of_nonneg_right ?_ (two_zpow_pos _).le
      split <;> linarith
    rw [two_zpow_eq] at habove
    linarith
  exact isSome_gridPoint?_of_inside
    ((inside_iff hm _ _ _).2 ⟨hlow.le, hhigh.le, fun _ => ⟨hlow, hhigh⟩⟩)

/-! ### The search -/

/-- A search that passes a grid with a point ends at a grid with a point. -/
theorem gridPoint?_searchGrids {steps : ℕ} (hsome : (gridPoint? m e q).isSome) (hle : q ≤ p)
    (hlt : p < q + steps) :
    gridPoint? m e (searchGrids m e steps p).2 = some (searchGrids m e steps p).1 := by
  induction steps generalizing p with
  | zero => exact absurd hlt (by omega)
  | succ steps ih =>
    rw [searchGrids]
    split
    · assumption
    · rename_i hnone
      have hne : q ≠ p := by
        rintro rfl
        simp [hnone] at hsome
      exact ih (by omega) (by push_cast at hlt; omega)

theorem ten_zpow_le : (10 : ℚ) ^ (-344 : ℤ) ≤ 2 ^ (-1080 : ℤ) := by
  have hpow : (2 : ℚ) ^ 1080 ≤ 10 ^ 344 :=
    calc (2 : ℚ) ^ 1080 = (2 ^ 135) ^ 8 := (pow_mul 2 135 8)
      _ ≤ (10 ^ 43) ^ 8 := pow_le_pow_left₀ (by norm_num) (by norm_num) 8
      _ = 10 ^ 344 := (pow_mul 10 43 8).symm
  rw [zpow_neg, zpow_neg, zpow_ofNat, zpow_ofNat]
  exact inv_anti₀ (pow_pos (by norm_num) _) hpow

/-- The shortest decimal of a positive double rounds to it. -/
theorem shortest_spec (h : Canonical m e) (hm : 0 < m) :
    Rounds ((shortest m e).1 * 10 ^ (shortest m e).2) m e := by
  have hmin := (canonical_iff.1 h).2.1
  have hfine : (10 : ℚ) ^ (-344 : ℤ) ≤ 2 ^ (e - 2) :=
    ten_zpow_le.trans (zpow_le_zpow_right₀ (by norm_num) (by omega))
  rw [← inside_iff hm]
  refine inside_of_gridPoint? ?_
  rw [shortest, if_neg hm.ne']
  refine gridPoint?_searchGrids (isSome_gridPoint? hm hfine) ?_ ?_
  · omega
  · push_cast
    omega

/-! ### The double of a decimal -/

/-- No double is below half of its own step. -/
theorem two_zpow_le_low (hm : 0 < m) (e : ℤ) : (2 : ℚ) ^ (e - 1) ≤ low m e := by
  have hmQ : (1 : ℚ) ≤ m := by exact_mod_cast hm
  rw [low, show e - 1 = e - 2 + 1 by ring, two_zpow_succ]
  refine mul_le_mul_of_nonneg_right ?_ (two_zpow_pos _).le
  split
  · rename_i hleast
    have hm52 : (m : ℚ) = 2 ^ 52 := by exact_mod_cast hleast.1
    linarith
  · linarith

theorem ten_zpow_le_two_zpow (hp : p ≤ 0) : (10 : ℚ) ^ p ≤ 2 ^ (3 * p) := by
  obtain ⟨k, rfl⟩ : ∃ k : ℕ, p = -k := ⟨(-p).toNat, by omega⟩
  rw [zpow_mul, zpow_neg, zpow_neg, zpow_natCast, zpow_natCast]
  refine inv_anti₀ (by positivity) ?_
  gcongr
  norm_num

theorem ofDecimal_zero (negative : Bool) (p : ℤ) : ofDecimal negative 0 p = zero negative := by
  rw [ofDecimal, if_pos rfl]

/-- A decimal that rounds to a positive double is read as this double. -/
theorem ofDecimal_eq (negative : Bool) (hp : p ≤ 0) (hm : 0 < m) (h : Canonical m e)
    (hr : Rounds (d * 10 ^ p) m e) : ofDecimal negative d p = .finite negative m e h := by
  have hlow := (two_zpow_le_low hm e).trans hr.low_le
  have hd : d ≠ 0 := by
    rintro rfl
    have hpos := two_zpow_pos (e - 1)
    simp only [Nat.cast_zero, zero_mul] at hlow
    linarith
  have hlarge : ¬ (d.log2 : ℤ) + 1 + 3 * p < -1076 := by
    intro hsmall
    have hmin := (canonical_iff.1 h).2.1
    have hdQ : (d : ℚ) < 2 ^ ((d.log2 : ℤ) + 1) := by exact_mod_cast Nat.lt_log2_self (n := d)
    have hten : (0 : ℚ) < 10 ^ p := zpow_pos (by norm_num) p
    have hlt : (d * 10 ^ p : ℚ) < 2 ^ (e - 1) :=
      calc (d * 10 ^ p : ℚ) < 2 ^ ((d.log2 : ℤ) + 1) * 10 ^ p := mul_lt_mul_of_pos_right hdQ hten
        _ ≤ 2 ^ ((d.log2 : ℤ) + 1) * 2 ^ (3 * p) :=
          mul_le_mul_of_nonneg_left (ten_zpow_le_two_zpow hp) (two_zpow_pos _).le
        _ = 2 ^ ((d.log2 : ℤ) + 1 + 3 * p) := (zpow_add₀ (by norm_num) _ _).symm
        _ ≤ 2 ^ (e - 1) := zpow_le_zpow_right₀ (by norm_num) (by omega)
    exact absurd hlow (not_le.2 hlt)
  rw [ofDecimal, if_neg hd, if_neg (by omega), if_neg hlarge]
  refine nearest_eq negative (by simp only [Nat.pow_eq]; positivity) hm h ?_
  have hratio : ((d * Nat.pow 10 p.toNat : ℕ) : ℚ) / (Nat.pow 10 (-p).toNat : ℕ) = d * 10 ^ p := by
    simp only [Nat.pow_eq]
    push_cast
    rw [← zpow_mul_pow_toNat (by norm_num : (10 : ℚ) ≠ 0) p]
    field_simp
  rwa [hratio]

end EtherCore.Binary64
