import EtherCore.Bus.AddressMap
import Mathlib

/-!
Windows of bus addresses as sets of numbers.  A window has the least power of two that holds a
region, `powerAbove_isLeast`; the bus computes with sums held to a word, and what its overlap test
says of the exact windows is `overlaps_iff`: they share an address below the greatest word.
-/

namespace EtherCore

/-! ### The least power of two above a size -/

theorem powerAbove_eq_pow (n : Nat) : ∃ k, powerAbove n = 2 ^ k := by
  unfold powerAbove
  split
  · exact ⟨0, rfl⟩
  · exact ⟨(n - 1).log2 + 1, rfl⟩

theorem powerAbove_le_of_le_pow {n k : Nat} (h : n ≤ 2 ^ k) : powerAbove n ≤ 2 ^ k := by
  unfold powerAbove
  split
  · exact Nat.one_le_two_pow
  · next hn =>
    have hlog : (n - 1).log2 < k := (Nat.log2_lt (by omega)).2 (by omega)
    exact Nat.pow_le_pow_right (by omega) hlog

/-- The power above a size is the least power of two that is at least the size. -/
theorem powerAbove_isLeast (n : Nat) : IsLeast {p | n ≤ p ∧ ∃ k, p = 2 ^ k} (powerAbove n) := by
  refine ⟨⟨le_powerAbove n, powerAbove_eq_pow n⟩, ?_⟩
  rintro p ⟨hn, k, rfl⟩
  exact powerAbove_le_of_le_pow hn

theorem powerAbove_dvd_pow {n k : Nat} (h : powerAbove n ≤ 2 ^ k) : powerAbove n ∣ 2 ^ k := by
  obtain ⟨j, hj⟩ := powerAbove_eq_pow n
  rw [hj] at h ⊢
  exact Nat.pow_dvd_pow 2 ((Nat.pow_le_pow_iff_right (by omega)).1 h)

theorem powerAbove_size_le (size : UInt64) : powerAbove size.toNat ≤ 2 ^ 64 :=
  powerAbove_le_of_le_pow (Nat.le_of_lt size.toNat_lt)

/-! ### Sizes and sums held to a word -/

theorem maxWord_eq : maxWord = 2 ^ 64 - 1 := rfl

theorem toNat_le_maxWord (x : UInt64) : x.toNat ≤ maxWord := by
  have := x.toNat_lt
  rw [maxWord_eq]
  omega

theorem toNat_ofNat_of_le {n : Nat} (h : n ≤ maxWord) : (UInt64.ofNat n).toNat = n := by
  rw [maxWord_eq] at h
  exact UInt64.toNat_ofNat_of_lt' (by show n < 2 ^ 64; omega)

theorem addHeld_eq_of_lt {a b : Nat} (h : addHeld a b < maxWord) : addHeld a b = a + b := by
  unfold addHeld at *
  omega

theorem lt_addHeld_iff {a b c : Nat} (h : a < maxWord) : a < addHeld b c ↔ a < b + c := by
  unfold addHeld
  omega

theorem decodeSize_eq_of_lt {size : UInt64} (h : decodeSize size < maxWord) :
    decodeSize size = powerAbove size.toNat := by
  unfold decodeSize at *
  omega

/-- A decoded size is the power of two above the size, but that the greatest word stands for
`2 ^ 64`. -/
theorem decodeSize_eq (size : UInt64) :
    decodeSize size = powerAbove size.toNat ∨
      decodeSize size = maxWord ∧ powerAbove size.toNat = 2 ^ 64 := by
  have := powerAbove_size_le size
  unfold decodeSize
  rw [maxWord_eq]
  omega

/-! ### Windows -/

namespace PlacedRegion

/-- The addresses that the bus decodes for a region. -/
def window (r : PlacedRegion) : Set Nat := Set.Ico r.origin.toNat (r.origin.toNat + r.decoded)

/-- The addresses of the power of two above the size of a region, from its origin on. -/
def fullWindow (r : PlacedRegion) : Set Nat :=
  Set.Ico r.origin.toNat (r.origin.toNat + powerAbove r.size.toNat)

/-- Two regions share no address below the greatest word. -/
def Apart (r s : PlacedRegion) : Prop := ∀ a < maxWord, a ∈ r.window → a ∉ s.window

instance : Std.Symm Apart := ⟨fun _ _ h a ha hs hr => h a ha hr hs⟩

theorem decoded_pos (r : PlacedRegion) : 0 < r.decoded := decodeSize_pos r.size

theorem size_le_decoded (r : PlacedRegion) : r.size.toNat ≤ r.decoded :=
  Nat.le_min.2 ⟨le_powerAbove _, toNat_le_maxWord _⟩

/-- The two windows of a region differ in the greatest word at most. -/
theorem mem_fullWindow_iff {r : PlacedRegion} {a : Nat} (h : a < maxWord) :
    a ∈ r.fullWindow ↔ a ∈ r.window := by
  unfold fullWindow window decoded
  simp only [Set.mem_Ico]
  rcases decodeSize_eq r.size with hd | ⟨hd, hp⟩
  · rw [hd]
  · rw [hd, hp]
    rw [maxWord_eq] at *
    omega

/-- The overlap test finds exactly the windows that share an address below the greatest word. -/
theorem overlaps_iff {r : PlacedRegion} {origin size : Nat} (h : 0 < size) :
    r.overlaps origin size = true ↔
      ∃ a < maxWord, a ∈ r.window ∧ a ∈ Set.Ico origin (origin + size) := by
  simp only [overlaps, Bool.and_eq_true, decide_eq_true_eq, window, Set.mem_Ico]
  constructor
  · rintro ⟨hr, ho⟩
    have hr' : origin < maxWord := Nat.lt_of_lt_of_le hr (addHeld_le_maxWord ..)
    have ho' : r.origin.toNat < maxWord := Nat.lt_of_lt_of_le ho (addHeld_le_maxWord ..)
    rw [stop, lt_addHeld_iff hr'] at hr
    rw [lt_addHeld_iff ho'] at ho
    have := r.decoded_pos
    -- both windows hold the greater one of the two origins
    exact ⟨max origin r.origin.toNat, by omega, by omega, by omega⟩
  · rintro ⟨a, ha, ⟨h1, h2⟩, h3, h4⟩
    rw [stop, lt_addHeld_iff (by omega), lt_addHeld_iff (by omega)]
    omega

end PlacedRegion

theorem AddressMap.blocker?_eq_none_iff {regions : List PlacedRegion} {origin size : Nat}
    (h : 0 < size) :
    blocker? regions origin size = none ↔
      ∀ r ∈ regions, ∀ a < maxWord, a ∈ r.window → a ∉ Set.Ico origin (origin + size) := by
  simp only [blocker?, List.find?_eq_none, PlacedRegion.overlaps_iff h]
  constructor
  · intro hn r hr a ha hw ho
    exact hn r hr ⟨a, ha, hw, ho⟩
  · rintro hn r hr ⟨a, ha, hw, ho⟩
    exact hn r hr a ha hw ho

end EtherCore
