import EtherCore.Proofs.Bus.Placement

/-!
A bus of 64 bits.  There the sums held to a word meet the end of the bus, and the greatest word is
an origin that the checks always let pass.  `run_exactlyPlaced_iff` says exactly which runs still
leave the regions placed in exact numbers.
-/

namespace EtherCore

/-! ### The top of the address space -/

namespace PlacedRegion

/-- Tells whether the full window of a region goes up to the last of `2 ^ 64` addresses. -/
def reachesTop (r : PlacedRegion) : Bool := 2 ^ 64 ≤ r.origin.toNat + powerAbove r.size.toNat

theorem mem_fullWindow_maxWord {r : PlacedRegion} : maxWord ∈ r.fullWindow ↔ r.reachesTop := by
  have := toNat_le_maxWord r.origin
  simp only [fullWindow, reachesTop, Set.mem_Ico, decide_eq_true_eq]
  rw [maxWord_eq] at *
  omega

/-- A window that begins at a multiple of its size ends among `2 ^ 64` addresses. -/
theorem fullWindow_le_of_dvd {r : PlacedRegion} (h : powerAbove r.size.toNat ∣ r.origin.toNat) :
    r.origin.toNat + powerAbove r.size.toNat ≤ 2 ^ 64 := by
  have horigin := r.origin.toNat_lt
  obtain ⟨q, hq⟩ := h
  obtain ⟨c, hc⟩ := powerAbove_dvd_pow (powerAbove_size_le r.size)
  have hlt : q < c := by
    rw [hq, hc] at horigin
    exact Nat.lt_of_mul_lt_mul_left horigin
  calc r.origin.toNat + powerAbove r.size.toNat
      = powerAbove r.size.toNat * (q + 1) := by rw [hq, Nat.mul_succ]
    _ ≤ powerAbove r.size.toNat * c := Nat.mul_le_mul_left _ hlt
    _ = 2 ^ 64 := hc.symm

/-- Only at the greatest word does the bus place a region off the multiples of its full window. -/
theorem dvd_origin_of_aligned {r : PlacedRegion}
    (h : r.decoded ∣ r.origin.toNat ∨ r.origin.toNat = maxWord) (hne : r.origin.toNat ≠ maxWord) :
    powerAbove r.size.toNat ∣ r.origin.toNat := by
  have hdvd : r.decoded ∣ r.origin.toNat := h.resolve_right hne
  rcases decodeSize_eq r.size with hd | ⟨hd, -⟩
  · rwa [decoded, hd] at hdvd
  · -- a multiple of the greatest word below it is zero
    rw [decoded, hd] at hdvd
    have hlt : r.origin.toNat < maxWord := Nat.lt_of_le_of_ne (toNat_le_maxWord _) hne
    rw [Nat.eq_zero_of_dvd_of_lt hdvd hlt]
    exact Nat.dvd_zero _

end PlacedRegion

/-! ### Placement in exact numbers -/

namespace AddressMap

/-- The regions lie on a bus of 64 bits in exact numbers: they end among `2 ^ 64` addresses, their
origins are multiples of the least powers of two above their sizes, and no address lies in the full
windows of two of them. -/
structure ExactlyPlaced (m : AddressMap) : Prop where
  ends : ∀ r ∈ m.regions, r.origin.toNat + r.size.toNat ≤ 2 ^ 64
  aligned : ∀ r ∈ m.regions, powerAbove r.size.toNat ∣ r.origin.toNat
  apart : m.regions.Pairwise fun r s => ∀ a < 2 ^ 64, a ∈ r.fullWindow → a ∉ s.fullWindow

/-- Regions that pass the checks share no address of their full windows but the last. -/
theorem Placed.apart_iff {m : AddressMap} (hm : m.Placed) :
    (m.regions.Pairwise fun r s => ∀ a < 2 ^ 64, a ∈ r.fullWindow → a ∉ s.fullWindow) ↔
      m.regions.Pairwise fun r s => r.reachesTop → ¬ s.reachesTop := by
  constructor
  · intro h
    refine h.imp fun {r s} hrs hr hs => ?_
    have hlt : maxWord < 2 ^ 64 := by decide
    exact hrs maxWord hlt (PlacedRegion.mem_fullWindow_maxWord.2 hr)
      (PlacedRegion.mem_fullWindow_maxWord.2 hs)
  · intro h
    refine (h.and hm.apart).imp fun {r s} ⟨htop, hbelow⟩ a ha har has => ?_
    rcases Nat.lt_or_ge a maxWord with hlt | hge
    · exact hbelow a hlt ((PlacedRegion.mem_fullWindow_iff hlt).1 har)
        ((PlacedRegion.mem_fullWindow_iff hlt).1 has)
    · obtain rfl : a = maxWord := by rw [maxWord_eq] at *; omega
      exact htop (PlacedRegion.mem_fullWindow_maxWord.1 har)
        (PlacedRegion.mem_fullWindow_maxWord.1 has)

/-- Regions that pass the checks are exactly placed if none but a single byte begins at the
greatest word and at most one goes up to the last address. -/
theorem Placed.exactlyPlaced_iff {m : AddressMap} (hm : m.Placed) :
    m.ExactlyPlaced ↔ (∀ r ∈ m.regions, r.origin.toNat = maxWord → r.size = 1) ∧
      (m.regions.filter PlacedRegion.reachesTop).length ≤ 1 := by
  rw [length_filter_le_one_iff, ← hm.apart_iff]
  constructor
  · intro h
    refine ⟨fun r hr hmax => ?_, h.apart⟩
    have hend := h.ends r hr
    have hpos : r.size.toNat ≠ 0 := fun h0 => hm.size_ne_zero r hr (UInt64.toNat_inj.1 h0)
    rw [hmax, maxWord_eq] at hend
    have hone : r.size.toNat = 1 := by omega
    exact UInt64.toNat_inj.1 hone
  · rintro ⟨hmax, hapart⟩
    have haligned : ∀ r ∈ m.regions, powerAbove r.size.toNat ∣ r.origin.toNat := fun r hr => by
      by_cases h : r.origin.toNat = maxWord
      · rw [hmax r hr h]
        exact Nat.one_dvd _
      · exact PlacedRegion.dvd_origin_of_aligned (hm.aligned r hr) h
    refine ⟨fun r hr => ?_, haligned, hapart⟩
    have := PlacedRegion.fullWindow_le_of_dvd (haligned r hr)
    have := le_powerAbove r.size.toNat
    omega

/-- On a bus of 64 bits, a run of requests leaves the regions exactly placed if and only if none
but a single byte begins at the greatest word and at most one region goes up to the last
address. -/
theorem run_exactlyPlaced_iff (requests : List (String × Region)) :
    ((empty 64).run requests).ExactlyPlaced ↔
      (∀ r ∈ ((empty 64).run requests).regions, r.origin.toNat = maxWord → r.size = 1) ∧
        (((empty 64).run requests).regions.filter PlacedRegion.reachesTop).length ≤ 1 :=
  (placed_run 64 requests).exactlyPlaced_iff

/-- Two bytes that ask for the last address both get it. -/
theorem not_exactlyPlaced_last_address :
    ¬ ((empty 64).run [("a", ⟨some 0xffffffffffffffff, 1, false⟩),
      ("b", ⟨some 0xffffffffffffffff, 1, false⟩)]).ExactlyPlaced := by
  have hregions : ((empty 64).run [("a", ⟨some 0xffffffffffffffff, 1, false⟩),
      ("b", ⟨some 0xffffffffffffffff, 1, false⟩)]).regions =
      [⟨"a", 0xffffffffffffffff, 1, false⟩, ⟨"b", 0xffffffffffffffff, 1, false⟩] := by
    decide +kernel
  intro h
  have hapart := h.apart
  rw [hregions, List.pairwise_pair] at hapart
  have htop : maxWord ∈ (⟨"a", 0xffffffffffffffff, 1, false⟩ : PlacedRegion).fullWindow :=
    PlacedRegion.mem_fullWindow_maxWord.2 (by decide)
  exact hapart maxWord (by decide) htop htop

end AddressMap

end EtherCore
