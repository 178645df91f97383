import EtherCore.Proofs.Bus.Placement

/-!
The search for an origin.  It passes regions by and never an origin that is free, in whatever order
the regions stand (`exists_search?_le`).  So on a bus of at most 63 bits a slave that names no
origin is placed exactly if there is room for its window, and then at the lowest origin that has
room (`addSlave_lowest`).
-/

namespace EtherCore

theorem addHeld_mono {a b : Nat} (h : a ≤ b) (size : Nat) : addHeld a size ≤ addHeld b size := by
  unfold addHeld
  omega

namespace AddressMap

variable {regions : List PlacedRegion} {r : PlacedRegion} {space size candidate a : Nat}

/-! ### Passing a region by -/

theorem alignUp_eq (address size : Nat) :
    alignUp address size = mulHeld (address ⌈/⌉ size) size := by
  rw [alignUp, Nat.ceilDiv_eq_add_pred_div]

theorem le_alignUp (hsize : 0 < size) {address : Nat} (h : address ≤ maxWord) :
    address ≤ alignUp address size := by
  have hceil : address ≤ size * (address ⌈/⌉ size) := (ceilDiv_le_iff_le_mul hsize).1 le_rfl
  rw [alignUp_eq, mulHeld, Nat.mul_comm]
  exact Nat.le_min.2 ⟨hceil, h⟩

/-- The multiple of a size that is looked at next is the first from an address on. -/
theorem alignUp_le_of_dvd (hsize : 0 < size) {address : Nat} (hdvd : size ∣ a) (h : address ≤ a) :
    alignUp address size ≤ a := by
  obtain ⟨q, rfl⟩ := hdvd
  have hceil : address ⌈/⌉ size ≤ q := (ceilDiv_le_iff_le_mul hsize).2 h
  rw [alignUp_eq, mulHeld, Nat.mul_comm size]
  exact Nat.le_trans (Nat.min_le_left ..) (Nat.mul_le_mul_right _ hceil)

theorem lt_stop_of_blocker? (h : blocker? regions candidate size = some r) :
    candidate < r.stop ∧ r.origin.toNat < addHeld candidate size := by
  have hr := List.find?_some h
  rw [PlacedRegion.overlaps, Bool.and_eq_true, decide_eq_true_eq, decide_eq_true_eq] at hr
  exact hr

/-- Behind a region that blocks a candidate, the search goes on with a greater one. -/
theorem lt_next (hsize : 0 < size) (h : blocker? regions candidate size = some r) :
    candidate < alignUp r.stop size := by
  have hstop : candidate < r.stop := (lt_stop_of_blocker? h).1
  have hnext : r.stop ≤ alignUp r.stop size := le_alignUp hsize (addHeld_le_maxWord ..)
  omega

/-- A region that blocks a candidate blocks every later one that begins before the region stops. -/
theorem next_le_of_free (hsize : 0 < size) (h : blocker? regions candidate size = some r)
    (hdvd : size ∣ a) (hle : candidate ≤ a) (hfree : blocker? regions a size = none) :
    alignUp r.stop size ≤ a := by
  apply alignUp_le_of_dvd hsize hdvd
  by_contra hstop
  have hlt : a < r.stop := by omega
  have hbegins : r.origin.toNat < addHeld a size := by
    have hblocks := (lt_stop_of_blocker? h).2
    have hmono := addHeld_mono hle size
    omega
  have hmeets : r.overlaps a size = true := by
    rw [PlacedRegion.overlaps, Bool.and_eq_true, decide_eq_true_eq, decide_eq_true_eq]
    exact ⟨hlt, hbegins⟩
  exact List.find?_eq_none.1 hfree r (List.mem_of_find?_eq_some h) hmeets

/-- If an origin from a candidate on is free, the search finds it or a lower one. -/
theorem exists_search?_le (hsize : 0 < size) (hdvd : size ∣ a) (hheld : addHeld a size ≤ space)
    (hfree : blocker? regions a size = none) (hle : candidate ≤ a) :
    ∃ b ≤ a, search? regions space size candidate = some b := by
  induction candidate using search?.induct regions space size with
  | case1 c hc hnone => exact ⟨c, hle, by rw [search?, if_pos hc, hnone]⟩
  | case2 c hc r hr next hnext => exact absurd hnext (Nat.not_le.2 (lt_next hsize hr))
  | case3 c hc r hr next hnext ih =>
    obtain ⟨b, hb, hfound⟩ := ih (next_le_of_free hsize hr hdvd hle hfree)
    refine ⟨b, hb, ?_⟩
    rw [search?, if_pos hc, hr]
    dsimp only
    rw [if_neg hnext, hfound]
  | case4 c hc => exact absurd (Nat.le_trans (addHeld_mono hle size) hheld) hc

/-! ### The lowest origin -/

/-- The origins that have room for a window of a size: the multiples of the size from which the
window lies on the bus and shares no address with a region. -/
def vacant (m : AddressMap) (size : Nat) : Set Nat :=
  {a | size ∣ a ∧ a + size ≤ 2 ^ m.width.toNat ∧
    ∀ r ∈ m.regions, Disjoint r.window (Set.Ico a (a + size))}

theorem addHeld_le_space_iff {m : AddressMap} (hwidth : m.width.toNat ≤ 63) :
    addHeld a size ≤ m.space ↔ a + size ≤ 2 ^ m.width.toNat := by
  have hspace := space_lt_maxWord hwidth
  rw [space_eq_pow hwidth] at hspace ⊢
  unfold addHeld
  omega

/-- On a bus of at most 63 bits, what is granted for an origin is that it has room. -/
theorem granted_iff_mem_vacant {m : AddressMap} (hwidth : m.width.toNat ≤ 63) (hsize : 0 < size) :
    m.Granted size a ↔ a ∈ m.vacant size := by
  have hspace := space_lt_maxWord hwidth
  rw [space_eq_pow hwidth] at hspace
  constructor
  · rintro ⟨haligned, hheld, hfree⟩
    rw [addHeld_le_space_iff hwidth] at hheld
    refine ⟨haligned.resolve_right (by omega), hheld, ?_⟩
    intro r hr
    rw [Set.disjoint_left]
    intro b hb hwindow
    have hword : b < maxWord := by
      have hlt := hwindow.2
      omega
    exact hfree r hr b hword hb hwindow
  · rintro ⟨haligned, hends, hfree⟩
    exact ⟨Or.inl haligned, (addHeld_le_space_iff hwidth).2 hends,
      fun r hr b _ hb => Set.disjoint_left.1 (hfree r hr) hb⟩

/-- If an origin has room, the search finds it or a lower one. -/
theorem exists_search?_le_of_mem_vacant {m : AddressMap} (hwidth : m.width.toNat ≤ 63)
    (hsize : 0 < size) (ha : a ∈ m.vacant size) :
    ∃ b ≤ a, search? m.regions m.space size 0 = some b := by
  obtain ⟨-, hheld, hfree⟩ := (granted_iff_mem_vacant hwidth hsize).2 ha
  exact exists_search?_le hsize ha.1 hheld ((blocker?_eq_none_iff hsize).2 hfree) (Nat.zero_le a)

/-- What the search finds is the lowest origin that has room. -/
theorem search?_eq_some_isLeast {m : AddressMap} (hwidth : m.width.toNat ≤ 63) (hsize : 0 < size)
    (h : search? m.regions m.space size 0 = some a) : IsLeast (m.vacant size) a := by
  obtain ⟨hgranted, -⟩ := search?_granted hsize (Or.inl (Nat.dvd_zero _)) (Nat.zero_le _) h
  refine ⟨(granted_iff_mem_vacant hwidth hsize).1 hgranted, ?_⟩
  intro b hb
  obtain ⟨c, hc, hfound⟩ := exists_search?_le_of_mem_vacant hwidth hsize hb
  obtain rfl : a = c := Option.some.inj (h.symm.trans hfound)
  exact hc

/-! ### Slaves that name no origin -/

theorem addSlave_free_eq_ok_iff {m m' : AddressMap} {name : String} {size : UInt64} {cached : Bool}
    {p : PlacedRegion} :
    m.addSlave name ⟨none, size, cached⟩ = .ok (p, m') ↔
      name ∉ m.regions.map (·.name) ∧ size ≠ 0 ∧
        search? m.regions m.space (decodeSize size) 0 = some p.origin.toNat ∧
        p = ⟨name, p.origin, size, cached⟩ ∧ m' = { m with regions := m.regions ++ [p] } := by
  have horigin : m.originFor name ⟨none, size, cached⟩ = .ok p.origin ↔
      search? m.regions m.space (decodeSize size) 0 = some p.origin.toNat := by
    simp only [originFor]
    split
    · next n hn =>
      have hword : n ≤ maxWord :=
        (search?_granted (decodeSize_pos size) (Or.inl (Nat.dvd_zero _)) (Nat.zero_le _) hn).2
      rw [Except.ok.injEq, hn, Option.some.injEq, ← UInt64.toNat_inj, toNat_ofNat_of_le hword]
    · next hnone => simp [hnone]
  rw [addSlave_eq_ok_iff, get?_eq_none_iff, horigin]

/-- On a bus of at most 63 bits, a slave that names no origin is placed if and only if its name is
new, its size is positive and some origin has room for its window; and then it is placed at the
lowest origin that has. -/
theorem addSlave_lowest {m : AddressMap} (hwidth : m.width.toNat ≤ 63) (name : String)
    (size : UInt64) (cached : Bool) :
    ((∃ p m', m.addSlave name ⟨none, size, cached⟩ = .ok (p, m')) ↔
        name ∉ m.regions.map (·.name) ∧ size ≠ 0 ∧ (m.vacant (decodeSize size)).Nonempty) ∧
      ∀ p m', m.addSlave name ⟨none, size, cached⟩ = .ok (p, m') →
        IsLeast (m.vacant (decodeSize size)) p.origin.toNat := by
  have hsize := decodeSize_pos size
  refine ⟨⟨?_, ?_⟩, ?_⟩
  · rintro ⟨p, m', h⟩
    obtain ⟨hname, hzero, hfound, -, -⟩ := addSlave_free_eq_ok_iff.1 h
    exact ⟨hname, hzero, _, (search?_eq_some_isLeast hwidth hsize hfound).1⟩
  · rintro ⟨hname, hzero, a, ha⟩
    obtain ⟨b, -, hfound⟩ := exists_search?_le_of_mem_vacant hwidth hsize ha
    have hword : b ≤ maxWord :=
      (search?_granted hsize (Or.inl (Nat.dvd_zero _)) (Nat.zero_le _) hfound).2
    rw [← toNat_ofNat_of_le hword] at hfound
    exact ⟨⟨name, UInt64.ofNat b, size, cached⟩, _,
      addSlave_free_eq_ok_iff.2 ⟨hname, hzero, hfound, rfl, rfl⟩⟩
  · intro p m' h
    obtain ⟨-, -, hfound, -, -⟩ := addSlave_free_eq_ok_iff.1 h
    exact search?_eq_some_isLeast hwidth hsize hfound

/-- Between two regions there is no multiple of the size that has room, so the search goes behind
the one that was added first. -/
theorem addSlave_lowest_behind :
    let m := (empty 16).run [("rom", ⟨some 0x2000, 0x1000, true⟩), ("sram", ⟨none, 0x800, true⟩)]
    m.width.toNat ≤ 63 ∧ m.regions = [⟨"rom", 0x2000, 0x1000, true⟩, ⟨"sram", 0, 0x800, true⟩] ∧
      (m.addSlave "ethmac" ⟨none, 0x1800, false⟩).isOk ∧ IsLeast (m.vacant 0x2000) 0x4000 := by
  intro m
  have hwidth : m.width.toNat ≤ 63 := by decide +kernel
  have hplaced : m.addSlave "ethmac" ⟨none, 0x1800, false⟩ =
      .ok (⟨"ethmac", 0x4000, 0x1800, false⟩, { m with regions := m.regions ++
        [⟨"ethmac", 0x4000, 0x1800, false⟩] }) := by decide +kernel
  have hlowest := (addSlave_lowest hwidth "ethmac" 0x1800 false).2 _ _ hplaced
  exact ⟨hwidth, by decide +kernel, by rw [hplaced]; rfl, hlowest⟩

end AddressMap

end EtherCore
