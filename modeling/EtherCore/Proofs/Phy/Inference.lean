import EtherCore.Proofs.Phy.Requirements

/-!
PHYs that are inferred.  The decision list asks for the transmit width of a family before it asks
for signals (`PhyKind.infer_eq`), and pads that fit a kind have the transmit width of its family.
So what is inferred from them is settled by the kind and by the signals that are there beside those
it requires (`PhyKind.infer_of_checkShape`).
-/

namespace EtherCore

/-- The width of the transmit data of a family. -/
def PadFamily.transmitWidth : PadFamily → UInt32
  | .mii => 4
  | .rmii => 2
  | .gmii => 8
  | .rgmii => 4

namespace PhyKind

variable {k : PhyKind} {clockPads pads : Bundle}

/-! ### The decision list -/

/-- The error for pads on which the PHY depends on the vendor. -/
def needsVendor : Error :=
  .unsupported ("RGMII pads need a vendor-specific PHY; set `phy` to one of "
    ++ "s6rgmii, s7rgmii, usrgmii, ecp5rgmii")

/-- The error for pads to which no rule applies. -/
def unknownShape (clockPads pads : Bundle) : Error :=
  .ambiguous ("pads `" ++ clockPads.name ++ "`/`" ++ pads.name
    ++ "` match no known PHY shape; set `phy` explicitly")

theorem infer_eq (clockPads pads : Bundle) : infer clockPads pads =
    if clockPads.has "gtx" ∧ pads.width? "tx_data" = some 8 then
      .ok (if clockPads.has "tx" then .gmiiMii else .gmii)
    else if pads.has "rx_ctl" then .error needsVendor
    else if pads.width? "tx_data" = some 4 then .ok .mii
    else .error (unknownShape clockPads pads) := by
  unfold infer InferenceRule.all InferenceRule.isGigabit
  by_cases hgtx : clockPads.has "gtx" ∧ pads.width? "tx_data" = some 8
  · obtain ⟨hclock, hwidth⟩ := hgtx
    cases htx : clockPads.has "tx" <;> simp [hclock, hwidth, htx]
  · have hgigabit : (clockPads.has "gtx" && decide (pads.width? "tx_data" = some 8)) = false := by
      simpa using hgtx
    rw [if_neg hgtx]
    cases hctl : pads.has "rx_ctl" with
    | true => simp [hgigabit, hctl, needsVendor]
    | false =>
      by_cases hnibble : pads.width? "tx_data" = some 4
      · simp [hnibble, hctl]
      · simp [hgigabit, hctl, hnibble, unknownShape]

theorem infer_ne_model (h : infer clockPads pads = .ok k) : k ≠ .model := by
  rw [infer_eq] at h
  split_ifs at h <;> cases h <;> decide

/-! ### Pads that fit a kind -/

theorem met_clock (h : k.checkShape clockPads pads = .ok ()) {r : Requirement}
    (hr : r ∈ k.clockRequirements) : r.Met clockPads := (checkShape_eq_ok_iff.1 h).1 r hr

theorem met_data (h : k.checkShape clockPads pads = .ok ()) {r : Requirement}
    (hr : r ∈ k.dataRequirements) : r.Met pads := (checkShape_eq_ok_iff.1 h).2 r hr

/-- Pads that fit a kind have the transmit width of its family. -/
theorem width?_transmit (h : k.checkShape clockPads pads = .ok ()) {f : PadFamily}
    (hf : k.family? = some f) : pads.width? "tx_data" = some f.transmitWidth := by
  have hr : ⟨"tx_data", f.transmitWidth⟩ ∈ k.dataRequirements := by
    rw [dataRequirements, hf]
    cases f <;> decide
  exact Requirement.met_iff.1 (met_data h hr)

/-- Pads that fit a kind with another transmit width than eight bits are told apart by the control
signal first. -/
theorem infer_of_narrow (h : k.checkShape clockPads pads = .ok ()) {f : PadFamily}
    (hf : k.family? = some f) (hwidth : f.transmitWidth ≠ 8) : infer clockPads pads =
      if pads.has "rx_ctl" then .error needsVendor
      else if f.transmitWidth = 4 then .ok .mii
      else .error (unknownShape clockPads pads) := by
  have hnot : ¬ (clockPads.has "gtx" ∧ some f.transmitWidth = some 8) := by
    rintro ⟨-, heq⟩
    exact hwidth (Option.some.inj heq)
  rw [infer_eq, width?_transmit h hf, if_neg hnot]
  simp only [Option.some.injEq]

/-- Pads that fit a kind with eight bits of GMII are told apart by the slow clock. -/
theorem infer_of_gmii (h : k.checkShape clockPads pads = .ok ()) (hf : k.family? = some .gmii) :
    infer clockPads pads = .ok (if clockPads.has "tx" then .gmiiMii else .gmii) := by
  have hgtx : clockPads.has "gtx" = true := by
    have hr : ⟨"gtx", 1⟩ ∈ k.clockRequirements := by
      revert hf
      cases k <;> decide
    exact (met_clock h hr).has
  rw [infer_eq, width?_transmit h hf]
  exact if_pos ⟨hgtx, rfl⟩

theorem infer_of_rgmii (h : k.checkShape clockPads pads = .ok ()) (hf : k.family? = some .rgmii) :
    infer clockPads pads = .error needsVendor := by
  have hctl : pads.has "rx_ctl" = true := by
    have hr : ⟨"rx_ctl", 1⟩ ∈ k.dataRequirements := by
      rw [dataRequirements, hf]
      decide
    exact (met_data h hr).has
  rw [infer_of_narrow h hf (by decide), hctl]
  rfl

/-- What is inferred from clock pads and data pads that fit a kind. -/
structure Inferred (k : PhyKind) (clockPads pads : Bundle) : Prop where
  gmiiMii : k = .gmiiMii → infer clockPads pads = .ok .gmiiMii
  gmii : k = .gmii → infer clockPads pads = .ok (if clockPads.has "tx" then .gmiiMii else .gmii)
  mii : k = .mii →
    infer clockPads pads = if pads.has "rx_ctl" then .error needsVendor else .ok .mii
  rmii : k = .rmii → infer clockPads pads =
    .error (if pads.has "rx_ctl" then needsVendor else unknownShape clockPads pads)
  rgmii : k.family? = some .rgmii → infer clockPads pads = .error needsVendor
  /-- No kind is inferred from pads that fit one of these. -/
  never : k = .rmii ∨ k.family? = some .rgmii → ∀ k', infer clockPads pads ≠ .ok k'

/-- Pads that fit a kind are taken for it, for the kind that falls back where they have the slow
clock too, or for none. -/
theorem infer_of_checkShape (h : k.checkShape clockPads pads = .ok ()) :
    k.Inferred clockPads pads := by
  have hrmii : k = .rmii → infer clockPads pads =
      .error (if pads.has "rx_ctl" then needsVendor else unknownShape clockPads pads) := by
    rintro rfl
    rw [infer_of_narrow h rfl (by decide)]
    split <;> rfl
  refine ⟨?_, ?_, ?_, hrmii, infer_of_rgmii h, ?_⟩
  · rintro rfl
    have htx : clockPads.has "tx" = true :=
      (met_clock h (r := ⟨"tx", 1⟩) (by decide)).has
    rw [infer_of_gmii h rfl, if_pos htx]
  · rintro rfl
    exact infer_of_gmii h rfl
  · rintro rfl
    exact infer_of_narrow h rfl (by decide)
  · rintro (hk | hf) k' hinfer
    · rw [hrmii hk] at hinfer
      cases hinfer
    · rw [infer_of_rgmii h hf] at hinfer
      cases hinfer

/-- These pads fit a kind that would be inferred without `rx_ctl` and one that has to be named.  A
second signal `tx_data`, as wide as that of a gigabit PHY, is not looked at. -/
theorem infer_of_checkShape_hybrid :
    let clocks : Bundle :=
      ⟨.fields "clocks" 0 [⟨"tx", 1, .input⟩, ⟨"gtx", 1, .output⟩, ⟨"rx", 1, .input⟩], "clocks"⟩
    let data : Bundle :=
      ⟨.fields "data" 0 [⟨"rst_n", 1, .output⟩, ⟨"int_n", 1, .input⟩, ⟨"mdio", 1, .inout⟩,
        ⟨"mdc", 1, .output⟩, ⟨"rx_dv", 1, .input⟩, ⟨"rx_er", 1, .input⟩, ⟨"rx_ctl", 1, .input⟩,
        ⟨"rx_data", 4, .input⟩, ⟨"tx_en", 1, .output⟩, ⟨"tx_ctl", 1, .output⟩,
        ⟨"tx_data", 4, .output⟩, ⟨"tx_data", 8, .output⟩, ⟨"col", 1, .input⟩,
        ⟨"crs", 1, .input⟩], "data"⟩
    PhyKind.mii.checkShape clocks data = .ok () ∧ PhyKind.s7Rgmii.checkShape clocks data = .ok () ∧
      PhyKind.mii.Inferred clocks data ∧ PhyKind.s7Rgmii.Inferred clocks data ∧
      infer clocks data = .error needsVendor := by
  intro clocks data
  have hmii : PhyKind.mii.checkShape clocks data = .ok () := by decide +kernel
  have hrgmii : PhyKind.s7Rgmii.checkShape clocks data = .ok () := by decide +kernel
  exact ⟨hmii, hrgmii, infer_of_checkShape hmii, infer_of_checkShape hrgmii,
    (infer_of_checkShape hrgmii).rgmii rfl⟩

end PhyKind

end EtherCore
