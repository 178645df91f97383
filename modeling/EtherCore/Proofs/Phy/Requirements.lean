import EtherCore.Phy.Selection
import EtherCore.Proofs.Outcome
import EtherCore.Proofs.Pad.Signals

/-!
PHYs that are named.  A bundle is checked against requirements in their order, and the error is that
of the first one that is not met (`PhyKind.checkBundle_eq_error_iff`).  Hence a PHY is selected
exactly if its clock pads and its data pads meet all that it requires, which more signals do not
change, nor another order of signals with distinct names (`Selection.of_named`).
-/

namespace EtherCore

/-! ### Requirements -/

namespace Requirement

/-- The first signal of the name is there, with the width. -/
def Met (r : Requirement) (b : Bundle) : Prop := ∃ s, b.First r.name s ∧ s.width = r.width

/-- A requirement is not met, and it is the first such of several. -/
def FirstUnmet (r : Requirement) (rs : List Requirement) (b : Bundle) : Prop :=
  ∃ before after, rs = before ++ r :: after ∧ (∀ q ∈ before, q.Met b) ∧ ¬ r.Met b

/-- The error for a requirement that is not met: the signal is missing, or has another width. -/
def refusal (r : Requirement) (k : PhyKind) (role : String) (b : Bundle) : Error :=
  let problem := match b.width? r.name with
    | some w => " of width " ++ toString r.width ++ ", `" ++ b.name ++ "` has width " ++ toString w
    | none => ", missing from `" ++ b.name ++ "`"
  .configuration "phy" (k.name ++ " needs " ++ role ++ " signal `" ++ r.name ++ "`" ++ problem)

variable {r q : Requirement} {rs : List Requirement} {b : Bundle}

theorem met_iff : r.Met b ↔ b.width? r.name = some r.width := Bundle.width?_eq_some_iff.symm

theorem Met.has (h : r.Met b) : b.has r.name = true := by
  rw [← Bundle.isSome_width?, met_iff.1 h]
  rfl

theorem Met.append (h : r.Met b) (more : List Signal) :
    r.Met (b.withSignals (b.signals ++ more)) := by
  obtain ⟨s, hs, hw⟩ := h
  exact ⟨s, hs.append more, hw⟩

theorem met_withSignals_iff (hb : (b.signals.map (·.name)).Nodup) {signals : List Signal}
    (h : signals.Perm b.signals) : r.Met (b.withSignals signals) ↔ r.Met b :=
  exists_congr fun _ => and_congr_left fun _ => Bundle.first_withSignals_iff hb h

theorem not_firstUnmet_nil : ¬ r.FirstUnmet [] b := by
  rintro ⟨before, after, h, -⟩
  exact absurd h.symm (by simp)

theorem firstUnmet_cons_of_met (hq : q.Met b) :
    r.FirstUnmet (q :: rs) b ↔ r.FirstUnmet rs b := by
  constructor
  · rintro ⟨before, after, h, hbefore, hr⟩
    cases before with
    | nil =>
      obtain ⟨rfl, -⟩ := List.cons.inj h
      exact absurd hq hr
    | cons p before =>
      obtain ⟨rfl, rfl⟩ := List.cons.inj h
      exact ⟨before, after, rfl, (List.forall_mem_cons.1 hbefore).2, hr⟩
  · rintro ⟨before, after, rfl, hbefore, hr⟩
    exact ⟨q :: before, after, rfl, List.forall_mem_cons.2 ⟨hq, hbefore⟩, hr⟩

theorem firstUnmet_cons_of_not_met (hq : ¬ q.Met b) : r.FirstUnmet (q :: rs) b ↔ r = q := by
  constructor
  · rintro ⟨before, after, h, hbefore, -⟩
    cases before with
    | nil => exact (List.cons.inj h).1.symm
    | cons p before =>
      obtain ⟨rfl, -⟩ := List.cons.inj h
      exact absurd (hbefore q List.mem_cons_self) hq
  · rintro rfl
    exact ⟨[], rs, rfl, fun _ hp => absurd hp List.not_mem_nil, hq⟩

end Requirement

/-! ### The check -/

namespace PhyKind

variable {k : PhyKind} {role : String} {b clockPads pads : Bundle} {r : Requirement}
  {rs : List Requirement} {e : Error}

theorem checkBundle_cons_of_met (hr : r.Met b) :
    k.checkBundle role b (r :: rs) = k.checkBundle role b rs := by
  rw [checkBundle, Requirement.met_iff.1 hr]
  exact if_pos rfl

theorem checkBundle_cons_of_not_met (hr : ¬ r.Met b) :
    k.checkBundle role b (r :: rs) = .error (r.refusal k role b) := by
  rw [Requirement.met_iff] at hr
  rw [checkBundle, Requirement.refusal]
  cases hw : b.width? r.name with
  | none => rfl
  | some w =>
    have hne : w ≠ r.width := by
      intro heq
      exact hr (hw.trans (congrArg some heq))
    exact if_neg hne

theorem checkBundle_eq_ok_iff : k.checkBundle role b rs = .ok () ↔ ∀ r ∈ rs, r.Met b := by
  induction rs with
  | nil => simp [checkBundle]
  | cons r rs ih =>
    rw [List.forall_mem_cons]
    by_cases hr : r.Met b
    · rw [checkBundle_cons_of_met hr, ih, and_iff_right hr]
    · rw [checkBundle_cons_of_not_met hr]
      constructor
      · intro h
        cases h
      · rintro ⟨h, -⟩
        exact absurd h hr

/-- The error of the check is that of the first requirement that is not met. -/
theorem checkBundle_eq_error_iff :
    k.checkBundle role b rs = .error e ↔
      ∃ r : Requirement, r.FirstUnmet rs b ∧ e = r.refusal k role b := by
  induction rs with
  | nil => simp [checkBundle, Requirement.not_firstUnmet_nil]
  | cons r rs ih =>
    by_cases hr : r.Met b
    · simp only [checkBundle_cons_of_met hr, ih, Requirement.firstUnmet_cons_of_met hr]
    · simp only [checkBundle_cons_of_not_met hr, Requirement.firstUnmet_cons_of_not_met hr,
        exists_eq_left, Except.error.injEq]
      exact eq_comm

theorem checkShape_eq_ok_iff : k.checkShape clockPads pads = .ok () ↔
    (∀ r ∈ k.clockRequirements, r.Met clockPads) ∧ ∀ r ∈ k.dataRequirements, r.Met pads := by
  rw [checkShape, Outcome.bind_eq_ok_iff]
  constructor
  · rintro ⟨⟨⟩, hclocks, hdata⟩
    exact ⟨checkBundle_eq_ok_iff.1 hclocks, checkBundle_eq_ok_iff.1 hdata⟩
  · rintro ⟨hclocks, hdata⟩
    exact ⟨(), checkBundle_eq_ok_iff.2 hclocks, checkBundle_eq_ok_iff.2 hdata⟩

/-- The clock pads are checked first, and the data pads only if these are in order. -/
theorem checkShape_eq_error_iff : k.checkShape clockPads pads = .error e ↔
    (∃ r : Requirement, r.FirstUnmet k.clockRequirements clockPads ∧
        e = r.refusal k "clock" clockPads) ∨
      (∀ r ∈ k.clockRequirements, r.Met clockPads) ∧
        ∃ r : Requirement, r.FirstUnmet k.dataRequirements pads ∧ e = r.refusal k "data" pads := by
  rw [checkShape, Outcome.bind_eq_error_iff]
  refine or_congr checkBundle_eq_error_iff ?_
  constructor
  · rintro ⟨⟨⟩, hclocks, hdata⟩
    exact ⟨checkBundle_eq_ok_iff.1 hclocks, checkBundle_eq_error_iff.1 hdata⟩
  · rintro ⟨hclocks, hdata⟩
    exact ⟨(), checkBundle_eq_ok_iff.2 hclocks, checkBundle_eq_error_iff.2 hdata⟩

end PhyKind

/-! ### Selections -/

namespace Selection

/-- What becomes of a PHY that is named, on clock pads and data pads. -/
structure Named (k : PhyKind) (clockPads pads : Bundle) : Prop where
  /-- It is selected exactly if the pads meet all that it requires. -/
  ok_iff : (∃ s, of (some k) clockPads pads = .ok s) ↔
    (∀ r ∈ k.clockRequirements, r.Met clockPads) ∧ ∀ r ∈ k.dataRequirements, r.Met pads
  selected : ∀ s, of (some k) clockPads pads = .ok s → s = ⟨k, clockPads, pads⟩
  /-- Else the error is that of the first requirement that is not met, on the clock pads first. -/
  error_iff : ∀ e, of (some k) clockPads pads = .error e ↔
    (∃ r : Requirement, r.FirstUnmet k.clockRequirements clockPads ∧
        e = r.refusal k "clock" clockPads) ∨
      (∀ r ∈ k.clockRequirements, r.Met clockPads) ∧
        ∃ r : Requirement, r.FirstUnmet k.dataRequirements pads ∧ e = r.refusal k "data" pads
  /-- It is still selected with more signals behind those that are there. -/
  extended : ∀ s, of (some k) clockPads pads = .ok s → ∀ moreClocks moreData,
    let clockPads' := clockPads.withSignals (clockPads.signals ++ moreClocks)
    let pads' := pads.withSignals (pads.signals ++ moreData)
    of (some k) clockPads' pads' = .ok ⟨k, clockPads', pads'⟩
  /-- The order of signals with distinct names does not matter. -/
  reordered : (clockPads.signals.map (·.name)).Nodup → (pads.signals.map (·.name)).Nodup →
    ∀ clocks data, clocks.Perm clockPads.signals → data.Perm pads.signals →
      ((∃ s, of (some k) (clockPads.withSignals clocks) (pads.withSignals data) = .ok s) ↔
        ∃ s, of (some k) clockPads pads = .ok s)

variable {k : PhyKind} {clockPads pads : Bundle}

theorem of_some_eq_ok_iff {s : Selection} : of (some k) clockPads pads = .ok s ↔
    k.checkShape clockPads pads = .ok () ∧ s = ⟨k, clockPads, pads⟩ := by
  rw [of, Outcome.map_eq_ok_iff]
  constructor
  · rintro ⟨⟨⟩, h, hs⟩
    exact ⟨h, hs.symm⟩
  · rintro ⟨h, hs⟩
    exact ⟨(), h, hs.symm⟩

theorem exists_of_some_iff : (∃ s, of (some k) clockPads pads = .ok s) ↔
    (∀ r ∈ k.clockRequirements, r.Met clockPads) ∧ ∀ r ∈ k.dataRequirements, r.Met pads := by
  simp only [of_some_eq_ok_iff, exists_and_left, exists_eq, and_true,
    PhyKind.checkShape_eq_ok_iff]

/-- A PHY that is named is selected on pads that meet what it requires, and on no others. -/
theorem of_named (k : PhyKind) (clockPads pads : Bundle) : Named k clockPads pads where
  ok_iff := exists_of_some_iff
  selected s hs := (of_some_eq_ok_iff.1 hs).2
  error_iff e := by
    rw [of, Outcome.map_eq_error_iff]
    exact PhyKind.checkShape_eq_error_iff
  extended := by
    intro s hs moreClocks moreData clockPads' pads'
    obtain ⟨hclocks, hdata⟩ := exists_of_some_iff.1 ⟨s, hs⟩
    have hmore : PhyKind.checkShape k clockPads' pads' = .ok () :=
      PhyKind.checkShape_eq_ok_iff.2 ⟨fun r hr => (hclocks r hr).append moreClocks,
        fun r hr => (hdata r hr).append moreData⟩
    exact of_some_eq_ok_iff.2 ⟨hmore, rfl⟩
  reordered := by
    intro hclocks hdata clocks data hclocksPerm hdataPerm
    rw [exists_of_some_iff, exists_of_some_iff]
    refine and_congr ?_ ?_
    · exact forall₂_congr fun r _ => Requirement.met_withSignals_iff hclocks hclocksPerm
    · exact forall₂_congr fun r _ => Requirement.met_withSignals_iff hdata hdataPerm

/-- Of two signals with one name the first decides. -/
example :
    let clocks : Bundle := ⟨.fields "clocks" 0 [⟨"ref_clk", 1, .input⟩], "clocks"⟩
    let data (widths : List UInt32) : Bundle :=
      ⟨.fields "data" 0 (widths.map (⟨"rx_data", ·, .input⟩)
        ++ [⟨"rst_n", 1, .output⟩, ⟨"crs_dv", 1, .input⟩, ⟨"tx_en", 1, .output⟩,
          ⟨"tx_data", 2, .output⟩, ⟨"mdc", 1, .output⟩, ⟨"mdio", 1, .inout⟩]), "data"⟩
    of (some .rmii) clocks (data [2, 4]) = .ok ⟨.rmii, clocks, data [2, 4]⟩ ∧
      of (some .rmii) clocks (data [4, 2]) = .error (.configuration "phy"
        "rmii needs data signal `rx_data` of width 2, `data` has width 4") := by
  decide +kernel

end Selection

end EtherCore
