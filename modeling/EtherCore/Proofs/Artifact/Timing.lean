import EtherCore.Proofs.Artifact.Realized
import EtherCore.Proofs.Timing.Lines

/-!
The constraints of a core against the clock domains of its components.  Every clock of the PHY that
has a frequency has its period and is not timed against the system clock, and the constraint file
tells the toolchain of these, of nothing else, and in its own dialect (`compose_timed`).
-/

namespace EtherCore

open Component Netlist

/-! ### Constraints for clock domains -/

/-- The period of the clock of a domain. -/
def ClockDomain.period? (d : ClockDomain) : Option Period :=
  d.frequency.map fun f => ⟨d.clock, f.periodNs⟩

/-- The constraints that clock domains call for, which are not timed against a system domain. -/
def ConstraintSet.ofDomains (system : ClockDomain) (ds : List ClockDomain) : ConstraintSet :=
  ⟨ds.filterMap ClockDomain.period?,
    (ds.filter fun d => d.frequency.isSome).map fun d => ⟨system.clock, d.clock⟩⟩

/-- Every domain with a frequency has one period, its own, and there are no other periods.  The
false paths lead from the clock of the system to those of the same domains, once to each. -/
structure ConstraintSet.Agrees (s : ConstraintSet) (system : ClockDomain) (ds : List ClockDomain) :
    Prop where
  period : ∀ d ∈ ds, ∀ f, d.frequency = some f →
    (s.periods.filter fun p => p.clock = d.clock) = [⟨d.clock, f.periodNs⟩]
  domain : ∀ p ∈ s.periods, ∃ d ∈ ds, ∃ f, d.frequency = some f ∧ p = ⟨d.clock, f.periodNs⟩
  path_iff : ∀ p, p ∈ s.falsePaths ↔
    ∃ d ∈ ds, d.frequency.isSome = true ∧ p = ⟨system.clock, d.clock⟩
  once : s.falsePaths.Nodup

namespace ConstraintSet

variable {system : ClockDomain} {ds : List ClockDomain}

theorem mem_periods_ofDomains {p : Period} :
    p ∈ (ofDomains system ds).periods ↔
      ∃ d ∈ ds, ∃ f, d.frequency = some f ∧ p = ⟨d.clock, f.periodNs⟩ := by
  simp only [ofDomains, List.mem_filterMap, ClockDomain.period?, Option.map_eq_some_iff,
    eq_comm (a := p)]

theorem agrees_ofDomains (system : ClockDomain) (h : (ds.map ClockDomain.clock).Nodup) :
    (ofDomains system ds).Agrees system ds := by
  have hds : ds.Pairwise fun d e => d.clock ≠ e.clock := List.pairwise_map.1 h
  refine ⟨fun d hd f hf => ?_, fun p => mem_periods_ofDomains.1, fun p => ?_, ?_⟩
  · have hpair : (ofDomains system ds).periods.Pairwise fun p q => p.clock ≠ q.clock := by
      refine List.pairwise_filterMap.2 (hds.imp fun {d e} hde p hp q hq => ?_)
      obtain ⟨f, -, rfl⟩ := Option.map_eq_some_iff.1 hp
      obtain ⟨g, -, rfl⟩ := Option.map_eq_some_iff.1 hq
      exact hde
    refine filter_eq_singleton (hpair.imp fun {p q} hpq hp hq => ?_)
      (mem_periods_ofDomains.2 ⟨d, hd, f, hf, rfl⟩) (decide_eq_true rfl)
    exact hpq ((of_decide_eq_true hp).trans (of_decide_eq_true hq).symm)
  · simp only [ofDomains, List.mem_map, List.mem_filter, and_assoc, eq_comm]
  · refine List.pairwise_map.2 ((hds.filter _).imp fun {d e} hde heq => ?_)
    exact hde (FalsePath.mk.inj heq).2

theorem isEmpty_ofDomains_iff :
    (ofDomains system ds).isEmpty = true ↔ ∀ d ∈ ds, d.frequency = none := by
  simp only [isEmpty, size, ofDomains, decide_eq_true_eq, Nat.add_eq_zero_iff,
    List.length_eq_zero_iff, List.filterMap_eq_nil_iff, List.map_eq_nil_iff,
    List.filter_eq_nil_iff, ClockDomain.period?, Option.map_eq_none_iff]
  constructor
  · exact And.left
  · intro h
    exact ⟨h, fun d hd => by simp [h d hd]⟩

/-- The constraints of a PHY are those that its clock domains call for. -/
theorem ofPhy_eq_ofDomains (k : PhyKind) (clock : Frequency) :
    ofPhy k = ofDomains (.ofName "sys" (some clock))
      [.ofName "eth_rx" k.lineClock?, .ofName "eth_tx" k.lineClock?] := by
  have hsystem : systemClockNet = "sys" ++ "_clk" := by decide
  have hreceive : receiveClockNet = "eth_rx" ++ "_clk" := by decide
  have htransmit : transmitClockNet = "eth_tx" ++ "_clk" := by decide
  unfold ofPhy
  rw [hsystem, hreceive, htransmit]
  cases k.lineClock? <;> rfl

/-- No clock of a PHY has a period of zero. -/
theorem period_pos_ofPhy (k : PhyKind) :
    ∀ p ∈ (ofPhy k).periods, (Binary64.ofNat 0).lt p.nanoseconds = true := by
  have hall : ∀ k ∈ PhyKind.all, ∀ p ∈ (ofPhy k).periods,
      (Binary64.ofNat 0).lt p.nanoseconds = true := by decide +kernel
  exact hall k k.mem_all

theorem oneLine_ofPhy (k : PhyKind) : (ofPhy k).OneLine := by
  unfold ofPhy
  cases k.lineClock? with
  | none => exact ⟨by simp [empty], by simp [empty]⟩
  | some f =>
    refine ⟨?_, ?_⟩ <;>
      simp only [List.forall_mem_cons, List.not_mem_nil, false_implies, implies_true, and_true] <;>
      decide

end ConstraintSet

/-! ### The clock domains of a core -/

namespace Component

theorem domains_crg (clock : Frequency) :
    (crg clock).domains = [.ofName "sys" (some clock)] := by
  simp only [crg, addDomain, domains_addPorts]
  rfl

theorem domains_phy (s : Selection) (clock : Frequency) (delays : Option PhyDelays) :
    (phy s clock delays).domains
      = [.ofName "eth_rx" s.kind.lineClock?, .ofName "eth_tx" s.kind.lineClock?] := by
  unfold phy
  dsimp only
  split <;> split <;>
    simp only [setDelays, setNumber, setParameter, addDomain, domains_addPorts] <;> rfl

end Component

namespace Config

variable {c : Config} {art : Artifact} {log : Log}

theorem Built.crgPart_mem {soc soc' : Soc} {k : PhyKind} {parts : List Component}
    (h : c.Built soc k parts soc') : (Component.crg c.clock).part ∈ parts := by
  cases h <;> exact List.mem_cons_self

theorem exists_crgPart_of_compose (h : c.compose = (.ok art, log)) :
    ∃ x, art.netlist.component? crgName = some x ∧ x.part = (Component.crg c.clock).part := by
  obtain ⟨k, a, hassembles, rfl, -⟩ := compose_eq_ok_iff.1 h
  have hnames := hassembles.nodup_names
  obtain ⟨soc, hsoc, hbuild⟩ := hassembles
  exact component?_of_mem_parts hnames (Assembly.built_build hbuild).crgPart_mem

theorem constraints_of_compose (h : c.compose = (.ok art, log)) :
    art.constraints = .ofPhy art.phy := by
  obtain ⟨k, a, -, rfl, -⟩ := compose_eq_ok_iff.1 h
  rfl

/-- The clock domains of the generator and of the PHY. -/
theorem exists_domains_of_compose (h : c.compose = (.ok art, log)) :
    ∃ crg phy, art.netlist.component? crgName = some crg ∧
      art.netlist.component? phyName = some phy ∧
      crg.domains = [.ofName "sys" (some c.clock)] ∧
      phy.domains
        = [.ofName "eth_rx" art.phy.lineClock?, .ofName "eth_tx" art.phy.lineClock?] := by
  obtain ⟨crg, hcrg, hcrgPart⟩ := exists_crgPart_of_compose h
  obtain ⟨phy, s, page, hphy, hs, hphyPart⟩ := exists_phyPart_of_compose h
  refine ⟨crg, phy, hcrg, hphy, ?_, ?_⟩
  · have hdomains : crg.part.domains = (Component.crg c.clock).domains := by
      rw [hcrgPart]
      rfl
    exact hdomains.trans (domains_crg c.clock)
  · have hdomains : phy.part.domains = (Component.phy s c.clock c.delays).domains := by
      rw [hphyPart]
      rfl
    rw [← hs, ← domains_phy s c.clock c.delays]
    exact hdomains

theorem written_constraintFile (h : c.compose = (.ok art, log))
    (hsome : ¬ art.constraints.isEmpty = true) :
    art.constraints.Written c.platform.toolchain (Text.lines art.constraintFile) := by
  rw [Artifact.constraintFile, Artifact.constraintFormat, platform_of_compose h]
  rw [constraints_of_compose h] at hsome ⊢
  rw [ConstraintFormat.lines_render _ (ConstraintSet.oneLine_ofPhy art.phy)]
  exact ConstraintSet.written_lines _ hsome (ConstraintSet.period_pos_ofPhy art.phy)

/-- The constraints of a core are those of the clock domains of its PHY against the one domain of
its generator.  The constraint file is empty if none of these clocks has a frequency, and else its
lines are the constraints as the toolchain reads them. -/
theorem compose_timed (h : c.compose = (.ok art, log)) :
    ∃ crg phy system, art.netlist.component? crgName = some crg ∧
      art.netlist.component? phyName = some phy ∧ crg.domains = [system] ∧
      art.constraints.Agrees system phy.domains ∧
      (art.constraintFile = "" ↔ ∀ d ∈ phy.domains, d.frequency = none) ∧
      ((∃ d ∈ phy.domains, d.frequency ≠ none) →
        art.constraints.Written c.platform.toolchain (Text.lines art.constraintFile)) := by
  obtain ⟨crg, phy, hcrg, hphy, hcrgDomains, hphyDomains⟩ := exists_domains_of_compose h
  have hconstraints : art.constraints = .ofDomains (.ofName "sys" (some c.clock)) phy.domains := by
    rw [constraints_of_compose h, hphyDomains, ConstraintSet.ofPhy_eq_ofDomains]
  have hempty : art.constraints.isEmpty = true ↔ ∀ d ∈ phy.domains, d.frequency = none := by
    rw [hconstraints, ConstraintSet.isEmpty_ofDomains_iff]
  refine ⟨crg, phy, _, hcrg, hphy, hcrgDomains, ?_, ?_, fun hclocked => ?_⟩
  · rw [hconstraints]
    refine ConstraintSet.agrees_ofDomains _ ?_
    rw [hphyDomains]
    simp [ClockDomain.ofName]
  · rw [← hempty]
    exact art.constraintFormat.render_eq_empty_iff art.constraints
  · refine written_constraintFile h ?_
    rw [hempty]
    simpa using hclocked

/-- A core on an MII for a toolchain of each dialect. -/
theorem compose_timed_mii :
    let c (t : Toolchain) : Config := ⟨⟨50000000⟩, ⟨t.vendor, "", t⟩, .named .mii, none,
      .mac ⟨2, 2, false, .big⟩, .empty, .empty⟩
    let writes (t : Toolchain) (lines : List String) : Prop :=
      ∃ art log, (c t).compose = (.ok art, log) ∧ Text.lines art.constraintFile = lines ∧
        ∃ crg phy system, art.netlist.component? crgName = some crg ∧
          art.netlist.component? phyName = some phy ∧ crg.domains = [system] ∧
          art.constraints.Agrees system phy.domains
    writes .vivado ["# Ethernet core timing constraints",
        "create_clock -name eth_rx_clk -period 40.000 [get_nets eth_rx_clk]",
        "create_clock -name eth_tx_clk -period 40.000 [get_nets eth_tx_clk]",
        "set_false_path -quiet -from [get_clocks sys_clk] -to [get_clocks eth_rx_clk]",
        "set_false_path -quiet -from [get_clocks eth_rx_clk] -to [get_clocks sys_clk]",
        "set_false_path -quiet -from [get_clocks sys_clk] -to [get_clocks eth_tx_clk]",
        "set_false_path -quiet -from [get_clocks eth_tx_clk] -to [get_clocks sys_clk]"] ∧
      writes .diamond ["# Ethernet core timing constraints",
        "FREQUENCY NET \"eth_rx_clk\" 25.000000 MHz;",
        "FREQUENCY NET \"eth_tx_clk\" 25.000000 MHz;",
        "BLOCK PATH FROM CLKNET \"sys_clk\" TO CLKNET \"eth_rx_clk\";",
        "BLOCK PATH FROM CLKNET \"eth_rx_clk\" TO CLKNET \"sys_clk\";",
        "BLOCK PATH FROM CLKNET \"sys_clk\" TO CLKNET \"eth_tx_clk\";",
        "BLOCK PATH FROM CLKNET \"eth_tx_clk\" TO CLKNET \"sys_clk\";"] ∧
      writes .trellis ["# Ethernet core timing constraints",
        "create_clock -name eth_rx_clk -period 40.000 [get_nets eth_rx_clk]",
        "create_clock -name eth_tx_clk -period 40.000 [get_nets eth_tx_clk]",
        "set_false_path -from [get_clocks sys_clk] -to [get_clocks eth_rx_clk]",
        "set_false_path -from [get_clocks eth_rx_clk] -to [get_clocks sys_clk]",
        "set_false_path -from [get_clocks sys_clk] -to [get_clocks eth_tx_clk]",
        "set_false_path -from [get_clocks eth_tx_clk] -to [get_clocks sys_clk]"] := by
  intro c writes
  have hwrites (t : Toolchain) (lines : List String) (hok : (c t).compose.1.isOk = true)
      (hlines : ∀ read, (ConstraintSet.ofPhy .mii).Written t read → read = lines) :
      writes t lines := by
    obtain ⟨⟨o, log⟩, h⟩ : ∃ x, (c t).compose = x := ⟨_, rfl⟩
    rw [h] at hok
    obtain ⟨art, rfl⟩ := Outcome.exists_of_isOk hok
    obtain ⟨crg, phy, system, hcrg, hphy, hsystem, hagrees, -, hwritten⟩ := compose_timed h
    have hmii : art.phy = .mii := PhyChoice.resolve_named (resolve_of_compose h)
    have hconstraints : art.constraints = .ofPhy .mii := hmii ▸ constraints_of_compose h
    have hclocked : ∃ d ∈ phy.domains, d.frequency ≠ none := by
      have hsome : ∃ p, p ∈ art.constraints.periods := by
        rw [hconstraints]
        exact ⟨_, List.mem_cons_self⟩
      obtain ⟨p, hp⟩ := hsome
      obtain ⟨d, hd, f, hf, -⟩ := hagrees.domain p hp
      exact ⟨d, hd, hf ▸ Option.some_ne_none f⟩
    exact ⟨art, log, h, hlines _ (hconstraints ▸ hwritten hclocked), crg, phy, system, hcrg, hphy,
      hsystem, hagrees⟩
  refine ⟨hwrites _ _ (by decide +kernel) fun _ h => (h.xdc (Or.inl rfl)).trans ?_,
    hwrites _ _ (by decide +kernel) fun _ h => (h.lpf rfl).trans ?_,
    hwrites _ _ (by decide +kernel) fun _ h => (h.sdc (Or.inl rfl)).trans ?_⟩
  all_goals decide +kernel

end Config

end EtherCore
