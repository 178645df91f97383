import EtherCore.Proofs.Artifact.Complete
import EtherCore.Proofs.Artifact.Parts
import EtherCore.Proofs.Config.Consistent

/-!
The PHY of a core against the configuration that was loaded.  It is the one that is named, it suits
the vendor, and it has the delays of the table if its signals are to be delayed
(`ofTable_realized`).
-/

namespace EtherCore

open Component Netlist

/-! ### The PHY that is built -/

theorem PhyChoice.resolve_named {k k' : PhyKind} (h : resolve (.named k) = .ok k') : k' = k :=
  (Except.ok.inj h).symm

/-- A PHY that is inferred suits every vendor and has no delays. -/
theorem PhyChoice.resolve_inferred {f : PadFamily} {k : PhyKind}
    (h : resolve (.inferred f) = .ok k) : k.vendor? = none ∧ k.family? ≠ some .rgmii := by
  cases f <;> cases h <;> exact ⟨rfl, by decide⟩

namespace Component

/-- The delays that a PHY is built with. -/
theorem parameter?_phy_delays (s : Selection) (clock : Frequency) (delays : Option PhyDelays) :
    let d := delays.getD ⟨PhyDelays.standard, PhyDelays.standard⟩
    let c := phy s clock delays
    if s.kind.family? = some .rgmii then
      c.parameter? "tx_delay_ns" = some (.number d.transmit.toUInt64) ∧
        c.parameter? "rx_delay_ns" = some (.number d.receive.toUInt64)
    else c.parameter? "tx_delay_ns" = none ∧ c.parameter? "rx_delay_ns" = none := by
  unfold phy
  simp only [PhyKind.usesDelays, decide_eq_true_eq]
  split_ifs <;>
    simp [parameter?, setDelays, setNumber, setParameter, addDomain, parameters_addPorts,
      Table.get?_insert, bare, Table.get?_empty]

end Component

namespace Config

variable {t : Table Value} {c : Config} {art : Artifact} {log : Log}

/-- The PHY of a core is the one that the choice comes to. -/
theorem resolve_of_compose (h : c.compose = (.ok art, log)) : c.phy.resolve = .ok art.phy := by
  cases hsoc : c.system with
  | error e =>
    rw [compose_eq_error_iff.2 ⟨.system hsoc, rfl⟩] at h
    cases h
  | ok soc =>
    cases hplan : c.plan soc with
    | error e =>
      rw [compose_of_plan_error hsoc hplan] at h
      cases h
    | ok k =>
      obtain ⟨art', hart, hphy⟩ := compose_of_plan_ok hsoc hplan
      rw [hart] at h
      cases h
      simp only [plan, Outcome.bind_eq_ok_iff, Outcome.pure_eq_ok_iff] at hplan
      obtain ⟨⟨k', soc'⟩, hchoice, -, -, rfl⟩ := hplan
      rw [hphy]
      exact ((plan_phy_eq_ok_iff hsoc).1 hchoice).1.choice

theorem Built.exists_phyPart {soc soc' : Soc} {k : PhyKind} {parts : List Component}
    (h : c.Built soc k parts soc') : ∃ s page, s.kind = k ∧ c.phyPart s page ∈ parts := by
  cases h with
  | mac hcore hkind => exact ⟨_, _, hkind, List.mem_cons_of_mem _ List.mem_cons_self⟩
  | udp hcore hkind => exact ⟨_, _, hkind, List.mem_cons_of_mem _ List.mem_cons_self⟩

theorem Built.platform {soc soc' : Soc} {k : PhyKind} {parts : List Component}
    (h : c.Built soc k parts soc') : soc'.platform = soc.platform := by
  cases h <;> rfl

theorem exists_phyPart_of_compose (h : c.compose = (.ok art, log)) :
    ∃ x s page, art.netlist.component? phyName = some x ∧ s.kind = art.phy ∧
      x.part = c.phyPart s page := by
  obtain ⟨k, a, hassembles, rfl, -⟩ := compose_eq_ok_iff.1 h
  have hnames := hassembles.nodup_names
  obtain ⟨soc, hsoc, hbuild⟩ := hassembles
  obtain ⟨s, page, hkind, hpart⟩ := (Assembly.built_build hbuild).exists_phyPart
  obtain ⟨x, hx, hsame⟩ := component?_of_mem_parts hnames hpart
  have hname : (c.phyPart s page).name = phyName := name_phy _ _ _
  rw [hname] at hx
  exact ⟨x, s, page, hx, hkind, hsame⟩

/-- The PHY of a core has the delays of the configuration. -/
theorem exists_phy_of_compose (h : c.compose = (.ok art, log)) :
    ∃ x, art.netlist.component? phyName = some x ∧ x.kind = .phy art.phy ∧
      let d := c.delays.getD ⟨PhyDelays.standard, PhyDelays.standard⟩
      if art.phy.family? = some .rgmii then
        x.parameter? "tx_delay_ns" = some (.number d.transmit.toUInt64) ∧
          x.parameter? "rx_delay_ns" = some (.number d.receive.toUInt64)
      else x.parameter? "tx_delay_ns" = none ∧ x.parameter? "rx_delay_ns" = none := by
  obtain ⟨x, s, page, hx, hs, hsame⟩ := exists_phyPart_of_compose h
  have hkind : x.part.kind = .phy s.kind := by
    rw [hsame]
    exact kind_phy _ _ _
  have hparameters : x.part.parameters = (Component.phy s c.clock c.delays).parameters := by
    rw [hsame]
    rfl
  rw [← hs]
  refine ⟨x, hx, hkind, ?_⟩
  unfold parameter?
  rw [show x.parameters = _ from hparameters]
  exact parameter?_phy_delays s c.clock c.delays

/-- The PHY of a core suits the platform of its configuration, and has the delays that a table
gives. -/
structure Realized (t : Table Value) (c : Config) (art : Artifact) : Prop where
  platform : art.platform = c.platform
  vendor : ∀ v, art.phy.vendor? = some v → v = art.platform.vendor
  named : ∀ k, c.phy = .named k → art.phy = k
  phy : ∃ x, art.netlist.component? phyName = some x ∧ x.kind = .phy art.phy ∧
    if art.phy.family? = some .rgmii then ∃ transmit receive,
      x.parameter? "tx_delay_ns" = some (.number transmit) ∧
        x.parameter? "rx_delay_ns" = some (.number receive) ∧
        (transmit.toNat : Int) = givenDelay t "phy_tx_delay" ∧
        (receive.toNat : Int) = givenDelay t "phy_rx_delay"
    else x.parameter? "tx_delay_ns" = none ∧ x.parameter? "rx_delay_ns" = none

theorem platform_of_compose (h : c.compose = (.ok art, log)) : art.platform = c.platform := by
  obtain ⟨k, a, ⟨soc, hsoc, hbuild⟩, rfl, -⟩ := compose_eq_ok_iff.1 h
  obtain ⟨width, paging, count, csr, p, bus, -, -, -, -, -, rfl⟩ := Soc.build_eq_ok_iff.1 hsoc
  exact (Assembly.built_build hbuild).platform

theorem Consistent.vendor_of_resolve (h : c.Consistent) {k : PhyKind}
    (hphy : c.phy.resolve = .ok k) {v : Vendor} (hv : k.vendor? = some v) :
    v = c.platform.vendor := by
  cases hchoice : c.phy with
  | named k' =>
    rw [hchoice] at hphy
    obtain rfl := PhyChoice.resolve_named hphy
    exact h.vendor k hchoice v hv
  | inferred f =>
    rw [hchoice] at hphy
    rw [(PhyChoice.resolve_inferred hphy).1] at hv
    cases hv

/-- A PHY that delays its signals has delays. -/
theorem Consistent.exists_delays (h : c.Consistent) {k : PhyKind}
    (hphy : c.phy.resolve = .ok k) (hk : k.family? = some .rgmii) : ∃ d, c.delays = some d := by
  refine Option.isSome_iff_exists.1 (h.delays.2 ?_)
  cases hchoice : c.phy with
  | named k' =>
    rw [hchoice] at hphy
    obtain rfl := PhyChoice.resolve_named hphy
    exact ⟨k, rfl, hk⟩
  | inferred f =>
    rw [hchoice] at hphy
    exact absurd hk (PhyChoice.resolve_inferred hphy).2

/-- A configuration that is loaded from a table is consistent, and so is every core that is composed
from it: its PHY suits the vendor, is the one that is named, and has exactly the delays of the table,
or 2 nanoseconds, if its signals are to be delayed. -/
theorem ofTable_realized (h : ofTable t = (.ok c, log)) :
    c.Consistent ∧ ∀ art log', c.compose = (.ok art, log') → c.Realized t art := by
  obtain ⟨hconsistent, hdelayed⟩ := consistent_of_ofTable h
  refine ⟨hconsistent, fun art log' hcompose => ?_⟩
  have hplatform := platform_of_compose hcompose
  have hresolve := resolve_of_compose hcompose
  obtain ⟨x, hx, hkind, hparameters⟩ := exists_phy_of_compose hcompose
  refine ⟨hplatform, fun v hv => ?_, fun k hk => ?_, x, hx, hkind, ?_⟩
  · rw [hplatform]
    exact hconsistent.vendor_of_resolve hresolve hv
  · rw [hk] at hresolve
    exact PhyChoice.resolve_named hresolve
  · split
    · next hrgmii =>
      obtain ⟨d, hd⟩ := hconsistent.exists_delays hresolve hrgmii
      obtain ⟨htransmit, hreceive⟩ := hdelayed d hd
      rw [if_pos hrgmii, hd, Option.getD_some] at hparameters
      exact ⟨_, _, hparameters.1, hparameters.2, htransmit, hreceive⟩
    · next hrgmii =>
      rwa [if_neg hrgmii] at hparameters

/-- A named RGMII PHY of which one delay is given. -/
theorem ofTable_realized_rgmii :
    let t := Table.ofList [("clk_freq", .integer 100000000), ("vendor", .string "xilinx"),
      ("phy", .string "s7rgmii"), ("phy_tx_delay", .integer 0), ("phy_rx_delay", .string "None"),
      ("core", .string "mac")]
    ∃ c log, ofTable t = (.ok c, log) ∧ givenDelay t "phy_tx_delay" = 0 ∧
      givenDelay t "phy_rx_delay" = 2 ∧ c.compose.1.isOk ∧ c.Consistent ∧
      ∀ art log', c.compose = (.ok art, log') → c.Realized t art := by
  intro t
  have hok : ((ofTable t).1.toOption.any fun c => c.compose.1.isOk) = true := by decide +kernel
  obtain ⟨⟨o, log⟩, h⟩ : ∃ x, ofTable t = x := ⟨_, rfl⟩
  rw [h] at hok
  cases o with
  | error e => cases hok
  | ok c => exact ⟨c, log, h, by decide +kernel, by decide +kernel, hok, ofTable_realized h⟩

end Config

end EtherCore
