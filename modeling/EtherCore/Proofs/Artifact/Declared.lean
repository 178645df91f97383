import EtherCore.Proofs.Artifact.Joints
import EtherCore.Proofs.Artifact.Steps
import EtherCore.Proofs.Netlist.Complete
import EtherCore.Proofs.Netlist.Declared

/-!
The ends of the connections of a core that is composed.  Each builder goes on from the netlist of
the ones before it (`Assembly.Extends`) and connects ports that its components declare, but for one
connection: the UDP stack and its port are connected through `crossbar`, which neither of them
declares (`Extends.buildUdp`).  So a MAC has declared ports at both ends of every connection, and
a UDP core at those of all connections but one (`compose_declares_iff`).
-/

namespace EtherCore

open Netlist

/-! ### Ports of the components -/

namespace Component

/-- The ports of a PHY for its two streams. -/
def streamPorts (k : PhyKind) : List Signal :=
  [⟨"source", k.dataWidth, .output⟩, ⟨"sink", k.dataWidth, .input⟩]

theorem padPorts_eq_localSignals {b : Bundle} (hb : b.record = true) {lead : String}
    (hlead : lead ≠ "") : padPorts lead b = b.localSignals lead := by
  simp [padPorts, Bundle.localSignals, localPort, hlead, hb]

@[simp] theorem ports_setNumber (c : Component) (name : String) (n : UInt64) :
    (c.setNumber name n).ports = c.ports := rfl

@[simp] theorem ports_setDelays (c : Component) (d : PhyDelays) : (c.setDelays d).ports = c.ports :=
  rfl

theorem ports_phy {s : Selection} (h : PhyPads s.clockPads s.pads) (clock : Frequency)
    (delays : Option PhyDelays) :
    (phy s clock delays).ports
      = streamPorts s.kind ++ (s.clockPads.localSignals "clock_pads"
        ++ s.pads.localSignals "pads") := by
  have hclock := padPorts_eq_localSignals h.clockRecord (show "clock_pads" ≠ "" by decide)
  have hpads := padPorts_eq_localSignals h.record (show "pads" ≠ "" by decide)
  have hnames : ((streamPorts s.kind ++ (s.clockPads.localSignals "clock_pads"
      ++ s.pads.localSignals "pads")).map (·.name)).Nodup := by
    have := h.innerPorts
    simpa [streamPorts, Joint.phyPads, Bundle.innerJoints, Bundle.innerJoint, Bundle.localSignals,
      Function.comp_def] using this
  have hports (c : Component) (hc : c.ports = streamPorts s.kind) :
      (c.addPorts (padPorts "clock_pads" s.clockPads ++ padPorts "pads" s.pads)).ports
        = c.ports ++ (s.clockPads.localSignals "clock_pads" ++ s.pads.localSignals "pads") := by
    rw [hclock, hpads]
    exact ports_addPorts (hc ▸ hnames)
  unfold phy
  dsimp only
  -- neither the clock nor the delays are ports
  split <;> split
  · rw [ports_setDelays, ports_setNumber]
    exact hports _ rfl
  · rw [ports_setDelays]
    exact hports _ rfl
  · rw [ports_setNumber]
    exact hports _ rfl
  · exact hports _ rfl

theorem ports_udpStack (k : PhyKind) (u : UdpSettings) (clock : Frequency) :
    (udpStack k u clock).ports = phyPorts k
      ++ ((if u.mac.isNone then [⟨"mac_address", 48, .input⟩] else [])
        ++ (if u.ip.isNone then [⟨"ip_address", 32, .input⟩] else [])) := by
  rcases u with ⟨- | mac, - | ip, port⟩ <;> rfl

theorem ports_udpPort (port : UInt16) : (udpPort port).ports = [] := rfl

theorem crossbar_notMem_ports (k : PhyKind) (u : UdpSettings) (clock : Frequency) :
    "crossbar" ∉ (udpStack k u clock).ports.map (·.name) := by
  rw [ports_udpStack]
  rcases u with ⟨- | mac, - | ip, port⟩ <;> simp [phyPorts]

end Component

/-- The connection from the UDP stack to its port. -/
def Netlist.crossbar : Link :=
  ⟨Component.stackName, ⟨"crossbar", "crossbar", PadDecl.udpDataWidth⟩, Component.portName⟩

namespace Assembly

open Step

/-! ### Assemblies that grow -/

/-- An assembly goes on from another: its netlist does, and the same pads are declared. -/
structure Extends (spare : Edge → Prop) (a a' : Assembly) : Prop where
  netlist : a.netlist.Extends spare a'.netlist
  decls : a'.pads.decls = a.pads.decls

namespace Extends

variable {spare : Edge → Prop} {a a' a'' : Assembly}

theorem refl (a : Assembly) : a.Extends spare a := ⟨.refl _, rfl⟩

theorem trans (h : a.Extends spare a') (h' : a'.Extends spare a'') : a.Extends spare a'' :=
  ⟨h.netlist.trans h'.netlist, h'.decls.trans h.decls⟩

/-! ### Steps -/

theorem place {name : String} {region : Region} {p : PlacedRegion}
    (hstep : (place name region).Yields a p a') : a.Extends spare a' := by
  obtain ⟨bus, -, rfl⟩ := yields_place_iff.1 hstep
  exact ⟨.refl _, rfl⟩

theorem takePage {name : String} {p : CsrPage} (hstep : (takePage name).Yields a p a') :
    a.Extends spare a' := by
  obtain ⟨csr, -, rfl⟩ := yields_takePage_iff.1 hstep
  exact ⟨.refl _, rfl⟩

theorem takePad (spare : Edge → Prop) (hdecls : a.pads.decls = PadDecl.catalog) {name : String}
    {index : Option UInt32} {b : Bundle} {d : PadDecl} (hd : PadDecl.standard? name = some d)
    (hstep : (takePad name index).Yields a b a') :
    b = d.bundle ∧ a'.netlist = a.netlist ∧ a.Extends spare a' := by
  obtain ⟨pads, hpads, rfl⟩ := yields_takePad_iff.1 hstep
  obtain ⟨rfl, -, rfl⟩ := PadRegistry.request_standard hdecls hpads hd
  exact ⟨rfl, rfl, .refl _, rfl⟩

theorem addComponent (spare : Edge → Prop) {c : Component} {i : Nat}
    (hstep : (addComponent c).Yields a i a') :
    a.Extends spare a' ∧ a'.netlist.nodes[i]? = some (.component c) := by
  obtain ⟨n, hn, rfl⟩ := yields_onNetlist_iff.1 hstep
  obtain ⟨hext, hnode⟩ := Netlist.Extends.add spare hn
  exact ⟨⟨hext, rfl⟩, hnode⟩

theorem addPad (spare : Edge → Prop) {b : Bundle} {i : Nat} (hstep : (addPad b).Yields a i a') :
    a.Extends spare a' ∧ a'.netlist.nodes[i]? = some (.pad b) := by
  obtain ⟨n, hn, rfl⟩ := yields_onNetlist_iff.1 hstep
  obtain ⟨hext, hnode⟩ := Netlist.Extends.add spare hn
  exact ⟨⟨hext, rfl⟩, hnode⟩

theorem connect {driver receiver : Nat} {c : Connection} {u : Unit}
    (h : a.netlist.Declares ⟨driver, receiver, c⟩ ∨ spare ⟨driver, receiver, c⟩)
    (hstep : (connect driver receiver c).Yields a u a') : a.Extends spare a' := by
  obtain rfl := yields_connect_iff.1 hstep
  refine ⟨.connect fun e he => ?_, rfl⟩
  rw [List.mem_singleton.1 he]
  exact h

/-- A pad is added and connected to a component that offers a port for each of its signals. -/
theorem connectPad {b : Bundle} {c p k : Nat} {lead : String}
    (hports : a.netlist.Offers c (b.localSignals lead)) (hadd : (Step.addPad b).Yields a p a')
    (hconnect : (connectBundle c p lead).Yields a' k a'') : a.Extends spare a'' := by
  obtain ⟨h₁, hpad⟩ := addPad spare hadd
  obtain ⟨n, hn, rfl⟩ := yields_onNetlist_iff.1 hconnect
  exact h₁.trans ⟨.connectBundle hpad (hports.extends h₁.netlist) hn, rfl⟩

/-- A pad is handed out, added and connected. -/
theorem attachPad (hdecls : a.pads.decls = PadDecl.catalog) {c p : Nat} {name lead : String}
    {d : PadDecl} (hd : PadDecl.standard? name = some d)
    (hports : a.netlist.Offers c (d.bundle.localSignals lead))
    (hstep : (attachPad c name lead).Yields a p a') : a.Extends spare a' := by
  obtain ⟨b, a₁, a₂, k, htake, hadd, hconnect⟩ := yields_attachPad_iff.1 hstep
  obtain ⟨rfl, hsame, h₁⟩ := takePad spare hdecls hd htake
  rw [← hsame] at hports
  exact h₁.trans (connectPad hports hadd hconnect)

/-! ### Builders -/

theorem buildCrg (hdecls : a.pads.decls = PadDecl.catalog) {clock : Frequency} {u : Unit}
    (hstep : (buildCrg clock).Yields a u a') : a.Extends spare a' := by
  simp only [Step.buildCrg, yields_bind_iff, yields_pure_iff] at hstep
  obtain ⟨crg, a₁, hcrg, _, a₂, hclock, _, a₃, hreset, -, rfl⟩ := hstep
  obtain ⟨h₁, hnode⟩ := addComponent spare hcrg
  have hoffers : a₁.netlist.Offers crg [⟨"clk", 1, .input⟩, ⟨"rst", 1, .input⟩] :=
    ⟨_, hnode, List.Subset.refl _⟩
  have h₂ : a₁.Extends spare a₂ :=
    attachPad (h₁.decls.trans hdecls) rfl (hoffers.mono (by decide)) hclock
  have h₃ : a₂.Extends spare a₃ :=
    attachPad ((h₁.trans h₂).decls.trans hdecls) rfl
      ((hoffers.extends h₂.netlist).mono (by decide)) hreset
  exact (h₁.trans h₂).trans h₃

theorem takePhyPads (spare : Edge → Prop) (hdecls : a.pads.decls = PadDecl.catalog)
    {phy : PhyChoice} {b : Bundle × Bundle} (hstep : (takePhyPads phy).Yields a b a') :
    PhyPads b.1 b.2 ∧ a.Extends spare a' := by
  unfold Step.takePhyPads at hstep
  split at hstep
  · next f hf =>
    simp only [yields_bind_iff, yields_pure_iff] at hstep
    obtain ⟨clockPads, a₁, hclock, pads, a₂, hpads, rfl, rfl⟩ := hstep
    obtain ⟨c, d, hc, hd, hfits⟩ := f.phyPads
    obtain ⟨rfl, -, h₁⟩ := takePad spare hdecls hc hclock
    obtain ⟨rfl, -, h₂⟩ := takePad spare (h₁.decls.trans hdecls) hd hpads
    exact ⟨hfits, h₁.trans h₂⟩
  · obtain ⟨rfl, rfl⟩ := yields_pure_iff.1 hstep
    exact ⟨.empty _ _, .refl a⟩

theorem givePage (spare : Edge → Prop) {k : PhyKind} {c c' : Component}
    (hstep : (givePage k c).Yields a c' a') :
    a.Extends spare a' ∧ c'.ports = c.ports := by
  unfold Step.givePage at hstep
  split at hstep
  · simp only [yields_bind_iff, yields_pure_iff] at hstep
    obtain ⟨page, a₁, hpage, rfl, rfl⟩ := hstep
    exact ⟨takePage hpage, rfl⟩
  · obtain ⟨rfl, rfl⟩ := yields_pure_iff.1 hstep
    exact ⟨.refl a, rfl⟩

theorem connectPhyPads {phy : Nat} {s : Selection}
    (hclock : a.netlist.Offers phy (s.clockPads.localSignals "clock_pads"))
    (hpads : a.netlist.Offers phy (s.pads.localSignals "pads")) {u : Unit}
    (hstep : (connectPhyPads phy s).Yields a u a') : a.Extends spare a' := by
  unfold Step.connectPhyPads at hstep
  split at hstep
  · obtain ⟨-, rfl⟩ := yields_pure_iff.1 hstep
    exact .refl a
  · simp only [yields_bind_iff, yields_pure_iff] at hstep
    obtain ⟨p, a₁, hp, k, a₂, hk, q, a₃, hq, l, a₄, hl, -, rfl⟩ := hstep
    have h₁ : a.Extends spare a₂ := connectPad hclock hp hk
    exact h₁.trans (connectPad (hpads.extends h₁.netlist) hq hl)

/-- The PHY offers the ports of its two streams. -/
theorem buildPhy (spare : Edge → Prop) (hdecls : a.pads.decls = PadDecl.catalog) {c : Config}
    {k : PhyKind} {phy : Nat} (hstep : (buildPhy c).Yields a (k, phy) a') :
    a.Extends spare a' ∧ a'.netlist.Offers phy (Component.streamPorts k) := by
  simp only [Step.buildPhy, yields_bind_iff, yields_pure_iff, yields_lift_iff] at hstep
  obtain ⟨⟨clockPads, pads⟩, a₁, htake, s, _, ⟨hs, rfl⟩, comp, a₂, hpage, i, a₃, hadd, u, a₄,
    hconnect, hk, rfl⟩ := hstep
  obtain ⟨rfl, rfl⟩ := Prod.mk.inj hk
  obtain ⟨rfl, rfl, -⟩ := Selection.of_eq_ok hs
  obtain ⟨hfits, h₁⟩ := takePhyPads spare hdecls htake
  obtain ⟨h₂, hports⟩ := givePage spare hpage
  obtain ⟨h₃, hnode⟩ := addComponent spare hadd
  have hoffers : a₃.netlist.Offers i (Component.streamPorts s.kind
      ++ (s.clockPads.localSignals "clock_pads" ++ s.pads.localSignals "pads")) := by
    refine ⟨comp, hnode, ?_⟩
    rw [hports, Component.ports_phy hfits]
    exact List.Subset.refl _
  have h₄ : a₃.Extends spare a₄ := by
    apply connectPhyPads (hoffers.mono ?_) (hoffers.mono ?_) hconnect
    · exact List.subset_append_of_subset_right _ (List.subset_append_left _ _)
    · exact List.subset_append_of_subset_right _ (List.subset_append_right _ _)
  refine ⟨((h₁.trans h₂).trans h₃).trans h₄, ?_⟩
  exact (hoffers.mono (List.subset_append_left _ _)).extends h₄.netlist

theorem bindPhy {k : PhyKind} {phy core : Nat}
    (hphy : a.netlist.Offers phy (Component.streamPorts k))
    (hcore : a.netlist.Offers core (Component.phyPorts k)) {u : Unit}
    (hstep : (bindPhy k phy core).Yields a u a') : a.Extends spare a' := by
  simp only [Step.bindPhy, yields_bind_iff] at hstep
  obtain ⟨_, a₁, hrx, htx⟩ := hstep
  have hsource : (⟨"source", k.dataWidth, .output⟩ : Signal) ∈ Component.streamPorts k := by
    simp [Component.streamPorts]
  have hsink : (⟨"sink", k.dataWidth, .input⟩ : Signal) ∈ Component.streamPorts k := by
    simp [Component.streamPorts]
  have hin : (⟨"phy_rx", k.dataWidth, .input⟩ : Signal) ∈ Component.phyPorts k := by
    simp [Component.phyPorts]
  have hout : (⟨"phy_tx", k.dataWidth, .output⟩ : Signal) ∈ Component.phyPorts k := by
    simp [Component.phyPorts]
  have h₁ : a.Extends spare a₁ := connect
    (Or.inl ⟨hphy.declares hsource (Or.inl rfl), hcore.declares hin (Or.inl rfl)⟩) hrx
  have hphy' := hphy.extends h₁.netlist
  have hcore' := hcore.extends h₁.netlist
  exact h₁.trans (connect
    (Or.inl ⟨hcore'.declares hout (Or.inl rfl), hphy'.declares hsink (Or.inl rfl)⟩) htx)

theorem buildMac (hdecls : a.pads.decls = PadDecl.catalog) {k : PhyKind} {phy : Nat}
    {m : MacSettings} (hphy : a.netlist.Offers phy (Component.streamPorts k)) {u : Unit}
    (hstep : (buildMac k phy m).Yields a u a') : a.Extends spare a' := by
  simp only [Step.buildMac, yields_bind_iff, yields_pure_iff, yields_get_iff] at hstep
  obtain ⟨_, _, ⟨rfl, rfl⟩, region, a₁, hplace, page, a₂, hpage, mac, a₃, hadd, _, a₄, hbind,
    p, a₅, hirq, -, rfl⟩ := hstep
  have h₁ : a.Extends spare a₂ := (place hplace).trans (takePage hpage)
  obtain ⟨h₂, hnode⟩ := addComponent spare hadd
  have h₃ := h₁.trans h₂
  have hoffers : a₃.netlist.Offers mac (Component.phyPorts k
      ++ [⟨"bus", macDataWidth, .inout⟩, ⟨"irq", 1, .output⟩]) := ⟨_, hnode, List.Subset.refl _⟩
  have h₄ : a₃.Extends spare a₄ := bindPhy (hphy.extends h₃.netlist)
    (hoffers.mono (List.subset_append_left _ _)) hbind
  have h₅ : a₄.Extends spare a₅ := by
    apply attachPad ((h₃.trans h₄).decls.trans hdecls) rfl _ hirq
    apply (hoffers.extends h₄.netlist).mono
    exact List.subset_append_of_subset_right _ (by decide)
  exact (h₃.trans h₄).trans h₅

theorem attachAddress (hdecls : a.pads.decls = PadDecl.catalog) {α : Type} {core : Nat}
    {name : String} {address : Option α} {d : PadDecl} (hd : PadDecl.standard? name = some d)
    (hports : address.isNone → a.netlist.Offers core (d.bundle.localSignals name)) {u : Unit}
    (hstep : (attachAddress core name address).Yields a u a') : a.Extends spare a' := by
  unfold Step.attachAddress at hstep
  split at hstep
  · next hnone =>
    simp only [yields_bind_iff, yields_pure_iff] at hstep
    obtain ⟨p, a₁, hpad, -, rfl⟩ := hstep
    exact attachPad hdecls hd (hports hnone) hpad
  · obtain ⟨-, rfl⟩ := yields_pure_iff.1 hstep
    exact .refl a

/-- A pad is handed out, and a component gets ports for a stream to it. -/
theorem attachStream (spare : Edge → Prop) (hdecls : a.pads.decls = PadDecl.catalog)
    {c p k : Nat} {name endpoint : String} {d : StreamDirection} {e : PadDecl} {comp : Component}
    (he : PadDecl.standard? name = some e)
    (hfields : ∀ f ∈ StreamField.udp, (e.bundle.width? f.name).isSome)
    (hcomp : a.netlist.nodes[c]? = some (.component comp))
    (hnames : ((comp.ports ++ (StreamField.udp.map (WiredField.ofField e.bundle d)).map
      (WiredField.port endpoint)).map (·.name)).Nodup) (hpad : (requestPad name).Yields a p a')
    (hwire : (wireStream c endpoint p d StreamField.udp).Yields a' k a'') :
    a.Extends spare a'' ∧ ∃ comp' : Component,
      a''.netlist.nodes[c]? = some (.component comp') ∧ comp'.ports = comp.ports
        ++ (StreamField.udp.map (WiredField.ofField e.bundle d)).map (WiredField.port endpoint) := by
  obtain ⟨b, a₀, htake, hadd⟩ := yields_bind_iff.1 hpad
  obtain ⟨rfl, hsame, h₁⟩ := takePad spare hdecls he htake
  obtain ⟨h₂, hnode⟩ := addPad spare hadd
  obtain ⟨n₁, hn₁, rfl⟩ := yields_onNetlist_iff.1 hadd
  obtain ⟨n₂, hn₂, rfl⟩ := yields_onNetlist_iff.1 hwire
  have hcomp' := nodes_of_add hn₁ (hsame ▸ hcomp)
  obtain ⟨h₃, hports⟩ := Netlist.Extends.wireStream spare hnode hcomp'
    (WiredField.ofFields_eq_ok hfields) hnames hn₂
  exact ⟨(h₁.trans h₂).trans ⟨h₃, rfl⟩, _, hports, Component.ports_addPorts hnames⟩

/-- The UDP stack is connected to the PHY and to the pads that its addresses are read from. -/
theorem connectStack (hdecls : a.pads.decls = PadDecl.catalog) {k : PhyKind} {u : UdpSettings}
    {clock : Frequency} {phy core : Nat} {a₁ a₂ : Assembly} {v v₁ v₂ : Unit}
    (hphy : a.netlist.Offers phy (Component.streamPorts k))
    (hcore : a.netlist.Offers core (Component.udpStack k u clock).ports)
    (hbind : (Step.bindPhy k phy core).Yields a v a₁)
    (hmac : (Step.attachAddress core "mac_address" u.mac).Yields a₁ v₁ a₂)
    (hip : (Step.attachAddress core "ip_address" u.ip).Yields a₂ v₂ a') : a.Extends spare a' := by
  rw [Component.ports_udpStack] at hcore
  have h₁ : a.Extends spare a₁ :=
    bindPhy hphy (hcore.mono (List.subset_append_left _ _)) hbind
  have h₂ : a.Extends spare a₂ := by
    refine h₁.trans (attachAddress (h₁.decls.trans hdecls) rfl (fun hnone => ?_) hmac)
    apply (hcore.extends h₁.netlist).mono
    rw [if_pos hnone]
    exact List.subset_append_of_subset_right _ (List.subset_append_left _ _)
  refine h₂.trans (attachAddress (h₂.decls.trans hdecls) rfl (fun hnone => ?_) hip)
  apply (hcore.extends h₂.netlist).mono
  rw [if_pos hnone]
  exact List.subset_append_of_subset_right _ (List.subset_append_right _ _)

/-- The streams of a UDP port are connected to their pads. -/
theorem connectPort (hdecls : a.pads.decls = PadDecl.catalog) {n : UInt16} {port p q k l : Nat}
    {a₁ a₂ a₃ : Assembly} (hport : a.netlist.nodes[port]? = some (.component (.udpPort n)))
    (hsink : (requestPad "udp_sink").Yields a p a₁)
    (hsink' : (wireStream port "sink" p .ingress StreamField.udp).Yields a₁ k a₂)
    (hsource : (requestPad "udp_source").Yields a₂ q a₃)
    (hsource' : (wireStream port "source" q .egress StreamField.udp).Yields a₃ l a') :
    a.Extends spare a' := by
  obtain ⟨h₁, comp, hcomp, hports⟩ := attachStream spare hdecls rfl (by decide) hport
    (by rw [Component.ports_udpPort]; decide) hsink hsink'
  obtain ⟨h₂, -⟩ := attachStream spare (h₁.decls.trans hdecls) rfl (by decide) hcomp
    (by rw [hports, Component.ports_udpPort]; decide) hsource hsource'
  exact h₁.trans h₂

/-- The UDP stack and its port are connected through a port that neither declares. -/
theorem buildUdp (hdecls : a.pads.decls = PadDecl.catalog) {k : PhyKind} {phy : Nat}
    {u : UdpSettings} {clock : Frequency}
    (hphy : a.netlist.Offers phy (Component.streamPorts k)) {v : Unit}
    (hstep : (buildUdp k phy u clock).Yields a v a') :
    ∃ e ∈ a'.netlist.edges, a.Extends (· = e) a' ∧ ¬ a'.netlist.Declares e ∧
      a'.netlist.link? e = some crossbar := by
  simp only [Step.buildUdp, yields_bind_iff, yields_pure_iff] at hstep
  obtain ⟨core, a₁, hcore, _, a₂, hbind, _, a₃, hmac, _, a₄, hip, port, a₅, hport, _, a₆, hcross,
    p, a₇, hsink, _, a₈, hsink', q, a₉, hsource, _, a₁₀, hsource', -, rfl⟩ := hstep
  obtain ⟨e, he⟩ : ∃ e : Edge, e = ⟨core, port, crossbar.connection⟩ := ⟨_, rfl⟩
  obtain ⟨h₁, hstack⟩ := addComponent (· = e) hcore
  have h₄ : a₁.Extends (· = e) a₄ := connectStack (h₁.decls.trans hdecls)
    (hphy.extends h₁.netlist) ⟨_, hstack, List.Subset.refl _⟩ hbind hmac hip
  obtain ⟨h₅, hnode⟩ := addComponent (· = e) hport
  have h₆ : a₅.Extends (· = e) a₆ := connect (Or.inr he.symm) hcross
  have hcross' := yields_connect_iff.1 hcross
  have hnode₆ : a₆.netlist.nodes[port]? = some (.component (Component.udpPort u.port)) := by
    rw [hcross']
    exact hnode
  have he₆ : e ∈ a₆.netlist.edges := by
    rw [hcross', he]
    exact List.mem_append_right _ (List.mem_singleton_self _)
  have hbefore : a₁.Extends (· = e) a₆ := (h₄.trans h₅).trans h₆
  have hafter : a₆.Extends (· = e) a₁₀ :=
    connectPort ((h₁.trans hbefore).decls.trans hdecls) hnode₆ hsink hsink' hsource hsource'
  -- the stack and its port get no port but those of their streams from here on
  obtain ⟨x, hx, hwidens⟩ := (hbefore.trans hafter).netlist.nodes core _ hstack
  obtain ⟨y, hy, hwidens'⟩ := hafter.netlist.nodes port _ hnode₆
  refine ⟨e, hafter.netlist.kept he₆, (h₁.trans hbefore).trans hafter, ?_, ?_⟩
  · rintro ⟨⟨x', hx', hdeclares⟩, -⟩
    rw [he] at hx' hdeclares
    obtain rfl := Option.some.inj (hx.symm.trans hx')
    have hline : '_' ∉ "crossbar".toList := by decide
    exact hwidens.not_declares (Component.crossbar_notMem_ports k u clock) hline hdeclares
  · rw [link?_eq_some_iff, he]
    refine ⟨x, y, hx, hy, ?_⟩
    rw [hwidens.name_eq, hwidens'.name_eq, Node.name, Component.name_udpStack]
    rfl

/-- Building a core adds connections between declared ports, and in a UDP core one more. -/
theorem build (hdecls : a.pads.decls = PadDecl.catalog) {c : Config} {k : PhyKind}
    (hstep : (build c).Yields a k a') :
    c.core.kind = .mac ∧ a.Extends (fun _ => False) a' ∨
      c.core.kind = .udp ∧ ∃ e ∈ a'.netlist.edges, a.Extends (· = e) a' ∧
        ¬ a'.netlist.Declares e ∧ a'.netlist.link? e = some crossbar := by
  simp only [Step.build, yields_bind_iff, yields_pure_iff] at hstep
  obtain ⟨_, a₁, hcrg, ⟨k', phy⟩, a₂, hphy, _, a₃, hcore, rfl, rfl⟩ := hstep
  have h₁ (spare : Edge → Prop) : a.Extends spare a₁ := buildCrg hdecls hcrg
  have hdecls₁ : a₁.pads.decls = PadDecl.catalog := (h₁ fun _ => False).decls.trans hdecls
  have h₂ (spare : Edge → Prop) := buildPhy spare hdecls₁ hphy
  obtain ⟨h, hoffers⟩ := h₂ fun _ => False
  have hdecls₂ := h.decls.trans hdecls₁
  unfold Step.buildCore at hcore
  split at hcore
  · next m hm =>
    exact Or.inl ⟨congrArg CoreSettings.kind hm,
      ((h₁ _).trans (h₂ _).1).trans (buildMac hdecls₂ hoffers hcore)⟩
  · next u hu =>
    obtain ⟨e, he, h₃, hundeclared⟩ := buildUdp hdecls₂ hoffers hcore
    exact Or.inr ⟨congrArg CoreSettings.kind hu, e, he, ((h₁ _).trans (h₂ _).1).trans h₃,
      hundeclared⟩

/-- What goes on from the start has declared ends at all connections but those to spare. -/
theorem declares {soc : Soc} (h : (start soc).Extends spare a) {e : Edge}
    (he : e ∈ a.netlist.edges) : a.netlist.Declares e ∨ spare e := by
  rcases h.netlist.fresh e he with hold | hnew
  · cases hold
  · exact hnew

end Extends

end Assembly

/-! ### Compositions -/

namespace Config

variable {c : Config} {art : Artifact} {log : Log}

/-- A UDP core has a connection whose ends are not declared: that of the stack and its port. -/
theorem exists_not_declares (h : c.compose = (.ok art, log)) (hcore : c.core.kind = .udp) :
    ∃ e ∈ art.netlist.edges, ¬ art.netlist.Declares e := by
  obtain ⟨k, a, ⟨soc, -, hbuild⟩, rfl, -⟩ := compose_eq_ok_iff.1 h
  rcases Assembly.Extends.build rfl hbuild with ⟨hmac, -⟩ | ⟨-, e, he, -, hundeclared, -⟩
  · rw [hcore] at hmac
    cases hmac
  · exact ⟨e, he, hundeclared⟩

/-- The connections of a core that is composed all end on declared ports if and only if the core is
a MAC.  In a UDP core the only one that does not is that of the stack and its port. -/
theorem compose_declares_iff (h : c.compose = (.ok art, log)) :
    ((∀ e ∈ art.netlist.edges, art.netlist.Declares e) ↔ c.core.kind = .mac) ∧
      ∀ e ∈ art.netlist.edges, art.netlist.Declares e ∨ art.netlist.link? e = some crossbar := by
  have hudp := fun hcore => exists_not_declares h hcore
  obtain ⟨k, a, ⟨soc, -, hbuild⟩, rfl, -⟩ := compose_eq_ok_iff.1 h
  rcases Assembly.Extends.build rfl hbuild with ⟨hmac, hext⟩ | ⟨hcore, e, -, hext, -, hlink⟩
  · have hall : ∀ e ∈ a.netlist.edges, a.netlist.Declares e := by
      intro e he
      exact (hext.declares he).resolve_right id
    exact ⟨⟨fun _ => hmac, fun _ => hall⟩, fun e he => Or.inl (hall e he)⟩
  · refine ⟨⟨fun hall => ?_, fun hmac => ?_⟩, fun e' he' => ?_⟩
    · obtain ⟨e', he', hundeclared⟩ := hudp hcore
      exact absurd (hall e' he') hundeclared
    · rw [hcore] at hmac
      cases hmac
    · refine (hext.declares he').imp_right fun (heq : e' = e) => ?_
      rw [heq]
      exact hlink

/-- A MAC on MII pads. -/
theorem compose_declares_mii :
    let c : Config := ⟨⟨100000000⟩, ⟨.lattice, "", .diamond⟩, .named .mii, none,
      .mac ⟨2, 2, false, .big⟩, .empty⟩
    ∃ art log, c.compose = (.ok art, log) ∧
      ∀ e ∈ art.netlist.edges, art.netlist.Declares e := by
  intro c
  have hok : c.compose.1.isOk = true := by decide +kernel
  obtain ⟨⟨o, log⟩, h⟩ : ∃ x, c.compose = x := ⟨_, rfl⟩
  rw [h] at hok
  obtain ⟨art, rfl⟩ := Outcome.exists_of_isOk hok
  exact ⟨art, log, h, (compose_declares_iff h).1.2 rfl⟩

/-- A UDP core on the model of a PHY, with both of its addresses given. -/
theorem not_declares_model :
    let c : Config := ⟨⟨100000000⟩, ⟨.xilinx, "", .vivado⟩, .named .model, none,
      .udp ⟨some ⟨0x10, 0xe2, 0xd5, 0, 0, 0⟩, some ⟨0x0a000002⟩, 1⟩, .empty⟩
    ∃ art log, c.compose = (.ok art, log) ∧
      ¬ ∀ e ∈ art.netlist.edges, art.netlist.Declares e := by
  intro c
  have hok : c.compose.1.isOk = true := by decide +kernel
  obtain ⟨⟨o, log⟩, h⟩ : ∃ x, c.compose = x := ⟨_, rfl⟩
  rw [h] at hok
  obtain ⟨art, rfl⟩ := Outcome.exists_of_isOk hok
  refine ⟨art, log, h, fun hall => ?_⟩
  obtain ⟨e, he, hundeclared⟩ := exists_not_declares h rfl
  exact hundeclared (hall e he)

end Config

end EtherCore
