import EtherCore.Proofs.Artifact.Joints
import EtherCore.Proofs.Artifact.Wired
import EtherCore.Proofs.Netlist.Complete

/-!
A core that is composed has a complete netlist, and its pads are those handed out, each once and in
their order (`compose_complete`).  Each builder takes joints that the components before it have
left loose, and leaves those that the next one takes.
-/

namespace EtherCore

open Netlist

/-! ### Builders -/

namespace Assembly.Wired

open Step

variable {a a' : Assembly} {rest : Multiset (Nat × Joint)}

theorem buildCrg (h : a.Wired [] 0) {clock : Frequency} {u : Unit}
    (hstep : (buildCrg clock).Yields a u a') : a'.Wired [] 0 := by
  simp only [Step.buildCrg, yields_bind_iff, yields_pure_iff] at hstep
  obtain ⟨crg, a₁, hcrg, _, a₂, hclock, _, a₃, hreset, -, rfl⟩ := hstep
  have hjs : (Component.crg clock).joints ⊆ [⟨"clk", 1, false⟩, ⟨"rst", 1, false⟩] :=
    List.Subset.refl _
  have h₁ := h.addComponent hcrg hjs (by decide)
  rw [zero_add, atNode_cons] at h₁
  have h₂ := attachPad rfl h₁ hclock
  rw [← add_zero (atNode _ _)] at h₂
  exact attachPad rfl h₂ hreset

/-- A PHY has both pads of its family, or none if it has no family. -/
theorem takePhyPads (h : a.Wired [] 0) {phy : PhyChoice} {b : Bundle × Bundle}
    (hstep : (takePhyPads phy).Yields a b a') :
    PhyPads b.1 b.2 ∧ (phy.family? ≠ none ∧ a'.Wired [b.1, b.2] 0 ∨
      phy.family? = none ∧ Joint.phyPads b.1 b.2 = [] ∧ a'.Wired [] 0) := by
  unfold Step.takePhyPads at hstep
  split at hstep
  · next f hf =>
    simp only [yields_bind_iff, yields_pure_iff] at hstep
    obtain ⟨clockPads, a₁, hclock, pads, a₂, hpads, rfl, rfl⟩ := hstep
    obtain ⟨c, d, hc, hd, hfits⟩ := f.phyPads
    obtain ⟨rfl, h₁⟩ := h.takePad hclock hc
    obtain ⟨rfl, h₂⟩ := h₁.takePad hpads hd
    exact ⟨hfits, Or.inl ⟨hf ▸ Option.some_ne_none f, h₂⟩⟩
  · next hf =>
    obtain ⟨rfl, rfl⟩ := yields_pure_iff.1 hstep
    exact ⟨.empty _ _, Or.inr ⟨hf, rfl, h⟩⟩

theorem givePage {held : List Bundle} (h : a.Wired held rest) {k : PhyKind} {c c' : Component}
    (hstep : (givePage k c).Yields a c' a') : a'.Wired held rest ∧ c'.joints = c.joints := by
  unfold Step.givePage at hstep
  split at hstep
  · simp only [yields_bind_iff, yields_pure_iff] at hstep
    obtain ⟨page, a₁, hpage, rfl, rfl⟩ := hstep
    exact ⟨h.takePage hpage, rfl⟩
  · obtain ⟨rfl, rfl⟩ := yields_pure_iff.1 hstep
    exact ⟨h, rfl⟩

theorem connectPhyPads {phy : Nat} {s : Selection} {u : Unit} (hmodel : s.kind ≠ .model)
    (hpads : PhyPads s.clockPads s.pads)
    (h : a.Wired [s.clockPads, s.pads] (rest + atNode phy (Joint.phyPads s.clockPads s.pads)))
    (hstep : (connectPhyPads phy s).Yields a u a') : a'.Wired [] rest := by
  unfold Step.connectPhyPads at hstep
  rw [if_neg (by simpa [PhyKind.isModel] using hmodel)] at hstep
  simp only [yields_bind_iff, yields_pure_iff] at hstep
  obtain ⟨p, a₁, hp, k, a₂, hk, q, a₃, hq, l, a₄, hl, -, rfl⟩ := hstep
  rw [Joint.phyPads, atNode_append, add_left_comm] at h
  have h₁ := h.connectPad hpads.clockPorts hp hk
  rw [add_comm] at h₁
  exact h₁.connectPad hpads.ports hq hl

/-- The PHY is left with the joints of its streams. -/
theorem buildPhy (h : a.Wired [] 0) {c : Config} {k : PhyKind} {phy : Nat}
    (hstep : (buildPhy c).Yields a (k, phy) a') :
    a'.Wired [] (atNode phy (Joint.phyStreams k)) := by
  simp only [Step.buildPhy, yields_bind_iff, yields_pure_iff, yields_lift_iff] at hstep
  obtain ⟨⟨clockPads, pads⟩, a₁, htake, s, _, ⟨hs, rfl⟩, comp, a₂, hpage, i, a₃, hadd, u, a₄,
    hconnect, hk, rfl⟩ := hstep
  obtain ⟨rfl, rfl⟩ := Prod.mk.inj hk
  obtain ⟨rfl, rfl, hmodel⟩ := Selection.of_eq_ok hs
  obtain ⟨hfits, h₁⟩ := h.takePhyPads htake
  have hjs : (Component.phy s c.clock c.delays).joints
      ⊆ Joint.phyStreams s.kind ++ Joint.phyPads s.clockPads s.pads :=
    Component.joints_phy_subset hfits.clockRecord hfits.record
  rcases h₁ with ⟨hf, h₁⟩ | ⟨hf, hnone, h₁⟩
  · obtain ⟨h₂, hjoints⟩ := h₁.givePage hpage
    rw [← hjoints] at hjs
    have h₃ := h₂.addComponent hadd hjs hfits.innerPorts
    rw [zero_add, atNode_append] at h₃
    exact h₃.connectPhyPads (mt hmodel.1 hf) hfits hconnect
  · obtain ⟨h₂, hjoints⟩ := h₁.givePage hpage
    rw [← hjoints] at hjs
    have h₃ := h₂.addComponent hadd hjs hfits.innerPorts
    -- without a family the PHY is the model, and there is nothing to connect
    rw [hnone, zero_add, List.append_nil] at h₃
    unfold Step.connectPhyPads at hconnect
    rw [if_pos (by simpa [PhyKind.isModel] using hmodel.2 hf)] at hconnect
    obtain ⟨-, rfl⟩ := yields_pure_iff.1 hconnect
    exact h₃

/-- The streams between the PHY and what is built on it are connected. -/
theorem bindPhy {k : PhyKind} {phy core : Nat} {u : Unit}
    (h : a.Wired [] (atNode phy (Joint.phyStreams k) + (atNode core (Joint.coreStreams k) + rest)))
    (hstep : (bindPhy k phy core).Yields a u a') : a'.Wired [] rest := by
  simp only [Step.bindPhy, yields_bind_iff] at hstep
  obtain ⟨_, a₁, hrx, htx⟩ := hstep
  -- the same four joints, by connection instead of by node
  have h₁ := h
  rw [Joint.phyStreams, Joint.coreStreams, atNode_cons phy, atNode_cons core] at h₁
  have h₂ : a.Wired [] ((Edge.joints ⟨phy, core, ⟨"source", "phy_rx", k.dataWidth⟩⟩ :
        Multiset (Nat × Joint))
      + ((Edge.joints ⟨core, phy, ⟨"phy_tx", "sink", k.dataWidth⟩⟩ : Multiset (Nat × Joint))
        + rest)) := by
    convert h₁ using 1
    rw [coe_joints, coe_joints]
    abel
  exact (h₂.connect hrx).connect htx

theorem buildMac {k : PhyKind} {phy : Nat} {m : MacSettings} {u : Unit}
    (h : a.Wired [] (atNode phy (Joint.phyStreams k)))
    (hstep : (buildMac k phy m).Yields a u a') : a'.Wired [] 0 := by
  simp only [Step.buildMac, yields_bind_iff, yields_pure_iff, yields_get_iff] at hstep
  obtain ⟨_, _, ⟨rfl, rfl⟩, region, a₁, hplace, page, a₂, hpage, mac, a₃, hadd, _, a₄, hbind,
    p, a₅, hirq, -, rfl⟩ := hstep
  have hjs : (Component.mac k m region page (a.soc.interrupt? Component.macName)).joints
      ⊆ Joint.coreStreams k ++ [⟨"irq", 1, true⟩] := List.Subset.refl _
  have hports : ["phy_rx", "phy_tx", "irq"].Nodup := by decide
  have h₁ := ((h.place hplace).takePage hpage).addComponent hadd hjs hports
  rw [atNode_append, ← add_zero (atNode mac [_])] at h₁
  exact attachPad rfl (h₁.bindPhy hbind) hirq

/-- An address that is read from pads has a loose joint until they are attached. -/
theorem attachAddress {α : Type} {core : Nat} {name : String} {width : UInt32} {address : Option α}
    {d : PadDecl} (hd : PadDecl.standard? name = some d)
    (hinner : d.bundle.innerJoints name = [⟨name, width, false⟩])
    (h : a.Wired [] (atNode core (Joint.ofAddress name width address) + rest)) {u : Unit}
    (hstep : (attachAddress core name address).Yields a u a') : a'.Wired [] rest := by
  unfold Step.attachAddress at hstep
  cases address with
  | none =>
    simp only [Option.isNone_none, if_true, yields_bind_iff, yields_pure_iff] at hstep
    obtain ⟨p, a₁, hpad, -, rfl⟩ := hstep
    rw [Joint.ofAddress, ← hinner] at h
    exact attachPad hd h hpad
  | some x =>
    obtain ⟨-, rfl⟩ := yields_pure_iff.1 hstep
    simpa [Joint.ofAddress] using h

/-- A pad is handed out, and a UDP stream between it and a component is wired. -/
theorem attachStream {c p k : Nat} {name endpoint : String} {d : StreamDirection} {e : PadDecl}
    (he : PadDecl.standard? name = some e)
    (hfields : ∀ f ∈ StreamField.udp, (e.bundle.width? f.name).isSome)
    (houter : ((StreamField.udp.map (WiredField.ofField e.bundle d)).map
      (WiredField.joint e.bundle)).Perm e.bundle.joints) {a₁ : Assembly}
    (h : a.Wired [] (atNode c (Joint.ofStream e.bundle d endpoint) + rest))
    (hpad : (requestPad name).Yields a p a₁)
    (hwire : (wireStream c endpoint p d StreamField.udp).Yields a₁ k a') : a'.Wired [] rest := by
  obtain ⟨b, a₀, htake, hadd⟩ := yields_bind_iff.1 hpad
  obtain ⟨rfl, h₁⟩ := h.takePad htake he
  exact h₁.streamPad (WiredField.ofFields_eq_ok hfields) houter
    (nodup_ports_of_standard? he) hadd hwire

theorem buildUdp {k : PhyKind} {phy : Nat} {u : UdpSettings} {clock : Frequency} {v : Unit}
    (h : a.Wired [] (atNode phy (Joint.phyStreams k)))
    (hstep : (buildUdp k phy u clock).Yields a v a') : a'.Wired [] 0 := by
  simp only [Step.buildUdp, yields_bind_iff, yields_pure_iff] at hstep
  obtain ⟨core, a₁, hcore, _, a₂, hbind, _, a₃, hmac, _, a₄, hip, port, a₅, hport, _, a₆, hcross,
    p, a₇, hsink, _, a₈, hsink', q, a₉, hsource, _, a₁₀, hsource', -, rfl⟩ := hstep
  have h₁ := h.addComponent hcore (Component.joints_udpStack_subset k u clock)
    (Joint.nodup_udpStack k u)
  rw [Joint.udpStack, atNode_append, atNode_append, atNode_append] at h₁
  have h₂ := h₁.bindPhy hbind
  have h₃ := attachAddress rfl rfl h₂ hmac
  have h₄ := attachAddress rfl rfl h₃ hip
  -- only the joint to the port is left, which the port meets with one that it does not declare
  have h₅ := h₄.addComponent hport (List.nil_subset Joint.udpPort) (by decide)
  rw [Joint.udpPort, atNode_cons port, atNode_append, ← add_assoc] at h₅
  have h₆ := h₅.connect hcross
  have h₇ := attachStream rfl (by decide) (by decide) h₆ hsink hsink'
  rw [← add_zero (atNode _ _)] at h₇
  exact attachStream rfl (by decide) (by decide) h₇ hsource hsource'

/-- Building a core leaves no joint loose. -/
theorem build (h : a.Wired [] 0) {c : Config} {k : PhyKind}
    (hstep : (build c).Yields a k a') : a'.Wired [] 0 := by
  simp only [Step.build, yields_bind_iff, yields_pure_iff] at hstep
  obtain ⟨_, a₁, hcrg, ⟨k', phy⟩, a₂, hphy, _, a₃, hcore, rfl, rfl⟩ := hstep
  have h₁ := (h.buildCrg hcrg).buildPhy hphy
  unfold Step.buildCore at hcore
  split at hcore
  · exact h₁.buildMac hcore
  · exact h₁.buildUdp hcore

end Assembly.Wired

/-- In a core that is built no joint is loose. -/
theorem Config.Assembles.wired {c : Config} {k : PhyKind} {a : Assembly} (h : c.Assembles k a) :
    a.Wired [] 0 := by
  obtain ⟨soc, -, hbuild⟩ := h
  exact (Assembly.Wired.start soc).build hbuild

/-- In a core that is built no two nodes have one name. -/
theorem Config.Assembles.nodup_names {c : Config} {k : PhyKind} {a : Assembly}
    (h : c.Assembles k a) : a.netlist.names.Nodup := h.wired.netlist.covers.names

/-! ### Compositions -/

/-- In a core that is composed every port of a component that is driven from one side, and every
signal of a pad, has exactly one connection, of its width and in its direction; and its pads are
those that its assembly was handed out, each once and in this order. -/
theorem Config.compose_complete {c : Config} {art : Artifact} {log : Log}
    (h : c.compose = (.ok art, log)) :
    art.netlist.Complete ∧ ∃ k a, c.Assembles k a ∧ art = a.artifact k c.core.kind ∧
      art.netlist.pads.map (fun b => b.key) = a.pads.granted ∧ a.pads.granted.Nodup := by
  obtain ⟨k, a, hassembles, rfl, -⟩ := compose_eq_ok_iff.1 h
  have hwired := hassembles.wired
  refine ⟨hwired.netlist.complete, k, a, hassembles, rfl, ?_, hwired.once⟩
  rw [hwired.granted, List.append_nil]
  rfl

/-- A UDP stack on GMII pads that reads both of its addresses from pads. -/
theorem Config.compose_complete_gmii :
    let c : Config := ⟨⟨100000000⟩, ⟨.xilinx, "", .vivado⟩, .inferred .gmii, none,
      .udp ⟨none, none, 1234⟩, .empty⟩
    ∃ art log, c.compose = (.ok art, log) ∧ art.netlist.Complete ∧
      ∃ k a, c.Assembles k a ∧ art = a.artifact k c.core.kind ∧
        art.netlist.pads.map (fun b => b.key) = a.pads.granted ∧ a.pads.granted.Nodup := by
  intro c
  have hok : c.compose.1.isOk = true := by decide +kernel
  obtain ⟨⟨o, log⟩, h⟩ : ∃ x, c.compose = x := ⟨_, rfl⟩
  rw [h] at hok
  obtain ⟨art, rfl⟩ := Outcome.exists_of_isOk hok
  exact ⟨art, log, h, Config.compose_complete h⟩

end EtherCore
