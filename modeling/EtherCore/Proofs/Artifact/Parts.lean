import EtherCore.Proofs.Artifact.FailureSet
import EtherCore.Proofs.Netlist.Parts

/-!
The parts of a core that is composed, and the system that is left around it.  Most steps leave the
system alone (`Assembly.Gains`); the pages and the region that the others take out of it are those
of the PHY and of the MAC (`Config.Built`).
-/

namespace EtherCore

open Component Netlist

namespace Assembly

open Step

/-! ### Steps that leave the system alone -/

/-- An assembly goes on from another with more parts, in the same system. -/
structure Gains (ps : List Component) (a a' : Assembly) : Prop where
  parts : a'.netlist.parts = a.netlist.parts ++ ps
  soc : a'.soc = a.soc

namespace Gains

variable {a a' a'' : Assembly} {ps qs : List Component}

theorem refl (a : Assembly) : a.Gains [] a := ⟨(List.append_nil _).symm, rfl⟩

theorem trans (h : a.Gains ps a') (h' : a'.Gains qs a'') : a.Gains (ps ++ qs) a'' :=
  ⟨by rw [h'.parts, h.parts, List.append_assoc], h'.soc.trans h.soc⟩

theorem of_onNetlist {α : Type} {f : Netlist → Outcome (α × Netlist)} {v : α}
    (hparts : ∀ n n' : Netlist, f n = .ok (v, n') → n'.parts = n.parts ++ ps)
    (hstep : (onNetlist f).Yields a v a') : a.Gains ps a' := by
  obtain ⟨n, hn, rfl⟩ := yields_onNetlist_iff.1 hstep
  exact ⟨hparts _ _ hn, rfl⟩

theorem addComponent {c : Component} {i : Nat} (hstep : (addComponent c).Yields a i a') :
    a.Gains [c.part] a' := of_onNetlist (fun _ _ h => parts_addComponent h) hstep

theorem addPad {b : Bundle} {i : Nat} (hstep : (addPad b).Yields a i a') : a.Gains [] a' :=
  of_onNetlist (fun _ _ h => by rw [parts_addPad h, List.append_nil]) hstep

theorem connect {driver receiver : Nat} {c : Connection} {u : Unit}
    (hstep : (connect driver receiver c).Yields a u a') : a.Gains [] a' := by
  obtain rfl := yields_connect_iff.1 hstep
  exact ⟨(List.append_nil _).symm, rfl⟩

theorem connectBundle {c p k : Nat} {lead : String}
    (hstep : (connectBundle c p lead).Yields a k a') : a.Gains [] a' :=
  of_onNetlist (fun _ _ h => by rw [parts_connectBundle h, List.append_nil]) hstep

theorem wireStream {c p k : Nat} {endpoint : String} {d : StreamDirection}
    {fields : List StreamField} (hstep : (wireStream c endpoint p d fields).Yields a k a') :
    a.Gains [] a' :=
  of_onNetlist (fun _ _ h => by rw [parts_wireStream h, List.append_nil]) hstep

theorem takePad {name : String} {index : Option UInt32} {b : Bundle}
    (hstep : (takePad name index).Yields a b a') : a.Gains [] a' := by
  obtain ⟨pads, -, rfl⟩ := yields_takePad_iff.1 hstep
  exact ⟨(List.append_nil _).symm, rfl⟩

theorem requestPad {name : String} {p : Nat} (hstep : (requestPad name).Yields a p a') :
    a.Gains [] a' := by
  obtain ⟨b, a₁, htake, hadd⟩ := yields_bind_iff.1 hstep
  exact (takePad htake).trans (addPad hadd)

theorem attachPad {c p : Nat} {name lead : String} (hstep : (attachPad c name lead).Yields a p a') :
    a.Gains [] a' := by
  obtain ⟨b, a₁, a₂, k, htake, hadd, hconnect⟩ := yields_attachPad_iff.1 hstep
  exact ((takePad htake).trans (addPad hadd)).trans (connectBundle hconnect)

theorem attachAddress {α : Type} {core : Nat} {name : String} {address : Option α} {u : Unit}
    (hstep : (attachAddress core name address).Yields a u a') : a.Gains [] a' := by
  unfold Step.attachAddress at hstep
  split at hstep
  · simp only [yields_bind_iff, yields_pure_iff] at hstep
    obtain ⟨p, a₁, hpad, -, rfl⟩ := hstep
    exact attachPad hpad
  · obtain ⟨-, rfl⟩ := yields_pure_iff.1 hstep
    exact refl a

theorem buildCrg {clock : Frequency} {u : Unit} (hstep : (buildCrg clock).Yields a u a') :
    a.Gains [(Component.crg clock).part] a' := by
  simp only [Step.buildCrg, yields_bind_iff, yields_pure_iff] at hstep
  obtain ⟨crg, a₁, hcrg, _, a₂, hclock, _, a₃, hreset, -, rfl⟩ := hstep
  exact ((addComponent hcrg).trans (attachPad hclock)).trans (attachPad hreset)

theorem takePhyPads {phy : PhyChoice} {b : Bundle × Bundle}
    (hstep : (takePhyPads phy).Yields a b a') : a.Gains [] a' := by
  unfold Step.takePhyPads at hstep
  split at hstep
  · simp only [yields_bind_iff, yields_pure_iff] at hstep
    obtain ⟨clockPads, a₁, hclock, pads, a₂, hpads, rfl, rfl⟩ := hstep
    exact (takePad hclock).trans (takePad hpads)
  · obtain ⟨rfl, rfl⟩ := yields_pure_iff.1 hstep
    exact refl a

theorem connectPhyPads {phy : Nat} {s : Selection} {u : Unit}
    (hstep : (connectPhyPads phy s).Yields a u a') : a.Gains [] a' := by
  unfold Step.connectPhyPads at hstep
  split at hstep
  · obtain ⟨-, rfl⟩ := yields_pure_iff.1 hstep
    exact refl a
  · simp only [yields_bind_iff, yields_pure_iff] at hstep
    obtain ⟨p, a₁, hp, k, a₂, hk, q, a₃, hq, l, a₄, hl, -, rfl⟩ := hstep
    exact (((addPad hp).trans (connectBundle hk)).trans (addPad hq)).trans (connectBundle hl)

theorem bindPhy {k : PhyKind} {phy core : Nat} {u : Unit}
    (hstep : (bindPhy k phy core).Yields a u a') : a.Gains [] a' := by
  simp only [Step.bindPhy, yields_bind_iff] at hstep
  obtain ⟨_, a₁, hrx, htx⟩ := hstep
  exact (connect hrx).trans (connect htx)

theorem buildUdp {k : PhyKind} {phy : Nat} {u : UdpSettings} {clock : Frequency} {v : Unit}
    (hstep : (buildUdp k phy u clock).Yields a v a') :
    a.Gains [(Component.udpStack k u clock).part, (Component.udpPort u.port).part] a' := by
  simp only [Step.buildUdp, yields_bind_iff, yields_pure_iff] at hstep
  obtain ⟨core, a₁, hcore, _, a₂, hbind, _, a₃, hmac, _, a₄, hip, port, a₅, hport, _, a₆, hcross,
    p, a₇, hsink, _, a₈, hsink', q, a₉, hsource, _, a₁₀, hsource', -, rfl⟩ := hstep
  have hstack : a.Gains [(Component.udpStack k u clock).part] a₄ :=
    (((addComponent hcore).trans (bindPhy hbind)).trans (attachAddress hmac)).trans
      (attachAddress hip)
  have hstreams : a₅.Gains [] a₁₀ :=
    ((((connect hcross).trans (requestPad hsink)).trans (wireStream hsink')).trans
      (requestPad hsource)).trans (wireStream hsource')
  exact (hstack.trans (addComponent hport)).trans hstreams

end Gains

end Assembly

/-! ### What the PHY and the MAC take out of the system -/

/-- A PHY with registers takes a page out of a window, and one without takes none. -/
def PhyKind.Takes (k : PhyKind) (w : CsrWindow) (page : Option CsrPage) (w' : CsrWindow) : Prop :=
  match page with
  | some p => k.hasRegisters = true ∧ w.alloc phyName = .ok (p, w')
  | none => k.hasRegisters = false ∧ w' = w

/-- The part that is the PHY of a configuration. -/
def Config.phyPart (c : Config) (s : Selection) (page : Option CsrPage) : Component :=
  { (Component.phy s c.clock c.delays).part with page := page }

theorem Component.kind_phy (s : Selection) (clock : Frequency) (delays : Option PhyDelays) :
    (Component.phy s clock delays).kind = .phy s.kind := by
  unfold phy
  dsimp only
  split <;> split <;>
    simp only [setDelays, setNumber, setParameter, addDomain, kind_addPorts] <;> rfl

theorem Component.page_phy (s : Selection) (clock : Frequency) (delays : Option PhyDelays) :
    (Component.phy s clock delays).page = none := by
  unfold phy
  dsimp only
  split <;> split <;>
    simp only [setDelays, setNumber, setParameter, addDomain, page_addPorts] <;> rfl

namespace Assembly

open Step

variable {a a' : Assembly}

theorem parts_givePage {k : PhyKind} {c c' : Component} (hc : c.page = none)
    (hstep : (givePage k c).Yields a c' a') :
    ∃ page csr, k.Takes a.soc.csr page csr ∧ c'.part = { c.part with page := page } ∧
      a'.netlist = a.netlist ∧ a'.soc = { a.soc with csr := csr } := by
  unfold Step.givePage at hstep
  split at hstep
  · next hk =>
    simp only [yields_bind_iff, yields_pure_iff] at hstep
    obtain ⟨page, a₁, hpage, rfl, rfl⟩ := hstep
    obtain ⟨csr, hcsr, rfl⟩ := yields_takePage_iff.1 hpage
    exact ⟨some page, csr, ⟨hk, hcsr⟩, rfl, rfl, rfl⟩
  · next hk =>
    obtain ⟨rfl, rfl⟩ := yields_pure_iff.1 hstep
    refine ⟨none, a.soc.csr, ⟨by simpa using hk, rfl⟩, ?_, rfl, rfl⟩
    rw [← hc]
    rfl

theorem parts_buildPhy {c : Config} {k : PhyKind} {phy : Nat}
    (hstep : (buildPhy c).Yields a (k, phy) a') :
    ∃ s page csr, s.kind = k ∧ k.Takes a.soc.csr page csr ∧
      a'.netlist.parts = a.netlist.parts ++ [c.phyPart s page] ∧
      a'.soc = { a.soc with csr := csr } := by
  simp only [Step.buildPhy, yields_bind_iff, yields_pure_iff, yields_lift_iff] at hstep
  obtain ⟨b, a₁, htake, s, _, ⟨hs, rfl⟩, comp, a₂, hpage, i, a₃, hadd, u, a₄, hconnect, hk,
    rfl⟩ := hstep
  obtain ⟨rfl, rfl⟩ := Prod.mk.inj hk
  have h₁ := Gains.takePhyPads htake
  obtain ⟨page, csr, htakes, hcomp, hnetlist, hsoc⟩ := parts_givePage (page_phy _ _ _) hpage
  have h₂ := (Gains.addComponent hadd).trans (Gains.connectPhyPads hconnect)
  refine ⟨s, page, csr, rfl, h₁.soc ▸ htakes, ?_, ?_⟩
  · rw [h₂.parts, hnetlist, h₁.parts, hcomp, List.append_nil, List.append_nil]
    rfl
  · rw [h₂.soc, hsoc, h₁.soc]

theorem parts_buildMac {k : PhyKind} {phy : Nat} {m : MacSettings} {u : Unit}
    (hstep : (buildMac k phy m).Yields a u a') :
    ∃ r bus p csr, a.soc.bus.addSlave macName (m.region a.soc) = .ok (r, bus) ∧
      a.soc.csr.alloc macName = .ok (p, csr) ∧
      a'.netlist.parts = a.netlist.parts
        ++ [(Component.mac k m r p (a.soc.interrupt? macName)).part] ∧
      a'.soc = { a.soc with bus := bus, csr := csr } := by
  simp only [Step.buildMac, yields_bind_iff, yields_pure_iff, yields_get_iff] at hstep
  obtain ⟨_, _, ⟨rfl, rfl⟩, r, a₁, hplace, p, a₂, hpage, mac, a₃, hadd, _, a₄, hbind,
    q, a₅, hirq, -, rfl⟩ := hstep
  obtain ⟨bus, hbus, rfl⟩ := yields_place_iff.1 hplace
  obtain ⟨csr, hcsr, rfl⟩ := yields_takePage_iff.1 hpage
  have h := ((Gains.addComponent hadd).trans (Gains.bindPhy hbind)).trans (Gains.attachPad hirq)
  exact ⟨r, bus, p, csr, hbus, hcsr, h.parts, h.soc⟩

end Assembly

/-! ### Parts of a core -/

/-- The parts of a core that is composed in a system on a PHY, and the system that is left: of the
pages and regions, the PHY has its page, and a MAC its page and its region. -/
inductive Config.Built (c : Config) (soc : Soc) (k : PhyKind) : List Component → Soc → Prop
  | mac {m : MacSettings} {s : Selection} {page : Option CsrPage} {w w' : CsrWindow}
    {r : PlacedRegion} {bus : AddressMap} {p : CsrPage} (hcore : c.core = .mac m)
    (hkind : s.kind = k) (htakes : k.Takes soc.csr page w)
    (hregion : soc.bus.addSlave macName (m.region soc) = .ok (r, bus))
    (hpage : w.alloc macName = .ok (p, w')) :
    c.Built soc k [(Component.crg c.clock).part, c.phyPart s page,
      (Component.mac k m r p (soc.interrupt? macName)).part] { soc with bus := bus, csr := w' }
  | udp {u : UdpSettings} {s : Selection} {page : Option CsrPage} {w : CsrWindow}
    (hcore : c.core = .udp u) (hkind : s.kind = k) (htakes : k.Takes soc.csr page w) :
    c.Built soc k [(Component.crg c.clock).part, c.phyPart s page,
      (Component.udpStack k u c.clock).part, (Component.udpPort u.port).part]
      { soc with csr := w }

theorem Assembly.built_build {c : Config} {soc : Soc} {k : PhyKind} {a : Assembly}
    (hstep : (Step.build c).Yields (.start soc) k a) : c.Built soc k a.netlist.parts a.soc := by
  simp only [Step.build, Step.yields_bind_iff, Step.yields_pure_iff] at hstep
  obtain ⟨_, a₁, hcrg, ⟨k', phy⟩, a₂, hphy, _, a₃, hcore, rfl, rfl⟩ := hstep
  have h₁ := Gains.buildCrg hcrg
  obtain ⟨s, page, w, hkind, htakes, hparts, hsoc⟩ := parts_buildPhy hphy
  rw [h₁.parts] at hparts
  rw [h₁.soc] at htakes hsoc
  unfold Step.buildCore at hcore
  split at hcore
  · next m hm =>
    obtain ⟨r, bus, p, w', hregion, hpage, hparts', hsoc'⟩ := parts_buildMac hcore
    rw [hparts, hsoc] at hparts'
    rw [hsoc] at hregion hpage hsoc'
    rw [hparts', hsoc']
    exact .mac hm hkind htakes hregion hpage
  · next u hu =>
    have h := Gains.buildUdp hcore
    rw [h.parts, h.soc, hparts, hsoc]
    exact .udp hu hkind htakes

end EtherCore
