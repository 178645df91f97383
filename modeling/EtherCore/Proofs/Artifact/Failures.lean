import EtherCore.Proofs.Artifact.Follows
import EtherCore.Proofs.Artifact.Joints
import EtherCore.Proofs.Bus.Exhausted
import EtherCore.Proofs.Phy.Resolved
import EtherCore.Proofs.Soc.Errors

/-!
The failures of a composition.  Of all that is done to compose a core, only what a plan tells can
fail (`Config.plan`): the choice of the PHY, its page of registers, and the region and the page of a
MAC.  No pad that is asked for was handed out before, no node takes the name of another, and every
field of a stream has its signal.
-/

namespace EtherCore

open Component

/-! ### Plans -/

/-- Takes the page of a PHY out of a system, if the PHY has registers. -/
def PhyKind.claim (k : PhyKind) (soc : Soc) : Outcome Soc :=
  if k.hasRegisters then do
    let r ← soc.csr.alloc phyName
    return { soc with csr := r.2 }
  else .ok soc

/-- What can fail when a PHY is built: the choice, and then its page. -/
def PhyChoice.plan (choice : PhyChoice) (soc : Soc) : Outcome (PhyKind × Soc) := do
  let k ← choice.resolve
  let soc' ← k.claim soc
  return (k, soc')

/-- The region that a MAC asks for. -/
def MacSettings.region (m : MacSettings) (soc : Soc) : Region :=
  .ofSlots m.receiveSlots m.transmitSlots slotSize (soc.memoryOrigin? macName)

/-- The size of the buffers of a MAC, in bytes. -/
def MacSettings.bytes (m : MacSettings) : Nat :=
  (m.receiveSlots.toNat + m.transmitSlots.toNat) * slotSize.toNat

theorem MacSettings.toNat_size_region (m : MacSettings) (soc : Soc) :
    (m.region soc).size.toNat = m.bytes := by
  have hreceive := m.receiveSlots.toNat_lt
  have htransmit := m.transmitSlots.toNat_lt
  have hle : m.bytes ≤ maxWord := by
    unfold bytes
    rw [show slotSize.toNat = 2048 from rfl, show maxWord = 0xffffffffffffffff from rfl]
    omega
  show (UInt64.ofNat (min m.bytes maxWord)).toNat = m.bytes
  rw [Nat.min_eq_left hle]
  exact toNat_ofNat_of_le hle

/-- What can fail when a core is built on a PHY: the region and then the page of a MAC. -/
def CoreSettings.plan (core : CoreSettings) (soc : Soc) : Outcome Unit :=
  match core with
  | .mac m => do
    let _ ← soc.bus.addSlave macName (m.region soc)
    let _ ← soc.csr.alloc macName
    return ()
  | .udp _ => .ok ()

/-- What can fail when a core is composed in a system. -/
def Config.plan (c : Config) (soc : Soc) : Outcome PhyKind := do
  let (k, soc') ← c.phy.plan soc
  c.core.plan soc'
  return k

/-! ### Names -/

/-- The names of the pads of all PHYs. -/
def PadFamily.padNames : List String :=
  ["mii_eth_clocks", "mii_eth", "rmii_eth_clocks", "rmii_eth", "gmii_eth_clocks", "gmii_eth",
    "rgmii_eth_clocks", "rgmii_eth"]

/-- The stems of the pads of all PHYs, those without signals included. -/
def PhyChoice.stems : List String := PadFamily.padNames ++ ["model_clock_pads", "model_pads"]

theorem PhyChoice.stem_pads (choice : PhyChoice) :
    choice.pads.1.stem ∈ stems ∧ choice.pads.2.stem ∈ stems ∧
      choice.pads.2.stem ≠ choice.pads.1.stem := by
  rcases choice with k | f
  · cases k <;> decide
  · cases f <;> decide

/-- The pads that a core may have been handed out once its PHY is built. -/
def Assembly.phyGranted : List String := ["sys_clock", "sys_reset"] ++ PadFamily.padNames

/-- The names that nodes of a core may have once its PHY is built. -/
def Assembly.phyNames : List String :=
  ["crg", "sys_clock", "sys_reset", "ethphy"] ++ PhyChoice.stems

namespace Assembly.Stock

open Step

variable {soc : Soc} {granted names : List String} {a : Assembly}

/-! ### Builders -/

theorem buildCrg (h : Stock soc [] [] a) (clock : Frequency) :
    (buildCrg clock).Succeeds a fun _ a' =>
      Stock soc ["sys_clock", "sys_reset"] ["crg", "sys_clock", "sys_reset"] a' := by
  unfold Step.buildCrg
  refine (h.addComponent crgName rfl List.not_mem_nil).bind fun crg a₁ ⟨_, h₁⟩ => ?_
  refine (h₁.attachPad rfl (by decide) (by decide) crg "clk").bind fun _ a₂ h₂ => ?_
  refine (h₂.attachPad rfl (by decide) (by decide) crg "rst").bind fun _ a₃ h₃ => ?_
  exact succeeds_pure h₃

theorem takePhyPads (h : Stock soc ["sys_clock", "sys_reset"] names a) (choice : PhyChoice) :
    (takePhyPads choice).Succeeds a fun b a' => b = choice.pads ∧
      Stock soc phyGranted names a' := by
  unfold Step.takePhyPads PhyChoice.pads
  cases choice.family? with
  | none =>
    exact succeeds_pure ⟨rfl, h.mono (List.subset_append_left _ _) (List.Subset.refl _)⟩
  | some f =>
    obtain ⟨c, d, hc, hd, -⟩ := f.phyPads
    have hclock : f.clockPads ∉ ["sys_clock", "sys_reset"] := by cases f <;> decide
    have hdata : f.dataPads ∉ ["sys_clock", "sys_reset"] ++ [f.clockPads] := by cases f <;> decide
    have hnames : ["sys_clock", "sys_reset"] ++ [f.clockPads] ++ [f.dataPads] ⊆ phyGranted := by
      cases f <;> decide
    refine (h.takePad hc hclock).bind fun b a₁ ⟨hb, _, h₁⟩ => ?_
    refine (h₁.takePad hd hdata).bind fun b' a₂ ⟨hb', _, h₂⟩ => ?_
    refine succeeds_pure ⟨?_, h₂.mono hnames (List.Subset.refl _)⟩
    dsimp only
    rw [hb, hb', hc, hd]
    rfl

theorem givePage (h : Stock soc granted names a) (k : PhyKind) (c : Component) :
    (givePage k c).Follows a (k.claim soc) fun soc' c' a' =>
      c'.name = c.name ∧ Stock soc' granted names a' := by
  unfold Step.givePage PhyKind.claim
  split
  · refine (h.takePage phyName).bind fun r p a₁ ⟨_, h₁⟩ => ?_
    exact follows_pure ⟨rfl, h₁⟩
  · exact follows_pure ⟨rfl, h⟩

theorem connectPhyPads (h : Stock soc granted ["crg", "sys_clock", "sys_reset", "ethphy"] a)
    (phy : Nat) (k : PhyKind) (choice : PhyChoice) :
    (connectPhyPads phy ⟨k, choice.pads.1, choice.pads.2⟩).Succeeds a fun _ a' =>
      Stock soc granted phyNames a' := by
  obtain ⟨hclock, hdata, hne⟩ := choice.stem_pads
  have hnew : ∀ s ∈ PhyChoice.stems, s ∉ ["crg", "sys_clock", "sys_reset", "ethphy"] := by decide
  have hdata' : choice.pads.2.stem
      ∉ ["crg", "sys_clock", "sys_reset", "ethphy"] ++ [choice.pads.1.stem] := by
    rw [List.mem_append, List.mem_singleton, not_or]
    exact ⟨hnew _ hdata, hne⟩
  unfold Step.connectPhyPads
  split
  · exact succeeds_pure (h.mono (List.Subset.refl _) (List.subset_append_left _ _))
  · refine (h.addPad (hnew _ hclock)).bind fun p a₁ ⟨hp, _, h₁⟩ => ?_
    refine (h₁.connectBundle hp phy "clock_pads").bind fun _ a₂ ⟨_, h₂⟩ => ?_
    refine (h₂.addPad hdata').bind fun q a₃ ⟨hq, _, h₃⟩ => ?_
    refine (h₃.connectBundle hq phy "pads").bind fun _ a₄ ⟨_, h₄⟩ => ?_
    refine succeeds_pure (h₄.mono (List.Subset.refl _) ?_)
    rw [phyNames, List.append_assoc]
    refine List.append_subset.2 ⟨List.subset_append_left _ _, ?_⟩
    refine List.subset_append_of_subset_right _ (List.cons_subset.2 ⟨hclock, ?_⟩)
    exact List.cons_subset.2 ⟨hdata, List.nil_subset _⟩

theorem buildPhy (h : Stock soc ["sys_clock", "sys_reset"] ["crg", "sys_clock", "sys_reset"] a)
    (c : Config) :
    (buildPhy c).Follows a (c.phy.plan soc) fun r v a' => v.1 = r.1 ∧
      Stock r.2 phyGranted phyNames a' := by
  unfold Step.buildPhy PhyChoice.plan
  refine (h.takePhyPads c.phy).follows fun b a₁ ⟨hb, h₁⟩ => ?_
  subst hb
  refine (follows_lift (Selection.of_standard c.phy)).bind fun k s a₂ ⟨hs, ha⟩ => ?_
  subst hs ha
  refine (h₁.givePage k _).bind fun soc' comp a₃ ⟨hcomp, h₃⟩ => ?_
  have hname : comp.name = phyName := by
    rw [hcomp]
    exact name_phy _ _ _
  refine (h₃.addComponent phyName hname (by decide)).follows fun phy a₄ ⟨_, h₄⟩ => ?_
  refine (h₄.connectPhyPads phy k c.phy).follows fun _ a₅ h₅ => ?_
  exact follows_pure ⟨rfl, h₅⟩

theorem bindPhy (h : Stock soc granted names a) (k : PhyKind) (phy core : Nat) :
    (bindPhy k phy core).Succeeds a fun _ a' => Stock soc granted names a' := by
  unfold Step.bindPhy
  refine (h.connect phy core _).bind fun _ a₁ ⟨_, h₁⟩ => ?_
  exact (h₁.connect core phy _).mono fun _ _ h₂ => h₂.2

theorem buildMac (h : Stock soc phyGranted phyNames a) (k : PhyKind) (phy : Nat)
    (m : MacSettings) :
    (buildMac k phy m).Follows a ((CoreSettings.mac m).plan soc) fun _ _ _ => True := by
  unfold Step.buildMac CoreSettings.plan
  have hget : (get : Step Assembly).Succeeds a fun v a' => v = a ∧ a' = a :=
    ⟨a, a, yields_get_iff.2 ⟨rfl, rfl⟩, rfl, rfl⟩
  refine hget.follows fun v a₁ ⟨hv, ha⟩ => ?_
  subst hv ha
  rw [show a₁.soc = soc from h.soc]
  refine (h.place macName (m.region soc)).bind fun r region a₂ ⟨_, h₂⟩ => ?_
  refine (h₂.takePage macName).bind fun w page a₃ ⟨_, h₃⟩ => ?_
  refine (h₃.addComponent macName rfl (by decide)).follows fun mac a₄ ⟨_, h₄⟩ => ?_
  refine (h₄.bindPhy k phy mac).follows fun _ a₅ h₅ => ?_
  refine (h₅.attachPad rfl (by decide) (by decide) mac "irq").follows fun _ a₆ h₆ => ?_
  exact follows_pure trivial

theorem attachAddress (h : Stock soc granted names a) {α : Type} {name : String} {d : PadDecl}
    (hd : PadDecl.standard? name = some d) (hfree : name ∉ granted) (hname : name ∉ names)
    (core : Nat) (address : Option α) :
    (attachAddress core name address).Succeeds a fun _ a' =>
      Stock soc (granted ++ [name]) (names ++ [name]) a' := by
  unfold Step.attachAddress
  split
  · refine (h.attachPad hd hfree hname core name).bind fun _ a₁ h₁ => ?_
    exact succeeds_pure h₁
  · exact succeeds_pure (h.mono (List.subset_append_left _ _) (List.subset_append_left _ _))

theorem buildUdp (h : Stock soc phyGranted phyNames a) (k : PhyKind) (phy : Nat) (u : UdpSettings)
    (clock : Frequency) :
    (buildUdp k phy u clock).Succeeds a fun _ _ => True := by
  unfold Step.buildUdp
  refine (h.addComponent stackName (name_udpStack k u clock) (by decide)).bind
    fun core a₁ ⟨_, h₁⟩ => ?_
  refine (h₁.bindPhy k phy core).bind fun _ a₂ h₂ => ?_
  refine (h₂.attachAddress rfl (by decide) (by decide) core u.mac).bind fun _ a₃ h₃ => ?_
  refine (h₃.attachAddress rfl (by decide) (by decide) core u.ip).bind fun _ a₄ h₄ => ?_
  refine (h₄.addComponent portName rfl (by decide)).bind fun port a₅ ⟨hport, h₅⟩ => ?_
  refine (h₅.connect core port _).bind fun _ a₆ ⟨hnodes, h₆⟩ => ?_
  have hport₆ : a₆.netlist.IsComponent port := by
    obtain ⟨comp, hcomp⟩ := hport
    exact ⟨comp, hnodes ▸ hcomp⟩
  refine (h₆.requestPad rfl (by decide) (by decide)).bind fun p a₇ ⟨hp, hkept₇, h₇⟩ => ?_
  refine (h₇.wireStream hp (hkept₇ _ hport₆) (by decide) "sink" .ingress).bind
    fun _ a₈ ⟨hkept₈, h₈⟩ => ?_
  have hport₈ := hkept₈ _ (hkept₇ _ hport₆)
  refine (h₈.requestPad rfl (by decide) (by decide)).bind fun q a₉ ⟨hq, hkept₉, h₉⟩ => ?_
  refine (h₉.wireStream hq (hkept₉ _ hport₈) (by decide) "source" .egress).bind
    fun _ a₁₀ _ => ?_
  exact succeeds_pure trivial

/-- Building a core goes as its plan does. -/
theorem build (h : Stock soc [] [] a) (c : Config) :
    (build c).Follows a (c.plan soc) fun k k' _ => k' = k := by
  unfold Step.build Config.plan
  refine (h.buildCrg c.clock).follows fun _ a₁ h₁ => ?_
  refine (h₁.buildPhy c).bind fun r v a₂ ⟨hv, h₂⟩ => ?_
  have hcore : (Step.buildCore v.1 v.2 c).Follows a₂ (c.core.plan r.2) fun _ _ _ => True := by
    unfold Step.buildCore
    cases c.core with
    | mac m => exact h₂.buildMac v.1 v.2 m
    | udp u => exact h₂.buildUdp v.1 v.2 u c.clock
  exact hcore.bind fun _ _ a₃ _ => follows_pure hv

end Assembly.Stock

end EtherCore
