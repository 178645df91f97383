import EtherCore.Artifact.Compose
import EtherCore.Proofs.Netlist.Joints
import EtherCore.Proofs.Pad.Grants
import EtherCore.Proofs.Phy.Inference

/-!
The joints of the components of a core, and of the pads that its PHY is connected to.  They are
those that the ports of a component ask for, and those that it promises to connections without
declaring a port.
-/

namespace EtherCore

open Netlist

/-! ### Joints of the components -/

namespace Joint

/-- The joints of a PHY for its two streams. -/
def phyStreams (k : PhyKind) : List Joint :=
  [⟨"source", k.dataWidth, true⟩, ⟨"sink", k.dataWidth, false⟩]

/-- The joints of what is built on a PHY for the two streams. -/
def coreStreams (k : PhyKind) : List Joint :=
  [⟨"phy_rx", k.dataWidth, false⟩, ⟨"phy_tx", k.dataWidth, true⟩]

/-- The joints of a PHY for its pads. -/
def phyPads (clockPads pads : Bundle) : List Joint :=
  clockPads.innerJoints "clock_pads" ++ pads.innerJoints "pads"

/-- The joint for an address, if it is read from pads. -/
def ofAddress {α : Type} (name : String) (width : UInt32) : Option α → List Joint
  | none => [⟨name, width, false⟩]
  | some _ => []

/-- The joints of a UDP stack, with the one for its port, which is not declared. -/
def udpStack (k : PhyKind) (u : UdpSettings) : List Joint :=
  coreStreams k ++ (ofAddress "mac_address" 48 u.mac
    ++ (ofAddress "ip_address" 32 u.ip ++ [⟨"crossbar", PadDecl.udpDataWidth, true⟩]))

/-- The joints of a UDP port for a stream. -/
def ofStream (b : Bundle) (d : StreamDirection) (endpoint : String) : List Joint :=
  (StreamField.udp.map (WiredField.ofField b d)).map (WiredField.innerJoint endpoint)

theorem nodup_udpStack (k : PhyKind) (u : UdpSettings) : ((udpStack k u).map port).Nodup := by
  rcases u with ⟨- | mac, - | ip, n⟩ <;> simp [udpStack, coreStreams, ofAddress]

end Joint

/-- The pads that feed a UDP port. -/
def PadDecl.udpSink : PadDecl := fields "udp_sink" 0 (udpStream .input .output)

/-- The pads that a UDP port feeds. -/
def PadDecl.udpSource : PadDecl := fields "udp_source" 0 (udpStream .output .input)

/-- The joints of a UDP port, none of which it declares before its streams are wired. -/
def Joint.udpPort : List Joint :=
  ⟨"crossbar", PadDecl.udpDataWidth, false⟩ ::
    (ofStream PadDecl.udpSink.bundle .ingress "sink"
      ++ ofStream PadDecl.udpSource.bundle .egress "source")

namespace Component

theorem joint?_padPort {b : Bundle} (hb : b.record = true) {lead : String} (hlead : lead ≠ "")
    {s : Signal} {j : Joint} (h : Signal.joint? { s with name := lead ++ "_" ++ s.name } = some j) :
    j = b.innerJoint lead s := by
  unfold Signal.joint? at h
  unfold Bundle.innerJoint localPort
  rw [if_neg hlead, if_pos hb]
  rcases s with ⟨name, width, - | - | -⟩ <;> cases h <;> rfl

theorem joints_phy_subset {s : Selection} {clock : Frequency} {delays : Option PhyDelays}
    (hclock : s.clockPads.record = true) (hpads : s.pads.record = true) :
    (phy s clock delays).joints
      ⊆ Joint.phyStreams s.kind ++ Joint.phyPads s.clockPads s.pads := by
  intro j hj
  obtain ⟨p, hp, hpj⟩ := List.mem_filterMap.1 hj
  have hports : p ∈ [⟨"source", s.kind.dataWidth, .output⟩, ⟨"sink", s.kind.dataWidth, .input⟩] ∨
      p ∈ padPorts "clock_pads" s.clockPads ++ padPorts "pads" s.pads := by
    unfold phy at hp
    dsimp only at hp
    split at hp <;> split at hp <;> exact mem_addPorts hp
  rcases hports with hp | hp
  · exact List.mem_append_left _ (List.mem_filterMap.2 ⟨p, hp, hpj⟩)
  · refine List.mem_append_right _ ?_
    rcases List.mem_append.1 hp with hp | hp
    · obtain ⟨t, ht, rfl⟩ := List.mem_map.1 hp
      rw [joint?_padPort hclock (by decide) hpj]
      exact List.mem_append_left _ (List.mem_map_of_mem ht)
    · obtain ⟨t, ht, rfl⟩ := List.mem_map.1 hp
      rw [joint?_padPort hpads (by decide) hpj]
      exact List.mem_append_right _ (List.mem_map_of_mem ht)

theorem name_phy (s : Selection) (clock : Frequency) (delays : Option PhyDelays) :
    (phy s clock delays).name = phyName := by
  unfold phy
  dsimp only
  split <;> split <;>
    simp only [setDelays, setNumber, setParameter, addDomain, name_addPorts] <;> rfl

theorem name_udpStack (k : PhyKind) (u : UdpSettings) (clock : Frequency) :
    (udpStack k u clock).name = stackName := by
  rcases u with ⟨- | mac, - | ip, port⟩ <;> rfl

theorem joints_udpStack_subset (k : PhyKind) (u : UdpSettings) (clock : Frequency) :
    (udpStack k u clock).joints ⊆ Joint.udpStack k u := by
  have hjoints : (udpStack k u clock).joints = Joint.coreStreams k
      ++ (Joint.ofAddress "mac_address" 48 u.mac ++ Joint.ofAddress "ip_address" 32 u.ip) := by
    rcases u with ⟨- | mac, - | ip, port⟩ <;> rfl
  rw [hjoints]
  simpa only [Joint.udpStack, List.append_assoc] using List.subset_append_left
    (Joint.coreStreams k ++ (Joint.ofAddress "mac_address" 48 u.mac
      ++ Joint.ofAddress "ip_address" 32 u.ip)) [⟨"crossbar", PadDecl.udpDataWidth, true⟩]

end Component

/-! ### The PHY and its pads -/

theorem Selection.of_eq_ok {choice : PhyChoice} {clockPads pads : Bundle} {s : Selection}
    (h : Selection.of choice.named? clockPads pads = .ok s) :
    s.clockPads = clockPads ∧ s.pads = pads ∧ (s.kind = .model ↔ choice.family? = none) := by
  cases choice with
  | named k =>
    obtain ⟨-, rfl⟩ := of_some_eq_ok_iff.1 h
    refine ⟨rfl, rfl, ?_⟩
    cases k <;> simp [PhyChoice.family?, PhyKind.family?]
  | inferred f =>
    obtain ⟨k, hk, rfl⟩ := Outcome.map_eq_ok_iff.1 h
    exact ⟨rfl, rfl, by simp [PhyChoice.family?, PhyKind.infer_ne_model hk]⟩

/-- Pads of a PHY whose signals have ports of their own, at the pads and at the PHY. -/
structure PhyPads (clockPads pads : Bundle) : Prop where
  clockRecord : clockPads.record = true
  record : pads.record = true
  clockPorts : (clockPads.joints.map Joint.port).Nodup
  ports : (pads.joints.map Joint.port).Nodup
  innerPorts : ("source" :: "sink" :: (Joint.phyPads clockPads pads).map Joint.port).Nodup

theorem PhyPads.empty (clockName name : String) : PhyPads (.empty clockName) (.empty name) :=
  ⟨rfl, rfl, List.nodup_nil, List.nodup_nil, by
    show ["source", "sink"].Nodup
    decide⟩

theorem PadFamily.phyPads (f : PadFamily) :
    ∃ c d, PadDecl.standard? f.clockPads = some c ∧ PadDecl.standard? f.dataPads = some d ∧
      PhyPads c.bundle d.bundle := by
  cases f
  all_goals exact ⟨_, _, rfl, rfl, rfl, rfl, by decide, by decide, by decide⟩

end EtherCore
