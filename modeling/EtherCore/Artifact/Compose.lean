import EtherCore.Artifact.Assembly
import EtherCore.Artifact.Basic
import EtherCore.Config.Settings
import EtherCore.Diagnostic
import EtherCore.Phy.Selection

/-!
Putting a core together: the generator of clock and reset, the PHY, and then the MAC or the UDP
stack on it.
-/

namespace EtherCore

/-! ### Names and sizes -/

namespace Component

/-- The name of the generator of clock and reset. -/
def crgName : String := "crg"

/-- The name of the PHY. -/
def phyName : String := "ethphy"

/-- The name of the MAC, of its region and of its page. -/
def macName : String := "ethmac"

/-- The name of the UDP stack. -/
def stackName : String := "ethcore"

/-- The name of the port of the UDP stack. -/
def portName : String := "udp_port"

end Component

/-- The bytes of a buffer: the power of two above the largest frame of 1530 bytes. -/
def slotSize : UInt64 := 2048

/-- The width of the bus side of the MAC. -/
def macDataWidth : UInt32 := 32

/-- The depth of the queue of a UDP port. -/
def udpPortDepth : UInt32 := 8

namespace Component

/-! ### Components -/

/-- The generator of clock and reset. -/
def crg (clock : Frequency) : Component :=
  ((bare crgName .crg).setNumber "clk_freq" clock.hertz).addPorts
      [⟨"clk", 1, .input⟩, ⟨"rst", 1, .input⟩]
    |>.addDomain (.ofName "sys" (some clock))

/-- The ports of a PHY for the signals of a pad, under a leading name. -/
def padPorts (lead : String) (b : Bundle) : List Signal :=
  b.signals.map fun s => { s with name := lead ++ "_" ++ s.name }

/-- The parameters of the delays of a PHY. -/
def setDelays (c : Component) (d : PhyDelays) : Component :=
  ((c.setNumber "tx_delay_ns" d.transmit.toUInt64).setNumber "rx_delay_ns"
    d.receive.toUInt64).setParameter "with_hw_init_reset" (.flag false)

/-- The PHY on its pads, without a page. -/
def phy (s : Selection) (clock : Frequency) (delays : Option PhyDelays) : Component :=
  let width := s.kind.dataWidth
  let c := ((((bare phyName (.phy s.kind)).setNumber "dw" width.toUInt64).addPorts
      [⟨"source", width, .output⟩, ⟨"sink", width, .input⟩]).addDomain
        (.ofName "eth_rx" s.kind.lineClock?)).addDomain (.ofName "eth_tx" s.kind.lineClock?)
  let c := c.addPorts (padPorts "clock_pads" s.clockPads ++ padPorts "pads" s.pads)
  let c := if s.kind.needsSystemClock then c.setNumber "clk_freq" clock.hertz else c
  if s.kind.usesDelays then
    c.setDelays (delays.getD ⟨PhyDelays.standard, PhyDelays.standard⟩)
  else c

/-- The ports of what is built on a PHY for its two streams. -/
def phyPorts (k : PhyKind) : List Signal :=
  [⟨"phy_rx", k.dataWidth, .input⟩, ⟨"phy_tx", k.dataWidth, .output⟩]

/-- The MAC with its region, its page and its interrupt. -/
def mac (k : PhyKind) (m : MacSettings) (region : PlacedRegion) (page : CsrPage)
    (interrupt : Option UInt32) : Component :=
  let c := (bare macName .mac).setNumber "dw" macDataWidth.toUInt64
    |>.setParameter "interface" (.text "wishbone")
    |>.setParameter "endianness" (.text m.endianness.name)
    |>.setParameter "with_preamble_crc" (.flag true)
    |>.setNumber "nrxslots" m.receiveSlots.toUInt64
    |>.setNumber "ntxslots" m.transmitSlots.toUInt64
    |>.setParameter "full_memory_we" (.flag m.wideWrites)
    |>.addPorts (phyPorts k ++ [⟨"bus", macDataWidth, .inout⟩, ⟨"irq", 1, .output⟩])
  { c with interrupt := interrupt, page := some page, region := some region }

/-- A component with an address as a parameter, or with a port where the address is read from
pads. -/
def setAddress (c : Component) (name : String) (width : UInt32) (address : Option UInt64) :
    Component :=
  match address with
  | some a => c.setNumber name a
  | none => c.addPort ⟨name, width, .input⟩

/-- The UDP stack. -/
def udpStack (k : PhyKind) (u : UdpSettings) (clock : Frequency) : Component :=
  (((bare stackName .udpStack).setNumber "clk_freq" clock.hertz).addPorts (phyPorts k)).setAddress
      "mac_address" 48 (u.mac.map MacAddress.toWord)
    |>.setAddress "ip_address" 32 (u.ip.map fun a => a.value.toUInt64)

/-- The port of the UDP stack, before its streams are wired. -/
def udpPort (port : UInt16) : Component :=
  (((bare portName .udpPort).setNumber "port" port.toUInt64).setNumber "depth"
    udpPortDepth.toUInt64).setNumber "dw" PadDecl.udpDataWidth.toUInt64

end Component

/-! ### Steps -/

namespace Assembly.Step

/-- Builds the generator of clock and reset. -/
def buildCrg (clock : Frequency) : Step Unit := do
  let crg ← addComponent (.crg clock)
  let _ ← attachPad crg "sys_clock" "clk"
  let _ ← attachPad crg "sys_reset" "rst"

/-- Hands out the clock pads and the data pads of the PHY; the model has none. -/
def takePhyPads (phy : PhyChoice) : Step (Bundle × Bundle) := do
  match phy.family? with
  | some f =>
    let clockPads ← takePad f.clockPads none
    let pads ← takePad f.dataPads none
    return (clockPads, pads)
  | none => return (.empty "model_clock_pads", .empty "model_pads")

/-- Gives a PHY its page of registers, if it has registers. -/
def givePage (k : PhyKind) (c : Component) : Step Component := do
  if k.hasRegisters then
    let page ← takePage Component.phyName
    return { c with page := some page }
  return c

/-- Adds the pads of a PHY and connects them. -/
def connectPhyPads (phy : Nat) (s : Selection) : Step Unit := do
  if s.kind.isModel then return
  let clockPads ← addPad s.clockPads
  let _ ← connectBundle phy clockPads "clock_pads"
  let pads ← addPad s.pads
  let _ ← connectBundle phy pads "pads"

/-- Builds the PHY, and gives its kind and its number. -/
def buildPhy (c : Config) : Step (PhyKind × Nat) := do
  let (clockPads, pads) ← takePhyPads c.phy
  let s ← (Selection.of c.phy.named? clockPads pads : Outcome Selection)
  let phy ← addComponent (← givePage s.kind (.phy s c.clock c.delays))
  connectPhyPads phy s
  return (s.kind, phy)

/-- Connects the streams of the PHY to what is built on it. -/
def bindPhy (k : PhyKind) (phy core : Nat) : Step Unit := do
  connect phy core ⟨"source", "phy_rx", k.dataWidth⟩
  connect core phy ⟨"phy_tx", "sink", k.dataWidth⟩

/-- Builds the MAC, with its buffers on the bus. -/
def buildMac (k : PhyKind) (phy : Nat) (m : MacSettings) : Step Unit := do
  let soc := (← get).soc
  let region ← place Component.macName
    (.ofSlots m.receiveSlots m.transmitSlots slotSize (soc.memoryOrigin? Component.macName))
  let page ← takePage Component.macName
  let mac ← addComponent (.mac k m region page (soc.interrupt? Component.macName))
  bindPhy k phy mac
  let _ ← attachPad mac "interrupt" "irq"

/-- Attaches the pads from which an address is read, if it is not given. -/
def attachAddress {α : Type} (core : Nat) (name : String) (address : Option α) : Step Unit := do
  if address.isNone then
    let _ ← attachPad core name name

/-- Builds the UDP stack and its port. -/
def buildUdp (k : PhyKind) (phy : Nat) (u : UdpSettings) (clock : Frequency) : Step Unit := do
  let core ← addComponent (.udpStack k u clock)
  bindPhy k phy core
  attachAddress core "mac_address" u.mac
  attachAddress core "ip_address" u.ip
  let port ← addComponent (.udpPort u.port)
  connect core port ⟨"crossbar", "crossbar", PadDecl.udpDataWidth⟩
  let sink ← requestPad "udp_sink"
  let _ ← wireStream port "sink" sink .ingress StreamField.udp
  let source ← requestPad "udp_source"
  let _ ← wireStream port "source" source .egress StreamField.udp

/-- Builds the core on the PHY. -/
def buildCore (k : PhyKind) (phy : Nat) (c : Config) : Step Unit :=
  match c.core with
  | .mac m => buildMac k phy m
  | .udp u => buildUdp k phy u c.clock

/-- Builds everything, and gives the kind of the PHY. -/
def build (c : Config) : Step PhyKind := do
  buildCrg c.clock
  let (k, phy) ← buildPhy c
  buildCore k phy c
  return k

end Assembly.Step

/-! ### Artifacts -/

/-- The note about a PHY without clocks. -/
def constraintLog (k : PhyKind) : Log :=
  if (ConstraintSet.ofPhy k).isEmpty then
    [(Diagnostic.note .constraintsSkipped
      (k.name ++ " has no physical clocks, no timing constraints emitted")).about
        Component.phyName]
  else []

/-- The artifact of a core that is put together. -/
def Assembly.artifact (a : Assembly) (k : PhyKind) (core : CoreKind) : Artifact :=
  ⟨a.soc.platform, k, core, a.netlist, a.soc.bus, a.soc.csr, a.soc.maps.interrupt, .ofPhy k⟩

/-- The core of a configuration, and the findings. -/
def Config.compose (c : Config) : Outcome Artifact × Log :=
  match Soc.build c.platform c.clock c.soc.args c.soc.maps with
  | .error e => (.error e, [])
  | .ok soc =>
    match (Assembly.Step.build c).run (Assembly.start soc) with
    | (.error e, _) => (.error e, [])
    | (.ok k, a) => (.ok (a.artifact k c.core.kind), constraintLog k)

end EtherCore
