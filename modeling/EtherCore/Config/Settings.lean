import EtherCore.Document.Value
import EtherCore.Frequency
import EtherCore.Ipv4
import EtherCore.MacAddress
import EtherCore.Phy.Kind
import EtherCore.Soc.Maps

/-!
The settings of a core: its clock and platform, how its PHY is chosen, what is built on the PHY,
and the options of the system on chip around it.
-/

namespace EtherCore

/-! ### PHY -/

/-- How the PHY of a core is chosen. -/
inductive PhyChoice where
  /-- The PHY is named. -/
  | named (kind : PhyKind)
  /-- The PHY is inferred from the pads of a family. -/
  | inferred (family : PadFamily)
deriving DecidableEq

namespace PhyChoice

/-- The PHY that is named. -/
def named? : PhyChoice → Option PhyKind
  | .named k => some k
  | .inferred _ => none

/-- The pads that the PHY is built on; the model has none. -/
def family? : PhyChoice → Option PadFamily
  | .named k => k.family?
  | .inferred f => some f

end PhyChoice

/-- The delays of the clocks of an RGMII PHY in nanoseconds. -/
structure PhyDelays where
  transmit : UInt32
  receive : UInt32
deriving DecidableEq

/-- The delay of a clock where none is given. -/
def PhyDelays.standard : UInt32 := 2

/-! ### Cores -/

/-- What can be built on a PHY. -/
inductive CoreKind where
  /-- A MAC with buffers on the bus. -/
  | mac
  /-- A UDP stack with streams. -/
  | udp
deriving DecidableEq

namespace CoreKind

/-- The name of a core. -/
def name : CoreKind → String
  | .mac => "mac"
  | .udp => "udp"

/-- The core of a name. -/
def ofName (s : String) : Outcome CoreKind :=
  match optionName s with
  | "mac" | "wishbone" => .ok .mac
  | "udp" => .ok .udp
  | _ => .error (.notFound .core s)

end CoreKind

/-- The order of bytes in the buffers of a MAC. -/
inductive Endianness where
  | big
  | little
deriving DecidableEq

/-- The name of a byte order. -/
def Endianness.name : Endianness → String
  | .big => "big"
  | .little => "little"

/-- The settings of a MAC. -/
structure MacSettings where
  receiveSlots : UInt32
  transmitSlots : UInt32
  /-- Whether the buffers are written in whole words only. -/
  wideWrites : Bool
  endianness : Endianness
deriving DecidableEq

/-- The number of buffers in either direction where none is given. -/
def MacSettings.standardSlots : UInt32 := 2

/-- The settings of a UDP stack; an address that is not given is read from pads. -/
structure UdpSettings where
  mac : Option MacAddress
  ip : Option Ipv4
  port : UInt16
deriving DecidableEq

/-- The settings of the core on the PHY. -/
inductive CoreSettings where
  | mac (settings : MacSettings)
  | udp (settings : UdpSettings)
deriving DecidableEq

/-- The kind of core that settings are for. -/
def CoreSettings.kind : CoreSettings → CoreKind
  | .mac _ => .mac
  | .udp _ => .udp

/-! ### Configurations -/

/-- The options of the system on chip. -/
structure SocOptions where
  /-- Arguments passed on as they are. -/
  args : Table Value
  maps : SocMaps

/-- The options where none are given. -/
def SocOptions.empty : SocOptions := ⟨.empty, .empty⟩

/-- The configuration of a core. -/
structure Config where
  clock : Frequency
  platform : Platform
  phy : PhyChoice
  /-- The delays of a named RGMII PHY. -/
  delays : Option PhyDelays
  core : CoreSettings
  soc : SocOptions

end EtherCore
