import EtherCore.Bus.CsrWindow
import EtherCore.Pad.Basic
import EtherCore.Phy.Kind

/-!
The components of a core, each described by what has to be known to build it: its parameters, its
ports, the clock domains it owns, and its place on the bus.
-/

namespace EtherCore

/-! ### Kinds and parameters -/

/-- What a component is. -/
inductive ComponentKind where
  /-- The generator of clock and reset. -/
  | crg
  | phy (kind : PhyKind)
  /-- A MAC with buffers on the bus. -/
  | mac
  /-- A stack of UDP and IP. -/
  | udpStack
  /-- A port of a UDP stack. -/
  | udpPort
deriving DecidableEq

/-- The name of what a component is. -/
def ComponentKind.text : ComponentKind → String
  | .crg => "crg"
  | .phy k => "phy(" ++ k.name ++ ")"
  | .mac => "mac"
  | .udpStack => "udp_ip_core"
  | .udpPort => "udp_port"

/-- The value of a parameter. -/
inductive Parameter where
  | number (n : UInt64)
  | flag (b : Bool)
  | text (s : String)
deriving DecidableEq

namespace Parameter

/-- The number that a parameter is. -/
def number? : Parameter → Option UInt64
  | .number n => some n
  | _ => none

/-- The truth value that a parameter is. -/
def flag? : Parameter → Option Bool
  | .flag b => some b
  | _ => none

/-- The text that a parameter is. -/
def text? : Parameter → Option String
  | .text s => some s
  | _ => none

end Parameter

/-! ### Clock domains -/

/-- A clock domain of a component. -/
structure ClockDomain where
  name : String
  /-- The net of its clock. -/
  clock : String
  /-- Absent where the clock is not physical. -/
  frequency : Option Frequency
deriving DecidableEq

/-- The domain of a name, whose clock net has the name followed by `_clk`. -/
def ClockDomain.ofName (name : String) (frequency : Option Frequency) : ClockDomain :=
  ⟨name, name ++ "_clk", frequency⟩

/-! ### Components -/

/-- A component of a core. -/
structure Component where
  name : String
  kind : ComponentKind
  parameters : Table Parameter
  ports : List Signal
  domains : List ClockDomain
  /-- Its region on the bus. -/
  region : Option PlacedRegion
  /-- Its page of registers. -/
  page : Option CsrPage
  /-- Its interrupt. -/
  interrupt : Option UInt32
deriving DecidableEq

namespace Component

/-- A component without parameters, ports and domains. -/
def bare (name : String) (kind : ComponentKind) : Component :=
  ⟨name, kind, .empty, [], [], none, none, none⟩

/-- The component with a parameter, in place of one of its name. -/
def setParameter (c : Component) (name : String) (value : Parameter) : Component :=
  { c with parameters := c.parameters.insert name value }

/-- The component with a number as a parameter. -/
def setNumber (c : Component) (name : String) (n : UInt64) : Component :=
  c.setParameter name (.number n)

/-- Ports with one more, which takes the place of the first of its name. -/
def putPort (port : Signal) : List Signal → List Signal
  | [] => [port]
  | p :: ps => if p.name = port.name then port :: ps else p :: putPort port ps

/-- The component with a port, in place of one of its name. -/
def addPort (c : Component) (port : Signal) : Component :=
  { c with ports := putPort port c.ports }

/-- The component with several ports. -/
def addPorts (c : Component) (ports : List Signal) : Component := ports.foldl addPort c

/-- The component with one more clock domain. -/
def addDomain (c : Component) (d : ClockDomain) : Component :=
  { c with domains := c.domains ++ [d] }

/-- The value of a parameter. -/
def parameter? (c : Component) (name : String) : Option Parameter := c.parameters.get? name

/-- The port of a name. -/
def port? (c : Component) (name : String) : Option Signal := c.ports.find? fun p => p.name = name

/-- Tells whether a component owns a clock domain. -/
def ownsDomain (c : Component) (name : String) : Bool := c.domains.any fun d => d.name = name

theorem mem_putPort {port p : Signal} {ps : List Signal} (h : p ∈ putPort port ps) :
    p = port ∨ p ∈ ps := by
  induction ps with
  | nil => simpa [putPort] using h
  | cons q qs ih =>
    rw [putPort] at h
    split at h
    · rcases List.mem_cons.1 h with h | h
      · exact Or.inl h
      · exact Or.inr (List.mem_cons_of_mem _ h)
    · rcases List.mem_cons.1 h with h | h
      · exact Or.inr (h ▸ List.mem_cons_self)
      · exact (ih h).imp id (List.mem_cons_of_mem _)

end Component

end EtherCore
