import EtherCore.Artifact.Basic
import EtherCore.Json

/-!
The parts of an artifact as JSON values.
-/

namespace EtherCore

/-! ### Words and tables -/

/-- A number of 64 bits. -/
def Json.ofWord (n : UInt64) : Json := .number n.toNat

/-- A number of 32 bits. -/
def Json.ofHalf (n : UInt32) : Json := .number n.toNat

/-- A list of values. -/
def Json.ofList {α : Type} (f : α → Json) (xs : List α) : Json := .array (xs.map f)

/-- A table as an object, its names in ascending order. -/
def Json.ofTable {α : Type} (f : α → Json) (t : Table α) : Json :=
  .object (t.entries.map fun e => (e.1, f e.2))

/-! ### Platform, pads and bus -/

/-- A platform as an object. -/
def Platform.json (p : Platform) : Json :=
  .object [("vendor", .string p.vendor.name), ("device", .string p.device),
    ("toolchain", .string p.toolchain.name)]

/-- A signal as an object. -/
def Signal.json (s : Signal) : Json :=
  .object [("name", .string s.name), ("width", .ofHalf s.width),
    ("direction", .string s.direction.text)]

/-- The fields of a pad declaration. -/
def PadDecl.jsonFields (d : PadDecl) : List (String × Json) :=
  [("name", .string d.name), ("index", .ofHalf d.index), ("signals", .ofList Signal.json d.signals),
    ("record", .boolean d.record)]

/-- A pad declaration as an object. -/
def PadDecl.json (d : PadDecl) : Json := .object d.jsonFields

/-- The fields of a bundle. -/
def Bundle.jsonFields (b : Bundle) : List (String × Json) :=
  b.toPadDecl.jsonFields ++ [("port_prefix", .string b.stem)]

/-- A bundle as an object. -/
def Bundle.json (b : Bundle) : Json := .object b.jsonFields

/-- A region that is asked for, as an object. -/
def Region.json (r : Region) : Json :=
  .object [("origin", .ofOption .ofWord r.origin), ("size", .ofWord r.size),
    ("cached", .boolean r.cached)]

/-- A region at its place as an object. -/
def PlacedRegion.json (r : PlacedRegion) : Json :=
  .object [("name", .string r.name), ("origin", .ofWord r.origin), ("size", .ofWord r.size),
    ("cached", .boolean r.cached)]

/-- An address map as an object. -/
def AddressMap.json (m : AddressMap) : Json :=
  .object [("address_width", .ofHalf m.width), ("regions", .ofList PlacedRegion.json m.regions)]

/-- A page of registers as an object. -/
def CsrPage.json (p : CsrPage) : Json :=
  .object [("name", .string p.name), ("location", .ofHalf p.location), ("origin", .ofWord p.origin)]

/-- A window of registers as an object. -/
def CsrWindow.json (w : CsrWindow) : Json :=
  .object [("base", .ofWord w.base), ("paging", .ofWord w.paging), ("n_locations", .ofHalf w.count),
    ("fixed", .ofTable .ofHalf w.fixed), ("allocated", .ofList CsrPage.json w.pages)]

/-! ### Netlist -/

/-- What a component is: its name, or an object for a PHY. -/
def ComponentKind.json : ComponentKind → Json
  | .phy k => .object [("phy", .string k.tag)]
  | k => .string k.text

/-- The value of a parameter. -/
def Parameter.json : Parameter → Json
  | .number n => .ofWord n
  | .flag b => .boolean b
  | .text s => .string s

/-- A clock domain as an object, its frequency in Hertz. -/
def ClockDomain.json (d : ClockDomain) : Json :=
  .object [("name", .string d.name), ("clock", .string d.clock),
    ("frequency", .ofOption (fun f => .ofWord f.hertz) d.frequency)]

/-- The fields of a component. -/
def Component.jsonFields (c : Component) : List (String × Json) :=
  [("name", .string c.name), ("kind", c.kind.json),
    ("params", .ofTable Parameter.json c.parameters),
    ("ports", .ofList Signal.json c.ports), ("clock_domains", .ofList ClockDomain.json c.domains),
    ("region", .ofOption PlacedRegion.json c.region), ("csr", .ofOption CsrPage.json c.page),
    ("irq", .ofOption .ofHalf c.interrupt)]

/-- A component as an object. -/
def Component.json (c : Component) : Json := .object c.jsonFields

/-- A node as an object that first tells its kind. -/
def Netlist.Node.json : Netlist.Node → Json
  | .component c => .object (("node", .string "component") :: c.jsonFields)
  | .pad b => .object (("node", .string "pad") :: b.jsonFields)

/-- A connection as an object. -/
def Connection.json (c : Connection) : Json :=
  .object [("from_port", .string c.source), ("to_port", .string c.target),
    ("width", .ofHalf c.width)]

/-- An edge as the numbers of its nodes and its connection. -/
def Netlist.Edge.json (e : Netlist.Edge) : Json :=
  .array [.number e.driver, .number e.receiver, e.connection.json]

/-- A netlist as a directed graph without holes. -/
def Netlist.json (n : Netlist) : Json :=
  .object [("graph", .object [("nodes", .ofList Netlist.Node.json n.nodes),
    ("node_holes", .array []), ("edge_property", .string "directed"),
    ("edges", .ofList Netlist.Edge.json n.edges)])]

/-! ### Constraints and artifacts -/

/-- A period as an object. -/
def Period.json (p : Period) : Json :=
  .object [("clock", .string p.clock), ("period_ns", .float p.nanoseconds)]

/-- A false path as an object. -/
def FalsePath.json (p : FalsePath) : Json :=
  .object [("from", .string p.source), ("to", .string p.target)]

/-- Timing constraints as an object. -/
def ConstraintSet.json (s : ConstraintSet) : Json :=
  .object [("periods", .ofList Period.json s.periods),
    ("false_paths", .ofList FalsePath.json s.falsePaths)]

/-- The bus, the registers and the interrupts of an artifact as an object. -/
def Artifact.addressJson (a : Artifact) : Json :=
  .object [("bus", a.bus.json), ("csr", a.csr.json), ("interrupts", .ofTable .ofHalf a.interrupts)]

/-- The fields of an artifact, with its constraints as a given value. -/
def Artifact.jsonFields (a : Artifact) (constraints : Json) : List (String × Json) :=
  [("platform", a.platform.json), ("phy", .string a.phy.tag), ("core", .string a.core.name),
    ("graph", a.netlist.json), ("address_map", a.addressJson), ("constraints", constraints)]

/-- An artifact as an object. -/
def Artifact.json (a : Artifact) : Json := .object (a.jsonFields a.constraints.json)

/-- The text of an artifact in JSON. -/
def Artifact.jsonText (a : Artifact) : String := a.json.text

end EtherCore
