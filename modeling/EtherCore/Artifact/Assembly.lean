import EtherCore.Netlist.Stream
import EtherCore.Pad.Registry
import EtherCore.Soc.Context

/-!
A core while it is put together: the system on chip around it, the pads that are left, and its
netlist.  What a step has changed stays changed where the step fails.
-/

namespace EtherCore

/-- A core that is being put together. -/
structure Assembly where
  soc : Soc
  pads : PadRegistry
  netlist : Netlist

namespace Assembly

/-- A core of which nothing is there yet, with all pads left. -/
def start (soc : Soc) : Assembly := ⟨soc, .standard, .empty⟩

/-- A step in putting a core together. -/
abbrev Step := ExceptT Error (StateM Assembly)

namespace Step

/-- A step that changes the netlist. -/
def onNetlist {α : Type} (f : Netlist → Outcome (α × Netlist)) : Step α := fun a =>
  match f a.netlist with
  | .error e => (.error e, a)
  | .ok (x, n) => (.ok x, { a with netlist := n })

/-- A step that hands out a pad. -/
def takePad (name : String) (index : Option UInt32) : Step Bundle := fun a =>
  match a.pads.request name index with
  | .error e => (.error e, a)
  | .ok (b, pads) => (.ok b, { a with pads := pads })

/-- A step that places a region on the bus. -/
def place (name : String) (region : Region) : Step PlacedRegion := fun a =>
  match a.soc.bus.addSlave name region with
  | .error e => (.error e, a)
  | .ok (p, bus) => (.ok p, { a with soc := { a.soc with bus := bus } })

/-- A step that hands out a page of registers. -/
def takePage (name : String) : Step CsrPage := fun a =>
  match a.soc.csr.alloc name with
  | .error e => (.error e, a)
  | .ok (p, csr) => (.ok p, { a with soc := { a.soc with csr := csr } })

/-- A step that adds a component. -/
def addComponent (c : Component) : Step Nat := onNetlist fun n => n.addComponent c

/-- A step that adds a pad. -/
def addPad (b : Bundle) : Step Nat := onNetlist fun n => n.addPad b

/-- A step that adds a connection. -/
def connect (driver receiver : Nat) (c : Connection) : Step Unit :=
  onNetlist fun n => .ok ((), n.connect driver receiver c)

/-- A step that connects all signals of a pad. -/
def connectBundle (component pad : Nat) (lead : String) : Step Nat :=
  onNetlist fun n => n.connectBundle component pad lead

/-- A step that wires a stream. -/
def wireStream (component : Nat) (endpoint : String) (pad : Nat) (direction : StreamDirection)
    (fields : List StreamField) : Step Nat :=
  onNetlist fun n => n.wireStream component endpoint pad direction fields

/-- A step that hands out a pad and adds it to the netlist.  A pad whose name is taken there stays
handed out. -/
def requestPad (name : String) : Step Nat := do
  addPad (← takePad name none)

/-- A step that hands out a pad, adds it and connects it to a component. -/
def attachPad (component : Nat) (name lead : String) : Step Nat := do
  let pad ← requestPad name
  let _ ← connectBundle component pad lead
  return pad

end Step

end Assembly

end EtherCore
