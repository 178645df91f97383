import EtherCore.Netlist.Component

/-!
Netlists: components and pads, and the connections between their ports.  Nodes are numbered in the
order in which they are added, and no two have one name.
-/

namespace EtherCore

/-! ### Nodes and connections -/

/-- A component or a pad. -/
inductive Netlist.Node where
  | component (c : Component)
  | pad (b : Bundle)
deriving DecidableEq

namespace Netlist.Node

/-- The name of a node: that of the component, or the stem of the ports of the pad. -/
def name : Netlist.Node → String
  | .component c => c.name
  | .pad b => b.stem

/-- The component that a node is. -/
def component? : Netlist.Node → Option Component
  | .component c => some c
  | .pad _ => none

/-- The pad that a node is. -/
def pad? : Netlist.Node → Option Bundle
  | .component _ => none
  | .pad b => some b

end Netlist.Node

/-- A connection from a port of the node that drives it to a port of the node that receives. -/
structure Connection where
  source : String
  target : String
  width : UInt32
deriving DecidableEq

/-- A connection between two nodes, given by their numbers. -/
structure Netlist.Edge where
  driver : Nat
  receiver : Nat
  connection : Connection
deriving DecidableEq

/-- Nodes and the connections between them, in the order in which they were added. -/
structure Netlist where
  nodes : List Netlist.Node
  edges : List Netlist.Edge
deriving DecidableEq

namespace Netlist

/-- The netlist without nodes. -/
def empty : Netlist := ⟨[], []⟩

/-! ### Questions -/

/-- The number of the node of a name. -/
def node? (n : Netlist) (name : String) : Option Nat := n.nodes.findIdx? fun x => x.name = name

/-- The component with a number. -/
def componentAt? (n : Netlist) (i : Nat) : Option Component := n.nodes[i]?.bind Node.component?

/-- The pad with a number. -/
def padAt? (n : Netlist) (i : Nat) : Option Bundle := n.nodes[i]?.bind Node.pad?

/-- The component of a name. -/
def component? (n : Netlist) (name : String) : Option Component :=
  (n.node? name).bind n.componentAt?

/-- The pad of a name. -/
def pad? (n : Netlist) (name : String) : Option Bundle := (n.node? name).bind n.padAt?

/-- The components, in order. -/
def components (n : Netlist) : List Component := n.nodes.filterMap Node.component?

/-- The pads, in order. -/
def pads (n : Netlist) : List Bundle := n.nodes.filterMap Node.pad?

/-- A connection between two nodes, given by their names. -/
structure Link where
  driver : String
  connection : Connection
  receiver : String
deriving DecidableEq

/-- The connection of an edge between nodes that are there. -/
def link? (n : Netlist) (e : Edge) : Option Link := do
  let driver ← n.nodes[e.driver]?
  let receiver ← n.nodes[e.receiver]?
  return ⟨driver.name, e.connection, receiver.name⟩

/-- The connections, in order. -/
def links (n : Netlist) : List Link := n.edges.filterMap n.link?

/-- The connections between two nodes in either direction. -/
def between (n : Netlist) (a b : String) : List Connection :=
  (n.links.filter fun l =>
    (l.driver = a && l.receiver = b) || (l.driver = b && l.receiver = a)).map (·.connection)

/-! ### Adding nodes -/

/-- Adds a node whose name is new, and gives its number. -/
def add (n : Netlist) (x : Node) : Outcome (Nat × Netlist) :=
  if (n.node? x.name).isSome then .error (.conflict x.name 0)
  else .ok (n.nodes.length, { n with nodes := n.nodes ++ [x] })

/-- Adds a component. -/
def addComponent (n : Netlist) (c : Component) : Outcome (Nat × Netlist) := n.add (.component c)

/-- Adds a pad. -/
def addPad (n : Netlist) (b : Bundle) : Outcome (Nat × Netlist) := n.add (.pad b)

/-- The netlist with a component changed. -/
def updateComponent (n : Netlist) (i : Nat) (f : Component → Component) : Netlist :=
  { n with nodes := n.nodes.modify i fun
      | .component c => .component (f c)
      | .pad b => .pad b }

/-! ### Adding connections -/

/-- Adds a connection between nodes that are there. -/
def connect (n : Netlist) (driver receiver : Nat) (c : Connection) : Netlist :=
  { n with edges := n.edges ++ [⟨driver, receiver, c⟩] }

/-- The port of a component that a signal of a pad is connected to: the signal under a leading
name, and plain pins under that name alone.  Without a leading name it is that of the signal. -/
def localPort (b : Bundle) (lead signal : String) : String :=
  if lead = "" then signal else if b.record then lead ++ "_" ++ signal else lead

/-- The edge between a component and a signal of a pad.  The pad drives its inputs, and the
component drives the others. -/
def bundleEdge (component pad : Nat) (b : Bundle) (lead : String) (s : Signal) : Edge :=
  let inner := localPort b lead s.name
  let outer := b.portName s.name
  match s.direction with
  | .input => ⟨pad, component, ⟨outer, inner, s.width⟩⟩
  | .output | .inout => ⟨component, pad, ⟨inner, outer, s.width⟩⟩

/-- Connects every signal of a pad to a component, and gives their number. -/
def connectBundle (n : Netlist) (component pad : Nat) (lead : String) : Outcome (Nat × Netlist) :=
  match n.padAt? pad with
  | none => .error (.configuration "pads" "connection target is not a pad")
  | some b =>
    .ok (b.signals.length,
      { n with edges := n.edges ++ b.signals.map (bundleEdge component pad b lead) })

theorem add_eq_ok {n n' : Netlist} {x : Node} {i : Nat} (h : n.add x = .ok (i, n')) :
    i = n.nodes.length ∧ n' = { n with nodes := n.nodes ++ [x] } ∧ n.node? x.name = none := by
  unfold add at h
  split at h
  · cases h
  · next hn => cases h; exact ⟨rfl, rfl, by simpa using hn⟩

end Netlist

end EtherCore
