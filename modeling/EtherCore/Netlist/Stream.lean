import EtherCore.Netlist.Basic

/-!
Streams between a component and a pad, wired field by field after a table.
-/

namespace EtherCore

/-! ### Fields -/

/-- What a field of a stream is for. -/
inductive FieldGroup where
  | control
  /-- Once for a packet. -/
  | param
  /-- Once for a beat of data. -/
  | payload
deriving DecidableEq

/-- Whether a field goes with the data of a stream or against it. -/
inductive Flow where
  | forward
  | backward
deriving DecidableEq

/-- A field of a stream. -/
structure StreamField where
  name : String
  group : FieldGroup
  flow : Flow
deriving DecidableEq

/-- Where the data of a stream comes from. -/
inductive StreamDirection where
  /-- From the pad. -/
  | ingress
  /-- From the component. -/
  | egress
deriving DecidableEq

namespace StreamField

/-- The fields of a UDP stream. -/
def udp : List StreamField :=
  [⟨"valid", .control, .forward⟩, ⟨"last", .control, .forward⟩, ⟨"ready", .control, .backward⟩,
    ⟨"src_port", .param, .forward⟩, ⟨"dst_port", .param, .forward⟩,
    ⟨"ip_address", .param, .forward⟩, ⟨"length", .param, .forward⟩,
    ⟨"data", .payload, .forward⟩, ⟨"error", .payload, .forward⟩]

/-- Whether the pad drives a field. -/
def padDrives (d : StreamDirection) (f : StreamField) : Bool :=
  match d, f.flow with
  | .ingress, .forward | .egress, .backward => true
  | .ingress, .backward | .egress, .forward => false

end StreamField

/-! ### Wiring -/

/-- A field with the width of the signal of its name, and whether the pad drives it. -/
structure WiredField where
  name : String
  width : UInt32
  padDrives : Bool
deriving DecidableEq

namespace WiredField

/-- The fields with their signals on a pad; the first that has none is the error. -/
def ofFields (b : Bundle) (d : StreamDirection) : List StreamField → Outcome (List WiredField)
  | [] => .ok []
  | f :: fs =>
    match b.width? f.name with
    | none => .error (.notFound .pad (b.name ++ "." ++ f.name))
    | some w => (ofFields b d fs).map (⟨f.name, w, f.padDrives d⟩ :: ·)

/-- The name of the port for a field. -/
def portName (endpoint : String) (f : WiredField) : String := endpoint ++ "_" ++ f.name

/-- The port for a field. -/
def port (endpoint : String) (f : WiredField) : Signal :=
  ⟨f.portName endpoint, f.width, if f.padDrives then .input else .output⟩

/-- The edge for a field. -/
def edge (component pad : Nat) (b : Bundle) (endpoint : String) (f : WiredField) : Netlist.Edge :=
  let inner := f.portName endpoint
  let outer := b.portName f.name
  if f.padDrives then ⟨pad, component, ⟨outer, inner, f.width⟩⟩
  else ⟨component, pad, ⟨inner, outer, f.width⟩⟩

end WiredField

/-- Wires an endpoint of a component to a pad: for every field the component gets a port, and one
connection is added.  Gives the number of connections. -/
def Netlist.wireStream (n : Netlist) (component : Nat) (endpoint : String) (pad : Nat)
    (direction : StreamDirection) (fields : List StreamField) : Outcome (Nat × Netlist) :=
  match n.padAt? pad with
  | none => .error (.notFound .pad endpoint)
  | some b =>
    match WiredField.ofFields b direction fields with
    | .error e => .error e
    | .ok wired =>
      match n.componentAt? component with
      | none => .error (.notFound .value endpoint)
      | some _ =>
        let ported := n.updateComponent component fun c =>
          c.addPorts (wired.map (WiredField.port endpoint))
        .ok (wired.length,
          { ported with
            edges := ported.edges ++ wired.map (WiredField.edge component pad b endpoint) })

end EtherCore
