import EtherCore.Netlist.Stream
import EtherCore.Proofs.Netlist.Complete
import EtherCore.Proofs.Netlist.Names

/-!
The parts of a netlist: its components without their ports.  Pads, connections and streams leave
them as they are, and only a component adds one.
-/

namespace EtherCore

/-- The component without its ports. -/
def Component.part (c : Component) : Component := { c with ports := [] }

theorem Component.part_addPorts (c : Component) (ps : List Signal) :
    (c.addPorts ps).part = c.part := by
  unfold addPorts
  induction ps generalizing c with
  | nil => rfl
  | cons p ps ih => exact ih (c.addPort p)

theorem Component.kind_addPorts (c : Component) (ps : List Signal) :
    (c.addPorts ps).kind = c.kind := by
  have h : (c.addPorts ps).part.kind = c.part.kind := by rw [part_addPorts]
  exact h

theorem Component.parameters_addPorts (c : Component) (ps : List Signal) :
    (c.addPorts ps).parameters = c.parameters := by
  have h : (c.addPorts ps).part.parameters = c.part.parameters := by rw [part_addPorts]
  exact h

theorem Component.page_addPorts (c : Component) (ps : List Signal) :
    (c.addPorts ps).page = c.page := by
  have h : (c.addPorts ps).part.page = c.part.page := by rw [part_addPorts]
  exact h

theorem Component.domains_addPorts (c : Component) (ps : List Signal) :
    (c.addPorts ps).domains = c.domains := by
  have h : (c.addPorts ps).part.domains = c.part.domains := by rw [part_addPorts]
  exact h

namespace Netlist

variable {n n' : Netlist}

/-- The components without their ports, in order. -/
def parts (n : Netlist) : List Component := n.components.map Component.part

/-- The node without the ports of its component. -/
def Node.part : Node → Node
  | .component c => .component c.part
  | .pad b => .pad b

theorem Node.name_part (x : Node) : x.part.name = x.name := by
  cases x <;> rfl

theorem parts_eq (n : Netlist) :
    n.parts = (n.nodes.map Node.part).filterMap Node.component? := by
  rw [parts, components, List.map_filterMap, List.filterMap_map]
  congr 1
  funext x
  cases x <;> rfl

theorem mem_parts_of_mem {c : Component} (h : c ∈ n.components) : c.part ∈ n.parts :=
  List.mem_map_of_mem h

/-! ### Operations -/

theorem parts_addComponent {c : Component} {i : Nat} (h : n.addComponent c = .ok (i, n')) :
    n'.parts = n.parts ++ [c.part] := by
  obtain ⟨-, -, rfl⟩ := add_eq_ok_iff.1 h
  simp [parts, components, Node.component?]

theorem parts_addPad {b : Bundle} {i : Nat} (h : n.addPad b = .ok (i, n')) :
    n'.parts = n.parts := by
  obtain ⟨-, -, rfl⟩ := add_eq_ok_iff.1 h
  simp [parts, components, Node.component?]

theorem parts_connectBundle {c p k : Nat} {lead : String}
    (h : n.connectBundle c p lead = .ok (k, n')) : n'.parts = n.parts := by
  unfold connectBundle at h
  split at h
  · cases h
  · cases h
    rfl

theorem map_part_updateComponent (n : Netlist) (i : Nat) {f : Component → Component}
    (hf : ∀ c, (f c).part = c.part) :
    (n.updateComponent i f).nodes.map Node.part = n.nodes.map Node.part := by
  refine map_modify_of_eq (fun x => ?_) i n.nodes
  cases x with
  | component c => exact congrArg Node.component (hf c)
  | pad b => rfl

theorem parts_updateComponent (n : Netlist) (i : Nat) {f : Component → Component}
    (hf : ∀ c, (f c).part = c.part) : (n.updateComponent i f).parts = n.parts := by
  rw [parts_eq, parts_eq, map_part_updateComponent n i hf]

theorem parts_wireStream {c p k : Nat} {endpoint : String} {d : StreamDirection}
    {fields : List StreamField} (h : n.wireStream c endpoint p d fields = .ok (k, n')) :
    n'.parts = n.parts := by
  obtain ⟨b, x, wired, -, -, -, -, rfl⟩ := wireStream_eq_ok_iff.1 h
  exact parts_updateComponent n c fun x => Component.part_addPorts x _

/-! ### Components by name -/

theorem component?_of_mem (hn : n.names.Nodup) {c : Component} (hc : c ∈ n.components) :
    n.component? c.name = some c := by
  obtain ⟨i, hi⟩ := mem_components_iff.1 hc
  have hnode : n.node? c.name = some i := (node?_eq_some_iff hn).2 ⟨_, hi, rfl⟩
  rw [component?, hnode, Option.bind_some, componentAt?_eq_some_iff.2 hi]

/-- Components with one name are one component. -/
theorem eq_of_name_eq (hn : n.names.Nodup) {c d : Component} (hc : c ∈ n.components)
    (hd : d ∈ n.components) (h : c.name = d.name) : c = d := by
  have hc' := component?_of_mem hn hc
  rw [h, component?_of_mem hn hd] at hc'
  exact (Option.some.inj hc').symm

theorem component?_of_mem_parts (hn : n.names.Nodup) {x : Component} (hx : x ∈ n.parts) :
    ∃ c, n.component? x.name = some c ∧ c.part = x := by
  obtain ⟨c, hc, rfl⟩ := List.mem_map.1 hx
  exact ⟨c, component?_of_mem hn hc, rfl⟩

end Netlist

end EtherCore
