import EtherCore.Netlist.Stream
import EtherCore.Proofs.List
import Mathlib

/-!
The joints of a netlist.  A port asks to be connected once, with its own width and from its own
side; a joint is such a wish, and also one side of a connection.  While a netlist grows, the joints
of a component may stay loose for some steps: `Netlist.Wired` says that connections and loose
joints together meet every wish once, and every step that adds connections takes their joints from
the loose ones.
-/

namespace EtherCore

/-! ### Joints -/

/-- One side of a connection: the port, the width, and whether the side drives. -/
structure Joint where
  port : String
  width : UInt32
  drives : Bool
deriving DecidableEq

/-- The joint that a port of a component asks for; one that is driven from both sides asks for
none. -/
def Signal.joint? (p : Signal) : Option Joint :=
  match p.direction with
  | .input => some ⟨p.name, p.width, false⟩
  | .output => some ⟨p.name, p.width, true⟩
  | .inout => none

namespace Bundle

/-- The joint of a signal at its pad. -/
def joint (b : Bundle) (s : Signal) : Joint :=
  ⟨b.portName s.name, s.width, s.direction = .input⟩

/-- The joint of a signal at the component that a pad is connected to. -/
def innerJoint (b : Bundle) (lead : String) (s : Signal) : Joint :=
  ⟨Netlist.localPort b lead s.name, s.width, s.direction ≠ .input⟩

/-- The joints of a pad. -/
def joints (b : Bundle) : List Joint := b.signals.map b.joint

/-- The joints at the component that a pad is connected to. -/
def innerJoints (b : Bundle) (lead : String) : List Joint := b.signals.map (b.innerJoint lead)

theorem map_port_joints (b : Bundle) :
    b.joints.map Joint.port = b.signals.map fun s => b.portName s.name := by
  simp [joints, joint]

end Bundle

namespace WiredField

/-- The joint of a field at its pad. -/
def joint (b : Bundle) (f : WiredField) : Joint := ⟨b.portName f.name, f.width, f.padDrives⟩

/-- The joint of a field at the component of an endpoint. -/
def innerJoint (endpoint : String) (f : WiredField) : Joint :=
  ⟨f.portName endpoint, f.width, !f.padDrives⟩

/-- A field with the width of the signal of its name. -/
def ofField (b : Bundle) (d : StreamDirection) (f : StreamField) : WiredField :=
  ⟨f.name, (b.width? f.name).getD 0, f.padDrives d⟩

/-- Every field finds its signal on a pad that has them all. -/
theorem ofFields_eq_ok {b : Bundle} {d : StreamDirection} {fs : List StreamField}
    (h : ∀ f ∈ fs, (b.width? f.name).isSome) : ofFields b d fs = .ok (fs.map (ofField b d)) := by
  induction fs with
  | nil => rfl
  | cons f fs ih =>
    obtain ⟨w, hw⟩ := Option.isSome_iff_exists.1 (h f List.mem_cons_self)
    rw [ofFields, hw, List.map_cons, ofField, hw]
    simp only [ih fun g hg => h g (List.mem_cons_of_mem _ hg)]
    rfl

end WiredField

namespace Component

/-- The joints that the ports of a component ask for. -/
def joints (c : Component) : List Joint := c.ports.filterMap Signal.joint?

theorem mem_addPorts {c : Component} {ps : List Signal} {p : Signal}
    (h : p ∈ (c.addPorts ps).ports) : p ∈ c.ports ∨ p ∈ ps := by
  unfold addPorts at h
  induction ps generalizing c with
  | nil => exact Or.inl h
  | cons q qs ih =>
    rcases ih h with h | h
    · rcases mem_putPort h with rfl | h
      · exact Or.inr List.mem_cons_self
      · exact Or.inl h
    · exact Or.inr (List.mem_cons_of_mem _ h)

theorem name_addPorts (c : Component) (ps : List Signal) : (c.addPorts ps).name = c.name := by
  unfold addPorts
  induction ps generalizing c with
  | nil => rfl
  | cons q qs ih => exact ih (c.addPort q)

end Component

namespace Netlist

/-- The joints that a node asks for. -/
def Node.joints : Node → List Joint
  | .component c => c.joints
  | .pad b => b.joints

/-- The two sides of a connection, each with the number of its node. -/
def Edge.joints (e : Edge) : List (Nat × Joint) :=
  [(e.driver, ⟨e.connection.source, e.connection.width, true⟩),
    (e.receiver, ⟨e.connection.target, e.connection.width, false⟩)]

/-- The sides of all connections. -/
def joints (n : Netlist) : Multiset (Nat × Joint) := n.edges.flatMap Edge.joints

/-- Joints at one node. -/
def atNode (i : Nat) (js : List Joint) : Multiset (Nat × Joint) := js.map (Prod.mk i)

/-- Where a joint is: the node and the port. -/
def spot (x : Nat × Joint) : Nat × String := (x.1, x.2.port)

theorem mem_atNode {i : Nat} {js : List Joint} {x : Nat × Joint} :
    x ∈ atNode i js ↔ x.1 = i ∧ x.2 ∈ js := by
  obtain ⟨k, j⟩ := x
  simp [atNode, and_comm, eq_comm]

@[simp] theorem atNode_nil (i : Nat) : atNode i [] = 0 := rfl

theorem atNode_cons (i : Nat) (j : Joint) (js : List Joint) :
    atNode i (j :: js) = atNode i [j] + atNode i js := rfl

theorem atNode_append (i : Nat) (js ks : List Joint) :
    atNode i (js ++ ks) = atNode i js + atNode i ks := by
  simp [atNode]

theorem atNode_perm {i : Nat} {js ks : List Joint} (h : js.Perm ks) : atNode i js = atNode i ks :=
  Multiset.coe_eq_coe.2 (h.map _)

theorem nodup_spot_atNode {i : Nat} {js : List Joint} (h : (js.map Joint.port).Nodup) :
    ((atNode i js).map spot).Nodup := by
  have hmap : (js.map fun j => spot (i, j)) = (js.map Joint.port).map (Prod.mk i) := by
    simp [spot]
  rw [atNode, Multiset.map_coe, List.map_map, Multiset.coe_nodup]
  exact hmap ▸ h.map fun _ _ hij => (Prod.mk.inj hij).2

theorem coe_joints (e : Edge) :
    (e.joints : Multiset (Nat × Joint))
      = atNode e.driver [⟨e.connection.source, e.connection.width, true⟩]
        + atNode e.receiver [⟨e.connection.target, e.connection.width, false⟩] := rfl

theorem joints_append (n : Netlist) (es : List Edge) (nodes : List Node) :
    (⟨nodes, n.edges ++ es⟩ : Netlist).joints
      = n.joints + (es.flatMap Edge.joints : List (Nat × Joint)) := by
  simp [joints]

/-! ### Covers -/

/-- Joints that meet what nodes ask for, each at a spot of its own.  A node may have more of them
than it asks for. -/
structure Covers (nodes : List Node) (js : Multiset (Nat × Joint)) : Prop where
  names : (nodes.map Node.name).Nodup
  lt : ∀ x ∈ js, x.1 < nodes.length
  once : (js.map spot).Nodup
  mem : ∀ i x, nodes[i]? = some x → ∀ j ∈ x.joints, (i, j) ∈ js

theorem Covers.concat {nodes : List Node} {js : Multiset (Nat × Joint)} (h : Covers nodes js)
    {x : Node} (hname : x.name ∉ nodes.map Node.name) {more : List Joint}
    (hmore : x.joints ⊆ more) (hports : (more.map Joint.port).Nodup) :
    Covers (nodes ++ [x]) (js + atNode nodes.length more) := by
  refine ⟨nodup_map_concat h.names hname, fun y hy => ?_, ?_, fun i y hi j hj => ?_⟩
  · rw [List.length_append, List.length_singleton]
    rcases Multiset.mem_add.1 hy with hy | hy
    · exact Nat.lt_succ_of_lt (h.lt y hy)
    · exact (mem_atNode.1 hy).1 ▸ Nat.lt_succ_self _
  · -- the joints there were are at other nodes
    rw [Multiset.map_add, Multiset.nodup_add]
    refine ⟨h.once, nodup_spot_atNode hports, Multiset.disjoint_left.2 fun hp hq => ?_⟩
    obtain ⟨y, hy, rfl⟩ := Multiset.mem_map.1 hp
    obtain ⟨z, hz, hzy⟩ := Multiset.mem_map.1 hq
    have hlt := h.lt y hy
    have hlen := (mem_atNode.1 hz).1
    have hnode : z.1 = y.1 := (Prod.mk.inj hzy).1
    omega
  · rcases Nat.lt_trichotomy i nodes.length with hlt | rfl | hgt
    · rw [List.getElem?_append_left hlt] at hi
      exact Multiset.mem_add.2 (Or.inl (h.mem i y hi j hj))
    · rw [List.getElem?_concat_length] at hi
      cases hi
      exact Multiset.mem_add.2 (Or.inr (mem_atNode.2 ⟨rfl, hmore hj⟩))
    · rw [List.getElem?_eq_none (by rw [List.length_append]; exact hgt)] at hi
      cases hi

theorem Covers.modify {nodes : List Node} {js : Multiset (Nat × Joint)} (h : Covers nodes js)
    {i : Nat} {f : Node → Node} (hname : ∀ x, (f x).name = x.name)
    (hf : ∀ x, nodes[i]? = some x → ∀ j ∈ (f x).joints, (i, j) ∈ js) :
    Covers (nodes.modify i f) js := by
  refine ⟨?_, fun x hx => ?_, h.once, fun k x hk j hj => ?_⟩
  · rw [map_modify_of_eq hname]
    exact h.names
  · rw [List.length_modify]
    exact h.lt x hx
  · rw [List.getElem?_modify] at hk
    obtain ⟨y, hy, rfl⟩ := Option.map_eq_some_iff.1 hk
    by_cases hik : i = k
    · subst hik
      exact hf y hy j (by simpa using hj)
    · exact h.mem k y hy j (by simpa [hik] using hj)

end Netlist

end EtherCore
