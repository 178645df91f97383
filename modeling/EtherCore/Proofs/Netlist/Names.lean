import EtherCore.Netlist.Basic
import EtherCore.Proofs.List
import EtherCore.Proofs.Outcome

/-!
The names of the nodes of a netlist.  A node is added exactly if no other has its name, and pads
are added one after the other exactly if their stems are distinct and new (`exists_addPads_iff`).
-/

namespace EtherCore.Netlist

/-- The names of the nodes, in order. -/
def names (n : Netlist) : List String := n.nodes.map Node.name

theorem node?_eq_none_iff {n : Netlist} {name : String} : n.node? name = none ↔ name ∉ n.names := by
  rw [node?, List.findIdx?_eq_none_iff]
  simp [names]

theorem node?_eq_some_iff {n : Netlist} (hn : n.names.Nodup) {name : String} {i : Nat} :
    n.node? name = some i ↔ ∃ x, n.nodes[i]? = some x ∧ x.name = name := by
  have hname (j : Nat) (hj : j < n.nodes.length) : n.names[j]? = some n.nodes[j].name := by
    rw [names, List.getElem?_map, List.getElem?_eq_getElem hj, Option.map_some]
  rw [node?, List.findIdx?_eq_some_iff_getElem]
  constructor
  · rintro ⟨hi, hx, -⟩
    exact ⟨n.nodes[i], List.getElem?_eq_getElem hi, of_decide_eq_true hx⟩
  · rintro ⟨x, hx, rfl⟩
    obtain ⟨hi, rfl⟩ := List.getElem?_eq_some_iff.1 hx
    refine ⟨hi, decide_eq_true rfl, fun j hji heq => ?_⟩
    -- a node of the name in front of it would be a second one
    have hj : j < n.nodes.length := Nat.lt_trans hji hi
    have hsame : n.names[j]? = n.names[i]? := by
      rw [hname j hj, hname i hi]
      exact congrArg some (of_decide_eq_true heq)
    exact Nat.ne_of_lt hji ((List.getElem?_inj (by simpa [names] using hj) hn).1 hsame)

theorem node?_congr {n n' : Netlist} (h : n'.names = n.names) (name : String) :
    n'.node? name = n.node? name := by
  have hnames (m : Netlist) : m.node? name = m.names.findIdx? (· = name) := by
    rw [names, List.findIdx?_map]
    rfl
  rw [hnames, hnames, h]

theorem names_concat (n : Netlist) (x : Node) (edges : List Edge) :
    names ⟨n.nodes ++ [x], edges⟩ = n.names ++ [x.name] := by
  simp [names]

theorem node?_concat (n : Netlist) (x : Node) (edges : List Edge) (name : String)
    (hx : x.name ∉ n.names) : node? ⟨n.nodes ++ [x], edges⟩ name =
      if name = x.name then some n.nodes.length else n.node? name := by
  rw [node?, List.findIdx?_append]
  by_cases hname : name = x.name
  · subst hname
    have hnone := node?_eq_none_iff.2 hx
    rw [node?] at hnone
    simp [hnone, List.findIdx?_cons]
  · have hne : ¬ x.name = name := fun h => hname h.symm
    simp [hname, hne, List.findIdx?_cons, node?]

theorem names_updateComponent (n : Netlist) (i : Nat) {f : Component → Component}
    (hf : ∀ c, (f c).name = c.name) : (n.updateComponent i f).names = n.names := by
  refine map_modify_of_eq (fun x => ?_) i n.nodes
  cases x with
  | component c => exact hf c
  | pad b => rfl

theorem add_eq_ok_iff {n n' : Netlist} {x : Node} {i : Nat} :
    n.add x = .ok (i, n') ↔
      x.name ∉ n.names ∧ i = n.nodes.length ∧ n' = { n with nodes := n.nodes ++ [x] } := by
  rw [← node?_eq_none_iff]
  constructor
  · intro h
    obtain ⟨hi, hn', hname⟩ := add_eq_ok h
    exact ⟨hname, hi, hn'⟩
  · rintro ⟨hname, rfl, rfl⟩
    rw [add, hname]
    rfl

/-! ### Pads side by side -/

/-- Adds several pads. -/
def addPads (n : Netlist) : List Bundle → Outcome Netlist
  | [] => .ok n
  | b :: bs => do
    let (_, n') ← n.addPad b
    n'.addPads bs

/-- Pads can be added exactly if their stems are distinct and no names of nodes. -/
theorem exists_addPads_iff {n : Netlist} (hn : n.names.Nodup) {bs : List Bundle} :
    (∃ n', n.addPads bs = .ok n') ↔ (n.names ++ bs.map (·.stem)).Nodup := by
  induction bs generalizing n with
  | nil => simp [addPads, hn]
  | cons b bs ih =>
    have hnames : n.names ++ (b :: bs).map (·.stem)
        = names ⟨n.nodes ++ [.pad b], n.edges⟩ ++ bs.map (·.stem) := by
      rw [names_concat, List.append_assoc]
      rfl
    rw [hnames]
    constructor
    · rintro ⟨n', h⟩
      obtain ⟨⟨i, n₁⟩, hadd, hn'⟩ := Outcome.bind_eq_ok_iff.1 h
      obtain ⟨hname, rfl, rfl⟩ := add_eq_ok_iff.1 hadd
      have hnew : (names ⟨n.nodes ++ [.pad b], n.edges⟩).Nodup := nodup_map_concat hn hname
      exact (ih hnew).1 ⟨n', hn'⟩
    · intro h
      have hnew := (List.nodup_append.1 h).1
      have hname : b.stem ∉ n.names := by
        rw [names_concat, List.nodup_append] at hnew
        exact fun hmem => hnew.2.2 b.stem hmem b.stem (List.mem_singleton_self _) rfl
      obtain ⟨n', hn'⟩ := (ih hnew).2 h
      exact ⟨n', Outcome.bind_eq_ok_iff.2 ⟨_, add_eq_ok_iff.2 ⟨hname, rfl, rfl⟩, hn'⟩⟩

end EtherCore.Netlist
