import EtherCore.Proofs.Netlist.Complete
import EtherCore.Proofs.Netlist.Declared

/-!
Netlists that grow by nodes of some names.  Wiring a stream gives ports to a component that is
there, so that only the nodes below a number are said to stay as they are (`Grows`); a pad that was
attached to one of them stays attached (`Attached.grows`).
-/

namespace EtherCore.Netlist

/-- A netlist goes on from another: it has more nodes, of some names, and keeps its connections and
the nodes below a number. -/
structure Grows (m : Nat) (names : List String) (n n' : Netlist) : Prop where
  names : n'.names = n.names ++ names
  nodes : ∀ i < m, ∀ x : Node, n.nodes[i]? = some x → n'.nodes[i]? = some x
  edges : n.edges ⊆ n'.edges

variable {n n' n'' : Netlist}

namespace Grows

variable {m : Nat} {names names' : List String}

theorem refl (n : Netlist) : n.Grows m [] n :=
  ⟨(List.append_nil _).symm, fun _ _ _ hx => hx, List.Subset.refl _⟩

theorem trans (h : n.Grows m names n') (h' : n'.Grows m names' n'') :
    n.Grows m (names ++ names') n'' := by
  refine ⟨?_, fun i hi x hx => h'.nodes i hi x (h.nodes i hi x hx),
    List.Subset.trans h.edges h'.edges⟩
  rw [h'.names, h.names, List.append_assoc]

theorem add {x : Node} {i : Nat} (h : n.add x = .ok (i, n')) : n.Grows m [x.name] n' := by
  have hnodes (k : Nat) (y : Node) (hy : n.nodes[k]? = some y) : n'.nodes[k]? = some y :=
    nodes_of_add h hy
  obtain ⟨-, -, rfl⟩ := add_eq_ok_iff.1 h
  exact ⟨names_concat n x n.edges, fun k _ => hnodes k, List.Subset.refl _⟩

theorem connect (es : List Edge) : n.Grows m [] { n with edges := n.edges ++ es } :=
  ⟨(List.append_nil _).symm, fun _ _ _ hx => hx, List.subset_append_left _ _⟩

theorem connectBundle {c p k : Nat} {lead : String}
    (h : n.connectBundle c p lead = .ok (k, n')) : n.Grows m [] n' := by
  unfold Netlist.connectBundle at h
  split at h
  · cases h
  · cases h
    exact connect _

theorem updateComponent {c : Nat} (hc : m ≤ c) {f : Component → Component}
    (hf : ∀ x, (f x).name = x.name) : n.Grows m [] (n.updateComponent c f) := by
  refine ⟨?_, fun i hi x hx => ?_, List.Subset.refl _⟩
  · rw [names_updateComponent n c hf, List.append_nil]
  · have hne : c ≠ i := by omega
    simp [Netlist.updateComponent, hne, hx]

theorem wireStream {c p k : Nat} (hc : m ≤ c) {endpoint : String} {d : StreamDirection}
    {fields : List StreamField} (h : n.wireStream c endpoint p d fields = .ok (k, n')) :
    n.Grows m [] n' := by
  obtain ⟨b, x, wired, -, -, -, -, rfl⟩ := wireStream_eq_ok_iff.1 h
  exact (updateComponent hc fun x => Component.name_addPorts x _).trans (connect _)

end Grows

/-! ### Attached pads -/

/-- A pad is in the netlist, and its signals are connected to a component. -/
def Attached (n : Netlist) (c : Nat) (b : Bundle) (lead : String) : Prop :=
  ∃ p : Nat, n.nodes[p]? = some (.pad b) ∧ ∀ s ∈ b.signals, bundleEdge c p b lead s ∈ n.edges

variable {c : Nat} {b : Bundle} {lead : String}

theorem Attached.grows (h : n.Attached c b lead) {m : Nat} {names : List String}
    (hm : n.nodes.length ≤ m) (hn : n.Grows m names n') : n'.Attached c b lead := by
  obtain ⟨p, hp, hedges⟩ := h
  obtain ⟨hlt, -⟩ := List.getElem?_eq_some_iff.1 hp
  exact ⟨p, hn.nodes p (Nat.lt_of_lt_of_le hlt hm) _ hp, fun s hs => hn.edges (hedges s hs)⟩

theorem attached_of_connectBundle {p k : Nat} (hp : n.nodes[p]? = some (.pad b))
    (h : n.connectBundle c p lead = .ok (k, n')) : n'.Attached c b lead := by
  rw [connectBundle, padAt?_eq_some_iff.2 hp] at h
  cases h
  exact ⟨p, hp, fun s hs => List.mem_append_right _ (List.mem_map_of_mem hs)⟩

/-- The connection of an input of an attached pad. -/
theorem Attached.mem_links (h : n.Attached c b lead) {x : Node} (hx : n.nodes[c]? = some x)
    {s : Signal} (hs : s ∈ b.signals) (hinput : s.direction = .input) :
    ⟨b.stem, ⟨b.portName s.name, localPort b lead s.name, s.width⟩, x.name⟩ ∈ n.links := by
  obtain ⟨p, hp, hedges⟩ := h
  have hedge := hedges s hs
  rw [bundleEdge, hinput] at hedge
  exact Wired.mem_links hedge hp hx

theorem Attached.pad?_eq_some (h : n.Attached c b lead) (hn : n.names.Nodup) :
    n.pad? b.stem = some b := by
  obtain ⟨p, hp, -⟩ := h
  have hnode : n.node? b.stem = some p := (node?_eq_some_iff hn).2 ⟨_, hp, rfl⟩
  rw [pad?, hnode, Option.bind_some, padAt?_eq_some_iff.2 hp]

end EtherCore.Netlist
