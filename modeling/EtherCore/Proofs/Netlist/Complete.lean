import EtherCore.Proofs.List
import EtherCore.Proofs.Netlist.Wired

/-!
Complete netlists: every port of a component that is driven from one side has exactly one
connection, and so has every signal of a pad.  A netlist is complete once no joints are loose
(`Wired.complete`).
-/

namespace EtherCore.Netlist

/-! ### Connections at a port -/

/-- A connection has an end at a port. -/
def Link.Touches (l : Link) (node port : String) : Prop :=
  (l.driver = node ∧ l.connection.source = port) ∨ (l.receiver = node ∧ l.connection.target = port)

instance (l : Link) (node port : String) : Decidable (l.Touches node port) :=
  inferInstanceAs (Decidable (_ ∨ _))

/-- The connections that a port receives. -/
def linksInto (n : Netlist) (node port : String) : List Link :=
  n.links.filter fun l => l.receiver = node ∧ l.connection.target = port

/-- The connections that a port drives. -/
def linksFrom (n : Netlist) (node port : String) : List Link :=
  n.links.filter fun l => l.driver = node ∧ l.connection.source = port

/-- The connections that have an end at a port. -/
def linksAt (n : Netlist) (node port : String) : List Link :=
  n.links.filter fun l => l.Touches node port

/-! ### Complete netlists -/

/-- Every port of a component that only receives or only drives has exactly one connection, of its
width.  So has every signal of a pad: the pad drives its inputs, and a component the others. -/
structure Complete (n : Netlist) : Prop where
  inputs : ∀ c ∈ n.components, ∀ p ∈ c.ports, p.direction = .input →
    ∃ l, n.linksInto c.name p.name = [l] ∧ l.connection.width = p.width
  outputs : ∀ c ∈ n.components, ∀ p ∈ c.ports, p.direction = .output →
    ∃ l, n.linksFrom c.name p.name = [l] ∧ l.connection.width = p.width
  pads : ∀ b ∈ n.pads, ∀ s ∈ b.signals,
    ∃ l, n.linksAt b.stem (b.portName s.name) = [l] ∧ l.connection.width = s.width ∧
      if s.direction = .input then
        l.driver = b.stem ∧ l.connection.source = b.portName s.name
      else
        l.receiver = b.stem ∧ l.connection.target = b.portName s.name ∧
          ∃ c ∈ n.components, l.driver = c.name

theorem mem_components_iff {n : Netlist} {c : Component} :
    c ∈ n.components ↔ ∃ i : Nat, n.nodes[i]? = some (.component c) := by
  rw [components, List.mem_filterMap]
  constructor
  · rintro ⟨x, hx, hc⟩
    obtain ⟨i, hi⟩ := List.mem_iff_getElem?.1 hx
    cases x with
    | component c' => cases hc; exact ⟨i, hi⟩
    | pad b => cases hc
  · rintro ⟨i, hi⟩
    exact ⟨.component c, List.mem_of_getElem? hi, rfl⟩

theorem mem_pads_iff {n : Netlist} {b : Bundle} :
    b ∈ n.pads ↔ ∃ i : Nat, n.nodes[i]? = some (.pad b) := by
  rw [pads, List.mem_filterMap]
  constructor
  · rintro ⟨x, hx, hb⟩
    obtain ⟨i, hi⟩ := List.mem_iff_getElem?.1 hx
    cases x with
    | component c => cases hb
    | pad b' => cases hb; exact ⟨i, hi⟩
  · rintro ⟨i, hi⟩
    exact ⟨.pad b, List.mem_of_getElem? hi, rfl⟩

theorem link?_eq_some_iff {n : Netlist} {e : Edge} {l : Link} :
    n.link? e = some l ↔
      ∃ x y, n.nodes[e.driver]? = some x ∧ n.nodes[e.receiver]? = some y ∧
        l = ⟨x.name, e.connection, y.name⟩ := by
  simp only [link?, bind, Option.bind_eq_some_iff, pure, Option.some.injEq]
  constructor
  · rintro ⟨x, hx, y, hy, rfl⟩
    exact ⟨x, y, hx, hy, rfl⟩
  · rintro ⟨x, y, hx, hy, rfl⟩
    exact ⟨x, hx, y, hy, rfl⟩

namespace Wired

variable {n : Netlist} {i : Nat} {x : Node} {port : String}

theorem eq_of_name_eq (h : n.Wired 0) {k : Nat} {y : Node} (hx : n.nodes[i]? = some x)
    (hy : n.nodes[k]? = some y) (hname : x.name = y.name) : i = k := by
  obtain ⟨hi, -⟩ := List.getElem?_eq_some_iff.1 hx
  refine (List.getElem?_inj (l := n.nodes.map Node.name) (by simpa using hi) h.covers.names).1 ?_
  rw [List.getElem?_map, List.getElem?_map, hx, hy, Option.map_some, Option.map_some, hname]

/-- A connection with an end at a port of a node has a side at its spot. -/
theorem spot_mem_of_touches (h : n.Wired 0) (hx : n.nodes[i]? = some x) {e : Edge} {l : Link}
    (he : n.link? e = some l) (hl : l.Touches x.name port) : (i, port) ∈ e.joints.map spot := by
  obtain ⟨y, z, hy, hz, rfl⟩ := link?_eq_some_iff.1 he
  rcases hl with ⟨hname, rfl⟩ | ⟨hname, rfl⟩
  · rw [← h.eq_of_name_eq hy hx hname]
    exact List.mem_cons_self
  · rw [← h.eq_of_name_eq hz hx hname]
    exact List.mem_cons_of_mem _ List.mem_cons_self

theorem filter_links_eq (h : n.Wired 0) (hx : n.nodes[i]? = some x) {P : Link → Bool}
    (hP : ∀ l, P l → l.Touches x.name port) {l : Link} (hl : l ∈ n.links) (hPl : P l) :
    n.links.filter P = [l] := by
  have honce := h.covers.once
  rw [add_zero, joints, Multiset.map_coe, Multiset.coe_nodup, List.map_flatMap,
    List.nodup_flatMap] at honce
  -- two connections at one port would have sides at one spot
  have hpair : n.links.Pairwise fun l m => P l → ¬ P m := by
    rw [links, List.pairwise_filterMap]
    refine honce.2.imp fun {e f} hef l he m hf hPl hPm => ?_
    exact hef (h.spot_mem_of_touches hx he (hP l hPl)) (h.spot_mem_of_touches hx hf (hP m hPm))
  exact filter_eq_singleton hpair hl hPl

theorem lt_length (h : n.Wired 0) {e : Edge} (he : e ∈ n.edges) {y : Nat × Joint}
    (hy : y ∈ e.joints) : y.1 < n.nodes.length :=
  h.covers.lt y (by rw [add_zero, joints]; exact List.mem_flatMap.2 ⟨e, he, hy⟩)

theorem exists_edge (h : n.Wired 0) (hx : n.nodes[i]? = some x) {j : Joint} (hj : j ∈ x.joints) :
    ∃ e ∈ n.edges, (i, j) ∈ e.joints := by
  have hmem := h.covers.mem i x hx j hj
  rwa [add_zero, joints, Multiset.mem_coe, List.mem_flatMap] at hmem

theorem mem_links {e : Edge} (he : e ∈ n.edges) {y z : Node} (hy : n.nodes[e.driver]? = some y)
    (hz : n.nodes[e.receiver]? = some z) : ⟨y.name, e.connection, z.name⟩ ∈ n.links :=
  List.mem_filterMap.2 ⟨e, he, link?_eq_some_iff.2 ⟨y, z, hy, hz, rfl⟩⟩

/-- What a node asks to drive is driven. -/
theorem exists_driven (h : n.Wired 0) (hx : n.nodes[i]? = some x) {w : UInt32}
    (hj : ⟨port, w, true⟩ ∈ x.joints) :
    ∃ target receiver, ⟨x.name, ⟨port, target, w⟩, receiver⟩ ∈ n.links := by
  obtain ⟨⟨d, r, c⟩, he, hij⟩ := h.exists_edge hx hj
  have hr := h.lt_length he (List.mem_cons_of_mem _ List.mem_cons_self)
  obtain ⟨rfl, rfl, rfl⟩ : i = d ∧ port = c.source ∧ w = c.width := by
    simpa [Edge.joints] using hij
  exact ⟨c.target, _, mem_links he hx (List.getElem?_eq_getElem hr)⟩

/-- What a node asks to receive is received, from a component if the node is none. -/
theorem exists_received (h : n.Wired 0) (hx : n.nodes[i]? = some x) {w : UInt32}
    (hj : ⟨port, w, false⟩ ∈ x.joints) :
    ∃ (y : Node) (source : String), ⟨y.name, ⟨source, port, w⟩, x.name⟩ ∈ n.links ∧
      (n.IsComponent i ∨ ∃ c ∈ n.components, y = .component c) := by
  obtain ⟨⟨d, r, c⟩, he, hij⟩ := h.exists_edge hx hj
  have hd := List.getElem?_eq_getElem (h.lt_length he List.mem_cons_self)
  obtain ⟨rfl, rfl, rfl⟩ : i = r ∧ port = c.target ∧ w = c.width := by
    simpa [Edge.joints] using hij
  refine ⟨_, c.source, mem_links he hd hx, (h.bridges _ he).symm.imp id ?_⟩
  rintro ⟨k, hk⟩
  exact ⟨k, mem_components_iff.2 ⟨d, hk⟩, Option.some.inj (hd.symm.trans hk)⟩

/-- A netlist without loose joints is complete. -/
theorem complete (h : n.Wired 0) : n.Complete := by
  refine ⟨fun c hc p hp hdir => ?_, fun c hc p hp hdir => ?_, fun b hb s hs => ?_⟩
  · obtain ⟨i, hi⟩ := mem_components_iff.1 hc
    have hj : ⟨p.name, p.width, false⟩ ∈ (Node.component c).joints :=
      List.mem_filterMap.2 ⟨p, hp, by simp [Signal.joint?, hdir]⟩
    obtain ⟨y, source, hl, -⟩ := h.exists_received hi hj
    have htouches (l : Link) (hl : l.receiver = c.name ∧ l.connection.target = p.name) :
        l.Touches c.name p.name := Or.inr hl
    exact ⟨_, h.filter_links_eq hi (fun l hl => htouches l (of_decide_eq_true hl)) hl
      (by simp [Node.name]), rfl⟩
  · obtain ⟨i, hi⟩ := mem_components_iff.1 hc
    have hj : ⟨p.name, p.width, true⟩ ∈ (Node.component c).joints :=
      List.mem_filterMap.2 ⟨p, hp, by simp [Signal.joint?, hdir]⟩
    obtain ⟨target, receiver, hl⟩ := h.exists_driven hi hj
    have htouches (l : Link) (hl : l.driver = c.name ∧ l.connection.source = p.name) :
        l.Touches c.name p.name := Or.inl hl
    exact ⟨_, h.filter_links_eq hi (fun l hl => htouches l (of_decide_eq_true hl)) hl
      (by simp [Node.name]), rfl⟩
  · obtain ⟨i, hi⟩ := mem_pads_iff.1 hb
    have hj : b.joint s ∈ (Node.pad b).joints := List.mem_map_of_mem hs
    by_cases hdir : s.direction = .input
    · rw [Bundle.joint, decide_eq_true hdir] at hj
      obtain ⟨target, receiver, hl⟩ := h.exists_driven hi hj
      refine ⟨_, h.filter_links_eq hi (fun l hl => of_decide_eq_true hl) hl
        (by simp [Link.Touches, Node.name]), rfl, ?_⟩
      rw [if_pos hdir]
      exact ⟨rfl, rfl⟩
    · rw [Bundle.joint, decide_eq_false hdir] at hj
      obtain ⟨y, source, hl, hy⟩ := h.exists_received hi hj
      refine ⟨_, h.filter_links_eq hi (fun l hl => of_decide_eq_true hl) hl
        (by simp [Link.Touches, Node.name]), rfl, ?_⟩
      rw [if_neg hdir]
      refine ⟨rfl, rfl, ?_⟩
      rcases hy with ⟨c, hc⟩ | ⟨c, hc, rfl⟩
      · cases Option.some.inj (hi.symm.trans hc)
      · exact ⟨c, hc, rfl⟩

end Wired

end EtherCore.Netlist
