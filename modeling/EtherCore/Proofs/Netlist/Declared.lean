import EtherCore.Proofs.Netlist.Wired

/-!
Connections that end on declared ports.  A netlist that grows keeps its connections and the ports
of its nodes (`Extends`), so that what was declared at both ends stays declared
(`Declares.extends`); a new connection is either declared when it is added, or it is one that the
growth is to spare.
-/

namespace EtherCore

/-! ### Ports of components -/

namespace Component

theorem putPort_of_notMem {port : Signal} {ps : List Signal} (h : port.name ∉ ps.map (·.name)) :
    putPort port ps = ps ++ [port] := by
  induction ps with
  | nil => rfl
  | cons p ps ih =>
    rw [List.map_cons, List.mem_cons, not_or] at h
    rw [putPort, if_neg (Ne.symm h.1), ih h.2, List.cons_append]

/-- Ports with names of their own are added at the end. -/
theorem ports_addPorts {c : Component} {ps : List Signal}
    (h : ((c.ports ++ ps).map (·.name)).Nodup) : (c.addPorts ps).ports = c.ports ++ ps := by
  unfold addPorts
  induction ps generalizing c with
  | nil => simp
  | cons p ps ih =>
    rw [List.append_cons] at h ⊢
    have hp : p.name ∉ c.ports.map (·.name) := by
      rw [List.append_assoc, List.map_append, List.nodup_append] at h
      exact fun hmem => h.2.2 p.name hmem p.name (by simp) rfl
    have hport : (c.addPort p).ports = c.ports ++ [p] := putPort_of_notMem hp
    rw [← hport] at h ⊢
    exact ih h

end Component

/-- The ports of a component that the signals of a pad are connected to. -/
def Bundle.localSignals (b : Bundle) (lead : String) : List Signal :=
  b.signals.map fun s => { s with name := Netlist.localPort b lead s.name }

namespace Netlist

/-! ### Declared ends -/

/-- A node declares a port of a width for a direction.  The ports of a component have directions of
their own, and those for both directions go with either; a signal of a pad goes with either too. -/
def Node.Declares (x : Node) (port : String) (width : UInt32) (d : Direction) : Prop :=
  match x with
  | .component c =>
    ∃ p ∈ c.ports, p.name = port ∧ p.width = width ∧ (p.direction = d ∨ p.direction = .inout)
  | .pad b => ∃ s ∈ b.signals, b.portName s.name = port ∧ s.width = width

/-- Both ends of a connection are at nodes that declare them, with its width: the driving end for
output and the receiving end for input. -/
structure Declares (n : Netlist) (e : Edge) : Prop where
  driver : ∃ x, n.nodes[e.driver]? = some x ∧
    x.Declares e.connection.source e.connection.width .output
  receiver : ∃ x, n.nodes[e.receiver]? = some x ∧
    x.Declares e.connection.target e.connection.width .input

/-! ### Netlists that grow -/

/-- A node is another with more ports at most, and these only for streams, whose ports have
underscores in their names. -/
def Node.Widens : Node → Node → Prop
  | .component d, .component c => d.name = c.name ∧ c.ports ⊆ d.ports ∧
      ∀ p ∈ d.ports, p ∈ c.ports ∨ '_' ∈ p.name.toList
  | .pad b', .pad b => b' = b
  | .component _, .pad _ | .pad _, .component _ => False

theorem Node.Widens.refl (x : Node) : x.Widens x := by
  cases x with
  | component c => exact ⟨rfl, List.Subset.refl _, fun _ hp => Or.inl hp⟩
  | pad b => rfl

theorem Node.Widens.trans {x y z : Node} (hz : z.Widens y) (hy : y.Widens x) : z.Widens x := by
  rcases x with c | b <;> rcases y with d | b' <;> rcases z with e | b'' <;>
    try exact hz.elim
  all_goals try exact hy.elim
  · refine ⟨hz.1.trans hy.1, List.Subset.trans hy.2.1 hz.2.1, fun p hp => ?_⟩
    rcases hz.2.2 p hp with hp | hp
    · exact hy.2.2 p hp
    · exact Or.inr hp
  · exact Eq.trans hz hy

theorem Node.Widens.declares {x y : Node} (h : y.Widens x) {port : String} {width : UInt32}
    {d : Direction} (hx : x.Declares port width d) : y.Declares port width d := by
  rcases x with c | b <;> rcases y with c' | b'
  · obtain ⟨p, hp, hport⟩ := hx
    exact ⟨p, h.2.1 hp, hport⟩
  · exact h.elim
  · exact h.elim
  · obtain rfl : b' = b := h
    exact hx

theorem Node.Widens.name_eq {x y : Node} (h : y.Widens x) : y.name = x.name := by
  rcases x with c | b <;> rcases y with d | b'
  · exact h.1
  · exact h.elim
  · exact h.elim
  · exact congrArg Bundle.stem h

theorem Node.Widens.eq_pad {b : Bundle} {y : Node} (h : y.Widens (.pad b)) : y = .pad b := by
  cases y with
  | component d => exact h.elim
  | pad b' => exact congrArg Node.pad h

/-- A port without an underscore stays undeclared. -/
theorem Node.Widens.not_declares {c : Component} {y : Node} (h : y.Widens (.component c))
    {port : String} (hport : port ∉ c.ports.map (·.name)) (hline : '_' ∉ port.toList)
    {width : UInt32} {d : Direction} : ¬ y.Declares port width d := by
  cases y with
  | component c' =>
    rintro ⟨p, hp, rfl, -⟩
    rcases h.2.2 p hp with hp | hp
    · exact hport (List.mem_map_of_mem hp)
    · exact hline hp
  | pad b => exact h.elim

/-- A netlist goes on from another: nodes and connections stay, and a new connection has declared
ends or is one to spare. -/
structure Extends (spare : Edge → Prop) (n n' : Netlist) : Prop where
  nodes : ∀ (i : Nat) (x : Node), n.nodes[i]? = some x →
    ∃ y : Node, n'.nodes[i]? = some y ∧ y.Widens x
  kept : n.edges ⊆ n'.edges
  fresh : ∀ e ∈ n'.edges, e ∈ n.edges ∨ n'.Declares e ∨ spare e

variable {spare : Edge → Prop} {n n' n'' : Netlist}

theorem Extends.declares (h : n.Extends spare n') {e : Edge} (he : n.Declares e) :
    n'.Declares e := by
  obtain ⟨⟨x, hx, hdriver⟩, y, hy, hreceiver⟩ := he
  obtain ⟨x', hx', hwx⟩ := h.nodes _ x hx
  obtain ⟨y', hy', hwy⟩ := h.nodes _ y hy
  exact ⟨⟨x', hx', hwx.declares hdriver⟩, y', hy', hwy.declares hreceiver⟩

theorem Extends.refl (n : Netlist) : n.Extends spare n :=
  ⟨fun _ x hx => ⟨x, hx, .refl x⟩, List.Subset.refl _, fun _ he => Or.inl he⟩

theorem Extends.trans (h : n.Extends spare n') (h' : n'.Extends spare n'') :
    n.Extends spare n'' := by
  refine ⟨fun i x hx => ?_, List.Subset.trans h.kept h'.kept, fun e he => ?_⟩
  · obtain ⟨y, hy, hyx⟩ := h.nodes i x hx
    obtain ⟨z, hz, hzy⟩ := h'.nodes i y hy
    exact ⟨z, hz, hzy.trans hyx⟩
  · rcases h'.fresh e he with he | he | he
    · rcases h.fresh e he with he | he | he
      · exact Or.inl he
      · exact Or.inr (Or.inl (h'.declares he))
      · exact Or.inr (Or.inr he)
    · exact Or.inr (Or.inl he)
    · exact Or.inr (Or.inr he)

/-- A component is at a number and has ports. -/
def Offers (n : Netlist) (i : Nat) (ps : List Signal) : Prop :=
  ∃ c, n.nodes[i]? = some (.component c) ∧ ps ⊆ c.ports

theorem Offers.declares {i : Nat} {ps : List Signal} (h : n.Offers i ps) {p : Signal}
    (hp : p ∈ ps) {d : Direction} (hd : p.direction = d ∨ p.direction = .inout) :
    ∃ x, n.nodes[i]? = some x ∧ x.Declares p.name p.width d := by
  obtain ⟨c, hc, hps⟩ := h
  exact ⟨.component c, hc, p, hps hp, rfl, rfl, hd⟩

theorem Offers.mono {i : Nat} {ps qs : List Signal} (h : n.Offers i ps) (hqs : qs ⊆ ps) :
    n.Offers i qs := by
  obtain ⟨c, hc, hps⟩ := h
  exact ⟨c, hc, List.Subset.trans hqs hps⟩

theorem Offers.extends {i : Nat} {ps : List Signal} (h : n.Offers i ps)
    (hn : n.Extends spare n') : n'.Offers i ps := by
  obtain ⟨c, hc, hps⟩ := h
  obtain ⟨y, hy, hyc⟩ := hn.nodes i _ hc
  cases y with
  | component d => exact ⟨d, hy, List.Subset.trans hps hyc.2.1⟩
  | pad b => exact hyc.elim

/-! ### Steps -/

theorem nodes_of_add {x y : Node} {i k : Nat} (h : n.add x = .ok (i, n'))
    (hy : n.nodes[k]? = some y) : n'.nodes[k]? = some y := by
  obtain ⟨-, -, rfl⟩ := add_eq_ok_iff.1 h
  obtain ⟨hk, -⟩ := List.getElem?_eq_some_iff.1 hy
  rw [List.getElem?_append_left hk, hy]

theorem Extends.add (spare : Edge → Prop) {x : Node} {i : Nat} (h : n.add x = .ok (i, n')) :
    n.Extends spare n' ∧ n'.nodes[i]? = some x := by
  have hold (k : Nat) (y : Node) (hy : n.nodes[k]? = some y) : n'.nodes[k]? = some y :=
    nodes_of_add h hy
  obtain ⟨-, rfl, rfl⟩ := add_eq_ok_iff.1 h
  exact ⟨⟨fun k y hy => ⟨y, hold k y hy, .refl y⟩, List.Subset.refl _, fun _ he => Or.inl he⟩,
    List.getElem?_concat_length⟩

/-- New connections between the nodes that are there. -/
theorem Extends.connect {es : List Edge}
    (h : ∀ e ∈ es, n.Declares e ∨ spare e) :
    n.Extends spare { n with edges := n.edges ++ es } := by
  refine ⟨fun _ x hx => ⟨x, hx, .refl x⟩, List.subset_append_left _ _, fun e he => ?_⟩
  rcases List.mem_append.1 he with he | he
  · exact Or.inl he
  · refine Or.inr ((h e he).imp (fun hd => ?_) id)
    exact ⟨hd.driver, hd.receiver⟩

/-- The signals of a pad are connected to a component with a port for each. -/
theorem Extends.connectBundle {c p k : Nat} {b : Bundle} {lead : String}
    (hpad : n.nodes[p]? = some (.pad b)) (hports : n.Offers c (b.localSignals lead))
    (h : n.connectBundle c p lead = .ok (k, n')) : n.Extends spare n' := by
  rw [Netlist.connectBundle, padAt?_eq_some_iff.2 hpad] at h
  obtain ⟨-, rfl⟩ := Prod.mk.inj (Except.ok.inj h)
  refine .connect fun e he => Or.inl ?_
  obtain ⟨s, hs, rfl⟩ := List.mem_map.1 he
  have hinner {d : Direction} (hd : s.direction = d ∨ s.direction = .inout) :
      ∃ x : Node, n.nodes[c]? = some x ∧ x.Declares (localPort b lead s.name) s.width d :=
    hports.declares (List.mem_map_of_mem hs) hd
  have houter (d : Direction) :
      ∃ x : Node, n.nodes[p]? = some x ∧ x.Declares (b.portName s.name) s.width d :=
    ⟨_, hpad, s, hs, rfl, rfl⟩
  unfold bundleEdge
  cases hdir : s.direction with
  | input => exact ⟨houter _, hinner (Or.inl hdir)⟩
  | output => exact ⟨hinner (Or.inl hdir), houter _⟩
  | inout => exact ⟨hinner (Or.inr hdir), houter _⟩

/-! ### Streams -/

theorem width?_of_mem_ofFields {b : Bundle} {d : StreamDirection} {fs : List StreamField}
    {ws : List WiredField} (h : WiredField.ofFields b d fs = .ok ws) {f : WiredField}
    (hf : f ∈ ws) : b.width? f.name = some f.width := by
  induction fs generalizing ws with
  | nil => cases h; cases hf
  | cons g fs ih =>
    rw [WiredField.ofFields] at h
    split at h
    · cases h
    · next w hw =>
      obtain ⟨ws', hws', rfl⟩ := Outcome.map_eq_ok_iff.1 h
      rcases List.mem_cons.1 hf with rfl | hf
      · exact hw
      · exact ih hws' hf

theorem declares_of_width? {b : Bundle} {name : String} {w : UInt32} (h : b.width? name = some w)
    (d : Direction) : (Node.pad b).Declares (b.portName name) w d := by
  obtain ⟨s, hs, rfl⟩ := Option.map_eq_some_iff.1 h
  have hname : s.name = name := Bundle.name_of_signal? hs
  exact ⟨s, List.mem_of_find?_eq_some hs, by rw [hname], rfl⟩

theorem underscore_mem_portName (endpoint : String) (f : WiredField) :
    '_' ∈ (f.portName endpoint).toList := by
  simp [WiredField.portName]

/-- A component gets ports of its own, with underscores in their names. -/
theorem Extends.addPorts (spare : Edge → Prop) {c : Nat} {comp : Component} {ps : List Signal}
    (hcomp : n.nodes[c]? = some (.component comp))
    (hnames : ((comp.ports ++ ps).map (·.name)).Nodup) (hline : ∀ p ∈ ps, '_' ∈ p.name.toList) :
    n.Extends spare (n.updateComponent c fun x => x.addPorts ps) ∧
      (n.updateComponent c fun x => x.addPorts ps).nodes[c]?
        = some (.component (comp.addPorts ps)) := by
  have hcomp' : (n.updateComponent c fun x => x.addPorts ps).nodes[c]?
      = some (.component (comp.addPorts ps)) := by
    simp [updateComponent, hcomp]
  have hports := Component.ports_addPorts hnames
  refine ⟨⟨fun i x hx => ?_, List.Subset.refl _, fun _ he => Or.inl he⟩, hcomp'⟩
  by_cases hi : c = i
  · subst hi
    obtain rfl := Option.some.inj (hcomp.symm.trans hx)
    refine ⟨_, hcomp', Component.name_addPorts _ _, ?_, fun q hq => ?_⟩
    · rw [hports]
      exact List.subset_append_left _ _
    · rw [hports] at hq
      exact (List.mem_append.1 hq).imp id (hline q)
  · have hsame : (n.updateComponent c fun x => x.addPorts ps).nodes[i]? = some x := by
      simp [updateComponent, hi, hx]
    exact ⟨x, hsame, .refl x⟩

/-- A connection of a field is declared where the pad has its signal and the component its port. -/
theorem declares_streamEdge {c p : Nat} {b : Bundle} {comp : Component} {endpoint : String}
    {f : WiredField} (hpad : n.nodes[p]? = some (.pad b))
    (hcomp : n.nodes[c]? = some (.component comp)) (hwidth : b.width? f.name = some f.width)
    (hport : f.port endpoint ∈ comp.ports) : n.Declares (f.edge c p b endpoint) := by
  have houter := declares_of_width? hwidth
  unfold WiredField.edge
  cases hdrives : f.padDrives
  · refine ⟨⟨_, hcomp, _, hport, rfl, rfl, Or.inl ?_⟩, _, hpad, houter _⟩
    simp [WiredField.port, hdrives]
  · refine ⟨⟨_, hpad, houter _⟩, _, hcomp, _, hport, rfl, rfl, Or.inl ?_⟩
    simp [WiredField.port, hdrives]

/-- A component gets ports of its own for a stream, which are connected to a pad. -/
theorem Extends.wireStream (spare : Edge → Prop) {c p k : Nat} {b : Bundle} {comp : Component}
    {endpoint : String} {d : StreamDirection} {fields : List StreamField}
    {wired : List WiredField} (hpad : n.nodes[p]? = some (.pad b))
    (hcomp : n.nodes[c]? = some (.component comp))
    (hfields : WiredField.ofFields b d fields = .ok wired)
    (hnames : ((comp.ports ++ wired.map (WiredField.port endpoint)).map (·.name)).Nodup)
    (h : n.wireStream c endpoint p d fields = .ok (k, n')) :
    n.Extends spare n' ∧
      n'.nodes[c]? = some (.component (comp.addPorts (wired.map (WiredField.port endpoint)))) := by
  have hcompAt : n.componentAt? c = some comp := componentAt?_eq_some_iff.2 hcomp
  simp only [Netlist.wireStream, padAt?_eq_some_iff.2 hpad, hfields, hcompAt] at h
  obtain ⟨-, rfl⟩ := Prod.mk.inj (Except.ok.inj h)
  have hline : ∀ q ∈ wired.map (WiredField.port endpoint), '_' ∈ q.name.toList := by
    intro q hq
    obtain ⟨f, -, rfl⟩ := List.mem_map.1 hq
    exact underscore_mem_portName endpoint f
  obtain ⟨hext, hcomp'⟩ := Extends.addPorts spare hcomp hnames hline
  obtain ⟨y, hpad', hy⟩ := hext.nodes p _ hpad
  refine ⟨hext.trans (.connect fun e he => Or.inl ?_), hcomp'⟩
  obtain ⟨f, hf, rfl⟩ := List.mem_map.1 he
  have hport : f.port endpoint
      ∈ (comp.addPorts (wired.map (WiredField.port endpoint))).ports := by
    rw [Component.ports_addPorts hnames]
    exact List.mem_append_right _ (List.mem_map_of_mem hf)
  obtain rfl := hy.eq_pad
  exact declares_streamEdge hpad' hcomp' (width?_of_mem_ofFields hfields hf) hport

end Netlist

end EtherCore
