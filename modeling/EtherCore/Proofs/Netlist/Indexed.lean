import EtherCore.Proofs.Netlist.Parts

/-!
Netlists that are changed in place and keep an index of the names.  A node is refused if the index
has its name, and a stream is wired port by port and connection by connection.  Every run of calls
does what it does to the plain netlist, index and nodes agree after it, and a call that fails has
changed nothing (`run_coherent`).
-/

namespace EtherCore

namespace Netlist

/-! ### Components changed twice -/

theorem updateComponent_updateComponent (n : Netlist) (i : Nat) (f g : Component → Component) :
    (n.updateComponent i f).updateComponent i g = n.updateComponent i (g ∘ f) := by
  unfold updateComponent
  rw [List.modify_modify_eq]
  congr 2
  funext x
  cases x <;> rfl

theorem updateComponent_id (n : Netlist) (i : Nat) : n.updateComponent i id = n := by
  have h : (n.updateComponent i id).nodes.map id = n.nodes.map id :=
    map_modify_of_eq (fun x => by cases x <;> rfl) i n.nodes
  rw [List.map_id, List.map_id] at h
  exact congrArg (Netlist.mk · n.edges) h

/-! ### Look-ups by name -/

theorem component?_eq_none_or_pad?_eq_none (n : Netlist) (name : String) :
    n.component? name = none ∨ n.pad? name = none := by
  unfold component? pad? componentAt? padAt?
  cases n.node? name with
  | none => exact Or.inl rfl
  | some i =>
    rw [Option.bind_some, Option.bind_some]
    rcases n.nodes[i]? with - | (c | b)
    · exact Or.inl rfl
    · exact Or.inr rfl
    · exact Or.inl rfl

/-! ### Calls -/

/-- A call to a netlist. -/
inductive Call where
  | addComponent (c : Component)
  | addPad (b : Bundle)
  | connect (driver receiver : Nat) (c : Connection)
  | connectBundle (component pad : Nat) (lead : String)
  | wireStream (component : Nat) (endpoint : String) (pad : Nat) (direction : StreamDirection)
    (fields : List StreamField)

/-- A call, which gives the number of the node, or of the connections, that it adds. -/
def call (n : Netlist) : Call → Outcome (Nat × Netlist)
  | .addComponent c => n.addComponent c
  | .addPad b => n.addPad b
  | .connect driver receiver c => .ok (1, n.connect driver receiver c)
  | .connectBundle component pad lead => n.connectBundle component pad lead
  | .wireStream component endpoint pad direction fields =>
    n.wireStream component endpoint pad direction fields

/-- Nodes that are there may be connected, one to one or over the signals of a pad.  All other
calls may be made with any numbers. -/
def Admits (n : Netlist) : Call → Prop
  | .connect driver receiver _ => driver < n.nodes.length ∧ receiver < n.nodes.length
  | .connectBundle component pad _ => component < n.nodes.length ∧ pad < n.nodes.length
  | .addComponent _ | .addPad _ | .wireStream .. => True

end Netlist

/-! ### An index beside the nodes -/

/-- A netlist with an index of its nodes by name, and with the nodes as they were added, each with
the number that was handed out for it. -/
structure Indexed where
  netlist : Netlist
  index : Table Nat
  handed : List (Nat × Netlist.Node)

namespace Indexed

open Netlist (Node Edge Call)

/-- Nothing was added yet. -/
def empty : Indexed := ⟨.empty, .empty, []⟩

/-- Adds a node, if the index does not have its name. -/
def add (s : Indexed) (x : Node) : Outcome Nat × Indexed :=
  if s.index.contains x.name then (.error (.conflict x.name 0), s)
  else
    let i := s.netlist.nodes.length
    (.ok i, ⟨{ s.netlist with nodes := s.netlist.nodes ++ [x] }, s.index.insert x.name i,
      s.handed ++ [(i, x)]⟩)

/-- Adds an edge. -/
def join (s : Indexed) (e : Edge) : Indexed :=
  { s with netlist := { s.netlist with edges := s.netlist.edges ++ [e] } }

/-- Gives a component a port. -/
def addPort (component : Nat) (s : Indexed) (p : Signal) : Indexed :=
  { s with netlist := s.netlist.updateComponent component fun c => c.addPort p }

/-- Connects a pad to a component, one signal after the other. -/
def connectBundle (s : Indexed) (component pad : Nat) (lead : String) : Outcome Nat × Indexed :=
  match s.netlist.padAt? pad with
  | none => (.error (.configuration "pads" "connection target is not a pad"), s)
  | some b =>
    (.ok b.signals.length,
      (b.signals.map (Netlist.bundleEdge component pad b lead)).foldl join s)

/-- Wires an endpoint of a component to a pad: first the ports, one after the other, and then the
connections. -/
def wireStream (s : Indexed) (component : Nat) (endpoint : String) (pad : Nat)
    (direction : StreamDirection) (fields : List StreamField) : Outcome Nat × Indexed :=
  match s.netlist.padAt? pad with
  | none => (.error (.notFound .pad endpoint), s)
  | some b =>
    match WiredField.ofFields b direction fields with
    | .error e => (.error e, s)
    | .ok wired =>
      match s.netlist.componentAt? component with
      | none => (.error (.notFound .value endpoint), s)
      | some _ =>
        let ported := (wired.map (WiredField.port endpoint)).foldl (addPort component) s
        (.ok wired.length, (wired.map (WiredField.edge component pad b endpoint)).foldl join ported)

/-- A call in place. -/
def call (s : Indexed) : Call → Outcome Nat × Indexed
  | .addComponent c => s.add (.component c)
  | .addPad b => s.add (.pad b)
  | .connect driver receiver c => (.ok 1, s.join ⟨driver, receiver, c⟩)
  | .connectBundle component pad lead => s.connectBundle component pad lead
  | .wireStream component endpoint pad direction fields =>
    s.wireStream component endpoint pad direction fields

/-- What is there after a call, whether it succeeds or fails. -/
def after (s : Indexed) (c : Call) : Indexed := (s.call c).2

/-- What is there after several calls. -/
def run (s : Indexed) (calls : List Call) : Indexed := calls.foldl after s

/-- Each of several calls may be made where those before it have led. -/
def AdmitsAll (s : Indexed) : List Call → Prop
  | [] => True
  | c :: calls => s.netlist.Admits c ∧ (s.after c).AdmitsAll calls

/-! ### One step at a time -/

theorem foldl_join (s : Indexed) (es : List Edge) :
    es.foldl join s = { s with netlist := { s.netlist with edges := s.netlist.edges ++ es } } := by
  induction es generalizing s with
  | nil => simp
  | cons e es ih => simp [ih, join]

theorem foldl_addPort (s : Indexed) (component : Nat) (ps : List Signal) :
    ps.foldl (addPort component) s
      = { s with netlist := s.netlist.updateComponent component fun c => c.addPorts ps } := by
  induction ps generalizing s with
  | nil =>
    have hnil : (fun c : Component => c.addPorts []) = id := rfl
    rw [hnil, Netlist.updateComponent_id]
    rfl
  | cons p ps ih =>
    rw [List.foldl_cons, ih, addPort, Netlist.updateComponent_updateComponent]
    rfl

/-! ### What every run keeps -/

/-- Names are distinct and the index has exactly them.  The nodes are those that were handed out,
but for ports, each at its number, and edges join nodes that are there. -/
structure Numbered (s : Indexed) : Prop where
  names : s.netlist.names.Nodup
  index : ∀ name, s.index.get? name = s.netlist.node? name
  parts : s.netlist.nodes.map Node.part = s.handed.map fun e => e.2.part
  numbers : s.handed.map (·.1) = List.range s.handed.length
  joins : ∀ e ∈ s.netlist.edges,
    e.driver < s.netlist.nodes.length ∧ e.receiver < s.netlist.nodes.length

/-- A call in place comes to what a call to the plain netlist comes to: it gives the same number
and leaves the same nodes and edges, or it fails alike and leaves everything as it is. -/
def Mirrors (s : Indexed) (plain : Outcome (Nat × Netlist)) (placed : Outcome Nat × Indexed) :
    Prop :=
  match plain with
  | .ok (i, n) => placed.1 = .ok i ∧ placed.2.netlist = n
  | .error e => placed = (.error e, s)

theorem Mirrors.unchanged {s : Indexed} {plain : Outcome (Nat × Netlist)}
    {placed : Outcome Nat × Indexed} (h : s.Mirrors plain placed) {e : Error}
    (he : placed.1 = .error e) : placed.2 = s := by
  cases plain with
  | ok v =>
    rw [h.1] at he
    cases he
  | error e' => exact congrArg Prod.snd h

theorem mirrors_connectBundle (s : Indexed) (component pad : Nat) (lead : String) :
    s.Mirrors (s.netlist.connectBundle component pad lead)
      (s.connectBundle component pad lead) := by
  unfold Netlist.connectBundle Indexed.connectBundle
  cases s.netlist.padAt? pad with
  | none => exact rfl
  | some b => exact ⟨rfl, congrArg netlist (foldl_join s _)⟩

theorem mirrors_wireStream (s : Indexed) (component : Nat) (endpoint : String) (pad : Nat)
    (direction : StreamDirection) (fields : List StreamField) :
    s.Mirrors (s.netlist.wireStream component endpoint pad direction fields)
      (s.wireStream component endpoint pad direction fields) := by
  unfold Netlist.wireStream Indexed.wireStream
  cases s.netlist.padAt? pad with
  | none => exact rfl
  | some b =>
    dsimp only
    cases WiredField.ofFields b direction fields with
    | error e => exact rfl
    | ok wired =>
      dsimp only
      cases s.netlist.componentAt? component with
      | none => exact rfl
      | some c =>
        dsimp only
        rw [foldl_join, foldl_addPort]
        exact ⟨rfl, rfl⟩

theorem numbered_empty : empty.Numbered :=
  ⟨List.nodup_nil, fun _ => rfl, rfl, rfl, fun _ he => absurd he List.not_mem_nil⟩

namespace Numbered

variable {s : Indexed}

theorem length_eq (hs : s.Numbered) : s.netlist.nodes.length = s.handed.length := by
  simpa using congrArg List.length hs.parts

theorem contains_eq (hs : s.Numbered) (x : Node) :
    s.index.contains x.name = (s.netlist.node? x.name).isSome := by
  rw [Table.contains, hs.index]

theorem add (hs : s.Numbered) (x : Node) : (s.add x).2.Numbered := by
  unfold Indexed.add
  by_cases hx : s.index.contains x.name
  · rw [if_pos hx]
    exact hs
  · rw [if_neg hx]
    have hname : x.name ∉ s.netlist.names := by
      rw [hs.contains_eq] at hx
      exact Netlist.node?_eq_none_iff.1 (by simpa using hx)
    refine ⟨nodup_map_concat hs.names hname, fun name => ?_, ?_, ?_, fun e he => ?_⟩
    · rw [Table.get?_insert, Netlist.node?_concat _ _ _ _ hname, hs.index]
    · simp [hs.parts]
    · simp [hs.numbers, hs.length_eq, List.range_succ]
    · have := hs.joins e he
      simp only [List.length_append, List.length_singleton]
      omega

theorem mirrors_add (hs : s.Numbered) (x : Node) : s.Mirrors (s.netlist.add x) (s.add x) := by
  unfold Netlist.add Indexed.add
  rw [hs.contains_eq]
  by_cases hx : (s.netlist.node? x.name).isSome
  · rw [if_pos hx, if_pos hx]
    rfl
  · rw [if_neg hx, if_neg hx]
    exact ⟨rfl, rfl⟩

/-- New edges between nodes that are there. -/
theorem grow (hs : s.Numbered) {es : List Edge} {n : Netlist}
    (hparts : n.nodes.map Node.part = s.netlist.nodes.map Node.part)
    (hedges : n.edges = s.netlist.edges ++ es)
    (hes : ∀ e ∈ es, e.driver < s.netlist.nodes.length ∧ e.receiver < s.netlist.nodes.length) :
    Numbered { s with netlist := n } := by
  have hnames : n.names = s.netlist.names := by
    have := congrArg (List.map Node.name) hparts
    simpa [Netlist.names, Function.comp_def, Node.name_part] using this
  have hlength : n.nodes.length = s.netlist.nodes.length := by
    simpa using congrArg List.length hparts
  refine ⟨hnames ▸ hs.names, fun name => ?_, hparts.trans hs.parts, hs.numbers, fun e he => ?_⟩
  · rw [Netlist.node?_congr hnames]
    exact hs.index name
  · rw [hlength]
    rw [hedges] at he
    exact (List.mem_append.1 he).elim (hs.joins e) (hes e)

theorem mirrors (hs : s.Numbered) (c : Call) : s.Mirrors (s.netlist.call c) (s.call c) := by
  cases c with
  | addComponent c => exact hs.mirrors_add (.component c)
  | addPad b => exact hs.mirrors_add (.pad b)
  | connect driver receiver c => exact ⟨rfl, rfl⟩
  | connectBundle component pad lead => exact s.mirrors_connectBundle component pad lead
  | wireStream component endpoint pad direction fields =>
    exact s.mirrors_wireStream component endpoint pad direction fields

theorem connectBundle (hs : s.Numbered) {component pad : Nat} (lead : String)
    (hcomponent : component < s.netlist.nodes.length) (hpad : pad < s.netlist.nodes.length) :
    (s.connectBundle component pad lead).2.Numbered := by
  unfold Indexed.connectBundle
  split
  · exact hs
  · next b hb =>
    rw [foldl_join]
    refine hs.grow rfl rfl fun e he => ?_
    obtain ⟨x, -, rfl⟩ := List.mem_map.1 he
    unfold Netlist.bundleEdge
    cases x.direction
    · exact ⟨hpad, hcomponent⟩
    · exact ⟨hcomponent, hpad⟩
    · exact ⟨hcomponent, hpad⟩

theorem wireStream (hs : s.Numbered) (component : Nat) (endpoint : String) (pad : Nat)
    (direction : StreamDirection) (fields : List StreamField) :
    (s.wireStream component endpoint pad direction fields).2.Numbered := by
  unfold Indexed.wireStream
  split
  · exact hs
  · next b hb =>
    split
    · exact hs
    · next wired hw =>
      split
      · exact hs
      · next c hc =>
        obtain ⟨hpad, -⟩ := List.getElem?_eq_some_iff.1 (Netlist.padAt?_eq_some_iff.1 hb)
        obtain ⟨hcomponent, -⟩ :=
          List.getElem?_eq_some_iff.1 (Netlist.componentAt?_eq_some_iff.1 hc)
        dsimp only
        rw [foldl_join, foldl_addPort]
        refine hs.grow (Netlist.map_part_updateComponent _ _ fun d => d.part_addPorts _) rfl
          fun e he => ?_
        obtain ⟨f, -, rfl⟩ := List.mem_map.1 he
        unfold WiredField.edge
        cases f.padDrives
        · exact ⟨hcomponent, hpad⟩
        · exact ⟨hpad, hcomponent⟩

theorem after (hs : s.Numbered) {c : Call} (hc : s.netlist.Admits c) : (s.after c).Numbered := by
  cases c with
  | addComponent c => exact hs.add (.component c)
  | addPad b => exact hs.add (.pad b)
  | connect driver receiver c =>
    refine hs.grow rfl rfl fun e he => ?_
    rw [List.mem_singleton.1 he]
    exact hc
  | connectBundle component pad lead => exact hs.connectBundle lead hc.1 hc.2
  | wireStream component endpoint pad direction fields =>
    exact hs.wireStream component endpoint pad direction fields

theorem run (hs : s.Numbered) {calls : List Call} (h : s.AdmitsAll calls) :
    (s.run calls).Numbered := by
  induction calls generalizing s with
  | nil => exact hs
  | cons c calls ih => exact ih (hs.after h.1) h.2

end Numbered

/-! ### What a run comes to -/

/-- Names are distinct.  The index, and the search for a name, give the one node of the name; no
name is both of a component and of a pad.  Numbers still stand for the nodes they were handed out
for, but for ports, and edges join nodes that are there. -/
structure Coherent (s : Indexed) : Prop where
  names : s.netlist.names.Nodup
  index_iff : ∀ name i,
    s.index.get? name = some i ↔ ∃ x, s.netlist.nodes[i]? = some x ∧ x.name = name
  node?_eq : ∀ name, s.netlist.node? name = s.index.get? name
  one_kind : ∀ name, s.netlist.component? name = none ∨ s.netlist.pad? name = none
  handed : ∀ i x, (i, x) ∈ s.handed → ∃ y, s.netlist.nodes[i]? = some y ∧ y.part = x.part
  joins : ∀ e ∈ s.netlist.edges,
    e.driver < s.netlist.nodes.length ∧ e.receiver < s.netlist.nodes.length

theorem Numbered.coherent {s : Indexed} (hs : s.Numbered) : s.Coherent where
  names := hs.names
  index_iff := by
    intro name i
    rw [hs.index]
    exact Netlist.node?_eq_some_iff hs.names
  node?_eq name := (hs.index name).symm
  one_kind := s.netlist.component?_eq_none_or_pad?_eq_none
  handed := by
    intro i x hx
    obtain ⟨k, hk⟩ := List.getElem?_of_mem hx
    have hlt : k < s.handed.length := (List.getElem?_eq_some_iff.1 hk).1
    have hik : k = i := by
      have h := congrArg (·[k]?) hs.numbers
      simp only [List.getElem?_map, hk, Option.map_some, List.getElem?_range hlt] at h
      exact (Option.some.inj h).symm
    have hpart := congrArg (·[i]?) hs.parts
    subst hik
    simp only [List.getElem?_map, hk, Option.map_some] at hpart
    exact Option.map_eq_some_iff.1 hpart
  joins := hs.joins

/-- After every run index and nodes agree, and a call in place comes to what it comes to for the
plain netlist.  A call that fails leaves everything as it is. -/
theorem run_coherent {calls : List Call} (h : empty.AdmitsAll calls) :
    let s := empty.run calls
    s.Coherent ∧ (∀ c, s.Mirrors (s.netlist.call c) (s.call c)) ∧
      ∀ c e, (s.call c).1 = .error e → s.after c = s := by
  have hrun := numbered_empty.run h
  exact ⟨hrun.coherent, hrun.mirrors, fun c e he => (hrun.mirrors c).unchanged he⟩

/-- Three calls fail between the others: a pad has the name of the component, a stream asks for a
field that the pad lacks, and one is asked for at a number that no node has. -/
theorem run_coherent_stream :
    let data : StreamField := ⟨"data", .payload, .forward⟩
    let calls : List Call := [.addComponent (.bare "port" .udpPort),
      .addPad ⟨⟨"sink", 0, [⟨"data", 8, .input⟩], true⟩, "sink"⟩,
      .addPad ⟨⟨"port", 0, [], true⟩, "port"⟩, .connect 0 1 ⟨"ready", "ready", 1⟩,
      .wireStream 0 "sink" 1 .ingress [data, ⟨"last", .control, .forward⟩],
      .wireStream 0 "sink" 7 .ingress [data], .wireStream 0 "sink" 1 .ingress [data],
      .connectBundle 0 1 "more"]
    empty.AdmitsAll calls ∧ (empty.run calls).index.entries = [("port", 0), ("sink", 1)] ∧
      (empty.run calls).netlist.edges.length = 3 ∧ (empty.run calls).Coherent := by
  intro data calls
  have hcalls : empty.AdmitsAll calls := by
    simp only [calls, AdmitsAll, Netlist.Admits, and_true, true_and]
    decide +kernel
  exact ⟨hcalls, by decide +kernel, by decide +kernel, (run_coherent hcalls).1⟩

end Indexed

end EtherCore
