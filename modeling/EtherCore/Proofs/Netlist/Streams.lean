import EtherCore.Proofs.Netlist.Indexed
import EtherCore.Proofs.Pad.Signals

/-!
Streams, and all that is there after one was wired.  A port takes the place of the first of its
name or is added behind the others (`Component.gains_addPorts`), and a table of fields becomes as
many connections, in its order.  A stream is wired exactly if the pad has every field and the
component is there, and one that is not wired has changed nothing (`Indexed.wires`).
-/

namespace EtherCore

/-! ### Ports that are put in -/

namespace Component

/-- A component is another with ports of some names.  Each takes the place of the first of its name
or is added behind the others, and no other port moves or changes. -/
structure Gains (c c' : Component) (names : List String) : Prop where
  part : c'.part = c.part
  kept : ∀ (i : Nat) (p : Signal), c.ports[i]? = some p →
    p.name ∉ names ∨ p.name ∈ (c.ports.take i).map (·.name) → c'.ports[i]? = some p
  names : c'.ports.map (·.name) =
    c.ports.map (·.name) ++ names.filter (· ∉ c.ports.map (·.name))

variable {c : Component} {port p : Signal} {ps : List Signal}

theorem port?_addPort (c : Component) (port : Signal) :
    (c.addPort port).port? port.name = some port := by
  show (putPort port c.ports).find? _ = some port
  induction c.ports with
  | nil => simp [putPort]
  | cons q qs ih =>
    rw [putPort]
    split
    · simp
    · next h => rw [List.find?_cons_of_neg (by simpa using h), ih]

theorem port?_addPort_of_ne {name : String} (h : port.name ≠ name) :
    (c.addPort port).port? name = c.port? name := by
  show (putPort port c.ports).find? _ = c.ports.find? _
  induction c.ports with
  | nil => simp [putPort, h]
  | cons q qs ih =>
    rw [putPort]
    split
    · next hq =>
      have hq' : q.name ≠ name := hq.trans_ne h
      rw [List.find?_cons_of_neg (by simpa using h), List.find?_cons_of_neg (by simpa using hq')]
    · rw [List.find?_cons, List.find?_cons, ih]

theorem names_addPort (c : Component) (port : Signal) :
    (c.addPort port).ports.map (·.name) =
      c.ports.map (·.name) ++ [port.name].filter (· ∉ c.ports.map (·.name)) := by
  show (putPort port c.ports).map (·.name) = _
  induction c.ports with
  | nil => simp [putPort]
  | cons q qs ih =>
    rw [putPort]
    split
    · next hq => simp [hq]
    · next hq =>
      rw [List.map_cons, ih]
      simp [List.filter_cons, Ne.symm hq]

theorem getElem?_addPort {i : Nat} (hi : c.ports[i]? = some p)
    (h : p.name ≠ port.name ∨ p.name ∈ (c.ports.take i).map (·.name)) :
    (c.addPort port).ports[i]? = some p := by
  show (putPort port c.ports)[i]? = some p
  generalize c.ports = qs at hi h
  induction qs generalizing i with
  | nil => cases hi
  | cons q qs ih =>
    rw [putPort]
    cases i with
    | zero =>
      obtain rfl := Option.some.inj hi
      have hne : q.name ≠ port.name := h.resolve_right (by simp)
      rw [if_neg hne]
      rfl
    | succ i =>
      split
      · exact hi
      · next hq =>
        refine ih hi ?_
        rcases h with h | h
        · exact Or.inl h
        · rw [List.take_succ_cons, List.map_cons, List.mem_cons] at h
          by_cases hp : p.name = port.name
          · exact Or.inr (h.resolve_left fun hpq => hq (hpq.symm.trans hp))
          · exact Or.inl hp

/-- A component keeps the names of its ports, and where they stand. -/
theorem take_names_addPort {i : Nat} (hi : i ≤ c.ports.length) :
    ((c.addPort port).ports.take i).map (·.name) = (c.ports.take i).map (·.name) := by
  rw [List.map_take, names_addPort, List.take_append_of_le_length (by simpa using hi),
    List.map_take]

theorem addPorts_cons (c : Component) (p : Signal) (ps : List Signal) :
    c.addPorts (p :: ps) = (c.addPort p).addPorts ps := rfl

theorem port?_addPorts_of_notMem {name : String} (h : name ∉ ps.map (·.name)) :
    (c.addPorts ps).port? name = c.port? name := by
  induction ps generalizing c with
  | nil => rfl
  | cons p ps ih =>
    rw [List.map_cons, List.mem_cons, not_or] at h
    rw [addPorts_cons, ih h.2, port?_addPort_of_ne (Ne.symm h.1)]

/-- Ports with distinct names are all found under them. -/
theorem port?_addPorts_of_mem (hps : (ps.map (·.name)).Nodup) (hp : p ∈ ps) :
    (c.addPorts ps).port? p.name = some p := by
  induction ps generalizing c with
  | nil => cases hp
  | cons q ps ih =>
    rw [List.map_cons, List.nodup_cons] at hps
    rw [addPorts_cons]
    rcases List.mem_cons.1 hp with rfl | hp
    · rw [port?_addPorts_of_notMem hps.1, port?_addPort]
    · exact ih hps.2 hp

theorem gains_addPorts (c : Component) (hps : (ps.map (·.name)).Nodup) :
    c.Gains (c.addPorts ps) (ps.map (·.name)) := by
  induction ps generalizing c with
  | nil => exact ⟨rfl, fun _ _ hi _ => hi, by simp [addPorts]⟩
  | cons q ps ih =>
    rw [List.map_cons, List.nodup_cons] at hps
    have hrest := ih (c.addPort q) hps.2
    rw [addPorts_cons, List.map_cons]
    refine ⟨hrest.part, fun i p hi h => ?_, ?_⟩
    · have hle : i ≤ c.ports.length := Nat.le_of_lt (List.getElem?_eq_some_iff.1 hi).1
      rw [List.mem_cons, not_or] at h
      refine hrest.kept i p (getElem?_addPort hi (h.imp And.left id)) ?_
      rw [take_names_addPort hle]
      exact h.imp And.right id
    · -- the names behind `q` are as new after it as before it, since they differ from its name
      have hfilter : (ps.map (·.name)).filter (· ∉ (c.addPort q).ports.map (·.name)) =
          (ps.map (·.name)).filter (· ∉ c.ports.map (·.name)) := by
        refine List.filter_congr fun name hname => ?_
        have hne : name ≠ q.name := fun h => hps.1 (h ▸ hname)
        rw [names_addPort]
        simp [hne]
      rw [hrest.names, hfilter, names_addPort, List.append_assoc, ← List.filter_append]
      rfl

end Component

/-! ### Fields of a stream -/

namespace StreamField

/-- The pad drives what goes with the data that it feeds, and what goes against the data that it is
fed with. -/
def FromPad (d : StreamDirection) (f : StreamField) : Prop :=
  d = .ingress ∧ f.flow = .forward ∨ d = .egress ∧ f.flow = .backward

theorem padDrives_iff {d : StreamDirection} {f : StreamField} :
    f.padDrives d = true ↔ f.FromPad d := by
  unfold padDrives FromPad
  cases d <;> cases f.flow <;> simp

/-- A field is carried by an edge between a port of a component and the port of the signal of its
name on a pad, with the width of this signal. -/
def Carried (b : Bundle) (c : Component) (component pad : Nat) (endpoint : String)
    (d : StreamDirection) (f : StreamField) (e : Netlist.Edge) : Prop :=
  let port := endpoint ++ "_" ++ f.name
  ∃ w, b.width? f.name = some w ∧
    (f.FromPad d ∧ c.port? port = some ⟨port, w, .input⟩ ∧
        e = ⟨pad, component, ⟨b.portName f.name, port, w⟩⟩ ∨
      ¬ f.FromPad d ∧ c.port? port = some ⟨port, w, .output⟩ ∧
        e = ⟨component, pad, ⟨port, b.portName f.name, w⟩⟩)

end StreamField

namespace WiredField

variable {b : Bundle} {d : StreamDirection} {fs : List StreamField} {ws : List WiredField}

/-- Fields find their signals exactly on a pad that has them all. -/
theorem ofFields_eq_ok_iff :
    ofFields b d fs = .ok ws ↔ (∀ f ∈ fs, b.has f.name) ∧ ws = fs.map (ofField b d) := by
  constructor
  · intro h
    induction fs generalizing ws with
    | nil =>
      cases h
      simp
    | cons f fs ih =>
      rw [ofFields] at h
      split at h
      · cases h
      · next w hw =>
        obtain ⟨ws', hws', rfl⟩ := Outcome.map_eq_ok_iff.1 h
        obtain ⟨hall, rfl⟩ := ih hws'
        refine ⟨List.forall_mem_cons.2 ⟨?_, hall⟩, ?_⟩
        · rw [← Bundle.isSome_width?, hw]
          rfl
        · rw [List.map_cons, ofField, hw]
          rfl
  · rintro ⟨h, rfl⟩
    exact ofFields_eq_ok fun f hf => by rw [Bundle.isSome_width?, h f hf]

/-- The ports for fields are named after the endpoint and the fields. -/
theorem names_ports (b : Bundle) (d : StreamDirection) (endpoint : String)
    (fs : List StreamField) :
    ((fs.map (ofField b d)).map (port endpoint)).map (·.name) =
      fs.map fun f => endpoint ++ "_" ++ f.name := by
  rw [List.map_map, List.map_map]
  rfl

/-- Fields with distinct names have ports with distinct names. -/
theorem nodup_portNames (h : (fs.map (·.name)).Nodup) (endpoint : String) :
    (fs.map fun f => endpoint ++ "_" ++ f.name).Nodup := by
  have hmap : (fs.map fun f => endpoint ++ "_" ++ f.name) =
      (fs.map (·.name)).map fun name => endpoint ++ "_" ++ name := by
    rw [List.map_map]
    rfl
  rw [hmap]
  exact h.map fun _ _ heq => (String.append_right_inj _).1 heq

theorem carried_edge {c : Component} {endpoint : String} {f : StreamField} (hf : b.has f.name)
    (hport : c.port? (endpoint ++ "_" ++ f.name) = some ((ofField b d f).port endpoint))
    (component pad : Nat) :
    f.Carried b c component pad endpoint d ((ofField b d f).edge component pad b endpoint) := by
  rw [← Bundle.isSome_width?] at hf
  obtain ⟨w, hw⟩ := Option.isSome_iff_exists.1 hf
  refine ⟨w, hw, ?_⟩
  rw [port, ofField, hw] at hport
  rw [edge, ofField, hw]
  by_cases hpad : f.FromPad d
  · have hdrives := StreamField.padDrives_iff.2 hpad
    simp only [hdrives, if_true] at hport ⊢
    exact Or.inl ⟨hpad, hport, rfl⟩
  · have hdrives : f.padDrives d = false := by
      rw [← Bool.not_eq_true]
      exact mt StreamField.padDrives_iff.1 hpad
    simp only [hdrives] at hport ⊢
    exact Or.inr ⟨hpad, hport, rfl⟩

end WiredField

/-! ### Netlists with a stream -/

namespace Netlist

variable {n n' : Netlist} {component pad k : Nat} {endpoint : String} {d : StreamDirection}
  {fields : List StreamField}

theorem nodes_updateComponent {i : Nat} {c : Component} (hc : n.componentAt? i = some c)
    (f : Component → Component) :
    (n.updateComponent i f).nodes = n.nodes.set i (.component (f c)) := by
  have hi := componentAt?_eq_some_iff.1 hc
  unfold updateComponent
  rw [List.modify_eq_set_getElem?, hi]
  rfl

/-- A netlist goes on from another by a stream: a component has a port for every field, connections
between these and a pad were added in the order of the fields, and all else is as it was. -/
structure Streams (component : Nat) (endpoint : String) (pad : Nat) (d : StreamDirection)
    (fields : List StreamField) (b : Bundle) (c c' : Component) (n n' : Netlist) : Prop where
  nodes : n'.nodes = n.nodes.set component (.component c')
  gains : c.Gains c' (fields.map fun f => endpoint ++ "_" ++ f.name)
  edges : ∃ es, n'.edges = n.edges ++ es ∧
    List.Forall₂ (StreamField.Carried b c' component pad endpoint d) fields es

theorem streams_of_wireStream (hfields : (fields.map (·.name)).Nodup)
    (h : n.wireStream component endpoint pad d fields = .ok (k, n')) :
    k = fields.length ∧ ∃ b c c', n.padAt? pad = some b ∧ n.componentAt? component = some c ∧
      Streams component endpoint pad d fields b c c' n n' := by
  obtain ⟨b, c, wired, hb, hc, hw, rfl, rfl⟩ := wireStream_eq_ok_iff.1 h
  obtain ⟨hall, rfl⟩ := WiredField.ofFields_eq_ok_iff.1 hw
  have hnames := WiredField.names_ports b d endpoint fields
  have hnodup := WiredField.nodup_portNames hfields endpoint
  rw [← hnames] at hnodup
  refine ⟨List.length_map _, b, c, _, hb, hc, nodes_updateComponent hc _, ?_, _, rfl, ?_⟩
  · rw [← hnames]
    exact c.gains_addPorts hnodup
  · rw [List.forall₂_map_right_iff, List.forall₂_map_right_iff, List.forall₂_same]
    intro f hf
    have hport : (WiredField.ofField b d f).port endpoint ∈
        (fields.map (WiredField.ofField b d)).map (WiredField.port endpoint) :=
      List.mem_map_of_mem (List.mem_map_of_mem hf)
    exact WiredField.carried_edge (hall f hf) (Component.port?_addPorts_of_mem hnodup hport)
      component pad

end Netlist

/-! ### Streams that are wired in place -/

namespace Indexed

/-- A stream is wired as a whole or not at all. -/
structure Wires (s : Indexed) (component : Nat) (endpoint : String) (pad : Nat)
    (d : StreamDirection) (fields : List StreamField) : Prop where
  /-- It is wired exactly if the pad has every field and the component is there. -/
  ok_iff : (∃ k, (s.wireStream component endpoint pad d fields).1 = .ok k) ↔
    (∃ b, s.netlist.padAt? pad = some b ∧ ∀ f ∈ fields, b.has f.name) ∧
      ∃ c, s.netlist.componentAt? component = some c
  wired : ∀ k, (s.wireStream component endpoint pad d fields).1 = .ok k →
    k = fields.length ∧ ∃ b c c', s.netlist.padAt? pad = some b ∧
      s.netlist.componentAt? component = some c ∧
      Netlist.Streams component endpoint pad d fields b c c' s.netlist
        (s.wireStream component endpoint pad d fields).2.netlist
  index : (s.wireStream component endpoint pad d fields).2.index = s.index
  unchanged : ∀ e, (s.wireStream component endpoint pad d fields).1 = .error e →
    (s.wireStream component endpoint pad d fields).2 = s
  /-- It is wired as in a plain netlist. -/
  mirrors : s.Mirrors (s.netlist.wireStream component endpoint pad d fields)
    (s.wireStream component endpoint pad d fields)

theorem index_wireStream (s : Indexed) (component : Nat) (endpoint : String) (pad : Nat)
    (d : StreamDirection) (fields : List StreamField) :
    (s.wireStream component endpoint pad d fields).2.index = s.index := by
  unfold Indexed.wireStream
  split
  · rfl
  · split
    · rfl
    · split
      · rfl
      · dsimp only
        rw [foldl_join, foldl_addPort]

/-- What succeeds in place also does in the plain netlist, and leaves this one. -/
theorem Mirrors.eq_ok_iff {s : Indexed} {plain : Outcome (Nat × Netlist)}
    {placed : Outcome Nat × Indexed} (h : s.Mirrors plain placed) {k : Nat} :
    placed.1 = .ok k ↔ plain = .ok (k, placed.2.netlist) := by
  cases plain with
  | error e =>
    obtain rfl : placed = (.error e, s) := h
    simp
  | ok v =>
    obtain ⟨i, n⟩ := v
    rw [h.1, h.2, Except.ok.injEq, Except.ok.injEq, Prod.mk.injEq, and_iff_left rfl]

/-- Fields with distinct names are all wired, or none of them. -/
theorem wires (s : Indexed) (component : Nat) (endpoint : String) (pad : Nat)
    (d : StreamDirection) {fields : List StreamField} (hfields : (fields.map (·.name)).Nodup) :
    s.Wires component endpoint pad d fields := by
  have hmirrors := s.mirrors_wireStream component endpoint pad d fields
  refine ⟨⟨?_, ?_⟩, fun k hk => ?_, s.index_wireStream component endpoint pad d fields,
    fun e he => hmirrors.unchanged he, hmirrors⟩
  · rintro ⟨k, hk⟩
    obtain ⟨b, c, wired, hb, hc, hw, -⟩ :=
      Netlist.wireStream_eq_ok_iff.1 (hmirrors.eq_ok_iff.1 hk)
    exact ⟨⟨b, hb, (WiredField.ofFields_eq_ok_iff.1 hw).1⟩, c, hc⟩
  · rintro ⟨⟨b, hb, hall⟩, c, hc⟩
    obtain ⟨k, n', hplain⟩ : ∃ k n', s.netlist.wireStream component endpoint pad d fields =
        .ok (k, n') := by
      have hw : WiredField.ofFields b d fields = .ok _ :=
        WiredField.ofFields_eq_ok_iff.2 ⟨hall, rfl⟩
      exact ⟨_, _, Netlist.wireStream_eq_ok_iff.2 ⟨b, c, _, hb, hc, hw, rfl, rfl⟩⟩
    rw [hplain] at hmirrors
    exact ⟨_, hmirrors.1⟩
  · exact Netlist.streams_of_wireStream hfields (hmirrors.eq_ok_iff.1 hk)

/-- The component has a port of the name of a field already, with another width and direction. -/
theorem wires_sink :
    let fields : List StreamField := [⟨"data", .payload, .forward⟩, ⟨"ready", .control, .backward⟩]
    let s := empty.run [.addComponent { Component.bare "port" .udpPort with
        ports := [⟨"sink_ready", 4, .inout⟩, ⟨"clock", 1, .input⟩] },
      .addPad ⟨⟨"sink", 0, [⟨"data", 8, .input⟩, ⟨"ready", 1, .output⟩], true⟩, "sink"⟩,
      .connect 0 1 ⟨"clock", "clock", 1⟩]
    let after := (s.wireStream 0 "sink" 1 .ingress fields).2.netlist
    (fields.map (·.name)).Nodup ∧ s.Wires 0 "sink" 1 .ingress fields ∧
      (after.componentAt? 0).map (·.ports) =
        some [⟨"sink_ready", 1, .output⟩, ⟨"clock", 1, .input⟩, ⟨"sink_data", 8, .input⟩] ∧
      after.edges = [⟨0, 1, ⟨"clock", "clock", 1⟩⟩, ⟨1, 0, ⟨"sink_data", "sink_data", 8⟩⟩,
        ⟨0, 1, ⟨"sink_ready", "sink_ready", 1⟩⟩] :=
  ⟨by decide, wires _ _ _ _ _ (by decide), by decide +kernel, by decide +kernel⟩

end Indexed

end EtherCore
