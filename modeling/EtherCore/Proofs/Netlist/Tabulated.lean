import EtherCore.Proofs.Netlist.Streams
import EtherCore.Proofs.Pad.Grants

/-!
Streams after a table that lists the signals of a pad.  Wiring such a stream adds the connections
that connecting the pad as a whole adds, in the same order, and the table of UDP streams lists the
signals of both UDP pads (`Netlist.wireStream_agrees`).
-/

namespace EtherCore

/-! ### Fields and signals -/

/-- A table of fields lists the signals of a record in their order.  Their names are distinct, and
the pad drives a field exactly if its signal is an input. -/
structure StreamField.Lists (d : StreamDirection) (fields : List StreamField) (b : Bundle) :
    Prop where
  record : b.record = true
  names : (b.signals.map (·.name)).Nodup
  fields : List.Forall₂ (fun f s => f.name = s.name ∧ (f.FromPad d ↔ s.direction = .input))
    fields b.signals

namespace StreamField

variable {d : StreamDirection} {name : String} {group : FieldGroup}

theorem fromPad_forward_iff : FromPad d ⟨name, group, .forward⟩ ↔ d = .ingress := by
  simp [FromPad]

theorem fromPad_backward_iff : FromPad d ⟨name, group, .backward⟩ ↔ d = .egress := by
  simp [FromPad]

/-- The table of UDP streams lists the signals of a UDP stream, if the pad drives those that go
with the data that it feeds, or `ready` alone. -/
theorem lists_udp {forward backward : Direction} (hforward : d = .ingress ↔ forward = .input)
    (hbackward : d = .egress ↔ backward = .input) {pad : String} {index : UInt32} (stem : String) :
    Lists d udp (.ofDecl (.fields pad index (PadDecl.udpStream forward backward)) stem) where
  record := rfl
  names := by
    show ["valid", "last", "ready", "src_port", "dst_port", "ip_address", "length", "data",
      "error"].Nodup
    decide
  fields := by
    have hwith {name : String} {group : FieldGroup} :
        FromPad d ⟨name, group, .forward⟩ ↔ forward = .input :=
      fromPad_forward_iff.trans hforward
    have hagainst {name : String} {group : FieldGroup} :
        FromPad d ⟨name, group, .backward⟩ ↔ backward = .input :=
      fromPad_backward_iff.trans hbackward
    exact .cons ⟨rfl, hwith⟩ <| .cons ⟨rfl, hwith⟩ <| .cons ⟨rfl, hagainst⟩ <|
      .cons ⟨rfl, hwith⟩ <| .cons ⟨rfl, hwith⟩ <| .cons ⟨rfl, hwith⟩ <| .cons ⟨rfl, hwith⟩ <|
      .cons ⟨rfl, hwith⟩ <| .cons ⟨rfl, hwith⟩ .nil

end StreamField

theorem Netlist.localPort_of_record {b : Bundle} {lead : String} (hrecord : b.record = true)
    (hlead : lead ≠ "") (signal : String) : localPort b lead signal = lead ++ "_" ++ signal := by
  rw [localPort, if_neg hlead, if_pos hrecord]

namespace WiredField

variable {b : Bundle} {d : StreamDirection} {endpoint : String}

/-- The edge for a field is the edge for its signal. -/
theorem edge_eq_bundleEdge (hrecord : b.record = true) (hendpoint : endpoint ≠ "")
    {f : StreamField} {s : Signal} (hdrives : f.FromPad d ↔ s.direction = .input)
    (component pad : Nat) :
    edge component pad b endpoint ⟨s.name, s.width, f.padDrives d⟩ =
      Netlist.bundleEdge component pad b endpoint s := by
  unfold edge Netlist.bundleEdge portName
  dsimp only
  rw [Netlist.localPort_of_record hrecord hendpoint]
  rw [← StreamField.padDrives_iff] at hdrives
  cases hdirection : s.direction with
  | input => rw [if_pos (hdrives.2 hdirection)]
  | output | inout =>
    have hnot : ¬ f.padDrives d = true := by
      intro h
      have hinput := hdrives.1 h
      rw [hdirection] at hinput
      cases hinput
    rw [if_neg hnot]

/-- Fields that list signals of a pad find them, and their edges are those for the signals. -/
theorem exists_ofFields (hrecord : b.record = true) (hnames : (b.signals.map (·.name)).Nodup)
    (hendpoint : endpoint ≠ "") (component pad : Nat) {fields : List StreamField}
    {signals : List Signal} (hsub : signals ⊆ b.signals)
    (h : List.Forall₂ (fun f s => f.name = s.name ∧ (f.FromPad d ↔ s.direction = .input))
      fields signals) :
    ∃ wired, ofFields b d fields = .ok wired ∧ wired.map (edge component pad b endpoint) =
      signals.map (Netlist.bundleEdge component pad b endpoint) := by
  induction h with
  | nil => exact ⟨[], rfl, rfl⟩
  | @cons f s fields signals hfs _ ih =>
    obtain ⟨hname, hdrives⟩ := hfs
    obtain ⟨hs, hrest⟩ := List.cons_subset.1 hsub
    obtain ⟨wired, hwired, hedges⟩ := ih hrest
    refine ⟨⟨s.name, s.width, f.padDrives d⟩ :: wired, ?_, ?_⟩
    · rw [ofFields, hname, Bundle.width?_of_mem hnames hs, hwired]
      rfl
    · rw [List.map_cons, List.map_cons, hedges,
        edge_eq_bundleEdge hrecord hendpoint hdrives component pad]

end WiredField

/-! ### Connections -/

namespace Netlist

/-- A stream can be wired to a pad and the pad can be connected as a whole, and both add the same
connections in the same order. -/
def WiresAsBundle (n : Netlist) (component : Nat) (endpoint : String) (pad : Nat)
    (d : StreamDirection) (fields : List StreamField) : Prop :=
  ∃ es n₁ n₂, n.wireStream component endpoint pad d fields = .ok (es.length, n₁) ∧
    n.connectBundle component pad endpoint = .ok (es.length, n₂) ∧
    n₁.edges = n.edges ++ es ∧ n₂.edges = n.edges ++ es

theorem wiresAsBundle_of_lists {n : Netlist} {component pad : Nat} {endpoint : String}
    {d : StreamDirection} {fields : List StreamField} {c : Component} {b : Bundle}
    (hc : n.componentAt? component = some c) (hb : n.padAt? pad = some b)
    (hendpoint : endpoint ≠ "") (h : StreamField.Lists d fields b) :
    n.WiresAsBundle component endpoint pad d fields := by
  obtain ⟨wired, hwired, hedges⟩ := WiredField.exists_ofFields h.record h.names hendpoint component
    pad (List.Subset.refl _) h.fields
  obtain ⟨n₁, hwire, hedges₁⟩ : ∃ n₁, n.wireStream component endpoint pad d fields =
      .ok (wired.length, n₁) ∧
        n₁.edges = n.edges ++ wired.map (WiredField.edge component pad b endpoint) :=
    ⟨_, wireStream_eq_ok_iff.2 ⟨b, c, wired, hb, hc, hwired, rfl, rfl⟩, rfl⟩
  obtain ⟨n₂, hconnect, hedges₂⟩ : ∃ n₂, n.connectBundle component pad endpoint =
      .ok (b.signals.length, n₂) ∧
        n₂.edges = n.edges ++ b.signals.map (bundleEdge component pad b endpoint) := by
    rw [connectBundle, hb]
    exact ⟨_, rfl, rfl⟩
  have hlength : wired.length = b.signals.length := by
    simpa using congrArg List.length hedges
  refine ⟨b.signals.map (bundleEdge component pad b endpoint), n₁, n₂, ?_, ?_, ?_, hedges₂⟩
  · rw [hwire, List.length_map, hlength]
  · rw [hconnect, List.length_map]
  · rw [hedges₁, hedges]

/-- Wherever a table lists the signals of a pad, the stream after it is connected as the pad is as a
whole.  The table of UDP streams lists the signals of both pads that are for them. -/
theorem wireStream_agrees :
    (∀ (n : Netlist) (component pad : Nat) (endpoint : String) (d : StreamDirection)
      (fields : List StreamField) (c : Component) (b : Bundle),
      n.componentAt? component = some c → n.padAt? pad = some b → endpoint ≠ "" →
      StreamField.Lists d fields b → n.WiresAsBundle component endpoint pad d fields) ∧
    (∃ decl, PadDecl.standard? "udp_sink" = some decl ∧
      ∀ stem, StreamField.Lists .ingress StreamField.udp (.ofDecl decl stem)) ∧
    ∃ decl, PadDecl.standard? "udp_source" = some decl ∧
      ∀ stem, StreamField.Lists .egress StreamField.udp (.ofDecl decl stem) := by
  refine ⟨fun n component pad endpoint d fields c b => wiresAsBundle_of_lists,
    ⟨_, PadDecl.standard?_of_mem (.fields "udp_sink" 0 (PadDecl.udpStream .input .output))
      (by decide), fun stem => StreamField.lists_udp (by decide) (by decide) stem⟩,
    ⟨_, PadDecl.standard?_of_mem (.fields "udp_source" 0 (PadDecl.udpStream .output .input))
      (by decide), fun stem => StreamField.lists_udp (by decide) (by decide) stem⟩⟩

/-- A component has both streams of UDP, and its clock is connected already. -/
theorem wireStream_agrees_udp :
    let n : Netlist := ⟨[.component (.bare "port" .udpPort),
        .pad (.ofDecl (.fields "udp_sink" 0 (PadDecl.udpStream .input .output)) "in"),
        .pad (.ofDecl (.fields "udp_source" 0 (PadDecl.udpStream .output .input)) "out")],
      [⟨1, 0, ⟨"clock", "clock", 1⟩⟩]⟩
    n.WiresAsBundle 0 "sink" 1 .ingress StreamField.udp ∧
      n.WiresAsBundle 0 "source" 2 .egress StreamField.udp := by
  intro n
  obtain ⟨hagrees, ⟨sink, hsink, hingress⟩, source, hsource, hegress⟩ := wireStream_agrees
  obtain rfl : sink = .fields "udp_sink" 0 (PadDecl.udpStream .input .output) :=
    Option.some.inj (hsink.symm.trans (by decide))
  obtain rfl : source = .fields "udp_source" 0 (PadDecl.udpStream .output .input) :=
    Option.some.inj (hsource.symm.trans (by decide))
  exact ⟨hagrees n 0 1 _ _ _ _ _ rfl rfl (by decide) (hingress "in"),
    hagrees n 0 2 _ _ _ _ _ rfl rfl (by decide) (hegress "out")⟩

end Netlist

end EtherCore
