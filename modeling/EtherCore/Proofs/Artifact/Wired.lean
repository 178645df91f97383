import EtherCore.Proofs.Artifact.Steps
import EtherCore.Proofs.Netlist.Wired
import EtherCore.Proofs.Pad.Grants

/-!
Assemblies whose netlist is wired, with all pads that were handed out in the netlist or still held.
Each step of the composition keeps this, and takes from what is held and loose what it adds to the
netlist.
-/

namespace EtherCore.Assembly

open Netlist Step

/-- The netlist is wired but for loose joints, and the pads handed out are those of the netlist and
after them the held ones. -/
structure Wired (a : Assembly) (held : List Bundle) (loose : Multiset (Nat × Joint)) : Prop where
  netlist : a.netlist.Wired loose
  decls : a.pads.decls = PadDecl.catalog
  granted : a.pads.granted = (a.netlist.pads ++ held).map fun b => b.key
  once : a.pads.granted.Nodup

namespace Wired

variable {a a' : Assembly} {held : List Bundle} {loose rest : Multiset (Nat × Joint)}

theorem start (soc : Soc) : (start soc).Wired [] 0 :=
  ⟨wired_empty, rfl, rfl, List.nodup_nil⟩

theorem place (h : a.Wired held loose) {name : String} {region : Region} {p : PlacedRegion}
    (hstep : (place name region).Yields a p a') : a'.Wired held loose := by
  obtain ⟨bus, -, rfl⟩ := yields_place_iff.1 hstep
  exact ⟨h.netlist, h.decls, h.granted, h.once⟩

theorem takePage (h : a.Wired held loose) {name : String} {p : CsrPage}
    (hstep : (takePage name).Yields a p a') : a'.Wired held loose := by
  obtain ⟨csr, -, rfl⟩ := yields_takePage_iff.1 hstep
  exact ⟨h.netlist, h.decls, h.granted, h.once⟩

theorem takePad (h : a.Wired held loose) {name : String} {index : Option UInt32} {b : Bundle}
    (hstep : (takePad name index).Yields a b a') {d : PadDecl}
    (hd : PadDecl.standard? name = some d) : b = d.bundle ∧ a'.Wired (held ++ [b]) loose := by
  obtain ⟨pads, hpads, rfl⟩ := yields_takePad_iff.1 hstep
  obtain ⟨hb, hfree, rfl⟩ := PadRegistry.request_standard h.decls hpads hd
  refine ⟨hb, h.netlist, h.decls, ?_, ?_⟩
  · show a.pads.granted ++ [b.key] = _
    rw [h.granted]
    simp
  · show (a.pads.granted ++ [b.key]).Nodup
    rw [← List.concat_eq_append]
    exact h.once.concat hfree

theorem addComponent (h : a.Wired held loose) {c : Component} {i : Nat}
    (hstep : (addComponent c).Yields a i a') {js : List Joint} (hjs : c.joints ⊆ js)
    (hports : (js.map Joint.port).Nodup) : a'.Wired held (loose + atNode i js) := by
  obtain ⟨n, hn, rfl⟩ := yields_onNetlist_iff.1 hstep
  refine ⟨h.netlist.addComponent hn hjs hports, h.decls, ?_, h.once⟩
  obtain ⟨-, rfl, -⟩ := add_eq_ok hn
  rw [pads_append_component]
  exact h.granted

theorem connect {driver receiver : Nat} {c : Connection} {u : Unit}
    (h : a.Wired held ((Edge.joints ⟨driver, receiver, c⟩ : List (Nat × Joint)) + rest))
    (hstep : (connect driver receiver c).Yields a u a') : a'.Wired held rest := by
  obtain rfl := yields_connect_iff.1 hstep
  exact ⟨h.netlist.connect, h.decls, h.granted, h.once⟩

/-- A held pad is added, and connections after it that change no pads. -/
theorem ofPad {b : Bundle} {p : Nat} {n₁ n₂ : Netlist} (h : a.Wired (b :: held) loose)
    (hadd : a.netlist.addPad b = .ok (p, n₁)) (hpads : n₂.pads = n₁.pads) (hn₂ : n₂.Wired rest) :
    Wired { a with netlist := n₂ } held rest := by
  refine ⟨hn₂, h.decls, ?_, h.once⟩
  obtain ⟨-, rfl, -⟩ := add_eq_ok hadd
  rw [hpads, pads_append_pad, List.append_assoc]
  exact h.granted

/-- A held pad is added and connected to the loose joints of a component. -/
theorem connectPad {b : Bundle} {c p k : Nat} {lead : String} {a₁ : Assembly}
    (h : a.Wired (b :: held) (atNode c (b.innerJoints lead) + rest))
    (hports : (b.joints.map Joint.port).Nodup) (hadd : (addPad b).Yields a p a₁)
    (hconnect : (connectBundle c p lead).Yields a₁ k a') : a'.Wired held rest := by
  obtain ⟨n₁, hn₁, rfl⟩ := yields_onNetlist_iff.1 hadd
  obtain ⟨n₂, hn₂, rfl⟩ := yields_onNetlist_iff.1 hconnect
  exact h.ofPad hn₁ (pads_connectBundle hn₂) (h.netlist.connectBundle hports hn₁ hn₂)

/-- A held pad is added, and a stream between it and a component is wired. -/
theorem streamPad {b : Bundle} {c p k : Nat} {endpoint : String} {d : StreamDirection}
    {fields : List StreamField} {wired : List WiredField} {a₁ : Assembly}
    (h : a.Wired (b :: held) (atNode c (wired.map (WiredField.innerJoint endpoint)) + rest))
    (hfields : WiredField.ofFields b d fields = .ok wired)
    (houter : (wired.map (WiredField.joint b)).Perm b.joints)
    (hports : (b.joints.map Joint.port).Nodup) (hadd : (addPad b).Yields a p a₁)
    (hwire : (wireStream c endpoint p d fields).Yields a₁ k a') : a'.Wired held rest := by
  obtain ⟨n₁, hn₁, rfl⟩ := yields_onNetlist_iff.1 hadd
  obtain ⟨n₂, hn₂, rfl⟩ := yields_onNetlist_iff.1 hwire
  exact h.ofPad hn₁ (pads_wireStream hn₂) (h.netlist.wireStream hfields houter hports hn₁ hn₂)

/-- The signals of a pad that every core starts from have ports of their own. -/
theorem nodup_ports_of_standard? {name : String} {d : PadDecl}
    (hd : PadDecl.standard? name = some d) : (d.bundle.joints.map Joint.port).Nodup := by
  rw [Bundle.map_port_joints]
  exact PadDecl.nodup_ports_bundle d (List.mem_of_find?_eq_some hd)

/-- A pad is handed out, added and connected. -/
theorem attachPad {c p : Nat} {name lead : String} {d : PadDecl}
    (hd : PadDecl.standard? name = some d)
    (h : a.Wired [] (atNode c (d.bundle.innerJoints lead) + rest))
    (hstep : (attachPad c name lead).Yields a p a') : a'.Wired [] rest := by
  obtain ⟨b, a₁, a₂, k, htake, hadd, hconnect⟩ := yields_attachPad_iff.1 hstep
  obtain ⟨rfl, h₁⟩ := h.takePad htake hd
  exact h₁.connectPad (nodup_ports_of_standard? hd) hadd hconnect

end Wired

end EtherCore.Assembly
