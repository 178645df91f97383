import EtherCore.Proofs.Artifact.Steps
import EtherCore.Proofs.Netlist.Wired
import EtherCore.Proofs.Pad.Grants

/-!
Steps that go as a plain outcome does: they fail with its error, and succeed where it does
(`Step.Follows`).  A bound on the pads handed out and on the names of the nodes (`Stock`) tells of
each step that hands out a pad or adds a node that it succeeds.
-/

namespace EtherCore

/-! ### Requests for standard pads -/

theorem PadDecl.filter_catalog :
    ∀ d ∈ catalog, (catalog.filter fun e => e.name = d.name) = [d] := by decide

/-- A standard pad that was not handed out is handed out by its name. -/
theorem PadRegistry.request_of_free {r : PadRegistry} (hr : r.decls = PadDecl.catalog)
    {name : String} {d : PadDecl} (hd : PadDecl.standard? name = some d)
    (hfree : ∀ x ∈ r.granted, x.1 ≠ name) :
    r.request name none = .ok (d.bundle, { r with granted := r.granted ++ [d.key] }) := by
  have hmem := List.mem_of_find?_eq_some hd
  obtain rfl : d.name = name := by simpa using List.find?_some hd
  have hdecls : r.declsOf d.name = [d] := by
    rw [declsOf, hr]
    exact PadDecl.filter_catalog d hmem
  have hnew : r.isGranted d.name d.index = false := by
    rw [isGranted, List.contains_eq_mem, decide_eq_false_iff_not]
    exact fun h => hfree _ h rfl
  have hstem : r.stemOf d = d.name := by simp [stemOf, hdecls]
  simp [request, choose, hdecls, hnew, lowest?, hstem, PadDecl.bundle]

/-! ### Connections that are always added -/

namespace Netlist

theorem exists_connectBundle {n : Netlist} {p : Nat} {b : Bundle}
    (hpad : n.nodes[p]? = some (.pad b)) (c : Nat) (lead : String) :
    ∃ k n', n.connectBundle c p lead = .ok (k, n') ∧ n'.nodes = n.nodes := by
  rw [connectBundle, padAt?_eq_some_iff.2 hpad]
  exact ⟨_, _, rfl, rfl⟩

theorem exists_wireStream {n : Netlist} {p c : Nat} {b : Bundle}
    (hpad : n.nodes[p]? = some (.pad b)) (hcomp : n.IsComponent c) {fields : List StreamField}
    (hfields : ∀ f ∈ fields, (b.width? f.name).isSome) (endpoint : String) (d : StreamDirection) :
    ∃ k n', n.wireStream c endpoint p d fields = .ok (k, n') ∧ n'.names = n.names ∧
      ∀ i, n.IsComponent i → n'.IsComponent i := by
  obtain ⟨comp, hc⟩ := hcomp
  have hcompAt : n.componentAt? c = some comp := componentAt?_eq_some_iff.2 hc
  simp only [wireStream, padAt?_eq_some_iff.2 hpad, WiredField.ofFields_eq_ok hfields, hcompAt]
  refine ⟨_, _, rfl, ?_, fun i hi => ?_⟩
  · exact names_updateComponent n c fun x => Component.name_addPorts x _
  · exact hi.updateComponent c _

end Netlist

namespace Assembly

namespace Step

variable {α β γ δ : Type} {a : Assembly}

/-! ### Steps that succeed -/

/-- A step succeeds, and what it gives and leaves is as told. -/
def Succeeds (x : Step α) (a : Assembly) (P : α → Assembly → Prop) : Prop :=
  ∃ v a', x.Yields a v a' ∧ P v a'

theorem Succeeds.mono {x : Step α} {P Q : α → Assembly → Prop} (h : x.Succeeds a P)
    (hPQ : ∀ v a', P v a' → Q v a') : x.Succeeds a Q := by
  obtain ⟨v, a', hx, hP⟩ := h
  exact ⟨v, a', hx, hPQ v a' hP⟩

/-- What a step gives and leaves is what is told of it. -/
theorem Succeeds.of_yields {x : Step α} {P : α → Assembly → Prop} (h : x.Succeeds a P) {v : α}
    {a' : Assembly} (hx : x.Yields a v a') : P v a' := by
  obtain ⟨w, a₁, hw, hP⟩ := h
  cases hw.symm.trans hx
  exact hP

theorem succeeds_pure {v : α} {P : α → Assembly → Prop} (h : P v a) :
    (pure v : Step α).Succeeds a P := ⟨v, a, yields_pure_iff.2 ⟨rfl, rfl⟩, h⟩

theorem Succeeds.bind {x : Step α} {f : α → Step β} {P : α → Assembly → Prop}
    {Q : β → Assembly → Prop} (h : x.Succeeds a P)
    (hf : ∀ u a₁, P u a₁ → (f u).Succeeds a₁ Q) : (x >>= f).Succeeds a Q := by
  obtain ⟨u, a₁, hx, hP⟩ := h
  obtain ⟨v, a', hfu, hQ⟩ := hf u a₁ hP
  exact ⟨v, a', yields_bind_iff.2 ⟨u, a₁, hx, hfu⟩, hQ⟩

/-! ### Steps that follow an outcome -/

/-- A step goes as an outcome does: it fails with the same error, and where the outcome has a value
it succeeds, and what it gives and leaves is related to the value. -/
def Follows (x : Step α) (a : Assembly) (o : Outcome γ) (P : γ → α → Assembly → Prop) : Prop :=
  match o with
  | .error e => (x.run a).1 = .error e
  | .ok w => x.Succeeds a (P w)

theorem Follows.bind {x : Step α} {f : α → Step β} {o : Outcome γ} {g : γ → Outcome δ}
    {P : γ → α → Assembly → Prop} {Q : δ → β → Assembly → Prop} (h : x.Follows a o P)
    (hf : ∀ w u a₁, P w u a₁ → (f u).Follows a₁ (g w) Q) : (x >>= f).Follows a (o >>= g) Q := by
  cases o with
  | error e =>
    show ((x >>= f).run a).1 = .error e
    have hx : (x.run a).1 = .error e := h
    rw [run_bind]
    rcases hrun : x.run a with ⟨o', a₁⟩
    rw [hrun] at hx
    obtain rfl : o' = .error e := hx
    rfl
  | ok w =>
    obtain ⟨u, a₁, hx, hP⟩ := h
    have hrun : (x >>= f).run a = (f u).run a₁ := by
      rw [run_bind, show x.run a = (.ok u, a₁) from hx]
    have hnext := hf w u a₁ hP
    show (x >>= f).Follows a (g w) Q
    unfold Follows Succeeds Yields at *
    rw [hrun]
    exact hnext

theorem Follows.of_yields {x : Step α} {o : Outcome γ} {P : γ → α → Assembly → Prop}
    (h : x.Follows a o P) {v : α} {a' : Assembly} (hx : x.Yields a v a') :
    ∃ w, o = .ok w ∧ P w v a' := by
  cases o with
  | error e =>
    have herror : (x.run a).1 = .error e := h
    rw [show x.run a = (.ok v, a') from hx] at herror
    cases herror
  | ok w => exact ⟨w, rfl, Succeeds.of_yields h hx⟩

/-- A step that succeeds goes before one that follows an outcome. -/
theorem Succeeds.follows {x : Step α} {f : α → Step β} {o : Outcome γ}
    {P : α → Assembly → Prop} {Q : γ → β → Assembly → Prop} (h : x.Succeeds a P)
    (hf : ∀ u a₁, P u a₁ → (f u).Follows a₁ o Q) : (x >>= f).Follows a o Q :=
  Follows.bind (o := .ok ()) (g := fun _ => o) (P := fun _ => P) h fun _ => hf

/-- An outcome that is lifted follows the one that it is computed from. -/
theorem follows_lift {x : Outcome α} {o : Outcome γ} {f : γ → α} (h : x = o.map f) :
    (liftM x : Step α).Follows a o fun w v a' => v = f w ∧ a' = a := by
  subst h
  cases o with
  | error e => rfl
  | ok w => exact ⟨f w, a, yields_lift_iff.2 ⟨rfl, rfl⟩, rfl, rfl⟩

theorem follows_pure {v : α} {w : γ} {P : γ → α → Assembly → Prop} (h : P w v a) :
    (pure v : Step α).Follows a (.ok w) P := succeeds_pure h

end Step

open Step

/-! ### Bounds on what is used -/

/-- An assembly in a system, with bounds on the pads handed out and on the names of the nodes. -/
structure Stock (soc : Soc) (granted names : List String) (a : Assembly) : Prop where
  soc : a.soc = soc
  decls : a.pads.decls = PadDecl.catalog
  granted : ∀ x ∈ a.pads.granted, x.1 ∈ granted
  names : a.netlist.names ⊆ names

namespace Stock

open Netlist

variable {soc : Soc} {granted names : List String} {a : Assembly}

theorem start (soc : Soc) : Stock soc [] [] (start soc) :=
  ⟨rfl, rfl, fun _ hx => absurd hx List.not_mem_nil, List.Subset.refl _⟩

theorem mono (h : Stock soc granted names a) {granted' names' : List String}
    (hgranted : granted ⊆ granted') (hnames : names ⊆ names') : Stock soc granted' names' a :=
  ⟨h.soc, h.decls, fun x hx => hgranted (h.granted x hx), List.Subset.trans h.names hnames⟩

theorem place (h : Stock soc granted names a) (name : String) (region : Region) :
    (place name region).Follows a (soc.bus.addSlave name region) fun r p a' =>
      p = r.1 ∧ Stock { soc with bus := r.2 } granted names a' := by
  obtain ⟨rfl, hdecls, hgranted, hnames⟩ := h
  cases hadd : a.soc.bus.addSlave name region with
  | error e => simp only [Follows, Step.place, ExceptT.run, hadd]
  | ok r => exact ⟨r.1, _, yields_place_iff.2 ⟨r.2, hadd, rfl⟩, rfl, rfl, hdecls, hgranted, hnames⟩

theorem takePage (h : Stock soc granted names a) (name : String) :
    (takePage name).Follows a (soc.csr.alloc name) fun r p a' =>
      p = r.1 ∧ Stock { soc with csr := r.2 } granted names a' := by
  obtain ⟨rfl, hdecls, hgranted, hnames⟩ := h
  cases halloc : a.soc.csr.alloc name with
  | error e => simp only [Follows, Step.takePage, ExceptT.run, halloc]
  | ok r =>
    exact ⟨r.1, _, yields_takePage_iff.2 ⟨r.2, halloc, rfl⟩, rfl, rfl, hdecls, hgranted, hnames⟩

theorem takePad (h : Stock soc granted names a) {name : String} {d : PadDecl}
    (hd : PadDecl.standard? name = some d) (hfree : name ∉ granted) :
    (takePad name none).Succeeds a fun b a' =>
      b = d.bundle ∧ a'.netlist = a.netlist ∧ Stock soc (granted ++ [name]) names a' := by
  have hrequest := PadRegistry.request_of_free h.decls hd fun x hx hname =>
    hfree (hname ▸ h.granted x hx)
  have hname : d.name = name := by simpa using List.find?_some hd
  refine ⟨_, _, yields_takePad_iff.2 ⟨_, hrequest, rfl⟩, rfl, rfl, h.soc, h.decls, ?_, h.names⟩
  intro x hx
  rcases List.mem_append.1 hx with hx | hx
  · exact List.mem_append_left _ (h.granted x hx)
  · rw [List.mem_singleton.1 hx]
    exact List.mem_append_right _ (List.mem_singleton.2 hname)

/-! ### Nodes and connections -/

/-- A change of the netlist that keeps to a bound on the names. -/
theorem onNetlist {α : Type} (h : Stock soc granted names a) {f : Netlist → Outcome (α × Netlist)}
    {v : α} {n : Netlist} (hf : f a.netlist = .ok (v, n)) {names' : List String}
    (hnames : n.names ⊆ names') :
    (onNetlist f).Succeeds a fun u a' => u = v ∧ a'.netlist = n ∧ Stock soc granted names' a' :=
  ⟨v, _, yields_onNetlist_iff.2 ⟨n, hf, rfl⟩, rfl, rfl, h.soc, h.decls, h.granted, hnames⟩

theorem addNode (h : Stock soc granted names a) {x : Node} (hname : x.name ∉ names) :
    (Step.onNetlist fun n => n.add x).Succeeds a fun i a' => i = a.netlist.nodes.length ∧
      a'.netlist.nodes = a.netlist.nodes ++ [x] ∧ Stock soc granted (names ++ [x.name]) a' := by
  have hadd := add_eq_ok_iff.2 ⟨fun hmem => hname (h.names hmem), rfl, rfl⟩
  have hnames : Netlist.names ⟨a.netlist.nodes ++ [x], a.netlist.edges⟩ ⊆ names ++ [x.name] := by
    rw [names_concat]
    exact List.append_subset.2 ⟨List.subset_append_of_subset_left _ h.names,
      List.subset_append_right _ _⟩
  refine (h.onNetlist hadd hnames).mono fun i a' => ?_
  rintro ⟨rfl, hnetlist, hstock⟩
  exact ⟨rfl, congrArg Netlist.nodes hnetlist, hstock⟩

theorem addComponent (h : Stock soc granted names a) {c : Component} (name : String)
    (hc : c.name = name) (hname : name ∉ names) :
    (addComponent c).Succeeds a fun i a' =>
      a'.netlist.IsComponent i ∧ Stock soc granted (names ++ [name]) a' := by
  subst hc
  refine (h.addNode (x := .component c) hname).mono fun i a' => ?_
  rintro ⟨rfl, hnodes, hstock⟩
  exact ⟨⟨c, by rw [hnodes, List.getElem?_concat_length]⟩, hstock⟩

theorem addPad (h : Stock soc granted names a) {b : Bundle} (hname : b.stem ∉ names) :
    (addPad b).Succeeds a fun p a' => a'.netlist.nodes[p]? = some (.pad b) ∧
      (∀ i, a.netlist.IsComponent i → a'.netlist.IsComponent i) ∧
        Stock soc granted (names ++ [b.stem]) a' := by
  refine (h.addNode (x := .pad b) hname).mono fun i a' => ?_
  rintro ⟨rfl, hnodes, hstock⟩
  refine ⟨by rw [hnodes, List.getElem?_concat_length], fun i hi => ?_, hstock⟩
  obtain ⟨c, hc⟩ := hi.append [.pad b] []
  exact ⟨c, hnodes ▸ hc⟩

theorem connect (h : Stock soc granted names a) (driver receiver : Nat) (c : Connection) :
    (connect driver receiver c).Succeeds a fun _ a' =>
      a'.netlist.nodes = a.netlist.nodes ∧ Stock soc granted names a' :=
  ⟨(), _, yields_connect_iff.2 rfl, rfl, h.soc, h.decls, h.granted, h.names⟩

theorem connectBundle (h : Stock soc granted names a) {p : Nat} {b : Bundle}
    (hpad : a.netlist.nodes[p]? = some (.pad b)) (c : Nat) (lead : String) :
    (connectBundle c p lead).Succeeds a fun _ a' =>
      a'.netlist.nodes = a.netlist.nodes ∧ Stock soc granted names a' := by
  obtain ⟨k, n, hn, hnodes⟩ := exists_connectBundle hpad c lead
  have hnames : n.names ⊆ names := by
    rw [Netlist.names, hnodes]
    exact h.names
  refine (h.onNetlist hn hnames).mono fun _ a' => ?_
  rintro ⟨-, rfl, hstock⟩
  exact ⟨hnodes, hstock⟩

theorem wireStream (h : Stock soc granted names a) {p c : Nat} {b : Bundle}
    (hpad : a.netlist.nodes[p]? = some (.pad b)) (hcomp : a.netlist.IsComponent c)
    {fields : List StreamField} (hfields : ∀ f ∈ fields, (b.width? f.name).isSome)
    (endpoint : String) (d : StreamDirection) :
    (wireStream c endpoint p d fields).Succeeds a fun _ a' =>
      (∀ i, a.netlist.IsComponent i → a'.netlist.IsComponent i) ∧ Stock soc granted names a' := by
  obtain ⟨k, n, hn, hnames, hkept⟩ := exists_wireStream hpad hcomp hfields endpoint d
  refine (h.onNetlist hn (hnames ▸ h.names)).mono fun _ a' => ?_
  rintro ⟨-, rfl, hstock⟩
  exact ⟨hkept, hstock⟩

/-! ### Pads by name -/

theorem requestPad (h : Stock soc granted names a) {name : String} {d : PadDecl}
    (hd : PadDecl.standard? name = some d) (hfree : name ∉ granted) (hname : name ∉ names) :
    (requestPad name).Succeeds a fun p a' => a'.netlist.nodes[p]? = some (.pad d.bundle) ∧
      (∀ i, a.netlist.IsComponent i → a'.netlist.IsComponent i) ∧
        Stock soc (granted ++ [name]) (names ++ [name]) a' := by
  have hstem : d.bundle.stem = name := by
    show d.name = name
    simpa using List.find?_some hd
  refine (h.takePad hd hfree).bind fun b a₁ => ?_
  rintro ⟨rfl, hsame, h₁⟩
  rw [← hstem] at hname
  have h₂ := h₁.addPad hname
  rw [hsame, hstem] at h₂
  exact h₂

theorem attachPad (h : Stock soc granted names a) {name : String} {d : PadDecl}
    (hd : PadDecl.standard? name = some d) (hfree : name ∉ granted) (hname : name ∉ names)
    (c : Nat) (lead : String) :
    (attachPad c name lead).Succeeds a fun _ a' =>
      Stock soc (granted ++ [name]) (names ++ [name]) a' := by
  refine (h.requestPad hd hfree hname).bind fun p a₁ ⟨hpad, _, h₁⟩ => ?_
  exact (h₁.connectBundle hpad c lead).bind fun _ a₂ h₂ => succeeds_pure h₂.2

end Stock

end Assembly

end EtherCore
