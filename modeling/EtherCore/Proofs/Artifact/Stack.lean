import EtherCore.Proofs.Artifact.Complete
import EtherCore.Proofs.Artifact.Declared
import EtherCore.Proofs.Artifact.FailureSet
import EtherCore.Proofs.Netlist.Grown
import EtherCore.Proofs.Netlist.Parts

/-!
The UDP stack of a core and its addresses.  The stack stays as it is described when it is added, and
the nodes after it are known by name (`Grows.buildUdp`).  So an address that is given is a parameter
of the stack and no pads are there for it (`fixes_of_compose`), and any other is read from the pads
of its name (`reads_of_compose`).
-/

namespace EtherCore

open Component Netlist

/-! ### Addresses -/

/-- The addresses of a UDP stack. -/
inductive AddressKey where
  | mac
  | ip

namespace AddressKey

/-- The name of an address as a parameter, as a port, and of its pads. -/
def name : AddressKey → String
  | mac => "mac_address"
  | ip => "ip_address"

/-- The width of an address in bits. -/
def width : AddressKey → UInt32
  | mac => 48
  | ip => 32

/-- An address in the settings of a UDP stack, as the word that stands for it. -/
def given? : AddressKey → UdpSettings → Option UInt64
  | mac, u => u.mac.map MacAddress.toWord
  | ip, u => u.ip.map fun a => a.value.toUInt64

/-- The pads that an address is read from. -/
def pads (k : AddressKey) : Bundle := (PadDecl.pins k.name 0 k.width .input).bundle

end AddressKey

namespace Assembly

open Step

/-! ### Assemblies that grow -/

/-- An assembly goes on from another by nodes of some names: its netlist does, and the same pads are
declared. -/
structure Grows (m : Nat) (names : List String) (a a' : Assembly) : Prop where
  netlist : a.netlist.Grows m names a'.netlist
  decls : a'.pads.decls = a.pads.decls

/-- The names of the pads that an address is read from, if it is not given. -/
def addressNames {α : Type} (name : String) (address : Option α) : List String :=
  if address.isNone then [name] else []

/-- The names of the nodes of a UDP stack and its port. -/
def stackNames (u : UdpSettings) : List String :=
  [stackName] ++ (addressNames "mac_address" u.mac ++ addressNames "ip_address" u.ip)
    ++ [portName, "udp_sink", "udp_source"]

namespace Grows

variable {m : Nat} {names names' : List String} {a a' a'' : Assembly}

theorem refl (a : Assembly) : a.Grows m [] a := ⟨.refl _, rfl⟩

theorem trans (h : a.Grows m names a') (h' : a'.Grows m names' a'') :
    a.Grows m (names ++ names') a'' :=
  ⟨h.netlist.trans h'.netlist, h'.decls.trans h.decls⟩

theorem of_onNetlist {α : Type} {f : Netlist → Outcome (α × Netlist)} {v : α}
    (hf : ∀ n n' : Netlist, f n = .ok (v, n') → n.Grows m names n')
    (hstep : (onNetlist f).Yields a v a') : a.Grows m names a' := by
  obtain ⟨n, hn, rfl⟩ := yields_onNetlist_iff.1 hstep
  exact ⟨hf _ _ hn, rfl⟩

theorem addComponent {c : Component} {i : Nat} (hstep : (addComponent c).Yields a i a') :
    a.Grows m [c.name] a' := of_onNetlist (fun _ _ h => .add h) hstep

theorem connect {driver receiver : Nat} {c : Connection} {u : Unit}
    (hstep : (connect driver receiver c).Yields a u a') : a.Grows m [] a' := by
  obtain rfl := yields_connect_iff.1 hstep
  exact ⟨.connect _, rfl⟩

theorem wireStream {c p k : Nat} (hc : m ≤ c) {endpoint : String} {d : StreamDirection}
    {fields : List StreamField} (hstep : (wireStream c endpoint p d fields).Yields a k a') :
    a.Grows m [] a' := of_onNetlist (fun _ _ h => .wireStream hc h) hstep

/-- A pad that is asked for by its name alone is in the netlist under that name. -/
theorem requestPad (hdecls : a.pads.decls = PadDecl.catalog) {name : String} {d : PadDecl}
    (hd : PadDecl.standard? name = some d) {p : Nat} (hstep : (requestPad name).Yields a p a') :
    a.Grows m [name] a' ∧ a'.netlist.nodes[p]? = some (.pad d.bundle) := by
  have hname : d.bundle.stem = name := by
    show d.name = name
    simpa using List.find?_some hd
  obtain ⟨b, a₁, htake, hadd⟩ := yields_bind_iff.1 hstep
  obtain ⟨rfl, hsame, hext⟩ := Extends.takePad (fun _ => False) hdecls hd htake
  have h₁ : a.Grows m [] a₁ := ⟨hsame ▸ .refl _, hext.decls⟩
  have h₂ : a₁.Grows m [d.bundle.stem] a' := of_onNetlist (fun _ _ h => .add h) hadd
  rw [hname] at h₂
  exact ⟨h₁.trans h₂, (Extends.addPad (fun _ => False) hadd).2⟩

theorem attachPad (hdecls : a.pads.decls = PadDecl.catalog) {c p : Nat} {name lead : String}
    {d : PadDecl} (hd : PadDecl.standard? name = some d)
    (hstep : (attachPad c name lead).Yields a p a') :
    a.Grows m [name] a' ∧ a'.netlist.Attached c d.bundle lead := by
  simp only [Step.attachPad, yields_bind_iff, yields_pure_iff] at hstep
  obtain ⟨p', a₁, hpad, k, a₂, hconnect, rfl, rfl⟩ := hstep
  obtain ⟨h₁, hp⟩ := requestPad hdecls hd hpad
  have h₂ : a₁.Grows m [] a₂ := of_onNetlist (fun _ _ h => .connectBundle h) hconnect
  obtain ⟨n, hn, rfl⟩ := yields_onNetlist_iff.1 hconnect
  exact ⟨h₁.trans h₂, attached_of_connectBundle hp hn⟩

/-! ### Builders -/

theorem bindPhy {k : PhyKind} {phy core : Nat} {u : Unit}
    (hstep : (bindPhy k phy core).Yields a u a') : a.Grows m [] a' := by
  simp only [Step.bindPhy, yields_bind_iff] at hstep
  obtain ⟨_, a₁, hrx, htx⟩ := hstep
  exact (connect hrx).trans (connect htx)

theorem attachAddress (hdecls : a.pads.decls = PadDecl.catalog) {α : Type} {core : Nat}
    {name : String} {address : Option α} {d : PadDecl} (hd : PadDecl.standard? name = some d)
    {u : Unit} (hstep : (attachAddress core name address).Yields a u a') :
    a.Grows m (addressNames name address) a' ∧
      (address = none → a'.netlist.Attached core d.bundle name) := by
  unfold Step.attachAddress at hstep
  unfold addressNames
  cases address with
  | none =>
    simp only [Option.isNone_none, if_true, yields_bind_iff, yields_pure_iff] at hstep ⊢
    obtain ⟨p, a₁, hpad, -, rfl⟩ := hstep
    obtain ⟨h₁, hattached⟩ := attachPad hdecls hd hpad
    exact ⟨h₁, fun _ => hattached⟩
  | some x =>
    obtain ⟨-, rfl⟩ := yields_pure_iff.1 hstep
    exact ⟨.refl a, fun h => nomatch h⟩

/-- A stack stays as it is while it is connected, and is attached to the pads of the addresses that
are not given. -/
theorem connectStack (hdecls : a.pads.decls = PadDecl.catalog) {k : PhyKind} {u : UdpSettings}
    {phy core : Nat} {a₁ a₂ : Assembly} {v v₁ v₂ : Unit}
    (hbind : (Step.bindPhy k phy core).Yields a v a₁)
    (hmac : (Step.attachAddress core "mac_address" u.mac).Yields a₁ v₁ a₂)
    (hip : (Step.attachAddress core "ip_address" u.ip).Yields a₂ v₂ a') :
    (∀ m, a.Grows m (addressNames "mac_address" u.mac ++ addressNames "ip_address" u.ip) a') ∧
      ∀ key : AddressKey, key.given? u = none → a'.netlist.Attached core key.pads key.name := by
  have h₁ (m : Nat) : a.Grows m [] a₁ := bindPhy hbind
  have hdecls₁ : a₁.pads.decls = PadDecl.catalog := (h₁ 0).decls.trans hdecls
  have h₂ (m : Nat) := attachAddress (m := m) hdecls₁ rfl hmac
  have hdecls₂ : a₂.pads.decls = PadDecl.catalog := (h₂ 0).1.decls.trans hdecls₁
  have h₃ (m : Nat) := attachAddress (m := m) hdecls₂ rfl hip
  refine ⟨fun m => ((h₁ m).trans (h₂ m).1).trans (h₃ m).1, fun key hnone => ?_⟩
  cases key with
  | mac =>
    have hattached := (h₂ 0).2 (Option.map_eq_none_iff.1 hnone)
    exact hattached.grows (Nat.le_refl _) (h₃ _).1.netlist
  | ip => exact (h₃ 0).2 (Option.map_eq_none_iff.1 hnone)

/-- The port of a stack comes after all other nodes, so that its streams change none of them. -/
theorem connectPort (hdecls : a.pads.decls = PadDecl.catalog) {n : UInt16}
    {core port p q k l : Nat} {c : Connection} {u : Unit} {a₁ a₂ a₃ a₄ a₅ : Assembly}
    {fields fields' : List StreamField}
    (hport : (Step.addComponent (.udpPort n)).Yields a port a₁)
    (hcross : (Step.connect core port c).Yields a₁ u a₂)
    (hsink : (Step.requestPad "udp_sink").Yields a₂ p a₃)
    (hsink' : (Step.wireStream port "sink" p .ingress fields).Yields a₃ k a₄)
    (hsource : (Step.requestPad "udp_source").Yields a₄ q a₅)
    (hsource' : (Step.wireStream port "source" q .egress fields').Yields a₅ l a') :
    a.Grows a.netlist.nodes.length [portName, "udp_sink", "udp_source"] a' := by
  have hlength : a.netlist.nodes.length ≤ port := by
    obtain ⟨n, hn, -⟩ := yields_onNetlist_iff.1 hport
    exact Nat.le_of_eq (add_eq_ok hn).1.symm
  generalize a.netlist.nodes.length = m at hlength
  have h₂ : a.Grows m [portName] a₂ := (addComponent hport).trans (connect hcross)
  have hdecls₂ := h₂.decls.trans hdecls
  have h₄ : a₂.Grows m ["udp_sink"] a₄ :=
    (requestPad hdecls₂ rfl hsink).1.trans (wireStream hlength hsink')
  have hdecls₄ := h₄.decls.trans hdecls₂
  have h₆ : a₄.Grows m ["udp_source"] a' :=
    (requestPad hdecls₄ rfl hsource).1.trans (wireStream hlength hsource')
  exact (h₂.trans h₄).trans h₆

/-- A UDP stack is as it was described, and is attached to the pads of the addresses that are not
given. -/
theorem buildUdp (hdecls : a.pads.decls = PadDecl.catalog) {k : PhyKind} {phy : Nat}
    {u : UdpSettings} {clock : Frequency} {v : Unit}
    (hstep : (buildUdp k phy u clock).Yields a v a') :
    a'.netlist.names = a.netlist.names ++ stackNames u ∧ ∃ core : Nat,
      a'.netlist.nodes[core]? = some (.component (.udpStack k u clock)) ∧
      ∀ key : AddressKey, key.given? u = none → a'.netlist.Attached core key.pads key.name := by
  simp only [Step.buildUdp, yields_bind_iff, yields_pure_iff] at hstep
  obtain ⟨core, a₁, hcore, _, a₂, hbind, _, a₃, hmac, _, a₄, hip, port, a₅, hport, _, a₆, hcross,
    p, a₇, hsink, _, a₈, hsink', q, a₉, hsource, _, a₁₀, hsource', -, rfl⟩ := hstep
  have h₁ (m : Nat) : a.Grows m [stackName] a₁ := by
    rw [← name_udpStack k u clock]
    exact addComponent hcore
  have hdecls₁ := (h₁ 0).decls.trans hdecls
  obtain ⟨h₄, hattached⟩ := connectStack hdecls₁ hbind hmac hip
  have hafter := connectPort ((h₄ 0).decls.trans hdecls₁) hport hcross hsink hsink' hsource
    hsource'
  have hstack : a₄.netlist.nodes[core]? = some (.component (.udpStack k u clock)) :=
    (h₄ (core + 1)).netlist.nodes core (Nat.lt_succ_self core) _
      (Extends.addComponent (fun _ => False) hcore).2
  refine ⟨(((h₁ _).trans (h₄ _)).trans hafter).netlist.names, core, ?_, fun key hnone => ?_⟩
  · exact hafter.netlist.nodes core (List.getElem?_eq_some_iff.1 hstack).1 _ hstack
  · exact (hattached key hnone).grows (Nat.le_refl _) hafter.netlist

end Grows

end Assembly

/-! ### Addresses of a stack -/

theorem Component.parameter?_setAddress (c : Component) (name : String) (width : UInt32)
    (address : Option UInt64) (key : String) :
    (c.setAddress name width address).parameter? key =
      if key = name then (address.map .number).or (c.parameter? key) else c.parameter? key := by
  cases address with
  | none =>
    rw [Option.map_none, Option.none_or, ite_self]
    rfl
  | some w =>
    rw [Option.map_some, Option.some_or]
    exact Table.get?_insert c.parameters name key (.number w)

section

variable (k : PhyKind) (u : UdpSettings) (clock : Frequency) (key : AddressKey)

theorem Component.kind_udpStack : (udpStack k u clock).kind = .udpStack := by
  rcases u with ⟨- | mac, - | ip, port⟩ <;> rfl

theorem Component.parameter?_udpStack :
    (udpStack k u clock).parameter? key.name = (key.given? u).map .number := by
  have hbare : (((bare stackName .udpStack).setNumber "clk_freq" clock.hertz).addPorts
      (phyPorts k)).parameter? key.name = none := by
    rw [parameter?, parameters_addPorts]
    show (Table.empty.insert "clk_freq" (Parameter.number clock.hertz)).get? key.name = none
    rw [Table.get?_insert, if_neg (by cases key <;> decide), Table.get?_empty]
  rw [udpStack, parameter?_setAddress, parameter?_setAddress, hbare]
  cases key <;> simp [AddressKey.name, AddressKey.given?]

theorem Component.port?_udpStack :
    (udpStack k u clock).port? key.name =
      if (key.given? u).isNone then some ⟨key.name, key.width, .input⟩ else none := by
  rw [port?, ports_udpStack]
  rcases u with ⟨- | mac, - | ip, port⟩ <;> cases key <;> rfl

theorem Assembly.given?_of_mem_stackNames (h : key.name ∈ stackNames u) : key.given? u = none := by
  rcases u with ⟨- | mac, - | ip, port⟩ <;> cases key <;>
    simp_all [stackNames, addressNames, stackName, portName, AddressKey.name, AddressKey.given?]

end

namespace Artifact

/-- The stack of a core has an address as a parameter and no port for it, and no node has the name
of its pads. -/
structure Fixes (art : Artifact) (name : String) (n : Nat) : Prop where
  stack : ∃ x w, art.netlist.component? stackName = some x ∧ x.kind = .udpStack ∧
    x.parameter? name = some (.number w) ∧ w.toNat = n ∧ x.port? name = none
  pads : art.netlist.node? name = none

/-- The stack of a core has no parameter for an address but a port, which the pads of its name drive
and nothing else. -/
structure Reads (art : Artifact) (name : String) (width : UInt32) : Prop where
  stack : ∃ x, art.netlist.component? stackName = some x ∧ x.kind = .udpStack ∧
    x.parameter? name = none ∧ x.port? name = some ⟨name, width, .input⟩
  pads : art.netlist.pad? name = some (PadDecl.pins name 0 width .input).bundle
  driven : art.netlist.linksInto stackName name = [⟨name, ⟨name, name, width⟩, stackName⟩]

end Artifact

/-- The port of a component that pads are attached to, if it is an input, is driven by them and by
nothing else. -/
theorem Netlist.Attached.linksInto_eq {n : Netlist} (hn : n.Complete) {core : Nat} {x : Component}
    (hx : n.nodes[core]? = some (.component x)) {key : AddressKey}
    (h : n.Attached core key.pads key.name)
    (hport : (⟨key.name, key.width, .input⟩ : Signal) ∈ x.ports) :
    n.linksInto x.name key.name = [⟨key.name, ⟨key.name, key.name, key.width⟩, x.name⟩] := by
  have hlink := h.mem_links hx (List.mem_singleton_self _) rfl
  have hlocal : localPort key.pads key.name key.name = key.name := by
    cases key <;> rfl
  rw [hlocal] at hlink
  obtain ⟨l, hl, -⟩ := hn.inputs x (mem_components_iff.2 ⟨core, hx⟩) _ hport rfl
  have hinto : _ ∈ n.linksInto x.name key.name := List.mem_filter.2 ⟨hlink, by simp [Node.name]⟩
  rw [hl, List.mem_singleton] at hinto
  rw [hl, ← hinto]
  rfl

namespace Config

variable {c : Config} {art : Artifact} {log : Log} {u : UdpSettings}

/-- The stack of a UDP core is as the configuration describes it, and the nodes after it are its
own. -/
theorem exists_stack (h : c.compose = (.ok art, log)) (hcore : c.core = .udp u) :
    (∃ names ⊆ Assembly.phyNames, art.netlist.names = names ++ Assembly.stackNames u) ∧
      ∃ core : Nat, art.netlist.nodes[core]? = some (.component (.udpStack art.phy u c.clock)) ∧
        ∀ key : AddressKey, key.given? u = none →
          art.netlist.Attached core key.pads key.name := by
  obtain ⟨k, a, ⟨soc, -, hbuild⟩, rfl, -⟩ := compose_eq_ok_iff.1 h
  simp only [Assembly.Step.build, Assembly.Step.yields_bind_iff, Assembly.Step.yields_pure_iff]
    at hbuild
  obtain ⟨_, a₁, hcrg, ⟨k', phy⟩, a₂, hphy, _, a₃, hstep, rfl, rfl⟩ := hbuild
  have h₁ := ((Assembly.Stock.start soc).buildCrg c.clock).of_yields hcrg
  obtain ⟨w, -, -, h₂⟩ := (h₁.buildPhy c).of_yields hphy
  rw [Assembly.Step.buildCore, hcore] at hstep
  obtain ⟨hnames, hstack⟩ := Assembly.Grows.buildUdp h₂.decls hstep
  exact ⟨⟨a₂.netlist.names, h₂.names, hnames⟩, hstack⟩

theorem complete_of_compose (h : c.compose = (.ok art, log)) :
    art.netlist.Complete ∧ art.netlist.names.Nodup := by
  obtain ⟨k, a, hassembles, rfl, -⟩ := compose_eq_ok_iff.1 h
  exact ⟨hassembles.wired.netlist.complete, hassembles.nodup_names⟩

/-- The stack of a UDP core is found by its name. -/
theorem component?_stack {core : Nat} (h : c.compose = (.ok art, log))
    (hx : art.netlist.nodes[core]? = some (.component (.udpStack art.phy u c.clock))) :
    art.netlist.component? stackName = some (.udpStack art.phy u c.clock) := by
  rw [← name_udpStack art.phy u c.clock]
  exact component?_of_mem (complete_of_compose h).2 (mem_components_iff.2 ⟨core, hx⟩)

/-- An address that is given is fixed in a UDP core. -/
theorem fixes_of_compose (h : c.compose = (.ok art, log)) (hcore : c.core = .udp u)
    {key : AddressKey} {w : UInt64} (hgiven : key.given? u = some w) :
    art.Fixes key.name w.toNat := by
  obtain ⟨⟨names, hnames, hall⟩, core, hx, -⟩ := exists_stack h hcore
  have hparameter := parameter?_udpStack art.phy u c.clock key
  have hport := port?_udpStack art.phy u c.clock key
  rw [hgiven] at hparameter hport
  refine ⟨⟨_, w, component?_stack h hx, kind_udpStack _ _ _, hparameter, rfl, hport⟩, ?_⟩
  refine node?_eq_none_iff.2 fun hmem => ?_
  rw [hall] at hmem
  rcases List.mem_append.1 hmem with hmem | hmem
  · have hnew : key.name ∉ Assembly.phyNames := by cases key <;> decide
    exact hnew (hnames hmem)
  · rw [Assembly.given?_of_mem_stackNames u key hmem] at hgiven
    cases hgiven

/-- An address that is not given is read from pads in a UDP core. -/
theorem reads_of_compose (h : c.compose = (.ok art, log)) (hcore : c.core = .udp u)
    {key : AddressKey} (hgiven : key.given? u = none) : art.Reads key.name key.width := by
  obtain ⟨-, core, hx, hattached⟩ := exists_stack h hcore
  obtain ⟨hcomplete, hnames⟩ := complete_of_compose h
  have hparameter := parameter?_udpStack art.phy u c.clock key
  have hport := port?_udpStack art.phy u c.clock key
  rw [hgiven] at hparameter hport
  have hpad := hattached key hgiven
  have hdriven := hpad.linksInto_eq hcomplete hx (List.mem_of_find?_eq_some hport)
  rw [name_udpStack] at hdriven
  exact ⟨⟨_, component?_stack h hx, kind_udpStack _ _ _, hparameter, hport⟩,
    hpad.pad?_eq_some hnames, hdriven⟩

end Config

end EtherCore
