import EtherCore.Proofs.Artifact.Parts
import EtherCore.Proofs.Soc.Errors
import EtherCore.Proofs.Table

/-!
Options that have no part in a core.  A configuration is muted by dropping its interrupts, the
origins of regions that no core has and the arguments that do not shape the bus.  Every step of the
composition does on the muted assembly what it does on the assembly itself (`Step.Mutes`), and so
cores that differ only in what is dropped differ only in their interrupts (`compose_alike`).
-/

namespace EtherCore

open Component Netlist

/-! ### Entries of some names -/

/-- The entries of a table under some names. -/
def Table.only {α : Type} (names : List String) (t : Table α) : Table α :=
  ⟨t.entries.filter fun e => e.1 ∈ names, t.ascending.filter _⟩

theorem Table.get?_only {α : Type} (names : List String) (t : Table α) (k : String) :
    (t.only names).get? k = if k ∈ names then t.get? k else none := by
  simpa [only] using get?_filter (fun k => decide (k ∈ names)) t k

theorem Table.only_congr {α : Type} {names : List String} {t u : Table α}
    (h : ∀ k ∈ names, t.get? k = u.get? k) : t.only names = u.only names := by
  refine ext_get? fun k => ?_
  rw [get?_only, get?_only]
  by_cases hk : k ∈ names
  · rw [if_pos hk, if_pos hk, h k hk]
  · rw [if_neg hk, if_neg hk]

/-! ### Muted systems -/

/-- The arguments that shape the bus and the window of registers. -/
def Soc.shapingArgs : List String := ["bus_address_width", "csr_paging", "csr_address_width"]

/-- The names whose regions have an origin in a core. -/
def Soc.placedNames : List String := ["csr", macName]

/-- The maps without interrupts and without origins that are not asked for. -/
def SocMaps.muted (m : SocMaps) : SocMaps := ⟨m.csr, .empty, m.memory.only Soc.placedNames⟩

/-- The options that have a part in a core. -/
def SocOptions.muted (o : SocOptions) : SocOptions := ⟨o.args.only Soc.shapingArgs, o.maps.muted⟩

/-- The configuration with the options that have a part in a core. -/
def Config.muted (c : Config) : Config := { c with soc := c.soc.muted }

namespace Soc

/-- The system of the options that have a part in a core. -/
def muted (s : Soc) : Soc := { s with args := s.args.only shapingArgs, maps := s.maps.muted }

theorem natArg_only (args : Table Value) {name : String} (h : name ∈ shapingArgs) :
    natArg (args.only shapingArgs) name = natArg args name := by
  unfold natArg
  rw [Table.get?_only, if_pos h]

theorem update_muted (m : SocMaps) :
    SocMaps.defaults.update m.muted = (SocMaps.defaults.update m).muted := by
  unfold SocMaps.update SocMaps.muted
  refine congrArg (SocMaps.mk _ _) (Table.ext_get? fun k => ?_)
  rw [Table.get?_merge, Table.get?_only, Table.get?_only, Table.get?_merge]
  by_cases hk : k ∈ placedNames
  · rw [if_pos hk, if_pos hk]
  · have hcsr : k ≠ "csr" := fun heq => hk (heq ▸ List.mem_cons_self)
    rw [if_neg hk, if_neg hk]
    simp [SocMaps.defaults, Table.get?_insert, hcsr, Table.get?_empty]

theorem busWidth_only (args : Table Value) : busWidth (args.only shapingArgs) = busWidth args := by
  rw [busWidth, natArg_only args (by decide)]
  rfl

theorem csrPaging_only (args : Table Value) :
    csrPaging (args.only shapingArgs) = csrPaging args := by
  rw [csrPaging, natArg_only args (by decide)]
  rfl

theorem csrCount_only (args : Table Value) (paging : UInt64) :
    csrCount (args.only shapingArgs) paging = csrCount args paging := by
  rw [csrCount, natArg_only args (by decide)]
  rfl

theorem memory_muted (m : SocMaps) {name : String} (h : name ∈ placedNames) :
    m.muted.memory.get? name = m.memory.get? name := by
  rw [SocMaps.muted, Table.get?_only, if_pos h]

theorem memoryOrigin?_muted (s : Soc) : s.muted.memoryOrigin? macName = s.memoryOrigin? macName :=
  memory_muted s.maps (by decide)

/-- A system is built of the options that have a part in a core, and fails to be built of them, as
of all options. -/
theorem build_muted (platform : Platform) (clock : Frequency) (args : Table Value)
    (overrides : SocMaps) :
    build platform clock (args.only shapingArgs) overrides.muted
      = (build platform clock args overrides).map muted := by
  unfold build
  rw [update_muted, busWidth_only, csrPaging_only]
  simp only [csrCount_only, memory_muted _ (show "csr" ∈ placedNames by decide)]
  simp only [Outcome.map_bind]
  rfl

end Soc

/-! ### Muted netlists -/

/-- The MAC without its interrupt; other components stay. -/
def Component.muted (c : Component) : Component :=
  if c.name = macName then { c with interrupt := none } else c

theorem Component.name_muted (c : Component) : c.muted.name = c.name := by
  unfold muted
  split <;> rfl

theorem Component.muted_of_name_ne {c : Component} (h : c.name ≠ macName) : c.muted = c := if_neg h

theorem Component.muted_mac (k : PhyKind) (m : MacSettings) (region : PlacedRegion) (page : CsrPage)
    (interrupt : Option UInt32) :
    (mac k m region page interrupt).muted = mac k m region page none := by
  have hname : (mac k m region page interrupt).name = macName := rfl
  rw [muted, if_pos hname]
  unfold mac
  dsimp only

theorem Component.addPorts_muted (c : Component) (ps : List Signal) :
    c.muted.addPorts ps = (c.addPorts ps).muted := by
  have hfield : ∀ c : Component, ({ c with interrupt := none } : Component).addPorts ps
      = { c.addPorts ps with interrupt := none } := by
    intro c
    unfold addPorts
    induction ps generalizing c with
    | nil => rfl
    | cons p ps ih => exact ih (c.addPort p)
  have hname : (c.addPorts ps).name = c.name := name_addPorts c ps
  unfold muted
  by_cases hc : c.name = macName
  · rw [if_pos hc, if_pos (hname.trans hc)]
    exact hfield c
  · rw [if_neg hc, if_neg (hname ▸ hc)]

namespace Netlist

/-- The node without the interrupt of the MAC. -/
def Node.muted : Node → Node
  | .component c => .component c.muted
  | .pad b => .pad b

theorem Node.name_muted (x : Node) : x.muted.name = x.name := by
  cases x with
  | component c => exact c.name_muted
  | pad b => rfl

/-- The netlist without the interrupt of the MAC. -/
def muted (n : Netlist) : Netlist := { n with nodes := n.nodes.map Node.muted }

theorem names_muted (n : Netlist) : n.muted.names = n.names := by
  simp [muted, names, Function.comp_def, Node.name_muted]

theorem padAt?_muted (n : Netlist) (i : Nat) : n.muted.padAt? i = n.padAt? i := by
  unfold padAt? muted
  rw [List.getElem?_map]
  rcases n.nodes[i]? with - | (c | b) <;> rfl

theorem componentAt?_muted (n : Netlist) (i : Nat) :
    n.muted.componentAt? i = (n.componentAt? i).map Component.muted := by
  unfold componentAt? muted
  rw [List.getElem?_map]
  rcases n.nodes[i]? with - | (c | b) <;> rfl

theorem add_muted (n : Netlist) (x : Node) :
    n.muted.add x.muted = (n.add x).map fun r => (r.1, r.2.muted) := by
  unfold add
  rw [Node.name_muted, node?_congr n.names_muted]
  split
  · rfl
  · simp [muted, Except.map]

theorem connectBundle_muted (n : Netlist) (c p : Nat) (lead : String) :
    n.muted.connectBundle c p lead = (n.connectBundle c p lead).map fun r => (r.1, r.2.muted) := by
  unfold connectBundle
  rw [padAt?_muted]
  cases n.padAt? p <;> rfl

theorem updateComponent_muted (n : Netlist) (i : Nat) (ps : List Signal) :
    n.muted.updateComponent i (fun c => c.addPorts ps)
      = (n.updateComponent i fun c => c.addPorts ps).muted := by
  unfold updateComponent muted
  refine congrArg (Netlist.mk · n.edges) (List.ext_getElem? fun k => ?_)
  simp only [List.getElem?_map, List.getElem?_modify]
  by_cases hik : i = k
  · rcases n.nodes[k]? with - | (c | b) <;> simp [hik, Node.muted, addPorts_muted]
  · simp [hik]

theorem wireStream_muted (n : Netlist) (c : Nat) (endpoint : String) (p : Nat)
    (d : StreamDirection) (fields : List StreamField) :
    n.muted.wireStream c endpoint p d fields
      = (n.wireStream c endpoint p d fields).map fun r => (r.1, r.2.muted) := by
  unfold wireStream
  rw [padAt?_muted, componentAt?_muted]
  cases n.padAt? p with
  | none => rfl
  | some b =>
    dsimp only
    cases WiredField.ofFields b d fields with
    | error e => rfl
    | ok wired =>
      dsimp only
      cases n.componentAt? c with
      | none => rfl
      | some x =>
        simp only [Option.map_some, updateComponent_muted]
        rfl

end Netlist

/-! ### Steps on muted assemblies -/

namespace Assembly

/-- The assembly without what has no part in the core. -/
def muted (a : Assembly) : Assembly := ⟨a.soc.muted, a.pads, a.netlist.muted⟩

namespace Step

variable {α β : Type}

/-- A step does on the muted assembly what another does on the assembly itself: it gives the same
value or fails with the same error, and leaves what the other leaves, muted. -/
def Mutes (x y : Step α) : Prop := ∀ a : Assembly, y.run a.muted = ((x.run a).1, (x.run a).2.muted)

theorem mutes_pure (v : α) : Mutes (pure v) (pure v) := fun _ => rfl

theorem mutes_lift (x : Outcome α) : Mutes (liftM x) (liftM x) := fun _ => rfl

/-- What comes after a step has to be told only for values that the step gives. -/
theorem Mutes.bind_of_yields {x y : Step α} {f g : α → Step β} (hx : Mutes x y)
    (hf : ∀ a v a', x.Yields a v a' → Mutes (f v) (g v)) : Mutes (x >>= f) (y >>= g) := by
  intro a
  rw [run_bind, run_bind, hx a]
  rcases hrun : x.run a with ⟨e | v, a'⟩
  · rfl
  · exact hf a v a' hrun a'

theorem Mutes.bind {x y : Step α} {f g : α → Step β} (hx : Mutes x y)
    (hf : ∀ v, Mutes (f v) (g v)) : Mutes (x >>= f) (y >>= g) :=
  hx.bind_of_yields fun _ v _ _ => hf v

/-- What is read of an assembly may be muted as well. -/
theorem mutes_get {f g : Assembly → Step β} (h : ∀ a, Mutes (f a) (g a.muted)) :
    Mutes (get >>= f) (get >>= g) := by
  intro a
  rw [run_bind, run_bind]
  exact h a a

theorem mutes_onNetlist {f g : Netlist → Outcome (α × Netlist)}
    (h : ∀ n, g n.muted = (f n).map fun r => (r.1, r.2.muted)) :
    Mutes (onNetlist f) (onNetlist g) := by
  intro a
  show onNetlist g a.muted = ((onNetlist f a).1, (onNetlist f a).2.muted)
  unfold onNetlist
  rw [show a.muted.netlist = a.netlist.muted from rfl, h]
  rcases f a.netlist with e | ⟨v, n⟩ <;> rfl

theorem mutes_addComponent (c : Component) : Mutes (addComponent c) (addComponent c.muted) :=
  mutes_onNetlist fun n => n.add_muted (.component c)

/-- A component other than the MAC. -/
theorem mutes_addComponent_of_ne {c : Component} (h : c.name ≠ macName) :
    Mutes (addComponent c) (addComponent c) := by
  have hc := mutes_addComponent c
  rwa [muted_of_name_ne h] at hc

theorem mutes_addPad (b : Bundle) : Mutes (addPad b) (addPad b) :=
  mutes_onNetlist fun n => n.add_muted (.pad b)

theorem mutes_connect (driver receiver : Nat) (c : Connection) :
    Mutes (connect driver receiver c) (connect driver receiver c) :=
  mutes_onNetlist fun _ => rfl

theorem mutes_connectBundle (c p : Nat) (lead : String) :
    Mutes (connectBundle c p lead) (connectBundle c p lead) :=
  mutes_onNetlist fun n => n.connectBundle_muted c p lead

theorem mutes_wireStream (c : Nat) (endpoint : String) (p : Nat) (d : StreamDirection)
    (fields : List StreamField) :
    Mutes (wireStream c endpoint p d fields) (wireStream c endpoint p d fields) :=
  mutes_onNetlist fun n => n.wireStream_muted c endpoint p d fields

theorem mutes_takePad (name : String) (index : Option UInt32) :
    Mutes (takePad name index) (takePad name index) := by
  intro a
  show takePad name index a.muted = ((takePad name index a).1, (takePad name index a).2.muted)
  unfold takePad
  rw [show a.muted.pads = a.pads from rfl]
  rcases a.pads.request name index with e | ⟨b, pads⟩ <;> rfl

theorem mutes_place (name : String) (region : Region) :
    Mutes (place name region) (place name region) := by
  intro a
  show place name region a.muted = ((place name region a).1, (place name region a).2.muted)
  unfold place
  rw [show a.muted.soc.bus = a.soc.bus from rfl]
  rcases a.soc.bus.addSlave name region with e | ⟨p, bus⟩ <;> rfl

theorem mutes_takePage (name : String) : Mutes (takePage name) (takePage name) := by
  intro a
  show takePage name a.muted = ((takePage name a).1, (takePage name a).2.muted)
  unfold takePage
  rw [show a.muted.soc.csr = a.soc.csr from rfl]
  rcases a.soc.csr.alloc name with e | ⟨p, csr⟩ <;> rfl

theorem mutes_requestPad (name : String) : Mutes (requestPad name) (requestPad name) :=
  (mutes_takePad name none).bind mutes_addPad

theorem mutes_attachPad (c : Nat) (name lead : String) :
    Mutes (attachPad c name lead) (attachPad c name lead) := by
  refine (mutes_requestPad name).bind fun p => ?_
  refine (mutes_connectBundle c p lead).bind fun _ => ?_
  exact mutes_pure p

/-! ### Builders on muted assemblies -/

theorem mutes_buildCrg (clock : Frequency) : Mutes (buildCrg clock) (buildCrg clock) := by
  have hname : (crg clock).name ≠ macName := show crgName ≠ macName by decide
  refine (mutes_addComponent_of_ne hname).bind fun crg => ?_
  refine (mutes_attachPad crg "sys_clock" "clk").bind fun _ => ?_
  refine (mutes_attachPad crg "sys_reset" "rst").bind fun _ => ?_
  exact mutes_pure ()

theorem mutes_takePhyPads (choice : PhyChoice) :
    Mutes (takePhyPads choice) (takePhyPads choice) := by
  unfold takePhyPads
  split
  · next f hf =>
    refine (mutes_takePad f.clockPads none).bind fun clockPads => ?_
    refine (mutes_takePad f.dataPads none).bind fun pads => ?_
    exact mutes_pure (clockPads, pads)
  · exact mutes_pure _

theorem mutes_givePage (k : PhyKind) (c : Component) : Mutes (givePage k c) (givePage k c) := by
  unfold givePage
  split
  · exact (mutes_takePage phyName).bind fun page => mutes_pure _
  · exact mutes_pure c

theorem mutes_connectPhyPads (phy : Nat) (s : Selection) :
    Mutes (connectPhyPads phy s) (connectPhyPads phy s) := by
  unfold connectPhyPads
  split
  · exact mutes_pure ()
  · refine (mutes_addPad s.clockPads).bind fun clockPads => ?_
    refine (mutes_connectBundle phy clockPads "clock_pads").bind fun _ => ?_
    refine (mutes_addPad s.pads).bind fun pads => ?_
    refine (mutes_connectBundle phy pads "pads").bind fun _ => ?_
    exact mutes_pure ()

theorem name_of_givePage {k : PhyKind} {c c' : Component} {a a' : Assembly}
    (h : (givePage k c).Yields a c' a') : c'.name = c.name := by
  unfold givePage at h
  split at h
  · simp only [yields_bind_iff, yields_pure_iff] at h
    obtain ⟨page, a₁, -, rfl, -⟩ := h
    rfl
  · rw [(yields_pure_iff.1 h).1]

theorem mutes_buildPhy (c : Config) : Mutes (buildPhy c) (buildPhy c) := by
  unfold buildPhy
  refine (mutes_takePhyPads c.phy).bind fun (clockPads, pads) => ?_
  refine (mutes_lift _).bind fun s => ?_
  refine (mutes_givePage s.kind _).bind_of_yields fun a comp a' hcomp => ?_
  have hname : comp.name ≠ macName := by
    rw [name_of_givePage hcomp, name_phy]
    decide
  refine (mutes_addComponent_of_ne hname).bind fun phy => ?_
  refine (mutes_connectPhyPads phy s).bind fun _ => ?_
  exact mutes_pure (s.kind, phy)

theorem mutes_bindPhy (k : PhyKind) (phy core : Nat) :
    Mutes (bindPhy k phy core) (bindPhy k phy core) :=
  (mutes_connect phy core _).bind fun _ => mutes_connect core phy _

/-- The MAC reads its origin, which is kept, and its interrupt, which is left out of it. -/
theorem mutes_buildMac (k : PhyKind) (phy : Nat) (m : MacSettings) :
    Mutes (buildMac k phy m) (buildMac k phy m) := by
  unfold buildMac
  refine mutes_get fun a => ?_
  have horigin : a.muted.soc.memoryOrigin? macName = a.soc.memoryOrigin? macName :=
    a.soc.memoryOrigin?_muted
  dsimp only
  rw [horigin]
  refine (mutes_place macName _).bind fun region => ?_
  refine (mutes_takePage macName).bind fun page => ?_
  have hnone : a.muted.soc.interrupt? macName = none := rfl
  rw [hnone, ← muted_mac k m region page (a.soc.interrupt? macName)]
  refine (mutes_addComponent _).bind fun core => ?_
  refine (mutes_bindPhy k phy core).bind fun _ => ?_
  refine (mutes_attachPad core "interrupt" "irq").bind fun _ => ?_
  exact mutes_pure ()

theorem mutes_attachAddress (core : Nat) (name : String) (address : Option α) :
    Mutes (attachAddress core name address) (attachAddress core name address) := by
  unfold attachAddress
  split
  · exact (mutes_attachPad core name name).bind fun _ => mutes_pure ()
  · exact mutes_pure ()

theorem mutes_buildUdp (k : PhyKind) (phy : Nat) (u : UdpSettings) (clock : Frequency) :
    Mutes (buildUdp k phy u clock) (buildUdp k phy u clock) := by
  have hstack : (udpStack k u clock).name ≠ macName := by
    rw [name_udpStack]
    decide
  have hport : (udpPort u.port).name ≠ macName := show portName ≠ macName by decide
  unfold buildUdp
  refine (mutes_addComponent_of_ne hstack).bind fun core => ?_
  refine (mutes_bindPhy k phy core).bind fun _ => ?_
  refine (mutes_attachAddress core "mac_address" u.mac).bind fun _ => ?_
  refine (mutes_attachAddress core "ip_address" u.ip).bind fun _ => ?_
  refine (mutes_addComponent_of_ne hport).bind fun port => ?_
  refine (mutes_connect core port _).bind fun _ => ?_
  refine (mutes_requestPad "udp_sink").bind fun sink => ?_
  refine (mutes_wireStream port "sink" sink .ingress _).bind fun _ => ?_
  refine (mutes_requestPad "udp_source").bind fun source => ?_
  refine (mutes_wireStream port "source" source .egress _).bind fun _ => ?_
  exact mutes_pure ()

theorem mutes_build (c : Config) : Mutes (build c) (build c) := by
  unfold build buildCore
  refine (mutes_buildCrg c.clock).bind fun _ => ?_
  refine (mutes_buildPhy c).bind fun (k, phy) => ?_
  have hcore : Mutes (buildCore k phy c) (buildCore k phy c) := by
    unfold buildCore
    cases c.core with
    | mac m => exact mutes_buildMac k phy m
    | udp u => exact mutes_buildUdp k phy u c.clock
  exact hcore.bind fun _ => mutes_pure k

end Step

end Assembly

/-! ### Muted cores -/

/-- The core without its interrupts. -/
def Artifact.muted (a : Artifact) : Artifact :=
  { a with netlist := a.netlist.muted, interrupts := .empty }

namespace Config

/-- The options that are dropped have no part in the composition: of the muted configuration comes
the muted core, or the same error, and the same findings. -/
theorem compose_muted (c : Config) :
    c.muted.compose = (c.compose.1.map Artifact.muted, c.compose.2) := by
  have hbuild := Soc.build_muted c.platform c.clock c.soc.args c.soc.maps
  unfold compose
  rw [show Soc.build c.muted.platform c.muted.clock c.muted.soc.args c.muted.soc.maps = _
    from hbuild]
  rcases Soc.build c.platform c.clock c.soc.args c.soc.maps with e | soc
  · rfl
  · have hsteps := Assembly.Step.mutes_build c (.start soc)
    dsimp only [Except.map]
    rw [show (Assembly.Step.build c.muted).run (.start soc.muted) = _ from hsteps]
    rcases (Assembly.Step.build c).run (.start soc) with ⟨e | k, a⟩ <;> rfl

/-- Configurations that differ in nothing but arguments that do not shape the bus, origins of
regions that no core has, and interrupts. -/
structure Agrees (c c' : Config) : Prop where
  clock : c.clock = c'.clock
  platform : c.platform = c'.platform
  phy : c.phy = c'.phy
  delays : c.delays = c'.delays
  core : c.core = c'.core
  csr : c.soc.maps.csr = c'.soc.maps.csr
  args : ∀ name ∈ Soc.shapingArgs, c.soc.args.get? name = c'.soc.args.get? name
  memory : ∀ name ∈ Soc.placedNames, c.soc.maps.memory.get? name = c'.soc.maps.memory.get? name

theorem Agrees.muted_eq {c c' : Config} (h : c.Agrees c') : c.muted = c'.muted := by
  have hargs := Table.only_congr h.args
  have hmemory := Table.only_congr h.memory
  unfold muted SocOptions.muted SocMaps.muted
  rw [h.clock, h.platform, h.phy, h.delays, h.core, h.csr, hargs, hmemory]

/-- Of configurations that agree either both fail, with one error, or both give cores that differ in
nothing but their interrupts. -/
theorem compose_alike {c c' : Config} (h : c.Agrees c') :
    c.compose.2 = c'.compose.2 ∧
      ((∃ e, c.compose.1 = .error e ∧ c'.compose.1 = .error e) ∨
        ∃ art art', c.compose.1 = .ok art ∧ c'.compose.1 = .ok art' ∧ art.muted = art'.muted) := by
  have hmuted := congrArg compose h.muted_eq
  rw [compose_muted, compose_muted] at hmuted
  obtain ⟨hcores, hlogs⟩ := Prod.mk.inj hmuted
  exact ⟨hlogs, Outcome.cases_of_map_eq hcores⟩

/-- A MAC with one place on the bus and two interrupts, among options for components that no core
has. -/
theorem compose_alike_interrupts :
    let settings : MacSettings := ⟨2, 2, false, .big⟩
    let c (soc : SocOptions) : Config :=
      ⟨⟨100000000⟩, ⟨.xilinx, "", .vivado⟩, .named .mii, none, .mac settings, soc⟩
    let memory := Table.empty.insert macName 0x80000000
    let first : SocOptions := ⟨.ofList [("csr_paging", .integer 4096), ("cpu_type", .string "none")],
      ⟨.empty, Table.empty.insert macName 3, memory.insert "sram" 0x10000000⟩⟩
    let second : SocOptions := ⟨.ofList [("csr_paging", .integer 4096), ("uart", .boolean true)],
      ⟨.empty, (Table.empty.insert macName 5).insert "timer" 1, memory.insert "rom" 0⟩⟩
    (c first).Agrees (c second) ∧ ∃ art art', (c first).compose.1 = .ok art ∧
      (c second).compose.1 = .ok art' ∧ art.muted = art'.muted := by
  intro settings c memory first second
  have hagrees : (c first).Agrees (c second) := by
    refine ⟨rfl, rfl, rfl, rfl, rfl, rfl, ?_, ?_⟩
    · simp only [Soc.shapingArgs, List.forall_mem_cons, List.not_mem_nil, false_implies,
        implies_true, and_true]
      exact ⟨rfl, rfl, rfl⟩
    · decide +kernel
  have hok : (c first).compose.1.isOk = true := by decide +kernel
  rcases (compose_alike hagrees).2 with ⟨e, he, -⟩ | hcores
  · rw [he] at hok
    cases hok
  · exact ⟨hagrees, hcores⟩

end Config

end EtherCore
