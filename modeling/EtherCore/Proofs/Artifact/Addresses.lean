import EtherCore.Proofs.Artifact.Complete
import EtherCore.Proofs.Artifact.Parts

/-!
The addresses of a core against its components.  What the bus and the window of pages have handed
out is what the components hold, and both are where the configuration puts them
(`compose_addressed`).
-/

namespace EtherCore

open Component Netlist

/-! ### The system of a configuration -/

namespace Soc

/-- A system in which nothing is handed out yet, with the named choices of a configuration. -/
structure Opened (s : Soc) (maps : SocMaps) : Prop where
  sound : s.csr.Sound
  pages : s.csr.pages = []
  fixed : s.csr.fixed = maps.csr
  regions : s.bus.regions.map (·.name) = ["csr"]
  interrupt : s.maps.interrupt = maps.interrupt
  memory : ∀ name, name ≠ "csr" → s.memoryOrigin? name = maps.memory.get? name

theorem opened_of_build {platform : Platform} {clock : Frequency} {args : Table Value}
    {overrides : SocMaps} {s : Soc} (h : build platform clock args overrides = .ok s) :
    s.Opened overrides := by
  have hsound := (reserved_of_build h).sound
  have hpages := (fresh_of_build h).1
  obtain ⟨width, paging, count, csr, p, bus, -, -, -, hcsr, hbus, rfl⟩ := build_eq_ok_iff.1 h
  obtain ⟨hcsr', -⟩ := CsrWindow.create_eq_ok hcsr
  obtain ⟨-, -, -, hp, hbus'⟩ := AddressMap.addSlave_eq_ok_iff.1 hbus
  have hname : p.name = "csr" := by rw [hp]
  refine ⟨hsound, hpages, ?_, ?_, Table.empty_merge _, fun name hne => ?_⟩
  · rw [hcsr']
    exact Table.empty_merge _
  · simp [hbus', AddressMap.empty, hname]
  · -- only the window of registers has an origin by default
    have hdefault : SocMaps.defaults.memory.get? name = none := by
      rw [SocMaps.defaults, Table.get?_insert, if_neg hne, Table.get?_empty]
    show (SocMaps.defaults.memory.merge overrides.memory).get? name = _
    rw [Table.get?_merge, hdefault, Option.or_none]

end Soc

/-! ### Pages of parts -/

/-- The page of a component has its name, and the MAC and every PHY but the model have one. -/
structure Component.Registered (x : Component) : Prop where
  name : ∀ p, x.page = some p → p.name = x.name
  kind : x.page.isSome ↔ x.kind = .mac ∨ ∃ k, x.kind = .phy k ∧ k ≠ .model

theorem Component.registered_of_page_none {x : Component} (hpage : x.page = none)
    (hkind : x.kind = .crg ∨ x.kind = .udpStack ∨ x.kind = .udpPort) : x.Registered := by
  rcases hkind with hkind | hkind | hkind <;> constructor <;> simp [hpage, hkind]

namespace PhyKind.Takes

variable {k : PhyKind} {w w' : CsrWindow} {page : Option CsrPage}

theorem pages (h : k.Takes w page w') : w' = { w with pages := w.pages ++ page.toList } := by
  cases page with
  | none => rw [h.2, Option.toList_none, List.append_nil]
  | some p => exact (CsrWindow.alloc_eq_ok h.2).2

theorem kept (h : k.Takes w page w') (hs : w.Sound) (hw : w.Paged) : w'.Sound ∧ w'.Paged := by
  cases page with
  | none => exact h.2 ▸ ⟨hs, hw⟩
  | some p => exact ⟨hs.alloc h.2, hw.alloc hs h.2⟩

theorem isSome_iff (h : k.Takes w page w') : page.isSome ↔ k ≠ .model := by
  cases page with
  | none =>
    have hmodel : k = .model := by simpa [hasRegisters, isModel] using h.1
    simp [hmodel]
  | some p =>
    have hmodel : k ≠ .model := by simpa [hasRegisters, isModel] using h.1
    simp [hmodel]

theorem name_eq (h : k.Takes w page w') : ∀ p ∈ page, p.name = phyName := by
  rintro p rfl
  exact (CsrWindow.alloc_eq_ok h.2).1

theorem names (h : k.Takes w page w') :
    page.toList.map (·.name) = if k = .model then [] else [phyName] := by
  have hmodel := h.isSome_iff
  cases page with
  | none =>
    rw [if_pos (by simpa using hmodel)]
    rfl
  | some p =>
    rw [if_neg (by simpa using hmodel), Option.toList_some, List.map_singleton, h.name_eq p rfl]

theorem registered (h : k.Takes w page w') {c : Config} {s : Selection} (hs : s.kind = k) :
    (c.phyPart s page).Registered := by
  have hname : (c.phyPart s page).name = phyName := name_phy _ _ _
  have hkind : (c.phyPart s page).kind = .phy k := hs ▸ kind_phy _ _ _
  have hpage : (c.phyPart s page).page = page := rfl
  constructor
  · rw [hpage, hname]
    exact h.name_eq
  · rw [hpage, hkind, h.isSome_iff]
    simp

end PhyKind.Takes

/-! ### Pages and regions of a core -/

/-- The names of the regions of a core: that of the pages, and that of a MAC. -/
def CoreSettings.regionNames : CoreSettings → List String
  | .mac _ => ["csr", macName]
  | .udp _ => ["csr"]

namespace Config.Built

variable {c : Config} {soc soc' : Soc} {k : PhyKind} {parts : List Component}

theorem registered (h : c.Built soc k parts soc') : ∀ x ∈ parts, x.Registered := by
  have hcrg : (Component.crg c.clock).part.Registered :=
    registered_of_page_none rfl (Or.inl rfl)
  cases h with
  | @mac m s page w w' r bus p hcore hkind htakes hregion hpage =>
    have hmac : (Component.mac k m r p (soc.interrupt? macName)).part.Registered := by
      refine ⟨fun q hq => ?_, fun _ => Or.inl rfl, fun _ => rfl⟩
      obtain rfl : p = q := Option.some.inj hq
      exact (CsrWindow.alloc_eq_ok hpage).1
    simp only [List.forall_mem_cons]
    exact ⟨hcrg, htakes.registered hkind, hmac, fun _ hx => absurd hx List.not_mem_nil⟩
  | @udp u s page w hcore hkind htakes =>
    have hstack : (Component.udpStack k u c.clock).part.Registered := by
      rcases u with ⟨- | mac, - | ip, port⟩ <;>
        exact registered_of_page_none rfl (Or.inr (Or.inl rfl))
    have hport : (Component.udpPort u.port).part.Registered :=
      registered_of_page_none rfl (Or.inr (Or.inr rfl))
    simp only [List.forall_mem_cons]
    exact ⟨hcrg, htakes.registered hkind, hstack, hport, fun _ hx => absurd hx List.not_mem_nil⟩

/-- The pages that are handed out are those of the parts, in their order. -/
theorem pages (h : c.Built soc k parts soc') (hpages : soc.csr.pages = []) :
    soc'.csr.pages = parts.filterMap (·.page) := by
  cases h with
  | @mac m s page w w' r bus p hcore hkind htakes hregion hpage =>
    have hw' := (CsrWindow.alloc_eq_ok hpage).2
    have hw : w.pages = page.toList := by rw [htakes.pages, hpages, List.nil_append]
    show w'.pages = _
    rw [hw', hw]
    cases page <;> rfl
  | @udp u s page w hcore hkind htakes =>
    have hw : w.pages = page.toList := by rw [htakes.pages, hpages, List.nil_append]
    show w.pages = _
    rw [hw]
    rcases u with ⟨- | mac, - | ip, port⟩ <;> cases page <;> rfl

theorem window (h : c.Built soc k parts soc') (hs : soc.csr.Sound) (hw : soc.csr.Paged) :
    soc'.csr.Paged ∧ soc'.csr.fixed = soc.csr.fixed := by
  cases h with
  | mac hcore hkind htakes hregion hpage =>
    obtain ⟨hs', hw'⟩ := htakes.kept hs hw
    refine ⟨hw'.alloc hs' hpage, ?_⟩
    rw [(CsrWindow.alloc_eq_ok hpage).2, htakes.pages]
  | udp hcore hkind htakes =>
    refine ⟨(htakes.kept hs hw).2, ?_⟩
    rw [htakes.pages]

theorem pageNames (h : c.Built soc k parts soc') (hpages : soc.csr.pages = []) :
    soc'.csr.pages.map (·.name) =
      (if k = .model then [] else [phyName]) ++ if c.core.kind = .mac then [macName] else [] := by
  rw [h.pages hpages]
  cases h with
  | @mac m s page w w' r bus p hcore hkind htakes hregion hpage =>
    rw [hcore, ← htakes.names, ← (CsrWindow.alloc_eq_ok hpage).1]
    cases page <;> rfl
  | @udp u s page w hcore hkind htakes =>
    rw [hcore, ← htakes.names]
    rcases u with ⟨- | mac, - | ip, port⟩ <;> cases page <;> rfl

theorem maps (h : c.Built soc k parts soc') : soc'.maps = soc.maps := by
  cases h <;> rfl

theorem regions (h : c.Built soc k parts soc') (hregions : soc.bus.regions.map (·.name) = ["csr"]) :
    soc'.bus.regions.map (·.name) = c.core.regionNames := by
  cases h with
  | mac hcore hkind htakes hregion hpage =>
    obtain ⟨-, -, -, hr, hbus⟩ := AddressMap.addSlave_eq_ok_iff.1 hregion
    rw [hcore, hbus, List.map_append, hregions, List.map_singleton, hr]
    rfl
  | udp hcore hkind htakes =>
    rw [hcore]
    exact hregions

/-- The MAC of a core holds the region that the bus has for it. -/
theorem macRegion (h : c.Built soc k parts soc') (hregions : soc.bus.get? macName = none)
    {m : MacSettings} (hm : c.core = .mac m) :
    ∃ x ∈ parts, x.name = macName ∧ x.kind = .mac ∧ x.region = soc'.bus.get? macName ∧
      x.interrupt = soc.interrupt? macName ∧ ∃ r, x.region = some r ∧ r.cached = false ∧
        r.size.toNat = m.bytes ∧ ∀ o, soc.memoryOrigin? macName = some o → r.origin = o := by
  cases h with
  | @mac m' s page w w' r bus p hcore hkind htakes hregion hpage =>
    obtain rfl : m' = m := CoreSettings.mac.inj (hcore.symm.trans hm)
    obtain ⟨-, -, horigin, hr, hbus⟩ := AddressMap.addSlave_eq_ok_iff.1 hregion
    have hget : bus.get? macName = some r := by
      have hname : r.name = macName := by rw [hr]
      unfold AddressMap.get? at *
      simp [hbus, hregions, hname]
    refine ⟨_, List.mem_cons_of_mem _ (List.mem_cons_of_mem _ List.mem_cons_self), rfl, rfl,
      hget.symm, rfl, r, rfl, ?_, ?_, (AddressMap.originFor_granted horigin).2⟩
    · rw [hr]
      rfl
    · rw [hr]
      exact m'.toNat_size_region soc
  | udp hcore hkind htakes =>
    rw [hm] at hcore
    cases hcore

end Config.Built

/-! ### Pages of a netlist -/

/-- Pages that are those of the components of a netlist. -/
structure Netlist.Holds (n : Netlist) (pages : List CsrPage) : Prop where
  names : n.names.Nodup
  pages : pages = n.parts.filterMap (·.page)
  registered : ∀ x ∈ n.components, x.Registered

namespace Netlist.Holds

variable {n : Netlist} {pages : List CsrPage}

theorem mem_iff (h : n.Holds pages) {p : CsrPage} :
    p ∈ pages ↔ ∃ x ∈ n.components, x.page = some p := by
  rw [h.pages, List.mem_filterMap]
  constructor
  · rintro ⟨y, hy, hpage⟩
    obtain ⟨x, hx, rfl⟩ := List.mem_map.1 hy
    exact ⟨x, hx, hpage⟩
  · rintro ⟨x, hx, hpage⟩
    exact ⟨x.part, mem_parts_of_mem hx, hpage⟩

/-- A page has one owner. -/
theorem unique (h : n.Holds pages) {x y : Component} (hx : x ∈ n.components)
    (hy : y ∈ n.components) {p : CsrPage} (hpx : x.page = some p) (hpy : y.page = some p) :
    y = x := by
  have hname : y.name = x.name :=
    ((h.registered y hy).name p hpy).symm.trans ((h.registered x hx).name p hpx)
  exact eq_of_name_eq h.names hy hx hname

theorem page_eq_some_iff (h : n.Holds pages) {x : Component} (hx : x ∈ n.components)
    {p : CsrPage} : x.page = some p ↔ p ∈ pages ∧ p.name = x.name := by
  constructor
  · intro hpage
    exact ⟨h.mem_iff.2 ⟨x, hx, hpage⟩, (h.registered x hx).name p hpage⟩
  · rintro ⟨hp, hname⟩
    obtain ⟨y, hy, hpage⟩ := h.mem_iff.1 hp
    have hsame : y.name = x.name := ((h.registered y hy).name p hpage).symm.trans hname
    rwa [← eq_of_name_eq h.names hy hx hsame]

theorem existsUnique (h : n.Holds pages) {p : CsrPage} (hp : p ∈ pages) :
    ∃! x, x ∈ n.components ∧ x.page = some p := by
  obtain ⟨x, hx, hpage⟩ := h.mem_iff.1 hp
  exact ⟨x, ⟨hx, hpage⟩, fun y hy => h.unique hx hy.1 hpage hy.2⟩

end Netlist.Holds

/-! ### Addresses of a core -/

namespace Config

/-- The addresses of a core are those of its components, and where the configuration has them. -/
structure Addressed (c : Config) (art : Artifact) : Prop where
  regions : art.bus.regions.map (·.name) = c.core.regionNames
  pageNames : art.csr.pages.map (·.name) =
    (if art.phy = .model then [] else [phyName]) ++ if c.core.kind = .mac then [macName] else []
  pages : ∀ x ∈ art.netlist.components, ∀ p, x.page = some p ↔ p ∈ art.csr.pages ∧ p.name = x.name
  owners : ∀ p ∈ art.csr.pages, ∃! x, x ∈ art.netlist.components ∧ x.page = some p
  registered : ∀ x ∈ art.netlist.components,
    x.page.isSome ↔ x.kind = .mac ∨ ∃ k, x.kind = .phy k ∧ k ≠ .model
  mapped : ∀ p ∈ art.csr.pages, ∀ l, c.soc.maps.csr.get? p.name = some l → p.location = l
  unmapped : ∀ p ∈ art.csr.pages, c.soc.maps.csr.get? p.name = none →
    ∀ name, c.soc.maps.csr.get? name ≠ some p.location
  mac : ∀ m, c.core = .mac m → ∃ x r, art.netlist.component? macName = some x ∧ x.kind = .mac ∧
    x.region = some r ∧ art.bus.get? macName = some r ∧ r.cached = false ∧
    r.size.toNat = (m.receiveSlots.toNat + m.transmitSlots.toNat) * 2048 ∧
    (∀ o, c.soc.maps.memory.get? macName = some o → r.origin = o) ∧
    x.interrupt = c.soc.maps.interrupt.get? macName
  interrupts : art.interrupts = c.soc.maps.interrupt

/-- In every core that is composed the regions and pages are those of its components: the PHY has a
page unless it is the model, and a MAC has a page, the region of its buffers and its interrupt.  All
of them are where the configuration has them. -/
theorem compose_addressed {c : Config} {art : Artifact} {log : Log}
    (h : c.compose = (.ok art, log)) : c.Addressed art := by
  obtain ⟨k, a, hassembles, rfl, -⟩ := compose_eq_ok_iff.1 h
  have hnames := hassembles.nodup_names
  obtain ⟨soc, hsoc, hbuild⟩ := hassembles
  have hopened := Soc.opened_of_build hsoc
  have hbuilt := Assembly.built_build hbuild
  -- a component is registered as its part is, since ports play no role in it
  have hholds : a.netlist.Holds a.soc.csr.pages := by
    refine ⟨hnames, hbuilt.pages hopened.pages, fun x hx => ?_⟩
    have hpart := hbuilt.registered x.part (mem_parts_of_mem hx)
    exact ⟨hpart.name, hpart.kind⟩
  obtain ⟨hpaged, hfixed⟩ :=
    hbuilt.window hopened.sound (CsrWindow.paged_of_pages_nil hopened.pages)
  rw [hopened.fixed] at hfixed
  refine ⟨hbuilt.regions hopened.regions, hbuilt.pageNames hopened.pages,
    fun x hx p => hholds.page_eq_some_iff hx, fun p hp => hholds.existsUnique hp,
    fun x hx => (hholds.registered x hx).kind, fun p hp l hl => ?_, fun p hp hnone => ?_,
    fun m hm => ?_, ?_⟩
  · rw [← hfixed] at hl
    exact hpaged.location_eq hp hl
  · rw [← hfixed] at hnone ⊢
    exact hpaged.location_ne hp hnone
  · have hnew := (Soc.fresh_of_build hsoc).2 macName (by decide)
    obtain ⟨_, hmem, hname, hkind, hbus, hirq, r, hr, hcached, hsize, horigin⟩ :=
      hbuilt.macRegion hnew hm
    obtain ⟨x, hat, rfl⟩ := component?_of_mem_parts hnames hmem
    rw [hname] at hat
    rw [hopened.memory macName (by decide)] at horigin
    refine ⟨x, r, hat, hkind, hr, hbus.symm.trans hr, hcached, hsize, horigin, ?_⟩
    exact hirq.trans (congrArg (·.get? macName) hopened.interrupt)
  · show a.soc.maps.interrupt = _
    rw [hbuilt.maps, hopened.interrupt]

/-- A MAC with a place for its page, its region and its interrupt, on a PHY that gets the second
page, since the first is assigned to a name that no component has. -/
theorem compose_addressed_mapped :
    let maps : SocMaps := ⟨(Table.empty.insert "ethmac" 5).insert "timer" 0,
      Table.empty.insert "ethmac" 3, Table.empty.insert "ethmac" 0x80000000⟩
    let c : Config := ⟨⟨100000000⟩, ⟨.xilinx, "", .vivado⟩, .named .mii, none,
      .mac ⟨2, 4, false, .big⟩, .empty, maps⟩
    ∃ art log, c.compose = (.ok art, log) ∧
      art.csr.pages.map (fun p => (p.name, p.location)) = [("ethphy", 1), ("ethmac", 5)] ∧
      c.Addressed art := by
  intro maps c
  have hok : (c.compose.1.toOption.map fun art =>
      art.csr.pages.map fun p => (p.name, p.location)) = some [("ethphy", 1), ("ethmac", 5)] := by
    decide +kernel
  obtain ⟨⟨o, log⟩, h⟩ : ∃ x, c.compose = x := ⟨_, rfl⟩
  rw [h] at hok
  cases o with
  | error e => cases hok
  | ok art => exact ⟨art, log, h, Option.some.inj hok, compose_addressed h⟩

end Config

end EtherCore
