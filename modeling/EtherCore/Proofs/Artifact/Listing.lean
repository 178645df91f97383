import EtherCore.Proofs.Artifact.Addresses
import EtherCore.Proofs.Config.Forwarded
import EtherCore.Proofs.Text.Grid

/-!
The listing of a core.  Pages and regions have names of their own, and interrupts those of the table
below `soc`, so the listing is a row of five columns for each of them if and only if no interrupt
has a comma or a line feed in its name (`ofTable_listed_iff`).
-/

namespace EtherCore

open Component Text

/-! ### Rows -/

namespace Artifact

variable {a : Artifact}

theorem csvRow_iff (kind name value size mode : String) :
    (OneLine (csvRow kind name value size mode) ∧ columns (csvRow kind name value size mode) = 5) ↔
      Plain kind ∧ Plain name ∧ Plain value ∧ Plain size ∧ Plain mode := by
  refine (row_iff kind [name, value, size, mode]).trans ?_
  simp only [List.forall_mem_cons, List.not_mem_nil, false_implies, implies_true, and_true]

theorem pageRow_iff (p : CsrPage) :
    (OneLine (pageRow p) ∧ columns (pageRow p) = 5) ↔ Plain p.name := by
  have hkind : Plain "csr_base" := by decide
  have hempty : Plain "" := by decide
  simp only [pageRow, csvRow_iff, hkind, plain_hexWord, hempty, true_and, and_true]

theorem interruptRow_iff (name : String) (number : UInt32) :
    (OneLine (interruptRow name number) ∧ columns (interruptRow name number) = 5) ↔ Plain name := by
  have hkind : Plain "constant" := by decide
  have hempty : Plain "" := by decide
  have hsuffix : Plain "_interrupt" := by decide
  have hnumber : Plain (toString number) :=
    plain_of_digits (n := number.toNat) (by decide) (by decide) Nat.toList_repr
  simp only [interruptRow, csvRow_iff, plain_append_iff, hkind, hsuffix, hnumber, hempty, true_and,
    and_true]

theorem regionRow_iff (r : PlacedRegion) :
    (OneLine (regionRow r) ∧ columns (regionRow r) = 5) ↔ Plain r.name := by
  have hkind : Plain "memory_region" := by decide
  have hsize : Plain (toString r.size) :=
    plain_of_digits (n := r.size.toNat) (by decide) (by decide) Nat.toList_repr
  have hmode : Plain (if r.cached then "cached" else "io") := by split <;> decide
  simp only [regionRow, csvRow_iff, hkind, plain_hexWord, hsize, hmode, true_and, and_true]

/-! ### Listings -/

theorem length_csvRows (a : Artifact) :
    a.csvRows.length = a.csr.pages.length + a.interrupts.size + a.bus.regions.length := by
  simp only [csvRows, Table.size, List.length_append, List.length_map]

/-- A listing with rows at all is a row of five columns for each page, interrupt and region, if and
only if all of their names are plain. -/
theorem grid_csv_iff (h : a.csvRows ≠ []) :
    Grid a.csv (a.csr.pages.length + a.interrupts.size + a.bus.regions.length) 5 ↔
      (∀ p ∈ a.csr.pages, Plain p.name) ∧ (∀ name ∈ a.interrupts.names, Plain name) ∧
        ∀ r ∈ a.bus.regions, Plain r.name := by
  rw [csv, intercalate_append_feed h, ← length_csvRows, grid_join_iff]
  simp only [csvRows, Table.names, List.forall_mem_append, List.forall_mem_map, pageRow_iff,
    interruptRow_iff, regionRow_iff, and_assoc]

end Artifact

namespace Config

variable {c : Config} {art : Artifact} {log log' : Log} {t : Table Value}

/-! ### Names -/

/-- The names on a core: pages and regions are named after what they belong to, a region is there,
and the interrupts are those of the configuration. -/
structure Named (c : Config) (art : Artifact) : Prop where
  page : ∀ p ∈ art.csr.pages, p.name = phyName ∨ p.name = macName
  region : ∀ r ∈ art.bus.regions, r.name = "csr" ∨ r.name = macName
  nonempty : art.bus.regions ≠ []
  interrupts : art.interrupts = c.soc.maps.interrupt

theorem named_of_compose (h : c.compose = (.ok art, log)) : c.Named art := by
  obtain ⟨k, a, ⟨soc, hsoc, hbuild⟩, rfl, -⟩ := compose_eq_ok_iff.1 h
  have hopened := Soc.opened_of_build hsoc
  have hbuilt := Assembly.built_build hbuild
  have hregions := hbuilt.regions hopened.regions
  have hpage : ∀ name ∈ a.soc.csr.pages.map (·.name), name = phyName ∨ name = macName := by
    rw [hbuilt.pageNames hopened.pages]
    intro name hname
    rcases List.mem_append.1 hname with hname | hname <;> split at hname <;> simp_all
  have hregion : ∀ name ∈ a.soc.bus.regions.map (·.name), name = "csr" ∨ name = macName := by
    rw [hregions]
    cases c.core <;> simp [CoreSettings.regionNames]
  have hnonempty : a.soc.bus.regions ≠ [] := by
    intro hnil
    rw [hnil] at hregions
    generalize c.core = core at hregions
    cases core <;> cases hregions
  exact ⟨fun p hp => hpage _ (List.mem_map_of_mem hp),
    fun r hr => hregion _ (List.mem_map_of_mem hr), hnonempty,
    (congrArg (·.interrupt) hbuilt.maps).trans hopened.interrupt⟩

/-- Of every core that is composed from a table, the listing is one line for each page, interrupt
and region, and of five columns each, if and only if no name in the map of interrupts below `soc`
has a comma or a line feed. -/
theorem ofTable_listed_iff (hload : ofTable t = (.ok c, log))
    (hcompose : c.compose = (.ok art, log')) :
    Grid art.csv (art.csr.pages.length + art.interrupts.size + art.bus.regions.length) 5 ↔
      ∀ name, (SocOptions.mapped? (belowSoc (normalize t)) "interrupt_map" name).isSome →
        Plain name := by
  have hnamed := named_of_compose hcompose
  have hrows : art.csvRows ≠ [] := by simp [Artifact.csvRows, hnamed.nonempty]
  have hpages : ∀ p ∈ art.csr.pages, Plain p.name := by
    intro p hp
    rcases hnamed.page p hp with hname | hname <;> rw [hname] <;> decide
  have hregions : ∀ r ∈ art.bus.regions, Plain r.name := by
    intro r hr
    rcases hnamed.region r hr with hname | hname <;> rw [hname] <;> decide
  have hread (name : String) :
      (SocOptions.mapped? (belowSoc (normalize t)) "interrupt_map" name).isSome ↔
        name ∈ art.interrupts.names := by
    rw [← (reads_of_ofTable hload).interrupt, Option.isSome_map, hnamed.interrupts,
      Table.isSome_get?_iff]
  rw [Artifact.grid_csv_iff hrows]
  simp only [hread]
  exact ⟨fun h => h.2.1, fun h => ⟨hpages, h, hregions⟩⟩

/-- A MAC with two interrupts. -/
theorem ofTable_listed_timer :
    let t := Table.ofList [("clk_freq", .integer 100000000), ("vendor", .string "xilinx"),
      ("phy", .string "mii"), ("core", .string "mac"),
      ("soc", .table [("interrupt_map", .table [("ethmac", .integer 3), ("timer", .integer 1)])])]
    ∃ c log art log', ofTable t = (.ok c, log) ∧ c.compose = (.ok art, log') ∧
      Grid art.csv (art.csr.pages.length + art.interrupts.size + art.bus.regions.length) 5 := by
  intro t
  have hok : ((ofTable t).1.toOption.any fun c => c.compose.1.toOption.any fun _ => true)
      = true := by decide +kernel
  have hnames : (((belowSoc (normalize t)).get? "interrupt_map").bind Value.table?).map Table.names
      = some ["ethmac", "timer"] := by decide +kernel
  obtain ⟨c, log, hload, hok⟩ := Outcome.exists_of_any hok
  obtain ⟨art, log', hcompose, -⟩ := Outcome.exists_of_any hok
  refine ⟨c, log, art, log', hload, hcompose, (ofTable_listed_iff hload hcompose).2 ?_⟩
  intro name hname
  obtain ⟨m, hm, hnames⟩ := Option.map_eq_some_iff.1 hnames
  rw [SocOptions.mapped?, hm, Option.bind_some] at hname
  have hmem := Table.isSome_get?_iff.1 (Option.isSome_of_isSome_bind hname)
  have hplain : ∀ name ∈ ["ethmac", "timer"], Plain name := by decide
  exact hplain name (hnames ▸ hmem)

/-- A MAC with an interrupt that has a comma in its name, which gives a line of six columns. -/
theorem not_listed_comma :
    let t := Table.ofList [("clk_freq", .integer 100000000), ("vendor", .string "xilinx"),
      ("phy", .string "mii"), ("core", .string "mac"),
      ("soc", .table [("interrupt_map", .table [("a,b", .integer 1)])])]
    ∃ c log art log', ofTable t = (.ok c, log) ∧ c.compose = (.ok art, log') ∧
      "constant,a,b_interrupt,1,," ∈ lines art.csv ∧
      ¬ Grid art.csv (art.csr.pages.length + art.interrupts.size + art.bus.regions.length) 5 := by
  intro t
  have hrow : ((ofTable t).1.toOption.any fun c => c.compose.1.toOption.any fun art =>
      "constant,a,b_interrupt,1,," ∈ lines art.csv) = true := by decide +kernel
  obtain ⟨c, log, hload, hrow⟩ := Outcome.exists_of_any hrow
  obtain ⟨art, log', hcompose, hrow⟩ := Outcome.exists_of_any hrow
  have hline : "constant,a,b_interrupt,1,," ∈ lines art.csv := of_decide_eq_true hrow
  refine ⟨c, log, art, log', hload, hcompose, hline, fun hgrid => ?_⟩
  exact absurd (hgrid.columns_eq _ hline) (by decide)

end Config

end EtherCore
