import EtherCore.Config.Settings
import EtherCore.Netlist.Basic
import EtherCore.Bus.AddressMap
import EtherCore.Timing.Format

/-!
A core that is put together: what was built, where it is on the bus, and what its clocks have to
meet.
-/

namespace EtherCore

open Text

/-- A core that is put together. -/
structure Artifact where
  platform : Platform
  phy : PhyKind
  core : CoreKind
  netlist : Netlist
  bus : AddressMap
  csr : CsrWindow
  interrupts : Table UInt32
  constraints : ConstraintSet
deriving DecidableEq

namespace Artifact

/-- The names of the pads, in the order in which they were handed out. -/
def padNames (a : Artifact) : List String := a.netlist.pads.map (·.name)

/-! ### Constraints -/

/-- The dialect of the toolchain. -/
def constraintFormat (a : Artifact) : ConstraintFormat := .ofToolchain a.platform.toolchain

/-- The constraint file for the toolchain. -/
def constraintFile (a : Artifact) : String := a.constraintFormat.render a.constraints

/-! ### Listing of addresses -/

/-- A row of the listing: five columns between commas. -/
def csvRow (kind name value size mode : String) : String :=
  String.intercalate "," [kind, name, value, size, mode]

/-- The row of a register page. -/
def pageRow (p : CsrPage) : String := csvRow "csr_base" p.name (hexWord p.origin.toNat) "" ""

/-- The row of an interrupt. -/
def interruptRow (name : String) (number : UInt32) : String :=
  csvRow "constant" (name ++ "_interrupt") (toString number) "" ""

/-- The row of a region. -/
def regionRow (r : PlacedRegion) : String :=
  csvRow "memory_region" r.name (hexWord r.origin.toNat) (toString r.size)
    (if r.cached then "cached" else "io")

/-- The rows of register pages, interrupts and regions. -/
def csvRows (a : Artifact) : List String :=
  a.csr.pages.map pageRow ++ a.interrupts.entries.map (fun e => interruptRow e.1 e.2)
    ++ a.bus.regions.map regionRow

/-- The listing of register pages, interrupts and regions, a row on each line. -/
def csv (a : Artifact) : String := String.intercalate "\n" a.csvRows ++ "\n"

end Artifact

end EtherCore
