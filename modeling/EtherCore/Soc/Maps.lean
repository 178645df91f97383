import EtherCore.Bus.CsrWindow
import EtherCore.Table

/-!
The named choices of a system on chip: pages of registers, interrupts and origins of regions.
-/

namespace EtherCore

/-- Locations of register pages, interrupt numbers and origins of regions, by name. -/
structure SocMaps where
  csr : Table UInt32
  interrupt : Table UInt32
  memory : Table UInt64
deriving DecidableEq

namespace SocMaps

/-- Maps without entries. -/
def empty : SocMaps := ⟨.empty, .empty, .empty⟩

/-- The maps that every system starts from. -/
def defaults : SocMaps :=
  ⟨.empty, .empty, Table.empty.insert "csr" CsrWindow.defaultBase⟩

/-- The maps with the entries of others, which replace those of their names. -/
def update (m other : SocMaps) : SocMaps :=
  ⟨m.csr.merge other.csr, m.interrupt.merge other.interrupt, m.memory.merge other.memory⟩

end SocMaps

end EtherCore
