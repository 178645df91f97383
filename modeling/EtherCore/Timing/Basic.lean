import EtherCore.Binary64.Basic
import EtherCore.Phy.Kind

/-!
Timing constraints: the periods of clocks, and the pairs of clocks between which no path is
timed.
-/

namespace EtherCore

/-- The period of a clock. -/
structure Period where
  /-- The net of the clock. -/
  clock : String
  nanoseconds : Binary64
deriving DecidableEq

/-- The frequency of a clock in megahertz, zero for a period that is not positive. -/
def Period.megahertz (p : Period) : Binary64 :=
  if (Binary64.ofNat 0).lt p.nanoseconds then (Binary64.ofNat 1000).div p.nanoseconds
  else .ofNat 0

/-- Two clocks without timed paths between them, in either direction. -/
structure FalsePath where
  source : String
  target : String
deriving DecidableEq

/-- The timing constraints of a core, in the order in which they are written. -/
structure ConstraintSet where
  periods : List Period
  falsePaths : List FalsePath
deriving DecidableEq

namespace ConstraintSet

/-- The set without constraints. -/
def empty : ConstraintSet := ⟨[], []⟩

/-- The number of constraints. -/
def size (s : ConstraintSet) : Nat := s.periods.length + s.falsePaths.length

/-- Tells whether there are no constraints. -/
def isEmpty (s : ConstraintSet) : Bool := s.size = 0

/-- The first period of a clock. -/
def period? (s : ConstraintSet) (clock : String) : Option Period :=
  s.periods.find? fun p => p.clock = clock

end ConstraintSet

/-! ### Clock nets -/

/-- The net of the system clock. -/
def systemClockNet : String := "sys_clk"

/-- The net of the receive clock. -/
def receiveClockNet : String := "eth_rx_clk"

/-- The net of the transmit clock. -/
def transmitClockNet : String := "eth_tx_clk"

/-- The constraints of a PHY: the periods of its two line clocks, which are not timed against the
system clock.  A PHY without clocks has none. -/
def ConstraintSet.ofPhy (k : PhyKind) : ConstraintSet :=
  match k.lineClock? with
  | none => .empty
  | some f =>
    ⟨[⟨receiveClockNet, f.periodNs⟩, ⟨transmitClockNet, f.periodNs⟩],
      [⟨systemClockNet, receiveClockNet⟩, ⟨systemClockNet, transmitClockNet⟩]⟩

end EtherCore
