import EtherCore.Bus.Region
import EtherCore.Error
import EtherCore.Text.Ascii

/-!
The address map of a bus: slaves are placed at the origin they ask for, or at the lowest free
aligned address.
-/

namespace EtherCore

open Text

/-- The regions placed on a bus, in the order in which they were added. -/
structure AddressMap where
  /-- The width of a bus address in bits. -/
  width : UInt32
  regions : List PlacedRegion
deriving DecidableEq

namespace AddressMap

/-- The width of a bus address where none is given. -/
def defaultWidth : UInt32 := 32

/-- A bus without slaves. -/
def empty (width : UInt32) : AddressMap := ⟨width, []⟩

/-- The first region of a name. -/
def get? (m : AddressMap) (name : String) : Option PlacedRegion :=
  m.regions.find? fun r => r.name = name

/-- The number of bus addresses, or the greatest word from 64 bits on. -/
def space (m : AddressMap) : Nat :=
  if m.width.toNat < 64 then Nat.pow 2 m.width.toNat else maxWord

/-- The configuration key for the origin of a region. -/
def originKey (name : String) : String := "soc.mem_map." ++ name

/-- The first region that meets a window. -/
def blocker? (regions : List PlacedRegion) (origin size : Nat) : Option PlacedRegion :=
  regions.find? fun r => r.overlaps origin size

/-! ### Asking for an origin -/

/-- Checks the origin that a region asks for: it is a multiple of the decoded size, the window
lies on the bus, and it meets no region. -/
def checkOrigin (m : AddressMap) (name : String) (origin size : Nat) : Outcome Unit :=
  let refuse (problem : String) : Outcome Unit :=
    .error (.configuration (originKey name) ("origin " ++ hexLiteral origin ++ problem))
  if origin % size ≠ 0 then refuse (" is not aligned to the region size " ++ hexLiteral size)
  else if m.space < addHeld origin size then
    refuse (" is outside the " ++ toString m.width ++ "-bit bus address space")
  else
    match blocker? m.regions origin size with
    | some r => refuse (" overlaps region '" ++ r.name ++ "'")
    | none => .ok ()

/-! ### Searching for an origin -/

/-- The first multiple of a size from an address on. -/
def alignUp (address size : Nat) : Nat := mulHeld ((address + size - 1) / size) size

/-- The lowest free origin from a candidate on: a region that blocks the candidate is passed by,
and the search ends at the end of the bus. -/
def search? (regions : List PlacedRegion) (space size candidate : Nat) : Option Nat :=
  if addHeld candidate size ≤ space then
    match blocker? regions candidate size with
    | none => some candidate
    | some r =>
      let next := alignUp r.stop size
      if next ≤ candidate then none else search? regions space size next
  else none
termination_by maxWord - candidate
decreasing_by
  have : alignUp r.stop size ≤ maxWord := mulHeld_le_maxWord ..
  omega

/-! ### Adding slaves -/

/-- The origin of a region: the one it asks for, or the lowest that is free. -/
def originFor (m : AddressMap) (name : String) (region : Region) : Outcome UInt64 :=
  let size := decodeSize region.size
  match region.origin with
  | some origin => (m.checkOrigin name origin.toNat size).map fun _ => origin
  | none =>
    match search? m.regions m.space size 0 with
    | some origin => .ok (UInt64.ofNat origin)
    | none =>
      .error (.configuration (originKey name)
        ("no free " ++ hexLiteral size ++ "-byte range left on the bus"))

/-- Places the region of a slave on the bus. -/
def addSlave (m : AddressMap) (name : String) (region : Region) :
    Outcome (PlacedRegion × AddressMap) :=
  if (m.get? name).isSome then .error (.conflict name 0)
  else if region.size = 0 then .error (.configuration name "region size is zero")
  else
    match m.originFor name region with
    | .error e => .error e
    | .ok origin =>
      let placed : PlacedRegion := ⟨name, origin, region.size, region.cached⟩
      .ok (placed, { m with regions := m.regions ++ [placed] })

end AddressMap

end EtherCore
