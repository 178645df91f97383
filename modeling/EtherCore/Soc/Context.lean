import EtherCore.Bus.AddressMap
import EtherCore.Document.Printer
import EtherCore.Frequency
import EtherCore.Platform
import EtherCore.Soc.Maps

/-!
The system on chip that a core is built into: its platform and clock, the bus with the window of
register pages reserved on it, and the pages of that window.
-/

namespace EtherCore

open Text

/-- A system on chip. -/
structure Soc where
  platform : Platform
  clock : Frequency
  /-- Arguments passed on as they are. -/
  args : Table Value
  maps : SocMaps
  bus : AddressMap
  csr : CsrWindow

namespace Soc

/-! ### Arguments that shape the bus -/

/-- A natural number among the arguments. -/
def natArg (args : Table Value) (name : String) : Outcome (Option Nat) :=
  match args.get? name with
  | none => .ok none
  | some v =>
    let refuse : Outcome (Option Nat) :=
      .error (.configuration ("soc." ++ name)
        ("expected a non-negative integer, found " ++ v.text))
    match v with
    | .integer n => if 0 ≤ n then .ok (some n.toInt.toNat) else refuse
    | _ => refuse

/-- The width of a bus address, from 1 to 64 bits. -/
def busWidth (args : Table Value) : Outcome UInt32 := do
  let width := (← natArg args "bus_address_width").getD AddressMap.defaultWidth.toNat
  if 1 ≤ width ∧ width ≤ 64 then return UInt32.ofNat width
  throw (.configuration "soc.bus_address_width" (toString width ++ " is not a valid address width"))

/-- Tells whether a number is a power of two. -/
def isPowerOfTwo (n : Nat) : Bool := n = Nat.pow 2 n.log2

/-- The size of a register page, a power of two. -/
def csrPaging (args : Table Value) : Outcome UInt64 := do
  let paging := (← natArg args "csr_paging").getD CsrWindow.defaultPaging.toNat
  if paging ≠ 0 ∧ isPowerOfTwo paging then return UInt64.ofNat paging
  throw (.configuration "soc.csr_paging" (hexLiteral paging ++ " is not a power of two"))

/-- The number of register pages: as many as hold the 32-bit words of the configured address
width, held to a 32-bit number. -/
def csrCount (args : Table Value) (paging : UInt64) : Outcome UInt32 := do
  match ← natArg args "csr_address_width" with
  | none => return CsrWindow.defaultCount
  | some width =>
    if width < 48 then return UInt32.ofNat (min (Nat.pow 2 width * 4 / paging.toNat) (UInt32.size - 1))
    throw (.configuration "soc.csr_address_width" (toString width ++ " is too wide"))

/-! ### Building -/

/-- Builds a system on chip.  The window of register pages is placed on the bus before any
slave. -/
def build (platform : Platform) (clock : Frequency) (args : Table Value) (overrides : SocMaps) :
    Outcome Soc := do
  let maps := SocMaps.defaults.update overrides
  let width ← busWidth args
  let paging ← csrPaging args
  let count ← csrCount args paging
  let base := (maps.memory.get? "csr").getD CsrWindow.defaultBase
  let csr ← CsrWindow.create base paging count maps.csr
  let (_, bus) ← (AddressMap.empty width).addSlave "csr" ⟨some base, csr.size, false⟩
  return ⟨platform, clock, args, maps, bus, csr⟩

/-! ### Questions -/

/-- The origin configured for a region. -/
def memoryOrigin? (s : Soc) (name : String) : Option UInt64 := s.maps.memory.get? name

/-- The interrupt configured for a component. -/
def interrupt? (s : Soc) (name : String) : Option UInt32 := s.maps.interrupt.get? name

end Soc

end EtherCore
