import EtherCore.Error
import EtherCore.Frequency
import EtherCore.Platform

/-!
The kinds of PHY that a core can have, the pads they are built on, and their names.
-/

namespace EtherCore

open Text

/-! ### Pad families -/

/-- A family of PHY pads: a bundle of clocks and a bundle of data. -/
inductive PadFamily where
  | mii
  | rmii
  | gmii
  | rgmii
deriving DecidableEq

namespace PadFamily

/-- The name of a family. -/
def name : PadFamily → String
  | .mii => "mii"
  | .rmii => "rmii"
  | .gmii => "gmii"
  | .rgmii => "rgmii"

/-- The family of a name. -/
def ofName (s : String) : Outcome PadFamily :=
  match optionName s with
  | "mii" => .ok .mii
  | "rmii" => .ok .rmii
  | "gmii" => .ok .gmii
  | "rgmii" => .ok .rgmii
  | _ => .error (.notFound .value s)

/-- The name of the data pads. -/
def dataPads (f : PadFamily) : String := f.name ++ "_eth"

/-- The name of the clock pads. -/
def clockPads (f : PadFamily) : String := f.name ++ "_eth_clocks"

end PadFamily

/-! ### Kinds -/

/-- A kind of PHY. -/
inductive PhyKind where
  /-- 10 and 100 Mbit/s. -/
  | mii
  /-- 10 and 100 Mbit/s with fewer pins. -/
  | rmii
  /-- 1000 Mbit/s. -/
  | gmii
  /-- 1000 Mbit/s that falls back to 10 and 100 Mbit/s. -/
  | gmiiMii
  | s6Rgmii
  | s7Rgmii
  | usRgmii
  | ecp5Rgmii
  /-- A stand-in for simulation, without pads and clocks. -/
  | model
deriving DecidableEq

namespace PhyKind

/-- Every kind. -/
def all : List PhyKind :=
  [.mii, .rmii, .gmii, .gmiiMii, .s6Rgmii, .s7Rgmii, .usRgmii, .ecp5Rgmii, .model]

/-- The name of a kind in a configuration. -/
def name : PhyKind → String
  | .mii => "mii"
  | .rmii => "rmii"
  | .gmii => "gmii"
  | .gmiiMii => "gmii_mii"
  | .s6Rgmii => "s6rgmii"
  | .s7Rgmii => "s7rgmii"
  | .usRgmii => "usrgmii"
  | .ecp5Rgmii => "ecp5rgmii"
  | .model => "model"

/-- The name of a kind in an artifact, its words between underscores. -/
def tag : PhyKind → String
  | .mii => "mii"
  | .rmii => "rmii"
  | .gmii => "gmii"
  | .gmiiMii => "gmii_mii"
  | .s6Rgmii => "s6_rgmii"
  | .s7Rgmii => "s7_rgmii"
  | .usRgmii => "us_rgmii"
  | .ecp5Rgmii => "ecp5_rgmii"
  | .model => "model"

/-- A character sequence without the first occurrence of a word. -/
def removeFirst (word : List Char) : List Char → List Char
  | [] => []
  | c :: cs =>
    match afterStart? word (c :: cs) with
    | some rest => rest
    | none => c :: removeFirst word cs

/-- The short form of a name: a class name loses `liteeth` in front and the first `phy` after
it. -/
def shortName (s : String) : String :=
  match afterStart? "liteeth".toList s.toList with
  | some rest => String.ofList (removeFirst "phy".toList rest)
  | none => s

/-- The kind of a short name or of a class name, in either case. -/
def ofName (s : String) : Outcome PhyKind :=
  match shortName (optionName s) with
  | "mii" => .ok .mii
  | "rmii" => .ok .rmii
  | "gmii" => .ok .gmii
  | "gmii_mii" | "gmiimii" => .ok .gmiiMii
  | "s6rgmii" => .ok .s6Rgmii
  | "s7rgmii" => .ok .s7Rgmii
  | "usrgmii" => .ok .usRgmii
  | "ecp5rgmii" => .ok .ecp5Rgmii
  | "model" => .ok .model
  | _ => .error (.notFound .phy s)

/-! ### Facts of a kind -/

/-- The pads that a kind is built on; the model has none. -/
def family? : PhyKind → Option PadFamily
  | .mii => some .mii
  | .rmii => some .rmii
  | .gmii | .gmiiMii => some .gmii
  | .s6Rgmii | .s7Rgmii | .usRgmii | .ecp5Rgmii => some .rgmii
  | .model => none

/-- The frequency of both line clocks; the model has none. -/
def lineClock? (k : PhyKind) : Option Frequency :=
  k.family?.map fun
    | .mii => ⟨25000000⟩
    | .rmii => ⟨50000000⟩
    | .gmii | .rgmii => ⟨125000000⟩

/-- The width of the data streams in bits. -/
def dataWidth (_ : PhyKind) : UInt32 := 8

/-- The vendor whose devices alone have what a kind is made of. -/
def vendor? : PhyKind → Option Vendor
  | .s6Rgmii | .s7Rgmii | .usRgmii => some .xilinx
  | .ecp5Rgmii => some .lattice
  | _ => none

/-- Whether a kind delays its signals by configurable times. -/
def usesDelays (k : PhyKind) : Bool := k.family? = some .rgmii

/-- Whether a kind has to know the system clock. -/
def needsSystemClock (k : PhyKind) : Bool := k = .gmiiMii

/-- Whether a kind is the stand-in for simulation. -/
def isModel (k : PhyKind) : Bool := k = .model

/-- Whether a kind has control and status registers. -/
def hasRegisters (k : PhyKind) : Bool := !k.isModel

theorem mem_all (k : PhyKind) : k ∈ all := by cases k <;> decide

end PhyKind

end EtherCore
