import EtherCore.Error
import EtherCore.Text.Ascii
import EtherCore.Text.Blank

/-!
The target of a core: the maker of the device, its part number and the toolchain that builds
for it.
-/

namespace EtherCore

open Text

/-- A name as options are compared: without blanks at its ends and in lower case. -/
def optionName (s : String) : String := lower (trim s)

/-! ### Vendors -/

/-- The makers of the devices that cores are generated for. -/
inductive Vendor where
  | lattice
  | xilinx
deriving DecidableEq

/-- The programs that build a core for a device. -/
inductive Toolchain where
  | diamond
  | trellis
  | radiant
  | vivado
  | symbiflow
deriving DecidableEq

namespace Vendor

/-- The name of a vendor. -/
def name : Vendor → String
  | .lattice => "lattice"
  | .xilinx => "xilinx"

/-- The toolchain of a vendor where none is named. -/
def defaultToolchain : Vendor → Toolchain
  | .lattice => .diamond
  | .xilinx => .vivado

/-- The vendor of a name. -/
def ofName (s : String) : Outcome Vendor :=
  match optionName s with
  | "lattice" => .ok .lattice
  | "xilinx" | "amd" => .ok .xilinx
  | _ => .error (.notFound .vendor s)

end Vendor

/-! ### Toolchains -/

namespace Toolchain

/-- The name of a toolchain. -/
def name : Toolchain → String
  | .diamond => "diamond"
  | .trellis => "trellis"
  | .radiant => "radiant"
  | .vivado => "vivado"
  | .symbiflow => "symbiflow"

/-- The vendor whose devices a toolchain builds for. -/
def vendor : Toolchain → Vendor
  | .diamond | .trellis | .radiant => .lattice
  | .vivado | .symbiflow => .xilinx

/-- The toolchain of a name. -/
def ofName (s : String) : Outcome Toolchain :=
  match optionName s with
  | "diamond" => .ok .diamond
  | "trellis" | "nextpnr" => .ok .trellis
  | "radiant" => .ok .radiant
  | "vivado" => .ok .vivado
  | "symbiflow" | "f4pga" => .ok .symbiflow
  | _ => .error (.notFound .toolchain s)

end Toolchain

/-- The toolchain of a vendor where none is named builds for the vendor. -/
theorem Vendor.vendor_defaultToolchain (v : Vendor) : v.defaultToolchain.vendor = v := by
  cases v <;> rfl

/-! ### Platforms -/

/-- The device that a core is generated for; the part number may still be open. -/
structure Platform where
  vendor : Vendor
  device : String
  toolchain : Toolchain
deriving DecidableEq

/-- The platform of a vendor, a part number and a toolchain, which has to build for the
vendor. -/
def Platform.of (vendor : Vendor) (device : String) (toolchain : Toolchain) : Outcome Platform :=
  if toolchain.vendor = vendor then .ok ⟨vendor, device, toolchain⟩
  else
    .error (.configuration "toolchain"
      ("toolchain '" ++ toolchain.name ++ "' does not build " ++ vendor.name ++ " devices"))

theorem Platform.of_eq_ok {v : Vendor} {d : String} {t : Toolchain} {p : Platform} :
    Platform.of v d t = .ok p ↔ t.vendor = v ∧ p = ⟨v, d, t⟩ := by
  unfold Platform.of
  split <;> simp_all [eq_comm]

end EtherCore
