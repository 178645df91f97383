/-!
The reasons for which the generation of a core fails, with their wording.
-/

namespace EtherCore

/-- What a name was looked up as. -/
inductive Sought where
  | pad
  | vendor
  | toolchain
  | phy
  | core
  | value
deriving DecidableEq

/-- The wording of what was looked up. -/
def Sought.text : Sought → String
  | .pad => "pad"
  | .vendor => "vendor"
  | .toolchain => "toolchain"
  | .phy => "PHY"
  | .core => "core"
  | .value => "value"

/-- A reason for which no core can be generated. -/
inductive Error where
  /-- A configuration key is missing, malformed or at odds with another. -/
  | configuration (key problem : String)
  /-- The pads fit several PHYs, or none. -/
  | ambiguous (problem : String)
  /-- The pads are known, but fit no PHY that can be chosen without being named. -/
  | unsupported (problem : String)
  /-- A bundle, region or node of this name and index exists already. -/
  | conflict (name : String) (index : UInt32)
  /-- Nothing has the name that was looked up. -/
  | notFound (sought : Sought) (name : String)
deriving DecidableEq

namespace Error

/-- The wording of an error. -/
def message : Error → String
  | .configuration key problem => "configuration error in '" ++ key ++ "': " ++ problem
  | .ambiguous problem => "ambiguous configuration: " ++ problem
  | .unsupported problem => "unsupported configuration: " ++ problem
  | .conflict name index =>
    "resource conflict: '" ++ name ++ "' index " ++ toString index ++ " is already in use"
  | .notFound sought name => sought.text ++ " not found: '" ++ name ++ "'"

/-- The configuration key that an error is about. -/
def key? : Error → Option String
  | .configuration key _ => some key
  | _ => none

end Error

/-- The outcome of a step of the generation. -/
abbrev Outcome := Except Error

end EtherCore
