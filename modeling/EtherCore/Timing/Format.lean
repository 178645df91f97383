import EtherCore.Frequency
import EtherCore.Platform
import EtherCore.Timing.Basic

/-!
The files in which toolchains read timing constraints.
-/

namespace EtherCore

/-- A dialect of constraint files. -/
inductive ConstraintFormat where
  | xdc
  | lpf
  | sdc
deriving DecidableEq

namespace ConstraintFormat

/-- The name of a dialect, which its files end in. -/
def extension : ConstraintFormat → String
  | .xdc => "xdc"
  | .lpf => "lpf"
  | .sdc => "sdc"

/-- The dialect of a toolchain. -/
def ofToolchain : Toolchain → ConstraintFormat
  | .vivado | .symbiflow => .xdc
  | .diamond => .lpf
  | .trellis | .radiant => .sdc

/-- The line for the period of a clock. -/
def periodLine (f : ConstraintFormat) (p : Period) : String :=
  match f with
  | .xdc | .sdc =>
    "create_clock -name " ++ p.clock ++ " -period " ++ p.nanoseconds.fixed Frequency.style 3
      ++ " [get_nets " ++ p.clock ++ "]"
  | .lpf =>
    "FREQUENCY NET \"" ++ p.clock ++ "\" " ++ p.megahertz.fixed Frequency.style 6 ++ " MHz;"

/-- The line that takes the paths from one clock to another out of the timing. -/
def pathLine (f : ConstraintFormat) (source target : String) : String :=
  match f with
  | .xdc =>
    "set_false_path -quiet -from [get_clocks " ++ source ++ "] -to [get_clocks " ++ target ++ "]"
  | .sdc => "set_false_path -from [get_clocks " ++ source ++ "] -to [get_clocks " ++ target ++ "]"
  | .lpf => "BLOCK PATH FROM CLKNET \"" ++ source ++ "\" TO CLKNET \"" ++ target ++ "\";"

/-- The lines of a constraint file: a header, one line for a period and two for a false path.
There are none without constraints. -/
def lines (f : ConstraintFormat) (s : ConstraintSet) : List String :=
  if s.isEmpty then []
  else
    "# Ethernet core timing constraints" :: s.periods.map f.periodLine
      ++ s.falsePaths.flatMap fun p => [f.pathLine p.source p.target, f.pathLine p.target p.source]

/-- The text of a constraint file. -/
def render (f : ConstraintFormat) (s : ConstraintSet) : String :=
  String.join ((f.lines s).map fun line => line ++ "\n")

end ConstraintFormat

end EtherCore
