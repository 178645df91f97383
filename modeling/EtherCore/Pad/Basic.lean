/-!
Pads: named signals with a width and a direction, the declarations that group them, and the
bundles in which they are handed out.
-/

namespace EtherCore

/-! ### Signals -/

/-- The direction of a signal as the core sees it. -/
inductive Direction where
  | input
  | output
  | inout
deriving DecidableEq

namespace Direction

/-- The name of a direction. -/
def text : Direction → String
  | .input => "Input"
  | .output => "Output"
  | .inout => "InOut"

end Direction

/-- A signal with a width in bits. -/
structure Signal where
  name : String
  width : UInt32
  direction : Direction
deriving DecidableEq

/-! ### Declarations -/

/-- The declaration of a pad: a record of signals, or plain pins, which are one signal with the
name of the declaration. -/
structure PadDecl where
  name : String
  /-- Tells declarations of one name apart. -/
  index : UInt32
  signals : List Signal
  /-- Whether the signals are the fields of a record. -/
  record : Bool
deriving DecidableEq

namespace PadDecl

/-- A declaration of plain pins. -/
def pins (name : String) (index width : UInt32) (direction : Direction) : PadDecl :=
  ⟨name, index, [⟨name, width, direction⟩], false⟩

/-- A declaration of a record. -/
def fields (name : String) (index : UInt32) (signals : List Signal) : PadDecl :=
  ⟨name, index, signals, true⟩

/-- The name and index, which identify a declaration. -/
def key (d : PadDecl) : String × UInt32 := (d.name, d.index)

end PadDecl

/-! ### Bundles -/

/-- A pad that has been handed out, with the stem of the names of its top-level ports. -/
structure Bundle extends PadDecl where
  stem : String
deriving DecidableEq

namespace Bundle

/-- The bundle of a declaration. -/
def ofDecl (d : PadDecl) (stem : String) : Bundle := { d with stem := stem }

/-- A bundle without signals, for pads that are not used. -/
def empty (name : String) : Bundle := ⟨⟨name, 0, [], true⟩, name⟩

/-- The first signal of a name. -/
def signal? (b : Bundle) (name : String) : Option Signal := b.signals.find? fun s => s.name = name

/-- Tells whether a bundle has a signal of a name. -/
def has (b : Bundle) (name : String) : Bool := (b.signal? name).isSome

/-- The width of the first signal of a name. -/
def width? (b : Bundle) (name : String) : Option UInt32 := (b.signal? name).map (·.width)

/-- The name of the top-level port of a signal. -/
def portName (b : Bundle) (signal : String) : String :=
  if b.record then b.stem ++ "_" ++ signal else b.stem

/-- The sum of the widths of all signals. -/
def totalWidth (b : Bundle) : Nat := b.signals.foldl (fun n s => n + s.width.toNat) 0

theorem name_of_signal? {b : Bundle} {name : String} {s : Signal} (h : b.signal? name = some s) :
    s.name = name := by
  simpa using List.find?_some h

end Bundle

end EtherCore
