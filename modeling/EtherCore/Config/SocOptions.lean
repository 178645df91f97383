import EtherCore.Config.Settings
import EtherCore.Document.Printer
import EtherCore.Text.Quoted

/-!
The entry `soc` of a configuration: three of its entries are maps of numbers, and the others are
arguments that are passed on.
-/

namespace EtherCore

open Text

/-! ### Maps of numbers -/

/-- Floating point numbers that stand where something else is expected. -/
def foundFloatStyle : Binary64.Style := ⟨"NaN", "inf", true⟩

/-- The wording for a value that stands where something else is expected; a date and time counts
as its text. -/
def Value.found : Value → String
  | .string s => "string " ++ quoted s
  | .datetime d => "string " ++ quoted d.text
  | .integer n => "integer `" ++ toString n ++ "`"
  | .float x => "floating point `" ++ x.text foundFloatStyle ++ "`"
  | .boolean b => "boolean `" ++ toString b ++ "`"
  | .array _ => "sequence"
  | .table _ => "map"

/-- The problem of a value that has the wrong type. -/
def wrongType (v : Value) (expected : String) : String :=
  "invalid type: " ++ v.found ++ ", expected " ++ expected

/-- The problem of a value that is out of range. -/
def wrongValue (v : Value) (expected : String) : String :=
  "invalid value: " ++ v.found ++ ", expected " ++ expected

/-- A number below a power of two. -/
def readUnsigned (bits : Nat) (v : Value) : Except String Nat :=
  let expected := "u" ++ toString bits
  match v with
  | .integer n =>
    if 0 ≤ n ∧ n.toInt.toNat < Nat.pow 2 bits then .ok n.toInt.toNat
    else .error (wrongValue v expected)
  | _ => .error (wrongType v expected)

/-- Entries read one after the other; the first that cannot be read is the problem. -/
def readEntries {α : Type} (read : Value → Except String α) :
    List (String × Value) → Except String (List (String × α))
  | [] => .ok []
  | (k, v) :: es =>
    match read v with
    | .error problem => .error problem
    | .ok a => (readEntries read es).map ((k, a) :: ·)

/-- A table read entry by entry, in the order of the names. -/
def readMap {α : Type} (read : Value → Except String α) (v : Value) : Except String (Table α) :=
  match v with
  | .table es => (readEntries read (Table.ofList es).entries).map Table.ofList
  | _ => .error (wrongType v "a map")

/-- A map among the options of the system, empty where it is absent. -/
def readSocMap {α : Type} (options : Table Value) (name : String)
    (read : Value → Except String α) : Outcome (Table α) :=
  match options.get? name with
  | none => .ok .empty
  | some v => (readMap read v).mapError fun problem => .configuration ("soc." ++ name) problem

/-! ### Options -/

namespace SocOptions

/-- A number of 32 bits. -/
def read32 (v : Value) : Except String UInt32 := (readUnsigned 32 v).map UInt32.ofNat

/-- A number of 64 bits. -/
def read64 (v : Value) : Except String UInt64 := (readUnsigned 64 v).map UInt64.ofNat

/-- The options of a table: the three maps, and the rest as arguments. -/
def ofTable (t : Table Value) : Outcome SocOptions := do
  let csr ← readSocMap t "csr_map" read32
  let interrupt ← readSocMap t "interrupt_map" read32
  let memory ← readSocMap t "mem_map" read64
  return ⟨((t.erase "csr_map").erase "interrupt_map").erase "mem_map", csr, interrupt, memory⟩

/-- The options of an entry that may be absent. -/
def ofValue? : Option Value → Outcome SocOptions
  | none => .ok .empty
  | some (.table es) => ofTable (Table.ofList es)
  | some v => .error (.configuration "soc" ("expected a table, found " ++ v.text))

end SocOptions

end EtherCore
