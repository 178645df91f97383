import EtherCore.Binary64.Basic
import EtherCore.Document.Datetime
import EtherCore.Table

/-!
The values of a configuration document.  The tables of a well-formed value have their keys in
ascending order, at every depth.
-/

namespace EtherCore

/-- A value of a configuration document. -/
inductive Value where
  | string (s : String)
  | integer (n : Int64)
  | float (x : Binary64)
  | boolean (b : Bool)
  | datetime (d : Datetime)
  | array (xs : List Value)
  | table (entries : List (String × Value))

namespace Value

/-- The names under which a table holds something, in ascending order and each once. -/
def AscendingKeys (entries : List (String × Value)) : Prop :=
  entries.Pairwise fun x y => x.1 < y.1

mutual

/-- Every table in the value has its keys in ascending order. -/
def WellFormed : Value → Prop
  | .array xs => WellFormedItems xs
  | .table es => AscendingKeys es ∧ WellFormedEntries es
  | _ => True

/-- Every item is well formed. -/
def WellFormedItems : List Value → Prop
  | [] => True
  | v :: vs => v.WellFormed ∧ WellFormedItems vs

/-- Every entry has a well-formed value. -/
def WellFormedEntries : List (String × Value) → Prop
  | [] => True
  | (_, v) :: es => v.WellFormed ∧ WellFormedEntries es

end

/-- The table value of a table. -/
def ofTable (t : Table Value) : Value := .table t.entries

theorem wellFormedEntries_iff {es : List (String × Value)} :
    WellFormedEntries es ↔ ∀ e ∈ es, e.2.WellFormed := by
  induction es with
  | nil => simp [WellFormedEntries]
  | cons e es ih => cases e; simp [WellFormedEntries, ih]

end Value

end EtherCore
