import EtherCore.Document.Printer

/-!
Documents while they are read: tables in the order in which they are written, which know how they
came to be, because that decides what may still be added to them.  The values are taken from a
document when all of it has been read: the parts of a table that turns out to be a date and time
are left unlooked at.
-/

namespace EtherCore.Document

/-- How a table came to be. -/
inductive TableForm where
  /-- A header names it. -/
  | headed
  /-- It lies on the path of a header. -/
  | passed
  /-- It lies on the path of a dotted key. -/
  | dotted
  /-- It stands in braces. -/
  | braced
deriving DecidableEq

/-- A part of a document: a value without parts, an array, a table, or the tables of a repeated
header. -/
inductive Node where
  | scalar (v : Value)
  | array (items : List Node)
  | table (form : TableForm) (entries : List (String × Node))
  | tables (items : List (List (String × Node)))

/-- The entries of a table, in the order in which they are written. -/
abbrev NodeEntries := List (String × Node)

namespace Node

/-! ### Entries -/

/-- The entries with another node under a name that is there. -/
def replace (k : String) (n : Node) (es : NodeEntries) : NodeEntries :=
  es.map fun e => if e.1 = k then (k, n) else e

/-- The entries without a name. -/
def remove (k : String) (es : NodeEntries) : NodeEntries := es.filter fun e => e.1 ≠ k

/-- A list with its last item changed; nothing where there is no item or no change. -/
def updateLast {α : Type} (f : α → Option α) (xs : List α) : Option (List α) :=
  match xs.getLast? with
  | none => none
  | some x => (f x).map fun y => xs.dropLast ++ [y]

/-! ### Parts under keys -/

/-- The entries with a part under a key, below the tables that a path names.  The tables of the
path are made where they are missing; one that is there may not have a header of its own or stand
in braces, and the last has to be made by dotted keys. -/
def put (k : String) (n : Node) : List String → NodeEntries → Option NodeEntries
  | [], es => if (Table.lookup? k es).isSome then none else some (es ++ [(k, n)])
  | p :: ps, es =>
    match Table.lookup? p es with
    | none => (put k n ps []).map fun sub => es ++ [(p, .table .dotted sub)]
    | some (.table .dotted sub) =>
      (put k n ps sub).map fun sub => replace p (.table .dotted sub) es
    | some (.table .passed sub) =>
      if ps = [] then none else (put k n ps sub).map fun sub => replace p (.table .passed sub) es
    | some (.tables items) =>
      if ps = [] then none
      else (updateLast (put k n ps) items).map fun items => replace p (.tables items) es
    | some (.table .headed _) | some (.table .braced _) | some (.scalar _) | some (.array _) =>
      none

/-! ### Tables under headers -/

/-- The entries with a change to the table that a path of headers names: the last of repeated
tables, and a new table where there is none.  The path may not go into braces. -/
def atPath (change : NodeEntries → Option NodeEntries) :
    List String → NodeEntries → Option NodeEntries
  | [], es => change es
  | p :: ps, es =>
    match Table.lookup? p es with
    | none => (atPath change ps []).map fun sub => es ++ [(p, .table .passed sub)]
    | some (.table form sub) =>
      if form = .braced then none
      else (atPath change ps sub).map fun sub => replace p (.table form sub) es
    | some (.tables items) =>
      (updateLast (atPath change ps) items).map fun items => replace p (.tables items) es
    | some (.scalar _) | some (.array _) => none

/-- The entries with a table for a header.  A table on whose path other headers lie keeps its
entries; any other that is there may not be named again. -/
def openTable (k : String) (es : NodeEntries) : Option NodeEntries :=
  match Table.lookup? k es with
  | none => some (es ++ [(k, .table .headed [])])
  | some (.table .passed sub) => some (remove k es ++ [(k, .table .headed sub)])
  | some _ => none

/-- The entries with one more table for a repeated header. -/
def openItem (k : String) (es : NodeEntries) : Option NodeEntries :=
  match Table.lookup? k es with
  | none => some (es ++ [(k, .tables [[]])])
  | some (.tables items) => some (replace k (.tables (items ++ [[]])) es)
  | some _ => none

/-! ### Values of finished parts -/

/-- The date and time that a part names by its text. -/
def datetime? : Node → Option Datetime
  | .scalar (.string s) => Datetime.ofText? s
  | _ => none

mutual

/-- The value of a part. -/
def value? : Node → Option Value
  | .scalar v => some v
  | .array items => (values? items).map .array
  | .table _ es => tableValue? es
  | .tables items => (tableValues? items).map .array

/-- The values of parts. -/
def values? : List Node → Option (List Value)
  | [] => some []
  | n :: items =>
    match n.value?, values? items with
    | some v, some vs => some (v :: vs)
    | _, _ => none

/-- The value of a table: where its first key is the one under which messages show a date and
time, that date and time, whatever else the table holds. -/
def tableValue? : NodeEntries → Option Value
  | [] => some (.table [])
  | (k, n) :: es =>
    if k = datetimeKey then n.datetime?.map .datetime
    else
      match n.value?, entryValues? es with
      | some v, some vs => some (.ofTable (Table.ofList ((k, v) :: vs)))
      | _, _ => none

/-- The values of tables. -/
def tableValues? : List NodeEntries → Option (List Value)
  | [] => some []
  | es :: items =>
    match tableValue? es, tableValues? items with
    | some v, some vs => some (v :: vs)
    | _, _ => none

/-- The values of entries. -/
def entryValues? : NodeEntries → Option (List (String × Value))
  | [] => some []
  | (k, n) :: es =>
    match n.value?, entryValues? es with
    | some v, some vs => some ((k, v) :: vs)
    | _, _ => none

end

end Node

end EtherCore.Document
