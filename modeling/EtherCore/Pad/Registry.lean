import EtherCore.Error
import EtherCore.Pad.Catalog

/-!
The registry that hands out pads, each at most once.
-/

namespace EtherCore

/-- The declared pads, and the names and indices of those handed out, in order. -/
structure PadRegistry where
  decls : List PadDecl
  granted : List (String × UInt32)
deriving DecidableEq

namespace PadRegistry

/-- The registry without pads. -/
def empty : PadRegistry := ⟨[], []⟩

/-- The registry of the pads that every core starts from. -/
def standard : PadRegistry := ⟨PadDecl.catalog, []⟩

/-! ### Questions -/

/-- The declaration of a name and index. -/
def lookup? (r : PadRegistry) (name : String) (index : UInt32) : Option PadDecl :=
  r.decls.find? fun d => d.name = name ∧ d.index = index

/-- Tells whether a pad has been handed out. -/
def isGranted (r : PadRegistry) (name : String) (index : UInt32) : Bool :=
  r.granted.contains (name, index)

/-- The declarations of a name. -/
def declsOf (r : PadRegistry) (name : String) : List PadDecl :=
  r.decls.filter fun d => d.name = name

/-- The declaration with the lowest index, the first of them if several have it. -/
def lowest? : List PadDecl → Option PadDecl
  | [] => none
  | d :: ds =>
    match lowest? ds with
    | none => some d
    | some e => some (if e.index < d.index then e else d)

/-- The greatest index of a list of declarations. -/
def greatestIndex (ds : List PadDecl) : UInt32 := ds.foldl (fun i d => max i d.index) 0

/-- The pads handed out, by name and then by index. -/
def grantedInOrder (r : PadRegistry) : List (String × UInt32) :=
  r.granted.mergeSort fun a b => a.1 < b.1 || (a.1 = b.1 && a.2 ≤ b.2)

/-! ### Declaring more pads -/

/-- The first declaration with the key of an earlier one or with one of the given keys. -/
def firstRepeated? (seen : List (String × UInt32)) : List PadDecl → Option PadDecl
  | [] => none
  | d :: ds => if d.key ∈ seen then some d else firstRepeated? (d.key :: seen) ds

/-- The registry with more pads; none is added if a name and index would be declared twice. -/
def declare (r : PadRegistry) (ds : List PadDecl) : Outcome PadRegistry :=
  match firstRepeated? (r.decls.map PadDecl.key) ds with
  | some d => .error (.conflict d.name d.index)
  | none => .ok { r with decls := r.decls ++ ds }

/-! ### Handing out pads -/

/-- The declaration that a request stands for: the one of the index, or without an index the one
of the lowest index not yet handed out. -/
def choose (r : PadRegistry) (name : String) (index : Option UInt32) : Outcome PadDecl :=
  let candidates := r.declsOf name
  if candidates = [] then .error (.notFound .pad name)
  else
    match index with
    | some i =>
      match candidates.find? fun d => d.index = i with
      | none => .error (.notFound .pad (name ++ ":" ++ toString i))
      | some d => if r.isGranted name i then .error (.conflict name i) else .ok d
    | none =>
      match lowest? (candidates.filter fun d => !r.isGranted name d.index) with
      | none => .error (.conflict name (greatestIndex candidates))
      | some d => .ok d

/-- The stem of the ports of a pad: its name, and its index where the name is declared more than
once. -/
def stemOf (r : PadRegistry) (d : PadDecl) : String :=
  if 1 < (r.declsOf d.name).length then d.name ++ toString d.index else d.name

/-- Hands out a pad. -/
def request (r : PadRegistry) (name : String) (index : Option UInt32) :
    Outcome (Bundle × PadRegistry) :=
  match r.choose name index with
  | .error e => .error e
  | .ok d => .ok (Bundle.ofDecl d (r.stemOf d), { r with granted := r.granted ++ [d.key] })

theorem mem_declsOf {r : PadRegistry} {name : String} {d : PadDecl} :
    d ∈ r.declsOf name ↔ d ∈ r.decls ∧ d.name = name := by
  simp [declsOf]

end PadRegistry

end EtherCore
