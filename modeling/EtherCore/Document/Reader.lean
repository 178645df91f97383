import EtherCore.Document.Scalar
import EtherCore.Document.Tree

/-!
The reader of documents: keys, values with their parts, and the lines that make up a document.
Values may be nested and keys may be dotted to a limited depth.
-/

namespace EtherCore

namespace Document

/-! ### Keys -/

/-- The number of parts that a key stays below, and of values that nest. -/
def depthLimit : Nat := 80

/-- Reads one part of a key. -/
def readKeyPart : Reader String := fun cs =>
  match cs with
  | '"' :: _ | '\'' :: _ => readLineString cs
  | _ =>
    match cs.takeWhile isBareKeyChar with
    | [] => none
    | word => some (String.ofList word, cs.dropWhile isBareKeyChar)

/-- Reads the parts of a key between points, and the blanks around them. -/
def readKeyParts (cs : List Char) : Option (List String × List Char) :=
  match readKeyPart (dropBlanks cs) with
  | none => none
  | some (part, rest) =>
    match dropBlanks rest with
    | '.' :: rest =>
      if rest.length < cs.length then (readKeyParts rest).map fun r => (part :: r.1, r.2) else none
    | rest => some ([part], rest)
termination_by cs.length

/-- Reads a key: the path before its last part, and the last part. -/
def readKey : Reader (List String × String) := fun cs =>
  match readKeyParts cs with
  | none => none
  | some (parts, rest) =>
    match parts.getLast? with
    | some k => if parts.length < depthLimit then some ((parts.dropLast, k), rest) else none
    | none => none

/-! ### Values -/

/-- What follows a comment, from the end of its line on. -/
def dropComment (cs : List Char) : List Char :=
  match cs with
  | '#' :: rest => rest.dropWhile isPlain
  | cs => cs

theorem length_dropComment_le (cs : List Char) : (dropComment cs).length ≤ cs.length := by
  unfold dropComment
  split
  · have := length_dropWhile_le isPlain ‹_›
    simp only [List.length_cons]
    omega
  · exact Nat.le_refl _

/-- A character sequence without the blanks, line ends and comments between the items of an
array. -/
def dropFiller (cs : List Char) : List Char :=
  match _h : afterLineEnd? (dropComment (dropBlanks cs)) with
  | some rest => dropFiller rest
  | none => dropBlanks cs
termination_by cs.length
decreasing_by
  have h1 := length_of_afterLineEnd? _h
  have h2 := length_dropComment_le (dropBlanks cs)
  have h3 := length_dropWhile_le isLineBlank cs
  unfold dropBlanks at h1 h2
  omega

/-- Reads the items of an array, up to the closing bracket. -/
def readItems (read : Reader Node) (cs : List Char) : Option (List Node × List Char) :=
  match dropFiller cs with
  | ']' :: rest => some ([], rest)
  | start =>
    match read start with
    | none => none
    | some (n, rest) =>
      match dropFiller rest with
      | ']' :: rest => some ([n], rest)
      | ',' :: rest =>
        if rest.length < cs.length then (readItems read rest).map fun r => (n :: r.1, r.2)
        else none
      | _ => none
termination_by cs.length

/-- Reads a key, the equals sign and a value. -/
def readPair (read : Reader Node) : Reader ((List String × String) × Node) := fun cs =>
  match readKey cs with
  | some (key, '=' :: rest) => (read (dropBlanks rest)).map fun r => ((key, r.1), r.2)
  | _ => none

/-- Reads the entries of a table in braces that come after the given ones, at least one, up to
the closing brace. -/
def readFields (read : Reader Node) (es : NodeEntries) (cs : List Char) :
    Option (NodeEntries × List Char) :=
  match readPair read cs with
  | none => none
  | some (((path, k), n), rest) =>
    match Node.put k n path es with
    | none => none
    | some es =>
      match dropBlanks rest with
      | '}' :: rest => some (es, rest)
      | ',' :: rest => if rest.length < cs.length then readFields read es rest else none
      | _ => none
termination_by cs.length

/-- Reads a table in braces after the opening brace. -/
def readBraces (read : Reader Node) : Reader Node := fun cs =>
  match dropBlanks cs with
  | '}' :: rest => some (.table .braced [], rest)
  | _ => (readFields read [] cs).map fun r => (.table .braced r.1, r.2)

/-- Reads a value that has no parts. -/
def readLeaf : Reader Node := fun cs => (readScalar cs).map fun r => (.scalar r.1, r.2)

/-- Reads a value in which parts nest to at most a depth. -/
def readNested : Nat → Reader Node
  | 0 => readLeaf
  | depth + 1 => fun cs =>
    match cs with
    | '[' :: rest => (readItems (readNested depth) rest).map fun r => (.array r.1, r.2)
    | '{' :: rest => readBraces (readNested depth) rest
    | cs => readLeaf cs

/-- Reads a value. -/
def readValue : Reader Node := readNested (depthLimit - 1)

/-! ### Lines -/

/-- A document while it is read: its tables, and the path of the table that keys go to. -/
structure State where
  root : NodeEntries
  path : List String

/-- What follows the rest of a line, on which only blanks and a comment may stand. -/
def afterLine? (cs : List Char) : Option (List Char) :=
  match dropComment (dropBlanks cs) with
  | [] => some []
  | rest => afterLineEnd? rest

/-- Reads a header after its opening brackets: the table it names is opened. -/
def readHeader (closing : List Char) (opening : String → NodeEntries → Option NodeEntries)
    (s : State) : Reader State := fun cs => do
  let ((path, k), rest) ← readKey cs
  let rest ← Text.afterStart? closing rest
  let root ← Node.atPath (opening k) path s.root
  return (⟨root, path ++ [k]⟩, rest)

/-- Reads a key with its value into the table of the last header. -/
def readEntry (s : State) : Reader State := fun cs => do
  let (((path, k), n), rest) ← readPair readValue cs
  let root ← Node.atPath (Node.put k n path) s.path s.root
  return (⟨root, s.path⟩, rest)

/-- Reads what stands on a line, up to its end. -/
def readLine (s : State) : Reader State := fun cs =>
  let read : Option (State × List Char) :=
    match cs with
    | '[' :: '[' :: rest => readHeader [']', ']'] Node.openItem s rest
    | '[' :: rest => readHeader [']'] Node.openTable s rest
    | '#' :: _ | '\n' :: _ | '\r' :: _ => some (s, cs)
    | cs => readEntry s cs
  read.bind fun r => (afterLine? r.2).map fun rest => (r.1, rest)

/-- Reads the lines of a document. -/
def readLines (s : State) (cs : List Char) : Option State :=
  match dropBlanks cs with
  | [] => some s
  | start =>
    match readLine s start with
    | none => none
    | some (s, rest) => if rest.length < cs.length then readLines s rest else none
termination_by cs.length

/-- The table that a text describes; a mark of the byte order in front does not count. -/
def read? (text : String) : Option (Table Value) :=
  let cs := match text.toList with
    | '\uFEFF' :: cs => cs
    | cs => cs
  match readLines ⟨[], []⟩ cs with
  | none => none
  | some s => (Node.entryValues? s.root).map Table.ofList

end Document

end EtherCore
