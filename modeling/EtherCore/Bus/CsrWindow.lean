import EtherCore.Bus.Region
import EtherCore.Error
import EtherCore.Table
import EtherCore.Text.Ascii

/-!
The window of control and status registers: pages of one size, handed out by name, at the
location assigned to the name or at the lowest location that is neither assigned nor taken.
-/

namespace EtherCore

open Text

/-- A page handed out to a component. -/
structure CsrPage where
  name : String
  /-- The position of the page in the window. -/
  location : UInt32
  origin : UInt64
deriving DecidableEq

/-- A window of register pages. -/
structure CsrWindow where
  base : UInt64
  /-- The size of a page. -/
  paging : UInt64
  /-- The number of pages. -/
  count : UInt32
  /-- The locations assigned to names. -/
  fixed : Table UInt32
  /-- The pages handed out, in order. -/
  pages : List CsrPage
deriving DecidableEq

namespace CsrWindow

/-- The base of a window where none is given. -/
def defaultBase : UInt64 := 0xf0000000

/-- The size of a page where none is given. -/
def defaultPaging : UInt64 := 0x800

/-- The number of pages where none is given. -/
def defaultCount : UInt32 := 32

/-! ### Opening a window -/

/-- Checks assigned locations in the order of their names: each lies in the window and is assigned
once.  The entries seen before come with the check. -/
def checkFixed (count : UInt32) (seen : List (String × UInt32)) :
    List (String × UInt32) → Outcome Unit
  | [] => .ok ()
  | (name, location) :: rest =>
    let refuse (problem : String) : Outcome Unit :=
      .error (.configuration ("soc.csr_map." ++ name)
        ("location " ++ toString location ++ problem))
    if count ≤ location then refuse (" exceeds the " ++ toString count ++ " available CSR pages")
    else
      match seen.find? fun e => e.2 = location with
      | some e => refuse (" is already assigned to '" ++ e.1 ++ "'")
      | none => checkFixed count ((name, location) :: seen) rest

/-- A window without pages handed out.  The assigned locations have to be distinct and in the
window, and the window has to end below the greatest address. -/
def create (base paging : UInt64) (count : UInt32) (fixed : Table UInt32) : Outcome CsrWindow :=
  match checkFixed count [] fixed.entries with
  | .error e => .error e
  | .ok () =>
    if base.toNat + paging.toNat * count.toNat ≤ maxWord then .ok ⟨base, paging, count, fixed, []⟩
    else
      .error (.configuration "soc.csr_paging"
        (toString count ++ " pages of " ++ hexLiteral paging.toNat ++ " bytes above "
          ++ hexLiteral base.toNat ++ " overflow the address range"))

/-- The size of a window in bytes. -/
def size (w : CsrWindow) : UInt64 := UInt64.ofNat (mulHeld w.paging.toNat w.count.toNat)

/-! ### Handing out pages -/

/-- The locations that no free page can have. -/
def taken (w : CsrWindow) : List UInt32 := w.fixed.values ++ w.pages.map (·.location)

/-- The lowest location neither assigned nor taken.  Among one more location than are excluded,
one is left, so the search need not look further. -/
def freeLocation? (w : CsrWindow) : Option UInt32 :=
  ((List.range (min w.count.toNat (w.taken.length + 1))).map UInt32.ofNat).find? fun l =>
    !w.taken.contains l

/-- The location for a name: the assigned one, or the lowest that is left. -/
def locationFor (w : CsrWindow) (name : String) : Outcome UInt32 :=
  match w.fixed.get? name with
  | some l => .ok l
  | none =>
    match w.freeLocation? with
    | some l => .ok l
    | none =>
      .error (.configuration "soc.csr_map" ("no free CSR page left for '" ++ name ++ "'"))

/-- Hands out a page to a name that has none. -/
def alloc (w : CsrWindow) (name : String) : Outcome (CsrPage × CsrWindow) :=
  if w.pages.any fun p => p.name = name then .error (.conflict name 0)
  else
    match w.locationFor name with
    | .error e => .error e
    | .ok location =>
      let origin := w.base.toNat + location.toNat * w.paging.toNat
      if origin ≤ maxWord then
        let page : CsrPage := ⟨name, location, UInt64.ofNat origin⟩
        .ok (page, { w with pages := w.pages ++ [page] })
      else
        .error (.configuration "soc.csr_paging"
          ("CSR page " ++ toString location ++ " is out of range"))

end CsrWindow

end EtherCore
