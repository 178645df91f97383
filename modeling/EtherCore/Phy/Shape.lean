import EtherCore.Pad.Basic
import EtherCore.Phy.Kind

/-!
The signals that a kind of PHY needs on its pads, and the check of bundles against them.
-/

namespace EtherCore

/-- A signal that has to be there with an exact width. -/
structure Requirement where
  name : String
  width : UInt32
deriving DecidableEq

namespace PhyKind

/-- The signals that a kind needs on its clock pads.  A gigabit PHY without fallback does without
the slow transmit clock. -/
def clockRequirements : PhyKind → List Requirement
  | .mii => [⟨"tx", 1⟩, ⟨"rx", 1⟩]
  | .rmii => [⟨"ref_clk", 1⟩]
  | .gmii => [⟨"gtx", 1⟩, ⟨"rx", 1⟩]
  | .gmiiMii => [⟨"tx", 1⟩, ⟨"gtx", 1⟩, ⟨"rx", 1⟩]
  | .s6Rgmii | .s7Rgmii | .usRgmii | .ecp5Rgmii => [⟨"tx", 1⟩, ⟨"rx", 1⟩]
  | .model => []

/-- The signals that a kind needs on its data pads. -/
def dataRequirements (k : PhyKind) : List Requirement :=
  match k.family? with
  | some .mii =>
    [⟨"rst_n", 1⟩, ⟨"mdio", 1⟩, ⟨"mdc", 1⟩, ⟨"rx_dv", 1⟩, ⟨"rx_er", 1⟩, ⟨"rx_data", 4⟩,
      ⟨"tx_en", 1⟩, ⟨"tx_data", 4⟩, ⟨"col", 1⟩, ⟨"crs", 1⟩]
  | some .rmii =>
    [⟨"rst_n", 1⟩, ⟨"rx_data", 2⟩, ⟨"crs_dv", 1⟩, ⟨"tx_en", 1⟩, ⟨"tx_data", 2⟩, ⟨"mdc", 1⟩,
      ⟨"mdio", 1⟩]
  | some .gmii =>
    [⟨"rst_n", 1⟩, ⟨"int_n", 1⟩, ⟨"mdio", 1⟩, ⟨"mdc", 1⟩, ⟨"rx_dv", 1⟩, ⟨"rx_er", 1⟩,
      ⟨"rx_data", 8⟩, ⟨"tx_en", 1⟩, ⟨"tx_er", 1⟩, ⟨"tx_data", 8⟩, ⟨"col", 1⟩, ⟨"crs", 1⟩]
  | some .rgmii =>
    [⟨"rst_n", 1⟩, ⟨"int_n", 1⟩, ⟨"mdio", 1⟩, ⟨"mdc", 1⟩, ⟨"rx_ctl", 1⟩, ⟨"rx_data", 4⟩,
      ⟨"tx_ctl", 1⟩, ⟨"tx_data", 4⟩]
  | none => []

/-- Checks a bundle against requirements; the first that is not met is the error. -/
def checkBundle (k : PhyKind) (role : String) (b : Bundle) : List Requirement → Outcome Unit
  | [] => .ok ()
  | r :: rs =>
    let refuse (problem : String) : Outcome Unit :=
      .error (.configuration "phy"
        (k.name ++ " needs " ++ role ++ " signal `" ++ r.name ++ "`" ++ problem))
    match b.width? r.name with
    | some w =>
      if w = r.width then checkBundle k role b rs
      else
        refuse (" of width " ++ toString r.width ++ ", `" ++ b.name ++ "` has width " ++ toString w)
    | none => refuse (", missing from `" ++ b.name ++ "`")

/-- Checks the clock pads and then the data pads of a kind; other signals may be there too. -/
def checkShape (k : PhyKind) (clockPads pads : Bundle) : Outcome Unit := do
  k.checkBundle "clock" clockPads k.clockRequirements
  k.checkBundle "data" pads k.dataRequirements

end PhyKind

end EtherCore
