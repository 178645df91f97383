import EtherCore.Config.Settings
import EtherCore.Phy.Selection
import EtherCore.Proofs.Pad.Grants

/-!
The PHY that a choice comes to on the standard pads.  The pads of a family have all that each kind
on them needs, so a PHY that is named is never refused; of the families that a PHY can be inferred
from, two stand for one and two do not (`Selection.of_standard`).
-/

namespace EtherCore

namespace PhyChoice

/-- The PHY that a choice comes to on the standard pads. -/
def resolve : PhyChoice → Outcome PhyKind
  | .named k => .ok k
  | .inferred .mii => .ok .mii
  | .inferred .gmii => .ok .gmiiMii
  | .inferred .rmii =>
    .error (.ambiguous
      "pads `rmii_eth_clocks`/`rmii_eth` match no known PHY shape; set `phy` explicitly")
  | .inferred .rgmii =>
    .error (.unsupported ("RGMII pads need a vendor-specific PHY; set `phy` to one of "
      ++ "s6rgmii, s7rgmii, usrgmii, ecp5rgmii"))

/-- The clock pads and the data pads of a choice. -/
def pads (choice : PhyChoice) : Bundle × Bundle :=
  match choice.family? with
  | some f => (((PadDecl.standard? f.clockPads).map PadDecl.bundle).getD (.empty f.clockPads),
      ((PadDecl.standard? f.dataPads).map PadDecl.bundle).getD (.empty f.dataPads))
  | none => (.empty "model_clock_pads", .empty "model_pads")

end PhyChoice

/-- On the pads of a choice the selection is what the choice comes to. -/
theorem Selection.of_standard (choice : PhyChoice) :
    Selection.of choice.named? choice.pads.1 choice.pads.2
      = choice.resolve.map fun k => ⟨k, choice.pads.1, choice.pads.2⟩ := by
  cases choice with
  | named k => cases k <;> rfl
  | inferred f => cases f <;> rfl

end EtherCore
