import EtherCore.Phy.Shape

/-!
The choice of a PHY: one that is named is only checked against its pads; without a name the first
rule of a decision list that applies to the pads decides.
-/

namespace EtherCore

/-! ### The decision list -/

/-- What a rule decides. -/
inductive Verdict where
  | resolve (kind : PhyKind)
  /-- The pads are known, but the PHY has to be named. -/
  | unsupported (reason : String)
deriving DecidableEq

/-- A rule of the decision list. -/
structure InferenceRule where
  name : String
  /-- Whether the rule applies to clock pads and data pads. -/
  applies : Bundle → Bundle → Bool
  verdict : Verdict

namespace InferenceRule

/-- A gigabit transmit clock and eight bits of transmit data. -/
def isGigabit (clockPads pads : Bundle) : Bool :=
  clockPads.has "gtx" && pads.width? "tx_data" = some 8

/-- The decision list, in order. -/
def all : List InferenceRule :=
  [⟨"gmii-with-mii-fallback", fun c p => isGigabit c p && c.has "tx", .resolve .gmiiMii⟩,
    ⟨"gmii", isGigabit, .resolve .gmii⟩,
    ⟨"rgmii", fun _ p => p.has "rx_ctl",
      .unsupported ("RGMII pads need a vendor-specific PHY; set `phy` to one of "
        ++ "s6rgmii, s7rgmii, usrgmii, ecp5rgmii")⟩,
    ⟨"mii", fun _ p => p.width? "tx_data" = some 4, .resolve .mii⟩]

end InferenceRule

namespace PhyKind

/-- The PHY that pads stand for. -/
def infer (clockPads pads : Bundle) : Outcome PhyKind :=
  match InferenceRule.all.find? fun r => r.applies clockPads pads with
  | none =>
    .error (.ambiguous ("pads `" ++ clockPads.name ++ "`/`" ++ pads.name
      ++ "` match no known PHY shape; set `phy` explicitly"))
  | some r =>
    match r.verdict with
    | .resolve k => .ok k
    | .unsupported reason => .error (.unsupported reason)

end PhyKind

/-! ### Selections -/

/-- A PHY with the pads that it is built on. -/
structure Selection where
  kind : PhyKind
  clockPads : Bundle
  pads : Bundle
deriving DecidableEq

/-- The PHY to build on pads: the one that is named if it fits them, else the one they stand
for. -/
def Selection.of (named : Option PhyKind) (clockPads pads : Bundle) : Outcome Selection :=
  match named with
  | some k => (k.checkShape clockPads pads).map fun _ => ⟨k, clockPads, pads⟩
  | none => (PhyKind.infer clockPads pads).map fun k => ⟨k, clockPads, pads⟩

end EtherCore
