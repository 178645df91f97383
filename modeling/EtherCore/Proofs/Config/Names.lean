import EtherCore.Config.Load
import EtherCore.Proofs.Document.Normal
import EtherCore.Proofs.Text.Case

/-!
Names of options.  Blanks at the ends of a name and the case of its letters do not matter to the
readers of names (`Folding`), and none of them knows a string that names a boolean or nothing.
Folding the case of a text moves no blank (`optionName_eq_trim_lower`).
-/

namespace EtherCore

open Text

/-! ### Blanks and case -/

theorem optionName_eq_trim_lower (s : String) : optionName s = trim (lower s) := by
  rw [optionName, trim, trim, lower, lower, String.toList_ofList, String.toList_ofList,
    trimChars_map_toLower]

/-! ### Readers of names -/

/-- A reader of names folds them: it reads two spellings of one name alike, and it knows no string
that names a boolean or nothing. -/
structure Folding {α : Type} (read : String → Outcome α) : Prop where
  congr : ∀ {s s' : String} {v : α}, optionName s' = optionName s → read s = .ok v → read s' = .ok v
  literal : ∀ l ∈ Value.literals, (read l).isOk = false

theorem Vendor.folding : Folding Vendor.ofName where
  congr {s s' v} hname hs := by
    unfold ofName at hs ⊢
    rw [hname]
    split at hs <;> simp_all
  literal := by decide +kernel

theorem Toolchain.folding : Folding Toolchain.ofName where
  congr {s s' v} hname hs := by
    unfold ofName at hs ⊢
    rw [hname]
    split at hs <;> simp_all
  literal := by decide +kernel

theorem PadFamily.folding : Folding PadFamily.ofName where
  congr {s s' v} hname hs := by
    unfold ofName at hs ⊢
    rw [hname]
    split at hs <;> simp_all
  literal := by decide +kernel

theorem PhyKind.folding : Folding PhyKind.ofName where
  congr {s s' v} hname hs := by
    unfold ofName at hs ⊢
    rw [hname]
    split at hs <;> simp_all
  literal := by decide +kernel

theorem CoreKind.folding : Folding CoreKind.ofName where
  congr {s s' v} hname hs := by
    unfold ofName at hs ⊢
    rw [hname]
    split at hs <;> simp_all
  literal := by decide +kernel

/-! ### Names and literals -/

/-- A text is no spelling of a string that names a boolean or nothing. -/
def NoLiteral (s : String) : Prop := ∀ l ∈ Value.literals, optionName s ≠ optionName l

/-- A name that is known is no spelling of a literal. -/
theorem Folding.noLiteral {α : Type} {read : String → Outcome α} (h : Folding read) {s : String}
    {v : α} (hs : read s = .ok v) : NoLiteral s := by
  intro l hl hsame
  have hliteral := h.literal l hl
  rw [h.congr hsame.symm hs] at hliteral
  cases hliteral

namespace NoLiteral

variable {s s' : String}

theorem congr (h : NoLiteral s) (hname : optionName s' = optionName s) : NoLiteral s' := by
  intro l hl
  rw [hname]
  exact h l hl

theorem normalize?_eq (h : NoLiteral s) : (Value.string s).normalize? = some (.string s) :=
  Value.normalize?_string fun hl => h s hl rfl

end NoLiteral

end EtherCore
