import EtherCore.Phy.Kind
import EtherCore.Proofs.Text.Case

/-!
The names of kinds of PHY.  A kind is read from its short names and from class names, but `phy` need
not stand in a class name where it stands in the name of the class, or at all (`ofName_eq_ok_iff`).
So exactly the names that are built like the name of a class, and are not it, are read against the
list of names (`ofName_names_iff`).
-/

namespace EtherCore.PhyKind

open Text

/-! ### The list of names -/

/-- The short names of a kind. -/
def shortNames : PhyKind → List String
  | .gmiiMii => ["gmii_mii", "gmiimii"]
  | k => [k.name]

/-- The name of the class of a kind, in lower case. -/
def className : PhyKind → String
  | .mii => "liteethphymii"
  | .rmii => "liteethphyrmii"
  | .gmii => "liteethphygmii"
  | .gmiiMii => "liteethphygmiimii"
  | .s6Rgmii => "liteeths6phyrgmii"
  | .s7Rgmii => "liteeths7phyrgmii"
  | .usRgmii => "liteethusphyrgmii"
  | .ecp5Rgmii => "liteethecp5phyrgmii"
  | .model => "liteethphymodel"

/-- The names of a kind: the short ones and that of its class. -/
def names (k : PhyKind) : List String := k.className :: k.shortNames

/-- A text is built like the name of the class of a kind: a short name after `liteeth`, with `phy`
anywhere in it or nowhere. -/
def ClassLike (k : PhyKind) (w : String) : Prop :=
  ∃ front back, front ++ back ∈ k.shortNames ∧
    (w = "liteeth" ++ (front ++ back) ∨ w = "liteeth" ++ (front ++ "phy" ++ back))

theorem classLike_className (k : PhyKind) : k.ClassLike k.className := by
  cases k with
  | mii => exact ⟨"", "mii", by decide, by decide⟩
  | rmii => exact ⟨"", "rmii", by decide, by decide⟩
  | gmii => exact ⟨"", "gmii", by decide, by decide⟩
  | gmiiMii => exact ⟨"", "gmiimii", by decide, by decide⟩
  | s6Rgmii => exact ⟨"s6", "rgmii", by decide, by decide⟩
  | s7Rgmii => exact ⟨"s7", "rgmii", by decide, by decide⟩
  | usRgmii => exact ⟨"us", "rgmii", by decide, by decide⟩
  | ecp5Rgmii => exact ⟨"ecp5", "rgmii", by decide, by decide⟩
  | model => exact ⟨"", "model", by decide, by decide⟩

/-! ### Words that are removed -/

/-- A word that is removed stood somewhere, or nothing is removed. -/
theorem removeFirst_cases (word cs : List Char) :
    removeFirst word cs = cs ∨
      ∃ front back, cs = front ++ word ++ back ∧ removeFirst word cs = front ++ back := by
  induction cs with
  | nil => exact Or.inl rfl
  | cons c cs ih =>
    rw [removeFirst]
    split
    · next rest hrest => exact Or.inr ⟨[], rest, afterStart?_eq_some.1 hrest, rfl⟩
    · obtain h | ⟨front, back, hcs, h⟩ := ih
      · exact Or.inl (congrArg (c :: ·) h)
      · exact Or.inr ⟨c :: front, back, congrArg (c :: ·) hcs, congrArg (c :: ·) h⟩

/-- A word that is removed from where it was put into a short name leaves the short name. -/
theorem removeFirst_shortNames (k : PhyKind) : ∀ w ∈ k.shortNames,
    removeFirst "phy".toList w.toList = w.toList ∧ ∀ i < w.toList.length + 1,
      removeFirst "phy".toList (w.toList.take i ++ "phy".toList ++ w.toList.drop i) = w.toList := by
  cases k <;> decide +kernel

theorem afterStart?_shortNames (k : PhyKind) :
    ∀ w ∈ k.shortNames, afterStart? "liteeth".toList w.toList = none := by
  cases k <;> decide +kernel

/-- A name that begins like that of a class is shortened behind its beginning. -/
theorem shortName_append (rest : List Char) :
    shortName ("liteeth" ++ String.ofList rest)
      = String.ofList (removeFirst "phy".toList rest) := by
  have hrest : afterStart? "liteeth".toList ("liteeth" ++ String.ofList rest).toList
      = some rest := by
    rw [afterStart?_eq_some, String.toList_append, @String.toList_ofList rest]
  rw [shortName, hrest]

theorem shortName_cases (w : String) :
    shortName w = w ∨ ∃ rest, w = "liteeth" ++ String.ofList rest := by
  rw [shortName]
  split
  · next rest hrest =>
    refine Or.inr ⟨rest, ?_⟩
    rw [← String.toList_inj, String.toList_append, @String.toList_ofList rest]
    exact afterStart?_eq_some.1 hrest
  · exact Or.inl rfl

/-- The short form of a name is a short name exactly if the name is, or is built like the name of
a class. -/
theorem shortName_mem_iff {k : PhyKind} {w : String} :
    shortName w ∈ k.shortNames ↔ w ∈ k.shortNames ∨ k.ClassLike w := by
  constructor
  · intro h
    obtain hw | ⟨rest, rfl⟩ := shortName_cases w
    · exact Or.inl (hw ▸ h)
    · rw [shortName_append] at h
      obtain hremove | ⟨front, back, rfl, hremove⟩ := removeFirst_cases "phy".toList rest
      · rw [hremove] at h
        exact Or.inr ⟨"", String.ofList rest, by rwa [String.empty_append],
          Or.inl (by rw [String.empty_append])⟩
      · rw [hremove, String.ofList_append] at h
        refine Or.inr ⟨String.ofList front, String.ofList back, h, Or.inr ?_⟩
        rw [String.ofList_append, String.ofList_append, String.ofList_toList]
  · rintro (hmem | ⟨front, back, hmem, rfl | rfl⟩)
    · rwa [shortName, afterStart?_shortNames k w hmem]
    · rw [← String.ofList_toList (s := front ++ back), shortName_append,
        (removeFirst_shortNames k _ hmem).1, String.ofList_toList]
      exact hmem
    · have hremove := (removeFirst_shortNames k _ hmem).2 front.toList.length
        (by rw [String.toList_append, List.length_append]; omega)
      rw [String.toList_append, List.take_left, List.drop_left] at hremove
      rw [← String.ofList_toList (s := front ++ "phy" ++ back), shortName_append,
        String.toList_append, String.toList_append, hremove, ← String.toList_append,
        String.ofList_toList]
      exact hmem

/-! ### Names that are read -/

theorem ofName_eq_ok_iff_shortName {s : String} {k : PhyKind} :
    ofName s = .ok k ↔ shortName (optionName s) ∈ k.shortNames := by
  constructor
  · intro h
    unfold ofName at h
    split at h <;> cases h <;> simp_all [shortNames, name]
  · intro h
    unfold ofName
    cases k with
    | gmiiMii =>
      obtain h | h := List.mem_pair.1 h
      all_goals rw [h]; rfl
    | _ => rw [List.mem_singleton.1 h]; rfl

/-- A kind is read from its short names, and from what is built like the name of its class. -/
theorem ofName_eq_ok_iff {s : String} {k : PhyKind} :
    ofName s = .ok k ↔ optionName s ∈ k.shortNames ∨ k.ClassLike (optionName s) := by
  rw [ofName_eq_ok_iff_shortName, shortName_mem_iff]

/-- A text is read by the list of names exactly if, where it is built like the name of a class,
it is the name of the class. -/
theorem ofName_names_iff (s : String) :
    (∀ k, ofName s = .ok k ↔ optionName s ∈ k.names) ↔
      ∀ k : PhyKind, k.ClassLike (optionName s) → optionName s = k.className := by
  constructor
  · intro h k hlike
    obtain hclass | hshort := List.mem_cons.1 ((h k).1 (ofName_eq_ok_iff.2 (Or.inr hlike)))
    · exact hclass
    · -- a short name does not begin with `liteeth`
      have hnone := afterStart?_shortNames k _ hshort
      obtain ⟨front, back, -, hw | hw⟩ := hlike
      all_goals
        rw [hw, String.toList_append, afterStart?_eq_some.2 rfl] at hnone
        cases hnone
  · intro h k
    rw [ofName_eq_ok_iff, names, List.mem_cons]
    constructor
    · rintro (hshort | hlike)
      · exact Or.inr hshort
      · exact Or.inl (h k hlike)
    · rintro (hclass | hshort)
      · exact Or.inr (hclass ▸ k.classLike_className)
      · exact Or.inl hshort

/-- The name of a class without `phy` is read, and it is not in the list. -/
theorem not_names_liteethmii :
    ¬ ∀ k, ofName "LiteEthMII" = .ok k ↔ optionName "LiteEthMII" ∈ k.names := by
  intro h
  have hlisted : optionName "LiteEthMII" ∈ PhyKind.mii.names := (h .mii).1 (by decide +kernel)
  exact absurd hlisted (by decide +kernel)

end EtherCore.PhyKind
