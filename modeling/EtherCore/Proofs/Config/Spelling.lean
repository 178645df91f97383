import EtherCore.Proofs.Config.Consistent
import EtherCore.Proofs.Config.Names
import EtherCore.Proofs.Config.Readers

/-!
Spellings of names in tables.  A table that is a configuration is the same configuration if its
names of options are spelled in another way, but that `None` names nothing in this one spelling only
(`ofTable_respelled_iff`).
-/

namespace EtherCore

/-! ### Keys of names -/

/-- The keys under which a table names one of several options. -/
inductive OptionKey where
  | vendor
  | toolchain
  | phy
  | pads
  | core
deriving DecidableEq

namespace OptionKey

/-- The key in a table. -/
def name : OptionKey → String
  | vendor => "vendor"
  | toolchain => "toolchain"
  | phy => "phy"
  | pads => "phy_pads"
  | core => "core"

/-- A text names an option under a key. -/
def Knows : OptionKey → String → Prop
  | vendor, s => ∃ v, Vendor.ofName s = .ok v
  | toolchain, s => ∃ v, Toolchain.ofName s = .ok v
  | phy, s => Text.lower s = "auto" ∨ ∃ k, PhyKind.ofName s = .ok k
  | pads, s => ∃ f, PadFamily.ofName s = .ok f
  | core, s => ∃ k, CoreKind.ofName s = .ok k

theorem optionName_of_lower {s : String} (h : Text.lower s = "auto") : optionName s = "auto" := by
  rw [optionName_eq_trim_lower, h]
  decide +kernel

theorem noLiteral_of_auto {s : String} (h : optionName s = "auto") : NoLiteral s := by
  have hauto : ∀ l ∈ Value.literals, "auto" ≠ optionName l := by decide +kernel
  intro l hl
  rw [h]
  exact hauto l hl

theorem Knows.noLiteral {k : OptionKey} {s : String} (h : k.Knows s) : NoLiteral s := by
  cases k with
  | vendor => exact Vendor.folding.noLiteral h.choose_spec
  | toolchain => exact Toolchain.folding.noLiteral h.choose_spec
  | phy =>
    rcases h with h | ⟨k, hk⟩
    · exact noLiteral_of_auto (optionName_of_lower h)
    · exact PhyKind.folding.noLiteral hk
  | pads => exact PadFamily.folding.noLiteral h.choose_spec
  | core => exact CoreKind.folding.noLiteral h.choose_spec

end OptionKey

namespace Config

variable {t t' : Table Value} {c : Config} {log : Log}

/-! ### Names in a table that is a configuration -/

theorem get?_of_string? {key : String} {o : Option String} (h : string? t key = .ok o) :
    t.get? key = o.map .string := by
  unfold string? at h
  split at h
  · next hnone =>
    cases h
    exact hnone
  · next s hs =>
    cases h
    exact hs
  · cases h

theorem string?_of_get? {key : String} {o : Option String} (h : t.get? key = o.map .string) :
    string? t key = .ok o := by
  cases o <;> simp [string?, h]

theorem string?_of_string {key s : String} (h : string t key = .ok s) :
    string? t key = .ok (some s) := by
  obtain ⟨o, ho, hs⟩ := Outcome.bind_eq_ok_iff.1 h
  cases o with
  | none => cases hs
  | some s' =>
    cases hs
    exact ho

/-- Under the key of a name stands, if anything, the name of an option. -/
theorem exists_knows {head : Head} (hhead : readHead t = .ok head) {core : CoreSettings}
    (hcore : readCore t = .ok core) {k : OptionKey} {v : Value} (hv : t.get? k.name = some v) :
    ∃ s, v = .string s ∧ k.Knows s := by
  have hknown {o : Option String} (ho : string? t k.name = .ok o)
      (hknows : ∀ s, o = some s → k.Knows s) : ∃ s, v = .string s ∧ k.Knows s := by
    rw [get?_of_string? ho, Option.map_eq_some_iff] at hv
    obtain ⟨s, hs, rfl⟩ := hv
    exact ⟨s, rfl, hknows s hs⟩
  simp only [readHead, readPlatform, readPhy_eq, readPads, readChoice, Outcome.bind_eq_ok_iff]
    at hhead
  obtain ⟨-, -, platform, ⟨vendor, hvendor, v', hv', device, -, toolchain, htoolchain, hplatform⟩,
    choice, ⟨pads, ⟨padsName, hpadsName, hpads⟩, phy, hphy, hchoice⟩, -⟩ := hhead
  cases k with
  | vendor =>
    refine hknown (string?_of_string hvendor) ?_
    rintro s ⟨⟩
    exact ⟨v', hv'⟩
  | toolchain =>
    refine hknown htoolchain ?_
    rintro s rfl
    obtain ⟨toolchain, htoolchain', -⟩ := Outcome.bind_eq_ok_iff.1 hplatform
    exact ⟨toolchain, htoolchain'⟩
  | phy =>
    refine hknown hphy ?_
    rintro s rfl
    dsimp only at hchoice
    split at hchoice
    · next hauto => exact Or.inl hauto
    · obtain ⟨kind, hkind, -⟩ := Outcome.bind_eq_ok_iff.1 hchoice
      exact Or.inr ⟨kind, hkind⟩
  | pads =>
    refine hknown hpadsName ?_
    rintro s rfl
    obtain ⟨family, hfamily, -⟩ := Outcome.map_eq_ok_iff.1 hpads
    exact ⟨family, hfamily⟩
  | core =>
    simp only [readCore, Outcome.bind_eq_ok_iff] at hcore
    obtain ⟨s, hs, kind, hkind, -⟩ := hcore
    refine hknown (string?_of_string hs) ?_
    rintro s ⟨⟩
    exact ⟨kind, hkind⟩

/-- In a table that is a configuration, a string under the key of a name is the name of an option,
or it is the one that names nothing. -/
theorem knows_of_ofTable (h : ofTable t = (.ok c, log)) {k : OptionKey} {s : String}
    (hs : t.get? k.name = some (.string s)) : s = "None" ∨ k.Knows s := by
  obtain ⟨head, core, soc, hhead, htail, -, -⟩ := ofNormal_eq_ok_iff.1 (ofTable_eq_ok_iff.1 h).2
  simp only [readTail, Outcome.bind_eq_ok_iff] at htail
  obtain ⟨core', hcore, -⟩ := htail
  have hnormal : (normalize t).get? k.name = (Value.string s).normalize? := by
    rw [get?_normalize, hs, Option.bind_some]
  cases hv : (Value.string s).normalize? with
  | none => exact Or.inl (by simpa using Value.normalize?_eq_none_iff.1 hv)
  | some v =>
    rw [hv] at hnormal
    obtain ⟨s', rfl, hknows⟩ := exists_knows hhead hcore hnormal
    obtain rfl : s = s' := Value.string.inj (Value.eq_string_of_normalize? hv)
    exact Or.inr hknows

/-! ### Other spellings -/

/-- A table holds what another does, but that names of options are spelled in another way. -/
def Respells (t' t : Table Value) : Prop :=
  ∀ key, t'.get? key = t.get? key ∨ ∃ (k : OptionKey) (s s' : String), k.name = key ∧
    t.get? key = some (.string s) ∧ t'.get? key = some (.string s') ∧ optionName s' = optionName s

/-- If the PHY is left open by a word, no blanks stand around this word. -/
def PlainAuto (t : Table Value) : Prop :=
  ∀ s, t.get? OptionKey.phy.name = some (.string s) → optionName s = "auto" → Text.lower s = "auto"

/-- A name is spelled in another way. -/
theorem respells_insert {k : OptionKey} {s s' : String} (hs : t.get? k.name = some (.string s))
    (hname : optionName s' = optionName s) : Respells (t.insert k.name (.string s')) t := by
  intro key
  rw [Table.get?_insert]
  split
  · next hkey => exact Or.inr ⟨k, s, s', hkey.symm, hkey ▸ hs, rfl, hname⟩
  · exact Or.inl rfl

namespace Respells

theorem trans {u : Table Value} (h' : Respells u t') (h : Respells t' t) : Respells u t := by
  intro key
  rcases h' key with hsame' | ⟨k', s', s'', hk', hs', hs'', hname'⟩
  · rw [hsame']
    exact h key
  · rcases h key with hsame | ⟨k, s, s₀, hk, hs, hs₀, hname⟩
    · exact Or.inr ⟨k', s', s'', hk', hsame ▸ hs', hs'', hname'⟩
    · obtain rfl : s' = s₀ := by simpa [hs'] using hs₀
      exact Or.inr ⟨k, s, s'', hk, hs, hs'', hname'.trans hname⟩

theorem get?_eq (h : Respells t' t) {key : String} (hkey : ∀ k : OptionKey, k.name ≠ key) :
    t'.get? key = t.get? key := by
  rcases h key with hsame | ⟨k, -, -, hk, -⟩
  · exact hsame
  · exact absurd hk (hkey k)

theorem get?_eq_of_mem (h : Respells t' t) {keys : List String}
    (hkeys : ∀ k : OptionKey, k.name ∉ keys) : ∀ key ∈ keys, t'.get? key = t.get? key := by
  intro key hkey
  apply h.get?_eq
  intro k hk
  exact hkeys k (hk ▸ hkey)

/-- What is read under the key of a name is the same name, or there is none. -/
theorem string?_eq (h : Respells t' t) (k : OptionKey) {o : Option String}
    (ho : string? t k.name = .ok o) : ∃ o', string? t' k.name = .ok o' ∧
      Option.Rel (fun s' s => optionName s' = optionName s) o' o := by
  have hget := get?_of_string? ho
  rcases h k.name with hsame | ⟨-, s, s', -, hs, hs', hname⟩
  · refine ⟨o, string?_of_get? (hsame.trans hget), ?_⟩
    cases o with
    | none => exact .none
    | some s => exact .some rfl
  · rw [hs] at hget
    obtain ⟨s, rfl, hsame⟩ := Option.map_eq_some_iff.1 hget.symm
    cases hsame
    exact ⟨some s', string?_of_get? hs', .some hname⟩

theorem string_eq (h : Respells t' t) (k : OptionKey) {s : String}
    (hs : string t k.name = .ok s) :
    ∃ s', string t' k.name = .ok s' ∧ optionName s' = optionName s := by
  obtain ⟨o', ho', hsame⟩ := h.string?_eq k (string?_of_string hs)
  cases hsame with
  | @some s' _ hname =>
    refine ⟨s', ?_, hname⟩
    rw [string, Outcome.bind_of_eq_ok ho']
    rfl

/-! ### What is read -/

theorem readPlatform_eq (h : Respells t' t) {p : Platform} (hp : readPlatform t = .ok p) :
    readPlatform t' = .ok p := by
  simp only [readPlatform, Outcome.bind_eq_ok_iff] at hp ⊢
  obtain ⟨s, hs, vendor, hvendor, device, hdevice, o, ho, hp⟩ := hp
  obtain ⟨s', hs', hname⟩ := h.string_eq .vendor hs
  obtain ⟨o', ho', hsame⟩ := h.string?_eq .toolchain ho
  have hdevice' : string? t' "device" = .ok device := by
    rw [string?_congr (h.get?_eq fun k => by cases k <;> decide), hdevice]
  refine ⟨s', hs', vendor, Vendor.folding.congr hname hvendor, device, hdevice', o', ho', ?_⟩
  cases hsame with
  | none => exact hp
  | some hname =>
    obtain ⟨toolchain, htoolchain, hp⟩ := Outcome.bind_eq_ok_iff.1 hp
    exact Outcome.bind_eq_ok_iff.2 ⟨toolchain, Toolchain.folding.congr hname htoolchain, hp⟩

theorem readPads_eq (h : Respells t' t) {pads : Option PadFamily} (hpads : readPads t = .ok pads) :
    readPads t' = .ok pads := by
  obtain ⟨o, ho, hpads⟩ := Outcome.bind_eq_ok_iff.1 hpads
  obtain ⟨o', ho', hsame⟩ := h.string?_eq .pads ho
  refine Outcome.bind_eq_ok_iff.2 ⟨o', ho', ?_⟩
  cases hsame with
  | none => exact hpads
  | some hname =>
    obtain ⟨family, hfamily, rfl⟩ := Outcome.map_eq_ok_iff.1 hpads
    exact Outcome.map_eq_ok_iff.2 ⟨family, PadFamily.folding.congr hname hfamily, rfl⟩

theorem readChoice_eq (h : Respells t' t) (hauto : PlainAuto t') {vendor : Vendor}
    {pads : Option PadFamily} {choice : PhyChoice}
    (hchoice : readChoice t vendor pads = .ok choice) : readChoice t' vendor pads = .ok choice := by
  obtain ⟨o, ho, hchoice⟩ := Outcome.bind_eq_ok_iff.1 hchoice
  obtain ⟨o', ho', hsame⟩ := h.string?_eq .phy ho
  refine Outcome.bind_eq_ok_iff.2 ⟨o', ho', ?_⟩
  cases hsame with
  | none => exact hchoice
  | @some s' s hname =>
    dsimp only at hchoice ⊢
    split at hchoice
    · next hlower =>
      have hlower' : Text.lower s' = "auto" := hauto s' (get?_of_string? ho')
        (hname.trans (OptionKey.optionName_of_lower hlower))
      rw [if_pos hlower']
      exact hchoice
    · obtain ⟨k, hk, hchoice⟩ := Outcome.bind_eq_ok_iff.1 hchoice
      have hlower' : Text.lower s' ≠ "auto" := by
        -- the word is no name of a PHY, so no spelling of a name is this word
        intro hlower'
        have hword : optionName "auto" = optionName s := by
          rw [← hname, OptionKey.optionName_of_lower hlower']
          decide +kernel
        have hunknown : (PhyKind.ofName "auto").isOk = false := by decide +kernel
        rw [PhyKind.folding.congr hword hk] at hunknown
        cases hunknown
      rw [if_neg hlower', Outcome.bind_of_eq_ok (PhyKind.folding.congr hname hk)]
      exact hchoice

theorem readHead_eq (h : Respells t' t) (hauto : PlainAuto t') {head : Head}
    (hhead : readHead t = .ok head) : readHead t' = .ok head := by
  simp only [readHead, readPhy_eq, Outcome.bind_eq_ok_iff] at hhead
  obtain ⟨clock, hclock, platform, hplatform, choice, ⟨pads, hpads, hchoice⟩, hgiven⟩ := hhead
  have hclock' : readClock t' = .ok clock := by
    rw [readClock, h.get?_eq fun k => by cases k <;> decide]
    exact hclock
  have hdelays : readDelays t' = readDelays t := by
    have htransmit : t'.get? "phy_tx_delay" = t.get? "phy_tx_delay" :=
      h.get?_eq fun k => by cases k <;> decide
    have hreceive : t'.get? "phy_rx_delay" = t.get? "phy_rx_delay" :=
      h.get?_eq fun k => by cases k <;> decide
    simp only [readDelays, number?_congr htransmit, number?_congr hreceive]
  rw [readHead, Outcome.bind_of_eq_ok hclock', Outcome.bind_of_eq_ok (h.readPlatform_eq hplatform),
    readPhy_eq, bind_assoc, Outcome.bind_of_eq_ok (h.readPads_eq hpads),
    Outcome.bind_of_eq_ok (h.readChoice_eq hauto hchoice), hdelays]
  exact Outcome.bind_eq_ok_iff.2 hgiven

theorem readTail_eq (h : Respells t' t) {core : CoreSettings} {soc : SocOptions}
    (htail : readTail t = .ok (core, soc)) : readTail t' = .ok (core, soc) := by
  have hmac : readMac t' = readMac t :=
    readMac_congr (h.get?_eq_of_mem fun k => by cases k <;> decide)
  have hudp : readUdp t' = readUdp t :=
    readUdp_congr (h.get?_eq_of_mem fun k => by cases k <;> decide)
  have hsoc : t'.get? "soc" = t.get? "soc" := h.get?_eq fun k => by cases k <;> decide
  simp only [readTail, readCore, Outcome.bind_eq_ok_iff, hmac, hudp, hsoc] at htail ⊢
  obtain ⟨core', ⟨s, hs, kind, hkind, hcore⟩, hrest⟩ := htail
  obtain ⟨s', hs', hname⟩ := h.string_eq .core hs
  exact ⟨core', ⟨s', hs', kind, CoreKind.folding.congr hname hkind, hcore⟩, hrest⟩

end Respells

/-! ### Loading -/

/-- If the strings that name nothing stay, a table that is a configuration is respelled in its
normal form. -/
theorem Respells.normalize (h : Respells t' t) (hload : ofTable t = (.ok c, log))
    (hnothing : ∀ k : OptionKey, t.get? k.name = some (.string "None") →
      t'.get? k.name = some (.string "None")) :
    Respells (normalize t') (normalize t) := by
  intro key
  rcases h key with hsame | ⟨k, s, s', rfl, hs, hs', hname⟩
  · exact Or.inl (get?_normalize_congr hsame)
  · rcases knows_of_ofTable hload hs with rfl | hknows
    · exact Or.inl (get?_normalize_congr ((hnothing k hs).trans hs.symm))
    · refine Or.inr ⟨k, s, s', rfl, ?_, ?_, hname⟩
      · rw [get?_normalize, hs, Option.bind_some, hknows.noLiteral.normalize?_eq]
      · rw [get?_normalize, hs', Option.bind_some, (hknows.noLiteral.congr hname).normalize?_eq]

theorem PlainAuto.normalize (h : PlainAuto t) : PlainAuto (normalize t) := by
  intro s hs
  rw [get?_normalize, Option.bind_eq_some_iff] at hs
  obtain ⟨v, hv, hnormal⟩ := hs
  rw [Value.eq_string_of_normalize? hnormal] at hv
  exact h s hv

/-- A table that is a configuration, with its names of options spelled in another way: this gives
the same configuration with the same log, if and only if the strings that name nothing stay. -/
theorem ofTable_respelled_iff (hload : ofTable t = (.ok c, log)) (h : Respells t' t)
    (hauto : PlainAuto t') :
    ofTable t' = (.ok c, log) ↔ ∀ k : OptionKey, t.get? k.name = some (.string "None") →
      t'.get? k.name = some (.string "None") := by
  constructor
  · intro hload' k hs
    rcases h k.name with hsame | ⟨-, s, s', -, hs₀, hs', hname⟩
    · exact hsame.trans hs
    · rcases knows_of_ofTable hload' hs' with rfl | hknows
      · exact hs'
      · obtain rfl : s = "None" := by simpa [hs] using hs₀.symm
        exact absurd hname (hknows.noLiteral "None" (by decide))
  · intro hnothing
    obtain ⟨head, core, soc, hhead, htail, -, -⟩ :=
      ofNormal_eq_ok_iff.1 (ofTable_eq_ok_iff.1 hload).2
    have hn : Respells (normalize t') (normalize t) := h.normalize hload hnothing
    have hown : ∀ key ∉ recognizedKeys, t'.get? key = t.get? key := by
      have hrecognized : ∀ k : OptionKey, k.name ∈ recognizedKeys := fun k => by
        cases k <;> decide
      intro key hkey
      apply h.get?_eq
      intro k hk
      exact hkey (hk ▸ hrecognized k)
    rw [← hload]
    apply ofTable_congr
    · rw [hn.readHead_eq hauto.normalize hhead, hhead]
    · rw [hn.readTail_eq htail, htail]
    · exact hown

/-- Four names in other spellings, next to one that names nothing. -/
theorem ofTable_respelled_inferred :
    let t := Table.ofList [("clk_freq", .integer 100000000), ("core", .string "wishbone"),
      ("phy", .string "auto"), ("phy_pads", .string "gmii"), ("toolchain", .string "None"),
      ("vendor", .string "xilinx")]
    let t' := (((t.insert "vendor" (.string "Xilinx ")).insert "core"
      (.string "\tWishBone")).insert "phy_pads" (.string " GMII\n")).insert "phy" (.string "AUTO")
    ∃ c log, ofTable t = (.ok c, log) ∧ c.phy = .inferred .gmii ∧ Respells t' t ∧ PlainAuto t' ∧
      (∀ k : OptionKey, t.get? k.name = some (.string "None") →
        t'.get? k.name = some (.string "None")) ∧ ofTable t' = (.ok c, log) := by
  intro t t'
  have hphy : ((ofTable t).1.toOption.any fun c => c.phy = .inferred .gmii) = true := by
    decide +kernel
  obtain ⟨c, log, hload, hphy⟩ := Outcome.exists_of_any hphy
  have hrespells : Respells t' t :=
    (respells_insert (k := .phy) (s := "auto") rfl (by decide +kernel)).trans
      ((respells_insert (k := .pads) (s := "gmii") rfl (by decide +kernel)).trans
        ((respells_insert (k := .core) (s := "wishbone") rfl (by decide +kernel)).trans
          (respells_insert (k := .vendor) (s := "xilinx") rfl (by decide +kernel))))
  have hauto : PlainAuto t' := by
    rintro s ⟨⟩ -
    decide +kernel
  have hnothing : ∀ k : OptionKey, t.get? k.name = some (.string "None") →
      t'.get? k.name = some (.string "None") := by
    intro k h
    cases k with
    | toolchain => rfl
    | _ => exact absurd (Value.string.inj (Option.some.inj h)) (by decide)
  exact ⟨c, log, hload, of_decide_eq_true hphy, hrespells, hauto, hnothing,
    (ofTable_respelled_iff hload hrespells hauto).2 hnothing⟩

/-- The string that names nothing, and the word that leaves the PHY open, are not read in every
spelling. -/
theorem not_respelled_none_auto :
    let t := Table.ofList [("clk_freq", .integer 100000000), ("core", .string "mac"),
      ("phy", .string "auto"), ("phy_pads", .string "gmii"), ("toolchain", .string "None"),
      ("vendor", .string "xilinx")]
    let none := t.insert "toolchain" (.string "none")
    let auto := t.insert "phy" (.string " auto")
    ∃ c log, ofTable t = (.ok c, log) ∧ (Respells none t ∧ ofTable none ≠ (.ok c, log)) ∧
      (Respells auto t ∧ ofTable auto ≠ (.ok c, log)) := by
  intro t none auto
  have hphy : ((ofTable t).1.toOption.any fun c => c.phy = .inferred .gmii) = true := by
    decide +kernel
  have hnone : (ofTable none).1.isOk = false := by decide +kernel
  have hauto : (ofTable auto).1.isOk = false := by decide +kernel
  obtain ⟨c, log, hload, -⟩ := Outcome.exists_of_any hphy
  have hrespells : Respells none t ∧ Respells auto t :=
    ⟨respells_insert (k := .toolchain) (s := "None") rfl (by decide +kernel),
      respells_insert (k := .phy) (s := "auto") rfl (by decide +kernel)⟩
  refine ⟨c, log, hload, ⟨hrespells.1, ?_⟩, hrespells.2, ?_⟩
  · intro h
    rw [h] at hnone
    cases hnone
  · intro h
    rw [h] at hauto
    cases hauto

end Config

end EtherCore
