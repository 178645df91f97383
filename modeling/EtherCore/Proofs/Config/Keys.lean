import EtherCore.Proofs.Artifact.FailureSet
import EtherCore.Proofs.Config.Consistent

/-!
The keys of errors.  Whatever is wrong with a table, the error is about a key that can be written in
it, but for one case: where the window of registers has no page, the error is about the name of its
region (`refused_written_iff`).
-/

namespace EtherCore.Config

open Component (macName)
open Outcome (FailsOnly)

/-! ### Keys that can be written -/

/-- A key that can be written in a table: one with a meaning, one that has moved, or one below
`soc`. -/
def Written (key : String) : Prop :=
  key ∈ recognizedKeys ∨ key ∈ movedKeys ∨ SocKey key

/-- An error that is about no key, or about one that can be written. -/
def Clear (e : Error) : Prop := ∀ key, e.key? = some key → Written key

section

variable {α : Type} {key : String}

theorem clear_of_key?_none {e : Error} (h : e.key? = none) : Clear e := by
  intro key hkey
  rw [h] at hkey
  cases hkey

theorem Written.refuses (h : Written key) (problem : String) :
    FailsOnly Clear (.error (.configuration key problem) : Outcome α) := by
  refine .fail fun key' hkey => ?_
  cases hkey
  exact h

theorem recognized_refuses (h : key ∈ recognizedKeys) (problem : String) :
    FailsOnly Clear (.error (.configuration key problem) : Outcome α) :=
  Written.refuses (Or.inl h) problem

end

/-! ### Readers of one key -/

section

variable (t : Table Value) {key : String}

theorem string?_clear (h : Written key) : FailsOnly Clear (string? t key) := by
  unfold string?
  split
  · exact .ok _
  · exact .ok _
  · exact h.refuses _

theorem string_clear (h : Written key) : FailsOnly Clear (string t key) := by
  refine (string?_clear t h).bind fun s _ => ?_
  cases s with
  | none => exact h.refuses _
  | some s => exact .ok _

theorem number?_clear (h : Written key) (limit : Nat) : FailsOnly Clear (number? t key limit) := by
  unfold number?
  split
  · exact .ok _
  · split
    · exact .ok _
    · exact h.refuses _
  · exact h.refuses _

theorem boolean?_clear (h : Written key) : FailsOnly Clear (boolean? t key) := by
  unfold boolean?
  split
  · exact .ok _
  · exact .ok _
  · exact h.refuses _

theorem readAddress_clear {α : Type} (h : Written key) (wording : String)
    (read : Value → Option α) : FailsOnly Clear (readAddress t key wording read) := by
  unfold readAddress
  split
  · exact .ok _
  · split
    · exact .ok _
    · exact h.refuses _

theorem readSlots_clear (h : Written key) : FailsOnly Clear (readSlots t key) := by
  refine (number?_clear t h _).bind fun n _ => ?_
  rcases n with - | - | n
  · exact .ok _
  · exact h.refuses _
  · exact .ok _

theorem readSocMap_clear {α : Type} (name : String) (read : Value → Except String α) :
    FailsOnly Clear (readSocMap t name read) := by
  have hkey : Written ("soc." ++ name) := Or.inr (Or.inr ⟨name, rfl⟩)
  unfold readSocMap
  split
  · exact .ok _
  · next v _ =>
    cases readMap read v with
    | ok m => exact .ok _
    | error problem => exact hkey.refuses _

end

/-! ### Names -/

section

variable (s : String)

theorem vendor_clear : FailsOnly Clear (Vendor.ofName s) := by
  unfold Vendor.ofName
  split <;> first | exact .ok _ | exact .fail (clear_of_key?_none rfl)

theorem toolchain_clear : FailsOnly Clear (Toolchain.ofName s) := by
  unfold Toolchain.ofName
  split <;> first | exact .ok _ | exact .fail (clear_of_key?_none rfl)

theorem padFamily_clear : FailsOnly Clear (PadFamily.ofName s) := by
  unfold PadFamily.ofName
  split <;> first | exact .ok _ | exact .fail (clear_of_key?_none rfl)

theorem phyKind_clear : FailsOnly Clear (PhyKind.ofName s) := by
  unfold PhyKind.ofName
  split <;> first | exact .ok _ | exact .fail (clear_of_key?_none rfl)

theorem coreKind_clear : FailsOnly Clear (CoreKind.ofName s) := by
  unfold CoreKind.ofName
  split <;> first | exact .ok _ | exact .fail (clear_of_key?_none rfl)

end

/-! ### Loading -/

section

variable (t : Table Value)

theorem readClock_clear : FailsOnly Clear (readClock t) := by
  have hkey : Written "clk_freq" := Or.inl (by decide)
  unfold readClock
  split
  · exact hkey.refuses _
  · split
    · split
      · exact .ok _
      · exact hkey.refuses _
    · exact hkey.refuses _

theorem platform_clear (vendor : Vendor) (device : String) (toolchain : Toolchain) :
    FailsOnly Clear (Platform.of vendor device toolchain) := by
  unfold Platform.of
  split
  · exact .ok _
  · exact recognized_refuses (by decide) _

theorem readPlatform_clear : FailsOnly Clear (readPlatform t) := by
  unfold readPlatform
  refine (string_clear t (Or.inl (by decide))).bind fun name _ => ?_
  refine (vendor_clear name).bind fun vendor _ => ?_
  refine (string?_clear t (Or.inl (by decide))).bind fun device _ => ?_
  refine (string?_clear t (Or.inl (by decide))).bind fun toolchain _ => ?_
  cases toolchain with
  | none => exact platform_clear _ _ _
  | some name => exact (toolchain_clear name).bind fun toolchain _ => platform_clear _ _ _

theorem inferFrom_clear (pads : Option PadFamily) : FailsOnly Clear (inferFrom pads) := by
  cases pads with
  | none => exact recognized_refuses (by decide) _
  | some f => exact .ok _

theorem checkNamed_clear (k : PhyKind) (vendor : Vendor) (pads : Option PadFamily) :
    FailsOnly Clear (checkNamed k vendor pads) := by
  have hvendor : FailsOnly Clear (checkVendor k vendor) := by
    unfold checkVendor
    split
    · split
      · exact .ok _
      · exact recognized_refuses (by decide) _
    · exact .ok _
  have hpads : FailsOnly Clear (checkPads k pads) := by
    unfold checkPads
    split
    · split
      · exact .ok _
      · exact recognized_refuses (by decide) _
    · exact .ok _
  rw [checkNamed_eq]
  exact hvendor.bind fun _ _ => hpads.bind fun _ _ => .ok _

theorem readPhy_clear (vendor : Vendor) : FailsOnly Clear (readPhy t vendor) := by
  have hpads : FailsOnly Clear (readPads t) := by
    refine (string?_clear t (Or.inl (by decide))).bind fun name _ => ?_
    cases name with
    | none => exact .ok _
    | some name => exact (padFamily_clear name).map some
  rw [readPhy_eq]
  refine hpads.bind fun pads _ => ?_
  refine (string?_clear t (Or.inl (by decide))).bind fun name _ => ?_
  cases name with
  | none => exact inferFrom_clear pads
  | some name =>
    dsimp only
    split
    · exact inferFrom_clear pads
    · exact (phyKind_clear name).bind fun k _ => checkNamed_clear k vendor pads

theorem readHead_clear : FailsOnly Clear (readHead t) := by
  unfold readHead readDelays
  refine (readClock_clear t).bind fun clock _ => ?_
  refine (readPlatform_clear t).bind fun platform _ => ?_
  refine (readPhy_clear t platform.vendor).bind fun phy _ => ?_
  refine FailsOnly.bind ?_ fun given _ => .ok _
  refine (number?_clear t (Or.inl (by decide)) _).bind fun transmit _ => ?_
  exact (number?_clear t (Or.inl (by decide)) _).bind fun receive _ => .ok _

theorem readMac_clear : FailsOnly Clear (readMac t) := by
  have hendianness : FailsOnly Clear (readEndianness t) := by
    unfold readEndianness
    split
    · exact .ok _
    · split
      · exact .ok _
      · exact recognized_refuses (by decide) _
  unfold readMac
  refine hendianness.bind fun endianness _ => ?_
  refine (readSlots_clear t (Or.inl (by decide))).bind fun receive _ => ?_
  refine (readSlots_clear t (Or.inl (by decide))).bind fun transmit _ => ?_
  exact (boolean?_clear t (Or.inl (by decide))).bind fun wide _ => .ok _

theorem readUdp_clear : FailsOnly Clear (readUdp t) := by
  unfold readUdp
  refine (number?_clear t (Or.inl (by decide)) _).bind fun port _ => ?_
  cases port with
  | none => exact recognized_refuses (by decide) _
  | some port =>
    refine (readAddress_clear t (Or.inl (by decide)) _ _).bind fun mac _ => ?_
    exact (readAddress_clear t (Or.inl (by decide)) _ _).bind fun ip _ => .ok _

theorem readCore_clear : FailsOnly Clear (readCore t) := by
  unfold readCore
  refine (string_clear t (Or.inl (by decide))).bind fun name _ => ?_
  refine (coreKind_clear name).bind fun kind _ => ?_
  cases kind with
  | mac => exact (readMac_clear t).bind fun m _ => .ok _
  | udp => exact (readUdp_clear t).bind fun u _ => .ok _

theorem socOptions_clear (v : Option Value) : FailsOnly Clear (SocOptions.ofValue? v) := by
  unfold SocOptions.ofValue?
  split
  · exact .ok _
  · unfold SocOptions.ofTable
    refine (readSocMap_clear _ _ _).bind fun csr _ => ?_
    refine (readSocMap_clear _ _ _).bind fun interrupt _ => ?_
    exact (readSocMap_clear _ _ _).bind fun memory _ => .ok _
  · exact recognized_refuses (by decide) _

theorem readTail_clear : FailsOnly Clear (readTail t) := by
  unfold readTail
  refine (readCore_clear t).bind fun core _ => ?_
  exact (socOptions_clear _).bind fun soc _ => .ok _

theorem ofNormal_clear : FailsOnly Clear (ofNormal t).1 := by
  unfold ofNormal
  split
  · next e he => exact (readHead_clear t).error he
  · dsimp only
    split
    · next e he => exact (readTail_clear t).error he
    · exact .ok _

/-- A table that is no configuration is told by a key that can be written. -/
theorem ofTable_clear : FailsOnly Clear (ofTable t).1 := by
  unfold ofTable rejectMoved
  split
  · next h =>
    split at h
    · cases h
    · next k hk =>
      cases h
      exact Written.refuses (Or.inr (Or.inl (List.mem_of_find?_eq_some hk))) _
  · exact ofNormal_clear (normalize t)

end

/-! ### Composing -/

variable {c : Config} {e : Error} {key : String}

theorem key_of_about {P : String → Prop} (h : e.About P) (hkey : e.key? = some key) : P key := by
  obtain ⟨key', problem, rfl, hkey'⟩ := h
  cases hkey
  exact hkey'

theorem bytes_pos {m : MacSettings} (h : 1 ≤ m.receiveSlots.toNat) : 0 < m.bytes := by
  unfold MacSettings.bytes
  rw [show slotSize.toNat = 2048 from rfl]
  omega

/-- A configuration with slots for buffers that cannot be composed is told by a key below `soc`,
unless there is no page. -/
theorem Fails.socKey (h : c.Fails e) (hc : c.Consistent) (hkey : e.key? = some key) :
    SocKey key ∨ key = "csr" ∧ Soc.Pageless c.soc.args c.soc.maps := by
  have hpage : SocKey "soc.csr_map" := ⟨"csr_map", rfl⟩
  cases h with
  | system h => exact key_of_about (Soc.build_about _ _ _ _ _ h) hkey
  | rmii => cases hkey
  | rgmii => cases hkey
  | phyPage =>
    cases hkey
    exact Or.inl hpage
  | @macRegion soc k m _ hphy hcore hregion =>
    have hname := (Soc.fresh_of_build hphy.system).2 macName (by decide)
    -- loading asks for a slot, so the buffers are not empty
    have hbytes := bytes_pos (hc.slots m hcore).1
    rcases key_of_about (AddressMap.addSlave_about hname _ _ hregion) hkey with h | ⟨-, hsize⟩
    · exact Or.inl h
    · rw [← m.toNat_size_region soc, hsize] at hbytes
      cases hbytes
  | macPage =>
    cases hkey
    exact Or.inl hpage

/-! ### Refused tables -/

/-- A table is refused with an error: it is no configuration, or the configuration cannot be
composed. -/
inductive Refused (t : Table Value) (e : Error) : Prop
  | loading {log : Log} (h : ofTable t = (.error e, log)) : Refused t e
  | composing {c : Config} {log log' : Log} (hload : ofTable t = (.ok c, log))
    (h : c.compose = (.error e, log')) : Refused t e

theorem not_written_csr : ¬ Written "csr" := by
  rintro (h | h | ⟨rest, h⟩)
  · exact absurd h (by decide)
  · exact absurd h (by decide)
  · have hsecond := congrArg (fun s => s.toList[1]?) h
    simp at hsecond

/-- Every error about a key that a table is refused with is about one that can be written, if and
only if the table does not give a window of registers without pages. -/
theorem refused_written_iff (t : Table Value) :
    (∀ e key, Refused t e → e.key? = some key → Written key) ↔
      ¬ ∃ c log, ofTable t = (.ok c, log) ∧ Soc.Pageless c.soc.args c.soc.maps := by
  constructor
  · rintro hall ⟨c, log, hload, hpageless⟩
    have hsystem := hpageless.build_eq c.platform c.clock
    have hcompose := compose_eq_error_iff.2 ⟨.system hsystem, rfl⟩
    exact not_written_csr (hall _ _ (.composing hload hcompose) rfl)
  · intro hpages e key hrefused hkey
    cases hrefused with
    | loading h => exact ofTable_clear t e (congrArg Prod.fst h) key hkey
    | @composing c log log' hload h =>
      have hfails := (compose_eq_error_iff.1 h).1
      have hconsistent := (consistent_of_ofTable hload).1
      rcases hfails.socKey hconsistent hkey with hsoc | ⟨-, hpageless⟩
      · exact Or.inr (Or.inr hsoc)
      · exact absurd ⟨c, log, hload, hpageless⟩ hpages

/-- An address width of zero: the window holds four bytes, which is less than a page. -/
theorem not_written_no_page :
    let t := Table.ofList [("clk_freq", .integer 100000000), ("core", .string "mac"),
      ("phy", .string "mii"), ("vendor", .string "xilinx"),
      ("soc", .table [("csr_address_width", .integer 0)])]
    ∃ e key, Refused t e ∧ e.key? = some key ∧ ¬ Written key := by
  intro t
  have hrefused : ((ofTable t).1.toOption.any fun c =>
      match c.compose.1 with
      | .error e => e = .configuration "csr" "region size is zero"
      | .ok _ => false) = true := by
    decide +kernel
  obtain ⟨⟨o, log⟩, hload⟩ : ∃ x, ofTable t = x := ⟨_, rfl⟩
  rw [hload] at hrefused
  cases o with
  | error e => cases hrefused
  | ok c =>
    obtain ⟨⟨o', log'⟩, hcompose⟩ : ∃ x, c.compose = x := ⟨_, rfl⟩
    simp only [Except.toOption, Option.any_some, hcompose] at hrefused
    cases o' with
    | ok art => cases hrefused
    | error e =>
      rw [of_decide_eq_true hrefused] at hcompose
      exact ⟨_, "csr", .composing hload hcompose, rfl, not_written_csr⟩

end EtherCore.Config
