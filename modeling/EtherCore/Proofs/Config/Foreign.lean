import EtherCore.Proofs.Config.Names
import EtherCore.Proofs.Config.Readers
import EtherCore.Proofs.Outcome

/-!
Settings of the other core.  A MAC has no use for what a UDP stack is set to, nor the other way
round, so whatever stands under these keys, a table is the same configuration with the same log, or
is refused with the same error (`ofTable_foreign`).
-/

namespace EtherCore.Config

variable {t t' : Table Value} {s : String} {kind : CoreKind}

/-- The keys of the settings that a core has no use for. -/
def foreignKeys : CoreKind → List String
  | .mac => udpKeys
  | .udp => macKeys

theorem string_of_get? {key : String} (h : t.get? key = some (.string s)) :
    string t key = .ok s := by
  rw [string, string?, h]
  rfl

/-- Of the settings, only those of the core that is named are read. -/
theorem readCore_of_kind (hcore : t.get? "core" = some (.string s))
    (hkind : CoreKind.ofName s = .ok kind) :
    readCore t = match kind with
      | .mac => CoreSettings.mac <$> readMac t
      | .udp => CoreSettings.udp <$> readUdp t := by
  rw [readCore, Outcome.bind_of_eq_ok (string_of_get? hcore), Outcome.bind_of_eq_ok hkind]
  cases kind <;> rfl

theorem readCore_foreign (hcore : t.get? "core" = some (.string s))
    (hkind : CoreKind.ofName s = .ok kind)
    (h : ∀ key ∉ foreignKeys kind, t'.get? key = t.get? key) : readCore t' = readCore t := by
  have hcore' : t'.get? "core" = some (.string s) :=
    (h "core" (by cases kind <;> decide)).trans hcore
  rw [readCore_of_kind hcore hkind, readCore_of_kind hcore' hkind]
  cases kind with
  | mac =>
    have hmac : ∀ key ∈ macKeys, key ∉ foreignKeys .mac := by decide
    rw [readMac_congr fun key hkey => h key (hmac key hkey)]
  | udp =>
    have hudp : ∀ key ∈ udpKeys, key ∉ foreignKeys .udp := by decide
    rw [readUdp_congr fun key hkey => h key (hudp key hkey)]

/-- Two tables that name one kind of core, and differ in nothing but what stands under the keys of
the other kind, are one configuration with one log, or are refused with one error. -/
theorem ofTable_foreign (hcore : t.get? "core" = some (.string s))
    (hkind : CoreKind.ofName s = .ok kind)
    (h : ∀ key ∉ foreignKeys kind, t'.get? key = t.get? key) : ofTable t' = ofTable t := by
  have hnormal : ∀ key ∉ foreignKeys kind, (normalize t').get? key = (normalize t).get? key := by
    intro key hkey
    exact get?_normalize_congr (h key hkey)
  have hcoreNormal : (normalize t).get? "core" = some (.string s) := by
    rw [get?_normalize, hcore, Option.bind_some, (CoreKind.folding.noLiteral hkind).normalize?_eq]
  have hhead : ∀ key ∈ headKeys, key ∉ foreignKeys kind := by cases kind <;> decide
  have hforeign : ∀ key ∈ foreignKeys kind, key ∈ recognizedKeys := by cases kind <;> decide
  apply ofTable_congr
  · apply readHead_congr
    intro key hkey
    exact hnormal key (hhead key hkey)
  · apply readTail_congr
    · exact readCore_foreign hcoreNormal hkind hnormal
    · exact hnormal "soc" (by cases kind <;> decide)
  · intro key hkey
    apply h key
    intro hmem
    exact hkey (hforeign key hmem)

/-- A MAC with a delay that has no effect and a key that is passed on: its table may hold anything
in the places of a port and of addresses. -/
theorem ofTable_foreign_mac :
    let t := Table.ofList [("clk_freq", .integer 100000000), ("core", .string " WishBone"),
      ("ident", .string "top"), ("phy", .string "mii"), ("phy_tx_delay", .integer 1),
      ("port", .integer 1234), ("vendor", .string "xilinx")]
    let t' := (((t.insert "port" (.array [.string "None"])).insert "mac_address"
      (.boolean true)).insert "ip_address" (.table [("csr_map", .integer (-1))]))
    t.get? "core" = some (.string " WishBone") ∧ CoreKind.ofName " WishBone" = .ok .mac ∧
      (∀ key ∉ foreignKeys .mac, t'.get? key = t.get? key) ∧
      ((ofTable t).1.isOk ∧ (ofTable t).2.length = 2) ∧ ofTable t' = ofTable t := by
  intro t t'
  have hcore : t.get? "core" = some (.string " WishBone") := rfl
  have hkind : CoreKind.ofName " WishBone" = .ok .mac := by decide +kernel
  have hagree : ∀ key ∉ foreignKeys .mac, t'.get? key = t.get? key := by
    intro key hkey
    simp only [foreignKeys, udpKeys, List.mem_cons, List.not_mem_nil, or_false, not_or] at hkey
    rw [Table.get?_insert, if_neg hkey.2.2, Table.get?_insert, if_neg hkey.2.1, Table.get?_insert,
      if_neg hkey.1]
  exact ⟨hcore, hkind, hagree, by decide +kernel, ofTable_foreign hcore hkind hagree⟩

end EtherCore.Config
