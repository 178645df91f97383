import EtherCore.Proofs.Artifact.Stack
import EtherCore.Proofs.Config.Consistent
import EtherCore.Proofs.Config.Readers
import EtherCore.Proofs.Ipv4
import EtherCore.Proofs.MacAddress

/-!
Addresses in tables.  A table names an address by its number or by a text (`Literal`), and the core
that is composed from it carries that number, whichever of the two it is; tables that name the same
addresses are one configuration (`ofTable_restated`).
-/

namespace EtherCore

/-! ### Literals -/

namespace AddressKey

/-- A text denotes a number as an address. -/
def Denotes : AddressKey → String → Nat → Prop
  | mac => MacAddress.Denotes
  | ip => Ipv4.Denotes

/-- A value names a number as an address: it is the number, which the width allows, or a text that
denotes the number. -/
inductive Literal (k : AddressKey) : Value → Nat → Prop
  | number {i : Int64} {n : Nat} (hi : i.toInt = n) (hn : n < 2 ^ k.width.toNat) :
    k.Literal (.integer i) n
  | text {s : String} {n : Nat} (h : k.Denotes s n) : k.Literal (.string s) n

/-- The number of the address that is read from a value. -/
def number? : AddressKey → Value → Option Nat
  | mac, v => (Config.macAddress? v).map MacAddress.toNat
  | ip, v => (Config.ipAddress? v).map fun a => a.value.toNat

theorem toNat_given? (k : AddressKey) (u : UdpSettings) : (k.given? u).map UInt64.toNat =
    match k with
    | mac => u.mac.map MacAddress.toNat
    | ip => u.ip.map fun a => a.value.toNat := by
  cases k with
  | mac =>
    rw [given?, Option.map_map]
    exact congrArg (Option.map · u.mac) (funext MacAddress.toNat_toWord)
  | ip =>
    rw [given?, Option.map_map]
    exact congrArg (Option.map · u.ip) (funext fun a => UInt32.toNat_toUInt64 a.value)

variable {k : AddressKey} {v v' : Value} {n : Nat}

theorem number?_text {s : String} : k.number? (.string s) = some n ↔ k.Denotes s n := by
  cases k with
  | mac =>
    show (MacAddress.parse s).toOption.map MacAddress.toNat = some n ↔ MacAddress.Denotes s n
    constructor
    · intro h
      obtain ⟨m, hm, rfl⟩ := Option.map_eq_some_iff.1 h
      cases hparse : MacAddress.parse s with
      | error e =>
        rw [hparse] at hm
        cases hm
      | ok m' =>
        rw [hparse] at hm
        cases hm
        exact MacAddress.parse_eq_ok_iff.1 hparse
    · intro h
      obtain ⟨m, hm, rfl⟩ := MacAddress.exists_parse h
      rw [hm]
      rfl
  | ip =>
    show (Ipv4.parse? s).map (fun a => a.value.toNat) = some n ↔ Ipv4.Denotes s n
    constructor
    · intro h
      obtain ⟨a, ha, rfl⟩ := Option.map_eq_some_iff.1 h
      exact Ipv4.parse?_eq_some_iff.1 ha
    · intro h
      obtain ⟨a, ha, rfl⟩ := Ipv4.exists_parse? h
      rw [ha]
      rfl

theorem number?_integer {i : Int64} :
    k.number? (.integer i) = some n ↔ i.toInt = n ∧ n < 2 ^ k.width.toNat := by
  have hzero : 0 ≤ i ↔ 0 ≤ i.toInt := Int64.le_iff_toInt_le
  cases k with
  | mac =>
    show (if 0 ≤ i then MacAddress.ofNat? i.toInt.toNat else none).map MacAddress.toNat = some n ↔
      i.toInt = n ∧ n < 2 ^ 48
    constructor
    · intro h
      obtain ⟨m, hm, rfl⟩ := Option.map_eq_some_iff.1 h
      split at hm
      · next hi =>
        have hn := MacAddress.toNat_of_ofNat? hm
        refine ⟨?_, m.toNat_lt⟩
        rw [hn, Int.toNat_of_nonneg (hzero.1 hi)]
      · cases hm
    · rintro ⟨hi, hn⟩
      rw [if_pos (hzero.2 (by omega)), hi, Int.toNat_natCast]
      obtain ⟨m, hm, rfl⟩ := MacAddress.exists_ofNat? hn
      rw [hm]
      rfl
  | ip =>
    show (if 0 ≤ i ∧ i.toInt.toNat < UInt32.size then some (Ipv4.mk (UInt32.ofNat i.toInt.toNat))
      else none).map (fun a => a.value.toNat) = some n ↔ i.toInt = n ∧ n < 2 ^ 32
    constructor
    · intro h
      obtain ⟨a, ha, rfl⟩ := Option.map_eq_some_iff.1 h
      split at ha
      · next hi =>
        cases ha
        refine ⟨?_, UInt32.toNat_lt _⟩
        rw [UInt32.toNat_ofNat_of_lt' hi.2, Int.toNat_of_nonneg (hzero.1 hi.1)]
      · cases ha
    · rintro ⟨hi, hn⟩
      have hlt : i.toInt.toNat < UInt32.size := by
        rw [hi, Int.toNat_natCast]
        exact hn
      rw [if_pos ⟨hzero.2 (by omega), hlt⟩, Option.map_some, UInt32.toNat_ofNat_of_lt' hlt, hi,
        Int.toNat_natCast]

/-- The readers of addresses accept exactly the values that name one, as the number that is
named. -/
theorem number?_eq_some_iff : k.number? v = some n ↔ k.Literal v n := by
  constructor
  · intro h
    cases v with
    | string s => exact .text (number?_text.1 h)
    | integer i => exact .number (number?_integer.1 h).1 (number?_integer.1 h).2
    | _ => cases k <;> cases h
  · intro h
    cases h with
    | number hi hn => exact number?_integer.2 ⟨hi, hn⟩
    | text h => exact number?_text.2 h

/-- A value that names an address is no text for a boolean or for nothing. -/
theorem Literal.normalize?_eq (h : k.Literal v n) : v.normalize? = some v := by
  have hwords : ∀ s ∈ Value.literals, k.number? (.string s) = none := by
    cases k <;> decide +kernel
  cases h with
  | number hi hn => rfl
  | @text s n hs =>
    refine Value.normalize?_string fun hmem => ?_
    have := number?_text.2 hs
    rw [hwords s hmem] at this
    cases this

/-- Values that name one address are read as one. -/
theorem Literal.read_eq (h : k.Literal v n) (h' : k.Literal v' n) :
    match k with
    | mac => ∃ m, Config.macAddress? v = some m ∧ Config.macAddress? v' = some m
    | ip => ∃ a, Config.ipAddress? v = some a ∧ Config.ipAddress? v' = some a := by
  have hv := number?_eq_some_iff.2 h
  have hv' := number?_eq_some_iff.2 h'
  cases k with
  | mac =>
    obtain ⟨m, hm, rfl⟩ := Option.map_eq_some_iff.1 hv
    obtain ⟨m', hm', hsame⟩ := Option.map_eq_some_iff.1 hv'
    rw [MacAddress.eq_of_toNat_eq hsame] at hm'
    exact ⟨m, hm, hm'⟩
  | ip =>
    obtain ⟨a, ha, rfl⟩ := Option.map_eq_some_iff.1 hv
    obtain ⟨a', ha', hsame⟩ := Option.map_eq_some_iff.1 hv'
    obtain rfl : a' = a := congrArg Ipv4.mk (UInt32.toNat_inj.1 hsame)
    exact ⟨a', ha, ha'⟩

end AddressKey

namespace Config

variable {t t' : Table Value} {c : Config} {art : Artifact} {u : UdpSettings} {log log' : Log}

/-! ### Addresses that are loaded -/

theorem readAddress_eq_ok {α : Type} {key wording : String} {read : Value → Option α}
    {address : Option α} (h : readAddress t key wording read = .ok address) :
    address = (t.get? key).bind read ∧ ∀ v, t.get? key = some v → (read v).isSome := by
  unfold readAddress at h
  split at h
  · next hnone =>
    cases h
    rw [hnone]
    exact ⟨rfl, fun v hv => nomatch hv⟩
  · next v hv =>
    split at h
    · next a ha =>
      cases h
      rw [hv]
      refine ⟨ha.symm, fun w hw => ?_⟩
      obtain rfl := Option.some.inj hw
      exact Option.isSome_of_eq_some ha
    · cases h

theorem readUdp_of_ofTable (h : ofTable t = (.ok c, log)) (hcore : c.core = .udp u) :
    readUdp (normalize t) = .ok u := by
  obtain ⟨head, core, soc, -, htail, rfl, -⟩ := ofNormal_eq_ok_iff.1 (ofTable_eq_ok_iff.1 h).2
  obtain rfl : core = .udp u := hcore
  simp only [readTail, readCore, Outcome.bind_eq_ok_iff, Outcome.pure_eq_ok_iff] at htail
  obtain ⟨core', ⟨name, -, kind, -, hread⟩, soc', -, hsame⟩ := htail
  obtain ⟨rfl, rfl⟩ := Prod.mk.inj hsame
  cases kind with
  | mac =>
    simp only [Outcome.bind_eq_ok_iff, Outcome.pure_eq_ok_iff] at hread
    obtain ⟨m, -, hm⟩ := hread
    cases hm
  | udp =>
    simp only [Outcome.bind_eq_ok_iff, Outcome.pure_eq_ok_iff] at hread
    obtain ⟨u', hu', hu⟩ := hread
    obtain rfl := CoreSettings.udp.inj hu
    exact hu'

/-- The addresses of a UDP stack are those that the table names, and every value under the key of an
address names one. -/
theorem given?_eq (h : readUdp t = .ok u) (k : AddressKey) :
    (k.given? u).map UInt64.toNat = (t.get? k.name).bind k.number? ∧
      ∀ v, t.get? k.name = some v → ∃ n, k.Literal v n := by
  simp only [readUdp, Outcome.bind_eq_ok_iff] at h
  obtain ⟨port, -, h⟩ := h
  cases port with
  | none => cases h
  | some port =>
    simp only [Outcome.bind_eq_ok_iff, Outcome.pure_eq_ok_iff] at h
    obtain ⟨mac, hmac, ip, hip, rfl⟩ := h
    rw [AddressKey.toNat_given?]
    cases k with
    | mac =>
      obtain ⟨rfl, hsome⟩ := readAddress_eq_ok hmac
      refine ⟨Option.map_bind, fun v hv => ?_⟩
      obtain ⟨m, hm⟩ := Option.isSome_iff_exists.1 (hsome v hv)
      exact ⟨m.toNat, AddressKey.number?_eq_some_iff.1 (congrArg (Option.map _) hm)⟩
    | ip =>
      obtain ⟨rfl, hsome⟩ := readAddress_eq_ok hip
      refine ⟨Option.map_bind, fun v hv => ?_⟩
      obtain ⟨a, ha⟩ := Option.isSome_iff_exists.1 (hsome v hv)
      exact ⟨a.value.toNat, AddressKey.number?_eq_some_iff.1 (congrArg (Option.map _) ha)⟩

/-! ### Tables that name the same addresses -/

/-- A table holds what another does, but for the values that name one address in both. -/
def Restates (t' t : Table Value) : Prop :=
  ∀ key, t'.get? key = t.get? key ∨ ∃ (k : AddressKey) (v v' : Value) (n : Nat), k.name = key ∧
    t.get? key = some v ∧ t'.get? key = some v' ∧ k.Literal v n ∧ k.Literal v' n

/-- An address is written in another way. -/
theorem restates_insert {k : AddressKey} {v v' : Value} {n : Nat} (hv : t.get? k.name = some v)
    (hn : k.Literal v n) (hn' : k.Literal v' n) : Restates (t.insert k.name v') t := by
  intro key
  rw [Table.get?_insert]
  split
  · next hkey => exact Or.inr ⟨k, v, v', n, hkey.symm, hkey ▸ hv, rfl, hn, hn'⟩
  · exact Or.inl rfl

theorem Restates.get?_eq (h : Restates t' t) {key : String}
    (hkey : ∀ k : AddressKey, k.name ≠ key) : t'.get? key = t.get? key := by
  rcases h key with hsame | ⟨k, -, -, -, hk, -⟩
  · exact hsame
  · exact absurd hk (hkey k)

theorem Restates.normalize (h : Restates t' t) : Restates (normalize t') (normalize t) := by
  intro key
  rw [get?_normalize, get?_normalize]
  rcases h key with hsame | ⟨k, v, v', n, hk, hv, hv', hn, hn'⟩
  · exact Or.inl (congrArg (Option.bind · _) hsame)
  · refine Or.inr ⟨k, v, v', n, hk, ?_, ?_, hn, hn'⟩
    · rw [hv, Option.bind_some, hn.normalize?_eq]
    · rw [hv', Option.bind_some, hn'.normalize?_eq]

theorem readAddress_restated {α : Type} {key wording : String} {read : Value → Option α}
    (h : t'.get? key = t.get? key ∨ ∃ v v' a, t.get? key = some v ∧ t'.get? key = some v' ∧
      read v = some a ∧ read v' = some a) :
    readAddress t' key wording read = readAddress t key wording read := by
  rcases h with hsame | ⟨v, v', a, hv, hv', ha, ha'⟩
  · exact readAddress_congr hsame wording read
  · unfold readAddress
    rw [hv, hv']
    simp only [ha, ha']

theorem Restates.readUdp_eq (h : Restates t' t) : readUdp t' = readUdp t := by
  have hport : t'.get? "port" = t.get? "port" := h.get?_eq fun k => by cases k <;> decide
  have hmac : readAddress t' "mac_address" "a MAC address" macAddress?
      = readAddress t "mac_address" "a MAC address" macAddress? := by
    refine readAddress_restated ((h "mac_address").imp_right ?_)
    rintro ⟨k, v, v', n, hk, hv, hv', hn, hn'⟩
    cases k with
    | mac =>
      obtain ⟨m, hm, hm'⟩ := hn.read_eq hn'
      exact ⟨v, v', m, hv, hv', hm, hm'⟩
    | ip => exact absurd hk (by decide)
  have hip : readAddress t' "ip_address" "an IPv4 address" ipAddress?
      = readAddress t "ip_address" "an IPv4 address" ipAddress? := by
    refine readAddress_restated ((h "ip_address").imp_right ?_)
    rintro ⟨k, v, v', n, hk, hv, hv', hn, hn'⟩
    cases k with
    | mac => exact absurd hk (by decide)
    | ip =>
      obtain ⟨a, ha, ha'⟩ := hn.read_eq hn'
      exact ⟨v, v', a, hv, hv', ha, ha'⟩
  simp only [readUdp, number?_congr hport, hmac, hip]

theorem Restates.readTail_eq (h : Restates t' t) : readTail t' = readTail t := by
  have hsame : ∀ key ∈ "core" :: "soc" :: macKeys, t'.get? key = t.get? key := by
    intro key hmem
    refine h.get?_eq fun k hk => ?_
    subst hk
    revert hmem
    cases k <;> decide
  have hmac : readMac t' = readMac t :=
    readMac_congr fun key hkey => hsame key (List.mem_cons_of_mem _ (List.mem_cons_of_mem _ hkey))
  have hcore : readCore t' = readCore t :=
    readCore_congr (hsame "core" (by decide)) hmac h.readUdp_eq
  exact readTail_congr hcore (hsame "soc" (by decide))

/-- Tables that name the same addresses are one configuration, with one log. -/
theorem Restates.ofTable_eq (h : Restates t' t) : ofTable t' = ofTable t := by
  have hn := h.normalize
  refine ofTable_congr ?_ hn.readTail_eq fun key hkey => h.get?_eq fun k hk => ?_
  · refine readHead_congr fun key hkey => hn.get?_eq fun k hk => ?_
    subst hk
    revert hkey
    cases k <;> decide
  · subst hk
    revert hkey
    cases k <;> decide

/-! ### From tables to cores -/

/-- Of every table that is a UDP core the two addresses are what the table names: a parameter of the
stack with exactly that number, or pads if it names none.  How an address is written does not
matter. -/
theorem ofTable_restated (hload : ofTable t = (.ok c, log)) (hcore : c.core.kind = .udp)
    (hcompose : c.compose = (.ok art, log')) :
    (∀ k : AddressKey,
      (∀ v n, (normalize t).get? k.name = some v → k.Literal v n → art.Fixes k.name n) ∧
        ((normalize t).get? k.name = none → art.Reads k.name k.width) ∧
        ∀ v, (normalize t).get? k.name = some v → ∃ n, k.Literal v n) ∧
      ∀ t', Restates t' t → ofTable t' = ofTable t := by
  obtain ⟨u, hu⟩ : ∃ u, c.core = .udp u := by
    cases hcore' : c.core with
    | mac m =>
      rw [hcore'] at hcore
      cases hcore
    | udp u => exact ⟨u, rfl⟩
  have hread := readUdp_of_ofTable hload hu
  refine ⟨fun k => ?_, fun t' h => h.ofTable_eq⟩
  obtain ⟨hgiven, hliteral⟩ := given?_eq hread k
  refine ⟨fun v n hv hn => ?_, fun hnone => ?_, hliteral⟩
  · rw [hv, Option.bind_some, AddressKey.number?_eq_some_iff.2 hn] at hgiven
    obtain ⟨w, hw, rfl⟩ := Option.map_eq_some_iff.1 hgiven
    exact fixes_of_compose hcompose hu hw
  · rw [hnone, Option.bind_none] at hgiven
    exact reads_of_compose hcompose hu (Option.map_eq_none_iff.1 hgiven)

/-- A UDP core with an Ethernet address as a text with separators of both kinds, or as a number, and
without an internet address. -/
theorem ofTable_restated_text :
    let t := Table.ofList [("clk_freq", .integer 100000000), ("vendor", .string "xilinx"),
      ("phy_pads", .string "gmii"), ("core", .string "udp"), ("port", .integer 1234),
      ("mac_address", .string "10:e2-D5:00-00:0a"), ("ip_address", .string "None")]
    ∃ c log art log', ofTable t = (.ok c, log) ∧ c.core.kind = .udp ∧
      c.compose = (.ok art, log') ∧ art.Fixes "mac_address" 0x10e2d500000a ∧
      art.Reads "ip_address" 32 ∧
      ofTable (t.insert "mac_address" (.integer 0x10e2d500000a)) = ofTable t := by
  intro t
  have hok : ((ofTable t).1.toOption.any fun c =>
      c.core.kind = .udp && c.compose.1.isOk) = true := by decide +kernel
  obtain ⟨⟨o, log⟩, hload⟩ : ∃ x, ofTable t = x := ⟨_, rfl⟩
  rw [hload] at hok
  cases o with
  | error e => cases hok
  | ok c =>
    simp only [Except.toOption, Option.any_some, Bool.and_eq_true, decide_eq_true_eq] at hok
    obtain ⟨⟨o', log'⟩, hcompose⟩ : ∃ x, c.compose = x := ⟨_, rfl⟩
    rw [hcompose] at hok
    obtain ⟨art, rfl⟩ := Outcome.exists_of_isOk hok.2
    obtain ⟨haddresses, hrestated⟩ := ofTable_restated hload hok.1 hcompose
    have hmac : (normalize t).get? "mac_address" = some (.string "10:e2-D5:00-00:0a") := rfl
    have hip : (normalize t).get? "ip_address" = none := rfl
    have hliteral : AddressKey.mac.Literal (.string "10:e2-D5:00-00:0a") 0x10e2d500000a :=
      AddressKey.number?_eq_some_iff.1 (by decide +kernel)
    have hliteral' : AddressKey.mac.Literal (.integer 0x10e2d500000a) 0x10e2d500000a :=
      AddressKey.number?_eq_some_iff.1 (by decide +kernel)
    refine ⟨c, log, art, log', hload, hok.1, hcompose, (haddresses .mac).1 _ _ hmac hliteral,
      (haddresses .ip).2.1 hip, hrestated _ ?_⟩
    exact restates_insert (k := .mac) rfl hliteral hliteral'

end Config

end EtherCore
