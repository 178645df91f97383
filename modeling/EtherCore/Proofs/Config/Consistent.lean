import EtherCore.Proofs.Config.Normal
import EtherCore.Proofs.Outcome

/-!
What loading a configuration checks, reader by reader.  A configuration that is loaded is
`Consistent`, and its delays are those that the table gives (`consistent_of_ofTable`).
-/

namespace EtherCore.Config

variable {t : Table Value}

/-! ### The choice of the PHY, check by check -/

/-- The check of a named PHY against the vendor. -/
def checkVendor (k : PhyKind) (vendor : Vendor) : Outcome Unit :=
  match k.vendor? with
  | some required =>
    if required = vendor then .ok ()
    else
      .error (.configuration "phy" (k.name ++ " is only available on " ++ required.name
        ++ " devices, not " ++ vendor.name))
  | none => .ok ()

/-- The check of a named PHY against the pads. -/
def checkPads (k : PhyKind) (pads : Option PadFamily) : Outcome Unit :=
  match pads with
  | some family =>
    if k.family? = some family then .ok ()
    else
      .error (.configuration "phy_pads"
        (k.name ++ " is not built on `" ++ family.dataPads ++ "` pads"))
  | none => .ok ()

/-- The pads that a table names. -/
def readPads (t : Table Value) : Outcome (Option PadFamily) := do
  match ← string? t "phy_pads" with
  | some name => some <$> PadFamily.ofName name
  | none => pure none

/-- The choice of the PHY where the pads are known. -/
def readChoice (t : Table Value) (vendor : Vendor) (pads : Option PadFamily) :
    Outcome PhyChoice := do
  match ← string? t "phy" with
  | none => inferFrom pads
  | some name =>
    if Text.lower name = "auto" then inferFrom pads
    else checkNamed (← PhyKind.ofName name) vendor pads

theorem checkNamed_eq (k : PhyKind) (vendor : Vendor) (pads : Option PadFamily) :
    checkNamed k vendor pads = do
      checkVendor k vendor
      checkPads k pads
      return .named k := by
  unfold checkNamed checkVendor checkPads
  simp only [ne_eq, ite_not]
  rcases k.vendor? with - | required
  · rcases pads with - | family
    · rfl
    · dsimp only
      split <;> rfl
  · dsimp only
    split
    · rcases pads with - | family
      · rfl
      · dsimp only
        split <;> rfl
    · rfl

theorem readPhy_eq (t : Table Value) (vendor : Vendor) :
    readPhy t vendor = readPads t >>= readChoice t vendor := by
  unfold readPhy readPads
  rw [bind_assoc]
  refine bind_congr fun name => ?_
  cases name <;> rfl

theorem vendor_of_checkVendor {k : PhyKind} {vendor : Vendor} (h : checkVendor k vendor = .ok ())
    {v : Vendor} (hv : k.vendor? = some v) : v = vendor := by
  rw [checkVendor, hv] at h
  dsimp only at h
  split at h
  · next hsame => exact hsame
  · cases h

theorem inferFrom_ne_named {pads : Option PadFamily} (k : PhyKind) :
    inferFrom pads ≠ .ok (.named k) := by
  cases pads <;> simp [inferFrom]

theorem vendor_of_readPhy {vendor : Vendor} {k : PhyKind} (h : readPhy t vendor = .ok (.named k))
    {v : Vendor} (hv : k.vendor? = some v) : v = vendor := by
  rw [readPhy_eq] at h
  simp only [readChoice, Outcome.bind_eq_ok_iff] at h
  obtain ⟨pads, -, name, -, h⟩ := h
  split at h
  · exact absurd h (inferFrom_ne_named k)
  · split at h
    · exact absurd h (inferFrom_ne_named k)
    · simp only [checkNamed_eq, Outcome.bind_eq_ok_iff, Outcome.pure_eq_ok_iff] at h
      obtain ⟨k', -, u, hvendor, u', -, hk⟩ := h
      obtain rfl := PhyChoice.named.inj hk
      exact vendor_of_checkVendor hvendor hv

/-! ### Other readers -/

theorem hertz_pos_of_readClock {f : Frequency} (h : readClock t = .ok f) : 0 < f.hertz := by
  unfold readClock at h
  split at h
  · cases h
  · split at h
    · split at h
      · next hpos =>
        cases h
        exact hpos
      · cases h
    · cases h

theorem vendor_of_readPlatform {p : Platform} (h : readPlatform t = .ok p) :
    p.toolchain.vendor = p.vendor := by
  simp only [readPlatform, Outcome.bind_eq_ok_iff] at h
  obtain ⟨name, -, vendor, -, device, -, toolchain, -, h⟩ := h
  cases toolchain with
  | none =>
    obtain ⟨-, rfl⟩ := Platform.of_eq_ok.1 h
    exact vendor.vendor_defaultToolchain
  | some name =>
    obtain ⟨toolchain, -, h⟩ := Outcome.bind_eq_ok_iff.1 h
    obtain ⟨hvendor, rfl⟩ := Platform.of_eq_ok.1 h
    exact hvendor

theorem number?_eq_ok {key : String} {limit : Nat} {d : Option Nat}
    (h : number? t key limit = .ok d) :
    t.get? key = none ∧ d = none ∨ ∃ n : Int64, t.get? key = some (.integer n) ∧ 0 ≤ n ∧
      n.toInt.toNat ≤ limit ∧ d = some n.toInt.toNat := by
  unfold number? at h
  split at h
  · next hnone =>
    cases h
    exact Or.inl ⟨hnone, rfl⟩
  · next n hsome =>
    split at h
    · next hn =>
      cases h
      exact Or.inr ⟨n, hsome, hn.1, hn.2, rfl⟩
    · cases h
  · cases h

theorem slots_pos_of_readSlots {key : String} {n : UInt32} (h : readSlots t key = .ok n) :
    0 < n.toNat := by
  simp only [readSlots, Outcome.bind_eq_ok_iff] at h
  obtain ⟨given, hgiven, h⟩ := h
  rcases given with - | - | n'
  · cases h
    decide
  · cases h
  · cases h
    obtain ⟨-, hnone⟩ | ⟨n, -, -, hle, hn⟩ := number?_eq_ok hgiven
    · cases hnone
    · have hword : n' + 1 < UInt32.size := by
        have := Option.some.inj hn
        unfold UInt32.size at *
        omega
      rw [UInt32.toNat_ofNat_of_lt' hword]
      exact Nat.succ_pos n'

theorem slots_pos_of_readMac {m : MacSettings} (h : readMac t = .ok m) :
    0 < m.receiveSlots.toNat ∧ 0 < m.transmitSlots.toNat := by
  simp only [readMac, Outcome.bind_eq_ok_iff, Outcome.pure_eq_ok_iff] at h
  obtain ⟨endianness, -, receive, hreceive, transmit, htransmit, wide, -, rfl⟩ := h
  exact ⟨slots_pos_of_readSlots hreceive, slots_pos_of_readSlots htransmit⟩

theorem slots_pos_of_readCore {m : MacSettings} (h : readCore t = .ok (.mac m)) :
    0 < m.receiveSlots.toNat ∧ 0 < m.transmitSlots.toNat := by
  simp only [readCore, Outcome.bind_eq_ok_iff] at h
  obtain ⟨name, -, kind, -, h⟩ := h
  cases kind with
  | mac =>
    simp only [Outcome.bind_eq_ok_iff, Outcome.pure_eq_ok_iff] at h
    obtain ⟨m', hm, hsame⟩ := h
    obtain rfl := CoreSettings.mac.inj hsame
    exact slots_pos_of_readMac hm
  | udp =>
    simp only [Outcome.bind_eq_ok_iff, Outcome.pure_eq_ok_iff] at h
    obtain ⟨u, -, hsame⟩ := h
    cases hsame

/-! ### Delays -/

/-- The delay that a table gives under a key, in nanoseconds, or that of 2 where it gives none. -/
def givenDelay (t : Table Value) (key : String) : Int :=
  match t.get? key with
  | some (.integer n) => n.toInt
  | _ => 2

/-- A delay that is read is the one that is given. -/
theorem givenDelay_eq {key : String} {d : Option Nat}
    (h : number? (normalize t) key (UInt32.size - 1) = .ok d) :
    (((d.map UInt32.ofNat).getD PhyDelays.standard).toNat : Int) = givenDelay t key := by
  obtain ⟨hnone, rfl⟩ | ⟨n, hsome, hpos, hle, rfl⟩ := number?_eq_ok h
  · rw [get?_normalize, Option.bind_eq_none_iff] at hnone
    have hgiven : givenDelay t key = 2 := by
      unfold givenDelay
      split
      · next n hn =>
        have := hnone _ hn
        rw [Value.normalize?_eq_none_iff] at this
        cases this
      · rfl
    rw [hgiven]
    rfl
  · rw [get?_normalize, Option.bind_eq_some_iff] at hsome
    obtain ⟨v, hv, hnormal⟩ := hsome
    rw [Value.normalize?_eq_integer_iff.1 hnormal] at hv
    have hgiven : givenDelay t key = n.toInt := by
      unfold givenDelay
      rw [hv]
    have hword : n.toInt.toNat < 2 ^ 32 := by
      unfold UInt32.size at hle
      omega
    rw [hgiven, Option.map_some, Option.getD_some, UInt32.toNat_ofNat_of_lt' hword]
    exact Int.toNat_of_nonneg (Int64.le_iff_toInt_le.1 hpos)

/-! ### Configurations -/

/-- The settings of a configuration agree with each other. -/
structure Consistent (c : Config) : Prop where
  clock : 1 ≤ c.clock.hertz.toNat
  toolchain : c.platform.toolchain.vendor = c.platform.vendor
  vendor : ∀ k, c.phy = .named k → ∀ v, k.vendor? = some v → v = c.platform.vendor
  delays : c.delays.isSome ↔ ∃ k, c.phy = .named k ∧ k.family? = some .rgmii
  slots : ∀ m, c.core = .mac m → 1 ≤ m.receiveSlots.toNat ∧ 1 ≤ m.transmitSlots.toNat

/-- A configuration has the delays that a table gives, if it has any. -/
def Delayed (t : Table Value) (c : Config) : Prop :=
  ∀ d, c.delays = some d → (d.transmit.toNat : Int) = givenDelay t "phy_tx_delay" ∧
    (d.receive.toNat : Int) = givenDelay t "phy_rx_delay"

theorem ofNormal_eq_ok_iff {c : Config} {log : Log} : ofNormal t = (.ok c, log) ↔
    ∃ head core soc, readHead t = .ok head ∧ readTail t = .ok (core, soc) ∧
      c = ⟨head.clock, head.platform, head.phy, delaysOf head.phy head.given, core,
        { soc with args := forward t soc.args }⟩ ∧
      log = delayLog head.phy head.given ++ forwardingLog t soc.args := by
  unfold ofNormal
  cases hhead : readHead t with
  | error e => simp
  | ok head =>
    dsimp only
    cases htail : readTail t with
    | error e => simp
    | ok tail =>
      constructor
      · intro h
        cases h
        exact ⟨head, tail.1, tail.2, rfl, rfl, rfl, rfl⟩
      · rintro ⟨head', core, soc, hhead', htail', rfl, rfl⟩
        cases hhead'
        cases htail'
        rfl

theorem ofTable_eq_ok_iff {c : Config} {log : Log} : ofTable t = (.ok c, log) ↔
    (∀ key ∈ movedKeys, t.get? key = none) ∧ ofNormal (normalize t) = (.ok c, log) := by
  rw [← rejectMoved_eq_ok_iff, ofTable]
  cases rejectMoved t <;> simp

theorem takesDelays_iff {phy : PhyChoice} :
    takesDelays phy ↔ ∃ k, phy = .named k ∧ k.family? = some .rgmii := by
  cases phy with
  | named k => simp [takesDelays, PhyChoice.named?, PhyKind.usesDelays]
  | inferred f => simp [takesDelays, PhyChoice.named?]

instance (phy : PhyChoice) : Decidable (∃ k, phy = .named k ∧ k.family? = some .rgmii) :=
  decidable_of_iff _ takesDelays_iff

theorem consistent_of_ofTable {c : Config} {log : Log} (h : ofTable t = (.ok c, log)) :
    c.Consistent ∧ c.Delayed t := by
  obtain ⟨head, core, soc, hhead, htail, rfl, -⟩ := ofNormal_eq_ok_iff.1 (ofTable_eq_ok_iff.1 h).2
  simp only [readHead, readTail, Outcome.bind_eq_ok_iff, Outcome.pure_eq_ok_iff] at hhead htail
  obtain ⟨clock, hclock, platform, hplatform, phy, hphy, given, hgiven, rfl⟩ := hhead
  obtain ⟨core', hcore, soc', -, hsame⟩ := htail
  obtain ⟨rfl, rfl⟩ := Prod.mk.inj hsame
  simp only [readDelays, Outcome.bind_eq_ok_iff, Outcome.pure_eq_ok_iff] at hgiven
  obtain ⟨transmit, htransmit, receive, hreceive, rfl⟩ := hgiven
  refine ⟨⟨?_, vendor_of_readPlatform hplatform, ?_, ?_, ?_⟩, fun d hd => ?_⟩
  · exact UInt64.lt_iff_toNat_lt.1 (hertz_pos_of_readClock hclock)
  · rintro k rfl v hv
    exact vendor_of_readPhy hphy hv
  · rw [← takesDelays_iff]
    unfold delaysOf
    split <;> simp_all
  · rintro m rfl
    exact slots_pos_of_readCore hcore
  · unfold delaysOf at hd
    dsimp only at hd
    split at hd
    · cases hd
      exact ⟨givenDelay_eq htransmit, givenDelay_eq hreceive⟩
    · cases hd

end EtherCore.Config
