import EtherCore.Proofs.Config.Normal
import Mathlib.Data.List.Find

/-!
What the readers of a configuration look at.  Each reads the values under its own keys and nothing
else, so two tables that hold the same under these keys are read alike; and two tables that are read
alike, and hold the same under every key without a meaning, are one configuration (`ofTable_congr`).
-/

namespace EtherCore.Config

variable {t t' : Table Value}

/-- The keys of the head of a configuration. -/
def headKeys : List String :=
  ["clk_freq", "vendor", "device", "toolchain", "phy", "phy_pads", "phy_tx_delay", "phy_rx_delay"]

/-- The keys of the settings of a MAC. -/
def macKeys : List String := ["endianness", "nrxslots", "ntxslots", "full_memory_we"]

/-- The keys of the settings of a UDP stack. -/
def udpKeys : List String := ["port", "mac_address", "ip_address"]

section

variable {key : String} (h : t'.get? key = t.get? key)
include h

theorem string?_congr : string? t' key = string? t key := by rw [string?, string?, h]

theorem string_congr : string t' key = string t key := by rw [string, string, string?_congr h]

theorem number?_congr (limit : Nat) : number? t' key limit = number? t key limit := by
  rw [number?, number?, h]

theorem boolean?_congr : boolean? t' key = boolean? t key := by rw [boolean?, boolean?, h]

theorem readSlots_congr : readSlots t' key = readSlots t key := by
  rw [readSlots, readSlots, number?_congr h]

theorem readAddress_congr {α : Type} (wording : String) (read : Value → Option α) :
    readAddress t' key wording read = readAddress t key wording read := by
  rw [readAddress, readAddress, h]

end

theorem readHead_congr (h : ∀ key ∈ headKeys, t'.get? key = t.get? key) :
    readHead t' = readHead t := by
  have hclock : readClock t' = readClock t := by
    rw [readClock, readClock, h "clk_freq" (by decide)]
  have hplatform : readPlatform t' = readPlatform t := by
    simp only [readPlatform, string_congr (h "vendor" (by decide)),
      string?_congr (h "device" (by decide)), string?_congr (h "toolchain" (by decide))]
  have hphy (vendor : Vendor) : readPhy t' vendor = readPhy t vendor := by
    simp only [readPhy, string?_congr (h "phy_pads" (by decide)),
      string?_congr (h "phy" (by decide))]
  have hdelays : readDelays t' = readDelays t := by
    simp only [readDelays, number?_congr (h "phy_tx_delay" (by decide)),
      number?_congr (h "phy_rx_delay" (by decide))]
  simp only [readHead, hclock, hplatform, hphy, hdelays]

theorem readMac_congr (h : ∀ key ∈ macKeys, t'.get? key = t.get? key) : readMac t' = readMac t := by
  have hendianness : readEndianness t' = readEndianness t := by
    rw [readEndianness, readEndianness, h "endianness" (by decide)]
  simp only [readMac, hendianness, readSlots_congr (h "nrxslots" (by decide)),
    readSlots_congr (h "ntxslots" (by decide)), boolean?_congr (h "full_memory_we" (by decide))]

theorem readUdp_congr (h : ∀ key ∈ udpKeys, t'.get? key = t.get? key) : readUdp t' = readUdp t := by
  simp only [readUdp, number?_congr (h "port" (by decide)),
    readAddress_congr (h "mac_address" (by decide)),
    readAddress_congr (h "ip_address" (by decide))]

theorem readCore_congr (hcore : t'.get? "core" = t.get? "core") (hmac : readMac t' = readMac t)
    (hudp : readUdp t' = readUdp t) : readCore t' = readCore t := by
  simp only [readCore, string_congr hcore, hmac, hudp]

theorem readTail_congr (hcore : readCore t' = readCore t) (hsoc : t'.get? "soc" = t.get? "soc") :
    readTail t' = readTail t := by
  rw [readTail, readTail, hcore, hsoc]

/-! ### Tables that are read alike -/

theorem get?_normalize_congr {key : String} (h : t'.get? key = t.get? key) :
    (normalize t').get? key = (normalize t).get? key := by
  rw [get?_normalize, get?_normalize, h]

theorem unrecognized_congr (h : ∀ key ∉ recognizedKeys, t'.get? key = t.get? key) :
    unrecognized t' = unrecognized t :=
  Table.filter_entries_congr (p := fun key => !recognizedKeys.contains key) fun key hkey =>
    h key (by simpa using hkey)

theorem rejectMoved_congr (h : ∀ key ∈ movedKeys, t'.get? key = t.get? key) :
    rejectMoved t' = rejectMoved t := by
  have hcontains : ∀ key ∈ movedKeys, t'.contains key = t.contains key := fun key hkey => by
    rw [Table.contains, Table.contains, h key hkey]
  have hfind : (movedKeys.find? fun key => t'.contains key)
      = movedKeys.find? fun key => t.contains key := List.find?_congr hcontains
  rw [rejectMoved, rejectMoved, hfind]

/-- Two tables with the same head and tail, and the same entries that have no meaning of their own,
are one configuration, with one log, or are refused for one reason. -/
theorem ofTable_congr (hhead : readHead (normalize t') = readHead (normalize t))
    (htail : readTail (normalize t') = readTail (normalize t))
    (hown : ∀ key ∉ recognizedKeys, t'.get? key = t.get? key) : ofTable t' = ofTable t := by
  have hmoved : rejectMoved t' = rejectMoved t :=
    rejectMoved_congr fun key hkey => hown key (by revert key; decide)
  have hunrecognized : unrecognized (normalize t') = unrecognized (normalize t) :=
    unrecognized_congr fun key hkey => get?_normalize_congr (hown key hkey)
  rw [ofTable, ofTable, hmoved]
  simp only [ofNormal, hhead, htail, forward, forwardingLog, hunrecognized]

end EtherCore.Config
