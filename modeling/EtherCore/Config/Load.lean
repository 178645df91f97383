import EtherCore.Config.SocOptions
import EtherCore.Diagnostic
import EtherCore.Document.Normal
import EtherCore.Document.Reader

/-!
The configuration that a document or a table of values describes.  The keys are looked at in a
fixed order and the first that is wrong is the error; findings that are no errors are logged, and
the log is there after an error too.
-/

namespace EtherCore

namespace Config

/-! ### Keys -/

/-- The keys that have a meaning; any other is an argument of the system on chip. -/
def recognizedKeys : List String :=
  ["clk_freq", "vendor", "device", "toolchain", "phy", "phy_pads", "phy_tx_delay", "phy_rx_delay",
    "core", "endianness", "mac_address", "ip_address", "port", "nrxslots", "ntxslots",
    "full_memory_we", "soc"]

/-- The keys that have moved below `soc`. -/
def movedKeys : List String := ["csr_map", "mem_map"]

/-- Refuses a table with a key that has moved. -/
def rejectMoved (t : Table Value) : Outcome Unit :=
  match movedKeys.find? fun k => t.contains k with
  | none => .ok ()
  | some k =>
    .error (.configuration k
      ("top-level `" ++ k ++ "` is no longer supported, move it under `soc`"))

/-! ### Values of keys -/

/-- The error for a key that has to be there. -/
def missing (key : String) : Error := .configuration key "missing required key"

/-- The error for a value of the wrong type. -/
def mistyped (key expected : String) (v : Value) : Error :=
  .configuration key ("expected " ++ expected ++ ", found " ++ v.text)

/-- The string under a key. -/
def string? (t : Table Value) (key : String) : Outcome (Option String) :=
  match t.get? key with
  | none => .ok none
  | some (.string s) => .ok (some s)
  | some v => .error (mistyped key "a string" v)

/-- The string under a key that has to be there. -/
def string (t : Table Value) (key : String) : Outcome String := do
  match ← string? t key with
  | some s => return s
  | none => throw (missing key)

/-- The number under a key, at most a limit. -/
def number? (t : Table Value) (key : String) (limit : Nat) : Outcome (Option Nat) :=
  match t.get? key with
  | none => .ok none
  | some (.integer n) =>
    if 0 ≤ n ∧ n.toInt.toNat ≤ limit then .ok (some n.toInt.toNat)
    else
      .error (.configuration key (toString n ++ " is out of range 0..=" ++ toString limit))
  | some v => .error (mistyped key "an integer" v)

/-- The boolean under a key. -/
def boolean? (t : Table Value) (key : String) : Outcome (Option Bool) :=
  match t.get? key with
  | none => .ok none
  | some (.boolean b) => .ok (some b)
  | some v => .error (mistyped key "a boolean" v)

/-! ### Clock and platform -/

/-- The frequency that a value names: whole Hertz, a number that is cut to whole Hertz, or a
text. -/
def frequency? : Value → Option Frequency
  | .integer n => if 0 < n then some ⟨UInt64.ofNat n.toInt.toNat⟩ else none
  | .float x => Frequency.ofBinary64? x
  | .string s => (Frequency.parse s).toOption
  | _ => none

/-- The system clock. -/
def readClock (t : Table Value) : Outcome Frequency :=
  match t.get? "clk_freq" with
  | none => .error (missing "clk_freq")
  | some v =>
    match frequency? v with
    | some f =>
      if 0 < f.hertz then .ok f
      else .error (.configuration "clk_freq" (v.text ++ " is not a positive frequency"))
    | none => .error (.configuration "clk_freq" (v.text ++ " is not a positive frequency"))

/-- The platform; the toolchain is that of the vendor where none is named. -/
def readPlatform (t : Table Value) : Outcome Platform := do
  let vendor ← Vendor.ofName (← string t "vendor")
  let device := (← string? t "device").getD ""
  match ← string? t "toolchain" with
  | some name => Platform.of vendor device (← Toolchain.ofName name)
  | none => Platform.of vendor device vendor.defaultToolchain

/-! ### PHY -/

/-- The choice of a PHY by its pads, which then have to be given. -/
def inferFrom : Option PadFamily → Outcome PhyChoice
  | some f => .ok (.inferred f)
  | none =>
    .error (.configuration "phy_pads"
      "required when `phy` is absent or `auto` (one of mii, rmii, gmii, rgmii)")

/-- Checks a named PHY against the vendor and against the pads if they are given. -/
def checkNamed (k : PhyKind) (vendor : Vendor) (pads : Option PadFamily) : Outcome PhyChoice := do
  if let some required := k.vendor? then
    if required ≠ vendor then
      throw (.configuration "phy" (k.name ++ " is only available on " ++ required.name
        ++ " devices, not " ++ vendor.name))
  if let some family := pads then
    if k.family? ≠ some family then
      throw (.configuration "phy_pads"
        (k.name ++ " is not built on `" ++ family.dataPads ++ "` pads"))
  return .named k

/-- The choice of the PHY. -/
def readPhy (t : Table Value) (vendor : Vendor) : Outcome PhyChoice := do
  let pads ← match ← string? t "phy_pads" with
    | some name => some <$> PadFamily.ofName name
    | none => pure none
  match ← string? t "phy" with
  | none => inferFrom pads
  | some name =>
    if Text.lower name = "auto" then inferFrom pads
    else checkNamed (← PhyKind.ofName name) vendor pads

/-- The delays given for the transmit clock and the receive clock. -/
structure GivenDelays where
  transmit : Option Nat
  receive : Option Nat
deriving DecidableEq

/-- The delays as they are given. -/
def readDelays (t : Table Value) : Outcome GivenDelays := do
  let transmit ← number? t "phy_tx_delay" (UInt32.size - 1)
  let receive ← number? t "phy_rx_delay" (UInt32.size - 1)
  return ⟨transmit, receive⟩

/-- Whether delays have an effect: the PHY is named and takes delays. -/
def takesDelays (phy : PhyChoice) : Bool := phy.named?.any PhyKind.usesDelays

/-- The delays of the PHY, if they have an effect. -/
def delaysOf (phy : PhyChoice) (given : GivenDelays) : Option PhyDelays :=
  let value (d : Option Nat) : UInt32 := (d.map UInt32.ofNat).getD PhyDelays.standard
  if takesDelays phy then some ⟨value given.transmit, value given.receive⟩ else none

/-- The wording of the PHY in the warning about a delay. -/
def phyWording (phy : PhyChoice) : String :=
  match phy.named? with
  | some k => k.name
  | none => "an auto-detected PHY"

/-- The warning about a delay without effect. -/
def unusedDelay (key : String) (phy : PhyChoice) : Diagnostic :=
  ((Diagnostic.warning .unusedDelay ("`" ++ key ++ "` has no effect on " ++ phyWording phy)).about
    key).addHelp "clock delays only apply to RGMII PHYs"

/-- The warnings about delays without effect. -/
def delayLog (phy : PhyChoice) (given : GivenDelays) : Log :=
  if takesDelays phy then []
  else
    (if given.transmit.isSome then [unusedDelay "phy_tx_delay" phy] else [])
      ++ if given.receive.isSome then [unusedDelay "phy_rx_delay" phy] else []

/-! ### Cores -/

/-- The byte order that a value names: a string, or a table that maps the name to something
empty. -/
def endianness? : Value → Option Endianness
  | .string "big" | .table [("big", .table [])] | .table [("big", .array [])] => some .big
  | .string "little" | .table [("little", .table [])] | .table [("little", .array [])] =>
    some .little
  | _ => none

/-- The byte order of the buffers. -/
def readEndianness (t : Table Value) : Outcome Endianness :=
  match t.get? "endianness" with
  | none => .ok .big
  | some v =>
    match endianness? v with
    | some e => .ok e
    | none => .error (mistyped "endianness" "`big` or `little`" v)

/-- A number of buffers, at least one. -/
def readSlots (t : Table Value) (key : String) : Outcome UInt32 := do
  match ← number? t key (UInt32.size - 1) with
  | none => return MacSettings.standardSlots
  | some 0 => throw (.configuration key "at least one slot is required")
  | some n => return UInt32.ofNat n

/-- The settings of a MAC. -/
def readMac (t : Table Value) : Outcome MacSettings := do
  let endianness ← readEndianness t
  let receive ← readSlots t "nrxslots"
  let transmit ← readSlots t "ntxslots"
  let wide := (← boolean? t "full_memory_we").getD false
  return ⟨receive, transmit, wide, endianness⟩

/-- The Ethernet address that a value names. -/
def macAddress? : Value → Option MacAddress
  | .integer n => if 0 ≤ n then MacAddress.ofNat? n.toInt.toNat else none
  | .string s => (MacAddress.parse s).toOption
  | _ => none

/-- The internet address that a value names. -/
def ipAddress? : Value → Option Ipv4
  | .integer n =>
    if 0 ≤ n ∧ n.toInt.toNat < UInt32.size then some ⟨UInt32.ofNat n.toInt.toNat⟩ else none
  | .string s => Ipv4.parse? s
  | _ => none

/-- An address under a key. -/
def readAddress {α : Type} (t : Table Value) (key wording : String) (read : Value → Option α) :
    Outcome (Option α) :=
  match t.get? key with
  | none => .ok none
  | some v =>
    match read v with
    | some a => .ok (some a)
    | none => .error (.configuration key (v.text ++ " is not " ++ wording))

/-- The settings of a UDP stack. -/
def readUdp (t : Table Value) : Outcome UdpSettings := do
  match ← number? t "port" (UInt16.size - 1) with
  | none => throw (missing "port")
  | some port =>
    let mac ← readAddress t "mac_address" "a MAC address" macAddress?
    let ip ← readAddress t "ip_address" "an IPv4 address" ipAddress?
    return ⟨mac, ip, UInt16.ofNat port⟩

/-- The settings of the core. -/
def readCore (t : Table Value) : Outcome CoreSettings := do
  match ← CoreKind.ofName (← string t "core") with
  | .mac => return .mac (← readMac t)
  | .udp => return .udp (← readUdp t)

/-! ### Keys that are passed on -/

/-- The entries whose keys have no meaning of their own. -/
def unrecognized (t : Table Value) : List (String × Value) :=
  t.entries.filter fun e => !recognizedKeys.contains e.1

/-- The finding about an unrecognized key: an argument of its name shadows it, or it is passed
on. -/
def forwardingFinding (args : Table Value) (key : String) : Diagnostic :=
  if args.contains key then
    (Diagnostic.warning .shadowedKey
      ("top-level `" ++ key ++ "` is shadowed by `soc." ++ key ++ "`")).about key
  else
    (Diagnostic.note .forwardedKey
      ("unrecognized key `" ++ key ++ "` forwarded to the SoC")).about key

/-- The findings about the unrecognized keys. -/
def forwardingLog (t args : Table Value) : Log :=
  (unrecognized t).map fun e => forwardingFinding args e.1

/-- The arguments with the unrecognized entries that none of them shadows. -/
def forward (t args : Table Value) : Table Value :=
  ((unrecognized t).filter fun e => !args.contains e.1).foldl (fun a e => a.insert e.1 e.2) args

/-! ### Configurations -/

/-- What is read before the first finding can be made. -/
structure Head where
  clock : Frequency
  platform : Platform
  phy : PhyChoice
  given : GivenDelays
deriving DecidableEq

/-- Reads the clock, the platform, the PHY and the delays. -/
def readHead (t : Table Value) : Outcome Head := do
  let clock ← readClock t
  let platform ← readPlatform t
  let phy ← readPhy t platform.vendor
  let given ← readDelays t
  return ⟨clock, platform, phy, given⟩

/-- Reads the core and the options of the system on chip. -/
def readTail (t : Table Value) : Outcome (CoreSettings × SocOptions) := do
  let core ← readCore t
  let soc ← SocOptions.ofValue? (t.get? "soc")
  return (core, soc)

/-- The configuration of a table in normal form, and the findings. -/
def ofNormal (t : Table Value) : Outcome Config × Log :=
  match readHead t with
  | .error e => (.error e, [])
  | .ok head =>
    let log := delayLog head.phy head.given
    match readTail t with
    | .error e => (.error e, log)
    | .ok (core, soc) =>
      (.ok ⟨head.clock, head.platform, head.phy, delaysOf head.phy head.given, core,
          { soc with args := forward t soc.args }⟩,
        log ++ forwardingLog t soc.args)

/-- The table with the strings that name booleans or nothing replaced. -/
def normalize (t : Table Value) : Table Value := t.filterMap Value.normalize?

/-- The configuration that a table describes, and the findings. -/
def ofTable (t : Table Value) : Outcome Config × Log :=
  match rejectMoved t with
  | .error e => (.error e, [])
  | .ok () => ofNormal (normalize t)

/-- The configuration that a document describes, and the findings. -/
def ofText (text : String) : Outcome Config × Log :=
  match Document.read? text with
  | some t => ofTable t
  | none => (.error (.configuration "<document>" "the document is malformed"), [])

end Config

end EtherCore
