import EtherCore.Pad.Basic

/-!
The pads of a standalone core.  The families of PHY pads differ only in which signals they have
and in the widths of these, so the lists are exact.
-/

namespace EtherCore.PadDecl

/-- An input signal. -/
def input (name : String) (width : UInt32) : Signal := ⟨name, width, .input⟩

/-- An output signal. -/
def output (name : String) (width : UInt32) : Signal := ⟨name, width, .output⟩

/-- A signal that is driven from both sides. -/
def inout (name : String) (width : UInt32) : Signal := ⟨name, width, .inout⟩

/-- The width of the payload of a UDP stream. -/
def udpDataWidth : UInt32 := 32

/-- The signals of a UDP stream, all in one direction but `ready`, which answers. -/
def udpStream (forward backward : Direction) : List Signal :=
  [⟨"valid", 1, forward⟩, ⟨"last", 1, forward⟩, ⟨"ready", 1, backward⟩,
    ⟨"src_port", 16, forward⟩, ⟨"dst_port", 16, forward⟩, ⟨"ip_address", 32, forward⟩,
    ⟨"length", 16, forward⟩, ⟨"data", udpDataWidth, forward⟩, ⟨"error", 4, forward⟩]

/-- The pads that every core starts from. -/
def catalog : List PadDecl :=
  [pins "sys_clock" 0 1 .input,
    pins "sys_reset" 1 1 .input,
    pins "mac_address" 0 48 .input,
    pins "ip_address" 0 32 .input,
    pins "interrupt" 0 1 .output,
    fields "mii_eth_clocks" 0 [input "tx" 1, input "rx" 1],
    fields "mii_eth" 0
      [output "rst_n" 1, inout "mdio" 1, output "mdc" 1, input "rx_dv" 1, input "rx_er" 1,
        input "rx_data" 4, output "tx_en" 1, output "tx_data" 4, input "col" 1, input "crs" 1],
    fields "rmii_eth_clocks" 0 [input "ref_clk" 1],
    fields "rmii_eth" 0
      [output "rst_n" 1, input "rx_data" 2, input "crs_dv" 1, output "tx_en" 1,
        output "tx_data" 2, output "mdc" 1, inout "mdio" 1],
    fields "gmii_eth_clocks" 0 [input "tx" 1, output "gtx" 1, input "rx" 1],
    fields "gmii_eth" 0
      [output "rst_n" 1, input "int_n" 1, inout "mdio" 1, output "mdc" 1, input "rx_dv" 1,
        input "rx_er" 1, input "rx_data" 8, output "tx_en" 1, output "tx_er" 1,
        output "tx_data" 8, input "col" 1, input "crs" 1],
    fields "rgmii_eth_clocks" 0 [output "tx" 1, input "rx" 1],
    fields "rgmii_eth" 0
      [output "rst_n" 1, input "int_n" 1, inout "mdio" 1, output "mdc" 1, input "rx_ctl" 1,
        input "rx_data" 4, output "tx_ctl" 1, output "tx_data" 4],
    fields "udp_sink" 0 (udpStream .input .output),
    fields "udp_source" 0 (udpStream .output .input)]

theorem catalog_keys_nodup : (catalog.map key).Nodup := by decide

end EtherCore.PadDecl
