import EtherCore.Artifact.Compose
import EtherCore.Artifact.Json
import EtherCore.Config.Load
import EtherCore.Proofs.Bus.Placement
import EtherCore.Proofs.Bus.FullWidth
import EtherCore.Proofs.Bus.Pages
import EtherCore.Proofs.Outcome
import EtherCore.Proofs.Soc.Reserved
import EtherCore.Proofs.Artifact.Complete
import EtherCore.Proofs.Pad.History
import EtherCore.Proofs.Pad.Signals
import EtherCore.Proofs.Pad.Stems
import EtherCore.Proofs.Pad.Enumerated
import EtherCore.Proofs.Netlist.Declared
import EtherCore.Proofs.Artifact.Declared
import EtherCore.Proofs.Artifact.Follows
import EtherCore.Proofs.Bus.Exhausted
import EtherCore.Proofs.Phy.Resolved
import EtherCore.Proofs.Phy.Requirements
import EtherCore.Proofs.Phy.Inference
import EtherCore.Proofs.Soc.Errors
import EtherCore.Proofs.Soc.AddressWidth
import EtherCore.Proofs.Artifact.Failures
import EtherCore.Proofs.Artifact.FailureSet
import EtherCore.Proofs.Bus.PageOrder
import EtherCore.Proofs.Bus.LowestOrigin
import EtherCore.Proofs.Bus.Opening
import EtherCore.Proofs.Bus.FixedOrigins
import EtherCore.Proofs.Netlist.Parts
import EtherCore.Proofs.Netlist.Indexed
import EtherCore.Proofs.Netlist.Streams
import EtherCore.Proofs.Netlist.Tabulated
import EtherCore.Proofs.Artifact.Parts
import EtherCore.Proofs.Artifact.Addresses
import EtherCore.Proofs.Config.Consistent
import EtherCore.Proofs.Artifact.Muted
import EtherCore.Proofs.Artifact.Realized
import EtherCore.Proofs.Text.Case
import EtherCore.Proofs.Text.Split
import EtherCore.Proofs.Timing.Lines
import EtherCore.Proofs.Artifact.Timing
import EtherCore.Proofs.Config.Keys
import EtherCore.Proofs.MacAddress
import EtherCore.Proofs.MacAddress.Codec
import EtherCore.Proofs.Ipv4
import EtherCore.Proofs.Netlist.Grown
import EtherCore.Proofs.Artifact.Stack
import EtherCore.Proofs.Config.Literals
import EtherCore.Proofs.Document.Normal
import EtherCore.Proofs.Config.Normal
import EtherCore.Proofs.Config.SocOptions
import EtherCore.Proofs.Config.Readers
import EtherCore.Proofs.Config.Forwarded
import EtherCore.Proofs.Config.Names
import EtherCore.Proofs.Config.Foreign
import EtherCore.Proofs.Config.Spelling
import EtherCore.Proofs.Text.Grid
import EtherCore.Proofs.Artifact.Listing
import EtherCore.Proofs.Phy.Names
import EtherCore.Proofs.Config.Partition
import EtherCore.Proofs.Artifact.Requests
import EtherCore.Proofs.Frequency
import EtherCore.Proofs.Bus.Course
import EtherCore.Proofs.Netlist.Ports
import EtherCore.Proofs.Soc.Maps
