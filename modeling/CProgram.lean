import CProgram.Lib.Bytes
import CProgram.Kermit.Parameters
import CProgram.Kermit.Check
import CProgram.Kermit.Encode
import CProgram.Kermit.Decode
import CProgram.Kermit.Codec
import CProgram.Kermit.DataField
import CProgram.Kermit.Packet
import CProgram.Kermit.PacketSize
import CProgram.Kermit.Parse
import CProgram.Kermit.Payload
import CProgram.Kermit.ParseBounds
import CProgram.Kermit.FrameParse
import CProgram.Kermit.RoundTrip
import CProgram.Kermit.Framing
import CProgram.Kermit.FramingChunks
import CProgram.Zmodem.Header
import CProgram.Zmodem.Receiver
import CProgram.Lib.Circular
import CProgram.Zmodem.Labels
import CProgram.Kermit.Session
import CProgram.Kermit.Window
import CProgram.Kermit.Receive
import CProgram.Kermit.Run
import CProgram.Kermit.InputWindow
import CProgram.Kermit.Sending
import CProgram.Kermit.Numbering
import CProgram.Zmodem.DataFrame
import CProgram.Lib.Crc
import CProgram.Zmodem.Crc16
import CProgram.Zmodem.HeaderFrame
import CProgram.Lib.Numerals
import CProgram.Xmodem.Block
import CProgram.Xmodem.BlockZero
import CProgram.Xmodem.Damage
import CProgram.Xmodem.Machine
import CProgram.Lib.Exchange
import CProgram.Xmodem.Tail
import CProgram.Xmodem.Delivery
import CProgram.Xmodem.Batch
import CProgram.Lib.Loops
import CProgram.Zmodem.Progress
import CProgram.Zmodem.Overrun
import CProgram.Terminal.Parser
import CProgram.Terminal.Vt100
import CProgram.Terminal.Residue
import CProgram.Terminal.Strings
import CProgram.Xmodem.LostAck
import CProgram.Xmodem.Streaming
import CProgram.Lib.Noise
import CProgram.Xmodem.Ordering
import CProgram.Lib.Linked
import CProgram.Lib.Programs
import CProgram.Terminal.Screen
import CProgram.Terminal.Output
import CProgram.Terminal.Scrollback
import CProgram.Lib.Utf8
import CProgram.Qodem.Quicklearn
import CProgram.Qodem.Write
import CProgram.Terminal.Resync
import CProgram.Telnet.Bounds
import CProgram.Telnet.Options
import CProgram.Telnet.Transparent
import CProgram.Qodem.Script
import CProgram.Qodem.ScriptBridge
import CProgram.Qodem.Conservation
import CProgram.Terminal.Handlers
import CProgram.Terminal.Band
import CProgram.Terminal.Region
import CProgram.Hydra.Coding
import CProgram.Hydra.Negotiation
import CProgram.Hydra.RoundTrip
import CProgram.Qodem.Admission
import CProgram.Hydra.Chat
import CProgram.Hydra.Machine
import CProgram.Hydra.Order
import CProgram.Hydra.Extent
import CProgram.Telnet.Framing
import CProgram.Hydra.Ledger
import CProgram.Jmodem.Ordering
import CProgram.Qodem.Access
import CProgram.Qodem.Tagged
import CProgram.Qodem.Kept
import CProgram.Netpc.Edited
import CProgram.Qodem.Survival
import CProgram.Qodem.Restored
import CProgram.Terminal.Rejected
import CProgram.Rle.RoundTrip
import CProgram.Terminal.Shifting
import CProgram.Zmodem.Overlay
import CProgram.Zmodem.Received
import CProgram.Jmodem.Buffers
import CProgram.Terminal.Erasing
import CProgram.Terminal.Scrolling
import CProgram.Terminal.Wrapping
import CProgram.Zmodem.Sending
import CProgram.Kermit.Asking
import CProgram.Lib.Matching
import CProgram.Qodem.Autostart
import CProgram.Terminal.Charsets
import CProgram.Terminal.Singleshift
import CProgram.Terminal.Moves
import CProgram.Terminal.Saving
import CProgram.Terminal.Tabs
import CProgram.Terminal.Rendition
import CProgram.Qodem.Music
import CProgram.Qodem.Ascii
import CProgram.Qodem.Breaks
import CProgram.Qodem.Deleting
import CProgram.Lib.Sorting
import CProgram.Qodem.Sorted
import CProgram.Qodem.Keyboard
import CProgram.Qodem.Bindings
import CProgram.Hydra.Naming
import CProgram.Lib.InPlace
import CProgram.Hydra.InPlace
import CProgram.Qodem.Mouse
import CProgram.Lib.Replacing
import CProgram.Qodem.Macros
import CProgram.Qodem.Keystrokes
import CProgram.Rle.Extracting
import CProgram.Jmodem.Damaged
import CProgram.Jmodem.Packing
import CProgram.Qodem.Keepalive
import CProgram.Netpc.Globenv
import CProgram.Qodem.Fields
import CProgram.Qodem.Options
import CProgram.Terminal.Parameters
import CProgram.Qodem.TableEditor
import CProgram.Terminal.Fallback
import CProgram.Netpc.Passwords
import CProgram.Plink.Rle
import CProgram.Lib.Reflected
import CProgram.Checks.Tables
import CProgram.Checks.Bursts
import CProgram.Terminal.Atascii
import CProgram.Terminal.Utf8Exact
import CProgram.Terminal.Avatar
import CProgram.Terminal.Repeated
