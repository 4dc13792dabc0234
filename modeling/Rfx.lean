import Rfx.Library.Buffer
import Rfx.Library.Run
import Rfx.Library.Framing
import Rfx.Library.RefCount
import Rfx.Library.Scan
import Rfx.Library.Trace
import Rfx.Packet
import Rfx.SendQueue
import Rfx.SendQueue.Outcome
import Rfx.SendQueue.Window
import Rfx.SendQueue.Fifo
import Rfx.RecvQueue
import Rfx.RecvQueue.Framing
import Rfx.RecvQueue.Safety
import Rfx.Filter
import Rfx.Chat
import Rfx.Loot
import Rfx.Library.ByteSet
import Rfx.Loot.Mask
import Rfx.Library.Words
import Rfx.Loot.Command
import Rfx.Loot.Grammar
import Rfx.Loot.Reply
import Rfx.ShippedChain
import Rfx.Chat.Message
import Rfx.Chat.Reply
import Rfx.Library.TailQueue
import Rfx.PacketQueue
import Rfx.PacketQueue.Refinement
import Rfx.Library.Handles
import Rfx.Process
import Rfx.Process.Descriptors
import Rfx.Process.Instances
import Rfx.Process.Bootstraps
import Rfx.Process.Sessions
import Rfx.Process.Reload
import Rfx.Process.Transparency
import Rfx.Process.Shipped
import Rfx.Process.Isolation
import Rfx.Session
import Rfx.Session.Routing
import Rfx.Session.Points
import Rfx.Session.Callbacks
import Rfx.Session.Watchers
import Rfx.Session.Reclaim
import Rfx.Session.Transparency
import Rfx.Session.Received
import Rfx.Session.Forwarding
import Rfx.Session.Ownership
import Rfx.Session.Teardown
import Rfx.Session.Shipped
import Rfx.Library.Merges
import Rfx.Session.Commands
import Rfx.Session.Order
import Rfx.Session.Dropped
import Rfx.Module
import Rfx.Module.Consistency
import Rfx.Module.Reload
import Rfx.Library.Calls
import Rfx.Ini
import Rfx.Library.Span
import Rfx.Ini.RoundTrip
import Rfx.Ini.Files
import Rfx.Mconf
import Rfx.Mconf.Requests
import Rfx.Library.Unique
import Rfx.Library.Getopt
import Rfx.Mconf.Setters
import Rfx.Mconf.Registration
import Rfx.Mconf.Accounting
import Rfx.Library.Assign
import Rfx.Mconf.Atomicity
import Rfx.Mconf.Printers
import Rfx.Mconf.Help
import Rfx.Mconf.Description
import Rfx.Mconf.Termination
import Rfx.Mconf.LineBuffer
import Rfx.Mconf.HelpText
import Rfx.Mconf.Dispatch
import Rfx.Mconf.Precedence
import Rfx.Mconf.Rejection
import Rfx.Mconf.ConfigPath
import Rfx.Mconf.Numbers
import Rfx.Mconf.RoundTrip
import Rfx.Mconf.Logging
import Rfx.Library.Loop
import Rfx.Descriptor
import Rfx.Sock
import Rfx.Sock.WriteFull
import Rfx.Sock.WritevFull
import Rfx.Sock.Address
import Rfx.Misc
import Rfx.Misc.ReadFile
import Rfx.Misc.UriDecode
import Rfx.Misc.Hexdump
