import UsbWs.Lib.Runs
import UsbWs.Frame
import UsbWs.Loop
import UsbWs.Grammar
import UsbWs.Suspension
import UsbWs.Registration
import UsbWs.Reuse
import UsbWs.AuthorizedAdd
import UsbWs.Lib.Machine
import UsbWs.Authorize
import UsbWs.PrintTable
import UsbWs.Lib.Checked
import UsbWs.Crypto
import UsbWs.Envelope
import UsbWs.Lib.Inbox
import UsbWs.Delivery
import UsbWs.Serial
import UsbWs.SerialStream
import UsbWs.Lib.Base64
import UsbWs.Cli
import UsbWs.IdFormat
import UsbWs.Recycling
import UsbWs.WireRefines
import UsbWs.Return
import UsbWs.Completion
import UsbWs.Hostile
import UsbWs.Accept
import UsbWs.Partners
import UsbWs.SerialRest
import UsbWs.SerialLoss
import UsbWs.Backpressure
import UsbWs.Stat
import UsbWs.Startup
import UsbWs.Visits
import UsbWs.Command
