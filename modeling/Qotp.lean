import Qotp.Framework.Run
import Qotp.Framework.Word
import Qotp.Framework.Slice
import Qotp.Framework.InsertionMap
import Qotp.Framework.SortedAssoc
import Qotp.Framework.LittleEndian
import Qotp.Wire.Codec
import Qotp.Wire.Proto
import Qotp.Crypto.Messages
import Qotp.Conn.Listener
import Qotp.Crypto.Plain
import Qotp.Conn.NonceUse
import Qotp.Buffer.ReceiveSafe
import Qotp.Buffer.SendInv
import Qotp.Buffer.SendRun
import Qotp.System.Transfer
import Qotp.Conn.DecodeSafe
import Qotp.Conn.Effects
import Qotp.Buffer.InFlight
import Qotp.Buffer.SendClose
import Qotp.Conn.Endpoint
import Qotp.Conn.InFlight
import Qotp.Conn.KeyChange
import Qotp.Conn.PinnedIdentity
import Qotp.Buffer.ReceiveFaithful
import Qotp.Wire.RoundTrip
import Qotp.Buffer.ReceiveEnd
import Qotp.Conn.EndpointFrame
import Qotp.System.Link
import Qotp.System.EndOfStream
import Qotp.Wire.Accept
import Qotp.Wire.Grammar
import Qotp.Crypto.OpenSealed
import Qotp.Conn.Rejection
import Qotp.Conn.PendingAcks
import Qotp.System.AckOfAck
import Qotp.Buffer.SortedMapRefine
import Qotp.Buffer.LinkedMapRefine
import Qotp.Conn.StableIds
import Qotp.Conn.Loop
import Qotp.System.Deadlock
import Qotp.System.KeyAgreement
import Qotp.Conn.Congestion
import Qotp.Buffer.ReceiveSize
import Qotp.Buffer.SendAckable
import Qotp.Conn.ClosedMark
import Qotp.Conn.IdleCollect
import Qotp.Conn.Fairness
import Qotp.Wire.RcvWindow
import Qotp.Conn.WriteReport
import Qotp.Buffer.ReceiveClash
import Qotp.Buffer.ReceiveReack
import Qotp.Buffer.SendSize
import Qotp.Buffer.SendEnd
import Qotp.Buffer.SendRetry
import Qotp.Buffer.SendRetryRun
import Qotp.Conn.DatagramSize
import Qotp.Conn.StreamWindow
import Qotp.Framework.Simulation
import Qotp.Framework.Cells
import Qotp.Conn.SessionMsg
import Qotp.Buffer.Unsplit
import Qotp.Conn.Unsplit
import Qotp.Conn.SendHeld
import Qotp.Conn.Authentic
import Qotp.Conn.Sound
import Qotp.Conn.Answer
import Qotp.Conn.DatagramFits
import Qotp.Conn.FlushCalls
import Qotp.System.Session
import Qotp.System.SessionTrust
import Qotp.System.Channel
import Qotp.System.SessionRefine
import Qotp.System.NeverCut
import Qotp.System.Conservation
import Qotp.System.SessionConserves
import Qotp.System.Unsplit
import Qotp.System.NeverPanics
import Qotp.System.HandshakeLive
import Qotp.System.Network
import Qotp.System.Scheduler
import Qotp.System.Shutdown
import Qotp.System.OnPath
