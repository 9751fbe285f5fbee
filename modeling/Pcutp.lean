import Pcutp.Names
import Pcutp.Fetch
import Pcutp.WholeBody
import Pcutp.Footprint
import Pcutp.Compression
import Pcutp.CompressionRoundTrip
import Pcutp.Decoder
import Pcutp.Lib.Memory
import Pcutp.Lib.Reflect
import Pcutp.Picocalc.UnpackLZ4
import Pcutp.Picocalc.CrcBoth
import Pcutp.Lines
import Pcutp.Flow
import Pcutp.Frames
import Pcutp.Server
import Pcutp.ServerSteps
import Pcutp.Transfer
import Pcutp.Genuine
import Pcutp.Integrity
import Pcutp.Stages
import Pcutp.Recovery
import Pcutp.Rejections
import Pcutp.BlockRules
import Pcutp.Credit
import Pcutp.Polite
import Pcutp.Accusation
import Pcutp.Lossless
import Pcutp.Verdict
import Pcutp.Complete
import Pcutp.LostAcks
import Pcutp.StopWait
import Pcutp.Storage
import Pcutp.Link
import Pcutp.Handshake
import Pcutp.Negotiation
import Pcutp.Greeting
import Pcutp.Lib.Machine
import Pcutp.Lib.Transition
import Pcutp.Lib.Channel
import Pcutp.Lib.Timed
import Pcutp.Lib.Spacing
import Pcutp.Client
import Pcutp.ClientInvariant
import Pcutp.Sidecar
import Pcutp.ClientSteps
import Pcutp.Teardown
import Pcutp.Survival
import Pcutp.SurvivalStages
import Pcutp.KeepAlive
import Pcutp.Diagnosis
import Pcutp.Direction
import Pcutp.Freshness
import Pcutp.Echo
import Pcutp.ProbeNumbers
import Pcutp.Serving
import Pcutp.HelloAnswered
import Pcutp.ErrLines
import Pcutp.SendWindow
import Pcutp.Accounting
import Pcutp.BoundedWork
import Pcutp.Congestion
import Pcutp.Outlasting
import Pcutp.Adrift
import Pcutp.Charted
import Pcutp.RestartHonoured
import Pcutp.NameGrammar
import Pcutp.LineLimit
import Pcutp.Picocalc.Reader
import Pcutp.Picocalc.WholeLines
import Pcutp.Picocalc.Session
import Pcutp.Picocalc.Between
import Pcutp.Picocalc.IdleState
import Pcutp.Picocalc.Heartbeat
import Pcutp.Picocalc.Call
import Pcutp.Picocalc.Overheard
import Pcutp.Picocalc.CallStages
import Pcutp.Picocalc.Identity
import Pcutp.Picocalc.Fields
import Pcutp.Picocalc.Turns
import Pcutp.Picocalc.Disk
import Pcutp.Picocalc.Saved
import Pcutp.Picocalc.Headers
import Pcutp.Picocalc.Alike
import Pcutp.Picocalc.TwoReceivers
import Pcutp.Picocalc.Contents
import Pcutp.Picocalc.Sent
import Pcutp.ByteLine
import Pcutp.Followed
import Pcutp.LostByte
import Pcutp.Picocalc.Bisimilar
import Pcutp.Picocalc.Spelling
import Pcutp.Picocalc.Wired
import Pcutp.Picocalc.Delivered
