import TaceChat.Proofs.Acknowledged
import TaceChat.Proofs.Alone
import TaceChat.Proofs.ApiRetries
import TaceChat.Proofs.AppendOnly
import TaceChat.Proofs.Averages
import TaceChat.Proofs.ChatWindow
import TaceChat.Proofs.CopyBound
import TaceChat.Proofs.CrashRecovery
import TaceChat.Proofs.DeadlockFreedom
import TaceChat.Proofs.Delivery
import TaceChat.Proofs.Founding
import TaceChat.Proofs.HandOff
import TaceChat.Proofs.HexParsing
import TaceChat.Proofs.IdArithmetic
import TaceChat.Proofs.InboundConnections
import TaceChat.Proofs.LimiterSlots
import TaceChat.Proofs.LoadFeedback
import TaceChat.Proofs.Mailbox
import TaceChat.Proofs.MalformedInput
import TaceChat.Proofs.Migrations
import TaceChat.Proofs.NodeInvariant
import TaceChat.Proofs.Notifications
import TaceChat.Proofs.PollAuthorization
import TaceChat.Proofs.PredecessorRace
import TaceChat.Proofs.PrimaryAgreement
import TaceChat.Proofs.Progress
import TaceChat.Proofs.ReadTermination
import TaceChat.Proofs.ReplicaSelection
import TaceChat.Proofs.RingArcs
import TaceChat.Proofs.RingInvariant
import TaceChat.Proofs.SelfReference
import TaceChat.Proofs.ShownOnce
import TaceChat.Proofs.StoreCalls
import TaceChat.Proofs.TakeOver
import TaceChat.Proofs.WayBack
