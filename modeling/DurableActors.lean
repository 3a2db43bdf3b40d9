import DurableActors.Ports.Failover
import DurableActors.Ports.LogDurability
import DurableActors.Ports.TransactionRollback
import DurableActors.Ports.HostReply
import DurableActors.Ports.DispatchOnce
import DurableActors.Ports.CompletionOrder
import DurableActors.Ports.DatabaseReload
import DurableActors.Ports.MailboxOrder
import DurableActors.Ports.RapidWrites
import DurableActors.Ports.LeaseFence
import DurableActors.Ports.SnapshotNames
import DurableActors.Ports.Capabilities
import DurableActors.Ports.UsageBilling
import DurableActors.Ports.AlarmAgreement
import DurableActors.Ports.StartRate
import DurableActors.Ports.AdmissionOrder
import DurableActors.Ports.RouteScripts
import DurableActors.Ports.AutoResponses
import DurableActors.Ports.SocketDelivery
import DurableActors.Ports.LogFrameLaw
import DurableActors.Ports.SnapshotFormat
