import LanggraphTemporal.Model.Activities
import LanggraphTemporal.Model.Reference
import LanggraphTemporal.Machine.Channels
import LanggraphTemporal.Machine.Reference
import LanggraphTemporal.Properties.ApprovalGate
import LanggraphTemporal.Properties.Versions
import LanggraphTemporal.Properties.Interrupts
import LanggraphTemporal.Properties.Gotos
import LanggraphTemporal.Properties.Dispatch
import LanggraphTemporal.Properties.Affinity
import LanggraphTemporal.Machine.Lockstep
import LanggraphTemporal.Properties.ContinueAsNew
import LanggraphTemporal.Machine.Chains
import LanggraphTemporal.Properties.Completion
import LanggraphTemporal.Properties.StickyQueue
import LanggraphTemporal.Properties.Updates
import LanggraphTemporal.Properties.SeenVersions
import LanggraphTemporal.Model.Registry
import LanggraphTemporal.Properties.GraphRefs
import LanggraphTemporal.Properties.SubgraphWrites
import LanggraphTemporal.Machine.Waits
import LanggraphTemporal.Machine.Trees
import LanggraphTemporal.Properties.NestedAffinity
import LanggraphTemporal.Properties.NestedInterrupts
import LanggraphTemporal.Machine.Starts
import LanggraphTemporal.Properties.GotoPayloads
import LanggraphTemporal.Theory.Attempts
import LanggraphTemporal.Properties.Retries
import LanggraphTemporal.Properties.ReportedInterrupts
import LanggraphTemporal.Properties.InterruptedAttempts
import LanggraphTemporal.Theory.Tail
import LanggraphTemporal.Properties.Streaming
import LanggraphTemporal.Theory.CoroutineRequests
import LanggraphTemporal.Properties.ReplayDeterminism
import LanggraphTemporal.Theory.CoroutineInvariant
import LanggraphTemporal.Theory.Transcript
import LanggraphTemporal.Machine.Children
import LanggraphTemporal.Properties.SubagentRequests
import LanggraphTemporal.Properties.ChildIds
import LanggraphTemporal.Properties.UntrackedValues
import LanggraphTemporal.Model.Graph
import LanggraphTemporal.Properties.InterruptSettings
import LanggraphTemporal.Properties.NodeReads
import LanggraphTemporal.Model.Streaming
import LanggraphTemporal.Properties.StreamModes
import LanggraphTemporal.Properties.UpdateEvents
import LanggraphTemporal.Properties.Polling
import LanggraphTemporal.Theory.CoroutineTraces
import LanggraphTemporal.Model.Codec
import LanggraphTemporal.Model.Encryption
import LanggraphTemporal.Properties.PayloadOffloading
import LanggraphTemporal.Properties.ToolReplies
import LanggraphTemporal.Properties.PayloadEncryption
import LanggraphTemporal.Model.Checkpoint
import LanggraphTemporal.Properties.CheckpointReads
import LanggraphTemporal.Properties.CheckpointIds
import LanggraphTemporal.Model.Serde
import LanggraphTemporal.Properties.StateDecoding
import LanggraphTemporal.Model.Worker
import LanggraphTemporal.Properties.WorkerGroups
import LanggraphTemporal.Properties.WorkerQueues
import LanggraphTemporal.Machine.Meaning
import LanggraphTemporal.Model.Threads
import LanggraphTemporal.Properties.BulkSynchronous
import LanggraphTemporal.Properties.ThreadSafety
import LanggraphTemporal.Machine.Streams
import LanggraphTemporal.Properties.ClientSettings
import LanggraphTemporal.Properties.InFlight
import LanggraphTemporal.Properties.QueryAnswers
import LanggraphTemporal.Properties.SuperstepLedger
import LanggraphTemporal.Machine.Progress
import LanggraphTemporal.Model.NestedMeaning
import LanggraphTemporal.Properties.NestedMeaning
import LanggraphTemporal.Properties.TreeProgress
import LanggraphTemporal.Model.Deployment
import LanggraphTemporal.Properties.QueueFiles
import LanggraphTemporal.Model.BlobCalls
import LanggraphTemporal.Properties.BlobDeletion
