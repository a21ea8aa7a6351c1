import MobiusAgent.JsonValue
import MobiusAgent.ProtocolEvents
import MobiusAgent.CheckpointRecords
import MobiusAgent.RecorderLoop
import MobiusAgent.RecorderStream
import MobiusAgent.CheckpointValidation
import MobiusAgent.StoreTables
import MobiusAgent.StoreTransactions
import MobiusAgent.StoreContext
import MobiusAgent.StoreRefinement
import MobiusAgent.StoreAcceptance
import MobiusAgent.StoreConnections
import MobiusAgent.AgentAccounting
import MobiusAgent.AgentApproval
import MobiusAgent.AgentModelStep
import MobiusAgent.AgentRollback
import MobiusAgent.AgentRouting
import MobiusAgent.AgentToolSteps
import MobiusAgent.HookDelivery
import MobiusAgent.PairingRuns
import MobiusAgent.SessionDispatch
import MobiusAgent.StoreJournal
import MobiusAgent.StoreTurnPages
import MobiusAgent.CompactionCounts
import MobiusAgent.MessageReload
import MobiusAgent.ResponsesSocket
import MobiusAgent.RoutineInvocations
import MobiusAgent.BindingMirror
import MobiusAgent.ProviderReplay
import MobiusAgent.SandboxOrder
import MobiusAgent.FrameCodec
import MobiusAgent.DeletedSessions
import MobiusAgent.PatchEdits
import MobiusAgent.ArgumentRepairs
import MobiusAgent.ForkedContexts
import MobiusAgent.CompactionRetention
import MobiusAgent.CallResults
import MobiusAgent.DelimitedStreams
import MobiusAgent.SseFraming
import MobiusAgent.PrefixCovers
import MobiusAgent.StorageUsage
import MobiusAgent.SharedContexts
import MobiusAgent.CatalogCache
import MobiusAgent.StoredCredentials
import MobiusAgent.UsageRecords
import MobiusAgent.SessionWorkers
import MobiusAgent.JsonStrings
import MobiusAgent.MemoryScopes
import MobiusAgent.CheckedNumbers
import MobiusAgent.ImageScaling
import MobiusAgent.ContextEstimates
import MobiusAgent.OutputCapping
import MobiusAgent.BackgroundCommands
import MobiusAgent.BackgroundCompletion
import MobiusAgent.HookChains
import MobiusAgent.QueueRuns
import MobiusAgent.AgentGuidance
