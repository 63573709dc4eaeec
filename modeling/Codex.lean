import Codex.PatchStream
import Codex.RollbackFacts
import Codex.ModelContextFacts
import Codex.WriterFacts
import Codex.CompressionFacts
import Codex.ForkTurns
import Codex.UserTruncation
import Codex.WorldStatePatches
import Codex.RollbackViews
import Codex.ItemNumbers
import Codex.ThreadFollowing
import Codex.ExecApproval
import Codex.PatchVerify
import Codex.MemoryLeases
import Codex.PolicyMigration
import Codex.LiveThread
import Codex.LineagePages
import Codex.OrderedDelivery
import Codex.MessageFraming
import Codex.TurnDiffFacts
import Codex.StreamTextFacts
import Codex.PatchRender
import Codex.PolicyEquivalence
import Codex.GrantBounds
import Codex.EntryOrder
import Codex.Normalize
import Codex.CallPairs
import Codex.StreamedHunks
import Codex.Utf8Stream
import Codex.TagLines
import Codex.MountViews
import Codex.StdinWrites
import Codex.BlockedRecords
import Codex.NetworkEdits
import Codex.AllowlistBounds
import Codex.OutboundBuffer
import Codex.ClientLifetimes
import Codex.EventRecovery
import Codex.ClientReassembly
import Codex.ClientSupersession
import Codex.EnvelopeSplitting
import Codex.FailedRecovery
import Codex.ProcessOutput
import Codex.ProcessPages
import Codex.AgentReservations
import Codex.Residency
import Codex.CellState
import Codex.CellOutcome
import Codex.CellActor
import Codex.CellOutput
import Codex.ConfigMerge
import Codex.ConfigCanonical
import Codex.ConfigSpelling
import Codex.ConfigUnion
import Codex.ConfigLayers
import Codex.Requirements
import Codex.Restrictions
import Codex.HistoryBatches
import Codex.SearchPages
import Codex.ForeignMetas
import Codex.ForkStranding
import Codex.RenameSurvival
import Codex.OutputDeltas
import Codex.PatchBounds
import Codex.PatchOverlaps
import Codex.PatchRewriting
import Codex.PatchSearch
import Codex.SnapshotNames
import Codex.GoalBudgets
import Codex.ListedOnce
import Codex.AbsolutePaths
import Codex.TypedOrder
import Codex.NetworkRules
import Codex.HeadTailBuffer
import Codex.MiddleTruncation
import Codex.ReverseJsonl
import Codex.SafeCommands
import Codex.TurnDiffOrder
import Codex.ApprovedAmendments
import Codex.ProjectRoots
import Codex.AdditionalRoots
import Codex.WorldStateRuns
