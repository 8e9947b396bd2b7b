import Folio.RestartFile
import Folio.WalReplayed
import Folio.LedgerCalls
import Folio.LedgerDurability
import Folio.NodeFence
import Folio.WalGc
import Folio.RegistryCas
import Folio.EntryCopies
import Folio.FlushLoop
import Folio.OffloadSafety
import Folio.AppendIntegrity
import Folio.WriterBookkeeping
import Folio.FencingSafety
import Folio.SealedLedger
import Folio.FencerProgram
import Folio.RecoveryWorker
import Folio.ClosedLedger
import Folio.EtcdLinearized
import Folio.ScanTermination
import Folio.ChangeFragment
import Folio.NodeRegistry
import Folio.HealthStatus
import Folio.TieredReader
import Folio.RestoreOutcome
import Folio.NodeFailure
import Folio.LedgerCache
import Folio.RecordCodec
import Folio.TextCodec
import Folio.Transport
import Folio.AddValidation
import Folio.FenceMark
import Folio.SegmentIds
import Folio.BlockReads
import Folio.BlockCoherence
import Folio.EntryRecovery
import Folio.RecoverTwice
import Folio.JournalAcks
import Folio.BootHandover
import Folio.CacheAccounting
import Folio.LedgerRanges
import Folio.Scrubber
import Folio.RelyGuarantee
import Folio.OffloadRequests
import Folio.S3Upload
import Folio.OffloadPass
import Folio.OffloadedReads
import Folio.LacWaiters
import Folio.HedgedRead
import Folio.LedgerReads
import Folio.Bincode
import Folio.EncodedTable
import Folio.Keyspace
import Folio.RegistryRows
import Folio.Auditor
import Folio.AppendAnswers
import Folio.AppendAvailability
import Folio.NodeLinearized
import Folio.NodeViews
import Folio.Handoff
import Folio.SharedHandles
import Folio.AuditorRuns
import Folio.AuditorEvents
import Folio.DeletedLedger
