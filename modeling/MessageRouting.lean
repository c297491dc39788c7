import MessageRouting.Address
import MessageRouting.Address.Pattern
import MessageRouting.Binding
import MessageRouting.Binding.Registry
import MessageRouting.Broker.Command
import MessageRouting.Broker.Completion
import MessageRouting.Broker.Delivering
import MessageRouting.Broker.Journal
import MessageRouting.Broker.Opening
import MessageRouting.Broker.Routing
import MessageRouting.Broker.Staging
import MessageRouting.Broker.State
import MessageRouting.Decimal.Binary64
import MessageRouting.Delivery
import MessageRouting.Duplicate.Cache
import MessageRouting.Duplicate.Stage
import MessageRouting.Error
import MessageRouting.Journal.Entry
import MessageRouting.Journal.File
import MessageRouting.Journal.Ledger
import MessageRouting.Journal.Line
import MessageRouting.Journal.Storage
import MessageRouting.Json.Reader
import MessageRouting.Json.Value
import MessageRouting.Json5.Reader
import MessageRouting.Json5.Value
import MessageRouting.Mailbox
import MessageRouting.Message
import MessageRouting.Notification
import MessageRouting.Office
import MessageRouting.Proofs.Binding.OrderedList
import MessageRouting.Proofs.Binding.PatternCoverage
import MessageRouting.Proofs.Binding.RunRegistries
import MessageRouting.Proofs.Broker.AlikeBrokers
import MessageRouting.Proofs.Broker.BetweenRequests
import MessageRouting.Proofs.Broker.BookSteps
import MessageRouting.Proofs.Broker.Books
import MessageRouting.Proofs.Broker.MoveFrames
import MessageRouting.Proofs.Broker.Moves
import MessageRouting.Proofs.Broker.RequestInvariants
import MessageRouting.Proofs.Broker.TrafficMoves
import MessageRouting.Proofs.Cache.Calmness
import MessageRouting.Proofs.Cache.Filling
import MessageRouting.Proofs.Cache.Operations
import MessageRouting.Proofs.Cache.Representation
import MessageRouting.Proofs.Cache.SlidingWindow
import MessageRouting.Proofs.Cache.Soundness
import MessageRouting.Proofs.Cache.TraceWindow
import MessageRouting.Proofs.District.Basic
import MessageRouting.Proofs.District.ExcerptParts
import MessageRouting.Proofs.District.Excerpts
import MessageRouting.Proofs.District.Independence
import MessageRouting.Proofs.District.NeighbourSends
import MessageRouting.Proofs.District.Routing
import MessageRouting.Proofs.Forwarding.BystanderDeliveries
import MessageRouting.Proofs.Forwarding.PairedCompletions
import MessageRouting.Proofs.Forwarding.RedistributionTargets
import MessageRouting.Proofs.Forwarding.UnforwardedRuns
import MessageRouting.Proofs.Journal.BrokenWrites
import MessageRouting.Proofs.Journal.EntryLines
import MessageRouting.Proofs.Journal.LedgerWrites
import MessageRouting.Proofs.Journal.LineFraming
import MessageRouting.Proofs.Journal.MemoryRefinement
import MessageRouting.Proofs.Journal.TornFiles
import MessageRouting.Proofs.Json.OpenBrackets
import MessageRouting.Proofs.Json.PrintedValues
import MessageRouting.Proofs.Json.ReaderFronts
import MessageRouting.Proofs.Persistence.AppendPlaces
import MessageRouting.Proofs.Persistence.AskedWrites
import MessageRouting.Proofs.Persistence.BranchCrashPoints
import MessageRouting.Proofs.Persistence.BranchRecords
import MessageRouting.Proofs.Persistence.BranchTurns
import MessageRouting.Proofs.Persistence.DurableVisibility
import MessageRouting.Proofs.Persistence.JournalMirror
import MessageRouting.Proofs.Persistence.MemoryShadow
import MessageRouting.Proofs.Persistence.ModeAgreement
import MessageRouting.Proofs.Persistence.NumbersInUse
import MessageRouting.Proofs.Persistence.OfficeWrites
import MessageRouting.Proofs.Persistence.OverlappingCommits
import MessageRouting.Proofs.Persistence.PreparedRecords
import MessageRouting.Proofs.Persistence.RecordNumbers
import MessageRouting.Proofs.Persistence.RecordsBeforehand
import MessageRouting.Proofs.Persistence.RolledBackRecords
import MessageRouting.Proofs.Persistence.SettledJournal
import MessageRouting.Proofs.Persistence.StrayRecords
import MessageRouting.Proofs.Restart.BranchSurvival
import MessageRouting.Proofs.Restart.FoundIdentifiers
import MessageRouting.Proofs.Restart.NewestRecords
import MessageRouting.Proofs.Restart.RecoveredBranches
import MessageRouting.Proofs.Restart.SequencesAcrossLives
import MessageRouting.Proofs.Restart.StartOutcomes
import MessageRouting.Proofs.Restart.StopToStart
import MessageRouting.Proofs.Routing.CallerView
import MessageRouting.Proofs.Routing.MessagePlacement
import MessageRouting.Proofs.Routing.RefusedCalls
import MessageRouting.Proofs.Routing.ServedCalls
import MessageRouting.Proofs.Routing.UnitsOfWork
import MessageRouting.Proofs.Routing.WaitingCalls
import MessageRouting.Proofs.Stage.Accounting
import MessageRouting.Proofs.Stage.Contention
import MessageRouting.Proofs.Stage.Custody
import MessageRouting.Proofs.Stage.Keepers
import MessageRouting.Proofs.Stage.SequenceOrder
import MessageRouting.Proofs.Text.CharacterBytes
import MessageRouting.Proofs.Transaction.CommitAtomicity
import MessageRouting.Proofs.Transaction.Deliveries
import MessageRouting.Proofs.Transaction.HookDiscipline
import MessageRouting.Proofs.Transaction.KeptBranches
import MessageRouting.Proofs.Transaction.OperationCalls
import MessageRouting.Proofs.Transaction.OperationPlaces
import MessageRouting.Proofs.Transaction.Outline
import MessageRouting.Proofs.Transaction.PhaseBooks
import MessageRouting.Proofs.Transaction.RollbackOnly
import MessageRouting.Proofs.Transaction.SingleMessages
import MessageRouting.Settings
import MessageRouting.Sorting
import MessageRouting.Table
import MessageRouting.Text.Hex
import MessageRouting.Text.Letter
import MessageRouting.Text.Quote
import MessageRouting.Text.Utf8
import MessageRouting.Transaction
import MessageRouting.Xid
