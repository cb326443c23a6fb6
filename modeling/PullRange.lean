import PullRange.Proofs.AcceptedSizes
import PullRange.Proofs.Accounts
import PullRange.Proofs.Ageing
import PullRange.Proofs.Answers
import PullRange.Proofs.Bounds
import PullRange.Proofs.ChunkedAnswers
import PullRange.Proofs.Chunking
import PullRange.Proofs.Consumers
import PullRange.Proofs.Cursors
import PullRange.Proofs.DrainTrace
import PullRange.Proofs.EndedRanges
import PullRange.Proofs.EntryOrder
import PullRange.Proofs.EnvironmentSettings
import PullRange.Proofs.Exhaustion
import PullRange.Proofs.Frames
import PullRange.Proofs.Holding
import PullRange.Proofs.Interleaving
import PullRange.Proofs.Interruptions
import PullRange.Proofs.Literals
import PullRange.Proofs.Lending
import PullRange.Proofs.Lockstep
import PullRange.Proofs.Moving
import PullRange.Proofs.NearestDoubles
import PullRange.Proofs.Ownership
import PullRange.Proofs.PartialLoops
import PullRange.Proofs.Pulling
import PullRange.Proofs.RefillSchedule
import PullRange.Proofs.Refills
import PullRange.Proofs.Relocation
import PullRange.Proofs.ResourceProtocol
import PullRange.Proofs.Settings
import PullRange.Proofs.StaleDrivers
import PullRange.Proofs.StoreLockstep
import PullRange.Proofs.StoredScripts
import PullRange.Proofs.Towers
import PullRange.Proofs.TraceFailures
import PullRange.Proofs.TracedPulls
import PullRange.Proofs.Tracing
import PullRange.Proofs.Traversal
import PullRange.Proofs.WellFormedBuffers
import PullRange.Proofs.WholeLines
import PullRange.Session
