import GuestSync.Command.Copy
import GuestSync.Command.Extract
import GuestSync.Main
import GuestSync.Proofs.Convergence
import GuestSync.Proofs.PushPull
import GuestSync.Proofs.SourceLoss
import GuestSync.Proofs.MemberScan
import GuestSync.Proofs.PathMaking
import GuestSync.Proofs.MissingDestination
import GuestSync.Proofs.RunPairs
import GuestSync.Proofs.StraightPaths
import GuestSync.Proofs.DryRunPredicts
import GuestSync.Proofs.Idempotence
import GuestSync.Proofs.Sprouting
import GuestSync.Proofs.PlainPass
import GuestSync.Proofs.SourceSafety
import GuestSync.Proofs.DestinationContent
import GuestSync.Proofs.WholeChanges
import GuestSync.Proofs.EntryPlaces
import GuestSync.Proofs.EntryRuns
import GuestSync.Proofs.TextContents
import GuestSync.Proofs.DistinctSubdirs
import GuestSync.Proofs.ProperNames
import GuestSync.Proofs.Confinement
import GuestSync.Proofs.PlanDecisions
import GuestSync.Proofs.RunVisits
import GuestSync.Proofs.LateDeletions
import GuestSync.Proofs.TagOrder
import GuestSync.Proofs.Counters
import GuestSync.Proofs.TextConversion
import GuestSync.Proofs.MemberLines
import GuestSync.Proofs.MemberValues
import GuestSync.Proofs.TableSelection
import GuestSync.Proofs.LastHeader
import GuestSync.Proofs.TableReading
import GuestSync.Proofs.SuffixGrammar
import GuestSync.Proofs.ReasonRanking
