import ClockTree.Main
import ClockTree.Proofs.ClockPair
import ClockTree.Proofs.ExactLegality
import ClockTree.Proofs.Narrowing
import ClockTree.Proofs.Annotation
import ClockTree.Proofs.Binary64.Approximation
import ClockTree.Proofs.ExactAnnotation
import ClockTree.Proofs.StandardSearch
import ClockTree.Proofs.WarningLevel
import ClockTree.Proofs.Rows
import ClockTree.Proofs.UnstableRamDivider
import ClockTree.Proofs.SearchOutcome
import ClockTree.Proofs.LexicographicRanking
import ClockTree.Proofs.LowestDivider
import ClockTree.Proofs.TableText
import ClockTree.Proofs.LegalMultipliers
import ClockTree.Proofs.OwnDivider
import ClockTree.Proofs.StorageRemark
import ClockTree.Proofs.ZeroDivider
import ClockTree.Proofs.CoupledClocks
import ClockTree.Proofs.RenderOutcome
import ClockTree.Proofs.CandidateSequence
import ClockTree.Proofs.Validation
import ClockTree.Proofs.NumberText
import ClockTree.Proofs.RowIdentity
import ClockTree.Proofs.NoteText
import ClockTree.Proofs.Numeral
import ClockTree.Proofs.Binary64.NearestTenth
import ClockTree.Proofs.PrintedOrder
import ClockTree.Proofs.ExactClocks
import ClockTree.Proofs.HeaderAlignment
