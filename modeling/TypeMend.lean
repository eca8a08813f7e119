import TypeMend.LogFormat
import TypeMend.Main
import TypeMend.Proofs.Acceptance
import TypeMend.Proofs.CommandWrites
import TypeMend.Proofs.Coverage
import TypeMend.Proofs.DeclaredShape
import TypeMend.Proofs.Dialogue
import TypeMend.Proofs.DiscoveryOrder
import TypeMend.Proofs.FirstVisits
import TypeMend.Proofs.HunkRanges
import TypeMend.Proofs.Indentation
import TypeMend.Proofs.LayerStack
import TypeMend.Proofs.LinePositions
import TypeMend.Proofs.LongestCommon
import TypeMend.Proofs.MemberLayout
import TypeMend.Proofs.MemberLinks
import TypeMend.Proofs.Members
import TypeMend.Proofs.NearestMember
import TypeMend.Proofs.OnePass
import TypeMend.Proofs.PassedOver
import TypeMend.Proofs.PatchOrder
import TypeMend.Proofs.Repeats
import TypeMend.Proofs.RoundTrip
import TypeMend.Proofs.ShapeFindings
import TypeMend.Proofs.StrayTypes
import TypeMend.Proofs.Transcript
import TypeMend.Proofs.TransparentLookups
import TypeMend.Proofs.TreeWrites
import TypeMend.Proofs.UnifiedDiff
import TypeMend.Proofs.Widening
import TypeMend.Proofs.WordsAndMembers
import TypeMend.Proofs.WrittenRanges
