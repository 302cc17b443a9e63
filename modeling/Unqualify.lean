import Unqualify.Edit.Reading
import Unqualify.Main
import Unqualify.Proofs.Agreement
import Unqualify.Proofs.Batch.Overlap
import Unqualify.Proofs.Batch.Selection
import Unqualify.Proofs.CharacterBoundary
import Unqualify.Proofs.Component
import Unqualify.Proofs.Conflict
import Unqualify.Proofs.Diff.Hunk
import Unqualify.Proofs.Edit.Listing
import Unqualify.Proofs.ExitCode
import Unqualify.Proofs.Fault
import Unqualify.Proofs.Idempotence
import Unqualify.Proofs.Import.RunTime
import Unqualify.Proofs.Import.TrailingComment
import Unqualify.Proofs.LineEnd
import Unqualify.Proofs.MemberSet.Order
import Unqualify.Proofs.Skipping
import Unqualify.Proofs.StandardInput
import Unqualify.Proofs.Tag
import Unqualify.Report.Reading
import Unqualify.Report.Timestamp
import Unqualify.Proofs.Diff.Unified
import Unqualify.Proofs.Diff.Distinction
