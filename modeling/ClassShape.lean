import ClassShape.ClassRecord
import ClassShape.Json.Reader
import ClassShape.Main
import ClassShape.Proofs.Accounting
import ClassShape.Proofs.Attributes
import ClassShape.Proofs.Batches
import ClassShape.Proofs.BodyTokens
import ClassShape.Proofs.Canonical.Unit
import ClassShape.Proofs.Checked.Access
import ClassShape.Proofs.Checked.Bodies
import ClassShape.Proofs.Checked.Comments
import ClassShape.Proofs.Checked.Members
import ClassShape.Proofs.Checked.Tables
import ClassShape.Proofs.Checked.Unit
import ClassShape.Proofs.CleanRecords
import ClassShape.Proofs.Conformance
import ClassShape.Proofs.Conservation
import ClassShape.Proofs.Contents
import ClassShape.Proofs.Disclosure
import ClassShape.Proofs.Disk.Collecting
import ClassShape.Proofs.Fragments
import ClassShape.Proofs.Headers
import ClassShape.Proofs.Joined
import ClassShape.Proofs.Json.Reports
import ClassShape.Proofs.Layout
import ClassShape.Proofs.LineNumbers
import ClassShape.Proofs.Matching
import ClassShape.Proofs.MaximalMunch
import ClassShape.Proofs.Methods
import ClassShape.Proofs.Nesting
import ClassShape.Proofs.OnePass
import ClassShape.Proofs.PoolLaws
import ClassShape.Proofs.ReportLines
import ClassShape.Proofs.Runs
import ClassShape.Proofs.SignatureText
import ClassShape.Proofs.Spacing.Unit
import ClassShape.Proofs.Swapping
import ClassShape.Proofs.Utf8
