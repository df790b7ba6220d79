import ConditionalForms.Audit.Review
import ConditionalForms.Author.Draft
import ConditionalForms.Document.Text
import ConditionalForms.Fill.Session
import ConditionalForms.Main
import ConditionalForms.Proofs.Fill.Cursor
import ConditionalForms.Proofs.Form.Name
import ConditionalForms.Proofs.Number.Exact
import ConditionalForms.Proofs.Number.Nearest
import ConditionalForms.Proofs.Number.Order
import ConditionalForms.Proofs.Value.Number
import ConditionalForms.Proofs.Rule.Clean
import ConditionalForms.Proofs.Form.Normal
import ConditionalForms.Proofs.Document.Entry
import ConditionalForms.Proofs.Document.Reload
import ConditionalForms.Proofs.Document.RoundTrip
import ConditionalForms.Proofs.Document.Constraints
import ConditionalForms.Proofs.Document.Shapes
import ConditionalForms.Proofs.Agreement
import ConditionalForms.Proofs.Fill.Alike
import ConditionalForms.Proofs.Rule.Evaluate
import ConditionalForms.Proofs.Rule.Reference
import ConditionalForms.Proofs.Fill.Reload
import ConditionalForms.Proofs.Fill.Failure
import ConditionalForms.Proofs.Fill.Ledger
import ConditionalForms.Proofs.Form.FreeName
import ConditionalForms.Proofs.Author.Loss
import ConditionalForms.Proofs.Author.Sound
import ConditionalForms.Proofs.Audit.Errors
import ConditionalForms.Proofs.Audit.Handover
import ConditionalForms.Proofs.Audit.Saved
import ConditionalForms.Proofs.Audit.WellFounded
import ConditionalForms.Proofs.Audit.Waiting
import ConditionalForms.Proofs.Audit.Usage
import ConditionalForms.Proofs.Number.Ratio
import ConditionalForms.Proofs.Number.Shortest
import ConditionalForms.Proofs.Number.Spelling
import ConditionalForms.Proofs.Json.Number
import ConditionalForms.Proofs.Json.Text
import ConditionalForms.Proofs.Value.Sorted
import ConditionalForms.Proofs.Json.RoundTrip
import ConditionalForms.Proofs.Json.Canonical
import ConditionalForms.Proofs.Document.Members
import ConditionalForms.Proofs.Document.Sorted
import ConditionalForms.Proofs.Document.Failure
import ConditionalForms.Proofs.Document.Nameless
import ConditionalForms.Proofs.Document.Fault
import ConditionalForms.Proofs.Document.Reading
import ConditionalForms.Proofs.Document.Loaded
import ConditionalForms.Proofs.Document.FixedPoint
import ConditionalForms.Proofs.Fill.Separation
import ConditionalForms.Proofs.Form.Projection
import ConditionalForms.Proofs.Fill.Navigation
import ConditionalForms.Proofs.Fill.Repetition
import ConditionalForms.Proofs.Fill.Findings
import ConditionalForms.Proofs.Document.Origin
import ConditionalForms.Proofs.Document.Filling
import ConditionalForms.Proofs.Rule.Resolution
import ConditionalForms.Proofs.Rule.Comparison
import ConditionalForms.Proofs.Audit.Failure
import ConditionalForms.Proofs.Value.Fault
import ConditionalForms.Proofs.Fill.Required
import ConditionalForms.Proofs.Form.Derived
import ConditionalForms.Proofs.Form.Slug
import ConditionalForms.Proofs.Author.Naming
import ConditionalForms.Proofs.Document.Buckets
import ConditionalForms.Proofs.Document.Grouping
import ConditionalForms.Proofs.Document.Order
import ConditionalForms.Proofs.Author.Reorder
import ConditionalForms.Proofs.Fill.Roster
import ConditionalForms.Proofs.Rule.Name
import ConditionalForms.Proofs.Author.Reachable
import ConditionalForms.Proofs.Rule.Survivor
