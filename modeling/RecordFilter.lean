import RecordFilter.Query.Session
import RecordFilter.Proofs.Literal.Expressible
import RecordFilter.Proofs.Literal.List
import RecordFilter.Proofs.Predicate.Asking
import RecordFilter.Proofs.Predicate.Building
import RecordFilter.Proofs.Predicate.Evaluation
import RecordFilter.Proofs.Predicate.Order
import RecordFilter.Proofs.Predicate.Regrouping
import RecordFilter.Proofs.Query.Layout
import RecordFilter.Proofs.Query.Limit
import RecordFilter.Proofs.Query.RoundTrip
import RecordFilter.Proofs.Query.Structure
import RecordFilter.Proofs.Stream.Offence
import RecordFilter.Value.Shown
import RecordFilter.Proofs.Literal.Instant
import RecordFilter.Proofs.Predicate.Membership
import RecordFilter.Proofs.Query.FieldName
import RecordFilter.Proofs.Predicate.Foreign
import RecordFilter.Proofs.Literal.Acceptance
import RecordFilter.Proofs.Predicate.Pairing
import RecordFilter.Proofs.Literal.Position
import RecordFilter.Proofs.Record.Pairs
import RecordFilter.Proofs.Record.Path
import RecordFilter.Proofs.Literal.Splitting
import RecordFilter.Proofs.Literal.Conversion
import RecordFilter.Proofs.Literal.Day
import RecordFilter.Proofs.Predicate.Runs
import RecordFilter.Proofs.Query.Halting
import RecordFilter.Proofs.Literal.InStep
