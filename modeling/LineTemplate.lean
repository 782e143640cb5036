import LineTemplate.Dict
import LineTemplate.Number.Layout
import LineTemplate.Text.Blank
import LineTemplate.Text.Cut
import LineTemplate.Text.Lines
import LineTemplate.Text.Replace
import LineTemplate.Value.Display
import LineTemplate.Value.Same
import LineTemplate.Failure
import LineTemplate.Directive
import LineTemplate.Reference
import LineTemplate.Render.Block
import LineTemplate.Survey
import LineTemplate.Json.Printer
import LineTemplate.Json.Reader
import LineTemplate.Json.Decode
import LineTemplate.Model
import LineTemplate.Stored.Failure
import LineTemplate.Stored.Registry
import LineTemplate.Stored.Table
import LineTemplate.Proofs.Dictionaries
import LineTemplate.Proofs.Tree
import LineTemplate.Proofs.TreeSemantics
import LineTemplate.Proofs.Passing
import LineTemplate.Proofs.Refinement
import LineTemplate.Proofs.MatchingEnds
import LineTemplate.Proofs.Moves
import LineTemplate.Proofs.Termination
import LineTemplate.Proofs.Concatenation
import LineTemplate.Proofs.ScopeDiscipline
import LineTemplate.Proofs.Visits
import LineTemplate.Proofs.Dependencies
import LineTemplate.Proofs.LoopNames
import LineTemplate.Proofs.Pieces
import LineTemplate.Proofs.Replacement
import LineTemplate.Proofs.Rereading
import LineTemplate.Proofs.AnyOrder
import LineTemplate.Proofs.Segments
import LineTemplate.Proofs.Occurrences
import LineTemplate.Proofs.Accounting
import LineTemplate.Proofs.Locality
import LineTemplate.Proofs.Failures
import LineTemplate.Proofs.Comparison
import LineTemplate.Proofs.StrayPolicies
import LineTemplate.Proofs.Representation
import LineTemplate.Proofs.Numerals
import LineTemplate.Proofs.Documents
import LineTemplate.Proofs.StoredRegistries
import LineTemplate.Proofs.Histories
import LineTemplate.Proofs.ReferenceGrammar
import LineTemplate.Proofs.ScopeHistory
import LineTemplate.Proofs.Rerendering
import LineTemplate.Proofs.Cuts
import LineTemplate.Proofs.Shadowing
import LineTemplate.Proofs.Headers
import LineTemplate.Proofs.Indentation
import LineTemplate.Proofs.NormalForm
import LineTemplate.Proofs.StoredFailures
