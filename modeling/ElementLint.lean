import ElementLint.Error
import ElementLint.Text.Alphanumeric
import ElementLint.Text.SourceMap
import ElementLint.Markup.Token.Next
import ElementLint.Markup.ForeignNames
import ElementLint.Markup.Doctype
import ElementLint.Markup.Parse
import ElementLint.Span.Nesting
import ElementLint.Span.Pairing
import ElementLint.Document.Query
import ElementLint.Selector.Parser
import ElementLint.Rule.PaperButtonStyle
import ElementLint.Rule.ContentToSlotUsages
import ElementLint.Warning.Underline
import ElementLint.Loader.Folder
import ElementLint.Edits
import ElementLint.Registry
import ElementLint.Glob
import ElementLint.Json.Printer
import ElementLint.Warning.Encoding
import ElementLint.Linter
import ElementLint.Proofs.Span.Nesting
import ElementLint.Proofs.Span.RoundTrip
import ElementLint.Proofs.Document.Pairing
import ElementLint.Proofs.Edits.Apply
import ElementLint.Proofs.Edits.Bounds
import ElementLint.Proofs.Edits.Outcome
import ElementLint.Proofs.Rule.Places
import ElementLint.Proofs.Linter
import ElementLint.Proofs.Linter.Workers
import ElementLint.Proofs.Edits.Substitution
import ElementLint.Proofs.Document.Tree
import ElementLint.Proofs.Rule.SlotInsertions
import ElementLint.Proofs.Span.Shift
import ElementLint.Proofs.Span.Lookahead
import ElementLint.Proofs.Span.Resume
import ElementLint.Proofs.Span.Rescan
import ElementLint.Proofs.Span.Insertion
import ElementLint.Proofs.Rule.Rescan
import ElementLint.Proofs.Edits.Acceptance
import ElementLint.Proofs.Linter.Isolation
import ElementLint.Proofs.Selector.Language
import ElementLint.Proofs.Selector.Complex
import ElementLint.Proofs.Selector.Written
import ElementLint.Proofs.Document.Located
import ElementLint.Proofs.Markup.Custom
import ElementLint.Proofs.Edits.Order
import ElementLint.Proofs.Span.ImpliedEnd
import ElementLint.Proofs.Span.OptionalEnd
import ElementLint.Proofs.Span.RawText
import ElementLint.Proofs.Document.Descent
import ElementLint.Proofs.Document.Ancestors
import ElementLint.Proofs.Rule.SlotSpecification
import ElementLint.Proofs.Rule.ButtonSpecification
import ElementLint.Proofs.Rule.SlotProblems
import ElementLint.Proofs.Rule.SlotAttribute
import ElementLint.Proofs.Text.SourceMap
import ElementLint.Proofs.Warning.Underline
import ElementLint.Proofs.Document.Numbering
import ElementLint.Proofs.Registry
import ElementLint.Proofs.Loader.Folder
import ElementLint.Proofs.Loader.Listing
import ElementLint.Proofs.Loader.Overlay
import ElementLint.Proofs.Linter.Listing
import ElementLint.Proofs.Warning.Encoding
