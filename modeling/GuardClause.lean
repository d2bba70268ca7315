import GuardClause.Buffer
import GuardClause.Code.Basic
import GuardClause.Code.Layout
import GuardClause.Code.Notation
import GuardClause.Conditional.Extract
import GuardClause.Conditional.Refactoring
import GuardClause.Decimal
import GuardClause.Edit
import GuardClause.Http.Answer
import GuardClause.Http.Message
import GuardClause.Json.Print
import GuardClause.Json.Read
import GuardClause.Language.Bundled
import GuardClause.Language.Grammar
import GuardClause.Language.Layout
import GuardClause.Language.Parse
import GuardClause.Language.Registry
import GuardClause.Language.Shelf
import GuardClause.Log.ErrorText
import GuardClause.Log.Memory
import GuardClause.Log.Record
import GuardClause.Log.Request
import GuardClause.Log.Sink
import GuardClause.Proofs.Cursor.Ancestors
import GuardClause.Proofs.Cursor.Innermost
import GuardClause.Proofs.Cursor.Nearest
import GuardClause.Proofs.Cursor.Targets
import GuardClause.Proofs.Edits.Copies
import GuardClause.Proofs.Edits.Failures
import GuardClause.Proofs.Edits.Offers
import GuardClause.Proofs.Edits.Outline
import GuardClause.Proofs.Http.Agreement
import GuardClause.Proofs.Layout.Decode
import GuardClause.Proofs.Layout.Faithful
import GuardClause.Proofs.Layout.Follow
import GuardClause.Proofs.Layout.Ledger
import GuardClause.Proofs.Layout.Links
import GuardClause.Proofs.Layout.Numbering
import GuardClause.Proofs.Layout.Obstacles
import GuardClause.Proofs.Layout.Offsets
import GuardClause.Proofs.Layout.Roles
import GuardClause.Proofs.Log.Memory
import GuardClause.Proofs.Log.Programs
import GuardClause.Proofs.Log.Records
import GuardClause.Proofs.Log.Scopes
import GuardClause.Proofs.Meaning.Basic
import GuardClause.Proofs.Meaning.Expand
import GuardClause.Proofs.Meaning.Flatten
import GuardClause.Proofs.Meaning.IfElse
import GuardClause.Proofs.Meaning.Inversion
import GuardClause.Proofs.Meaning.Operand
import GuardClause.Proofs.Meaning.Ternary
import GuardClause.Proofs.Placement.Alike
import GuardClause.Proofs.Placement.Arenas
import GuardClause.Proofs.Placement.Buffers
import GuardClause.Proofs.Placement.Proposals
import GuardClause.Proofs.Placement.Rewrites
import GuardClause.Proofs.Position.Coordinates
import GuardClause.Proofs.Position.Ranges
import GuardClause.Proofs.Printing.Brackets
import GuardClause.Proofs.Printing.Conserve
import GuardClause.Proofs.Printing.Depth
import GuardClause.Proofs.Printing.Endings
import GuardClause.Proofs.Printing.Lines
import GuardClause.Proofs.Printing.Reprint
import GuardClause.Proofs.Registry.Histories
import GuardClause.Proofs.Registry.LiveOwners
import GuardClause.Proofs.Registry.LongestSuffix
import GuardClause.Proofs.Registry.Ownership
import GuardClause.Proofs.Registry.Spellings
import GuardClause.Proofs.Service.Selection
import GuardClause.Proofs.Steps
import GuardClause.Proofs.Tables
import GuardClause.Proofs.Text.Brackets
import GuardClause.Proofs.Text.Casing
import GuardClause.Proofs.Text.Encoding
import GuardClause.Proofs.Text.Endings
import GuardClause.Proofs.Text.Indents
import GuardClause.Proofs.Text.Newlines
import GuardClause.Proofs.Text.Splits
import GuardClause.Proofs.Tree.Rose
import GuardClause.Proofs.Tree.Visit
import GuardClause.Proofs.Walks.Bounded
import GuardClause.Proofs.Walks.Paths
import GuardClause.Proposal
import GuardClause.Service.Basic
import GuardClause.Service.Log
import GuardClause.Settings.Basic
import GuardClause.Settings.EnvFile
import GuardClause.Syntax.Arena
import GuardClause.Syntax.Concrete
import GuardClause.Syntax.Kind
import GuardClause.Syntax.Notation
import GuardClause.Syntax.Walk
import GuardClause.Table
import GuardClause.Text.CaseTable
import GuardClause.Text.Lines
import GuardClause.Text.PrintTable
import GuardClause.Text.Slice
import GuardClause.Text.Unicode
import GuardClause.Text.Utf8
import GuardClause.Validation.Complaint
import GuardClause.Validation.Reader
import GuardClause.Value
import GuardClause.Yaml.Block
import GuardClause.Yaml.Flow
import GuardClause.Yaml.Scalar
