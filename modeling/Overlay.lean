import Overlay.Diagnostic
import Overlay.Dict
import Overlay.Environment
import Overlay.Error
import Overlay.Hcl.Body
import Overlay.Hcl.Container
import Overlay.Hcl.Expression
import Overlay.Hcl.Fault
import Overlay.Hcl.Lexeme
import Overlay.Hcl.Parser
import Overlay.Hcl.Quoted
import Overlay.Hcl.Template
import Overlay.Hcl.Token
import Overlay.Hcl.Tree
import Overlay.Identifier
import Overlay.Json.Basic
import Overlay.Json.Reader
import Overlay.Json.Typed
import Overlay.Native.Basic
import Overlay.Numeric.Binary64
import Overlay.Numeric.Digits
import Overlay.Numeric.FloatText
import Overlay.Numeric.Layout
import Overlay.Numeric.Number
import Overlay.Numeric.Shortest
import Overlay.Package.Metadata
import Overlay.Package.Pack
import Overlay.Package.Scheme
import Overlay.Proofs.Dict
import Overlay.Proofs.Environment
import Overlay.Proofs.Hcl.Agreement
import Overlay.Proofs.Hcl.Alignment
import Overlay.Proofs.Hcl.Assignments
import Overlay.Proofs.Hcl.Choice
import Overlay.Proofs.Hcl.Completeness
import Overlay.Proofs.Hcl.Concatenation
import Overlay.Proofs.Hcl.Container
import Overlay.Proofs.Hcl.Correspondence
import Overlay.Proofs.Hcl.Coverage
import Overlay.Proofs.Hcl.Cursor
import Overlay.Proofs.Hcl.Derivation
import Overlay.Proofs.Hcl.Entries
import Overlay.Proofs.Hcl.FlatLine
import Overlay.Proofs.Hcl.Grammar
import Overlay.Proofs.Hcl.Heredoc
import Overlay.Proofs.Hcl.Items
import Overlay.Proofs.Hcl.Lexeme
import Overlay.Proofs.Hcl.Lines
import Overlay.Proofs.Hcl.Locality
import Overlay.Proofs.Hcl.Moving
import Overlay.Proofs.Hcl.Numbers
import Overlay.Proofs.Hcl.Parser
import Overlay.Proofs.Hcl.Parts
import Overlay.Proofs.Hcl.Quoting
import Overlay.Proofs.Hcl.Recognition
import Overlay.Proofs.Hcl.Recovery
import Overlay.Proofs.Hcl.Reports
import Overlay.Proofs.Hcl.Rules
import Overlay.Proofs.Hcl.Soundness
import Overlay.Proofs.Hcl.Spelling
import Overlay.Proofs.Hcl.Subexpressions
import Overlay.Proofs.Hcl.Taking
import Overlay.Proofs.Hcl.TakingExpressions
import Overlay.Proofs.Hcl.TakingForms
import Overlay.Proofs.Hcl.TakingItems
import Overlay.Proofs.Hcl.Token
import Overlay.Proofs.Hcl.Totality
import Overlay.Proofs.Hcl.Tracing
import Overlay.Proofs.Hcl.Tree
import Overlay.Proofs.Hcl.UnwrappedOffsets
import Overlay.Proofs.Hcl.Unwrapping
import Overlay.Proofs.Hcl.Weight
import Overlay.Proofs.Hcl.WholeLines
import Overlay.Proofs.Hcl.Wrapping
import Overlay.Proofs.Json.Carried
import Overlay.Proofs.Json.Expression
import Overlay.Proofs.Json.Places
import Overlay.Proofs.Json.Quoting
import Overlay.Proofs.Native.Embedding
import Overlay.Proofs.Native.Unknowns
import Overlay.Proofs.Numeric.Equality
import Overlay.Proofs.Numeric.Integers
import Overlay.Proofs.Numeric.Layout
import Overlay.Proofs.Numeric.NumberText
import Overlay.Proofs.Numeric.Quantity
import Overlay.Proofs.Numeric.Rendering
import Overlay.Proofs.Package.Descent
import Overlay.Proofs.Package.Metadata
import Overlay.Proofs.Package.Position
import Overlay.Proofs.Package.Tree
import Overlay.Proofs.Resolution.Addressing
import Overlay.Proofs.Resolution.Conformity
import Overlay.Proofs.Resolution.Merging
import Overlay.Proofs.Resolution.PackageIds
import Overlay.Proofs.Resolution.Precedence
import Overlay.Proofs.Resolution.Regeneration
import Overlay.Proofs.Resolution.Separation
import Overlay.Proofs.Resolution.Sources
import Overlay.Proofs.Resolution.Strays
import Overlay.Proofs.Resolution.Supplied
import Overlay.Proofs.Resolution.Tiers
import Overlay.Proofs.Resolution.VarFile
import Overlay.Proofs.Settings.Document
import Overlay.Proofs.Settings.Loading
import Overlay.Proofs.Settings.Values
import Overlay.Proofs.Source.Addresses
import Overlay.Proofs.Source.Documents
import Overlay.Proofs.Source.FileTree
import Overlay.Proofs.Source.Inline
import Overlay.Proofs.Source.Malformed
import Overlay.Proofs.Source.Members
import Overlay.Proofs.Source.Native
import Overlay.Proofs.Source.Plain
import Overlay.Proofs.Source.Ranges
import Overlay.Proofs.Source.Slices
import Overlay.Proofs.Template.Lookup
import Overlay.Proofs.Template.Mirror
import Overlay.Proofs.Text.Columns
import Overlay.Proofs.Text.Dots
import Overlay.Proofs.Text.LineIndex
import Overlay.Proofs.Text.Lines
import Overlay.Proofs.Text.Offsets
import Overlay.Proofs.Text.Position
import Overlay.Proofs.Text.Ranges
import Overlay.Proofs.Toml.Dates
import Overlay.Proofs.Toml.Keys
import Overlay.Proofs.Value.Canonical
import Overlay.Proofs.Value.Conversion
import Overlay.Proofs.Value.Culprit
import Overlay.Proofs.Value.Evaluation
import Overlay.Proofs.Value.Literal
import Overlay.Proofs.Value.Places
import Overlay.Proofs.Value.Reading
import Overlay.Proofs.Value.Rereading
import Overlay.Proofs.Value.RoundTrip
import Overlay.Proofs.Value.Unwrapping
import Overlay.Proofs.ValueType.Names
import Overlay.Proofs.ValueType.Ordered
import Overlay.Proofs.ValueType.Places
import Overlay.Proofs.ValueType.Rendering
import Overlay.Proofs.Variable.Contribution
import Overlay.Proofs.Variable.Merges
import Overlay.Proofs.Variable.OverrideSet
import Overlay.Proofs.Variable.Sourced
import Overlay.Proofs.Yaml.Node
import Overlay.Resolution.Basic
import Overlay.Resolution.Configuration
import Overlay.Resolution.VarFile
import Overlay.Settings.Basic
import Overlay.Settings.Document
import Overlay.Settings.Loading
import Overlay.Source.Decoding
import Overlay.Source.FileTree
import Overlay.Source.Format
import Overlay.Source.Path
import Overlay.Source.Readers
import Overlay.Template.Context
import Overlay.Text.Alphabetic
import Overlay.Text.Blank
import Overlay.Text.Bytes
import Overlay.Text.Inspect
import Overlay.Text.Letter
import Overlay.Text.LineIndex
import Overlay.Text.Position
import Overlay.Text.Printable
import Overlay.Text.Ranges
import Overlay.Text.Split
import Overlay.Toml.Blank
import Overlay.Toml.Dates
import Overlay.Toml.Quoted
import Overlay.Toml.Reader
import Overlay.Toml.Scalar
import Overlay.Toml.Table
import Overlay.Value.Basic
import Overlay.Value.Conversion
import Overlay.Value.Evaluation
import Overlay.Value.Fault
import Overlay.Value.Literal
import Overlay.Value.OfJson
import Overlay.ValueType.Basic
import Overlay.ValueType.Expression
import Overlay.Variable.Basic
import Overlay.Variable.Block
import Overlay.Variable.Declaration
import Overlay.Variable.Override
import Overlay.Yaml.Cursor
import Overlay.Yaml.Node
import Overlay.Yaml.Reader
import Overlay.Yaml.Scalar
import Overlay.Yaml.Token
