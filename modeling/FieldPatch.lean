import FieldPatch.Config.Record
import FieldPatch.Config.Source
import FieldPatch.Document
import FieldPatch.Error
import FieldPatch.Format
import FieldPatch.Json.Number
import FieldPatch.Json.Reader
import FieldPatch.Json.Text
import FieldPatch.Json.Writer
import FieldPatch.Main
import FieldPatch.Number.Basic
import FieldPatch.Number.Binary64
import FieldPatch.Number.Layout
import FieldPatch.Number.Reading
import FieldPatch.Number.Shortest
import FieldPatch.Path
import FieldPatch.Path.Glob
import FieldPatch.Proofs.Except
import FieldPatch.Proofs.Path.Parts
import FieldPatch.Proofs.Selector.Changed
import FieldPatch.Proofs.Selector.Derivation
import FieldPatch.Proofs.Selector.Descent
import FieldPatch.Proofs.Selector.Direct
import FieldPatch.Proofs.Selector.FirstMatch
import FieldPatch.Proofs.Selector.Grammar
import FieldPatch.Proofs.Selector.Locate
import FieldPatch.Proofs.Selector.Plain
import FieldPatch.Proofs.Selector.QuotedText
import FieldPatch.Proofs.Selector.Set
import FieldPatch.Proofs.Selector.Trace
import FieldPatch.Proofs.Source.Apart
import FieldPatch.Proofs.Source.FreeNames
import FieldPatch.Proofs.Source.Scoping
import FieldPatch.Proofs.Tree.Overwrite
import FieldPatch.Proofs.Tree.Position
import FieldPatch.Proofs.Tree.Replace
import FieldPatch.Request.Arguments
import FieldPatch.Request.Outcome
import FieldPatch.Request.Reading
import FieldPatch.Request.Report
import FieldPatch.Selector.Eval
import FieldPatch.Selector.Expression
import FieldPatch.Selector.Fault
import FieldPatch.Selector.Lexer
import FieldPatch.Selector.Parser
import FieldPatch.Selector.Stream
import FieldPatch.Selector.Token
import FieldPatch.Selector.Write
import FieldPatch.Shell.Arithmetic
import FieldPatch.Shell.Condition
import FieldPatch.Shell.Fields
import FieldPatch.Shell.Printing
import FieldPatch.Shell.Reader
import FieldPatch.Shell.Run
import FieldPatch.Shell.Script
import FieldPatch.Shell.State
import FieldPatch.Shell.Tool
import FieldPatch.Source.Accepts
import FieldPatch.Source.Basic
import FieldPatch.Source.Context
import FieldPatch.Source.Depth
import FieldPatch.Source.Evaluate
import FieldPatch.Source.Revision
import FieldPatch.Source.Validity
import FieldPatch.Text.Invisible
import FieldPatch.Text.Quoted
import FieldPatch.Text.Template
import FieldPatch.Text.Utf8
import FieldPatch.Toml.Chars
import FieldPatch.Toml.Draft
import FieldPatch.Toml.Moment
import FieldPatch.Toml.Reader
import FieldPatch.Toml.Text
import FieldPatch.Toml.Value
import FieldPatch.Toml.Writer
import FieldPatch.Tree.Basic
import FieldPatch.Tree.Entries
import FieldPatch.Tree.Position
import FieldPatch.Tree.Write
import FieldPatch.World.Basic
import FieldPatch.World.Files
import FieldPatch.Yaml.Block
import FieldPatch.Yaml.Chars
import FieldPatch.Yaml.Cursor
import FieldPatch.Yaml.Document
import FieldPatch.Yaml.Layout
import FieldPatch.Yaml.Lexer
import FieldPatch.Yaml.Merge
import FieldPatch.Yaml.Node
import FieldPatch.Yaml.Plain
import FieldPatch.Yaml.Property
import FieldPatch.Yaml.Quoted
import FieldPatch.Yaml.Reader
import FieldPatch.Yaml.Scalar
import FieldPatch.Yaml.Token
import FieldPatch.Yaml.Value
import FieldPatch.Yaml.Writer
import FieldPatch.Proofs.Selector.Sited
import FieldPatch.Proofs.Number.Decimal
import FieldPatch.Proofs.Selector.Language
import FieldPatch.Proofs.Selector.Spelling
import FieldPatch.Proofs.Selector.Canonical
import FieldPatch.Proofs.World.Place
import FieldPatch.Proofs.Selector.Unresolved
import FieldPatch.Proofs.Source.Inclusion
import FieldPatch.Proofs.Source.Filter
import FieldPatch.Proofs.Tree.Growth
import FieldPatch.Proofs.Selector.Session
import FieldPatch.Proofs.Selector.Stream
import FieldPatch.Proofs.World.Writing
import FieldPatch.Proofs.Request.Edited
import FieldPatch.Proofs.Selector.Effect
import FieldPatch.Proofs.Source.Malformed
import FieldPatch.Proofs.Traversal
import FieldPatch.Proofs.Tree.Entries
import FieldPatch.Proofs.Tree.Occurrence
import FieldPatch.Proofs.Number.Binary64
import FieldPatch.Proofs.Toml.Conversion
import FieldPatch.Proofs.Number.Spacing
import FieldPatch.Proofs.Number.Shortest
import FieldPatch.Proofs.Number.Layout
import FieldPatch.Proofs.Yaml.KeyText
import FieldPatch.Proofs.Yaml.Occurrence
import FieldPatch.Proofs.Yaml.Entries
import FieldPatch.Proofs.Number.Signed
import FieldPatch.Proofs.Tree.Integer
import FieldPatch.Proofs.Text.Dollars
import FieldPatch.Proofs.Text.Template
import FieldPatch.Proofs.Source.Substitution
import FieldPatch.Proofs.Source.Layer
import FieldPatch.Proofs.Source.Ending
import FieldPatch.Proofs.Source.Application
import FieldPatch.Proofs.Source.Ranked
import FieldPatch.Proofs.Path.Glob
import FieldPatch.Proofs.Selector.Splitting
import FieldPatch.Proofs.Selector.Wide
import FieldPatch.Proofs.Selector.Failure
import FieldPatch.Proofs.Source.WriteBack
import FieldPatch.Proofs.Tree.Separate
import FieldPatch.Proofs.Selector.Independent
import FieldPatch.Proofs.Request.Stream
import FieldPatch.Proofs.Source.Scripts
import FieldPatch.Proofs.Selector.Lexeme
import FieldPatch.Proofs.Selector.Cut
import FieldPatch.Proofs.Tree.Words
import FieldPatch.Proofs.Selector.Indexing
import FieldPatch.Proofs.Yaml.Integer
import FieldPatch.Proofs.Number.Rounded
import FieldPatch.Proofs.Config.Default
