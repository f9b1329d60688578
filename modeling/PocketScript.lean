import PocketScript.Command.Basic
import PocketScript.Command.Converse
import PocketScript.Command.Dispatch
import PocketScript.Command.Flags
import PocketScript.Command.Scripts
import PocketScript.Command.Tidy
import PocketScript.Fault.Grammar
import PocketScript.Fault.Lexical
import PocketScript.Fault.Report
import PocketScript.Fault.Runtime
import PocketScript.Files.Path
import PocketScript.Files.Tree
import PocketScript.Json.Basic
import PocketScript.Json.Read
import PocketScript.Json.Write
import PocketScript.Layout
import PocketScript.Lint
import PocketScript.Listing.Table
import PocketScript.Listing.Tokens
import PocketScript.Main
import PocketScript.Number.Binary
import PocketScript.Number.Shortest
import PocketScript.Number.Written
import PocketScript.Program.Outline
import PocketScript.Program.Parser
import PocketScript.Program.Printer
import PocketScript.Program.Reading
import PocketScript.Program.Source
import PocketScript.Program.Tree
import PocketScript.Prompt.Field
import PocketScript.Prompt.Lines
import PocketScript.Prompt.Screen
import PocketScript.Prompt.Styled
import PocketScript.Server.Diagnostic
import PocketScript.Server.Handle
import PocketScript.Server.Message
import PocketScript.Server.Place
import PocketScript.Server.Wire
import PocketScript.Session.Basic
import PocketScript.Session.Evaluate
import PocketScript.Session.Log
import PocketScript.Session.Unfinished
import PocketScript.Settings.Basic
import PocketScript.Settings.Load
import PocketScript.Text.Basic
import PocketScript.Text.Cluster.Kind
import PocketScript.Text.Cluster.Width
import PocketScript.Text.Control
import PocketScript.Text.Dict
import PocketScript.Text.Glyph
import PocketScript.Text.Letter
import PocketScript.Text.Quoted
import PocketScript.Text.Range
import PocketScript.Text.Space
import PocketScript.Text.Steering
import PocketScript.Text.Visible
import PocketScript.Text.Width
import PocketScript.Token.Basic
import PocketScript.Token.Kind
import PocketScript.Token.Position
import PocketScript.Token.Scan
import PocketScript.Value.Basic
import PocketScript.Value.Operators
import PocketScript.Value.Store
import PocketScript.Yaml.Meaning
import PocketScript.Yaml.Node
import PocketScript.Yaml.Scalar
import PocketScript.Yaml.Scan
import PocketScript.Yaml.Spot
import PocketScript.Yaml.Token
import PocketScript.Proofs.Grammar
import PocketScript.Proofs.Parser.Reading
import PocketScript.Proofs.Parser.Soundness
import PocketScript.Proofs.Parser.Completeness
import PocketScript.Proofs.Parser.Descent
import PocketScript.Proofs.Parser.Exact
import PocketScript.Proofs.Scanning.Gaps
import PocketScript.Proofs.Text.Glyphs
import PocketScript.Proofs.Layout.Tidy
import PocketScript.Proofs.Evaluation.Correspondence
import PocketScript.Proofs.Evaluation.LockStep
import PocketScript.Proofs.Lint.Unreachable
import PocketScript.Proofs.Evaluation.Passage
import PocketScript.Proofs.Evaluation.Placing
import PocketScript.Proofs.Evaluation.Steady
import PocketScript.Proofs.Session.Joined
import PocketScript.Proofs.Evaluation.Pairing
import PocketScript.Proofs.Evaluation.Keeping
import PocketScript.Proofs.Lint.Stray
import PocketScript.Proofs.Evaluation.Reachable
import PocketScript.Proofs.Evaluation.Confined
import PocketScript.Proofs.Evaluation.Removal
import PocketScript.Proofs.Evaluation.Scope
import PocketScript.Proofs.Parser.Moved
import PocketScript.Proofs.Scanning.Literals
import PocketScript.Proofs.Layout.Meaning
import PocketScript.Proofs.Text.Whole
import PocketScript.Proofs.Scanning.Lexicon
import PocketScript.Proofs.Scanning.Position
import PocketScript.Proofs.Scanning.Longest
import PocketScript.Proofs.Scanning.Tokenised
import PocketScript.Proofs.Scanning.Lossless
import PocketScript.Proofs.Scanning.Rendering
import PocketScript.Proofs.Parser.Nesting
import PocketScript.Proofs.Parser.Firmness
import PocketScript.Proofs.Parser.Cursor
import PocketScript.Proofs.Parser.Surplus
import PocketScript.Proofs.Parser.Tracking
import PocketScript.Proofs.Evaluation.Blame
import PocketScript.Proofs.Session.CodeFrame
import PocketScript.Proofs.Value.Rooted
import PocketScript.Proofs.Evaluation.Upkeep
import PocketScript.Proofs.Evaluation.Course
import PocketScript.Proofs.Evaluation.StackTrace
import PocketScript.Proofs.Session.Levels
import PocketScript.Proofs.Program.Sugar
import PocketScript.Proofs.Evaluation.Sugar
import PocketScript.Proofs.Text.Lead
import PocketScript.Proofs.Prompt.Inputs
import PocketScript.Proofs.Prompt.Consistent
import PocketScript.Proofs.Text.Encoding
import PocketScript.Proofs.Json.Strings
import PocketScript.Proofs.Json.Guarded
import PocketScript.Proofs.Json.Numerals
import PocketScript.Proofs.Json.RoundTrip
import PocketScript.Proofs.Server.Documents
import PocketScript.Proofs.Server.Framing
import PocketScript.Proofs.Server.Responses
import PocketScript.Proofs.Lint.Reported
import PocketScript.Proofs.Scanning.Lines
import PocketScript.Proofs.Scanning.Neighbours
import PocketScript.Proofs.Scanning.Places
import PocketScript.Proofs.Server.Diagnostics
import PocketScript.Proofs.Server.Hover
import PocketScript.Proofs.Server.Place
import PocketScript.Proofs.Session.Caret
import PocketScript.Proofs.Scanning.Flattened
import PocketScript.Proofs.Prompt.Recall
import PocketScript.Proofs.Evaluation.Names
import PocketScript.Proofs.Text.Decoding
import PocketScript.Proofs.Prompt.Completion
import PocketScript.Proofs.Number.Shortest
import PocketScript.Proofs.Number.Written
import PocketScript.Proofs.Text.Quoted
import PocketScript.Proofs.Program.Terms
import PocketScript.Proofs.Program.Shown
import PocketScript.Proofs.Parser.Printed
import PocketScript.Proofs.Server.Units
import PocketScript.Proofs.Prompt.Pane
import PocketScript.Proofs.Evaluation.Lookup
import PocketScript.Proofs.Evaluation.Operators
