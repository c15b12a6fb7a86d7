import SignatureDocs.CommandLine.Invocation
import SignatureDocs.CommandLine.Options
import SignatureDocs.CommandLine.Scan
import SignatureDocs.Completion.Client
import SignatureDocs.Completion.Reply
import SignatureDocs.Completion.Url
import SignatureDocs.Documentation.Page
import SignatureDocs.Documentation.Pipeline
import SignatureDocs.Documentation.Prompt
import SignatureDocs.Grammar.Cursor
import SignatureDocs.Grammar.Expressions
import SignatureDocs.Grammar.Lexeme
import SignatureDocs.Grammar.Members
import SignatureDocs.Grammar.Phrase
import SignatureDocs.Grammar.Rule
import SignatureDocs.Grammar.Statements
import SignatureDocs.Grammar.Token
import SignatureDocs.Grammar.Tree
import SignatureDocs.Grammar.TypeScript
import SignatureDocs.Grammar.Types
import SignatureDocs.Json.Basic
import SignatureDocs.Json.Reader
import SignatureDocs.Log
import SignatureDocs.Main
import SignatureDocs.Method.Basic
import SignatureDocs.Method.Comment
import SignatureDocs.Method.Extraction
import SignatureDocs.Method.Filter
import SignatureDocs.Method.FromFile
import SignatureDocs.Number.Binary64
import SignatureDocs.Number.Shortest
import SignatureDocs.Outline.Basic
import SignatureDocs.Outline.Fault
import SignatureDocs.Outline.OfTree
import SignatureDocs.Path
import SignatureDocs.Program.Command
import SignatureDocs.Program.Failure
import SignatureDocs.Program.LogFilter
import SignatureDocs.Program.Run
import SignatureDocs.Proofs.CommandLine.Target
import SignatureDocs.Proofs.Completion.FirstText
import SignatureDocs.Proofs.Documentation.Marker
import SignatureDocs.Proofs.Documentation.Page
import SignatureDocs.Proofs.Documentation.Pipeline
import SignatureDocs.Proofs.Except
import SignatureDocs.Proofs.Grammar.Balance
import SignatureDocs.Proofs.Grammar.Budget
import SignatureDocs.Proofs.Grammar.Cursor
import SignatureDocs.Proofs.Grammar.Gap
import SignatureDocs.Proofs.Grammar.Lexeme
import SignatureDocs.Proofs.Grammar.MemberName
import SignatureDocs.Proofs.Grammar.Naming
import SignatureDocs.Proofs.Grammar.Nesting
import SignatureDocs.Proofs.Grammar.Priority
import SignatureDocs.Proofs.Grammar.Profile
import SignatureDocs.Proofs.Grammar.Scan
import SignatureDocs.Proofs.Grammar.Signs
import SignatureDocs.Proofs.Grammar.Tiling
import SignatureDocs.Proofs.Json.RoundTrip
import SignatureDocs.Proofs.Method.Comment
import SignatureDocs.Proofs.Method.Ending
import SignatureDocs.Proofs.Method.Filter
import SignatureDocs.Proofs.Method.Leading
import SignatureDocs.Proofs.Method.NameList
import SignatureDocs.Proofs.Method.Rescan
import SignatureDocs.Proofs.Method.Trivia
import SignatureDocs.Proofs.Outline.Containment
import SignatureDocs.Proofs.Outline.Members
import SignatureDocs.Proofs.Outline.Nest
import SignatureDocs.Proofs.Outline.Walk
import SignatureDocs.Proofs.Program.Confinement
import SignatureDocs.Proofs.Program.Frame
import SignatureDocs.Proofs.Program.Generate
import SignatureDocs.Proofs.Program.Isolation
import SignatureDocs.Proofs.Program.Printed
import SignatureDocs.Proofs.Program.Selectable
import SignatureDocs.Proofs.Settings.EnvGrammar
import SignatureDocs.Proofs.Settings.Files
import SignatureDocs.Proofs.Settings.Foreign
import SignatureDocs.Proofs.Settings.Keys
import SignatureDocs.Proofs.Settings.Ordered
import SignatureDocs.Proofs.Settings.Precedence
import SignatureDocs.Proofs.Settings.Variables
import SignatureDocs.Proofs.Storage.FileTree
import SignatureDocs.Proofs.Storage.Path
import SignatureDocs.Proofs.Storage.Related
import SignatureDocs.Proofs.Text.Blank
import SignatureDocs.Proofs.Text.Offset
import SignatureDocs.Proofs.Text.Place
import SignatureDocs.Proofs.Toml.Ordered
import SignatureDocs.Proofs.Written.Basic
import SignatureDocs.Proofs.Written.Reading
import SignatureDocs.Proofs.Written.RoundTrip
import SignatureDocs.Proofs.Written.Truncated
import SignatureDocs.Proofs.Written.Unclosed
import SignatureDocs.Settings.Basic
import SignatureDocs.Settings.Decode
import SignatureDocs.Settings.EnvFile
import SignatureDocs.Settings.EnvValue
import SignatureDocs.Settings.Layer
import SignatureDocs.Settings.Load
import SignatureDocs.Settings.Model
import SignatureDocs.Settings.Value
import SignatureDocs.Storage.Fault
import SignatureDocs.Storage.FileTree
import SignatureDocs.Text.Blank
import SignatureDocs.Text.Cased
import SignatureDocs.Text.Hex
import SignatureDocs.Text.Hidden
import SignatureDocs.Text.LowerCase
import SignatureDocs.Text.Marked
import SignatureDocs.Text.Offset
import SignatureDocs.Text.Quoted
import SignatureDocs.Text.Ranges
import SignatureDocs.Text.Utf8
import SignatureDocs.Toml.Document
import SignatureDocs.Toml.Lexeme
