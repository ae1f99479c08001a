import GrammarModule.Json.Cursor
import GrammarModule.Decimal.Shortest
import GrammarModule.Text.Quoted
import GrammarModule.Json.Error
import GrammarModule.Json.Number
import GrammarModule.Json.StringLiteral
import GrammarModule.Json.Token
import GrammarModule.Json.Skip
import GrammarModule.Json.Table
import GrammarModule.Json.Value
import GrammarModule.Json.Codec
import GrammarModule.Json.Record
import GrammarModule.Json.Document
import GrammarModule.Text.Utf8
import GrammarModule.Path
import GrammarModule.Handle
import GrammarModule.Failure
import GrammarModule.Exports
import GrammarModule.Slot
import GrammarModule.Loading
import GrammarModule.Sink
import GrammarModule.Session.Hosts
import GrammarModule.Session.Basic
import GrammarModule.Session.Run
import GrammarModule.Catalogue.Basic
import GrammarModule.Catalogue.Format
import GrammarModule.Files.Basic
import GrammarModule.Files.Tree
import GrammarModule.Files.Edit
import GrammarModule.BindingSearch
import GrammarModule.Catalogue.File
import GrammarModule.Command.Options
import GrammarModule.Command.Request
import GrammarModule.Command.Report
import GrammarModule.Main
import GrammarModule.Proofs.Text.Utf8
import GrammarModule.Proofs.Path
import GrammarModule.Proofs.Path.Components
import GrammarModule.Proofs.Json.Grammar
import GrammarModule.Proofs.Json.Past
import GrammarModule.Proofs.Json.Escape
import GrammarModule.Proofs.Json.Literal
import GrammarModule.Proofs.Json.Token
import GrammarModule.Proofs.Json.Number
import GrammarModule.Proofs.Json.Skip
import GrammarModule.Proofs.Json.Sequence
import GrammarModule.Proofs.Json.Table
import GrammarModule.Proofs.Json.Written
import GrammarModule.Proofs.Json.Law
import GrammarModule.Proofs.Json.Field
import GrammarModule.Proofs.Json.Record
import GrammarModule.Proofs.Json.Pretty
import GrammarModule.Proofs.Catalogue.Rendering
import GrammarModule.Proofs.Catalogue.RoundTrip
import GrammarModule.Proofs.Loading
import GrammarModule.Proofs.Sink
import GrammarModule.Proofs.Sink.Phases
import GrammarModule.Proofs.Session.Effects
import GrammarModule.Proofs.Session.FirstObstacle
import GrammarModule.Proofs.Session.Step
import GrammarModule.Proofs.Session.Place
import GrammarModule.Proofs.Session.OneShot
import GrammarModule.Proofs.Session.Alike
import GrammarModule.Proofs.Session.Loaders
import GrammarModule.Proofs.Session.Sinks
import GrammarModule.Proofs.Files.Walk
import GrammarModule.Proofs.BindingSearch
import GrammarModule.Proofs.BindingSearch.Candidates
import GrammarModule.Proofs.BindingSearch.Spelling
import GrammarModule.Proofs.Command.Options
import GrammarModule.Proofs.Command.Locate
import GrammarModule.Proofs.Command.Kinds
import GrammarModule.Proofs.Session.Calls
import GrammarModule.Proofs.Session.Provenance
import GrammarModule.Proofs.Session.Unusable
import GrammarModule.Proofs.Publication
import GrammarModule.Proofs.Catalogue.File
import GrammarModule.Proofs.Catalogue.Lookup
import GrammarModule.Proofs.Files.Contents
import GrammarModule.Proofs.Json.Truncated
import GrammarModule.Proofs.Json.Truncated.Skip
import GrammarModule.Proofs.Json.Truncated.Codec
import GrammarModule.Proofs.Json.Truncated.Record
import GrammarModule.Proofs.Catalogue.Truncated
import GrammarModule.Proofs.Command.Front
import GrammarModule.Proofs.Command.Environment
import GrammarModule.Proofs.Json.Located
import GrammarModule.Proofs.Json.Located.Skip
import GrammarModule.Proofs.Json.Located.Codec
import GrammarModule.Proofs.Catalogue.Located
import GrammarModule.Proofs.Text.Numeral
import GrammarModule.Proofs.Exports
import GrammarModule.Proofs.Command.Numeral
import GrammarModule.Proofs.Command.Related
import GrammarModule.Proofs.Command.Revalue
import GrammarModule.Proofs.Command.Version
