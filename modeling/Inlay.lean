import Inlay.Main
import Inlay.Pipeline.Blocks
import Inlay.Civet.Transformer
import Inlay.Replace.Transformer
import Inlay.Proofs.Outcome
import Inlay.Proofs.Entries
import Inlay.Proofs.Sorting
import Inlay.Proofs.Options.Resolution
import Inlay.Proofs.SourceMap.Grammar
import Inlay.Proofs.SourceMap.Decoding
import Inlay.Proofs.SourceMap.RoundTrip
import Inlay.Proofs.SourceMap.Prefixes
import Inlay.Proofs.SourceMap.Canonical
import Inlay.Proofs.SourceMap.Chaining
import Inlay.Proofs.SourceMap.Attribution
import Inlay.Proofs.SourceMap.Chained
import Inlay.Proofs.SourceMap.ChainOutcomes
import Inlay.Proofs.Json.Scalars
import Inlay.Proofs.Json.Values
import Inlay.Proofs.Json.Records
import Inlay.Proofs.Json.Paths
import Inlay.Proofs.Json.Merging
import Inlay.Proofs.SourceMap.Document
import Inlay.Proofs.Stage.Run
import Inlay.Proofs.Stage.Course
import Inlay.Proofs.Civet.Transformer
import Inlay.Proofs.Civet.Options
import Inlay.Proofs.Text.Lines
import Inlay.Proofs.Text.Indentation
import Inlay.Proofs.Text.Places
import Inlay.Proofs.Text.Occurrences
import Inlay.Proofs.Block.Location
import Inlay.Proofs.Text.Trimming
import Inlay.Proofs.Compiler.Expectations
import Inlay.Proofs.Compiler.ParseSummary
import Inlay.Proofs.Pipeline.Accumulator
import Inlay.Proofs.Pipeline.Folding
import Inlay.Proofs.Pipeline.SideData
import Inlay.Proofs.Pipeline.Origins
import Inlay.Proofs.Pipeline.ParseErrors
import Inlay.Proofs.Pipeline.Stages
import Inlay.Proofs.Pipeline.Script
import Inlay.Proofs.Pipeline.Style
import Inlay.Proofs.Pipeline.Markup
import Inlay.Proofs.Pipeline.Alike
import Inlay.Proofs.Pipeline.Aliases
import Inlay.Proofs.CommandLine.Resolution
import Inlay.Proofs.Pipeline.Relevance
import Inlay.Proofs.Pipeline.FirstLine
import Inlay.Proofs.Stage.Document
import Inlay.Proofs.Pipeline.TurnedOff
import Inlay.Proofs.Replace.Templates
import Inlay.Proofs.Replace.Reading
import Inlay.Proofs.Replace.LiteralText
import Inlay.Proofs.Pattern.Matches
import Inlay.Proofs.Replace.Rules
import Inlay.Proofs.Replace.Rewriting
import Inlay.Proofs.Files.Path
import Inlay.Proofs.Language.History
import Inlay.Proofs.Language.Detection
import Inlay.Proofs.SourceMap.SelfDelimiting
import Inlay.Proofs.SourceMap.Exactness
import Inlay.Proofs.Civet.Results
import Inlay.Proofs.Files.Ancestors
import Inlay.Proofs.Files.Nearest
import Inlay.Proofs.Files.Writing
import Inlay.Proofs.Config.Discovery
import Inlay.Proofs.CommandLine.Chaining
