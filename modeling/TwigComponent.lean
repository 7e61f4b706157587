import TwigComponent.CommandLine
import TwigComponent.Context
import TwigComponent.Decimal.Binary64
import TwigComponent.Decimal.Shortest
import TwigComponent.Files.Disk
import TwigComponent.Files.Path
import TwigComponent.Files.Tree
import TwigComponent.Glob
import TwigComponent.Json.Basic
import TwigComponent.Json.Number
import TwigComponent.Json.Printer
import TwigComponent.Json.Raw
import TwigComponent.Main
import TwigComponent.Metadata
import TwigComponent.Options
import TwigComponent.Ordered
import TwigComponent.Output
import TwigComponent.Proofs.Accounting
import TwigComponent.Proofs.AttributeQuotes
import TwigComponent.Proofs.Balance
import TwigComponent.Proofs.Blanking
import TwigComponent.Proofs.Braces
import TwigComponent.Proofs.Brackets
import TwigComponent.Proofs.Complaints
import TwigComponent.Proofs.CoreExpressions
import TwigComponent.Proofs.DroppedOperands
import TwigComponent.Proofs.Exposure
import TwigComponent.Proofs.FieldReading
import TwigComponent.Proofs.Grouping
import TwigComponent.Proofs.Initializers
import TwigComponent.Proofs.KeptResults
import TwigComponent.Proofs.KeyOrdering
import TwigComponent.Proofs.Keys
import TwigComponent.Proofs.LineLookup
import TwigComponent.Proofs.Locality
import TwigComponent.Proofs.LoopPatterns
import TwigComponent.Proofs.Losses
import TwigComponent.Proofs.MachineLines
import TwigComponent.Proofs.MarkupWriting
import TwigComponent.Proofs.MergedPaths
import TwigComponent.Proofs.Merging
import TwigComponent.Proofs.Messages
import TwigComponent.Proofs.Modes
import TwigComponent.Proofs.Nesting
import TwigComponent.Proofs.OptionsReach
import TwigComponent.Proofs.OrderedMaps
import TwigComponent.Proofs.Outline
import TwigComponent.Proofs.Overrides
import TwigComponent.Proofs.Paths
import TwigComponent.Proofs.Positions
import TwigComponent.Proofs.Quoting
import TwigComponent.Proofs.Reading
import TwigComponent.Proofs.ResultPaths
import TwigComponent.Proofs.RunCourse
import TwigComponent.Proofs.Scanning
import TwigComponent.Proofs.Schedules
import TwigComponent.Proofs.SegmentOrder
import TwigComponent.Proofs.SlotBlocks
import TwigComponent.Proofs.SpreadMerging
import TwigComponent.Proofs.StaticText
import TwigComponent.Proofs.Subexpressions
import TwigComponent.Proofs.Trees
import TwigComponent.Proofs.Writing
import TwigComponent.Report
import TwigComponent.Run
import TwigComponent.Settings
import TwigComponent.Source.DocumentReader
import TwigComponent.Source.Expression
import TwigComponent.Source.ExpressionReader
import TwigComponent.Source.Fields
import TwigComponent.Source.Markup
import TwigComponent.Source.MarkupReader
import TwigComponent.Source.Script
import TwigComponent.Source.TemplateLiteral
import TwigComponent.Text.Blank
import TwigComponent.Text.Lines
import TwigComponent.Text.Span
import TwigComponent.Transform
import TwigComponent.Twig.Arguments
import TwigComponent.Twig.Expression
import TwigComponent.Twig.Literal
import TwigComponent.Twig.Loop
import TwigComponent.Twig.Markup
import TwigComponent.Twig.Merge
import TwigComponent.Yaml.Basic
import TwigComponent.Yaml.Cursor
import TwigComponent.Yaml.Event
import TwigComponent.Yaml.Lexer
import TwigComponent.Yaml.Merge
import TwigComponent.Yaml.Node
import TwigComponent.Yaml.Plain
import TwigComponent.Yaml.Reader
import TwigComponent.Yaml.Scalar
import TwigComponent.Yaml.Style
import TwigComponent.Yaml.Tag
import TwigComponent.Yaml.Token
import TwigComponent.Yaml.Writer
