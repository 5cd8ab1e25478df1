import BitSynth.Failure
import BitSynth.Expr.Kind
import BitSynth.Expr.Arena
import BitSynth.Expr.Walk
import BitSynth.Expr.Printer
import BitSynth.Expr.Binding
import BitSynth.Expr.Check
import BitSynth.Expr.Width
import BitSynth.Verilog.Compiler
import BitSynth.Verilog.Module
import BitSynth.Hash.Xxh64
import BitSynth.Cache.Key
import BitSynth.Pipeline.Request
import BitSynth.Source.Load
import BitSynth.Diagnostic
import BitSynth.Source.Token
import BitSynth.Source.Lexer
import BitSynth.Source.Tree
import BitSynth.Source.Parser
import BitSynth.Source.Lower
import BitSynth.Text.Letter
import BitSynth.Text.Digit
import BitSynth.Text.Graphic
import BitSynth.Decimal.Binary64
import BitSynth.Decimal.Shortest
import BitSynth.Decimal.Text
import BitSynth.Text.Quoted
import BitSynth.Text.Space
import BitSynth.Decimal.Integer
import BitSynth.Decimal.Read
import BitSynth.Metrics.Result
import BitSynth.Cache.Index
import BitSynth.Host.Path
import BitSynth.Translate.Target
import BitSynth.Backend.Catalog
import BitSynth.Host.Pattern
import BitSynth.Host.Disk
import BitSynth.Text.Lines
import BitSynth.Config.Store
import BitSynth.Config.Keys
import BitSynth.Config.Text
import BitSynth.Text.Search
import BitSynth.Metrics.Report
import BitSynth.Host.Journal
import BitSynth.Text.Bytes
import BitSynth.Abc.Frame
import BitSynth.Abc.Ports
import BitSynth.Abc.Session
import BitSynth.Host.World
import BitSynth.Host.Programs
import BitSynth.Abc.Server
import BitSynth.Abc.Engine
import BitSynth.Translate.Translator
import BitSynth.Report.Doc
import BitSynth.Report.Records
import BitSynth.Backend.Job
import BitSynth.Backend.Genus
import BitSynth.Backend.Mapper
import BitSynth.Pipeline.Synthesizer
import BitSynth.Cache.Store
import BitSynth.Text.Columns
import BitSynth.Text.Dump
import BitSynth.Cli.Flags
import BitSynth.Cli.Command
import BitSynth.Cli.Tree
import BitSynth.Cli.Run
import BitSynth.Main
import BitSynth.Proofs.Term
import BitSynth.Proofs.Unfold
import BitSynth.Proofs.Format
import BitSynth.Proofs.Traversal
import BitSynth.Proofs.Decode
import BitSynth.Proofs.Canonical
import BitSynth.Proofs.Key
import BitSynth.Proofs.Netlist
import BitSynth.Proofs.Meaning
import BitSynth.Proofs.Compiling
import BitSynth.Proofs.Lowering
import BitSynth.Proofs.Operators
import BitSynth.Proofs.Validation
import BitSynth.Proofs.Correctness
import BitSynth.Proofs.Wire
import BitSynth.Proofs.Alike
import BitSynth.Proofs.WidthAgreement
import BitSynth.Proofs.Text
import BitSynth.Proofs.Triple
import BitSynth.Proofs.Serving
import BitSynth.Proofs.Sessions
import BitSynth.Proofs.Declarations
import BitSynth.Proofs.Sizing
import BitSynth.Proofs.Declaring
import BitSynth.Proofs.Guards
import BitSynth.Proofs.Emission
import BitSynth.Proofs.Environment
import BitSynth.Proofs.Discipline
import BitSynth.Proofs.Recording
import BitSynth.Proofs.Binary64
import BitSynth.Proofs.Scripts
import BitSynth.Proofs.Files
import BitSynth.Proofs.Reconciliation
import BitSynth.Proofs.NumberText
import BitSynth.Proofs.Quoting
import BitSynth.Proofs.Lines
import BitSynth.Proofs.Settings
import BitSynth.Proofs.PortReport
import BitSynth.Proofs.Directories
import BitSynth.Proofs.WorkFiles
import BitSynth.Proofs.Visits
import BitSynth.Proofs.Memoisation
import BitSynth.Proofs.IndexCodec
import BitSynth.Proofs.Forest
import BitSynth.Proofs.Frontend
import BitSynth.Proofs.Lockstep
import BitSynth.Proofs.CachedModule
import BitSynth.Proofs.Backends
import BitSynth.Proofs.Slots
import BitSynth.Proofs.Snapshot
