import BitSynth.Cli.Tree
import BitSynth.Cache.Store
import BitSynth.Source.Load
import BitSynth.Expr.Printer
import BitSynth.Text.Columns
import BitSynth.Text.Dump
import BitSynth.Abc.Server
import BitSynth.Config.Text

namespace BitSynth.Cli

/-- The options every command reads. -/
structure Globals where
  configs : List String
  overrides : List String
  verbose : Bool
  diagFormat : String

def Globals.of (p : Parsed) : Globals :=
  { configs := p.texts "config", overrides := p.texts "set", verbose := p.switch "verbose",
    diagFormat := p.text "diag-format" }

/-- Adds one `key=value` override; a key without a dot is an option of the synthesis scope. -/
def override (cfg : Config.Store) (kv : String) : Except Error Config.Store :=
  match kv.splitOn "=" with
  | key :: value :: more =>
    let key := if key.contains '.' then key else Config.Key.scope ++ key
    cfg.set key ("=".intercalate (value :: more))
  | _ => .error (.plain ("--set " ++ Text.quote kv ++ " is not key=value"))

/-- Builds the configuration and sets the log level from its verbosity, or from `--verbose`. -/
def loadConfig (g : Globals) : Act Config.Store := do
  let read := (← get).disk.read
  let cfg ← g.configs.foldlM (fun cfg path =>
    match ((Config.load read path).run).run cfg with
    | (.ok (), s) => pure s
    | (.error e, _) => throw e) Config.defaults
  let cfg ← g.overrides.foldlM (fun cfg kv => match override cfg kv with
    | .ok s => pure s
    | .error e => throw e) cfg
  let verbosity := if g.verbose then 2 else cfg.intOr Config.Key.verbose 1
  modify fun w => { w with streams := { w.streams with level := Level.ofVerbosity verbosity } }
  pure cfg

def checked {α : Type} (x : Except Fault α) : Act α := Guarded.lift (Guarded.ofChecked x)

/-- A loaded expression with its node widths. -/
structure Loaded where
  block : Block
  widths : List (NodeId × Int)

/-- Loads the expression of a command line, echoing its diagnostics to standard error. -/
def loadExpression (g : Globals) (p : Parsed) (src : String) : Act Loaded := do
  let l ← checked (Source.load src (p.texts "width") (p.int "out-width") (DiagFormat.ofName g.diagFormat))
  printErr l.reporter.echo
  match l.failure, l.root, l.leaves, l.widths, l.outWidth with
  | some (_, e), _, _, _, _ => throw e
  | none, some root, some leaves, some widths, some out =>
    if out < 0 then throw (.plain ("output width " ++ toString out ++ " must be positive"))
    pure ⟨⟨l.arena, root, leaves, out⟩, widths⟩
  | _, _, _, _, _ => throw (.plain "expression: incomplete load")

/-- Writes text to standard output, or creates a file with it; `-` is standard output. -/
def writeOutput (path : String) (text : Except Error String) : Act Unit := do
  if path.isEmpty || path == "-" then
    match text with
    | .ok t => printOut t
    | .error e => throw e
  else
    match ← Act.tryDisk fun d => (d.write path "").map ((), ·) with
    | .error e => throw e.toError
    | .ok () =>
      match text with
      | .ok t => writeFile path t
      | .error e => throw e

def verilogAction (g : Globals) (p : Parsed) (src : String) : Act Unit := do
  let cfg ← loadConfig g
  let x ← loadExpression g p src
  let b := x.block
  let name := p.text "name"
  let req ← Guarded.lift (Pipeline.Request.single name b.arena b.root b.leaves b.width)
  let m := { req.toModule name with vectorizeAll := cfg.intOr Config.Key.vectorizeAllPorts 0 != 0 }
  let text ← Act.attempt (Guarded.lift (Verilog.emit b.arena b.leaves m))
  writeOutput (p.text "output") text

def leavesDump (m : LeafMap) : Dump.Value :=
  .map "ir.LeafMap" (m.sorted.map fun (id, l) =>
    (.int "ir.NodeID" id, .record "ir.Leaf" [("Name", .str "string" l.name), ("Width", .int "int" l.width)]))

def widthsDump (ws : List (NodeId × Int)) : Dump.Value :=
  .map "map[ir.NodeID]int" ((ws.mergeSort fun a b => decide (a.1 ≤ b.1)).map fun (id, w) =>
    (.int "ir.NodeID" id, .int "int" w))

/-- `inspect`: the expression, its canonical form, its nodes, bindings and widths. -/
def inspectAction (g : Globals) (p : Parsed) (src : String) : Act Unit := do
  let _ ← loadConfig g
  let x ← loadExpression g p src
  let b := x.block
  printOut ("expression: " ++ (← checked (b.arena.format b.root)) ++ "\n")
  printOut ("canonical:  " ++ (← checked (b.arena.canonical b.root)) ++ "\n")
  printOut (← checked (b.arena.dump b.root))
  printOut ("leaves: " ++ (leavesDump b.leaves).line)
  printOut ("widths: " ++ (widthsDump x.widths).line)

/-- The report of a mapped block: its module, key and netlist, its area, its metrics at the three
corners and the runtimes. -/
def resultTable (module : String) (r : Metrics.Result) : String :=
  let row (name : String) (t : Metrics.Triplet) : String :=
    name ++ "\t" ++ t.min.text ++ "\t" ++ t.typ.text ++ "\t" ++ t.max.text ++ "\n"
  Text.alignColumns 2 <| String.join <|
    ["module\t" ++ module ++ "\n"] ++ (if r.id.isEmpty then [] else ["id\t" ++ r.id ++ "\n"]) ++
    ["netlist\t" ++ r.mappedFile ++ "\n",
     if r.exists then "area\t" ++ r.area.text ++ " m^2\n" else "area\tnot extracted\n",
     "\tmin\ttyp\tmax\n",
     row "delay (s)" r.delay, row "static power (W)" r.staticPower,
     row "dynamic power (W)" r.dynamicPower, row "total power (W)" r.totalPower,
     "mapper runtime\t" ++ toString r.mapperRuntime ++ " us\n",
     "io runtime\t" ++ toString r.ioRuntime ++ " us\n"]

/-- Stops a backend that holds a child process, warning when it fails. -/
def closeBackend (b : Backend) : Act Unit := do
  match (← On.within Backend.close b).1 with
  | .ok () => pure ()
  | .error e => logWarn ("closing " ++ b.name ++ " backend: " ++ e.message)

/-- Maps an expression with a synthesizer, directly or through the cache, and reports it: the
backend as the run left it and how the run ended. -/
def synthesizeWith (cfg : Config.Store) (p : Parsed) (x : Block) (syn : Pipeline.Synthesizer Backend) :
    Act (Backend × Except Error Unit) := do
  let output := p.text "output"
  if p.switch "no-cache" then
    match ← Act.attempt (Guarded.lift (Pipeline.Request.single (p.text "name") x.arena x.root x.leaves x.width)) with
    | .error e => pure (syn.backend, .error e)
    | .ok req =>
      match ← On.within (Pipeline.Synthesizer.synthesize { req with translate := !output.isEmpty }) syn with
      | (.error e, syn) => pure (syn.backend, .error e)
      | (.ok o, syn) =>
        printOut (resultTable o.module o.result)
        let _ ← o.cleanup
        pure (syn.backend, .ok ())
  else
    let dir ← if (p.text "cache-dir").isEmpty then Act.attempt (Cache.directory cfg syn.backend.name)
      else pure (.ok (p.text "cache-dir"))
    match dir with
    | .error e => pure (syn.backend, .error e)
    | .ok dir =>
      let invalidating := cfg.intOr Config.Key.cacheInvalidate 0 != 0
      match ← Act.attempt (Cache.open dir (some syn) invalidating (!output.isEmpty)) with
      | .error e => pure (syn.backend, .error e)
      | .ok c =>
        let (r, c) ← On.within (Cache.get x) c
        let (closed, c) ← On.within Cache.close c
        let b := (c.synth.map (·.backend)).getD syn.backend
        match r, closed with
        | .error e, _ => pure (b, .error e)
        | .ok _, .error e => pure (b, .error e)
        | .ok e, .ok () =>
          printOut (resultTable (moduleName e.id) e.result)
          pure (b, .ok ())

def synthAction (self : String) (g : Globals) (p : Parsed) (src : String) : Act Unit := do
  let cfg ← loadConfig g
  let x ← loadExpression g p src
  let b ← Backend.new (p.text "backend") cfg self
  let output := p.text "output"
  let translator : Except Error (Option Translate.Translator) :=
    if output.isEmpty then .ok none
    else do some <$> Translate.Translator.new cfg (← Translate.Target.parse (p.text "target")) output
  let (b, r) ← match translator with
    | .error e => pure (b, .error e)
    | .ok tr => synthesizeWith cfg p x.block (Pipeline.Synthesizer.new b cfg (p.text "work-dir") (p.switch "tie-cells") tr)
  closeBackend b
  match r with
  | .ok () => pure ()
  | .error e => throw e

/-- Opens the cache a `cache` command names, without a synthesizer. -/
def openCache (g : Globals) (p : Parsed) : Act Cache := do
  let cfg ← loadConfig g
  let dir ← if (p.text "cache-dir").isEmpty then Cache.directory cfg (p.text "backend")
    else pure (p.text "cache-dir")
  Cache.open dir none false false

def listAction (g : Globals) (p : Parsed) : Act Unit := do
  let c ← openCache g p
  let rows := c.entries.map fun e =>
    let r := e.result
    toString e.slot ++ "\t" ++ moduleName e.id ++ "\t" ++ r.delay.typ.text ++ "\t" ++
      r.totalPower.typ.text ++ "\t" ++ r.area.text ++ "\t" ++ e.id ++ "\n"
  printOut (Text.alignColumns 2 (String.join ("slot\tmodule\tdelay (s)\tpower (W)\tarea\tid\n" :: rows)))

def verifyAction (g : Globals) (p : Parsed) : Act Unit := do
  let c ← openCache g p
  match ← On.within Cache.verify c with
  | (.error e, _) => throw e
  | (.ok (), c) => printOut (c.dir ++ ": " ++ toString c.entries.length ++ " entries ok\n")

/-- `abc-server`: serves optimiser sessions read from standard input. -/
def serveAction (p : Parsed) (stdin : List UInt8) : Act Unit := do
  let server := Abc.Server.script (p.text "abc") (p.text "liberty") (p.switch "constraints")
  match (← On.within (Abc.Server.serve stdin) server).1 with
  | .error e => throw e
  | .ok (replies, err) =>
    printOut replies
    match err with
    | some e => throw e
    | none => pure ()

/-- A help topic list as the help command shows an unknown one: each topic in back quotes when
it can be, else in double quotes. -/
def topicsText (topics : List String) : String :=
  let one (s : String) : String :=
    if s.any (fun c => c == '`' || (c.toNat < 32 && c != '\t') || c.toNat == 127 || c.toNat == 0xFEFF)
    then Text.quote s else "`" ++ s ++ "`"
  "[" ++ " ".intercalate (topics.map one) ++ "]"

def helpAction (args : List String) : Act Unit := do
  match find tool args with
  | (c, _, none) => printOut (helpText c)
  | (_, _, some _) =>
    printOut ("Unknown help topic " ++ topicsText args ++ "\n")
    printOut (usageText [tool] false)

def perform (self : String) (c : Command) (p : Parsed) (stdin : List UInt8) : Act Unit :=
  let g := Globals.of p
  let src := p.args.headD ""
  match c.action with
  | .synth => synthAction self g p src
  | .verilog => verilogAction g p src
  | .inspect => inspectAction g p src
  | .cacheList => listAction g p
  | .cacheVerify => verifyAction g p
  | .serve => serveAction p stdin
  | .help => helpAction p.args
  | .completion _ => pure ()
  | .none => pure ()

def checkArity (c : Chain) (args : List String) : Option String :=
  match c.last.arity, args with
  | .exactly n, _ =>
    if args.length == n then none
    else some ("accepts " ++ toString n ++ " arg(s), received " ++ toString args.length)
  | .none, a :: _ => some ("unknown command " ++ Text.quote a ++ " for " ++ Text.quote c.path)
  | _, _ => none

/-- Runs the tool on a command line with the given standard input; `self` is the path of the
tool itself, which the optimiser backend starts as its server. The exit code. -/
def run (self : String) (args : List String) (stdin : List UInt8) : Act Int := do
  let fail (message : String) : Act Int := do
    logLine .error message
    pure 1
  let (chain, rest, unknown) := find tool args
  match unknown with
  | some message => fail message
  | none =>
  match parseFlags (chain.allFlags true) rest with
  | .error message => fail message
  | .ok p =>
    if p.switch "help" || !chain.last.runnable then
      printOut (helpText chain)
      return 0
    match checkArity chain p.args with
    | some message => fail message
    | none =>
      match ← Act.attempt (perform self chain.last p stdin) with
      | .ok () => pure 0
      | .error e => fail e.message

end BitSynth.Cli
