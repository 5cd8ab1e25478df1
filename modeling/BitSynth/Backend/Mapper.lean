import BitSynth.Backend.Genus
import BitSynth.Backend.Catalog
import BitSynth.Abc.Engine
import BitSynth.Metrics.Report
import BitSynth.Text.Space

namespace BitSynth

namespace Backend

/-- The optimiser backend: the program that serves sessions and its arguments, whether sessions
load the constraints, the constraints, and the engine once started. -/
structure Optimiser where
  server : String
  args : List String
  useConstraints : Bool
  constraints : Constraints
  engine : Option Abc.Engine := none
  deriving Inhabited

/-- The yosys backend: its program, cell library and constraints. -/
structure Yosys where
  binary : String
  liberty : String
  useConstraints : Bool
  constraints : Constraints
  deriving Inhabited

def Yosys.script (y : Yosys) (job : Job) (sdc : String) : String :=
  "read_verilog " ++ job.input ++ "; synth -noabc -top " ++ job.top ++ "; " ++
  (if y.useConstraints then "abc -constr " ++ sdc ++ " -liberty " ++ y.liberty ++ "; "
   else "abc -liberty " ++ y.liberty ++ "; ") ++
  "opt_clean -purge; " ++
  (if job.tieCells then "hilomap -hicell TIEHIX1 Y -locell TIELOX1 Y -singleton; " else "") ++
  "write_verilog -nohex -nodec " ++ job.output ++ ";"

end Backend

/-- A mapping backend. -/
inductive Backend where
  | abc (o : Backend.Optimiser)
  | yosys (y : Backend.Yosys)
  | genus (binary : String) (settings : Backend.Genus.Settings)
  | external (name binary : String)
  deriving Inhabited

namespace Backend

def constrained (cfg : Config.Store) : Bool := cfg.intOr Config.Key.useConstraints 0 == 1

/-- Locates an installed backend program under the install root, which defaults to the
`ACT_HOME` directory. -/
def locate (name : String) (cfg : Config.Store) : Act Backend := do
  if name.isEmpty || name.contains '/' || name.contains '\\' then
    throw (.plain ("backend: invalid backend name " ++ Text.quote name))
  let root ← match cfg.path Config.Key.installRoot with
    | some r => pure r
    | none => getEnv "ACT_HOME"
  if root.isEmpty then
    throw (Config.missingKey ("backend " ++ Text.quote name ++ ": set " ++ Config.Key.installRoot ++ " or ACT_HOME"))
  let pre ← match cfg.string Config.Key.backendPrefix with
    | .ok p => pure p
    | .error e => throw e
  match ← Act.attempt (resolveBinary (externalPath root pre name) "") with
  | .ok binary => pure (.external name binary)
  | .error e => throw (e.wrap ("backend: unknown backend " ++ Text.quote name))

/-- The backend called `name`. Built-in optimiser sessions are served by the program `server`. -/
def new (name : String) (cfg : Config.Store) (server : String) : Act Backend := do
  let lift {α : Type} (x : Except Error α) : Act α := match x with
    | .ok a => pure a
    | .error e => throw e
  match name with
  | "abc" =>
    let lib ← lift (requireLiberty cfg)
    let constraints ← lift (constraintsFrom cfg)
    let useConstraints := constrained cfg
    pure (.abc { server, args := serverArgs lib (toolPath cfg Config.Key.abcPath "abc") useConstraints,
                 useConstraints, constraints })
  | "yosys" =>
    let liberty ← lift (requireLiberty cfg)
    let constraints ← lift (constraintsFrom cfg)
    pure (.yosys { binary := toolPath cfg Config.Key.yosysPath "yosys", liberty,
                   useConstraints := constrained cfg, constraints })
  | "genus" =>
    let settings ← lift (Genus.Settings.ofConfig cfg)
    pure (.genus (toolPath cfg Config.Key.genusPath "genus") settings)
  | _ => locate name cfg

def name : Backend → String
  | .abc _ => "abc"
  | .yosys _ => "yosys"
  | .genus _ _ => "genus"
  | .external n _ => n

/-- The name the emitted module must carry for a top level: the optimiser wraps its netlist in a
module named after the top level, so the netlist itself is renamed. -/
def moduleName (b : Backend) (top : String) : String :=
  match b with
  | .abc _ => top ++ "tmp"
  | _ => top

def Optimiser.onEngine {α : Type} (e : Abc.Engine) (x : On Abc.Engine α) : On Optimiser α :=
  On.focus (fun o => o.engine.getD e) (fun o e => { o with engine := some e }) x

def Optimiser.step (e : Abc.Engine) (what : String) (x : On Abc.Engine Unit) : On Optimiser Unit := do
  match ← On.attempt (Optimiser.onEngine e x) with
  | .ok () => pure ()
  | .error err => throw (err.wrap what)

/-- Maps a job in one session of the shared server, starting the server first if needed. -/
def Optimiser.run (job : Job) : On Optimiser Unit := do
  let o ← On.self
  let _ ← On.world (o.constraints.write job.input)
  let e ← match o.engine with
    | some e => pure e
    | none =>
      match ← On.world (Act.attempt (Abc.startChild o.server o.args)) with
      | .ok e => On.update (fun o => { o with engine := some e }); pure e
      | .error err => throw (err.wrap "backend: start abc")
  On.world (logStep ("built-in abc " ++ job.top))
  Optimiser.step e "backend: unable to start abc session" (Abc.Engine.startSession job.top job.input job.output)
  if o.useConstraints then Optimiser.step e "backend: unable to run timing" Abc.Engine.runTiming
  Optimiser.step e "backend: unable to end abc session" Abc.Engine.endSession

def runTool (binary : String) (args : List String) (out err : Sink) (what : String) : Act Unit := do
  match ← exec binary args out err with
  | .error e => throw (e.wrap what)
  | .ok 0 => pure ()
  | .ok code => throw ((exitError code).wrap what)

def create (path what : String) : Act Unit := do
  match ← Act.tryDisk fun d => (d.write path "").map ((), ·) with
  | .ok () => pure ()
  | .error e => throw (e.toError.wrap what)

/-- Writes the constraints and pipes the synthesis script into yosys, logging to the output's
`.log` file. -/
def Yosys.run (y : Yosys) (job : Job) : Act Unit := do
  let sdc ← y.constraints.write job.input
  let binary ← match ← Act.attempt (resolveBinary y.binary "yosys") with
    | .ok b => pure b
    | .error e => throw (e.wrap "backend: resolve yosys")
  let log := job.output ++ ".log"
  create log "backend: create yosys log"
  let script := y.script job sdc
  logStep ("echo " ++ Text.quote script ++ " | " ++ binary ++ " > " ++ job.output ++ ".log")
  runTool binary [] (.file log) (.file log) "backend: yosys failed"

/-- Writes the run file next to the source and runs genus in batch mode, logging to the output's
`.log` file. -/
def runGenus (binary : String) (settings : Genus.Settings) (job : Job) : Act Unit := do
  let tcl := Genus.scriptPath job
  match ← Act.tryDisk fun d => (d.write tcl (settings.script job)).map ((), ·) with
  | .ok () => pure ()
  | .error e => throw (e.toError.wrap "backend: write genus script")
  let binary ← match ← Act.attempt (resolveBinary binary "genus") with
    | .ok b => pure b
    | .error e => throw (e.wrap "backend: resolve genus")
  let log := job.output ++ ".log"
  create log "backend: create genus log"
  logStep (binary ++ " -batch -files " ++ tcl)
  runTool binary ["-batch", "-files", tcl] (.file log) (.file log) "backend: genus failed"

/-- Runs an installed backend program on a job; its output goes to standard error. -/
def runExternal (name binary : String) (job : Job) : Act Unit := do
  let args := ["run", job.input, job.output, job.top] ++ (if job.tieCells then ["tie-cells"] else [])
  logStep (binary ++ " " ++ " ".intercalate args)
  let err := (← get).streams.err
  runTool binary args err err ("backend: " ++ name ++ " run failed")

def run (job : Job) : On Backend Unit := do
  match ← On.self with
  | .abc o => On.focus (fun b => match b with
      | .abc o => o
      | _ => o) (fun _ o => .abc o) (Optimiser.run job)
  | .yosys y => On.world (y.run job)
  | .genus binary settings => On.world (runGenus binary settings job)
  | .external name binary => On.world (runExternal name binary job)

/-- The typical delay and, with constraints, the area from a mapper log; other metrics are zero
and the area of an unconstrained run is not extracted. -/
def logMetric (useConstraints : Bool) (parse : Metrics.Reader → String → Except Error (Float × Float))
    (job : Job) (kind : Metrics.Metric) : Act Float := do
  if kind != .area && kind != .delayTyp then return 0
  let d := (← get).disk
  match parse d.read (job.output ++ ".log") with
  | .error e => throw e
  | .ok (delay, area) =>
    if kind == .delayTyp then pure delay
    else if !useConstraints then pure Metrics.notExtracted
    else pure area

/-- Asks an installed backend program for one metric, printed on its standard output. -/
def externalMetric (name binary : String) (job : Job) (kind : Metrics.Metric) : Act Float := do
  let what := "backend: " ++ name ++ " metric " ++ kind.name
  modify fun w => { w with pipe := "" }
  runTool binary ["metric", kind.name, job.input, job.output, job.top] .pipe (← get).streams.err (what ++ " failed")
  let text := Text.trimSpace (← get).pipe
  match Decimal.readFloat text with
  | .ok v => pure v
  | .error _ => throw (.plain (what ++ ": bad value " ++ Text.quote text))

def metric (b : Backend) (job : Job) (kind : Metrics.Metric) : Act Float := do
  match b with
  | .abc o => logMetric o.useConstraints Metrics.readOptimiserLog job kind
  | .yosys y => logMetric y.useConstraints Metrics.readYosysLog job kind
  | .genus _ _ =>
    let d := (← get).disk
    match ((Metrics.readGenusLogs d.read job.output).run).run {} with
    | (.ok (), r) => pure (r.get kind)
    | (.error e, _) => throw e
  | .external name binary => externalMetric name binary job kind

/-- Removes a job's netlists, constraints and logs, or asks an installed program to. -/
def cleanup (b : Backend) (job : Job) : Act Unit := do
  let out := job.output
  let input := job.input
  match b with
  | .abc _ | .yosys _ =>
    let sdc := (constraintsPath input).toOption.getD ""
    logStep ("rm " ++ out ++ " " ++ input ++ " " ++ sdc ++ " " ++ out ++ ".*")
    removeFiles [out, input, sdc] [out ++ ".*"]
  | .genus _ _ =>
    logStep ("rm " ++ out ++ " " ++ input ++ " " ++ out ++ ".* " ++ input ++ ".*")
    removeFiles [out, input, Genus.scriptPath job]
      [out ++ ".*", input ++ ".*", Path.join [Path.dir out, "noneq.*." ++ job.top ++ ".*"]]
  | .external name binary =>
    logStep (binary ++ " cleanup " ++ input ++ " " ++ out ++ " " ++ job.top)
    let err := (← get).streams.err
    let failed (e : Error) : Act Unit := logWarn ("backend: " ++ name ++ " cleanup failed: " ++ e.message)
    match ← exec binary ["cleanup", input, out, job.top] err err with
    | .error e => failed e
    | .ok 0 => pure ()
    | .ok code => failed (exitError code)

def close : On Backend Unit := do
  match ← On.self with
  | .abc o =>
    match o.engine with
    | none => pure ()
    | some e =>
      let r ← On.focus (fun _ => e) (fun b _ => b) (On.attempt Abc.Engine.close)
      On.update fun _ => .abc { o with engine := none }
      match r with
      | .ok () => pure ()
      | .error err => throw err
  | _ => pure ()

/-- What the pipeline asks of a backend whose state is `β`: its name, the name it expects of the
emitted module, mapping a job, one metric of a mapped job, and removing a job's files. -/
structure Ops (β : Type) where
  name : β → String
  moduleName : β → String → String
  run : Job → On β Unit
  metric : β → Job → Metrics.Metric → Act Float
  cleanup : β → Job → Act Unit

def ops : Ops Backend where
  name := name
  moduleName := moduleName
  run := run
  metric := metric
  cleanup := cleanup

end Backend

end BitSynth
