import BitSynth.Pipeline.Request
import BitSynth.Backend.Mapper
import BitSynth.Translate.Translator

namespace BitSynth.Pipeline

def filePrefix : String := "exprop_"

def mappedSuffix : String := "_mapped"

/-- A synthesizer: its backend with the backend's operations, work directory, whether tie cells
are used, the translator if any, whether the work files are kept, and whether every port is written
as a vector. -/
structure Synthesizer (β : Type) where
  backend : β
  ops : Backend.Ops β
  workDir : String := ""
  tieCells : Bool := false
  translator : Option Translate.Translator := none
  keepFiles : Bool := false
  vectorize : Bool := false

/-- A synthesizer over a backend, reading which files to keep and the port style from the
configuration. -/
def Synthesizer.new (b : Backend) (cfg : Config.Store) (workDir : String) (tieCells : Bool)
    (translator : Option Translate.Translator) : Synthesizer Backend :=
  { backend := b, ops := Backend.ops, workDir, tieCells, translator,
    keepFiles := cfg.intOr Config.Key.cleanTmpFiles 1 == 0,
    vectorize := cfg.intOr Config.Key.vectorizeAllPorts 0 != 0 }

/-- A finished run: its result and module name, the job whose files exist until cleanup, and the
backend that cleans up. -/
structure Outcome (β : Type) where
  result : Metrics.Result := {}
  module : String := ""
  job : Option Backend.Job := none
  backend : β
  ops : Backend.Ops β
  keep : Bool := false

/-- Removes the work files of an outcome, once, unless they are kept. -/
def Outcome.cleanup {β : Type} (o : Outcome β) : Act (Outcome β) := do
  match o.job with
  | none => pure o
  | some job =>
    if o.keep then return o
    o.ops.cleanup o.backend job
    for path in [job.input, job.output] do
      match ← Act.tryDisk fun d => (d.remove path).map ((), ·) with
      | .ok () => pure ()
      | .error e => if e.fault != .notFound then logWarn ("could not remove " ++ path ++ ": " ++ e.message)
    pure { o with job := none }

def writeModule (path module : String) (req : Request) (vectorize : Bool) : Act Unit := do
  match ← Act.tryDisk fun d => (d.write path "").map ((), ·) with
  | .ok () => pure ()
  | .error e => throw (e.toError.wrap "pipeline: create verilog file")
  let m := { req.toModule module with vectorizeAll := vectorize }
  match ← Act.attempt (Guarded.lift (Verilog.emit req.arena req.leaves m)) with
  | .ok text => writeFile path text
  | .error e => throw (e.wrap ("pipeline: emit " ++ module))

def Synthesizer.onBackend {β α : Type} (x : On β α) : On (Synthesizer β) α :=
  On.focus (·.backend) (fun s b => { s with backend := b }) x

/-- The job of a request: the source and netlist files named after it in the work directory. -/
def Synthesizer.job {β : Type} (s : Synthesizer β) (req : Request) : Backend.Job :=
  let stem := Path.join [s.workDir, filePrefix ++ req.name]
  { input := stem ++ ".v", output := stem ++ mappedSuffix ++ ".v", top := req.name, tieCells := s.tieCells }

/-- Emits a request, maps it with the backend and collects every metric, filling the corners. The
caller cleans up the outcome. -/
def Synthesizer.synthesize {β : Type} (req : Request) : On (Synthesizer β) (Outcome β) := do
  let s ← On.self
  if req.translate && s.translator.isNone then
    throw (.plain "pipeline: translation requested without a translator")
  let job := s.job req
  let out : Outcome β := { job := some job, backend := s.backend, ops := s.ops, keep := s.keepFiles }
  let module := s.ops.moduleName s.backend req.name
  match ← On.world (Act.attempt (writeModule job.input module req s.vectorize)) with
  | .ok () => pure ()
  | .error e =>
    On.world (modify fun w => match w.disk.remove job.input with
      | .ok d => { w with disk := d }
      | .error _ => w)
    throw e
  match ← On.attempt (Synthesizer.onBackend (s.ops.run job)) with
  | .ok () => pure ()
  | .error e =>
    let _ ← On.world out.cleanup
    throw (e.wrap ("pipeline: " ++ s.ops.name s.backend ++ " backend"))
  let b := (← On.self).backend
  let mut res : Metrics.Result := { mappedFile := job.output, preMapFile := job.input }
  for kind in Metrics.Metric.all do
    match ← On.world (Act.attempt (s.ops.metric b job kind)) with
    | .ok v => res := res.set kind v
    | .error e =>
      let _ ← On.world out.cleanup
      throw (e.wrap ("pipeline: metric " ++ kind.name))
  if req.translate then
    if let some t := s.translator then
      match ← On.world (Act.attempt (t.append job.output)) with
      | .ok () => pure ()
      | .error e =>
        let _ ← On.world out.cleanup
        throw e
  pure { out with result := res.fillCorners, module := req.name }

def Synthesizer.emit {β : Type} (s : Synthesizer β) (mapped : String) : Act Unit :=
  match s.translator with
  | none => throw (.plain "pipeline: no translator configured")
  | some t => t.append mapped

end BitSynth.Pipeline
