import BitSynth.Host.Disk
import BitSynth.Host.Journal
import BitSynth.Failure

namespace BitSynth

/-- Where the writes to a stream go. -/
inductive Sink where
  | discard
  | consoleOut
  | consoleErr
  | journal
  | pipe
  | file (path : String)
  deriving Repr, BEq, Inhabited

/-- The streams of the running process: standard output, standard error, the log and the least
severe level the log shows. -/
structure Streams where
  out : Sink := .discard
  err : Sink := .discard
  log : Sink := .discard
  level : Level := .info
  deriving Inhabited

/-- The file system, the environment, the streams of the running process and the captured text
of the console, the log buffer and the pipe. -/
structure World where
  disk : Disk
  env : List (String × String) := []
  streams : Streams := {}
  consoleOut : String := ""
  consoleErr : String := ""
  journal : String := ""
  pipe : String := ""
  deriving Inhabited

/-- Computations on the world. -/
abbrev Act := Stateful World

/-- Computations on the world and on an object. -/
abbrev On (σ : Type) := Stateful (σ × World)

namespace World

def getEnv (w : World) (name : String) : String :=
  ((w.env.find? (·.1 == name)).map (·.2)).getD ""

def write (w : World) (s : Sink) (text : String) : World :=
  match s with
  | .discard => w
  | .consoleOut => { w with consoleOut := w.consoleOut ++ text }
  | .consoleErr => { w with consoleErr := w.consoleErr ++ text }
  | .journal => { w with journal := w.journal ++ text }
  | .pipe => { w with pipe := w.pipe ++ text }
  | .file p =>
    if w.disk.present p then
      match w.disk.append p text false with
      | .ok d => { w with disk := d }
      | .error _ => w
    else w

end World

namespace Act

def world {α : Type} (f : World → α × World) : Act α := do
  let w ← get
  let (a, w) := f w
  set w
  pure a

def read {α : Type} (f : World → α) : Act α := do return f (← get)

def disk {α : Type} (f : Disk → Except IoError (α × Disk)) : Act α := do
  let w ← get
  match f w.disk with
  | .ok (a, d) => set { w with disk := d }; pure a
  | .error e => throw e.toError

def tryDisk {α : Type} (f : Disk → Except IoError (α × Disk)) : Act (Except IoError α) := do
  let w ← get
  match f w.disk with
  | .ok (a, d) => set { w with disk := d }; pure (.ok a)
  | .error e => pure (.error e)

/-- Runs a computation with other streams, restoring the current ones afterwards, also when it
fails. -/
def withStreams {α : Type} (s : Streams) (x : Act α) : Act α := do
  let saved := (← get).streams
  modify fun w => { w with streams := s }
  let r ← tryCatch (x.map Except.ok) (fun e => pure (Except.error e))
  modify fun w => { w with streams := saved }
  match r with
  | .ok a => pure a
  | .error e => throw e

def attempt {α : Type} (x : Act α) : Act (Except Error α) :=
  tryCatch (x.map Except.ok) (fun e => pure (Except.error e))

end Act

def emit (s : Sink) (text : String) : Act Unit := modify fun w => w.write s text

def printOut (text : String) : Act Unit := do emit (← get).streams.out text

def printErr (text : String) : Act Unit := do emit (← get).streams.err text

def logLine (level : Level) (message : String) : Act Unit := do
  let s := (← get).streams
  if level.rank ≤ s.level.rank then emit s.log (LogEntry.line ⟨level, message⟩)

def logWarn (message : String) : Act Unit := logLine .warning message

def logInfo (message : String) : Act Unit := logLine .info message

def logDebug (message : String) : Act Unit := logLine .debug message

def logStep (command : String) : Act Unit := logDebug ("running: " ++ command)

def replay (j : Journal) : Act Unit :=
  j.entries.toList.forM fun e => logLine e.level e.message

def getEnv (name : String) : Act String := Act.read (·.getEnv name)

def readFile (p : String) : Act String := Act.disk fun d => (d.read p).map (·, d)

def writeFile (p data : String) : Act Unit := Act.disk fun d => (d.write p data).map ((), ·)

/-- Appends a text to a file, creating it first when `create` is set. -/
def appendFile (p data : String) (create : Bool) : Act Unit :=
  Act.disk fun d => (d.append p data create).map ((), ·)

def statPath (p : String) : Act Item := Act.disk fun d => (d.stat "stat" p).map (·, d)

def pathExists (p : String) : Act Bool := Act.read (·.disk.present p)

def removePath (p : String) : Act Unit := Act.disk fun d => (d.remove p).map ((), ·)

def removeAll (p : String) : Act Unit := modify fun w => { w with disk := w.disk.removeAll p }

def mkdirAll (p : String) : Act Unit := Act.disk fun d => (d.mkdirAll p).map ((), ·)

def globPaths (pattern : String) : Act (List String) := do
  match (← get).disk.glob pattern with
  | .ok ps => pure ps
  | .error e => throw e

namespace On

def world {σ α : Type} (x : Act α) : On σ α := ExceptT.mk fun (o, w) =>
  match (x.run).run w with
  | .ok (r, w) => .ok (r, (o, w))
  | .error f => .error f

/-- Runs a computation on a part of the object, through its getter and setter. -/
def focus {σ τ α : Type} (part : σ → τ) (put : σ → τ → σ) (x : On τ α) : On σ α :=
  ExceptT.mk fun (o, w) =>
    match (x.run).run (part o, w) with
    | .ok (r, (t, w)) => .ok (r, (put o t, w))
    | .error f => .error f

def self {σ : Type} : On σ σ := do return (← get).1

def update {σ : Type} (f : σ → σ) : On σ Unit := modify fun (o, w) => (f o, w)

def attempt {σ α : Type} (x : On σ α) : On σ (Except Error α) :=
  tryCatch (x.map Except.ok) (fun e => pure (Except.error e))

def runFrom {σ α : Type} (x : On σ α) (o : σ) (w : World) : Except Fault (Except Error α × σ × World) :=
  match (ExceptT.run x).run (o, w) with
  | .ok (r, (o, w)) => .ok (r, o, w)
  | .error f => .error f

/-- Runs an object computation from an object inside a world computation: its outcome and the
final object. -/
def within {σ α : Type} (x : On σ α) (o : σ) : Act (Except Error α × σ) :=
  ExceptT.mk fun w =>
    match runFrom x o w with
    | .ok (r, o, w) => .ok (.ok (r, o), w)
    | .error f => .error f

end On

end BitSynth
