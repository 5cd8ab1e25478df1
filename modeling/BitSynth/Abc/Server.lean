import BitSynth.Abc.Frame
import BitSynth.Abc.Ports
import BitSynth.Abc.Session
import BitSynth.Host.Programs

namespace BitSynth.Abc

def openLog (s : Session) : Act Unit := do
  match ← Act.attempt (writeFile s.log "") with
  | .ok () => pure ()
  | .error e => throw (e.wrap "create session log")

/-- The script a session runs when it closes: its queued commands, then writing the mapped
netlist and reporting its ports and gates. -/
def Session.closingScript (s : Session) : List String :=
  s.script ++ ["write_verilog " ++ s.output, "print_io", "print_gates"]

def Session.scriptText (s : Session) : String := "\n".intercalate s.closingScript ++ "\n"

/-- Writes the queued script with the closing reports and runs the optimiser on it, its output
appended to the session log. -/
def runScript (binary : String) (s : Session) : Act Unit := do
  let scriptPath := s.output ++ ".abc"
  match ← Act.attempt (writeFile scriptPath s.scriptText) with
  | .error e => throw (e.wrap "write abc script")
  | .ok () => pure ()
  match ← Act.tryDisk fun d => (d.openWrite s.log false).map fun _ => ((), d) with
  | .error e => throw (e.toError.wrap "open session log")
  | .ok () => pure ()
  let binary := if binary.isEmpty then "abc" else binary
  logStep (binary ++ " -f " ++ scriptPath)
  match ← exec binary ["-f", scriptPath] (.file s.log) (.file s.log) with
  | .error e => throw (e.wrap (binary ++ " failed"))
  | .ok 0 => pure ()
  | .ok code => throw ((exitError code).wrap (binary ++ " failed"))

/-- The optimisation work of a server's sessions. Opening a session gives the commands it starts
with, running a command gives the commands queued after it, and closing a session writes the
mapped netlist and the port report into the session log. Each step may fail. -/
structure Tool where
  openSession : Session → Act (List String)
  runCommand : Session → String → Act (List String)
  closeSession : Session → Act Unit

/-- The tool that queues a session's commands, refusing unknown ones at once, and runs them through
the optimiser binary in one batch when the session closes. -/
def scriptTool (binary : String) : Tool where
  openSession s := do
    openLog s
    pure []
  runCommand s cmd :=
    match checkCommands cmd with
    | .ok () => pure (s.script ++ [cmd])
    | .error e => throw e
  closeSession s := runScript binary s

instance : Inhabited Tool := ⟨scriptTool "abc"⟩

/-- A server: the tool doing its sessions' work, the cell library read into every session, whether
each session loads its constraints, and the open session. -/
structure Server where
  tool : Tool
  liberty : String
  useConstraints : Bool
  session : Option Session := none
  deriving Inhabited

namespace Server

def script (binary liberty : String) (useConstraints : Bool) : Server :=
  { tool := scriptTool binary, liberty, useConstraints }

/-- Runs one command in the open session; a refused command ends the session. -/
def run (cmd : String) : On Server Unit := do
  let srv ← On.self
  match srv.session with
  | none => throw (.plain ("abc: command " ++ Text.quote cmd ++ " outside a session"))
  | some s =>
    match ← On.world (Act.attempt (srv.tool.runCommand s cmd)) with
    | .error e =>
      On.update fun srv => { srv with session := none }
      throw (e.wrap ("abc: " ++ cmd))
    | .ok script => On.update fun srv => { srv with session := some { s with script } }

/-- Finishes a session the server has let go of: the tool closes it, then the port report in the
session log yields the wrapper module appended to the mapped netlist. -/
def closeWith (tool : Tool) (s : Session) : Act Unit := do
  match ← Act.attempt (tool.closeSession s) with
  | .error e => throw (e.wrap ("abc: close session " ++ s.name))
  | .ok () => pure ()
  let log ← match ← Act.tryDisk fun d => (d.read s.log).map (·, d) with
    | .error e =>
      if e.op == "open" then throw (e.toError.wrap "abc: open session log")
      else throw (e.toError.wrap ("abc: parse " ++ s.log))
    | .ok t => pure t
  let (ports, journal) := (parsePortReport log).run {}
  replay journal
  match ports with
  | .error e => throw (e.wrap ("abc: parse " ++ s.log))
  | .ok (ins, outs) =>
    match ← Act.tryDisk fun d => (d.openWrite s.output false).map fun _ => ((), d) with
    | .error e => throw (e.toError.wrap "abc: open mapped netlist")
    | .ok () => appendFile s.output (wrapper s.name ins outs) false

/-- Closes the open session: runs its script and appends the wrapper to the mapped netlist.
Closing without a session succeeds. -/
def close : On Server Unit := do
  let srv ← On.self
  match srv.session with
  | none => pure ()
  | some s =>
    On.update fun srv => { srv with session := none }
    On.world (closeWith srv.tool s)

/-- Opens a session from a `$new$` argument on a server without one, and runs the reading steps and
the recipe. -/
def openNew (arg : String) : On Server Unit := do
  let s ← match Session.ofArg arg with
    | .ok s => pure s
    | .error e => throw e
  let srv ← On.self
  match ← On.world (Act.attempt (srv.tool.openSession s)) with
  | .error e => throw (e.wrap ("abc: open session " ++ s.name))
  | .ok script => On.update fun srv => { srv with session := some { s with script } }
  let steps := ["%read " ++ s.input ++ "; %blast; &put", "read_lib -v " ++ srv.liberty] ++ recipe ++
    (if srv.useConstraints then ["read_constr " ++ s.constraints] else [])
  steps.forM run

/-- Opens a session from a `$new$` argument, closing an open one first. -/
def start (arg : String) : On Server Unit := do
  if (← On.self).session.isSome then
    match ← On.attempt close with
    | .error e => On.world (logWarn ("abc: closing previous session: " ++ e.message))
    | .ok () => pure ()
  openNew arg

def finish : On Server Unit := do
  if (← On.self).session.isSome then
    match ← On.attempt close with
    | .error e => On.world (logWarn ("abc: " ++ e.message))
    | .ok () => pure ()

/-- Answers one request: whether it succeeded. A failure is logged at debug level. -/
def handle (f : Frame) : On Server Bool := do
  let arg := Text.ofBytesLossy f.arg
  let r ← On.attempt (match f.op with
    | .newSession => start arg
    | .command => run arg
    | .endSession => close
    | _ => throw (.plain ("abc: unknown opcode " ++ Text.quoteBytes f.raw)))
  match r with
  | .ok () => pure true
  | .error e =>
    On.world (logDebug e.message)
    pure false

/-- Serves a whole input stream, at most `fuel` requests: the replies written and the error that
ended serving, if any. -/
def serveWithin : Nat → List UInt8 → On Server (String × Option Error)
  | 0, _ => pure ("", none)
  | fuel + 1, input => do
    match nextFrame input with
    | .error e =>
      finish
      if e.cause == .endOfInput then pure ("", none) else pure ("", some (e.wrap "abc: read request"))
    | .ok (f, rest) =>
      if f.op == .bye then
        finish
        pure ("", none)
      else
        let ok ← handle f
        let (more, err) ← serveWithin fuel rest
        pure (replyText ok ++ more, err)

/-- Serves a whole input stream: the replies written and the error that ended serving. -/
def serve (input : List UInt8) : On Server (String × Option Error) :=
  serveWithin (input.length + 1) input

end Server

end BitSynth.Abc
