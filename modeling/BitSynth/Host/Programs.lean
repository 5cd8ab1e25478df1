import BitSynth.Host.World
import BitSynth.Text.Lines
import BitSynth.Text.Space
import BitSynth.Text.Search
import BitSynth.Decimal.Integer

namespace BitSynth

def exitError (code : Int) : Error := .plain ("exit status " ++ toString code)

def hasFile (p : String) : Act Bool := pathExists p

def fileOrEmpty (p : String) : Act String := do
  match ← Act.attempt (readFile p) with
  | .ok t => pure t
  | .error _ => pure ""

def runOptimiserStandin (args : List String) : Act Int := do
  let script := match args.dropWhile (· != "-f") with
    | _ :: p :: _ => p
    | _ => ""
  printOut "fakeabc script:\n"
  let text ← fileOrEmpty script
  printOut text
  if ← hasFile "fakeabc.stdout" then printOut (← fileOrEmpty "fakeabc.stdout")
  let lines := Text.scanLines text
  let netlist := (lines.filterMap fun l => match Text.fields l with
    | "write_verilog" :: p :: _ => some p
    | _ => none).getLast?
  let source := lines.findSome? fun l =>
    if l.startsWith "%read " then
      some (Text.trimSpace (((Text.trimStart l "%read ").splitOn ";").headD ""))
    else none
  match netlist with
  | some p =>
    let content ←
      if ← hasFile "fakeabc.netlist" then fileOrEmpty "fakeabc.netlist"
      else match source with
        | some s => fileOrEmpty s
        | none => pure ""
    let _ ← Act.attempt (writeFile p content)
    if ← hasFile "fakeabc.nonetlist" then let _ ← Act.attempt (removePath p)
    if ← hasFile "fakeabc.rmlog" then let _ ← Act.attempt (removePath (p ++ ".log"))
  | none => pure ()
  if ← hasFile "fakeabc.exit" then
    pure ((Decimal.readInt? (Text.trimSpace (← fileOrEmpty "fakeabc.exit"))).getD 0)
  else pure 0

def runBackendStandin (args : List String) : Act Int := do
  let record (line : String) : Act Unit := do
    let _ ← Act.attempt (appendFile "ext.calls" (line ++ "\n") true)
  match args with
  | "run" :: rest =>
    record (" ".intercalate args)
    if ← hasFile "ext.fail_run" then
      printErr "fake run failure\n"
      return 3
    match rest with
    | input :: output :: more =>
      if !(← hasFile input) then return 4
      if !(← hasFile "ext.no_output") then
        let _ ← Act.attempt (writeFile output (← fileOrEmpty input))
      if more.drop 1 == ["tie-cells"] then
        let _ ← Act.attempt (appendFile output "// tie cells\n" true)
      return 0
    | _ => return 4
  | "metric" :: kind :: _ =>
    let table := Text.scanLines (← fileOrEmpty "ext.metrics")
    let value := (table.findSome? fun l => match Text.fields l with
      | k :: v :: _ => if k == kind then some v else none
      | _ => none).getD "0"
    if value == "FAIL" then return 1
    printOut (value ++ "\n")
    return 0
  | "cleanup" :: _ =>
    record (" ".intercalate args)
    if ← hasFile "ext.fail_cleanup" then return 5
    return 0
  | _ => return 2

def runProgram (tool : String) (args : List String) : Act Int :=
  match tool with
  | "echo" => do printOut (" ".intercalate args ++ "\n"); pure 0
  | "true" => pure 0
  | "false" => pure 1
  | "abc-standin" => runOptimiserStandin args
  | "backend-standin" => runBackendStandin args
  | _ => do printErr (tool ++ ": cannot run here\n"); pure 1

def searchPath : Act (List String) := do
  let p ← getEnv "PATH"
  pure ((p.splitOn ":").map fun d => if d.isEmpty then "." else d)

/-- The program a name without a slash stands for: the first installed program of that name in
the search path. -/
def lookPath (name : String) : Act (Except Error String) := do
  let dirs ← searchPath
  let d := (← get).disk
  match dirs.find? fun dir =>
      match d.lookup (Path.join [dir, name]) with
      | .ok (some (.program _)) => true
      | _ => false with
  | some dir => pure (.ok (Path.join [dir, name]))
  | none => pure (.error (.plain ("exec: " ++ Text.quote name ++ ": executable file not found in $PATH")))

/-- Runs a program with its standard output and standard error going to the given sinks: its exit
code, or the error of starting it. The program logs to its standard error. -/
def exec (name : String) (args : List String) (out err : Sink) : Act (Except Error Int) := do
  let path ←
    if name.toList.contains '/' then pure (.ok name)
    else if name.isEmpty then pure (.error (.plain "exec: no command"))
    else lookPath name
  match path with
  | .error e => pure (.error e)
  | .ok p =>
    match (← get).disk.lookup p with
    | .ok (some (.program tool)) =>
      let code ← Act.withStreams { out, err, log := err, level := .info } (runProgram tool args)
      pure (.ok code)
    | .ok (some _) => pure (.error (.plain ("fork/exec " ++ p ++ ": permission denied")))
    | .ok none => pure (.error (.plain ("fork/exec " ++ p ++ ": no such file or directory")))
    | .error f => pure (.error (.plain ("fork/exec " ++ p ++ ": " ++ f.text)))

def execChecked (name : String) (args : List String) (out err : Sink) : Act Unit := do
  match ← exec name args out err with
  | .error e => throw e
  | .ok 0 => pure ()
  | .ok code => throw (exitError code)

end BitSynth
