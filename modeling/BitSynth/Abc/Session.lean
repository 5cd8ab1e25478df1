import BitSynth.Failure
import BitSynth.Text.Space
import BitSynth.Text.Search
import BitSynth.Text.Quoted

namespace BitSynth.Abc

def filePrefix : String := "exprop_"

def mappedSuffix : String := "_mapped"

/-- The optimisation run right after a session's netlist is read: structural balancing and
rewriting, then technology-independent optimisation and mapping. -/
def recipe : List String :=
  ["balance; rewrite -l; refactor -l; balance; rewrite -l; rewrite -lz; balance; refactor -lz; rewrite -lz; balance",
   "strash; ifraig; dc2; strash; &get -n; &dch -f; &nf; &put; upsize; dnsize"]

/-- One open session: the module name the wrapper exposes, the netlists, the log and the timing
constraints next to the input; the commands queued so far. -/
structure Session where
  name : String
  input : String
  output : String
  log : String
  constraints : String
  script : List String := []
  deriving Inhabited

/-- The session of a `$new$` argument: `<name>` or `<name> <input> <output>`. -/
def Session.ofArg (arg : String) : Except Error Session :=
  let make (name input output : String) : Session :=
    { name, input, output, log := output ++ ".log",
      constraints := Text.trimEnd input ".v" ++ ".sdc" }
  match Text.fields arg with
  | [name] => .ok (make name (filePrefix ++ name ++ ".v") (filePrefix ++ name ++ mappedSuffix ++ ".v"))
  | [name, input, output] => .ok (make name input output)
  | _ => .error (.plain ("abc: bad session argument " ++ Text.quote arg))

/-- The optimiser commands a session accepts; others are refused at once, since the whole session
only runs when it closes. -/
def knownCommands : List String :=
  ["%read", "%blast", "&put", "&get", "read", "read_verilog", "read_lib", "read_constr",
   "balance", "rewrite", "refactor", "resub", "strash", "ifraig", "fraig", "dc2", "dch",
   "&dch", "&nf", "&if", "&synch2", "&syn2", "map", "amap", "upsize", "dnsize", "buffer",
   "topo", "sweep", "stime", "print_stats", "print_io", "print_gates", "write_verilog",
   "resyn", "resyn2", "compress2rs"]

/-- Checks every command of a `;`-separated list: the first unknown command name is an error. -/
def checkCommands (cmd : String) : Except Error Unit :=
  (Text.splitChar cmd ';').foldlM (fun () part =>
    match Text.fields part with
    | [] => .ok ()
    | name :: _ =>
      if knownCommands.contains name then .ok ()
      else .error (.plain ("unknown command " ++ Text.quote name))) ()

end BitSynth.Abc
