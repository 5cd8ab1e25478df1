import BitSynth.Translate.Target
import BitSynth.Config.Keys
import BitSynth.Host.Programs

namespace BitSynth.Translate

/-- A translator: its program, cell library, namespace, port wire type and output file. -/
structure Translator where
  binary : String
  cellLib : String
  namespace_ : String
  wireType : String
  output : String
  deriving Inhabited

/-- Reads the translator options of a target from the configuration. -/
def Translator.new (cfg : Config.Store) (target : Target) (output : String) : Except Error Translator := do
  let (lib, ns, wire) := match target with
    | .qdi => (Config.Key.cellLibQdi, Config.Key.cellLibQdiNamespace, Config.Key.cellLibQdiWire)
    | .bundledData => (Config.Key.cellLibBd, Config.Key.cellLibBdNamespace, Config.Key.cellLibBdWire)
  let cellLib ← match cfg.path lib with
    | some p => pure p
    | none => throw (Config.missingKey ("translate: " ++ lib))
  let namespace_ ← cfg.string ns
  let wireType ← cfg.string wire
  let binary := (cfg.path Config.Key.v2actPath).getD "v2act"
  pure { binary, cellLib, namespace_, wireType, output }

def Translator.args (t : Translator) (netlist : String) : List String :=
  (if t.wireType != "bool" then ["-a", "-C", t.wireType] else []) ++
    ["-l", t.cellLib, "-n", t.namespace_, netlist]

/-- Translates a netlist and appends the result to the output file. -/
def Translator.append (t : Translator) (netlist : String) : Act Unit := do
  match ← Act.attempt (Act.disk fun d => (d.touch t.output).map ((), ·)) with
  | .error e => throw (e.wrap "translate: open output")
  | .ok () => pure ()
  let args := t.args netlist
  logStep (t.binary ++ " " ++ " ".intercalate args ++ " >> " ++ t.output)
  let err := (← get).streams.err
  match ← exec t.binary args (.file t.output) err with
  | .error e => throw (e.wrap ("translate: " ++ t.binary ++ " failed"))
  | .ok 0 => pure ()
  | .ok code => throw ((exitError code).wrap ("translate: " ++ t.binary ++ " failed"))

end BitSynth.Translate
