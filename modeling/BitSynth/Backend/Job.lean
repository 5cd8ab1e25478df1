import BitSynth.Config.Keys
import BitSynth.Host.Programs
import BitSynth.Decimal.Text

namespace BitSynth.Backend

/-- One mapping run: the module `top` of the Verilog file `input` is mapped into `output`, with
tie cells for constant outputs when `tieCells` is set. -/
structure Job where
  input : String
  output : String
  top : String
  tieCells : Bool := false
  deriving Inhabited

/-- The timing constraints handed to a mapper: the output load and the cell driving every input,
when one is set. -/
structure Constraints where
  load : Float
  drivingCell : String := ""
  deriving Inhabited

/-- The cell library of the typical corner, which every mapping backend needs. -/
def requireLiberty (cfg : Config.Store) : Except Error String :=
  match cfg.path Config.Key.libertyTypical with
  | some p => .ok p
  | none => .error (Config.missingKey ("please define " ++ Config.Key.libertyTypical ++ " in the configuration"))

def toolPath (cfg : Config.Store) (key fallback : String) : String := (cfg.path key).getD fallback

def constraintsFrom (cfg : Config.Store) : Except Error Constraints := do
  let load ← cfg.real Config.Key.defaultLoad
  pure { load, drivingCell := (cfg.path Config.Key.drivingCell).getD "" }

def constraintsPath (input : String) : Except Error String :=
  if input.length < 3 || !input.endsWith ".v" then
    .error (.plain ("backend: verilog source " ++ Text.quote input ++ " should end in .v"))
  else .ok ((input.dropEnd 2).toString ++ ".sdc")

def Constraints.text (c : Constraints) : String :=
  "set_load " ++ c.load.text ++ "\n" ++
    (if c.drivingCell.isEmpty then "" else "set_driving_cell " ++ c.drivingCell ++ "\n")

/-- Writes the constraints next to a source and returns the file's path. -/
def Constraints.write (c : Constraints) (input : String) : Act String := do
  let path ← match constraintsPath input with
    | .ok p => pure p
    | .error e => throw e
  match ← Act.tryDisk fun d => (d.write path c.text).map ((), ·) with
  | .error e => throw (e.toError.wrap "backend: write constraints")
  | .ok () => pure path

/-- The program of a tool: a path with a slash must exist as it is; any other name, or the fallback
when the name is empty, is looked up in the search path. -/
def resolveBinary (explicit fallback : String) : Act String := do
  if !explicit.isEmpty && explicit.contains '/' then
    let _ ← statPath explicit
    pure explicit
  else
    match ← lookPath (if explicit.isEmpty then fallback else explicit) with
    | .ok p => pure p
    | .error e => throw e

/-- Removes files and directories: the given paths and every match of the patterns. A bad pattern
is logged and skipped. -/
def removeFiles (paths globs : List String) : Act Unit := do
  let mut all := paths
  for g in globs do
    match ← Act.attempt (globPaths g) with
    | .ok ms => all := all ++ ms
    | .error e => logWarn ("cleanup: bad pattern " ++ g ++ ": " ++ e.message)
  for p in all do
    if !p.isEmpty then removeAll p

end BitSynth.Backend
