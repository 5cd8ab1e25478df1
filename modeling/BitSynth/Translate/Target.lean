import BitSynth.Text.Quoted
import BitSynth.Failure

namespace BitSynth.Translate

/-- The circuit style of a translation. -/
inductive Target where
  | qdi
  | bundledData
  deriving Repr, BEq, DecidableEq, Inhabited

def Target.code : Target → Int
  | .qdi => 0
  | .bundledData => 1

def Target.parse (name : String) : Except Error Target :=
  match name with
  | "qdi" => .ok .qdi
  | "bd" => .ok .bundledData
  | _ => .error (.plain ("translate: unknown target " ++ Text.quote name))

end BitSynth.Translate
