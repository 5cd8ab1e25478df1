import BitSynth.Source.Lower
import BitSynth.Expr.Check
import BitSynth.Expr.Width

namespace BitSynth.Source

/-- The stages of loading, in order. -/
inductive LoadStage where
  | parse | widths | bind | validate | infer
  deriving Repr, BEq, DecidableEq, Inhabited

def LoadStage.name : LoadStage → String
  | .parse => "parse" | .widths => "widths" | .bind => "bind" | .validate => "validate"
  | .infer => "infer"

/-- What loading found: the reporter, the graph, and, as far as loading got, the root, the
bindings, the node widths and the output width; `failure` names the stage that failed. -/
structure Loaded where
  reporter : Reporter
  arena : Arena := {}
  root : Option NodeId := none
  declared : Option WidthTable := none
  leaves : Option LeafMap := none
  widths : Option (List (NodeId × Int)) := none
  outWidth : Option Int := none
  failure : Option (LoadStage × Error) := none
  deriving Inhabited

/-- Loads a block from its source and width declarations; an output width of 0 takes the root's
width. -/
def load (src : String) (specs : List String) (outWidth : Int) (format : DiagFormat) :
    Except Fault Loaded :=
  let r := Reporter.writing format
  match parseInto {} src r with
  | (a, r, .error e) => .ok { reporter := r, arena := a, failure := some (.parse, e) }
  | (a, r, .ok root) =>
    let base : Loaded := { reporter := r, arena := a, root := some root }
    match parseWidths specs with
    | .error e => .ok { base with failure := some (.widths, e) }
    | .ok table =>
      let base := { base with declared := some table }
      match (a.bindSignals root table).run with
      | .error f => .error f
      | .ok (.error e) => .ok { base with failure := some (.bind, e) }
      | .ok (.ok leaves) =>
        let base := { base with leaves := some leaves }
        match a.check root leaves (some r) with
        | (r', .error e) => .ok { base with reporter := r'.getD r, failure := some (.validate, e) }
        | (r', .ok ()) =>
          let r := r'.getD r
          match a.inferWidths root leaves (some r) with
          | .error f => .error f
          | .ok (r', .error e) => .ok { base with reporter := r'.getD r, failure := some (.infer, e) }
          | .ok (r', .ok widths) =>
            let rootWidth := ((widths.find? (·.1 == root)).map (·.2)).getD 0
            .ok { base with reporter := r'.getD r, widths := some widths,
                            outWidth := some (if outWidth == 0 then rootWidth else outWidth) }

end BitSynth.Source
