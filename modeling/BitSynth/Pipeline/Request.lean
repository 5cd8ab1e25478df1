import BitSynth.Verilog.Module

namespace BitSynth.Pipeline

/-- A named output or hidden wire driven by an expression root. -/
structure Output where
  name : String
  root : NodeId
  width : Int
  deriving Repr, Inhabited

/-- One synthesis unit; with `translate`, the mapped netlist is also translated. -/
structure Request where
  name : String
  arena : Arena
  leaves : LeafMap
  inputs : List Verilog.Port := []
  outputs : List Output := []
  hidden : List Output := []
  translate : Bool := false
  deriving Inhabited

/-- A request for one expression driving `out`; the inputs are the bound leaves below the root in
first-occurrence order. -/
def Request.single (name : String) (a : Arena) (root : NodeId) (leaves : LeafMap) (width : Int) :
    Guarded Request := do
  let inputs ← Verilog.inputs a leaves [root]
  pure { name, arena := a, leaves, inputs, outputs := [⟨"out", root, width⟩] }

def Request.toModule (r : Request) (name : String) : Verilog.Module :=
  { name, inputs := r.inputs,
    outputs := r.outputs.map fun o => ⟨⟨o.name, o.width⟩, o.root⟩,
    hidden := r.hidden.map fun o => ⟨⟨o.name, o.width⟩, o.root⟩ }

end BitSynth.Pipeline
