import BitSynth.Verilog.Compiler

namespace BitSynth.Verilog

/-- A named port or hidden wire. -/
structure Port where
  name : String
  width : Int
  deriving Repr, BEq, Inhabited

/-- A port or hidden wire driven by an expression root. -/
structure Assign where
  port : Port
  root : NodeId
  deriving Repr, Inhabited

/-- An expression block: its name, inputs, outputs and hidden wires; with `vectorizeAll`,
one-bit ports are declared as `[0:0]` vectors. -/
structure Module where
  name : String
  inputs : List Port := []
  outputs : List Assign := []
  hidden : List Assign := []
  vectorizeAll : Bool := false
  deriving Inhabited

/-- The input ports read by the leaves below `roots`, in first-occurrence order; a name bound at
two different widths is a semantic error. -/
def inputs (a : Arena) (leaves : LeafMap) (roots : List NodeId) : Guarded (List Port) := do
  let mut ports : Array Port := #[]
  for root in roots do
    let ls ← Guarded.ofChecked (a.leaves root)
    for id in ls do
      match leaves.find? id with
      | none => pure ()
      | some leaf =>
        match ports.find? (·.name == leaf.name) with
        | some p =>
          if p.width != leaf.width then
            throw (.semantic ("signal " ++ Text.quote leaf.name ++ " used with widths " ++
              toString p.width ++ " and " ++ toString leaf.width))
        | none => ports := ports.push ⟨leaf.name, leaf.width⟩
  pure ports.toList

def tempPrefix (names : List String) : Except Error String :=
  let candidates := (List.range 26).map fun i => "_xtp" ++ String.singleton (Char.ofNat ('a'.toNat + i))
  match candidates.find? fun p => !names.any (·.startsWith p) with
  | some p => .ok p
  | none => .error (.plain "verilog: could not find a unique temporary prefix")

def dedupe (ports : List Port) : List Port :=
  ports.foldl (fun acc p => if acc.any (·.name == p.name) then acc else acc ++ [p]) []

def declare (kind : String) (p : Port) (vectorize : Bool) : String :=
  if p.width == 1 && !vectorize then "\t" ++ kind ++ " " ++ p.name ++ " ;\n"
  else "\t" ++ kind ++ s!" [{wrapWord (p.width - 1)}:0] " ++ p.name ++ " ;\n"

/-- Compiles the assignments of a list, once per name, giving their `assign` lines. -/
def compileAssigns (list : List Assign) : Compiling String := do
  let mut done : List String := []
  let mut out := ""
  for as in list do
    if !done.contains as.port.name then
      done := as.port.name :: done
      let op ← tryCatch (Compiler.compile as.root) fun e => throw (e.wrap ("compile " ++ as.port.name))
      let op ← Compiler.resize op as.port.width
      out := out ++ "\tassign " ++ as.port.name ++ " = " ++ op.name ++ ";\n"
  pure out

def emit (a : Arena) (leaves : LeafMap) (m : Module) : Guarded String := do
  if m.name.isEmpty then throw (.plain "verilog: module needs a name")
  let ins := dedupe m.inputs
  let outs := dedupe (m.outputs.map (·.port))
  let hidden := dedupe (m.hidden.map (·.port))
  for p in ins ++ outs ++ hidden do
    if p.width ≤ 0 then
      throw (.semantic ("port " ++ Text.quote p.name ++ " has width " ++ toString p.width))
  let pre ← match tempPrefix ((ins ++ outs ++ hidden).map (·.name)) with
    | .ok p => pure p
    | .error e => throw e
  let run : Compiling String := do
    let h ← compileAssigns m.hidden
    let o ← compileAssigns m.outputs
    pure (h ++ o)
  let (result, c) ← Guarded.ofChecked (run.run' (Compiler.new a leaves pre))
  let assigns ← match result with
    | .ok s => pure s
    | .error e => throw e
  let header := "// generated expression module for " ++ m.name ++ "\n" ++
    "module " ++ m.name ++ " (" ++ ", ".intercalate ((ins ++ outs).map (·.name)) ++ " );\n"
  let decls := String.join (ins.map (declare "input" · m.vectorizeAll)) ++
    String.join (outs.map (declare "output" · m.vectorizeAll)) ++
    String.join (hidden.map (declare "wire" · m.vectorizeAll))
  pure (header ++ decls ++ c.body ++ assigns ++ "endmodule\n")

end BitSynth.Verilog
