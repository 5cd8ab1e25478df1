import BitSynth.Failure
import BitSynth.Host.Journal
import BitSynth.Text.Space
import BitSynth.Text.Search
import BitSynth.Text.Lines
import BitSynth.Decimal.Integer

namespace BitSynth.Abc

/-- One port: its name, its number of bits, and whether its bits were written with an index. -/
structure PortGroup where
  name : String
  bits : Int
  indexed : Bool := false
  deriving Repr, BEq, Inhabited

/-- Splits `name[k]` into the name and the index; a name without brackets has index `-1`. -/
def splitIndexed (entry : String) : Except Error (String × Int) :=
  match Text.breakOn? entry "[" with
  | none => .ok (entry, -1)
  | some (name, rest) =>
    if !entry.endsWith "]" || name.isEmpty then .error (.plain ("malformed port " ++ Text.quote entry))
    else
      let digits := Text.trimEnd rest "]"
      match Decimal.readInt? digits with
      | some k => if k < 0 then .error (.plain ("malformed port index " ++ Text.quote entry)) else .ok (name, k)
      | none => .error (.plain ("malformed port index " ++ Text.quote entry))

/-- Collapsing state: the finished ports and the indexed port being extended. -/
structure Collapse where
  done : Array PortGroup := #[]
  current : Option PortGroup := none

def Collapse.flush (c : Collapse) : Collapse :=
  match c.current with
  | some p => { done := c.done.push p, current := none }
  | none => c

/-- Adds a port entry, a name or `name[k]`, to the collapsing state. A plain name is a port of
one bit; `name[0]` starts an indexed port and `name[k]` extends it when it is the next bit. -/
def Collapse.add (c : Collapse) (entry : String) : Logged Collapse := do
  match splitIndexed entry with
  | .error e =>
    warn ("abc: " ++ e.message)
    return c.flush
  | .ok (name, index) =>
    if index < 0 then
      let c := c.flush
      return { c with done := c.done.push ⟨name, 1, false⟩ }
    let c := if index == 0 then { c.flush with current := some ⟨name, 0, true⟩ } else c
    match c.current with
    | some p =>
      if p.name != name || index != p.bits then
        warn ("abc: out of order port bit " ++ Text.quote entry)
        return c.flush
      return { c with current := some { p with bits := p.bits + 1 } }
    | none =>
      warn ("abc: out of order port bit " ++ Text.quote entry)
      return c.flush

/-- Reads one entry `i=name` of a port line into the collapsing state. -/
def collapseEntry (c : Collapse) (field : String) (i : Nat) : Logged Collapse := do
  let (pos, entry, found) := match Text.breakOn? field "=" with
    | some (p, e) => (p, e, true)
    | none => (field, "", false)
  match Decimal.readInt? pos with
  | some v =>
    if !found || v != i then
      warn ("abc: unexpected port entry " ++ Text.quote field ++ " at position " ++ toString i)
      return c
    c.add entry
  | none =>
    warn ("abc: unexpected port entry " ++ Text.quote field ++ " at position " ++ toString i)
    return c

/-- Parses `(n): 0=x 1=y[0] ...`, the part of a report line after its prefix. -/
def parsePortLine (rest : String) : Logged (Except Error (List PortGroup)) := do
  match Text.breakOn? rest "):" with
  | some (head, tail) =>
    if !rest.startsWith "(" then return .error (.plain ("missing port count in " ++ Text.quote rest))
    match Decimal.readInt? (Text.trimStart head "(") with
    | none => return .error (.plain ("bad port count in " ++ Text.quote rest))
    | some count =>
      let fields := Text.fields tail
      let used := fields.take count.toNat
      let c ← used.zipIdx.foldlM (fun c (f, i) => collapseEntry c f i) {}
      let ports := c.flush.done.toList
      if (fields.length : Int) < count then
        return .error (.plain s!"expected {count} ports, found {fields.length}")
      return .ok ports
  | none => return .error (.plain ("missing port count in " ++ Text.quote rest))

/-- Reads the input and output ports from the lines of a session log. The outputs line ends the
search; it must come after an inputs line. When the lines run out, `tooLong` says whether the
reader stopped at a line that is too long. -/
def scanReport (lines : List String) (tooLong : Bool) (inputs : Option (List PortGroup)) :
    Logged (Except Error (List PortGroup × List PortGroup)) := do
  match lines with
  | [] =>
    if tooLong then return .error (.plain "bufio.Scanner: token too long")
    return .error (.plain "no port report found in log")
  | line :: rest =>
    if line.startsWith "Primary inputs " then
      match ← parsePortLine (Text.trimStart line "Primary inputs ") with
      | .error e => return .error (e.wrap "primary inputs")
      | .ok ins => scanReport rest tooLong (some ins)
    else if line.startsWith "Primary outputs " then
      match ← parsePortLine (Text.trimStart line "Primary outputs ") with
      | .error e => return .error (e.wrap "primary outputs")
      | .ok outs =>
        match inputs with
        | none => return .error (.plain "port report lists outputs before inputs")
        | some ins => return .ok (ins, outs)
    else scanReport rest tooLong inputs

/-- The input and output ports of a session log's port report, read with the raised line limit. -/
def parsePortReport (log : String) : Logged (Except Error (List PortGroup × List PortGroup)) :=
  let (lines, tooLong) := Text.scanBounded Text.longLineLimit log
  scanReport lines tooLong none

def portDecl (kind : String) (p : PortGroup) : String :=
  if p.bits > 1 then s!"  {kind} [{p.bits - 1}:0] {p.name};\n" else s!"  {kind} {p.name};\n"

/-- The wires of a port that the wrapper connects: the port itself when it has one bit, else each
of its bits `name[i]`. -/
def PortGroup.wires (p : PortGroup) : List String :=
  if p.bits < 2 then [p.name] else (List.range p.bits.toNat).map fun i => s!"{p.name}[{i}]"

/-- The module `name` that passes its ports to the optimised module `<name>tmp`, bit by bit. -/
def wrapper (name : String) (inputs outputs : List PortGroup) : String :=
  let all := inputs ++ outputs
  let conns := all.flatMap PortGroup.wires
  "module " ++ name ++ " (" ++ ", ".intercalate (all.map (·.name)) ++ ");\n" ++
    String.join (inputs.map (portDecl "input")) ++ String.join (outputs.map (portDecl "output")) ++
    " " ++ name ++ "tmp _passthru_ (" ++ ", ".intercalate conns ++ ");\n" ++ "\nendmodule\n\n"

end BitSynth.Abc
