import BitSynth.Text.Quoted

namespace BitSynth

/-- How serious a diagnostic is. -/
inductive Severity where
  | error
  | warning
  deriving Repr, BEq, DecidableEq, Inhabited

def Severity.name : Severity → String
  | .error => "error"
  | .warning => "warning"

/-- One reported issue; `node` is -1 when the issue is tied to no node. -/
structure Diagnostic where
  severity : Severity
  node : Int
  message : String
  deriving Repr, BEq, Inhabited

/-- How echoed diagnostics are written. -/
inductive DiagFormat where
  | text
  | json
  deriving Repr, BEq, DecidableEq, Inhabited

def DiagFormat.ofName (s : String) : DiagFormat := if s == "json" then .json else .text

/-- A JSON string literal in the escaped style of the echoed objects: quote, backslash and control
characters escaped, and `<`, `>`, `&`, U+2028 and U+2029 written as `\u` escapes. -/
def jsonString (s : String) : String :=
  let esc (c : Char) : String :=
    match c with
    | '"' => "\\\""
    | '\\' => "\\\\"
    | '\n' => "\\n"
    | '\r' => "\\r"
    | '\t' => "\\t"
    | '\x08' => "\\b"
    | '\x0c' => "\\f"
    | '<' => "\\u003c"
    | '>' => "\\u003e"
    | '&' => "\\u0026"
    | _ =>
      if c.toNat < 0x20 then "\\u00" ++ Text.hexDigits 2 c.toNat
      else if c.toNat == 0x2028 || c.toNat == 0x2029 then "\\u" ++ Text.hexDigits 4 c.toNat
      else String.singleton c
  "\"" ++ String.join (s.toList.map esc) ++ "\""

/-- The echo line of a diagnostic: `severity: nN: message` for a node, `severity: message`
otherwise; in JSON, an object whose `node` member is left out unless positive. -/
def Diagnostic.line (format : DiagFormat) (d : Diagnostic) : String :=
  match format with
  | .json =>
    "\x7b\"severity\":" ++ jsonString d.severity.name ++
      (if d.node > 0 then ",\"node\":" ++ toString d.node else "") ++
      ",\"message\":" ++ jsonString d.message ++ "\x7d\n"
  | .text =>
    if d.node ≥ 0 then d.severity.name ++ ": n" ++ toString d.node ++ ": " ++ d.message ++ "\n"
    else d.severity.name ++ ": " ++ d.message ++ "\n"

/-- Collected diagnostics and their echo. Without `echoes`, nothing is written. -/
structure Reporter where
  format : DiagFormat := .text
  echoes : Bool := true
  diagnostics : Array Diagnostic := #[]
  echo : String := ""
  deriving Repr, Inhabited

namespace Reporter

def writing (format : DiagFormat) : Reporter := { format }

def silent : Reporter := { echoes := false }

def add (r : Reporter) (d : Diagnostic) : Reporter :=
  { r with diagnostics := r.diagnostics.push d,
           echo := if r.echoes then r.echo ++ d.line r.format else r.echo }

def error (r : Reporter) (node : Int) (message : String) : Reporter := r.add ⟨.error, node, message⟩

def errorFree (r : Reporter) (message : String) : Reporter := r.add ⟨.error, -1, message⟩

def warning (r : Reporter) (node : Int) (message : String) : Reporter := r.add ⟨.warning, node, message⟩

def errorCount (r : Reporter) : Nat := (r.diagnostics.filter (·.severity == .error)).size

end Reporter

end BitSynth
