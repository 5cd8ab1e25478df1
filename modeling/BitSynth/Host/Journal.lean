import BitSynth.Text.Quoted

namespace BitSynth

/-- The severity of a log message. -/
inductive Level where
  | error | warning | info | debug
  deriving Repr, BEq, DecidableEq, Inhabited

def Level.name : Level → String
  | .error => "error" | .warning => "warning" | .info => "info" | .debug => "debug"

def Level.rank : Level → Nat
  | .error => 0 | .warning => 1 | .info => 2 | .debug => 3

def Level.ofVerbosity (verbosity : Int) : Level :=
  if verbosity ≤ 0 then .warning else if verbosity == 1 then .info else .debug

/-- One log message. -/
structure LogEntry where
  level : Level
  message : String
  deriving Repr, BEq, Inhabited

/-- Whether a log value needs quotes: any character other than ASCII letters, digits and
`-._/@^+`. -/
def needsQuoting (s : String) : Bool :=
  s.any fun c => !(('a' ≤ c && c ≤ 'z') || ('A' ≤ c && c ≤ 'Z') || ('0' ≤ c && c ≤ '9') ||
    c == '-' || c == '.' || c == '_' || c == '/' || c == '@' || c == '^' || c == '+')

/-- The log line of a message, with its line end; an empty message has no `msg` field. -/
def LogEntry.line (e : LogEntry) : String :=
  let msg :=
    if e.message.isEmpty then ""
    else " msg=" ++ (if needsQuoting e.message then Text.quote e.message else e.message)
  "level=" ++ e.level.name ++ msg ++ "\n"

/-- The messages logged so far, oldest first. -/
structure Journal where
  entries : Array LogEntry := #[]
  deriving Inhabited

namespace Journal

def add (j : Journal) (level : Level) (message : String) : Journal :=
  { entries := j.entries.push ⟨level, message⟩ }

def text (j : Journal) (verbosity : Int) : String :=
  let shown := Level.ofVerbosity verbosity
  String.join (j.entries.toList.filter (·.level.rank ≤ shown.rank) |>.map LogEntry.line)

def debugShown (verbosity : Int) : Bool := verbosity ≥ 2

end Journal

/-- Computations that log. -/
abbrev Logged := StateM Journal

def warn (message : String) : Logged Unit := modify (·.add .warning message)

def inform (message : String) : Logged Unit := modify (·.add .info message)

def debugLog (message : String) : Logged Unit := modify (·.add .debug message)

end BitSynth
