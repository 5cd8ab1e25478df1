import BitSynth.Decimal.Integer
import BitSynth.Text.Quoted

namespace BitSynth.Cli

/-- What a flag holds: a switch, a string, an integer, or a list of strings that grows with every
use. -/
inductive FlagKind where
  | bool | text | int | texts
  deriving Repr, BEq, DecidableEq, Inhabited

/-- A flag: its long name, shorthand (empty when none), kind, usage line and default as text. -/
structure Flag where
  name : String
  short : String := ""
  kind : FlagKind
  usage : String
  defaultText : String := ""
  deriving Inhabited

def Flag.bool (name short usage : String) : Flag := { name, short, kind := .bool, usage, defaultText := "false" }

def Flag.text (name short usage defaultText : String) : Flag := { name, short, kind := .text, usage, defaultText }

def Flag.int (name short usage : String) (default : Int) : Flag :=
  { name, short, kind := .int, usage, defaultText := toString default }

def Flag.texts (name short usage : String) : Flag := { name, short, kind := .texts, usage, defaultText := "[]" }

def FlagKind.valueName : FlagKind → String
  | .bool => "" | .text => "string" | .int => "int" | .texts => "stringArray"

/-- Whether a flag's default is the zero value of its kind, which usage lines leave out. -/
def Flag.zeroDefault (f : Flag) : Bool :=
  match f.kind with
  | .bool => f.defaultText == "false"
  | .text => f.defaultText.isEmpty
  | .int => f.defaultText == "0"
  | .texts => f.defaultText == "[]"

/-- A value given to a flag. -/
inductive FlagValue where
  | bool (b : Bool)
  | text (s : String)
  | int (i : Int)
  | texts (xs : List String)
  deriving Repr, Inhabited

/-- The flags given on a command line and the arguments left. -/
structure Parsed where
  values : List (String × FlagValue) := []
  args : List String := []
  deriving Inhabited

def readBool (s : String) : Except String Bool :=
  if ["1", "t", "T", "TRUE", "true", "True"].contains s then .ok true
  else if ["0", "f", "F", "FALSE", "false", "False"].contains s then .ok false
  else .error ("strconv.ParseBool: parsing " ++ Text.quote s ++ ": invalid syntax")

def Parsed.set (p : Parsed) (f : Flag) (value : String) : Except String Parsed := do
  let shown := if f.short.isEmpty then "--" ++ f.name else "-" ++ f.short ++ ", --" ++ f.name
  let invalid (why : String) : String :=
    "invalid argument " ++ Text.quote value ++ " for " ++ Text.quote shown ++ " flag: " ++ why
  let v ← match f.kind with
    | .bool => match readBool value with
      | .ok b => pure (FlagValue.bool b)
      | .error why => throw (invalid why)
    | .text => pure (.text value)
    | .int => match Decimal.readSigned "ParseInt" true value with
      | .ok i => pure (.int i)
      | .error e => throw (invalid e.message)
    | .texts =>
      let old := match p.values.lookup f.name with
        | some (.texts xs) => xs
        | _ => []
      pure (.texts (old ++ [value]))
  pure { p with values := (p.values.filter (·.1 != f.name)) ++ [(f.name, v)] }

def lookupLong (flags : List Flag) (name : String) : Option Flag := flags.find? (·.name == name)

def lookupShort (flags : List Flag) (c : Char) : Option Flag :=
  flags.find? fun f => f.short == String.singleton c

/-- Reads one group of shorthands after a dash, with the arguments that follow it. -/
def parseShorts (flags : List Flag) (group : String) (rest : List String) (p : Parsed) :
    List Char → Except String (Parsed × List String)
  | [] => .ok (p, rest)
  | c :: more =>
    match lookupShort flags c with
    | none => .error ("unknown shorthand flag: " ++ Text.quoteChar c ++ " in -" ++ group)
    | some f =>
      match more with
      | '=' :: value@(_ :: _) => do pure (← p.set f (String.ofList value), rest)
      | _ =>
        if f.kind == .bool then do parseShorts flags group rest (← p.set f "true") more
        else if !more.isEmpty then do pure (← p.set f (String.ofList more), rest)
        else match rest with
          | v :: after => do pure (← p.set f v, after)
          | [] => .error ("flag needs an argument: " ++ Text.quoteChar c ++ " in -" ++ group)

/-- Parses the flags of a command line, collecting the other arguments, within `fuel` steps of one
argument or more each. -/
def parseFlagsWithin (flags : List Flag) : Nat → List String → Parsed → Except String Parsed
  | 0, rest, p => .ok { p with args := p.args ++ rest }
  | _ + 1, [], p => .ok p
  | fuel + 1, s :: rest, p =>
    if s == "--" then .ok { p with args := p.args ++ rest }
    else if s.startsWith "--" then
      let body := (s.drop 2).toString
      if body.startsWith "-" || body.startsWith "=" then .error ("bad flag syntax: " ++ s)
      else
        let (name, attached) := match body.splitOn "=" with
          | n :: v :: vs => (n, some ("=".intercalate (v :: vs)))
          | _ => (body, none)
        match lookupLong flags name with
        | none => .error ("unknown flag: --" ++ name)
        | some f =>
          match attached, f.kind with
          | some v, _ => do parseFlagsWithin flags fuel rest (← p.set f v)
          | none, .bool => do parseFlagsWithin flags fuel rest (← p.set f "true")
          | none, _ =>
            match rest with
            | v :: after => do parseFlagsWithin flags fuel after (← p.set f v)
            | [] => .error ("flag needs an argument: " ++ s)
    else if s.startsWith "-" && s.length > 1 then
      let group := (s.drop 1).toString
      match parseShorts flags group rest p group.toList with
      | .ok (p, rest) => parseFlagsWithin flags fuel rest p
      | .error e => .error e
    else parseFlagsWithin flags fuel rest { p with args := p.args ++ [s] }

def Flag.initial (f : Flag) : FlagValue :=
  match f.kind with
  | .bool => .bool (f.defaultText == "true")
  | .text => .text f.defaultText
  | .int => .int (f.defaultText.toInt?.getD 0)
  | .texts => .texts []

/-- Parses the flags of a command line, collecting the other arguments; flags not given keep
their defaults. -/
def parseFlags (flags : List Flag) (args : List String) : Except String Parsed :=
  parseFlagsWithin flags (args.length + 1) args { values := flags.map fun f => (f.name, f.initial) }

def Parsed.text (p : Parsed) (name : String) : String :=
  match p.values.lookup name with
  | some (.text s) => s
  | _ => ""

def Parsed.texts (p : Parsed) (name : String) : List String :=
  match p.values.lookup name with
  | some (.texts xs) => xs
  | _ => []

def Parsed.switch (p : Parsed) (name : String) : Bool :=
  match p.values.lookup name with
  | some (.bool b) => b
  | _ => false

def Parsed.int (p : Parsed) (name : String) : Int :=
  match p.values.lookup name with
  | some (.int i) => i
  | _ => 0

end BitSynth.Cli
