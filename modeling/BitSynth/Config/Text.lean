import BitSynth.Config.Store
import BitSynth.Config.Keys
import BitSynth.Host.Path
import BitSynth.Host.Disk
import BitSynth.Text.Lines

namespace BitSynth.Config

/-- Splits a line at blanks into fields. A double-quoted string stays one field with its quotes,
a backslash inside it keeps the next character, and `#` outside quotes ends the line. -/
def splitFields (line : String) : Except Error (List String) :=
  let rec go : List Char → Bool → Bool → List Char → List String → Except Error (List String)
    | [], inQuote, inField, cur, out =>
      if inQuote then .error (.plain "unterminated string")
      else .ok (if inField then out ++ [String.ofList cur.reverse] else out)
    | c :: rest, inQuote, inField, cur, out =>
      if inQuote then
        if c == '\\' then
          match rest with
          | n :: more => go more true inField (n :: c :: cur) out
          | [] => go [] true inField (c :: cur) out
        else go rest (c != '"') inField (c :: cur) out
      else if c == '"' then go rest true true (c :: cur) out
      else if c == '#' then go [] false inField cur out
      else if c == ' ' || c == '\t' || c == '\r' then
        if inField then go rest false false [] (out ++ [String.ofList cur.reverse])
        else go rest false false cur out
      else go rest false true (c :: cur) out
  go line.toList false false [] []

/-- Loading configuration: the store survives an error, keeping what was read before it. -/
abbrev Loading := ExceptT Error (StateM Store)

/-- The text a path names as a statement argument: a quoted string stands for its contents. -/
def unquoteArg (s : String) : String :=
  match parseValue .string s with
  | .ok (.text t) => t
  | _ => s

/-- Runs one statement of the file `name` at line `lineNo` with the open scopes (innermost
first); `include` reads a file through the given loader. -/
def statement (includeFile : String → Loading Unit) (name : String) (lineNo : Nat)
    (scopes : List String) (fields : List String) : Loading (List String) := do
  let fail (msg : String) : Loading (List String) :=
    throw (.plain (name ++ ":" ++ toString lineNo ++ ": " ++ msg))
  match fields with
  | [] => pure scopes
  | kw :: args =>
    match kw with
    | "begin" =>
      match args with
      | [n] => pure (n :: scopes)
      | _ => fail "begin takes one name"
    | "end" =>
      if !args.isEmpty then fail "end takes no arguments"
      else
        match scopes with
        | [] => fail "end without begin"
        | _ :: outer => pure outer
    | "include" =>
      match args with
      | [file] =>
        let path := unquoteArg file
        let path := if Path.isAbsolute path then path else Path.join [Path.dir name, path]
        tryCatch (includeFile path) fun e => throw (e.wrap (name ++ ":" ++ toString lineNo))
        pure scopes
      | _ => fail "include takes one file"
    | "int" | "real" | "string" =>
      match args with
      | [key, text] =>
        let t : ValueType := if kw == "int" then .int else if kw == "real" then .real else .string
        match parseValue t text with
        | .error e => fail e.message
        | .ok v =>
          let full := ".".intercalate (scopes.reverse ++ [key])
          modify fun s => s.put full v true
          pure scopes
      | _ => fail (kw ++ " takes a name and a value")
    | _ => fail ("unknown statement " ++ Text.quote kw)

/-- Runs a line of a text named `name`, numbered from zero, with the open scopes: its fields are
one statement. -/
def lineStatement (includeFile : String → Loading Unit) (name : String) (scopes : List String)
    (line : String × Nat) : Loading (List String) :=
  match splitFields line.1 with
  | .error e => throw (e.wrap (name ++ ":" ++ toString (line.2 + 1)))
  | .ok fields => statement includeFile name (line.2 + 1) scopes fields

def parseWith (includeFile : String → Loading Unit) (text name : String) : Loading Unit := do
  let (lines, tooLong) := Text.scanBounded Text.lineLimit text
  let scopes ← lines.zipIdx.foldlM (lineStatement includeFile name) []
  if tooLong then throw (.plain ("read " ++ name ++ ": bufio.Scanner: token too long"))
  match scopes with
  | [] => pure ()
  | innermost :: _ => throw (.plain (name ++ ": missing end for begin " ++ innermost))

/-- Reads a file and the files it includes, at most `depth` levels deep. -/
def loadWithin (read : String → Except IoError String) : Nat → String → Loading Unit
  | 0, path => throw (.plain ("config: includes nested too deeply at " ++ path))
  | depth + 1, path =>
    match read path with
    | .error e =>
      if e.op == "open" then throw (e.toError.wrap "config")
      else throw (e.toError.wrap ("read " ++ path))
    | .ok text => parseWith (loadWithin read depth) text path

/-- The deepest chain of files a load follows: the file itself and sixteen nested includes. -/
def includeLimit : Nat := 17

/-- Reads statements from a text named `name`; includes are read through `read`. -/
def parse (read : String → Except IoError String) (text name : String) : Loading Unit :=
  parseWith (loadWithin read (includeLimit - 1)) text name

def load (read : String → Except IoError String) (path : String) : Loading Unit :=
  loadWithin read includeLimit path

/-- A store built in three layers: the defaults when `withDefaults`, then the statements of a text
named `cfg`, then `key=value` overrides in order. The first failure stops the build. -/
def assemble (read : String → Except IoError String) (withDefaults : Bool) (text : Option String)
    (overrides : List (String × String)) : Except Error Store := do
  let base := if withDefaults then defaults else {}
  let parsed ← match text with
    | .none => pure base
    | .some t =>
      match ((parse read t "cfg").run).run base with
      | (.ok (), s) => pure s
      | (.error e, _) => throw e
  overrides.foldlM (fun s (k, v) => s.set k v) parsed

end BitSynth.Config
