import BitSynth.Cli.Flags

namespace BitSynth.Cli

/-- How many positional arguments a command accepts. -/
inductive Arity where
  /-- Any number; a root command with subcommands refuses unknown ones. -/
  | free
  /-- Exactly this many. -/
  | exactly (n : Nat)
  /-- None: a stray argument is an unknown command. -/
  | none
  deriving Repr, BEq, Inhabited

/-- What running a command does. A command without an action only shows its help. -/
inductive Action where
  | none
  | synth
  | verilog
  | inspect
  | cacheList
  | cacheVerify
  | serve
  | help
  | completion (shell : String)
  deriving Repr, BEq, Inhabited

/-- A command of the tree. -/
structure Command where
  name : String
  use : String
  short : String := ""
  long : String := ""
  hidden : Bool := false
  action : Action := .none
  arity : Arity := .free
  flagsInUseLine : Bool := true
  localFlags : List Flag := []
  persistentFlags : List Flag := []
  commands : List Command := []
  deriving Inhabited

def Command.runnable (c : Command) : Bool := c.action != .none

/-- The path from the root to a command, root first. -/
abbrev Chain := List Command

def Chain.last (c : Chain) : Command := c.getLastD default

def Chain.path (c : Chain) : String := " ".intercalate (c.map (·.name))

def Chain.inherited (c : Chain) : List Flag := (c.dropLast.reverse.map (·.persistentFlags)).flatten

def helpFlag (c : Chain) : Flag := .bool "help" "h" ("help for " ++ c.last.name)

/-- The flags of a command itself: its local and persistent flags, then its help switch when
`withHelp`. -/
def Chain.own (c : Chain) (withHelp : Bool) : List Flag :=
  c.last.localFlags ++ c.last.persistentFlags ++ (if withHelp then [helpFlag c] else [])

def Chain.allFlags (c : Chain) (withHelp : Bool) : List Flag := c.own withHelp ++ c.inherited

/-- Whether a command is listed among its parent's subcommands: not hidden, not the help command,
and runnable or with listed subcommands of its own. -/
def Command.available (c : Command) : Bool :=
  !c.hidden && c.name != "help" && (c.runnable || c.commands.any fun s => !s.hidden && s.runnable)

def takesValue (flags : List Flag) (s : String) : Bool :=
  if s.contains '=' then false
  else if s.startsWith "--" then
    match lookupLong flags (s.drop 2).toString with
    | some f => f.kind != .bool
    | none => true
  else if s.startsWith "-" && s.length == 2 then
    match (s.drop 1).toString.toList with
    | [c] => match lookupShort flags c with
      | some f => f.kind != .bool
      | none => true
    | _ => false
  else false

/-- The arguments that are neither flags nor flag values, up to `--`; a value-taking flag with at
most one argument after it ends the scan. -/
def positionals (flags : List Flag) : List String → List String
  | [] => []
  | s :: rest =>
    if s == "--" then []
    else if takesValue flags s then
      match rest with
      | _ :: after@(_ :: _) => positionals flags after
      | _ => []
    else if !s.isEmpty && !s.startsWith "-" then s :: positionals flags rest
    else positionals flags rest
termination_by args => args.length

/-- Removes the first argument equal to `x` that is neither a flag nor a flag value. -/
def withoutFirst (flags : List Flag) (x : String) : List String → List String
  | [] => []
  | s :: rest =>
    if s == "--" then s :: rest
    else if takesValue flags s then
      match rest with
      | v :: after => s :: v :: withoutFirst flags x after
      | [] => [s]
    else if !s.startsWith "-" && s == x then rest
    else s :: withoutFirst flags x rest
termination_by args => args.length

def Command.child? (c : Command) (name : String) : Option Command := c.commands.find? (·.name == name)

/-- Walks the tree from a chain along the first positional arguments: the chain of the command
found and the arguments left. `fuel` bounds the depth. -/
def findWithin : Nat → Chain → List String → Chain × List String
  | 0, chain, args => (chain, args)
  | fuel + 1, chain, args =>
    match positionals (chain.allFlags false) args with
    | [] => (chain, args)
    | next :: _ =>
      match chain.last.child? next with
      | some sub => findWithin fuel (chain ++ [sub]) (withoutFirst (chain.allFlags false) next args)
      | none => (chain, args)

def editDistance (a b : String) : Nat :=
  let xs := a.toLower.toList
  let ys := b.toLower.toList
  let first : List Nat := (List.range (ys.length + 1))
  let row := xs.zipIdx.foldl (fun (prev : List Nat) (x, i) =>
    let start := i + 1
    let (_, cur) := ys.zipIdx.foldl (fun (acc : Nat × List Nat) (y, j) =>
      let (left, out) := acc
      let up := prev.getD (j + 1) 0
      let diag := prev.getD j 0
      let v := min (min (up + 1) (left + 1)) (diag + (if x == y then 0 else 1))
      (v, out ++ [v])) (start, [start])
    cur) first
  row.getD ys.length 0

/-- The subcommands a mistyped name may have meant: those within two edits, or that it begins. -/
def suggestions (c : Command) (typed : String) : List String :=
  (c.commands.filter fun s =>
    s.available && (editDistance typed s.name ≤ 2 || s.name.toLower.startsWith typed.toLower)).map (·.name)

/-- The command a command line names: its chain and the arguments left, or the refusal of an
unknown command at the root. -/
def find (root : Command) (args : List String) : Chain × List String × Option String :=
  let (chain, rest) := findWithin (args.length + 1) [root] args
  let cmd := chain.last
  let error :=
    if cmd.arity == .free && !cmd.commands.isEmpty && chain.length == 1 then
      match positionals (chain.allFlags false) rest with
      | typed :: _ =>
        let hint := match suggestions cmd typed with
          | [] => ""
          | ss => "\n\nDid you mean this?\n" ++ String.join (ss.map fun s => "\t" ++ s ++ "\n")
        some ("unknown command " ++ Text.quote typed ++ " for " ++ Text.quote chain.path ++ hint)
      | [] => none
    else none
  (chain, rest, error)

/-- The usage lines of a set of flags, sorted by name, descriptions aligned. -/
def flagUsages (flags : List Flag) : String :=
  let sorted := flags.mergeSort fun a b => decide (a.name ≤ b.name)
  let heads := sorted.map fun f =>
    (if f.short.isEmpty then "      --" ++ f.name else "  -" ++ f.short ++ ", --" ++ f.name) ++
      (if f.kind.valueName.isEmpty then "" else " " ++ f.kind.valueName)
  let width := heads.foldl (fun m h => max m (h.length + 1)) 0
  String.join ((sorted.zip heads).map fun (f, h) =>
    let dflt := if f.zeroDefault then ""
      else if f.kind == .text then " (default " ++ Text.quote f.defaultText ++ ")"
      else " (default " ++ f.defaultText ++ ")"
    h ++ " " ++ String.ofList (List.replicate (width - h.length) ' ') ++ " " ++ f.usage ++ dflt ++ "\n")

def trimEnd (s : String) : String := String.ofList (s.toList.reverse.dropWhile Char.isWhitespace).reverse

def Chain.useLine (c : Chain) : String :=
  let use := (if c.length > 1 then Chain.path c.dropLast ++ " " else "") ++ c.last.use
  if !c.last.flagsInUseLine || (use.splitOn "[flags]").length > 1 then use else use ++ " [flags]"

/-- The usage text of a command: its usage lines, subcommands, flags and inherited flags. -/
def usageText (c : Chain) (withHelp : Bool) : String :=
  let cmd := c.last
  let subs := cmd.commands.filter (·.available)
  let listed := (cmd.commands.filter fun s => s.available || s.name == "help").mergeSort
    fun a b => decide (a.name ≤ b.name)
  let pad := max 11 (cmd.commands.foldl (fun m s => max m s.name.length) 0)
  let rpad (s : String) : String := s ++ String.ofList (List.replicate (pad - s.length) ' ')
  let own := c.own withHelp
  let inherited := c.inherited
  "Usage:" ++
  (if cmd.runnable then "\n  " ++ c.useLine else "") ++
  (if !subs.isEmpty then "\n  " ++ c.path ++ " [command]" else "") ++
  (if !subs.isEmpty then
    "\n\nAvailable Commands:" ++ String.join (listed.map fun s => "\n  " ++ rpad s.name ++ " " ++ s.short)
   else "") ++
  (if !own.isEmpty then "\n\nFlags:\n" ++ trimEnd (flagUsages own) else "") ++
  (if !inherited.isEmpty then "\n\nGlobal Flags:\n" ++ trimEnd (flagUsages inherited) else "") ++
  (if !subs.isEmpty then
    "\n\nUse \"" ++ c.path ++ " [command] --help\" for more information about a command." else "") ++
  "\n"

def helpText (c : Chain) : String :=
  let cmd := c.last
  let about := if cmd.long.isEmpty then cmd.short else cmd.long
  (if about.isEmpty then "" else trimEnd about ++ "\n\n") ++
  (if cmd.runnable || !cmd.commands.isEmpty then usageText c true else "")

end BitSynth.Cli
