import BitSynth.Host.Path
import BitSynth.Host.Pattern
import BitSynth.Failure

namespace BitSynth

/-- Why a file operation was refused. -/
inductive IoFault where
  | notFound
  | isDirectory
  | notDirectory
  | invalidArgument
  | notEmpty
  | permissionDenied
  deriving Repr, BEq, DecidableEq, Inhabited

def IoFault.text : IoFault → String
  | .notFound => "no such file or directory"
  | .isDirectory => "is a directory"
  | .notDirectory => "not a directory"
  | .invalidArgument => "invalid argument"
  | .notEmpty => "directory not empty"
  | .permissionDenied => "permission denied"

/-- A refused file operation: the operation, the path as given, and the reason. -/
structure IoError where
  op : String
  path : String
  fault : IoFault
  deriving Repr, BEq, Inhabited

/-- The message of a refused operation, such as `stat x.v: no such file or directory`. -/
def IoError.message (e : IoError) : String := e.op ++ " " ++ e.path ++ ": " ++ e.fault.text

def IoError.toError (e : IoError) : Error := .plain e.message

/-- What a path names: a file with its text, a directory, or an installed program known by the
name of its behaviour. -/
inductive Item where
  | file (data : String)
  | dir
  | program (tool : String)
  deriving Repr, BEq, Inhabited

def Item.isDir : Item → Bool
  | .dir => true
  | _ => false

/-- A file system: every node but the root under its absolute path, and the working directory. -/
structure Disk where
  cwd : String
  nodes : List (String × Item)
  deriving Inhabited

namespace Disk

/-- An empty file system with the given working directory and its ancestors. -/
def empty (cwd : String) : Disk :=
  let parts := Path.elements cwd
  let dirs := (List.range parts.length).map fun i => ("/" ++ "/".intercalate (parts.take (i + 1)), Item.dir)
  { cwd := Path.clean cwd, nodes := dirs }

def absolute (d : Disk) (p : String) : String := Path.resolve d.cwd p

def node? (d : Disk) (abs : String) : Option Item :=
  if abs == "/" then some .dir else (d.nodes.find? (·.1 == abs)).map (·.2)

/-- The proper ancestors of an absolute path, outermost first, the root left out. -/
def ancestors (abs : String) : List String :=
  let parts := Path.elements abs
  (List.range (parts.length - 1)).map fun i => "/" ++ "/".intercalate (parts.take (i + 1))

/-- Resolves a path as the system does: every ancestor must be a directory. The node, `none`
when only the last element is missing, or the reason the walk failed. -/
def lookup (d : Disk) (p : String) : Except IoFault (Option Item) :=
  if p.isEmpty then .error .notFound
  else if p.toList.contains '\x00' then .error .invalidArgument
  else
    let abs := d.absolute p
    let walk := (ancestors abs).foldl (fun (acc : Except IoFault Unit) a =>
      match acc with
      | .error e => .error e
      | .ok () =>
        match d.node? a with
        | some .dir => .ok ()
        | some _ => .error .notDirectory
        | none => .error .notFound) (.ok ())
    match walk with
    | .error e => .error e
    | .ok () => .ok (d.node? abs)

def stat (d : Disk) (op p : String) : Except IoError Item :=
  match d.lookup p with
  | .error f => .error ⟨op, p, f⟩
  | .ok none => .error ⟨op, p, .notFound⟩
  | .ok (some n) => .ok n

def present (d : Disk) (p : String) : Bool :=
  match d.lookup p with
  | .ok (some _) => true
  | _ => false

/-- The text of a file. Opening fails on a missing path; reading fails on a directory. -/
def read (d : Disk) (p : String) : Except IoError String :=
  match d.stat "open" p with
  | .error e => .error e
  | .ok (.file data) => .ok data
  | .ok .dir => .error ⟨"read", p, .isDirectory⟩
  | .ok (.program _) => .ok ""

def put (d : Disk) (abs : String) (n : Item) : Disk :=
  if d.nodes.any (·.1 == abs) then
    { d with nodes := d.nodes.map fun e => if e.1 == abs then (abs, n) else e }
  else { d with nodes := d.nodes ++ [(abs, n)] }

/-- Opens a file for writing, creating it when `create` is set: its current text, or the refusal.
A directory cannot be opened for writing. -/
def openWrite (d : Disk) (p : String) (create : Bool) : Except IoError String :=
  match d.lookup p with
  | .error f => .error ⟨"open", p, f⟩
  | .ok none => if create then .ok "" else .error ⟨"open", p, .notFound⟩
  | .ok (some .dir) => .error ⟨"open", p, .isDirectory⟩
  | .ok (some (.file data)) => .ok data
  | .ok (some (.program _)) => .ok ""

def write (d : Disk) (p data : String) : Except IoError Disk := do
  let _ ← d.openWrite p true
  pure (d.put (d.absolute p) (.file data))

/-- Appends a text to a file, creating the file first when `create` is set. -/
def append (d : Disk) (p data : String) (create : Bool) : Except IoError Disk := do
  let old ← d.openWrite p create
  pure (d.put (d.absolute p) (.file (old ++ data)))

/-- Creates a file if it is missing, leaving an existing one as it is. -/
def touch (d : Disk) (p : String) : Except IoError Disk := d.append p "" true

/-- Creates a directory and its missing ancestors. A file in the way is refused, naming the
first path that is not a directory. -/
def mkdirAll (d : Disk) (p : String) : Except IoError Disk :=
  if p.toList.contains '\x00' then .error ⟨"mkdir", p, .invalidArgument⟩
  else
    let abs := d.absolute p
    let chain := ancestors abs ++ (if abs == "/" then [] else [abs])
    -- the paths as given: the relative prefix of each ancestor
    let given (a : String) : String :=
      if Path.isAbsolute p then a
      else
        let rel := Path.elements a |>.drop (Path.elements d.cwd).length
        if rel.isEmpty then "." else "/".intercalate rel
    chain.foldl (fun (acc : Except IoError Disk) a => do
      let d ← acc
      match d.node? a with
      | some .dir => pure d
      | some _ => throw ⟨"mkdir", given a, .notDirectory⟩
      | none => pure (d.put a .dir)) (.ok d)

def inside (d : Disk) (abs : String) : List String :=
  let pre := if abs == "/" then "/" else abs ++ "/"
  (d.nodes.filter (·.1.startsWith pre)).map (·.1)

def remove (d : Disk) (p : String) : Except IoError Disk :=
  match d.stat "remove" p with
  | .error e => .error e
  | .ok n =>
    let abs := d.absolute p
    if n.isDir && !(d.inside abs).isEmpty then .error ⟨"remove", p, .notEmpty⟩
    else .ok { d with nodes := d.nodes.filter (·.1 != abs) }

/-- Removes a path and everything inside it; a missing path is no error. -/
def removeAll (d : Disk) (p : String) : Disk :=
  if p.isEmpty then d
  else
    let abs := d.absolute p
    let pre := abs ++ "/"
    { d with nodes := d.nodes.filter fun e => e.1 != abs && !e.1.startsWith pre }

def names (d : Disk) (abs : String) : List String :=
  let pre := if abs == "/" then "/" else abs ++ "/"
  let direct := d.nodes.filterMap fun e =>
    if e.1.startsWith pre then
      let rest := (e.1.drop pre.length).toString
      if rest.toList.contains '/' then none else some rest
    else none
  direct.mergeSort fun a b => decide (a ≤ b)

/-- The entries of one directory that match a pattern, joined to the directory path as given. -/
def globIn (d : Disk) (dir pattern : String) : Except Error (List String) :=
  match d.lookup dir with
  | .ok (some .dir) =>
    (d.names (d.absolute dir)).foldlM (fun acc n => do
      if ← Pattern.accepts pattern n then pure (acc ++ [Path.join [dir, n]]) else pure acc) []
  | _ => .ok []

def splitLast (p : String) : String × String :=
  match (Text.splitChar p '/').reverse with
  | last :: front@(_ :: _) => ("/".intercalate front.reverse ++ "/", last)
  | _ => ("", p)

/-- The directory part of a pattern without its final slash, `.` when empty. -/
def globDir (dir : String) : String :=
  if dir.isEmpty then "."
  else if dir == "/" then dir
  else (dir.dropEnd 1).toString

/-- The paths that match a pattern, in sorted order within each directory. A pattern without
special characters names at most the one path. The directory part may itself be a pattern; the
fuel bounds its depth. -/
def globWith (d : Disk) : Nat → String → Except Error (List String)
  | 0, _ => .error Pattern.badPattern
  | fuel + 1, pattern => do
    let _ ← Pattern.accepts pattern ""
    if !Pattern.hasMeta pattern then
      pure (if d.present pattern then [pattern] else [])
    else
      let (dir, file) := splitLast pattern
      let dir := globDir dir
      if !Pattern.hasMeta dir then d.globIn dir file
      else if dir == pattern then throw Pattern.badPattern
      else
        let outer ← d.globWith fuel dir
        outer.foldlM (fun acc o => do pure (acc ++ (← d.globIn o file))) []

def glob (d : Disk) (pattern : String) : Except Error (List String) :=
  d.globWith (pattern.length + 1) pattern

/-- Every file under the working directory, by its path relative to it, in sorted order. -/
def listing (d : Disk) : List (String × String) :=
  let pre := if d.cwd == "/" then "/" else d.cwd ++ "/"
  let files := d.nodes.filterMap fun e =>
    match e.2 with
    | .file data => if e.1.startsWith pre then some ((e.1.drop pre.length).toString, data) else none
    | _ => none
  files.mergeSort fun a b => decide (a.1 ≤ b.1)

/-- A file system with files written in sorted path order, each after its parent directories.
Paths that cannot be written are left out. -/
def withFiles (d : Disk) (files : List (String × String)) : Disk :=
  (files.mergeSort fun a b => decide (a.1 ≤ b.1)).foldl (fun d (p, data) =>
    let d := match d.mkdirAll (Path.dir p) with
      | .ok d => d
      | .error _ => d
    match d.write p data with
    | .ok d => d
    | .error _ => d) d

/-- A file system with programs installed at the given paths, their directories created. -/
def withPrograms (d : Disk) (programs : List (String × String)) : Disk :=
  programs.foldl (fun d (p, tool) =>
    let d := match d.mkdirAll (Path.dir p) with
      | .ok d => d
      | .error _ => d
    d.put (d.absolute p) (.program tool)) d

end Disk

end BitSynth
