import BitSynth.Expr.Walk

namespace BitSynth

namespace Kind

def symbol : Kind → String
  | .and => "&" | .or => "|" | .xor => "^" | .add => "+" | .sub => "-" | .mul => "*"
  | .div => "/" | .mod => "%" | .shl => "<<" | .shr => ">>" | .asr => ">>>" | .lt => "<"
  | .gt => ">" | .le => "<=" | .ge => ">=" | .eq => "==" | .ne => "!="
  | .not => "!" | .complement => "~" | .neg => "-"
  | _ => ""

end Kind

namespace Arena

/-- The text of the tree below `id`, signal names passed through `rename`, within `fuel` levels. -/
def writeWithin (a : Arena) (rename : String → String) : Nat → NodeId → Except Fault String
  | 0, _ => .ok ""
  | fuel + 1, id => do
    let n ← a.get id
    let sub (i : Nat) : Except Fault String := do a.writeWithin rename fuel (← n.arg i)
    match n.kind with
    | .var => pure (rename n.name)
    | .int => pure (toString n.value)
    | .true => pure "true"
    | .false => pure "false"
    | .bitField => pure s!"{rename n.name}[{n.hi}:{n.lo}]"
    | .query => do
      let c ← sub 0
      let t ← sub 1
      let f ← sub 2
      pure ("(" ++ c ++ "?" ++ t ++ ":" ++ f ++ ")")
    | .concat => do
      let parts ← n.args.mapM (a.writeWithin rename fuel)
      pure ("\x7b" ++ ",".intercalate parts.toList ++ "\x7d")
    | .toBool => do pure ("bool(" ++ (← sub 0) ++ ")")
    | .toInt => do
      let x ← sub 0
      pure ("int(" ++ x ++ (if n.width > 0 then s!",{n.width}" else "") ++ ")")
    | k =>
      if k.isUnary then do pure (k.symbol ++ "(" ++ (← sub 0) ++ ")")
      else if k.isBinary then do
        let l ← sub 0
        let r ← sub 1
        pure ("(" ++ l ++ k.symbol ++ r ++ ")")
      else pure ("<" ++ k.name ++ ">")

def format (a : Arena) (root : NodeId) : Except Fault String :=
  a.writeWithin id (a.size + 1) root

/-- The text with every signal renamed `v<k>`, `k` being the position of its name in
`signalNames`; expressions that differ only in signal names share it. -/
def canonical (a : Arena) (root : NodeId) : Except Fault String := do
  let names ← a.signalNames root
  let rename (s : String) : String := "v" ++ toString (names.idxOf s)
  a.writeWithin rename (a.size + 1) root

def padRight (width : Nat) (s : String) : String :=
  s ++ String.ofList (List.replicate (width - s.length) ' ')

def detail (n : Node) : String :=
  let argList := ", ".intercalate (n.args.toList.map fun x => s!"n{x}")
  match n.kind with
  | .var => " " ++ n.name
  | .int => " " ++ toString n.value
  | .bitField => s!" {n.name}[{n.hi}:{n.lo}]"
  | .toInt => s!" width={n.width} " ++ argList
  | _ => if n.args.isEmpty then "" else " " ++ argList

def dumpLine (id : NodeId) (n : Node) : String :=
  "  n" ++ padRight 4 (toString id) ++ " " ++ padRight 10 n.kind.name ++ detail n ++ "\n"

/-- Dump lines of the nodes below `id` not yet seen, operands first, within `fuel` levels. -/
def dumpWithin (a : Arena) : Nat → NodeId → Array Bool × String → Except Fault (Array Bool × String)
  | 0, _, st => .ok st
  | fuel + 1, id, (seen, out) =>
    if marked seen id then .ok (seen, out)
    else do
      let n ← a.get id
      let (seen, out) ← n.args.foldlM (fun st arg => a.dumpWithin fuel arg st) (mark seen id, out)
      pure (seen, out ++ dumpLine id n)

/-- One line per node reachable from `root`, each after its operands; a root outside the arena
gives `<nil expression>`. -/
def dump (a : Arena) (root : NodeId) : Except Fault String :=
  if !a.valid root then .ok "<nil expression>\n"
  else do
    let (_, out) ← a.dumpWithin (a.size + 1) root (Array.replicate a.size false, "")
    pure out

end Arena

end BitSynth
