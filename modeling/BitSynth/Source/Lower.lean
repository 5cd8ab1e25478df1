import BitSynth.Source.Parser
import BitSynth.Expr.Binding
import BitSynth.Diagnostic
import BitSynth.Decimal.Integer
import BitSynth.Text.Space

namespace BitSynth.Source

/-- Lowering state: the arena, the reporter and the number of errors reported. -/
structure LowerState where
  arena : Arena
  reporter : Reporter
  errors : Nat := 0
  starts : Array Nat

/-- Lowering. -/
abbrev Lower := StateM LowerState

namespace Lower

def fail (off : Nat) (msg : String) : Lower NodeId := do
  modify fun s => { s with errors := s.errors + 1,
                           reporter := s.reporter.errorFree (positionText s.starts off ++ ": " ++ msg) }
  pure (-1)

def emit (f : Arena → Arena × NodeId) : Lower NodeId := do
  let s ← get
  let (a, id) := f s.arena
  set { s with arena := a }
  pure id

def unaryKind? : Token → Option Kind
  | .not => some .not
  | .xor => some .complement
  | .sub => some .neg
  | _ => none

def binaryKind? : Token → Option Kind
  | .and | .land => some .and
  | .or | .lor => some .or
  | .xor => some .xor
  | .add => some .add
  | .sub => some .sub
  | .mul => some .mul
  | .quo => some .div
  | .rem => some .mod
  | .shl => some .shl
  | .shr => some .shr
  | .lss => some .lt
  | .gtr => some .gt
  | .leq => some .le
  | .geq => some .ge
  | .eql => some .eq
  | .neq => some .ne
  | _ => none

/-- A bit index: an unsigned decimal integer literal, possibly parenthesised. -/
def index (t : Tree) : Lower (Option Int) := do
  match t.unparen with
  | .literal _ .int v =>
    match Decimal.readInt v with
    | .ok n => if n < 0 then do let _ ← fail t.pos ("bad bit index " ++ v); pure none else pure (some n)
    | .error _ => do
      let _ ← fail t.pos ("bad bit index " ++ v)
      pure none
  | _ => do
    let _ ← fail t.pos "bit index must be an integer literal"
    pure none

/-- Operand counts of the built-in functions: least and most (none: no bound). -/
def arity? : String → Option (Nat × Option Nat)
  | "sel" => some (3, some 3)
  | "cat" => some (1, none)
  | "asr" => some (2, some 2)
  | "bool" => some (1, some 1)
  | "int" => some (1, some 2)
  | _ => none

/-- The node of `int(x, w)` once `x` and the width `w`, written at `wPos`, are lowered. -/
def sized (x : NodeId) (w : Option Int) (wPos : Nat) : Lower NodeId :=
  match w with
  | some w =>
    if x == -1 then pure (-1)
    else if w == 0 then fail wPos "int() width must be positive"
    else emit (·.addToInt x w)
  | none => pure (-1)

/-- The node of a call of the built-in `name`, other than `int(x, w)`, once its arguments are
lowered; the arity was checked before. -/
def applyBuiltin (name : String) (ids : List NodeId) : Lower NodeId :=
  if ids.any (· == -1) then pure (-1)
  else
    let arg (i : Nat) : NodeId := ids.getD i (-1)
    match name with
    | "sel" => emit (·.addQuery (arg 0) (arg 1) (arg 2))
    | "cat" => emit fun a => ⟨⟨a.nodes.push { kind := .concat, args := ids.toArray }⟩, a.size⟩
    | "asr" => emit fun a => ⟨⟨a.nodes.push { kind := .asr, args := #[arg 0, arg 1] }⟩, a.size⟩
    | "bool" => emit (·.addToBool (arg 0))
    | _ => emit (·.addToInt (arg 0) 0)

/-- Whether a built-in taking between `least` and `most` arguments refuses `n` of them. -/
def outsideArity (n : Nat) (least : Nat) (most : Option Nat) : Bool :=
  n < least || (match most with | some m => n > m | none => false)

mutual

/-- Lowers a tree whose outermost parenthesis, if any, starts at `outer`; gives -1 after reporting
a failure. -/
def treeAt (outer : Nat) : Tree → Lower NodeId
  | .paren _ x => treeAt outer x
  | .ident _ name =>
    if name == "true" then emit (·.addBool true)
    else if name == "false" then emit (·.addBool false)
    else emit (·.addVar name)
  | .literal p kind v =>
    if kind != .int then fail p ("unsupported literal " ++ v)
    else
      match Decimal.readUnsigned "ParseUint" true (String.ofList (v.toList.filter (· != '_'))) with
      | .ok n => emit (·.addConst n)
      | .error e => fail p ("bad integer " ++ v ++ ": " ++ e.message)
  | .unary p op x =>
    match unaryKind? op with
    | none => fail p ("unsupported unary operator " ++ op.text)
    | some k => do
      let x ← treeAt x.pos x
      if x == -1 then pure (-1)
      else emit fun a => ⟨⟨a.nodes.push { kind := k, args := #[x] }⟩, a.size⟩
  | .binary x p op y =>
    match binaryKind? op with
    | none => fail p ("unsupported binary operator " ++ op.text)
    | some k => do
      let l ← treeAt x.pos x
      let r ← treeAt y.pos y
      if l == -1 || r == -1 then pure (-1)
      else emit fun a => ⟨⟨a.nodes.push { kind := k, args := #[l, r] }⟩, a.size⟩
  | .slice x low high three =>
    match x, low, high, three with
    | .ident _ name, some low, some high, false => do
      let hi ← index low
      let lo ← index high
      match hi, lo with
      | some hi, some lo => emit (·.addBitField name hi lo)
      | _, _ => pure (-1)
    | _, _, _, _ => fail x.pos "bit-fields take the form name[hi:lo]"
  | .index x i =>
    match x with
    | .ident _ name => do
      match ← index i with
      | some b => emit (·.addBitField name b b)
      | none => pure (-1)
    | _ => fail x.pos "bit selects take the form name[i]"
  | .call fn args =>
    match fn with
    | .ident p name =>
      match arity? name with
      | none => fail p ("unknown function " ++ name)
      | some (least, most) =>
        if outsideArity args.length least most then
          fail p (name ++ " called with " ++ toString args.length ++ " argument(s)")
        else
          match name, args with
          | "int", [x, wArg] => do
            let x ← treeAt x.pos x
            let w ← index wArg
            sized x w wArg.pos
          | _, args => do
            let ids ← lowerAll args
            applyBuiltin name ids
    | _ => fail fn.pos "unsupported call"
  | u => fail outer ("unsupported construct " ++ u.className)

def lowerAll : List Tree → Lower (List NodeId)
  | [] => pure []
  | t :: rest => do
    let x ← treeAt t.pos t
    let xs ← lowerAll rest
    pure (x :: xs)

end

def tree (t : Tree) : Lower NodeId := treeAt t.pos t

end Lower

/-- Reads a source into an arena: the root, or, after reporting to the reporter, the failure:
`expression parsing failed` for syntax errors (all reported as one diagnostic) and
`expression parsing failed with N issue(s)` for constructs that cannot be lowered. -/
def parseInto (a : Arena) (src : String) (r : Reporter) : Arena × Reporter × Except Error NodeId :=
  match parseExpression src with
  | .error errs => (a, r.errorFree (errorListText errs), .error (.plain "expression parsing failed"))
  | .ok t =>
    let starts := lineStarts src
    let (root, s) := (Lower.tree t).run { arena := a, reporter := r, starts }
    if s.errors > 0 then
      (s.arena, s.reporter,
        .error (.plain ("expression parsing failed with " ++ toString s.errors ++ " issue(s)")))
    else (s.arena, s.reporter, .ok root)

/-- Reads `name=width` declarations, separated by commas within each spec; later declarations of
a name replace earlier ones. -/
def parseWidths (specs : List String) : Except Error WidthTable :=
  specs.foldlM (fun t spec =>
    (spec.splitOn ",").foldlM (fun t item =>
      let item := Text.trimSpace item
      if item.isEmpty then .ok t
      else
        match item.splitOn "=" with
        | name :: rest@(_ :: _) =>
          let value := "=".intercalate rest
          match Decimal.readInt (Text.trimSpace value) with
          | .ok w =>
            if w ≤ 0 then .error (.plain ("width " ++ Text.quote item ++ " must be a positive integer"))
            else .ok (t.insert (Text.trimSpace name) w)
          | .error _ => .error (.plain ("width " ++ Text.quote item ++ " must be a positive integer"))
        | _ => .error (.plain ("width " ++ Text.quote item ++ " is not name=width"))) t)
    ({} : WidthTable)

end BitSynth.Source
