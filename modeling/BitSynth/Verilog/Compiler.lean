import BitSynth.Expr.Width
import BitSynth.Expr.Printer

namespace BitSynth.Verilog

/-- A compiled value: the wire that carries it and its width. -/
structure Operand where
  name : String
  width : Int
  deriving Repr, BEq, Inhabited

/-- The right-hand side of a wire declaration, in the forms the compiler writes. -/
inductive Rhs where
  /-- A net: `a`. -/
  | net (name : String)
  /-- One bit of a net: `a[i]`. -/
  | bit (name : String) (index : Int)
  /-- A range of bits of a net: `a[hi:lo]`. -/
  | part (name : String) (hi lo : Int)
  /-- A net behind a pad of `zeros` zero bits: `{z'd0, a}`. -/
  | pad (zeros : Int) (name : String)
  /-- A sized decimal literal: `w'dv`. -/
  | dec (width : Int) (value : Nat)
  /-- A one-bit literal: `1'b1` or `1'b0`. -/
  | bin (b : Bool)
  /-- An operator written before a net: `~a`, `-a`. -/
  | unop (op x : String)
  /-- An operator written between two nets: `a + b`. -/
  | binop (l op r : String)
  /-- A select: `c ? t : f`. -/
  | cond (c t f : String)
  /-- A net tested against zero: `a ? 1'b1 : 1'b0`. -/
  | test (x : String)
  /-- A concatenation of nets, most significant first: `{a, b, c}`. -/
  | cat (parts : List String)
  deriving Repr, BEq, Inhabited

def Rhs.text : Rhs → String
  | .net a => a
  | .bit a i => a ++ s!"[{i}]"
  | .part a hi lo => a ++ s!"[{hi}:{lo}]"
  | .pad z a => "\x7b" ++ s!"{z}'d0, {a}" ++ "\x7d"
  | .dec w v => s!"{w}'d{v}"
  | .bin b => if b then "1'b1" else "1'b0"
  | .unop op x => op ++ x
  | .binop l op r => l ++ " " ++ op ++ " " ++ r
  | .cond c t f => c ++ " ? " ++ t ++ " : " ++ f
  | .test x => x ++ " ? 1'b1 : 1'b0"
  | .cat ps => "\x7b" ++ ", ".intercalate ps ++ "\x7d"

/-- A wire declaration `wire [w-1:0] name = rhs;`. -/
structure Wire where
  name : String
  width : Int
  rhs : Rhs
  deriving Repr, Inhabited

def Wire.text (w : Wire) : String :=
  s!"\twire [{wrapWord (w.width - 1)}:0] {w.name} = " ++ w.rhs.text ++ ";\n"

/-- Compiler state: the graph and bindings, the prefix of temporaries and the next number, the
wires declared, the operand of each compiled node and of each literal text. -/
structure Compiler where
  arena : Arena
  leaves : LeafMap
  tempPrefix : String
  next : Nat := 0
  wires : Array Wire := #[]
  memo : List (NodeId × Operand) := []
  literals : List (String × Operand) := []
  deriving Inhabited

/-- Compiling, which may fail or hit a defect; the state survives failures. -/
abbrev Compiling := Stateful Compiler

namespace Compiler

def new (a : Arena) (leaves : LeafMap) (tempPrefix : String) : Compiler := { arena := a, leaves, tempPrefix }

def body (c : Compiler) : String := String.join (c.wires.toList.map Wire.text)

def emit (width : Int) (rhs : Rhs) : Compiling Operand := do
  let c : Compiler ← MonadState.get
  let name := c.tempPrefix ++ toString c.next
  set { c with next := c.next + 1, wires := c.wires.push ⟨name, width, rhs⟩ }
  pure ⟨name, width⟩

/-- Zero-extends or truncates an operand to `width`, declaring a wire only when they differ. -/
def resize (op : Operand) (width : Int) : Compiling Operand :=
  if op.width < width then emit width (.pad (wrapWord (width - op.width)) op.name)
  else if op.width > width then
    if width == 1 then emit width (.bit op.name 0)
    else emit width (.part op.name (wrapWord (width - 1)) 0)
  else pure op

def literal (width : Int) (lit : Rhs) : Compiling Operand := do
  let c : Compiler ← MonadState.get
  match c.literals.find? (·.1 == lit.text) with
  | some (_, op) => pure op
  | none =>
    let op ← emit width lit
    modify fun c => { c with literals := c.literals ++ [(lit.text, op)] }
    pure op

def operation (l : Operand) (k : Kind) (r : Operand) : Rhs := .binop l.name k.symbol r.name

def lowerLeaf (id : NodeId) (n : Node) (leaf : Option Leaf) : Compiling Operand :=
  match leafWidth n leaf with
  | .error e => throw (e.wrap s!"node n{id}")
  | .ok (width, hi) =>
    match leaf with
    | some l =>
      if n.kind != .bitField then emit width (.net l.name)
      else
        let ref :=
          if hi == l.width - 1 && n.lo == 0 then Rhs.net l.name
          else if hi == n.lo then .bit l.name n.lo
          else .part l.name hi n.lo
        emit width ref
    | none =>
      match n.kind with
      | .int => literal width (.dec width n.value)
      | .true => literal width (.bin true)
      | .false => literal width (.bin false)
      | k => throw (.unsupported s!"leaf n{id} of kind {k.name}")

def compileLeaf (id : NodeId) (n : Node) : Compiling Operand := do
  let c : Compiler ← MonadState.get
  lowerLeaf id n (c.leaves.find? id)

def operandAt (ops : Array Operand) (i : Nat) : Compiling Operand :=
  match ops[i]? with
  | some o => pure o
  | none => Stateful.fault (.outOfRange i ops.size)

/-- Lowers an operator node `id` of result width `width` whose operands compiled to `args`. -/
def lowerOperatorAt (id : NodeId) (n : Node) (args : Array Operand) (width : Int) :
    Compiling Operand := do
  let arg := operandAt args
  if n.kind.isUnary then
    let x ← arg 0
    emit width (.unop (if n.kind == .neg then "-" else "~") x.name)
  else if n.kind.isCompare then do
    emit width (operation (← arg 0) n.kind (← arg 1))
  else match n.kind with
    | .and | .or | .xor | .shr | .asr => do emit width (operation (← arg 0) n.kind (← arg 1))
    | .add | .sub | .mul => do
      let l ← resize (← arg 0) width
      let r ← resize (← arg 1) width
      emit width (operation l n.kind r)
    | .shl => do
      let l ← resize (← arg 0) width
      emit width (operation l n.kind (← arg 1))
    | .div | .mod => do
      let l ← arg 0
      let r ← arg 1
      let full ← emit (max l.width r.width) (operation l n.kind r)
      resize full width
    | .query => do
      let x ← arg 0
      let t ← arg 1
      let f ← arg 2
      emit width (.cond x.name t.name f.name)
    | .concat => emit width (.cat (args.toList.map (·.name)))
    | .toBool => do emit width (.test (← arg 0).name)
    | .toInt => do resize (← arg 0) width
    | k => throw (.unsupported s!"node n{id} of kind {k.name}")

/-- Lowers an operator node `id` whose operands compiled to `args`. -/
def lowerOperator (id : NodeId) (n : Node) (args : Array Operand) : Compiling Operand := do
  let width ← tryCatch (operatorWidth n (args.map (·.width))).lift fun e =>
    throw (e.wrap s!"node n{id}")
  lowerOperatorAt id n args width

/-- Lowers the node `id` and everything below it, within `fuel` levels. -/
def compileWithin : Nat → NodeId → Compiling Operand
  | 0, _ => throw (.plain "expression nested too deeply")
  | fuel + 1, id => do
    let c : Compiler ← MonadState.get
    match c.memo.find? (·.1 == id) with
    | some (_, op) => pure op
    | none =>
      match c.arena.node? id with
      | none => throw (.semantic s!"node n{id} does not exist")
      | some n =>
        let op ←
          if n.kind.isLeaf then compileLeaf id n
          else lowerOperator id n (← n.args.mapM (compileWithin fuel))
        modify fun c => { c with memo := (id, op) :: c.memo }
        pure op

/-- Lowers the node `id`; compiling a node again gives the operand it got before. -/
def compile (id : NodeId) : Compiling Operand := do
  let c : Compiler ← MonadState.get
  compileWithin (c.arena.size + 1) id

end Compiler

end BitSynth.Verilog
