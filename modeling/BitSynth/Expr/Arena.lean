import BitSynth.Failure
import BitSynth.Expr.Kind

namespace BitSynth

/-- The id of a node: its position in the arena. `-1` stands for no node. -/
abbrev NodeId := Int

/-- One node of the expression graph. `name` names a signal or a bit-field's source, `value` is a
literal's value below `2 ^ 64`, `hi` and `lo` bound a bit-field, `width` is the target width of
`int()` (0: inferred from a one-bit operand). -/
structure Node where
  kind : Kind
  name : String := ""
  value : Nat := 0
  hi : Int := 0
  lo : Int := 0
  width : Int := 0
  args : Array NodeId := #[]
  deriving Repr, BEq, Inhabited

/-- Nodes in the order they were added. -/
structure Arena where
  nodes : Array Node := #[]
  deriving Repr, Inhabited

namespace Arena

def size (a : Arena) : Nat := a.nodes.size

def valid (a : Arena) (id : NodeId) : Bool := 0 ≤ id && id < a.size

def node? (a : Arena) (id : NodeId) : Option Node :=
  if 0 ≤ id then a.nodes[id.toNat]? else none

def get (a : Arena) (id : NodeId) : Except Fault Node :=
  match a.node? id with
  | some n => .ok n
  | none => .error (.outOfRange id a.size)

def push (a : Arena) (n : Node) : Arena × NodeId := (⟨a.nodes.push n⟩, a.size)

def addVar (a : Arena) (name : String) : Arena × NodeId := a.push { kind := .var, name }

def addConst (a : Arena) (value : Nat) : Arena × NodeId := a.push { kind := .int, value }

def addBool (a : Arena) (b : Bool) : Arena × NodeId := a.push { kind := if b then .true else .false }

def addUnary (a : Arena) (k : Kind) (x : NodeId) : Except Fault (Arena × NodeId) :=
  if k.isUnary then .ok (a.push { kind := k, args := #[x] })
  else .error (.broken s!"ir: {k.name} is not a unary operator")

def addBinary (a : Arena) (k : Kind) (l r : NodeId) : Except Fault (Arena × NodeId) :=
  if k.isBinary then .ok (a.push { kind := k, args := #[l, r] })
  else .error (.broken s!"ir: {k.name} is not a binary operator")

def addQuery (a : Arena) (c t f : NodeId) : Arena × NodeId := a.push { kind := .query, args := #[c, t, f] }

/-- Appends a concatenation, most significant part first; no parts is a defect. -/
def addConcat (a : Arena) (parts : Array NodeId) : Except Fault (Arena × NodeId) :=
  if parts.isEmpty then .error (.broken "ir: empty concatenation")
  else .ok (a.push { kind := .concat, args := parts })

def addBitField (a : Arena) (name : String) (hi lo : Int) : Arena × NodeId :=
  a.push { kind := .bitField, name, hi, lo }

def addToBool (a : Arena) (x : NodeId) : Arena × NodeId := a.push { kind := .toBool, args := #[x] }

/-- Appends `int(x, width)`; width 0 converts a one-bit operand to a one-bit integer. -/
def addToInt (a : Arena) (x : NodeId) (width : Int) : Arena × NodeId :=
  a.push { kind := .toInt, width, args := #[x] }

end Arena

namespace Node

/-- Operand `i` of a node; a position past the operand list is a defect. -/
def arg (n : Node) (i : Nat) : Except Fault NodeId :=
  match n.args[i]? with
  | some x => .ok x
  | none => .error (.outOfRange i n.args.size)

end Node

end BitSynth
