namespace BitSynth

/-- The kind of an expression node. -/
inductive Kind where
  | var | int | true | false
  | not | complement | neg
  | and | or | xor | add | sub | mul | div | mod | shl | shr | asr | lt | gt | le | ge | eq | ne
  | query | concat | bitField | toBool | toInt
  /-- A code that names no kind. -/
  | other (code : Int)
  deriving Repr, BEq, DecidableEq, Inhabited

namespace Kind

def known : List Kind :=
  [.var, .int, .true, .false, .not, .complement, .neg, .and, .or, .xor, .add, .sub, .mul, .div,
   .mod, .shl, .shr, .asr, .lt, .gt, .le, .ge, .eq, .ne, .query, .concat, .bitField, .toBool, .toInt]

def code : Kind → Int
  | .var => 0 | .int => 1 | .true => 2 | .false => 3
  | .not => 4 | .complement => 5 | .neg => 6
  | .and => 7 | .or => 8 | .xor => 9 | .add => 10 | .sub => 11 | .mul => 12 | .div => 13
  | .mod => 14 | .shl => 15 | .shr => 16 | .asr => 17 | .lt => 18 | .gt => 19 | .le => 20
  | .ge => 21 | .eq => 22 | .ne => 23
  | .query => 24 | .concat => 25 | .bitField => 26 | .toBool => 27 | .toInt => 28
  | .other c => c

def ofCode (c : Int) : Kind :=
  if 0 ≤ c then (known[c.toNat]?).getD (.other c) else .other c

/-- The name of a kind, such as `add` or `int()`; a code without a kind reads `kind(99)`. -/
def name : Kind → String
  | .var => "var" | .int => "int" | .true => "true" | .false => "false"
  | .not => "not" | .complement => "complement" | .neg => "neg"
  | .and => "and" | .or => "or" | .xor => "xor" | .add => "add" | .sub => "sub" | .mul => "mul"
  | .div => "div" | .mod => "mod" | .shl => "shl" | .shr => "shr" | .asr => "asr" | .lt => "lt"
  | .gt => "gt" | .le => "le" | .ge => "ge" | .eq => "eq" | .ne => "ne"
  | .query => "query" | .concat => "concat" | .bitField => "bitfield" | .toBool => "bool"
  | .toInt => "int()"
  | .other c => s!"kind({c})"

def ofName? (s : String) : Option Kind := known.find? (·.name == s)

def isLeaf (k : Kind) : Bool :=
  k == .var || k == .int || k == .true || k == .false || k == .bitField

def isConst (k : Kind) : Bool := k == .int || k == .true || k == .false

def isUnary (k : Kind) : Bool := k == .not || k == .complement || k == .neg

def isBinary (k : Kind) : Bool := 7 ≤ k.code && k.code ≤ 23

def isCompare (k : Kind) : Bool := 18 ≤ k.code && k.code ≤ 23

end Kind

end BitSynth
