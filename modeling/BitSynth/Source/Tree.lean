import BitSynth.Source.Token

namespace BitSynth.Source

/-- The direction of a channel type. -/
inductive ChanDir where
  | both
  | send
  | recv
  deriving Repr, BEq, DecidableEq, Inhabited

/-- Classes of constructs kept only by class and position. -/
inductive Shape where
  | arrayType | structType | funcType | interfaceType | mapType | funcLit | keyValue | ellipsis
  deriving Repr, BEq, DecidableEq, Inhabited

/-- A syntax tree. -/
inductive Tree where
  | bad (pos : Nat)
  | ident (pos : Nat) (name : String)
  | literal (pos : Nat) (kind : Token) (value : String)
  | paren (pos : Nat) (x : Tree)
  | selector (x : Tree) (name : String)
  | typeAssert (x : Tree)
  | index (x : Tree) (index : Tree)
  | indexList (x : Tree)
  | slice (x : Tree) (low high : Option Tree) (threeIndex : Bool)
  | call (fn : Tree) (args : List Tree)
  | star (pos : Nat) (x : Tree)
  | unary (pos : Nat) (op : Token) (x : Tree)
  | binary (x : Tree) (opPos : Nat) (op : Token) (y : Tree)
  | chanType (pos : Nat) (arrow : Nat) (dir : ChanDir) (value : Tree)
  | composite (type : Option Tree) (lbrace : Nat)
  | other (shape : Shape) (pos : Nat)
  deriving Repr, Inhabited

namespace Tree

def pos : Tree → Nat
  | .bad p => p
  | .ident p _ => p
  | .literal p _ _ => p
  | .paren p _ => p
  | .selector x _ => x.pos
  | .typeAssert x => x.pos
  | .index x _ => x.pos
  | .indexList x => x.pos
  | .slice x _ _ _ => x.pos
  | .call f _ => f.pos
  | .star p _ => p
  | .unary p _ _ => p
  | .binary x _ _ _ => x.pos
  | .chanType p _ _ _ => p
  | .composite t l => match t with
    | some t => t.pos
    | none => l
  | .other _ p => p

def unparen : Tree → Tree
  | .paren _ x => x.unparen
  | t => t

def className : Tree → String
  | .bad _ => "*ast.BadExpr"
  | .ident _ _ => "*ast.Ident"
  | .literal _ _ _ => "*ast.BasicLit"
  | .paren _ _ => "*ast.ParenExpr"
  | .selector _ _ => "*ast.SelectorExpr"
  | .typeAssert _ => "*ast.TypeAssertExpr"
  | .index _ _ => "*ast.IndexExpr"
  | .indexList _ => "*ast.IndexListExpr"
  | .slice _ _ _ _ => "*ast.SliceExpr"
  | .call _ _ => "*ast.CallExpr"
  | .star _ _ => "*ast.StarExpr"
  | .unary _ _ _ => "*ast.UnaryExpr"
  | .binary _ _ _ _ => "*ast.BinaryExpr"
  | .chanType _ _ _ _ => "*ast.ChanType"
  | .composite _ _ => "*ast.CompositeLit"
  | .other s _ => match s with
    | .arrayType => "*ast.ArrayType"
    | .structType => "*ast.StructType"
    | .funcType => "*ast.FuncType"
    | .interfaceType => "*ast.InterfaceType"
    | .mapType => "*ast.MapType"
    | .funcLit => "*ast.FuncLit"
    | .keyValue => "*ast.KeyValueExpr"
    | .ellipsis => "*ast.Ellipsis"

end Tree

end BitSynth.Source
