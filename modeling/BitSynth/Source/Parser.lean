import BitSynth.Source.Lexer
import BitSynth.Source.Tree

namespace BitSynth.Source

/-- Parser state: the lexemes, the index of the current one, the errors recorded, the nesting of
brackets (negative inside a statement header), whether `=` reads as `==`, the end offset of the
last token consumed, and the recovery position. -/
structure ParseState where
  lexemes : Array Lexeme
  current : Nat := 0
  errors : Array (Nat × String) := #[]
  exprLev : Int := 0
  inRhs : Bool := false
  lastEnd : Nat := 0
  syncPos : Nat := 0
  syncCount : Nat := 0
  lineStarts : Array Nat

/-- Parsing, which may stop early after too many errors. -/
abbrev Parse := EStateM Unit ParseState

namespace Parse

def lexeme : Parse Lexeme := do
  let s ← get
  pure (s.lexemes[s.current]?.getD { token := .eof, offset := s.lastEnd })

def tok : Parse Token := do pure (← lexeme).token

def pos : Parse Nat := do pure (← lexeme).offset

def lit : Parse String := do pure (← lexeme).text

def lineOf (starts : Array Nat) (off : Nat) : Nat := (starts.filter (· ≤ off)).size

def Lexeme.width (l : Lexeme) : Nat :=
  if l.token.isLiteral || l.token == .illegal then l.text.utf8ByteSize
  else if l.token == .semicolon then (if l.text == "\n" then 0 else 1)
  else if l.token == .eof then 0
  else l.token.text.utf8ByteSize

/-- Moves to the next lexeme, recording the errors the lexer found while reading it. -/
def next : Parse Unit := do
  let s ← get
  let cur := s.lexemes[s.current]?.getD { token := .eof, offset := s.lastEnd }
  if s.current + 1 < s.lexemes.size then
    let n := s.lexemes[s.current + 1]?.getD cur
    set { s with current := s.current + 1, errors := s.errors ++ n.errors,
                 lastEnd := cur.offset + Lexeme.width cur }
  else set { s with lastEnd := cur.offset + Lexeme.width cur }

/-- Records a parser error, unless the last recorded error is on the same line; more than ten
recorded errors stop parsing. -/
def error (off : Nat) (msg : String) : Parse Unit := do
  let s ← get
  let line := lineOf s.lineStarts off
  match s.errors.back? with
  | some (last, _) =>
    if lineOf s.lineStarts last == line then pure ()
    else if s.errors.size > 10 then throw ()
    else set { s with errors := s.errors.push (off, msg) }
  | none => set { s with errors := s.errors.push (off, msg) }

/-- Records `expected msg`, naming the current token when the error is at it. -/
def errorExpected (off : Nat) (msg : String) : Parse Unit := do
  let l ← lexeme
  let msg := "expected " ++ msg
  let msg :=
    if off == l.offset then
      if l.token == .semicolon && l.text == "\n" then msg ++ ", found newline"
      else if l.token.isLiteral then msg ++ ", found " ++ l.text
      else msg ++ ", found '" ++ l.token.text ++ "'"
    else msg
  error off msg

/-- Consumes a token of class `t`, reporting any other; gives the offset. -/
def expect (t : Token) : Parse Nat := do
  let p ← pos
  if (← tok) != t then errorExpected p ("'" ++ t.text ++ "'")
  next
  pure p

/-- Like `expect`, reporting a missing comma before a newline in `context`. -/
def expectClosing (t : Token) (context : String) : Parse Nat := do
  let l ← lexeme
  if l.token != t && l.token == .semicolon && l.text == "\n" then
    error l.offset ("missing ',' before newline in " ++ context)
    next
  expect t

/-- Whether a list goes on: true at a comma, and also (after reporting the missing comma) at any
token other than `follow`. -/
def atComma (context : String) (follow : Token) : Parse Bool := do
  let l ← lexeme
  if l.token == .comma then pure true
  else if l.token != follow then
    let msg := "missing ','" ++ (if l.token == .semicolon && l.text == "\n" then " before newline" else "")
    error l.offset (msg ++ " in " ++ context)
    pure true
  else pure false

def expectSemi : Parse Unit := do
  let l ← lexeme
  if l.token != .rparen && l.token != .rbrace then
    if l.token == .comma then
      errorExpected l.offset "';'"
      next
    else if l.token == .semicolon then next
    else
      errorExpected l.offset "';'"
      -- recovery to a statement keyword happens in the caller's loop
      pure ()

/-- Skips tokens up to one that `stop` accepts and that lies past the last recovery point. -/
def advance (stop : Token → Bool) : Nat → Parse Unit
  | 0 => pure ()
  | fuel + 1 => do
    let l ← lexeme
    if l.token == .eof then pure ()
    else if stop l.token then
      let s ← get
      if l.offset == s.syncPos && s.syncCount < 10 then
        set { s with syncCount := s.syncCount + 1 }
      else if l.offset > s.syncPos then
        set { s with syncPos := l.offset, syncCount := 0 }
      else
        next
        advance stop fuel
    else
      next
      advance stop fuel

def skipTo (stop : Token → Bool) : Parse Unit := do
  advance stop ((← get).lexemes.size + 1)

def nest (d : Int) : Parse Unit := modify fun s => { s with exprLev := s.exprLev + d }

def level : Parse Int := do pure (← get).exprLev

def setRhs (b : Bool) : Parse Bool := do
  let s ← get
  set { s with inRhs := b }
  pure s.inRhs

def ident : Parse (Nat × String) := do
  let l ← lexeme
  if l.token == .ident then
    next
    pure (l.offset, l.text)
  else
    let _ ← expect .ident
    pure (l.offset, "_")

/-- The tree standing for an exhausted budget, which no input reaches. -/
def exhausted : Parse Tree := do pure (.bad (← pos))

end Parse

open Parse

/-- A parameter of a parameter list: an optional name and an optional type. -/
structure Param where
  name : Option (Nat × String)
  type : Option Tree

mutual

def expr : Nat → Parse Tree
  | 0 => exhausted
  | f + 1 => binaryFrom f none 1

def rhs : Nat → Parse Tree
  | 0 => exhausted
  | f + 1 => do
    let old ← setRhs true
    let x ← expr f
    let _ ← setRhs old
    pure x

/-- A binary expression whose operators bind at least as tightly as `prec`. -/
def binaryFrom : Nat → Option Tree → Nat → Parse Tree
  | 0, _, _ => exhausted
  | f + 1, x, prec => do
    let x ← match x with
      | some x => pure x
      | none => unary f
    binaryLoop f x prec

/-- Applies infix operators of precedence `prec` or tighter to `x`. -/
def binaryLoop : Nat → Tree → Nat → Parse Tree
  | 0, x, _ => pure x
  | f + 1, x, prec => do
    let t ← tok
    let op := if (← get).inRhs && t == .assign then Token.eql else t
    let oprec := op.precedence
    if oprec < prec || oprec == 0 then pure x
    else
      let p ← expect op
      let y ← binaryFrom f none (oprec + 1)
      binaryLoop f (.binary x p op y) prec

def unary : Nat → Parse Tree
  | 0 => exhausted
  | f + 1 => do
    let l ← lexeme
    match l.token with
    | .add | .sub | .not | .xor | .and | .tilde => do
      next
      let x ← unary f
      pure (.unary l.offset l.token x)
    | .arrow => do
      next
      let x ← unary f
      match x with
      | .chanType _ _ _ _ => receiveChan f l.offset x
      | _ => pure (.unary l.offset .arrow x)
    | .mul => do
      next
      let x ← unary f
      pure (.star l.offset x)
    | _ => primary f none

/-- A `<-` in front of a channel type makes it a receive-only channel type. -/
def receiveChan : Nat → Nat → Tree → Parse Tree
  | 0, _, x => pure x
  | f + 1, arrow, x =>
    match x with
    | .chanType _ a dir value => do
      if dir == .recv then errorExpected a "'chan'"
      if dir == .send then
        match value with
        | .chanType _ _ _ _ => do
          let v ← receiveChan f a value
          pure (.chanType arrow arrow .recv v)
        | _ => do
          errorExpected a "channel type"
          pure (.chanType arrow arrow .recv value)
      else pure (.chanType arrow arrow .recv value)
    | _ => pure x

/-- A primary expression: an operand followed by selectors, indices, slices, calls and
composite-literal bodies. -/
def primary : Nat → Option Tree → Parse Tree
  | 0, _ => exhausted
  | f + 1, x => do
    let x ← match x with
      | some x => pure x
      | none => operand f
    primaryLoop f x

def primaryLoop : Nat → Tree → Parse Tree
  | 0, x => pure x
  | f + 1, x => do
    match ← tok with
    | .period => do
      next
      let l ← lexeme
      match l.token with
      | .ident => do
        let (_, name) ← ident
        primaryLoop f (.selector x name)
      | .lparen => do
        let x ← typeAssertion f x
        primaryLoop f x
      | _ => do
        errorExpected l.offset "selector or type assertion"
        if l.token != .rbrace then next
        primaryLoop f (.selector x "_")
    | .lbrack => do
      let x ← indexOrSlice f x
      primaryLoop f x
    | .lparen => do
      let x ← call f x
      primaryLoop f x
    | .lbrace => do
      let t := x.unparen
      let lev ← level
      let literalType : Option Bool := match t with
        | .bad _ | .ident _ _ | .selector _ _ | .index _ _ | .indexList _ =>
          if lev < 0 then none else some true
        | .other .arrayType _ | .other .structType _ | .other .mapType _ => some true
        | _ => none
      match literalType with
      | none => pure x
      | some _ => do
        match x with
        | .paren _ _ => error t.pos "cannot parenthesize type in composite literal"
        | _ => pure ()
        let x ← literalValue f (some x)
        primaryLoop f x
    | _ => pure x

/-- An operand: an identifier, a literal, a parenthesised expression, a function type or
literal, or a type. -/
def operand : Nat → Parse Tree
  | 0 => exhausted
  | f + 1 => do
    let l ← lexeme
    match l.token with
    | .ident => do
      let (p, name) ← ident
      pure (.ident p name)
    | .int | .float | .imag | .char | .string => do
      next
      pure (.literal l.offset l.token l.text)
    | .lparen => do
      next
      nest 1
      let x ← rhs f
      nest (-1)
      let _ ← expect .rparen
      pure (.paren l.offset x)
    | .kwFunc => funcTypeOrLit f
    | _ => do
      match ← identOrType f with
      | some t => pure t
      | none => do
        errorExpected l.offset "operand"
        skipTo Token.startsStatement
        pure (.bad l.offset)

def typeAssertion : Nat → Tree → Parse Tree
  | 0, x => pure x
  | f + 1, x => do
    let _ ← expect .lparen
    if (← tok) == .kwType then next
    else
      let _ ← type f
    let _ ← expect .rparen
    pure (.typeAssert x)

def indexOrSlice : Nat → Tree → Parse Tree
  | 0, x => pure x
  | f + 1, x => do
    let lbrack ← expect .lbrack
    let l ← lexeme
    if l.token == .rbrack then
      errorExpected l.offset "operand"
      next
      pure (.index x (.bad l.offset))
    else
      nest 1
      let index0 ← if l.token != .colon then do pure (some (← rhs f)) else pure none
      let t ← tok
      let (colons, mid, last, args) ←
        if t == .colon then sliceParts f
        else if t == .comma then do
          let more ← typeArgs f
          pure ([], none, none, more)
        else pure ([], none, none, [])
      nest (-1)
      let _ ← expect .rbrack
      let _ := lbrack
      if !colons.isEmpty then
        let three := colons.length == 2
        if three then
          if mid.isNone then error (colons.getD 0 0) "middle index required in 3-index slice"
          if last.isNone then error (colons.getD 1 0) "final index required in 3-index slice"
        pure (.slice x index0 mid three)
      else if args.isEmpty then
        pure (.index x (index0.getD (.bad lbrack)))
      else pure (.indexList x)

/-- The parts after the first colon of a slice: the colon offsets and the second and third
indices. -/
def sliceParts : Nat → Parse (List Nat × Option Tree × Option Tree × List Tree)
  | 0 => pure ([], none, none, [])
  | f + 1 => do
    let c1 ← pos
    next
    let t ← tok
    let mid ← if t != .colon && t != .rbrack && t != .eof then do pure (some (← rhs f)) else pure none
    if (← tok) == .colon then
      let c2 ← pos
      next
      let t ← tok
      let last ← if t != .colon && t != .rbrack && t != .eof then do pure (some (← rhs f)) else pure none
      pure ([c1, c2], mid, last, [])
    else pure ([c1], mid, none, [])

def typeArgs : Nat → Parse (List Tree)
  | 0 => pure []
  | f + 1 => do
    if (← tok) == .comma then
      next
      let t ← tok
      if t != .rbrack && t != .eof then
        let a ← type f
        let rest ← typeArgs f
        pure (a :: rest)
      else typeArgs f
    else pure []

def call : Nat → Tree → Parse Tree
  | 0, x => pure x
  | f + 1, x => do
    let _ ← expect .lparen
    nest 1
    let args ← callArgs f
    nest (-1)
    let _ ← expectClosing .rparen "argument list"
    pure (.call x args)

def callArgs : Nat → Parse (List Tree)
  | 0 => pure []
  | f + 1 => do
    let t ← tok
    if t == .rparen || t == .eof then pure []
    else
      let a ← rhs f
      let dots ← if (← tok) == .ellipsis then do next; pure true else pure false
      if ← atComma "argument list" .rparen then
        next
        if dots then pure [a] else
          let rest ← callArgs f
          pure (a :: rest)
      else pure [a]

def literalValue : Nat → Option Tree → Parse Tree
  | 0, _ => exhausted
  | f + 1, type => do
    let lbrace ← expect .lbrace
    nest 1
    if (← tok) != .rbrace then elements f
    nest (-1)
    let _ ← expectClosing .rbrace "composite literal"
    pure (.composite type lbrace)

def elements : Nat → Parse Unit
  | 0 => pure ()
  | f + 1 => do
    let t ← tok
    if t == .rbrace || t == .eof then pure ()
    else
      element f
      if ← atComma "composite literal" .rbrace then
        next
        elements f
      else pure ()

def element : Nat → Parse Unit
  | 0 => pure ()
  | f + 1 => do
    let _ ← value f
    if (← tok) == .colon then
      next
      let _ ← value f

def value : Nat → Parse Tree
  | 0 => exhausted
  | f + 1 => do
    if (← tok) == .lbrace then literalValue f none else expr f

def identOrType : Nat → Parse (Option Tree)
  | 0 => pure none
  | f + 1 => do
    let l ← lexeme
    match l.token with
    | .ident => do
      let t ← typeName f none
      if (← tok) == .lbrack then pure (some (← typeInstance f t)) else pure (some t)
    | .lbrack => do
      let lb ← expect .lbrack
      pure (some (← arrayType f lb))
    | .kwStruct => do pure (some (← structType f))
    | .mul => do
      next
      let base ← type f
      pure (some (.star l.offset base))
    | .kwFunc => do
      funcType f
      pure (some (.other .funcType l.offset))
    | .kwInterface => do pure (some (← interfaceType f))
    | .kwMap => do
      next
      let _ ← expect .lbrack
      let _ ← type f
      let _ ← expect .rbrack
      let _ ← type f
      pure (some (.other .mapType l.offset))
    | .kwChan | .arrow => do pure (some (← chanType f))
    | .lparen => do
      next
      let t ← type f
      let _ ← expect .rparen
      pure (some (.paren l.offset t))
    | _ => pure none

def type : Nat → Parse Tree
  | 0 => exhausted
  | f + 1 => do
    match ← identOrType f with
    | some t => pure t
    | none => do
      let p ← pos
      errorExpected p "type"
      skipTo Token.endsExpression
      pure (.bad p)

def typeName : Nat → Option Tree → Parse Tree
  | 0, _ => exhausted
  | _ + 1, given => do
    let x ← match given with
      | some x => pure x
      | none => do
        let (p, name) ← ident
        pure (.ident p name)
    if (← tok) == .period then
      next
      let (_, sel) ← ident
      pure (.selector x sel)
    else pure x

def typeInstance : Nat → Tree → Parse Tree
  | 0, x => pure x
  | f + 1, x => do
    let _ ← expect .lbrack
    nest 1
    let args ← typeList f
    nest (-1)
    let closing ← expectClosing .rbrack "type argument list"
    if args.isEmpty then
      errorExpected closing "type argument list"
      pure (.index x (.bad closing))
    else if args.length == 1 then pure (.index x (args.getD 0 (.bad closing)))
    else pure (.indexList x)

def typeList : Nat → Parse (List Tree)
  | 0 => pure []
  | f + 1 => do
    let t ← tok
    if t == .rbrack || t == .eof then pure []
    else
      let a ← type f
      if ← atComma "type argument list" .rbrack then
        next
        let rest ← typeList f
        pure (a :: rest)
      else pure [a]

def arrayType : Nat → Nat → Parse Tree
  | 0, p => pure (.bad p)
  | f + 1, lbrack => do
    nest 1
    let t ← tok
    if t == .ellipsis then next
    else if t != .rbrack then
      let _ ← rhs f
    nest (-1)
    let l ← lexeme
    if l.token == .comma then
      error l.offset "unexpected comma; expecting ]"
      next
    let _ ← expect .rbrack
    let _ ← type f
    pure (.other .arrayType lbrack)

def structType : Nat → Parse Tree
  | 0 => exhausted
  | f + 1 => do
    let p ← expect .kwStruct
    let _ ← expect .lbrace
    fieldDecls f
    let _ ← expect .rbrace
    pure (.other .structType p)

def fieldDecls : Nat → Parse Unit
  | 0 => pure ()
  | f + 1 => do
    let t ← tok
    if t == .ident || t == .mul || t == .lparen then
      fieldDecl f
      fieldDecls f
    else pure ()

def fieldDecl : Nat → Parse Unit
  | 0 => pure ()
  | f + 1 => do
    let l ← lexeme
    match l.token with
    | .ident => do
      let (p, name) ← ident
      let t ← tok
      if t == .period || t == .string || t == .semicolon || t == .rbrace then
        if t == .period then
          let _ ← typeName f (some (.ident p name))
      else
        let count ← moreNames f
        if count == 0 && (← tok) == .lbrack then
          let _ ← arrayFieldOrInstance f (p, name)
        else
          let _ ← type f
    | .mul => do
      next
      if (← tok) == .lparen then
        error (← pos) "cannot parenthesize embedded type"
        next
        let _ ← typeName f none
        if (← tok) == .rparen then next
      else
        let _ ← typeName f none
    | .lparen => do
      error l.offset "cannot parenthesize embedded type"
      next
      if (← tok) == .mul then next
      let _ ← typeName f none
      if (← tok) == .rparen then next
    | _ => do
      errorExpected l.offset "field name or embedded type"
      skipTo Token.endsExpression
    if (← tok) == .string then next
    expectSemi
    if !((← tok) == .rbrace || (← tok) == .ident || (← tok) == .mul || (← tok) == .lparen) then
      let t ← tok
      if t != .eof && t != .semicolon then skipTo Token.startsStatement

def moreNames : Nat → Parse Nat
  | 0 => pure 0
  | f + 1 => do
    if (← tok) == .comma then
      next
      let _ ← ident
      pure ((← moreNames f) + 1)
    else pure 0

/-- After `name [`: an array field type, or the name is a generic type instantiated; gives whether
the name stays a name. -/
def arrayFieldOrInstance : Nat → (Nat × String) → Parse Bool
  | 0, _ => pure true
  | f + 1, _ => do
    let lbrack ← expect .lbrack
    let (count, trailing) ←
      if (← tok) != .rbrack then do
        nest 1
        let _ ← rhs f
        let r ← moreExprs f
        nest (-1)
        pure (r.1 + 1, r.2)
      else pure (0, none)
    let _ ← expect .rbrack
    if count == 0 then
      let _ ← type f
      pure true
    else if count == 1 then
      match ← identOrType f with
      | some _ => do
        match trailing with
        | some c => error c "unexpected comma; expecting ]"
        | none => pure ()
        pure true
      | none => do
        let _ := lbrack
        pure false
    else pure false

/-- Further comma-separated expressions inside brackets: how many, and the offset of a trailing
comma. -/
def moreExprs : Nat → Parse (Nat × Option Nat)
  | 0 => pure (0, none)
  | f + 1 => do
    let l ← lexeme
    if l.token == .comma then
      next
      if (← tok) == .rbrack then pure (0, some l.offset)
      else
        let _ ← rhs f
        let (n, t) ← moreExprs f
        pure (n + 1, t)
    else pure (0, none)

def funcType : Nat → Parse Unit
  | 0 => pure ()
  | f + 1 => do
    let _ ← expect .kwFunc
    let tparams ← parameters f true
    match tparams with
    | some p => error p "function type must have no type parameters"
    | none => pure ()
    result f

/-- A parameter list, with a leading type parameter list when `typeParams`; gives the offset of
a non-empty type parameter list. -/
def parameters : Nat → Bool → Parse (Option Nat)
  | 0, _ => pure none
  | f + 1, typeParams => do
    let l ← lexeme
    let tparams ←
      if typeParams && l.token == .lbrack then do
        next
        let n ← paramList f .rbrack
        let rb ← expect .rbrack
        if n == 0 then
          error rb "empty type parameter list"
          pure none
        else pure (some l.offset)
      else pure none
    let _ ← expect .lparen
    if (← tok) != .rparen then
      let _ ← paramList f .rparen
    let _ ← expect .rparen
    pure tparams

def result : Nat → Parse Unit
  | 0 => pure ()
  | f + 1 => do
    if (← tok) == .lparen then
      let _ ← parameters f false
    else
      let _ ← identOrType f

/-- Parameters up to `closing`, checking that names are given to all or none; gives how many. -/
def paramList : Nat → Token → Parse Nat
  | 0, _ => pure 0
  | f + 1, closing => do
    let tparams := closing == .rbrack
    let pos0 ← pos
    let params ← paramDecls f closing tparams
    if params.isEmpty then pure 0
    else
      let named := (params.filter fun p => p.name.isSome && p.type.isSome).length
      let typed := (params.filter fun p => p.type.isSome).length
      if named == 0 then
        if tparams then
          if named == typed then error (← pos) "missing type constraint"
          else
            error pos0 ("missing type parameter name" ++
              (if params.length == 1 then " or invalid array length" else ""))
      else if named != params.length then
        -- from the right: a name without type takes the type to its right
        let (errPos, _) := params.reverse.foldl (fun (acc : Option Nat × Bool) p =>
          match p.type with
          | some t => (if p.name.isNone then some t.pos else acc.1, true)
          | none => if acc.2 then acc else ((p.name.map (·.1)).orElse fun _ => acc.1, acc.2))
          (none, false)
        match errPos with
        | some e => error e (if tparams then "type parameters must be named"
                             else "mixed named and unnamed parameters")
        | none => pure ()
      pure params.length

def paramDecls : Nat → Token → Bool → Parse (List Param)
  | 0, _, _ => pure []
  | f + 1, closing, tparams => do
    let t ← tok
    if t == closing || t == .eof then pure []
    else
      let p ← paramDecl f tparams
      let here := if p.name.isSome || p.type.isSome then [p] else []
      if ← atComma "parameter list" closing then
        next
        let rest ← paramDecls f closing tparams
        pure (here ++ rest)
      else pure here

def paramDecl : Nat → Bool → Parse Param
  | 0, _ => pure ⟨none, none⟩
  | f + 1, typeSets => do
    let l ← lexeme
    if typeSets && l.token == .tilde then
      pure ⟨none, some (← embeddedElem f none)⟩
    else
      let p : Param ← match l.token with
        | .ident => do
          let (pn, name) ← ident
          match ← tok with
          | .ident | .mul | .arrow | .kwFunc | .kwChan | .kwMap | .kwStruct | .kwInterface
          | .lparen => do pure ⟨some (pn, name), some (← type f)⟩
          | .lbrack => do
            let keep ← arrayFieldOrInstance f (pn, name)
            if keep then pure ⟨some (pn, name), some (.other .arrayType pn)⟩
            else pure ⟨none, some (.indexList (.ident pn name))⟩
          | .ellipsis => do
            next
            let _ ← type f
            pure ⟨some (pn, name), some (.other .ellipsis pn)⟩
          | .period => do
            let t ← typeName f (some (.ident pn name))
            pure ⟨none, some t⟩
          | .tilde => do
            if typeSets then pure ⟨none, some (← embeddedElem f none)⟩
            else pure ⟨some (pn, name), none⟩
          | .or => do
            if typeSets then pure ⟨none, some (← embeddedElem f (some (.ident pn name)))⟩
            else pure ⟨some (pn, name), none⟩
          | _ => pure ⟨some (pn, name), none⟩
        | .mul | .arrow | .kwFunc | .lbrack | .kwChan | .kwMap | .kwStruct | .kwInterface
        | .lparen => do pure ⟨none, some (← type f)⟩
        | .ellipsis => do
          next
          let _ ← type f
          pure ⟨none, some (.other .ellipsis l.offset)⟩
        | _ => do
          errorExpected l.offset "')'"
          skipTo Token.endsExpression
          pure ⟨none, none⟩
      match p.type with
      | some t =>
        if typeSets && (← tok) == .or then pure ⟨p.name, some (← embeddedElem f (some t))⟩
        else pure p
      | none => pure p

def embeddedElem : Nat → Option Tree → Parse Tree
  | 0, _ => exhausted
  | f + 1, x => do
    let x ← match x with
      | some x => pure x
      | none => embeddedTerm f
    unionLoop f x

def unionLoop : Nat → Tree → Parse Tree
  | 0, x => pure x
  | f + 1, x => do
    let l ← lexeme
    if l.token == .or then
      next
      let y ← embeddedTerm f
      unionLoop f (.binary x l.offset .or y)
    else pure x

def embeddedTerm : Nat → Parse Tree
  | 0 => exhausted
  | f + 1 => do
    let l ← lexeme
    if l.token == .tilde then
      next
      let t ← type f
      pure (.unary l.offset .tilde t)
    else
      match ← identOrType f with
      | some t => pure t
      | none => do
        errorExpected l.offset "~ term or type"
        skipTo Token.endsExpression
        pure (.bad l.offset)

def interfaceType : Nat → Parse Tree
  | 0 => exhausted
  | f + 1 => do
    let p ← expect .kwInterface
    let _ ← expect .lbrace
    interfaceElems f
    let _ ← expect .rbrace
    pure (.other .interfaceType p)

def interfaceElems : Nat → Parse Unit
  | 0 => pure ()
  | f + 1 => do
    let t ← tok
    if t == .ident then
      let x ← typeName f none
      match x with
      | .ident _ _ =>
        let t ← tok
        if t == .lparen then
          let _ ← parameters f false
          result f
        else if t == .lbrack then
          let _ ← typeInstance f x
        else
          let _ ← embeddedElem f (some x)
      | _ =>
        let x ← if (← tok) == .lbrack then typeInstance f x else pure x
        let _ ← embeddedElem f (some x)
      expectSemi
      interfaceElems f
    else if t == .tilde then
      let _ ← embeddedElem f none
      expectSemi
      interfaceElems f
    else
      match ← identOrType f with
      | some x => do
        let _ ← embeddedElem f (some x)
        expectSemi
        interfaceElems f
      | none => pure ()

def chanType : Nat → Parse Tree
  | 0 => exhausted
  | f + 1 => do
    let l ← lexeme
    if l.token == .kwChan then
      next
      let a ← lexeme
      if a.token == .arrow then
        next
        let v ← type f
        pure (.chanType l.offset a.offset .send v)
      else
        let v ← type f
        pure (.chanType l.offset 0 .both v)
    else
      let a ← expect .arrow
      let _ ← expect .kwChan
      let v ← type f
      pure (.chanType l.offset a .recv v)

def funcTypeOrLit : Nat → Parse Tree
  | 0 => exhausted
  | f + 1 => do
    let p ← pos
    funcType f
    if (← tok) != .lbrace then pure (.other .funcType p)
    else
      nest 1
      block f
      nest (-1)
      pure (.other .funcLit p)

def block : Nat → Parse Unit
  | 0 => pure ()
  | f + 1 => do
    let _ ← expect .lbrace
    statements f
    let _ ← expect .rbrace

def statements : Nat → Parse Unit
  | 0 => pure ()
  | f + 1 => do
    let t ← tok
    if t == .kwCase || t == .kwDefault || t == .rbrace || t == .eof then pure ()
    else
      statement f
      statements f

def statement : Nat → Parse Unit
  | 0 => pure ()
  | f + 1 => do
    let l ← lexeme
    match l.token with
    | .ident | .int | .float | .imag | .char | .string | .kwFunc | .lparen | .lbrack | .kwStruct
    | .kwMap | .kwChan | .kwInterface | .add | .sub | .mul | .and | .xor | .arrow | .not => do
      let labeled ← simpleStatement f true
      if !labeled then expectSemi
    | .kwGo | .kwDefer => do
      next
      let _ ← rhs f
      expectSemi
    | .kwReturn => do
      next
      let t ← tok
      if t != .semicolon && t != .rbrace then
        let old ← setRhs true
        exprList f
        let _ ← setRhs old
      expectSemi
    | .kwBreak | .kwContinue | .kwGoto | .kwFallthrough => do
      next
      if l.token != .kwFallthrough && (← tok) == .ident then
        let _ ← ident
      expectSemi
    | .lbrace => do
      block f
      expectSemi
    | .kwIf => ifStatement f
    | .kwFor => do
      next
      let lev ← level
      nest (-lev - 1)
      if (← tok) != .lbrace then
        if (← tok) != .semicolon then
          let _ ← simpleStatement f false
        if (← tok) == .semicolon then
          next
          if (← tok) != .semicolon then
            let _ ← simpleStatement f false
          let _ ← expect .semicolon
          if (← tok) != .lbrace then
            let _ ← simpleStatement f false
      nest (lev + 1)
      block f
      expectSemi
    | .kwVar | .kwConst | .kwType => do
      next
      let _ ← ident
      if (← tok) != .assign then
        let _ ← type f
      if (← tok) == .assign then
        next
        let old ← setRhs true
        exprList f
        let _ ← setRhs old
      expectSemi
    | .semicolon => next
    | .rbrace => pure ()
    | _ => do
      errorExpected l.offset "statement"
      skipTo Token.startsStatement

def ifStatement : Nat → Parse Unit
  | 0 => pure ()
  | f + 1 => do
    let _ ← expect .kwIf
    let l ← lexeme
    if l.token == .lbrace then
      error l.offset "missing condition in if statement"
    else
      let lev ← level
      nest (-lev - 1)
      if (← tok) != .semicolon then
        let _ ← simpleStatement f false
      if (← tok) != .lbrace then
        let s ← lexeme
        if s.token == .semicolon then
          next
          if (← tok) != .lbrace then
            let _ ← simpleStatement f false
          else if s.text == "\n" then error s.offset "unexpected newline, expecting \x7b after if clause"
          else error s.offset "missing condition in if statement"
        else
          let _ ← expect .semicolon
      nest (lev + 1)
    block f
    if (← tok) == .kwElse then
      next
      let t ← tok
      if t == .kwIf then ifStatement f
      else if t == .lbrace then
        block f
        expectSemi
      else errorExpected (← pos) "if statement or block"
    else expectSemi

/-- A simple statement: an expression list, possibly assigned to, sent on, incremented or
labelled; gives whether it was a label. -/
def simpleStatement : Nat → Bool → Parse Bool
  | 0, _ => pure false
  | f + 1, labelOk => do
    let old ← setRhs false
    let first ← expr f
    let n ← moreList f
    let _ ← setRhs old
    let l ← lexeme
    match l.token with
    | .define | .assign | .addAssign | .subAssign | .mulAssign | .quoAssign | .remAssign
    | .andAssign | .orAssign | .xorAssign | .shlAssign | .shrAssign | .andNotAssign => do
      next
      if (← tok) == .kwRange then
        next
        let _ ← rhs f
      else
        let old ← setRhs true
        exprList f
        let _ ← setRhs old
      pure false
    | _ => do
      if n > 0 then errorExpected first.pos "1 expression"
      let l ← lexeme
      match l.token with
      | .colon => do
        next
        match first with
        | .ident _ _ =>
          if labelOk then
            statement f
            pure true
          else
            error l.offset "illegal label declaration"
            pure false
        | _ => do
          error l.offset "illegal label declaration"
          pure false
      | .arrow => do
        next
        let _ ← rhs f
        pure false
      | .inc | .dec => do
        next
        pure false
      | _ => pure false

def moreList : Nat → Parse Nat
  | 0 => pure 0
  | f + 1 => do
    if (← tok) == .comma then
      next
      let _ ← expr f
      pure ((← moreList f) + 1)
    else pure 0

def exprList : Nat → Parse Unit
  | 0 => pure ()
  | f + 1 => do
    let _ ← expr f
    let _ ← moreList f

end

def lineStarts (src : String) : Array Nat :=
  let (starts, _) := src.toList.foldl (fun (acc : Array Nat × Nat) c =>
    let off := acc.2 + c.utf8Size
    (if c == '\n' then acc.1.push off else acc.1, off)) (#[0], 0)
  starts

/-- A position as `expr:line:column`, the column counting bytes from 1. -/
def positionText (starts : Array Nat) (off : Nat) : String :=
  let line := Parse.lineOf starts off
  let start := starts.getD (line - 1) 0
  "expr:" ++ toString line ++ ":" ++ toString (off - start + 1)

/-- One syntax error with its position. -/
structure SyntaxError where
  line : Nat
  column : Nat
  message : String
  deriving Repr, BEq

def SyntaxError.text (e : SyntaxError) : String :=
  "expr:" ++ toString e.line ++ ":" ++ toString e.column ++ ": " ++ e.message

def SyntaxError.before (a b : SyntaxError) : Bool :=
  a.line < b.line || (a.line == b.line && (a.column < b.column ||
    (a.column == b.column && decide (a.message < b.message))))

/-- The text of a sorted error list: the first error, and how many more there are. -/
def errorListText (errs : List SyntaxError) : String :=
  match errs with
  | [] => "no errors"
  | [e] => e.text
  | e :: rest => e.text ++ " (and " ++ toString rest.length ++ " more errors)"

/-- Parses a whole source as one expression: the tree, or the errors sorted by position. -/
def parseExpression (src : String) : Except (List SyntaxError) Tree :=
  let toks := lexemes src
  let starts := lineStarts src
  let fuel := 64 * (toks.size + 4)
  let first := toks[0]?.map (·.errors) |>.getD #[]
  let run : Parse Tree := do
    let x ← rhs fuel
    let l ← lexeme
    if l.token == .semicolon && l.text == "\n" then next
    let _ ← expect .eof
    pure x
  let init : ParseState := { lexemes := toks, errors := first, lineStarts := starts }
  -- a stop after too many errors keeps the errors recorded so far
  let (tree, errs) := match run.run init with
    | .ok t s => (some t, s.errors)
    | .error _ s => (none, s.errors)
  let list := errs.toList.map fun (off, msg) =>
    let line := Parse.lineOf starts off
    { line, column := off - starts.getD (line - 1) 0 + 1, message := msg : SyntaxError }
  let sorted := list.mergeSort fun a b => !(SyntaxError.before b a)
  match tree with
  | some t => if sorted.isEmpty then .ok t else .error sorted
  | none => .error sorted

end BitSynth.Source
