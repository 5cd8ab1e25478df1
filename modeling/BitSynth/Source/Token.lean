namespace BitSynth.Source

/-- A token class. -/
inductive Token where
  | illegal | eof | comment
  | ident | int | float | imag | char | string
  | add | sub | mul | quo | rem | and | or | xor | shl | shr | andNot
  | addAssign | subAssign | mulAssign | quoAssign | remAssign | andAssign | orAssign
  | xorAssign | shlAssign | shrAssign | andNotAssign
  | land | lor | arrow | inc | dec | eql | lss | gtr | assign | not | neq | leq | geq | define
  | ellipsis | lparen | lbrack | lbrace | comma | period | rparen | rbrack | rbrace
  | semicolon | colon | tilde
  | kwBreak | kwCase | kwChan | kwConst | kwContinue | kwDefault | kwDefer | kwElse
  | kwFallthrough | kwFor | kwFunc | kwGo | kwGoto | kwIf | kwImport | kwInterface | kwMap
  | kwPackage | kwRange | kwReturn | kwSelect | kwStruct | kwSwitch | kwType | kwVar
  deriving Repr, BEq, DecidableEq, Inhabited

namespace Token

def text : Token → String
  | .illegal => "ILLEGAL" | .eof => "EOF" | .comment => "COMMENT"
  | .ident => "IDENT" | .int => "INT" | .float => "FLOAT" | .imag => "IMAG" | .char => "CHAR"
  | .string => "STRING"
  | .add => "+" | .sub => "-" | .mul => "*" | .quo => "/" | .rem => "%" | .and => "&"
  | .or => "|" | .xor => "^" | .shl => "<<" | .shr => ">>" | .andNot => "&^"
  | .addAssign => "+=" | .subAssign => "-=" | .mulAssign => "*=" | .quoAssign => "/="
  | .remAssign => "%=" | .andAssign => "&=" | .orAssign => "|=" | .xorAssign => "^="
  | .shlAssign => "<<=" | .shrAssign => ">>=" | .andNotAssign => "&^="
  | .land => "&&" | .lor => "||" | .arrow => "<-" | .inc => "++" | .dec => "--"
  | .eql => "==" | .lss => "<" | .gtr => ">" | .assign => "=" | .not => "!" | .neq => "!="
  | .leq => "<=" | .geq => ">=" | .define => ":=" | .ellipsis => "..."
  | .lparen => "(" | .lbrack => "[" | .lbrace => "\x7b" | .comma => "," | .period => "."
  | .rparen => ")" | .rbrack => "]" | .rbrace => "\x7d" | .semicolon => ";" | .colon => ":"
  | .tilde => "~"
  | .kwBreak => "break" | .kwCase => "case" | .kwChan => "chan" | .kwConst => "const"
  | .kwContinue => "continue" | .kwDefault => "default" | .kwDefer => "defer"
  | .kwElse => "else" | .kwFallthrough => "fallthrough" | .kwFor => "for" | .kwFunc => "func"
  | .kwGo => "go" | .kwGoto => "goto" | .kwIf => "if" | .kwImport => "import"
  | .kwInterface => "interface" | .kwMap => "map" | .kwPackage => "package"
  | .kwRange => "range" | .kwReturn => "return" | .kwSelect => "select"
  | .kwStruct => "struct" | .kwSwitch => "switch" | .kwType => "type" | .kwVar => "var"

def keywords : List Token :=
  [.kwBreak, .kwCase, .kwChan, .kwConst, .kwContinue, .kwDefault, .kwDefer, .kwElse,
   .kwFallthrough, .kwFor, .kwFunc, .kwGo, .kwGoto, .kwIf, .kwImport, .kwInterface, .kwMap,
   .kwPackage, .kwRange, .kwReturn, .kwSelect, .kwStruct, .kwSwitch, .kwType, .kwVar]

def ofWord (w : String) : Token := (keywords.find? (·.text == w)).getD .ident

def isLiteral (t : Token) : Bool :=
  t == .ident || t == .int || t == .float || t == .imag || t == .char || t == .string

def precedence : Token → Nat
  | .lor => 1
  | .land => 2
  | .eql | .neq | .lss | .leq | .gtr | .geq => 3
  | .add | .sub | .or | .xor => 4
  | .mul | .quo | .rem | .shl | .shr | .and | .andNot => 5
  | _ => 0

/-- Tokens where a statement starts, at which error recovery stops skipping. -/
def startsStatement (t : Token) : Bool :=
  t == .kwBreak || t == .kwConst || t == .kwContinue || t == .kwDefer || t == .kwFallthrough ||
  t == .kwFor || t == .kwGo || t == .kwGoto || t == .kwIf || t == .kwReturn || t == .kwSelect ||
  t == .kwSwitch || t == .kwType || t == .kwVar

/-- Tokens where an expression ends, at which recovery inside a type stops skipping. -/
def endsExpression (t : Token) : Bool :=
  t == .comma || t == .colon || t == .semicolon || t == .rparen || t == .rbrack || t == .rbrace

end Token

end BitSynth.Source
