import BitSynth.Source.Token
import BitSynth.Text.Letter
import BitSynth.Text.Digit
import BitSynth.Text.Quoted

namespace BitSynth.Source

/-- A token with its byte offset, its text (for literals, semicolons and illegal characters),
and the errors found while reading it, each at a byte offset. -/
structure Lexeme where
  token : Token
  offset : Nat
  text : String := ""
  errors : Array (Nat × String) := #[]
  deriving Repr, Inhabited

/-- Lexer state: the characters, the byte offset of each (and of the end), the index of the current
character, whether a newline would read as a semicolon, a pending semicolon from a block comment,
and the errors found since the last token. -/
structure Lexer where
  chars : Array Char
  offsets : Array Nat
  index : Nat := 0
  insertSemi : Bool := false
  pendingSemi : Option Nat := none
  errors : Array (Nat × String) := #[]

namespace Lexer

def ch (lx : Lexer) : Option Char := lx.chars[lx.index]?

def isAt (lx : Lexer) (c : Char) : Bool := lx.ch == some c

def offset (lx : Lexer) : Nat := lx.offsets.getD lx.index (lx.offsets.back?.getD 0)

def error (lx : Lexer) (off : Nat) (msg : String) : Lexer := { lx with errors := lx.errors.push (off, msg) }

/-- Checks the character that just became current: a NUL, or a byte order mark after the start,
is an error. -/
def checkCurrent (lx : Lexer) : Lexer :=
  match lx.ch with
  | some '\x00' => lx.error lx.offset "illegal character NUL"
  | some '﻿' => if lx.offset > 0 then lx.error lx.offset "illegal byte order mark" else lx
  | _ => lx

def next (lx : Lexer) : Lexer :=
  if lx.index < lx.chars.size then checkCurrent { lx with index := lx.index + 1 } else lx

def peek (lx : Lexer) : Option Char := lx.chars[lx.index + 1]?

/-- A new lexer over a source; a byte order mark at the start is skipped. -/
def start (src : String) : Lexer :=
  let chars := src.toList.toArray
  let offsets := (chars.foldl (fun (acc : Array Nat × Nat) c => (acc.1.push acc.2, acc.2 + c.utf8Size))
    (#[], 0))
  let lx := checkCurrent { chars, offsets := offsets.1.push offsets.2 }
  if lx.isAt '﻿' then lx.next else lx

/-- Letters of identifiers: ASCII letters, `_`, and non-ASCII letters. -/
def isLetter (c : Char) : Bool :=
  ('a' ≤ c && c ≤ 'z') || ('A' ≤ c && c ≤ 'Z') || c == '_' || (c.toNat ≥ 0x80 && Text.isLetter c)

/-- Digits of identifiers: ASCII digits and non-ASCII decimal digits. -/
def isDigit (c : Char) : Bool := ('0' ≤ c && c ≤ '9') || (c.toNat ≥ 0x80 && Text.isDecimalDigit c)

def isDecimal (c : Char) : Bool := '0' ≤ c && c ≤ '9'

def isHex (c : Char) : Bool := isDecimal c || ('a' ≤ c && c ≤ 'f') || ('A' ≤ c && c ≤ 'F')

def lower (c : Char) : Char := if 'A' ≤ c && c ≤ 'Z' then Char.ofNat (c.toNat + 32) else c

/-- Advances while the current character satisfies `p`, within `fuel` steps. -/
def skipWhile (p : Char → Bool) : Nat → Lexer → Lexer
  | 0, lx => lx
  | fuel + 1, lx =>
    match lx.ch with
    | some c => if p c then skipWhile p fuel lx.next else lx
    | none => lx

def budget (lx : Lexer) : Nat := lx.chars.size + 1

def slice (lx : Lexer) (i j : Nat) : String := String.ofList ((lx.chars.extract i j).toList)

/-- Skips blanks; a newline is a blank unless it would read as a semicolon. -/
def skipBlanks (lx : Lexer) : Lexer :=
  skipWhile (fun c => c == ' ' || c == '\t' || c == '\r' || (c == '\n' && !lx.insertSemi))
    lx.budget lx

def scanIdentifier (lx : Lexer) : Lexer × String :=
  let i := lx.index
  let lx := skipWhile (fun c => isLetter c || isDigit c) lx.budget lx
  (lx, lx.slice i lx.index)

/-- Digits of a numeral and `_`: the digits seen (bit 1) and `_` seen (bit 2), and, for bases up to
ten, the offset of the first digit outside the base. -/
def digits (base : Nat) : Nat → Lexer × Nat × Option Nat → Lexer × Nat × Option Nat
  | 0, st => st
  | fuel + 1, (lx, ds, invalid) =>
    match lx.ch with
    | some c =>
      if base ≤ 10 then
        if isDecimal c || c == '_' then
          let bit := if c == '_' then 2 else 1
          let invalid :=
            if c != '_' && c.toNat ≥ '0'.toNat + base && invalid.isNone then some lx.offset
            else invalid
          digits base fuel (lx.next, ds ||| bit, invalid)
        else (lx, ds, invalid)
      else if isHex c || c == '_' then
        digits base fuel (lx.next, ds ||| (if c == '_' then 2 else 1), invalid)
      else (lx, ds, invalid)
    | none => (lx, ds, invalid)

/-- The name of a numeral by its prefix character, as messages write it. -/
def literalName : Char → String
  | 'x' => "hexadecimal literal"
  | 'o' => "octal literal"
  | '0' => "octal literal"
  | 'b' => "binary literal"
  | _ => "decimal literal"

/-- The position of the first misplaced `_` in a numeral: one that does not stand between two
digits, a base prefix counting as a digit. -/
def misplacedSeparator (lit : List Char) : Option Nat :=
  let (x1, d, i) : Char × Char × Nat := match lit with
    | '0' :: p :: _ =>
      let l := lower p
      if l == 'x' || l == 'o' || l == 'b' then (l, '0', 2) else (' ', '.', 0)
    | _ => (' ', '.', 0)
  let step (acc : Char × Option Nat) (ic : Nat × Char) : Char × Option Nat :=
    match acc with
    | (_, some r) => (' ', some r)
    | (p, none) =>
      let (i, c) := ic
      if c == '_' then (if p != '0' then ('_', some i) else ('_', none))
      else if isDecimal c || (x1 == 'x' && isHex c) then ('0', none)
      else if p == '_' then ('.', some (i - 1))
      else ('.', none)
  let indexed := (List.range lit.length).zip lit |>.drop i
  match indexed.foldl step (d, none) with
  | (_, some r) => some r
  | (last, none) => if last == '_' then some (lit.length - 1) else none

/-- Reads a numeral: integer, floating-point or imaginary, with its base prefix, point, exponent
and `_` separators, reporting malformed parts. -/
def scanNumber (lx : Lexer) : Lexer × Token × String :=
  let start := lx.index
  let startOff := lx.offset
  let fuel := lx.budget
  let (lx, tok, base, pre, ds, invalid) : Lexer × Token × Nat × Char × Nat × Option Nat :=
    if !lx.isAt '.' then
      if lx.isAt '0' then
        let lx := lx.next
        match lx.ch.map lower with
        | some 'x' => let (lx, ds, inv) := digits 16 fuel (lx.next, 0, none); (lx, .int, 16, 'x', ds, inv)
        | some 'o' => let (lx, ds, inv) := digits 8 fuel (lx.next, 0, none); (lx, .int, 8, 'o', ds, inv)
        | some 'b' => let (lx, ds, inv) := digits 2 fuel (lx.next, 0, none); (lx, .int, 2, 'b', ds, inv)
        | _ => let (lx, ds, inv) := digits 8 fuel (lx, 1, none); (lx, .int, 8, '0', ds, inv)
      else
        let (lx, ds, inv) := digits 10 fuel (lx, 0, none)
        (lx, .int, 10, ' ', ds, inv)
    else (lx, .illegal, 10, ' ', 0, none)
  let (lx, tok, ds, invalid) :=
    if lx.isAt '.' then
      let lx := if pre == 'o' || pre == 'b' then lx.error lx.offset ("invalid radix point in " ++ literalName pre) else lx
      let (lx, ds', inv) := digits base fuel (lx.next, 0, invalid)
      (lx, Token.float, ds ||| ds', inv)
    else (lx, tok, ds, invalid)
  let lx := if ds &&& 1 == 0 then lx.error lx.offset (literalName pre ++ " has no digits") else lx
  let (lx, tok, ds) :=
    match lx.ch.map lower with
    | some e =>
      if e == 'e' || e == 'p' then
        let c := lx.ch.getD e
        let lx :=
          if e == 'e' && pre != ' ' && pre != '0' then
            lx.error lx.offset (Text.quoteChar c ++ " exponent requires decimal mantissa")
          else if e == 'p' && pre != 'x' then
            lx.error lx.offset (Text.quoteChar c ++ " exponent requires hexadecimal mantissa")
          else lx
        let lx := lx.next
        let lx := if lx.isAt '+' || lx.isAt '-' then lx.next else lx
        let (lx, eds, _) := digits 10 fuel (lx, 0, none)
        let lx := if eds &&& 1 == 0 then lx.error lx.offset "exponent has no digits" else lx
        (lx, Token.float, ds ||| eds)
      else if pre == 'x' && tok == Token.float then
        (lx.error lx.offset "hexadecimal mantissa requires a 'p' exponent", tok, ds)
      else (lx, tok, ds)
    | none =>
      if pre == 'x' && tok == Token.float then
        (lx.error lx.offset "hexadecimal mantissa requires a 'p' exponent", tok, ds)
      else (lx, tok, ds)
  let (lx, tok) := if lx.isAt 'i' then (lx.next, Token.imag) else (lx, tok)
  let lit := lx.slice start lx.index
  let lx := match invalid with
    | some off =>
      if tok == Token.int then
        let bad := ((lx.offsets.idxOf? off).bind fun j => lx.chars[j]?).getD '0'
        lx.error off ("invalid digit " ++ Text.quoteChar bad ++ " in " ++ literalName pre)
      else lx
    | none => lx
  let lx :=
    if ds &&& 2 != 0 then
      match misplacedSeparator lit.toList with
      | some i => lx.error (startOff + i) "'_' must separate successive digits"
      | none => lx
    else lx
  (lx, tok, lit)

/-- The value of a digit character in base up to sixteen, 16 for any other character. -/
def digitVal (c : Char) : Nat :=
  if isDecimal c then c.toNat - '0'.toNat
  else if 'a' ≤ lower c && lower c ≤ 'f' then (lower c).toNat - 'a'.toNat + 10
  else 16

def escapeDigits (base : Nat) : Nat → Lexer × Nat → Lexer × Option Nat
  | 0, (lx, x) => (lx, some x)
  | n + 1, (lx, x) =>
    match lx.ch with
    | some c =>
      let d := digitVal c
      if d ≥ base then (lx.error lx.offset ("illegal character " ++ Text.codePointText c ++ " in escape sequence"), none)
      else escapeDigits base n (lx.next, x * base + d)
    | none => (lx.error lx.offset "escape sequence not terminated", none)

/-- Reads an escape after its backslash; false when it is malformed. -/
def scanEscape (lx : Lexer) (quote : Char) : Lexer × Bool :=
  let off := lx.offset
  match lx.ch with
  | some c =>
    if c == 'a' || c == 'b' || c == 'f' || c == 'n' || c == 'r' || c == 't' || c == 'v' ||
        c == '\\' || c == quote then (lx.next, true)
    else
      let spec : Option (Nat × Nat × Nat × Lexer) :=
        if '0' ≤ c && c ≤ '7' then some (3, 8, 255, lx)
        else if c == 'x' then some (2, 16, 255, lx.next)
        else if c == 'u' then some (4, 16, 0x10FFFF, lx.next)
        else if c == 'U' then some (8, 16, 0x10FFFF, lx.next)
        else none
      match spec with
      | none => (lx.error off "unknown escape sequence", false)
      | some (n, base, max, lx) =>
        match escapeDigits base n (lx, 0) with
        | (lx, none) => (lx, false)
        | (lx, some x) =>
          if x > max || (0xD800 ≤ x && x < 0xE000) then
            (lx.error off "escape sequence is invalid Unicode code point", false)
          else (lx, true)
  | none => (lx.error off "escape sequence not terminated", false)

def scanStringBody (startOff : Nat) : Nat → Lexer → Lexer
  | 0, lx => lx
  | fuel + 1, lx =>
    match lx.ch with
    | none => lx.error startOff "string literal not terminated"
    | some '\n' => lx.error startOff "string literal not terminated"
    | some c =>
      let lx := lx.next
      if c == '"' then lx
      else if c == '\\' then scanStringBody startOff fuel (lx.scanEscape '"').1
      else scanStringBody startOff fuel lx

/-- Reads a rune literal after its opening quote: the characters read and whether all escapes
were well formed. -/
def scanRuneBody (startOff : Nat) : Nat → Lexer × Nat × Bool → Lexer × Nat × Bool
  | 0, st => st
  | fuel + 1, (lx, n, valid) =>
    match lx.ch with
    | none => (if valid then lx.error startOff "rune literal not terminated" else lx, n, false)
    | some '\n' => (if valid then lx.error startOff "rune literal not terminated" else lx, n, false)
    | some c =>
      let lx := lx.next
      if c == '\'' then (lx, n, valid)
      else if c == '\\' then
        let (lx, ok) := lx.scanEscape '\''
        scanRuneBody startOff fuel (lx, n + 1, valid && ok)
      else scanRuneBody startOff fuel (lx, n + 1, valid)

def scanRawBody (startOff : Nat) : Nat → Lexer → Lexer
  | 0, lx => lx
  | fuel + 1, lx =>
    match lx.ch with
    | none => lx.error startOff "raw string literal not terminated"
    | some c => if c == '`' then lx.next else scanRawBody startOff fuel lx.next

/-- Reads a block comment after its opening `/*`: the offset of its first newline, if any. -/
def scanBlockComment (startOff : Nat) : Nat → Lexer × Option Nat → Lexer × Option Nat
  | 0, st => st
  | fuel + 1, (lx, nl) =>
    match lx.ch with
    | none => (lx.error startOff "comment not terminated", nl)
    | some c =>
      let nl := if c == '\n' && nl.isNone then some lx.offset else nl
      let lx := lx.next
      if c == '*' && lx.isAt '/' then (lx.next, nl)
      else scanBlockComment startOff fuel (lx, nl)

/-- `tok1` when the current character is `=` (consumed), else `tok0`. -/
def pick2 (lx : Lexer) (tok0 tok1 : Token) : Lexer × Token :=
  if lx.isAt '=' then (lx.next, tok1) else (lx, tok0)

def pick3 (lx : Lexer) (tok0 tok1 : Token) (c2 : Char) (tok2 : Token) : Lexer × Token :=
  if lx.isAt '=' then (lx.next, tok1) else if lx.isAt c2 then (lx.next, tok2) else (lx, tok0)

def pick4 (lx : Lexer) (tok0 tok1 : Token) (c2 : Char) (tok2 tok3 : Token) : Lexer × Token :=
  if lx.isAt '=' then (lx.next, tok1)
  else if lx.isAt c2 then
    let lx := lx.next
    if lx.isAt '=' then (lx.next, tok3) else (lx, tok2)
  else (lx, tok0)

/-- What one scan produced: a token with its offset and text and whether a newline after it reads
as a semicolon, or a comment to skip. -/
inductive Step where
  | token (tok : Token) (off : Nat) (text : String) (semi : Bool)
  | done (tok : Token) (off : Nat) (text : String)
  | skip

def scanOnce (lx : Lexer) : Lexer × Step :=
  match lx.pendingSemi with
  | some p => ({ lx with pendingSemi := none }, .done .semicolon p "\n")
  | none =>
    let lx := lx.skipBlanks
    let off := lx.offset
    match lx.ch with
    | none =>
      if lx.insertSemi then ({ lx with insertSemi := false }, .done .semicolon off "\n")
      else (lx, .token .eof off "" false)
    | some c =>
      if isLetter c then
        let (lx, word) := lx.scanIdentifier
        if word.length > 1 then
          let tok := Token.ofWord word
          (lx, .token tok off word (tok == .ident || tok == .kwBreak || tok == .kwContinue ||
            tok == .kwFallthrough || tok == .kwReturn))
        else (lx, .token .ident off word true)
      else if isDecimal c || (c == '.' && (lx.peek.map isDecimal).getD false) then
        let (lx, tok, lit) := lx.scanNumber
        (lx, .token tok off lit true)
      else
        let keep := lx.insertSemi
        let lx := lx.next
        match c with
        | '\n' => ({ lx with insertSemi := false }, .done .semicolon off "\n")
        | '"' =>
          let lx := scanStringBody off lx.budget lx
          (lx, .token .string off (lx.slice (lx.offsets.idxOf off) lx.index) true)
        | '\'' =>
          let (lx, n, valid) := scanRuneBody off lx.budget (lx, 0, true)
          let lx := if valid && n != 1 then lx.error off "illegal rune literal" else lx
          (lx, .token .char off (lx.slice (lx.offsets.idxOf off) lx.index) true)
        | '`' =>
          let lx := scanRawBody off lx.budget lx
          let raw := lx.slice (lx.offsets.idxOf off) lx.index
          (lx, .token .string off (String.ofList (raw.toList.filter (· != '\r'))) true)
        | ':' => let (lx, t) := lx.pick2 .colon .define; (lx, .token t off "" false)
        | '.' =>
          if lx.isAt '.' && lx.peek == some '.' then (lx.next.next, .token .ellipsis off "" false)
          else (lx, .token .period off "" false)
        | ',' => (lx, .token .comma off "" false)
        | ';' => (lx, .token .semicolon off ";" false)
        | '(' => (lx, .token .lparen off "" false)
        | ')' => (lx, .token .rparen off "" true)
        | '[' => (lx, .token .lbrack off "" false)
        | ']' => (lx, .token .rbrack off "" true)
        | '{' => (lx, .token .lbrace off "" false)
        | '}' => (lx, .token .rbrace off "" true)
        | '+' => let (lx, t) := lx.pick3 .add .addAssign '+' .inc; (lx, .token t off "" (t == .inc))
        | '-' => let (lx, t) := lx.pick3 .sub .subAssign '-' .dec; (lx, .token t off "" (t == .dec))
        | '*' => let (lx, t) := lx.pick2 .mul .mulAssign; (lx, .token t off "" false)
        | '/' =>
          if lx.isAt '/' then
            let lx := skipWhile (· != '\n') lx.budget lx
            (lx, .skip)
          else if lx.isAt '*' then
            let (lx, nl) := scanBlockComment off lx.budget (lx.next, none)
            match nl with
            | some p => if keep then ({ lx with pendingSemi := some p, insertSemi := false }, .skip)
                        else (lx, .skip)
            | none => (lx, .skip)
          else let (lx, t) := lx.pick2 .quo .quoAssign; (lx, .token t off "" false)
        | '%' => let (lx, t) := lx.pick2 .rem .remAssign; (lx, .token t off "" false)
        | '^' => let (lx, t) := lx.pick2 .xor .xorAssign; (lx, .token t off "" false)
        | '<' =>
          if lx.isAt '-' then (lx.next, .token .arrow off "" false)
          else let (lx, t) := lx.pick4 .lss .leq '<' .shl .shlAssign; (lx, .token t off "" false)
        | '>' => let (lx, t) := lx.pick4 .gtr .geq '>' .shr .shrAssign; (lx, .token t off "" false)
        | '=' => let (lx, t) := lx.pick2 .assign .eql; (lx, .token t off "" false)
        | '!' => let (lx, t) := lx.pick2 .not .neq; (lx, .token t off "" false)
        | '&' =>
          if lx.isAt '^' then let (lx, t) := lx.next.pick2 .andNot .andNotAssign; (lx, .token t off "" false)
          else let (lx, t) := lx.pick3 .and .andAssign '&' .land; (lx, .token t off "" false)
        | '|' => let (lx, t) := lx.pick3 .or .orAssign '|' .lor; (lx, .token t off "" false)
        | '~' => (lx, .token .tilde off "" false)
        | _ =>
          let lx :=
            if c == '﻿' then lx
            else if c == '“' || c == '”' then
              lx.error off ("curly quotation mark " ++ Text.quoteChar c ++ " (use neutral " ++
                Text.quoteChar '"' ++ ")")
            else lx.error off ("invalid character " ++ Text.codePointText c)
          (lx, .token .illegal off (String.singleton c) keep)

/-- Reads the next token, skipping comments, within `fuel` comments. -/
def scan : Nat → Lexer → Lexer × Lexeme
  | 0, lx => (lx, { token := .eof, offset := lx.offset })
  | fuel + 1, lx =>
    match lx.scanOnce with
    | (lx, .skip) => scan fuel lx
    | (lx, .done tok off text) =>
      ({ lx with errors := #[] }, { token := tok, offset := off, text, errors := lx.errors })
    | (lx, .token tok off text semi) =>
      ({ lx with insertSemi := semi, errors := #[] }, { token := tok, offset := off, text, errors := lx.errors })

/-- The tokens of a source up to and including the end-of-input token, within `fuel` tokens. -/
def collect : Nat → Lexer → Array Lexeme → Array Lexeme
  | 0, _, acc => acc.push { token := .eof, offset := 0 }
  | fuel + 1, lx, acc =>
    let (lx, t) := scan lx.budget lx
    if t.token == .eof then acc.push t else collect fuel lx (acc.push t)

end Lexer

/-- The tokens of a whole source, ending with the end-of-input token. -/
def lexemes (src : String) : Array Lexeme :=
  let lx := Lexer.start src
  Lexer.collect (2 * lx.chars.size + 4) lx #[]

end BitSynth.Source
