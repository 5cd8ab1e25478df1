import BitSynth.Text.Graphic

namespace BitSynth.Text

/-- The lowercase hexadecimal digits of `n`, padded with zeros to `width`. -/
def hexDigits (width n : Nat) : String :=
  let ds := Nat.toDigits 16 n
  String.ofList (List.replicate (width - ds.length) '0' ++ ds)

/-- The uppercase hexadecimal digits of `n`, padded with zeros to `width`. -/
def hexDigitsUpper (width n : Nat) : String :=
  (hexDigits width n).map Char.toUpper

def escapeChar (q c : Char) : String :=
  if c == q || c == '\\' then String.ofList ['\\', c]
  else if isGraphic c then String.singleton c
  else match c with
    | '\x07' => "\\a"
    | '\x08' => "\\b"
    | '\x0c' => "\\f"
    | '\n' => "\\n"
    | '\r' => "\\r"
    | '\t' => "\\t"
    | '\x0b' => "\\v"
    | _ =>
      if c.toNat < 0x20 || c.toNat == 0x7f then "\\x" ++ hexDigits 2 c.toNat
      else if c.toNat < 0x10000 then "\\u" ++ hexDigits 4 c.toNat
      else "\\U" ++ hexDigits 8 c.toNat

def quote (s : String) : String :=
  "\"" ++ String.join (s.toList.map (escapeChar '"')) ++ "\""

def quoteChar (c : Char) : String :=
  "'" ++ escapeChar '\'' c ++ "'"

/-- A code point as `U+0040`, followed by the character in single quotes when it is graphic. -/
def codePointText (c : Char) : String :=
  "U+" ++ hexDigitsUpper 4 c.toNat ++ (if isGraphic c then " '" ++ String.singleton c ++ "'" else "")

def hexValue? (c : Char) : Option Nat :=
  if '0' ≤ c && c ≤ '9' then some (c.toNat - '0'.toNat)
  else if 'a' ≤ c && c ≤ 'f' then some (c.toNat - 'a'.toNat + 10)
  else if 'A' ≤ c && c ≤ 'F' then some (c.toNat - 'A'.toNat + 10)
  else none

def readDigits (base : Nat) : Nat → List Char → Nat → Option (Nat × List Char)
  | 0, rest, acc => some (acc, rest)
  | n + 1, c :: rest, acc =>
    match hexValue? c with
    | some d => if d < base then readDigits base n rest (acc * base + d) else none
    | none => none
  | _ + 1, [], _ => none

/-- A decoded piece of quoted text: a character, or a single byte from an octal or `\x` escape. -/
inductive Piece where
  | char (c : Char)
  | byte (b : Nat)

/-- Decodes the escapes of the inside of a double-quoted text, one step per character read, within
`fuel` steps; `none` on a bare quote, a newline or a malformed escape. -/
def unescapeWithin : Nat → List Char → Option (List Piece)
  | 0, _ => none
  | _ + 1, [] => some []
  | fuel + 1, c :: rest =>
    if c == '"' || c == '\n' then none
    else if c != '\\' then (unescapeWithin fuel rest).map (Piece.char c :: ·)
    else match rest with
      | [] => none
      | e :: rest =>
        let simple (x : Char) := (unescapeWithin fuel rest).map (Piece.char x :: ·)
        let code (n : Nat) (wide : Bool) : Option (List Piece) :=
          match readDigits 16 n rest 0 with
          | some (v, after) =>
            if v > 0x10FFFF || (v ≥ 0xD800 && v < 0xE000) then none
            else if wide then (unescapeWithin fuel after).map (Piece.char (Char.ofNat v) :: ·)
            else (unescapeWithin fuel after).map (Piece.byte v :: ·)
          | none => none
        match e with
        | 'a' => simple '\x07'
        | 'b' => simple '\x08'
        | 'f' => simple '\x0c'
        | 'n' => simple '\n'
        | 'r' => simple '\r'
        | 't' => simple '\t'
        | 'v' => simple '\x0b'
        | '\\' => simple '\\'
        | '"' => simple '"'
        | 'x' => code 2 false
        | 'u' => code 4 true
        | 'U' => code 8 true
        | _ =>
          if '0' ≤ e && e ≤ '7' then
            match readDigits 8 3 (e :: rest) 0 with
            | some (v, after) =>
              if v > 255 then none else (unescapeWithin fuel after).map (Piece.byte v :: ·)
            | none => none
          else none

def Piece.bytes : Piece → List UInt8
  | .char c => (String.singleton c).toUTF8.toList
  | .byte b => [b.toUInt8]

/-- Text of decoded pieces; byte sequences that are no UTF-8 stand for their own code points. -/
def piecesText (ps : List Piece) : String :=
  match String.fromUTF8? (ByteArray.mk (ps.flatMap Piece.bytes).toArray) with
  | some s => s
  | none => String.ofList (ps.map fun p => match p with
      | .char c => c
      | .byte b => Char.ofNat b)

/-- The text that a double-quoted literal stands for; `none` unless it is one. -/
def unquote? (s : String) : Option String :=
  let cs := s.toList
  if cs.length < 2 || cs.head? != some '"' || cs.getLast? != some '"' then none
  else
    let inner := (cs.drop 1).take (cs.length - 2)
    (unescapeWithin (inner.length + 1) inner).map piecesText

end BitSynth.Text
