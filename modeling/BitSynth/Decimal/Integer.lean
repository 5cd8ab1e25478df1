import BitSynth.Text.Quoted

namespace BitSynth.Decimal

/-- Why a numeral was refused. -/
inductive NumberFault where
  | invalidSyntax
  | outOfRange
  deriving Repr, BEq, DecidableEq

/-- A refused numeral: the reading routine's name, the text it was given, and the fault. -/
structure NumberError where
  reader : String
  input : String
  fault : NumberFault
  deriving Repr, BEq

/-- The message of a refused numeral, such as
`strconv.ParseUint: parsing "0x1": value out of range`. -/
def NumberError.message (e : NumberError) : String :=
  "strconv." ++ e.reader ++ ": parsing " ++ Text.quote e.input ++ ": " ++
    (match e.fault with
      | .invalidSyntax => "invalid syntax"
      | .outOfRange => "value out of range")

def lowerAscii (c : Char) : Char := if 'A' ≤ c && c ≤ 'Z' then Char.ofNat (c.toNat + 32) else c

/-- The value of an ASCII digit or letter as a digit of base up to 36. -/
def digitValue? (c : Char) : Option Nat :=
  let l := lowerAscii c
  if '0' ≤ c && c ≤ '9' then some (c.toNat - '0'.toNat)
  else if 'a' ≤ l && l ≤ 'z' then some (l.toNat - 'a'.toNat + 10)
  else none

/-- Whether underscores in a numeral only ever stand between two digits, a base prefix counting as
a digit. -/
def underscoresSeparate (s : String) : Bool :=
  let cs := match s.toList with
    | '+' :: r => r
    | '-' :: r => r
    | r => r
  let (cs, hex, start) := match cs with
    | '0' :: p :: r =>
      let l := lowerAscii p
      if l == 'b' || l == 'o' || l == 'x' then (r, l == 'x', '0') else (cs, false, '^')
    | _ => (cs, false, '^')
  let last := cs.foldl (fun saw c =>
    match saw with
    | none => none
    | some saw =>
      let l := lowerAscii c
      if ('0' ≤ c && c ≤ '9') || (hex && 'a' ≤ l && l ≤ 'f') then some '0'
      else if c == '_' then (if saw == '0' then some '_' else none)
      else if saw == '_' then none
      else some '!') (some start)
  match last with
  | some saw => saw != '_'
  | none => false

/-- Accumulates digits of `base` below `limit`; the first digit out of the base is a syntax fault,
the first step past the limit a range fault, whichever comes first. -/
def accumulate (base limit : Nat) (underscores : Bool) : List Char → Nat → Except NumberFault Nat
  | [], n => .ok n
  | c :: rest, n =>
    if c == '_' && underscores then accumulate base limit underscores rest n
    else match digitValue? c with
      | none => .error .invalidSyntax
      | some d =>
        if d ≥ base then .error .invalidSyntax
        else if n * base + d > limit then .error .outOfRange
        else accumulate base limit underscores rest (n * base + d)

/-- Reads an unsigned 64-bit numeral. With `prefixed`, a base prefix and `_` separators are
allowed; otherwise the digits are decimal. -/
def readUnsigned (reader : String) (prefixed : Bool) (s : String) : Except NumberError Nat :=
  let fail (f : NumberFault) : Except NumberError Nat := .error ⟨reader, s, f⟩
  if s.isEmpty then fail .invalidSyntax
  else
    let cs := s.toList
    let (base, digits) :=
      if prefixed then
        match cs with
        | '0' :: p :: r@(_ :: _) =>
          let l := lowerAscii p
          if l == 'b' then (2, r) else if l == 'o' then (8, r) else if l == 'x' then (16, r)
          else (8, p :: r)
        | '0' :: r => (8, r)
        | _ => (10, cs)
      else (10, cs)
    match accumulate base (Nat.pow 2 64 - 1) prefixed digits 0 with
    | .error f => fail f
    | .ok n =>
      if prefixed && cs.contains '_' && !underscoresSeparate s then fail .invalidSyntax
      else .ok n

/-- Reads a signed 64-bit numeral: an optional sign, then digits as `readUnsigned` takes them. -/
def readSigned (reader : String) (prefixed : Bool) (s : String) : Except NumberError Int :=
  let fail (f : NumberFault) : Except NumberError Int := .error ⟨reader, s, f⟩
  if s.isEmpty then fail .invalidSyntax
  else
    let (neg, body) := match s.toList with
      | '+' :: r => (false, String.ofList r)
      | '-' :: r => (true, String.ofList r)
      | r => (false, String.ofList r)
    match readUnsigned reader prefixed body with
    | .error e =>
      if e.fault == .outOfRange then fail .outOfRange else fail e.fault
    | .ok n =>
      if !neg && n ≥ Nat.pow 2 63 then fail .outOfRange
      else if neg && n > Nat.pow 2 63 then fail .outOfRange
      else .ok (if neg then -(n : Int) else n)

/-- Reads a decimal integer with an optional sign that fits in 64 bits. -/
def readInt (s : String) : Except NumberError Int := readSigned "Atoi" false s

def readInt? (s : String) : Option Int :=
  match readInt s with
  | .ok n => some n
  | .error _ => none

end BitSynth.Decimal
