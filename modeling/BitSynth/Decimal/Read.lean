import BitSynth.Decimal.Shortest
import BitSynth.Decimal.Integer

namespace BitSynth.Decimal

/-- A numeral's parts: sign, all mantissa digits as one integer, the power of the base that scales
it, and whether the base is sixteen (with a binary exponent) rather than ten. -/
structure Numeral where
  negative : Bool
  mantissa : Nat
  exponent : Int
  hex : Bool

/-- The longest prefix of `word` that `cs` starts with, ignoring ASCII case. -/
def commonPrefixLength (cs : List Char) (word : List Char) : Nat :=
  ((cs.zip word).takeWhile fun (a, b) => lowerAscii a == b).length

/-- The special texts: an optional sign with `inf` or `infinity`, or `nan`. -/
def special? (s : String) : Option Float :=
  let cs := s.toList
  let (sign, rest, signed) := match cs with
    | '+' :: r => (false, r, true)
    | '-' :: r => (true, r, true)
    | r => (false, r, false)
  let inf := commonPrefixLength rest "infinity".toList
  if (inf == 3 && rest.length == 3) || (inf == 8 && rest.length == 8) then
    some (if sign then -(1.0 / 0.0) else 1.0 / 0.0)
  else if !signed && rest.length == 3 && commonPrefixLength rest "nan".toList == 3 then
    some (0.0 / 0.0)
  else none

/-- Mantissa digits: the digits read, how many follow the point, and the rest. -/
structure MantissaScan where
  value : Nat := 0
  fractionDigits : Nat := 0
  sawDigit : Bool := false
  sawPoint : Bool := false

def scanMantissa (base : Nat) : List Char → MantissaScan → MantissaScan × List Char
  | [], m => (m, [])
  | c :: rest, m =>
    if c == '_' then scanMantissa base rest m
    else if c == '.' then
      if m.sawPoint then (m, c :: rest) else scanMantissa base rest { m with sawPoint := true }
    else match digitValue? c with
      | some d =>
        if d < base && (base == 16 || ('0' ≤ c && c ≤ '9')) then
          scanMantissa base rest
            { m with value := m.value * base + d, sawDigit := true,
                     fractionDigits := if m.sawPoint then m.fractionDigits + 1 else m.fractionDigits }
        else (m, c :: rest)
      | none => (m, c :: rest)

/-- Reads exponent digits and `_`; the value stops growing at 10000. -/
def scanExponent : List Char → Nat → Nat × List Char
  | [], e => (e, [])
  | c :: rest, e =>
    if c == '_' then scanExponent rest e
    else if '0' ≤ c && c ≤ '9' then
      scanExponent rest (if e < 10000 then e * 10 + (c.toNat - '0'.toNat) else e)
    else (e, c :: rest)

def Numeral.parse? (s : String) : Option Numeral :=
  let cs := s.toList
  let (negative, body) := match cs with
    | '+' :: r => (false, r)
    | '-' :: r => (true, r)
    | r => (false, r)
  let (hex, digits) := match body with
    | '0' :: x :: r@(_ :: _) => if lowerAscii x == 'x' then (true, r) else (false, body)
    | _ => (false, body)
  let base := if hex then 16 else 10
  let (m, rest) := scanMantissa base digits {}
  if !m.sawDigit then none
  else
    let pointShift : Int := -(m.fractionDigits : Int) * (if hex then 4 else 1)
    let expChar := if hex then 'p' else 'e'
    let finish (exp : Int) (rest : List Char) : Option Numeral :=
      if !rest.isEmpty then none
      else if cs.contains '_' && !underscoresSeparate s then none
      else some { negative, mantissa := m.value, exponent := pointShift + exp, hex }
    match rest with
    | c :: r =>
      if lowerAscii c == expChar then
        let (esign, r) : Int × List Char := match r with
          | '+' :: r => (1, r)
          | '-' :: r => (-1, r)
          | r => (1, r)
        match r with
        | d :: _ =>
          if '0' ≤ d && d ≤ '9' then
            let (e, after) := scanExponent r 0
            finish (esign * e) after
          else none
        | [] => none
      else if hex then none
      else finish 0 rest
    | [] => if hex then none else finish 0 []

/-- The value of a numeral, rounded to nearest; `none` past the largest finite value. -/
def Numeral.value? (n : Numeral) : Option Float :=
  if n.mantissa == 0 then some (if n.negative then -0.0 else 0.0)
  else
    let radix := if n.hex then 2 else 10
    -- beyond these exponents the value is certainly zero or certainly past the largest
    let digits := (natDigits n.mantissa).length
    if n.exponent + digits < -1100 && !n.hex then some (if n.negative then -0.0 else 0.0)
    else if n.exponent + digits > 400 && !n.hex then none
    else if n.hex && n.exponent + 4 * digits < -1200 then some (if n.negative then -0.0 else 0.0)
    else if n.hex && n.exponent > 1100 then none
    else
      let (num, den) :=
        if 0 ≤ n.exponent then (n.mantissa * Nat.pow radix n.exponent.toNat, 1)
        else (n.mantissa, Nat.pow radix (-n.exponent).toNat)
      let bits := Binary64.nearestBits num den
      if bits == Binary64.infinityBits then none else some (Binary64.nearest n.negative num den)

def readFloat (s : String) : Except NumberError Float :=
  match special? s with
  | some x => .ok x
  | none =>
    match Numeral.parse? s with
    | none => .error ⟨"ParseFloat", s, .invalidSyntax⟩
    | some n =>
      match n.value? with
      | some x => .ok x
      | none => .error ⟨"ParseFloat", s, .outOfRange⟩

def readFloat? (s : String) : Option Float :=
  match readFloat s with
  | .ok x => some x
  | .error _ => none

end BitSynth.Decimal
