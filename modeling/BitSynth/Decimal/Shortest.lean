import BitSynth.Decimal.Binary64

namespace BitSynth.Decimal

/-- Significant decimal digits `d₁ d₂ … dₙ` and a point place `p`: the value
`0.d₁d₂…dₙ × 10^p`. The digits have no trailing zero. -/
structure Digits where
  digits : List Nat
  point : Int
  deriving Repr, BEq

def natDigits (n : Nat) : List Nat :=
  (Nat.toDigits 10 n).map fun c => c.toNat - '0'.toNat

def trimZeros (ds : List Nat) : List Nat :=
  (ds.reverse.dropWhile (· == 0)).reverse

/-- Compares `t * 10 ^ k` with `x / den` in exact rational arithmetic. -/
def scaledCompare (t : Nat) (k : Int) (x den : Nat) : Ordering :=
  if 0 ≤ k then compare (t * Nat.pow 10 k.toNat * den) x
  else compare (t * den) (x * Nat.pow 10 (-k).toNat)

/-- The exponent `e` with `10 ^ e ≤ num / den < 10 ^ (e + 1)`, for positive `num` and `den`. -/
def log10Floor (num den : Nat) : Int :=
  let e : Int := ((natDigits num).length : Int) - (natDigits den).length
  if scaledCompare 1 e num den != .gt then e else e - 1

def floorScaled (num den : Nat) (k : Int) : Nat :=
  if 0 ≤ k then num / (den * Nat.pow 10 k.toNat) else num * Nat.pow 10 (-k).toNat / den

/-- Whether a comparison result lies on the wanted side, equality counting when `closed`. -/
def within (o wanted : Ordering) (closed : Bool) : Bool :=
  o == wanted || (o == .eq && closed)

/-- One precision's attempt: the decimal with `p` significant digits nearest to the value inside the
rounding interval `(low, high)` (ends included when `closed`), all over the denominator `den`. -/
def attempt (value low high den : Nat) (closed : Bool) (e : Int) (p : Nat) : Option (Nat × Int) :=
  let k := e - p + 1
  let c := floorScaled value den k
  let downOk := within (scaledCompare c k low den) .gt closed
  let upOk := within (scaledCompare (c + 1) k high den) .lt closed
  match downOk, upOk with
  | true, true =>
    -- the nearer of the two, a tie to the even one
    match scaledCompare (2 * c + 1) k (2 * value) den with
    | .gt => some (c, k)
    | .lt => some (c + 1, k)
    | .eq => some (if c % 2 == 0 then c else c + 1, k)
  | true, false => some (c, k)
  | false, true => some (c + 1, k)
  | false, false => none

/-- The first precision from `p` up to 17 that has a decimal inside the interval. -/
def search (value low high den : Nat) (closed : Bool) (e : Int) : Nat → Nat → Option (Nat × Int)
  | 0, _ => none
  | fuel + 1, p =>
    match attempt value low high den closed e p with
    | some r => some r
    | none => search value low high den closed e fuel (p + 1)

/-- Shortest digits of the positive value `mantissa * 2 ^ exponent`. -/
def shortestOf (mantissa : Nat) (exponent : Int) (lowerGapHalved : Bool) : Digits :=
  -- work in units of 2^(exponent-2): the value is 4m, its neighbours' midpoints 4m ± 2
  let v := 4 * mantissa
  let hi := v + 2
  let lo := if lowerGapHalved then v - 1 else v - 2
  let shift := exponent - 2
  let (value, low, high, den) :=
    if 0 ≤ shift then
      (v * Nat.pow 2 shift.toNat, lo * Nat.pow 2 shift.toNat, hi * Nat.pow 2 shift.toNat, 1)
    else (v, lo, hi, Nat.pow 2 (-shift).toNat)
  let e := log10Floor value den
  match search value low high den (mantissa % 2 == 0) e 17 1 with
  | some (t, k) =>
    let ds := natDigits t
    { digits := trimZeros ds, point := ds.length + k }
  | none =>
    let ds := natDigits (floorScaled value den (e - 16))
    { digits := trimZeros ds, point := ds.length + (e - 16) }

/-- Shortest digits of a finite binary64 value's magnitude; zero has no digits. -/
def shortest (mantissa : Nat) (exponent : Int) (lowerGapHalved : Bool) : Digits :=
  if mantissa == 0 then { digits := [], point := 0 } else shortestOf mantissa exponent lowerGapHalved

end BitSynth.Decimal
