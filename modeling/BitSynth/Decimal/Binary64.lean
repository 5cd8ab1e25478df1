namespace BitSynth.Decimal

/-- The kinds of binary64 value that text formats tell apart. -/
inductive Binary64 where
  | nan
  | infinite (negative : Bool)
  /-- The value `(-1)^negative * mantissa * 2^exponent`. -/
  | finite (negative : Bool) (mantissa : Nat) (exponent : Int) (lowerGapHalved : Bool)
  deriving Repr, BEq

namespace Binary64

/-- Reads sign, mantissa and exponent off the bits. `lowerGapHalved` marks a power of two above the
smallest normal exponent, whose neighbour below is nearer than its neighbour above. -/
def decode (bits : UInt64) : Binary64 :=
  let negative := bits >>> 63 == 1
  let biased := ((bits >>> 52) &&& 0x7FF).toNat
  let fraction := (bits &&& 0xFFFFFFFFFFFFF).toNat
  if biased == 0x7FF then
    if fraction == 0 then .infinite negative else .nan
  else if biased == 0 then
    .finite negative fraction (-1074) false
  else
    .finite negative (fraction + Nat.pow 2 52) ((biased : Int) - 1075) (fraction == 0 && biased > 1)

def infinityBits : UInt64 := 0x7FF0000000000000

def atLeastPow2 (num den : Nat) (e : Int) : Bool :=
  if 0 ≤ e then num ≥ den * Nat.pow 2 e.toNat else num * Nat.pow 2 (-e).toNat ≥ den

/-- The exponent `e` with `2 ^ e ≤ num / den < 2 ^ (e + 1)`, for positive `num` and `den`. -/
def log2Floor (num den : Nat) : Int :=
  let e : Int := (Nat.log2 num : Int) - Nat.log2 den
  if atLeastPow2 num den e then e else e - 1

/-- Divides with the quotient rounded to nearest, a tie going to an even quotient. -/
def divRoundEven (num den : Nat) : Nat :=
  let q := num / den
  let r := num % den
  if 2 * r > den || (2 * r == den && q % 2 == 1) then q + 1 else q

/-- The bits of the binary64 value nearest to `num / den` (for `den > 0`), a tie going to the even
mantissa; values past the largest finite one give the bits of infinity. -/
def nearestBits (num den : Nat) : UInt64 :=
  if num == 0 || den == 0 then 0
  else
    let e := log2Floor num den
    if e > 1023 then infinityBits
    else
      -- `scale` is the weight of the last mantissa bit
      let scale : Int := if e < -1022 then -1074 else e - 52
      let q :=
        if 0 ≤ scale then divRoundEven num (den * Nat.pow 2 scale.toNat)
        else divRoundEven (num * Nat.pow 2 (-scale).toNat) den
      let bits : Nat := if e < -1022 then q else ((e + 1022).toNat) * Nat.pow 2 52 + q
      if bits ≥ infinityBits.toNat then infinityBits else bits.toUInt64

/-- The binary64 value nearest to `num / den`, negated when `negative`. -/
def nearest (negative : Bool) (num den : Nat) : Float :=
  let bits := nearestBits num den
  Float.ofBits (if negative then bits ||| 0x8000000000000000 else bits)

end Binary64

def ofInt (i : Int) : Float := if i == 0 then 0 else Binary64.nearest (i < 0) i.natAbs 1

def leastWord : Int := -(Int.pow 2 63)

/-- Truncates toward zero to a signed 64-bit word. NaN, the infinities and every value outside the
word range give the least word, the one value that marks an invalid conversion. -/
def truncateWord (x : Float) : Int :=
  match Binary64.decode x.toBits with
  | .finite negative mantissa exponent _ =>
    let magnitude : Nat :=
      if 0 ≤ exponent then mantissa * Nat.pow 2 exponent.toNat
      else mantissa / Nat.pow 2 (-exponent).toNat
    let v : Int := if negative then -(magnitude : Int) else magnitude
    if v < leastWord || v ≥ Int.pow 2 63 then leastWord else v
  | _ => leastWord

end BitSynth.Decimal
