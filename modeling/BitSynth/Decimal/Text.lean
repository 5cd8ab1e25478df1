import BitSynth.Decimal.Shortest

namespace BitSynth.Decimal

/-- The decisions of a general-format layout. -/
structure Layout where
  /-- Decimal exponents from here up are written positionally. -/
  positionalFrom : Int
  /-- Decimal exponents below this bound are written positionally. -/
  positionalBelow : Int
  /-- Exponent digits are padded with zeros to this many. -/
  exponentDigits : Nat
  nanText : String
  infinityText : String
  /-- Positive infinity carries a plus sign. -/
  signedInfinity : Bool

/-- Decimal exponents from -4 to 5 are positional, others take an exponent of at least two digits
with its sign; NaN is `NaN` and infinities are `+Inf` and `-Inf`. -/
def Layout.general : Layout :=
  { positionalFrom := -4, positionalBelow := 6, exponentDigits := 2, nanText := "NaN",
    infinityText := "Inf", signedInfinity := true }

def digitText (ds : List Nat) : String :=
  String.ofList (ds.map fun d => Char.ofNat ('0'.toNat + d))

/-- Exponent form: one digit, the point and the rest, then `e`, a sign and the exponent. -/
def exponentForm (layout : Layout) (d : Digits) : String :=
  let ds := if d.digits.isEmpty then [0] else d.digits
  let exp := d.point - 1
  let mant := match ds with
    | [] => "0"
    | [x] => digitText [x]
    | x :: rest => digitText [x] ++ "." ++ digitText rest
  let mag := digitText (natDigits exp.natAbs)
  let padded := String.ofList (List.replicate (layout.exponentDigits - mag.length) '0') ++ mag
  mant ++ "e" ++ (if exp < 0 then "-" else "+") ++ padded

/-- Positional form: the integer digits (or `0`), then the point and the fraction digits. -/
def positionalForm (d : Digits) : String :=
  let n := d.digits.length
  let intPart :=
    if d.point ≤ 0 then "0"
    else digitText ((List.range d.point.toNat).map fun i => d.digits.getD i 0)
  let fracCount : Nat := (n - d.point).toNat
  if fracCount == 0 then intPart
  else
    let fracDigits := (List.range fracCount).map fun (i : Nat) =>
      let idx : Int := d.point + (i : Int)
      if idx < 0 then 0 else d.digits.getD idx.toNat 0
    intPart ++ "." ++ digitText fracDigits

def Digits.render (layout : Layout) (d : Digits) : String :=
  let exp := d.point - 1
  if d.digits.isEmpty then "0"
  else if exp < layout.positionalFrom || exp ≥ layout.positionalBelow then exponentForm layout d
  else positionalForm d

def textWith (layout : Layout) (x : Float) : String :=
  match Binary64.decode x.toBits with
  | .nan => layout.nanText
  | .infinite neg =>
    (if neg then "-" else if layout.signedInfinity then "+" else "") ++ layout.infinityText
  | .finite neg m e halved =>
    (if neg then "-" else "") ++ (shortest m e halved).render layout

end BitSynth.Decimal

namespace Float

/-- Shortest text of a float in the general layout, such as `1.25e-10`, `-0`, `123456`, `1e+06`. -/
def text (x : Float) : String := BitSynth.Decimal.textWith BitSynth.Decimal.Layout.general x

end Float
