import BitSynth.Decimal.Text

namespace BitSynth.Metrics

/-- The metrics a backend reports, in their fixed order. -/
inductive Metric where
  | area | delayTyp | powerTyp | delayMax | delayMin
  | powerTypStatic | powerTypDynamic | powerMax | powerMaxStatic | powerMaxDynamic
  deriving Repr, BEq, DecidableEq, Inhabited

namespace Metric

def all : List Metric :=
  [.area, .delayTyp, .powerTyp, .delayMax, .delayMin,
   .powerTypStatic, .powerTypDynamic, .powerMax, .powerMaxStatic, .powerMaxDynamic]

def name : Metric → String
  | .area => "area" | .delayTyp => "delay_typ" | .powerTyp => "power_typ"
  | .delayMax => "delay_max" | .delayMin => "delay_min"
  | .powerTypStatic => "power_typ_static" | .powerTypDynamic => "power_typ_dynamic"
  | .powerMax => "power_max" | .powerMaxStatic => "power_max_static"
  | .powerMaxDynamic => "power_max_dynamic"

def ofCode? (code : Int) : Option Metric :=
  if code < 0 then none else all[code.toNat]?

/-- The name of the metric at a position, or `unknown` past the order. -/
def codeName (code : Int) : String :=
  match ofCode? code with
  | some m => m.name
  | none => "unknown"

def ofName? (s : String) : Option Metric := all.find? (·.name == s)

end Metric

/-- A value at the minimum, typical and maximum corners. -/
structure Triplet where
  min : Float := 0
  typ : Float := 0
  max : Float := 0
  deriving Inhabited

def Triplet.typical (v : Float) : Triplet := ⟨v, v, v⟩

/-- A triplet with neither corner copies its typical value into both; one with only a minimum
copies it into the maximum. -/
def Triplet.fill (t : Triplet) : Triplet :=
  if t.min == 0 && t.max == 0 then .typical t.typ
  else if t.max == 0 then { t with max := t.typ }
  else t

def notExtracted : Float := -1

/-- The metrics of one mapped block, its runtimes in microseconds, its netlists and its key. -/
structure Result where
  delay : Triplet := {}
  staticPower : Triplet := {}
  dynamicPower : Triplet := {}
  totalPower : Triplet := {}
  area : Float := 0
  mapperRuntime : Int := 0
  ioRuntime : Int := 0
  mappedFile : String := ""
  preMapFile : String := ""
  id : String := ""
  deriving Inhabited

namespace Result

def missing : Result := { area := notExtracted }

def «exists» (r : Result) : Bool := r.area != notExtracted

def set (r : Result) : Metric → Float → Result
  | .area, v => { r with area := v }
  | .delayTyp, v => { r with delay.typ := v }
  | .delayMin, v => { r with delay.min := v }
  | .delayMax, v => { r with delay.max := v }
  | .powerTyp, v => { r with totalPower.typ := v, totalPower.min := v }
  | .powerMax, v => { r with totalPower.max := v }
  | .powerTypStatic, v => { r with staticPower.typ := v, staticPower.min := v }
  | .powerMaxStatic, v => { r with staticPower.max := v }
  | .powerTypDynamic, v => { r with dynamicPower.typ := v, dynamicPower.min := v }
  | .powerMaxDynamic, v => { r with dynamicPower.max := v }

def get (r : Result) : Metric → Float
  | .area => r.area
  | .delayTyp => r.delay.typ
  | .delayMin => r.delay.min
  | .delayMax => r.delay.max
  | .powerTyp => r.totalPower.typ
  | .powerMax => r.totalPower.max
  | .powerTypStatic => r.staticPower.typ
  | .powerMaxStatic => r.staticPower.max
  | .powerTypDynamic => r.dynamicPower.typ
  | .powerMaxDynamic => r.dynamicPower.max

/-- Fills the corners of every triplet, for backends that report typical values only. -/
def fillCorners (r : Result) : Result :=
  { r with delay := r.delay.fill, staticPower := r.staticPower.fill,
           dynamicPower := r.dynamicPower.fill, totalPower := r.totalPower.fill }

end Result

end BitSynth.Metrics
