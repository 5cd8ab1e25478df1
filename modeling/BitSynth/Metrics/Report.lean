import BitSynth.Metrics.Result
import BitSynth.Host.Disk
import BitSynth.Text.Lines
import BitSynth.Text.Space
import BitSynth.Text.Search
import BitSynth.Decimal.Read
import BitSynth.Decimal.Binary64

namespace BitSynth.Metrics

def picoseconds : Float := 1e-12
def squareMicrons : Float := 1e-12
def nanowatts : Float := 1e-9

/-- The area in square microns of the cells of the OSU standard cell library. -/
def osuCellArea : List (String × Float) :=
  [("AND2X1", 32), ("AND2X2", 32), ("AOI21X1", 32), ("AOI22X2", 40),
   ("BUFX2", 24), ("BUFX4", 32), ("CLKBUF1", 72), ("CLKBUF2", 104), ("CLKBUF3", 136),
   ("FAX1", 120), ("HAX1", 80),
   ("INVX1", 16), ("INVX2", 16), ("INVX4", 24), ("INVX8", 40),
   ("LATCH", 16), ("MUX2X1", 48),
   ("NAND2X1", 24), ("NAND3X1", 36), ("NOR2X1", 24), ("NOR3X1", 64),
   ("OAI21X1", 24), ("OAI22X1", 40), ("OR2X1", 32), ("OR2X2", 32),
   ("TBUFX1", 40), ("TBUFX2", 56), ("XNOR2X1", 56), ("XOR2X1", 56)]

def cellArea (name : String) : Float := ((osuCellArea.find? (·.1 == name)).map (·.2)).getD 0

/-- Reads a file as text. -/
abbrev Reader := String → Except IoError String

/-- The text of a log, `none` when it does not exist; other failures are errors naming the path. -/
def readLog (read : Reader) (path : String) : Except Error (Option String) :=
  match read path with
  | .ok text => .ok (some text)
  | .error e =>
    if e.op == "open" then
      if e.fault == .notFound then .ok none else .error (e.toError.wrap ("open " ++ path))
    else .error (e.toError.wrap ("read " ++ path))

def floatAfter (s pre : String) : Option Float :=
  match Text.fields (Text.trimStart s pre) with
  | f :: _ => Decimal.readFloat? f
  | [] => none

/-- The largest value a matcher finds in the lines of a log, or `failure` when the log does not
exist or no line matches. -/
def readMaxFloat (read : Reader) (path : String) (m : String → Option Float) (failure : Float) :
    Except Error Float := do
  match ← readLog read path with
  | none => pure failure
  | some text =>
    let step (acc : Float × Bool) (line : String) : Float × Bool :=
      match m line with
      | some v => if acc.2 || v > acc.1 then (v, false) else acc
      | none => acc
    pure ((Text.scanLines text).foldl step (failure, true)).1

/-- The area of one gate line `<cell> Fanin = <n> Instance = <n> Area = <area> ...`. -/
def gateArea (line : String) : Option Float :=
  match Text.fields line with
  | _ :: "Fanin" :: "=" :: fanin :: "Instance" :: "=" :: count :: "Area" :: "=" :: area :: _ =>
    if (Decimal.readInt? fanin).isSome && (Decimal.readInt? count).isSome then Decimal.readFloat? area
    else none
  | _ => none

/-- The delay and area in an optimiser session log: the delay of the last `Delay =` line and the
sum of the gate areas. A missing log has delay `-1`. -/
def readOptimiserLog (read : Reader) (path : String) : Except Error (Float × Float) := do
  match ← readLog read path with
  | none => pure (-1, 0)
  | some text =>
    let step (acc : Float × Float) (line : String) : Float × Float :=
      match Text.afterFirst? line "Delay =" with
      | some rest =>
        match floatAfter rest "" with
        | some v => (v * picoseconds, acc.2)
        | none => acc
      | none =>
        if Text.hasText line "Fanin =" then
          match gateArea line with
          | some v => (acc.1, acc.2 + v * squareMicrons)
          | none => acc
        else acc
    pure ((Text.scanLines text).foldl step (-1, 0))

/-- The delay and area in a yosys log: the optimiser's delay line, and the cell counts of the
`ABC RESULTS:` lines weighted with the library areas. A missing log has delay `-1`. -/
def readYosysLog (read : Reader) (path : String) : Except Error (Float × Float) := do
  match ← readLog read path with
  | none => pure (-1, 0)
  | some text =>
    let step (acc : Float × Float) (line : String) : Float × Float :=
      if line.startsWith "ABC RESULTS:" then
        match Text.fields (Text.trimStart line "ABC RESULTS:") with
        | cell :: "cells:" :: n :: _ =>
          match Decimal.readInt? n with
          | some count => if count ≤ 0 then acc else (acc.1, acc.2 + cellArea cell * Decimal.ofInt count)
          | none => acc
        | _ => acc
      else if line.startsWith "ABC:" then
        match Text.afterFirst? line "Delay =" with
        | some rest =>
          match floatAfter rest "" with
          | some v => (v * picoseconds, acc.2)
          | none => acc
        | none => acc
      else acc
    let (delay, cells) := (Text.scanLines text).foldl step (-1, 0)
    pure (delay, cells * squareMicrons)

/-- Field `n` of a line `<word> <f1> <f2> ...`, provided fields 1 to `n` are all numbers. -/
def column (n : Nat) (line : String) : Option Float :=
  let f := Text.fields line
  if f.length ≤ n then none
  else
    ((f.drop 1).take n).foldl (fun acc x =>
      match acc, Decimal.readFloat? x with
      | some _, some v => some v
      | _, _ => none) (some 0)

def subtotal (n : Nat) (line : String) : Option Float :=
  match Text.fields line with
  | "Subtotal" :: _ => column n line
  | _ => none

/-- The value of a `Data Path:-` line, leading blanks and tabs allowed. -/
def dataPath (line : String) : Option Float :=
  let trimmed := Text.trimLeftOf line [' ', '\t']
  if trimmed.startsWith "Data Path:-" then floatAfter trimmed "Data Path:-" else none

/-- The static, dynamic and total power of a power report: its subtotal line as reported, or the
older per-cell lines in nanowatts when there is no nonzero subtotal. -/
def readPower (read : Reader) (path : String) : Except Error (Float × Float × Float) := do
  let total ← readMaxFloat read path (subtotal 4) 0
  if total != 0 then
    let static ← readMaxFloat read path (subtotal 1) 0
    let dynamic ← readMaxFloat read path (subtotal 3) 0
    pure (static, dynamic, total)
  else
    let total ← readMaxFloat read path (column 4) 0
    let static ← readMaxFloat read path (column 2) 0
    let dynamic ← readMaxFloat read path (column 3) 0
    pure (static * nanowatts, dynamic * nanowatts, total * nanowatts)

/-- Reading that keeps the result gathered so far when it fails. -/
abbrev Gathering := ExceptT Error (StateM Result)

def gather {α : Type} (x : Except Error α) : Gathering α := ExceptT.mk (pure x)

/-- The metrics in the genus reports `<base>.{power_typ,power_max,area,timing_min,timing_max,
timing_typ}.log`. Missing reports contribute zero. -/
def readGenusLogs (read : Reader) (base : String) : Gathering Unit := do
  let corners : List (String × Metric × Metric × Metric) :=
    [(".power_typ.log", .powerTypStatic, .powerTypDynamic, .powerTyp),
     (".power_max.log", .powerMaxStatic, .powerMaxDynamic, .powerMax)]
  for (file, ks, kd, kt) in corners do
    let (static, dynamic, total) ← gather (readPower read (base ++ file))
    modify fun r => ((r.set ks static).set kd dynamic).set kt total
  let area ← gather (readMaxFloat read (base ++ ".area.log") (column 4) 0)
  modify fun r => { r with area := area * squareMicrons }
  let timings : List (String × Metric) :=
    [(".timing_min.log", .delayMin), (".timing_max.log", .delayMax), (".timing_typ.log", .delayTyp)]
  for (file, k) in timings do
    let v ← gather (readMaxFloat read (base ++ file) dataPath 0)
    modify fun r => r.set k (v * picoseconds)

end BitSynth.Metrics
