import BitSynth.Metrics.Result
import BitSynth.Decimal.Read
import BitSynth.Decimal.Integer
import BitSynth.Decimal.Binary64
import BitSynth.Text.Quoted
import BitSynth.Text.Space
import BitSynth.Text.Lines
import BitSynth.Failure

namespace BitSynth.Cache

open Metrics

/-- One cached block: its key, its slot number and its result. -/
structure Entry where
  id : String
  slot : Int
  result : Result
  deriving Inhabited

def mappedName (slot : Int) : String := toString slot ++ ".v"

def preMapName (slot : Int) : String := toString slot ++ "pre.v"

def indexFile : String := "expr.index"

/-- Columns per index line: key, slot, four metric triplets, area and the two runtimes. -/
def columns : Nat := 17

/-- The comment lines that start a new index, without their line ends. -/
def headerLines : List String :=
  let rule := "# " ++ String.ofList (List.replicate 120 '-')
  [rule,
   "# Expression cache index and metrics file",
   "# Metrics except area are in triplets (min,typ,max)",
   "# Format: <unique_id> <file_name> <delay> <static power> <dynamic power> <total power> <area> <mapper_runtime> <io_runtime>",
   "# Type: <string> <int> <double (s)> <double (W)> <double (W)> <double (W)> <double (W)> <mapper_runtime (us)> <io_runtime (us)>",
   rule]

def indexHeader : String := String.join (headerLines.map (· ++ "\n"))

/-- The marker of an index that contradicts itself or the files on disk. -/
def integrity (message : String) : Error := ⟨.integrity, message ++ ": cache: integrity violation"⟩

def Entry.format (e : Entry) : String :=
  let r := e.result
  let triplet (t : Triplet) : List String := [t.min.text, t.typ.text, t.max.text]
  " ".intercalate ([e.id, toString e.slot] ++ triplet r.delay ++ triplet r.staticPower ++
    triplet r.dynamicPower ++ triplet r.totalPower ++
    [r.area.text, toString r.mapperRuntime, toString r.ioRuntime])

/-- Reads the numbers of the metric columns, naming the first that is not a number. -/
def readColumns : List String → Nat → Except Error (List Float)
  | [], _ => .ok []
  | f :: rest, column =>
    match Decimal.readFloat? f with
    | none => .error (integrity ("bad number " ++ Text.quote f ++ " in column " ++ toString column))
    | some v => do
      let vs ← readColumns rest (column + 1)
      pure (v :: vs)

/-- Parses one index line; the netlist paths of the result stay empty. -/
def Entry.parse (line : String) : Except Error Entry := do
  let fields := Text.fields line
  let count := fields.length
  match fields with
  | id :: slotText :: rest =>
    if count != columns then throw (integrity s!"index line has {count} columns, want {columns}")
    let slot ← match Decimal.readInt? slotText with
      | some n => if n < 0 then throw (integrity ("bad slot " ++ Text.quote slotText)) else pure n
      | none => throw (integrity ("bad slot " ++ Text.quote slotText))
    let nums ← readColumns rest 3
    let col (i : Nat) : Float := nums[i]?.getD 0
    let triplet (i : Nat) : Triplet := ⟨col (3 * i), col (3 * i + 1), col (3 * i + 2)⟩
    let result : Result :=
      { delay := triplet 0, staticPower := triplet 1, dynamicPower := triplet 2,
        totalPower := triplet 3, area := col 12, mapperRuntime := Decimal.truncateWord (col 13),
        ioRuntime := Decimal.truncateWord (col 14), id }
    pure { id, slot, result }
  | _ => throw (integrity s!"index line has {count} columns, want {columns}")

/-- Reads one line of an index with its number from zero: blank and comment lines are skipped,
any other is parsed as an entry, and a bad line fails with its line number. -/
def readIndexLine (acc : Except Error (Array Entry)) (item : String × Nat) : Except Error (Array Entry) := do
  let out ← acc
  let line := Text.trimSpace item.1
  if line.isEmpty || line.toList.head? == some '#' then pure out
  else
    match Entry.parse line with
    | .ok e => pure (out.push e)
    | .error e => throw (e.wrap ("line " ++ toString (item.2 + 1)))

/-- Parses every entry of an index, skipping blank and comment lines; a bad line fails with its
line number. Lines are read up to sixteen mebibytes: reading stops at a longer one, which fails
once the lines before it are read. -/
def readIndex (text : String) : Except Error (List Entry) := do
  let (lines, tooLong) := Text.scanBounded Text.longLineLimit text
  let entries ← lines.zipIdx.foldl readIndexLine (.ok #[])
  if tooLong then throw (.plain "read index: bufio.Scanner: token too long")
  pure entries.toList

end BitSynth.Cache
