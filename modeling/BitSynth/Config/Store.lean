import BitSynth.Decimal.Read
import BitSynth.Decimal.Text
import BitSynth.Decimal.Binary64
import BitSynth.Text.Quoted
import BitSynth.Failure

namespace BitSynth.Config

/-- The type of a configuration value. -/
inductive ValueType where
  | int | real | string
  deriving Repr, BEq, DecidableEq, Inhabited

def ValueType.name : ValueType → String
  | .int => "int" | .real => "real" | .string => "string"

/-- A configuration value. -/
inductive Value where
  | int (i : Int)
  | real (r : Float)
  | text (s : String)
  deriving Inhabited

def Value.type : Value → ValueType
  | .int _ => .int | .real _ => .real | .text _ => .string

def none : String := "none"

def missingKey (what : String) : Error := ⟨.missingKey, what ++ ": config: missing key"⟩

/-- Reads text as a value of a type. A string in double quotes stands for the text it quotes. -/
def parseValue (t : ValueType) (text : String) : Except Error Value :=
  match t with
  | .int =>
    match Decimal.readInt? text with
    | some i => .ok (.int i)
    | Option.none => .error (.plain ("bad int " ++ Text.quote text))
  | .real =>
    match Decimal.readFloat? text with
    | some r => .ok (.real r)
    | Option.none => .error (.plain ("bad real " ++ Text.quote text))
  | .string =>
    match Text.unquote? text with
    | some s => .ok (.text s)
    | Option.none => .ok (.text text)

/-- Typed values under their keys. -/
structure Store where
  entries : List (String × Value) := []
  deriving Inhabited

namespace Store

def find? (s : Store) (key : String) : Option Value := (s.entries.find? (·.1 == key)).map (·.2)

def «exists» (s : Store) (key : String) : Bool := (s.find? key).isSome

def put (s : Store) (key : String) (v : Value) (overwrite : Bool) : Store :=
  if s.entries.any (·.1 == key) then
    if overwrite then { entries := s.entries.map fun e => if e.1 == key then (key, v) else e } else s
  else { entries := s.entries ++ [(key, v)] }

def get (s : Store) (key : String) (t : ValueType) : Except Error Value :=
  match s.find? key with
  | Option.none => .error (missingKey key)
  | some v =>
    if v.type == t then .ok v
    else .error (.plain ("config: " ++ key ++ " is " ++ v.type.name ++ ", not " ++ t.name))

def int (s : Store) (key : String) : Except Error Int :=
  match s.get key .int with
  | .ok (.int i) => .ok i
  | .ok _ => .ok 0
  | .error e => .error e

def real (s : Store) (key : String) : Except Error Float :=
  match s.find? key with
  | some (.int i) => .ok (Decimal.ofInt i)
  | _ =>
    match s.get key .real with
    | .ok (.real r) => .ok r
    | .ok _ => .ok 0
    | .error e => .error e

def string (s : Store) (key : String) : Except Error String :=
  match s.get key .string with
  | .ok (.text t) => .ok t
  | .ok _ => .ok ""
  | .error e => .error e

/-- The integer under a key, or a default when it has none or another type. -/
def intOr (s : Store) (key : String) (default : Int) : Int :=
  match s.int key with
  | .ok i => i
  | .error _ => default

def path (s : Store) (key : String) : Option String :=
  match s.string key with
  | .ok v => if v == Config.none || v.isEmpty then Option.none else some v
  | .error _ => Option.none

/-- Stores text read as the type the key has, or the type the text reads as for a new key. -/
def set (s : Store) (key text : String) : Except Error Store :=
  let t : ValueType :=
    match s.find? key with
    | some v => v.type
    | Option.none =>
      if (Decimal.readInt? text).isSome then .int
      else if (Decimal.readFloat? text).isSome then .real
      else .string
  match parseValue t text with
  | .ok v => .ok (s.put key v true)
  | .error e => .error (e.wrap ("config: " ++ key))

def keys (s : Store) : List String := (s.entries.map (·.1)).mergeSort fun a b => decide (a ≤ b)

/-- A value with its type as a configuration file writes it; empty for a missing key. -/
def format (s : Store) (key : String) : String :=
  match s.find? key with
  | Option.none => ""
  | some (.int i) => "int " ++ toString i
  | some (.real r) => "real " ++ r.text
  | some (.text t) => "string " ++ Text.quote t

end Store

end BitSynth.Config
