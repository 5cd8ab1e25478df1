import BitSynth.Text.Quoted

namespace BitSynth.Dump

/-- A value with its type name: an integer, a string, a record of named fields, or a map. -/
inductive Value where
  | int (type : String) (v : Int)
  | str (type : String) (s : String)
  | record (type : String) (fields : List (String × Value))
  | map (type : String) (entries : List (Value × Value))
  deriving Inhabited

def indent (depth : Nat) : String := String.join (List.replicate depth "  ")

def separator (last : Bool) : String := if last then "\n" else ",\n"

mutual

/-- The text of a value at a nesting depth, without the indentation of its first line. -/
def Value.text : Value → Nat → String
  | .int type v, _ => "(" ++ type ++ ") " ++ toString v
  | .str type s, _ =>
    "(" ++ type ++ ") " ++ (if s.isEmpty then "" else "(len=" ++ toString s.utf8ByteSize ++ ") ") ++ Text.quote s
  | .record type fields, depth =>
    "(" ++ type ++ ") \x7b\n" ++ fieldsText fields (depth + 1) ++ indent depth ++ "\x7d"
  | .map type entries, depth =>
    "(" ++ type ++ ") " ++ (if entries.isEmpty then "" else "(len=" ++ toString entries.length ++ ") ") ++
      "\x7b\n" ++ entriesText entries (depth + 1) ++ indent depth ++ "\x7d"

def fieldsText : List (String × Value) → Nat → String
  | [], _ => ""
  | (name, v) :: rest, depth =>
    indent depth ++ name ++ ": " ++ v.text depth ++ separator rest.isEmpty ++ fieldsText rest depth

def entriesText : List (Value × Value) → Nat → String
  | [], _ => ""
  | (k, v) :: rest, depth =>
    indent depth ++ k.text depth ++ ": " ++ v.text depth ++ separator rest.isEmpty ++ entriesText rest depth

end

def Value.line (v : Value) : String := v.text 0 ++ "\n"

end BitSynth.Dump
