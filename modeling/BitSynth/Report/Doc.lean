import BitSynth.Failure
import BitSynth.Decimal.Text
import BitSynth.Text.Bytes

namespace BitSynth

/-- A structured value of a report. -/
inductive Doc where
  | null
  | bool (b : Bool)
  | int (i : Int)
  | str (s : String)
  | arr (items : List Doc)
  | obj (fields : List (String × Doc))
  deriving Repr, Inhabited

def Cause.name : Cause → String
  | .semantic => "semantic" | .unsupported => "unsupported" | .missingKey => "missing"
  | .integrity => "integrity" | .protocol => "protocol" | .rejected => "rejected"
  | .endOfInput => "eof" | .truncatedInput => "unexpected_eof" | .other => "error"

def Error.fields (e : Error) : List (String × Doc) := [("error", .str e.cause.name), ("message", .str e.message)]

def Error.toDoc (e : Error) : Doc := .obj e.fields

def Fault.toDoc (f : Fault) : Doc := .obj [("error", .str "panic"), ("message", .str f.message)]

def Doc.float (x : Float) : Doc := .str x.text

def Doc.bytes (bs : List UInt8) : Doc :=
  match Text.ofBytes? bs with
  | some t => .str t
  | none => .obj [("hex", .str (Text.hexOf bs))]

def Doc.strs (xs : List String) : Doc := .arr (xs.map .str)

def Doc.ofExcept {α : Type} (x : Except Error α) (f : α → Doc) : Doc :=
  match x with
  | .ok a => f a
  | .error e => e.toDoc

def Doc.okOr (x : Except Error Unit) : Doc :=
  match x with
  | .ok () => .str "ok"
  | .error e => e.toDoc

end BitSynth
