import BitSynth.Failure
import BitSynth.Text.Bytes
import BitSynth.Text.Quoted

namespace BitSynth.Abc

/-- A request opcode; codes past the known ones have no wire form of their own. -/
inductive Op where
  | unknown
  | newSession
  | command
  | endSession
  | bye
  | other (code : Int)
  deriving Repr, BEq, DecidableEq, Inhabited

/-- The opcode with a number: 0 unknown, then new, cmd, end and bye. -/
def Op.ofCode (code : Int) : Op :=
  match code with
  | 0 => .unknown | 1 => .newSession | 2 => .command | 3 => .endSession | 4 => .bye
  | c => .other c

/-- The wire text of an opcode; opcodes without one show as `$???$`. -/
def Op.text : Op → String
  | .newSession => "$new$" | .command => "$cmd$" | .endSession => "$end$" | .bye => "$bye$"
  | _ => "$???$"

def Op.hasArg : Op → Bool
  | .newSession | .command => true
  | _ => false

def Op.ofWire (raw : List UInt8) : Op :=
  match Text.ofBytes? raw with
  | some "$new$" => .newSession
  | some "$cmd$" => .command
  | some "$end$" => .endSession
  | some "$bye$" => .bye
  | _ => .unknown

/-- One request: its opcode, its argument and the opcode bytes as received. -/
structure Frame where
  op : Op
  arg : List UInt8 := []
  raw : List UInt8 := []
  deriving Inhabited

def terminator : UInt8 := 36

def opcodeLength : Nat := 5

def endOfInput : Error := ⟨.endOfInput, "EOF"⟩

def truncatedInput : Error := ⟨.truncatedInput, "unexpected EOF"⟩

def protocolFailure (message : String) : Error := ⟨.protocol, message ++ ": abc: protocol failure"⟩

def rejected (message : String) : Error := ⟨.rejected, message ++ ": abc: request rejected"⟩

/-- The wire form of a request: an error for the unknown opcode and for an argument holding the
terminator. Opcodes without an argument ignore the one given. -/
def Frame.encode (op : Op) (arg : List UInt8) : Except Error (List UInt8) :=
  if op == .unknown then .error (.plain "abc: cannot encode unknown opcode")
  else if arg.contains terminator then
    .error (.plain ("abc: argument " ++ Text.quoteBytes arg ++ " contains '$'"))
  else if op.hasArg then .ok (Text.bytesOf op.text ++ arg ++ [terminator])
  else .ok (Text.bytesOf op.text)

def untilTerminator : List UInt8 → Option (List UInt8 × List UInt8)
  | [] => none
  | b :: rest =>
    if b == terminator then some ([], rest)
    else (untilTerminator rest).map fun (a, r) => (b :: a, r)

/-- Reads one frame off the front of a stream: the frame and the rest of the stream. -/
def nextFrame (input : List UInt8) : Except Error (Frame × List UInt8) :=
  if input.isEmpty then .error endOfInput
  else if input.length < opcodeLength then .error truncatedInput
  else
    let raw := input.take opcodeLength
    let rest := input.drop opcodeLength
    let op := Op.ofWire raw
    if !op.hasArg then .ok ({ op, raw }, rest)
    else
      match untilTerminator rest with
      | some (arg, after) => .ok ({ op, arg, raw }, after)
      | none => .error truncatedInput

/-- Reads frames until the stream fails, at most `limit` of them: the frames and the failure. -/
def readFrames : Nat → List UInt8 → List Frame × Option Error
  | 0, _ => ([], none)
  | limit + 1, input =>
    match nextFrame input with
    | .error e => ([], some e)
    | .ok (f, rest) =>
      let (fs, e) := readFrames limit rest
      (f :: fs, e)

def replyOk : String := "$ok_$"

def replyErr : String := "$err$"

def replyText (ok : Bool) : String := if ok then replyOk else replyErr

/-- Reads one reply: whether it reports success, and the rest of the stream. -/
def readReply (input : List UInt8) : Except Error (Bool × List UInt8) :=
  if input.isEmpty then .error (protocolFailure "EOF")
  else if input.length < opcodeLength then .error (protocolFailure "unexpected EOF")
  else
    let head := input.take opcodeLength
    let rest := input.drop opcodeLength
    match Text.ofBytes? head with
    | some "$ok_$" => .ok (true, rest)
    | some "$err$" => .ok (false, rest)
    | _ => .error (protocolFailure ("unexpected reply " ++ Text.quoteBytes head))

def readReplies : Nat → List UInt8 → List Bool × Option Error
  | 0, _ => ([], none)
  | limit + 1, input =>
    match readReply input with
    | .error e => ([], some e)
    | .ok (b, rest) =>
      let (bs, e) := readReplies limit rest
      (b :: bs, e)

end BitSynth.Abc
