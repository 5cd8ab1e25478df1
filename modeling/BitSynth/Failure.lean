namespace BitSynth

/-- The class of an error that callers branch on. -/
inductive Cause where
  /-- Inconsistent widths, missing leaf mappings and other faults in the caller's data. -/
  | semantic
  /-- A construct that cannot be lowered. -/
  | unsupported
  /-- A configuration key that is not set. -/
  | missingKey
  /-- A cache index that contradicts itself or its files. -/
  | integrity
  /-- A broken conversation with the mapping engine. -/
  | protocol
  /-- A request that the mapping engine answered with a refusal. -/
  | rejected
  /-- The input ended between two frames. -/
  | endOfInput
  /-- The input ended inside a frame. -/
  | truncatedInput
  /-- Any other failure. -/
  | other
  deriving Repr, BEq, DecidableEq, Inhabited

/-- An error: its cause and its full message. -/
structure Error where
  cause : Cause
  message : String
  deriving Repr, BEq, Inhabited

namespace Error

def plain (message : String) : Error := ⟨.other, message⟩

def semantic (message : String) : Error := ⟨.semantic, message ++ ": semantic error"⟩

/-- An unsupported construct; the message ends in `: unsupported construct`. -/
def unsupported (message : String) : Error := ⟨.unsupported, message ++ ": unsupported construct"⟩

def wrap (context : String) (e : Error) : Error := { e with message := context ++ ": " ++ e.message }

end Error

/-- A defect in the data handed over, which ends the computation. -/
inductive Fault where
  /-- A position outside a sequence of the given length. -/
  | outOfRange (index : Int) (length : Nat)
  /-- A broken precondition of a builder, in words. -/
  | broken (text : String)
  deriving Repr, BEq, Inhabited

/-- The text of a defect, such as `runtime error: index out of range [7] with length 2`. -/
def Fault.message : Fault → String
  | .outOfRange i n =>
    if i < 0 then s!"runtime error: index out of range [{i}]"
    else s!"runtime error: index out of range [{i}] with length {n}"
  | .broken text => text

/-- Computations that may end in an error or in a defect. -/
abbrev Guarded := ExceptT Error (Except Fault)

def Guarded.fault {α : Type} (f : Fault) : Guarded α := ExceptT.lift (Except.error f)

def Guarded.ofChecked {α : Type} (x : Except Fault α) : Guarded α := ExceptT.lift x

/-- Runs a guarded computation, wrapping an error's message in `context`. -/
def Guarded.wrap {α : Type} (context : String) (x : Guarded α) : Guarded α :=
  ExceptT.mk do
    match ← x.run with
    | .ok a => pure (.ok a)
    | .error e => pure (.error (e.wrap context))

/-- Guarded computations over a state that survives errors (but not defects). -/
abbrev Stateful (σ : Type) := ExceptT Error (StateT σ (Except Fault))

def Guarded.lift {σ α : Type} (x : Guarded α) : Stateful σ α := ExceptT.mk (StateT.lift x.run)

def Stateful.fault {σ α : Type} (f : Fault) : Stateful σ α := ExceptT.lift (StateT.lift (Except.error f))

/-- Runs a stateful computation from a state: a defect, or the final state with the result. -/
def Stateful.run' {σ α : Type} (x : Stateful σ α) (s : σ) : Except Fault (Except Error α × σ) :=
  (ExceptT.run x).run s

/-- The two's-complement value of an integer as a 64-bit machine word. -/
def wrapWord (x : Int) : Int := (x + Int.pow 2 63) % Int.pow 2 64 - Int.pow 2 63

end BitSynth
