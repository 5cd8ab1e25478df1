import BitSynth.Expr.Binding
import BitSynth.Diagnostic

namespace BitSynth

/-- The operand count a kind takes: `none` for kinds that take any non-empty list (concatenation)
or that cannot be lowered. -/
def Kind.operands (k : Kind) : Option Nat :=
  if k.isLeaf then some 0
  else if k.isUnary || k == .toBool || k == .toInt then some 1
  else if k.isBinary then some 2
  else if k == .query then some 3
  else none

/-- Validation state: the ids visited, the reporter and the number of errors. -/
structure CheckState where
  seenValid : Array Bool
  seenOther : List NodeId := []
  reporter : Reporter
  errors : Nat := 0

namespace CheckState

def fail (s : CheckState) (id : NodeId) (msg : String) : CheckState :=
  { s with errors := s.errors + 1, reporter := s.reporter.error id msg }

def seen (s : CheckState) (id : NodeId) : Bool :=
  if 0 ≤ id && id < s.seenValid.size then s.seenValid.getD id.toNat false
  else s.seenOther.contains id

def mark (s : CheckState) (id : NodeId) : CheckState :=
  if 0 ≤ id && id < s.seenValid.size then { s with seenValid := s.seenValid.set! id.toNat true }
  else { s with seenOther := id :: s.seenOther }

end CheckState

namespace Arena

def checkArity (s : CheckState) (id : NodeId) (n : Node) : CheckState :=
  if n.kind == .concat then
    if n.args.isEmpty then s.fail id "empty concatenation" else s
  else match n.kind.operands with
    | none => s.fail id ("unsupported construct " ++ n.kind.name)
    | some want =>
      if n.args.size != want then
        s.fail id s!"{n.kind.name} takes {want} operand(s), has {n.args.size}"
      else s

def checkSignal (leaves : LeafMap) (s : CheckState) (id : NodeId) (n : Node) : CheckState :=
  match leaves.find? id with
  | none => s.fail id ("signal " ++ Text.quote n.name ++ " has no leaf mapping")
  | some leaf =>
    if leaf.width ≤ 0 then s.fail id ("signal " ++ Text.quote leaf.name ++ " has width " ++ toString leaf.width)
    else if n.kind == .bitField then
      let field := s!"bit-field {n.name}[{n.hi}:{n.lo}]"
      if n.lo < 0 || n.lo > n.hi then s.fail id (field ++ " is empty")
      else if n.lo ≥ leaf.width then s.fail id (field ++ s!" starts past the {leaf.width}-bit source")
      else if n.hi ≥ leaf.width then
        { s with reporter := s.reporter.warning id (field ++ s!" clamped to the {leaf.width}-bit source") }
      else s
    else s

/-- Checks a node's binding, or its target width, as its kind asks. -/
def checkBinding (leaves : LeafMap) (s : CheckState) (id : NodeId) (n : Node) : CheckState :=
  match n.kind with
  | .var | .bitField => checkSignal leaves s id n
  | .int | .true | .false =>
    match leaves.find? id with
    | some leaf =>
      if leaf.width ≤ 0 then
        s.fail id ("constant mapped to " ++ Text.quote leaf.name ++ " has width " ++ toString leaf.width)
      else s
    | none => s
  | .toInt => if n.width < 0 then s.fail id s!"int() target width {n.width} is negative" else s
  | _ => s

/-- Checks one node on its own: its operand count, then its binding or its target width. -/
def checkNode (leaves : LeafMap) (s : CheckState) (id : NodeId) (n : Node) : CheckState :=
  checkBinding leaves (checkArity s id n) id n

/-- Visits the nodes below `id` not yet visited, within `fuel` levels. -/
def checkWithin (a : Arena) (leaves : LeafMap) : Nat → NodeId → CheckState → CheckState
  | 0, _, s => s
  | fuel + 1, id, s =>
    if s.seen id then s
    else
      let s := s.mark id
      match a.node? id with
      | none => s.fail id "reference to missing node"
      | some n => n.args.foldl (fun s arg => a.checkWithin leaves fuel arg s) (checkNode leaves s id n)

/-- Validates the expression below `root`, reporting every problem; fails with
`validation failed with N issue(s)` when any was found. Without a reporter it fails at once. -/
def check (a : Arena) (root : NodeId) (leaves : LeafMap) (reporter : Option Reporter) :
    Option Reporter × Except Error Unit :=
  if !a.valid root then (reporter, .error (.plain "no expression provided for validation"))
  else match reporter with
    | none => (none, .error (.plain "no reporter provided for validation"))
    | some r =>
      let s := a.checkWithin leaves (a.size + 1) root
        { seenValid := Array.replicate a.size false, reporter := r }
      if s.errors > 0 then
        (some s.reporter, .error (.plain s!"validation failed with {s.errors} issue(s)"))
      else (some s.reporter, .ok ())

end Arena

end BitSynth
