import BitSynth.Expr.Binding
import BitSynth.Diagnostic

namespace BitSynth

def literalWidth : Int := 64

def maxShiftAmountWidth : Int := 30

/-- The high index of a slice clamped to its source, or the reason it selects nothing. -/
def clampSlice (hi lo source : Int) : Except Error Int :=
  if source ≤ 0 then .error (.semantic s!"source width {source}")
  else
    let hi := if hi ≥ source then source - 1 else hi
    if lo < 0 || lo > hi then .error (.semantic s!"empty slice [{hi}:{lo}] of {source}-bit signal")
    else .ok hi

/-- The width of a leaf node given its binding, and for a bit-field the clamped high index. -/
def leafWidth (n : Node) (leaf : Option Leaf) : Except Error (Int × Int) :=
  let positive (leaf : Leaf) (what : String) : Except Error (Int × Int) :=
    if leaf.width ≤ 0 then .error (.semantic (what ++ " has width " ++ toString leaf.width))
    else .ok (leaf.width, 0)
  match n.kind with
  | .var =>
    match leaf with
    | none => .error (.semantic ("variable " ++ Text.quote n.name ++ " has no leaf mapping"))
    | some l => positive l ("variable " ++ Text.quote l.name)
  | .bitField =>
    match leaf with
    | none => .error (.semantic ("bit-field of " ++ Text.quote n.name ++ " has no leaf mapping"))
    | some l =>
      match clampSlice n.hi n.lo l.width with
      | .ok hi => .ok (wrapWord (hi - n.lo + 1), hi)
      | .error e => .error (e.wrap ("bit-field of " ++ Text.quote n.name))
  | .int =>
    match leaf with
    | some l => positive l ("constant mapped to " ++ Text.quote l.name)
    | none => .ok (literalWidth, 0)
  | .true | .false =>
    match leaf with
    | some l => positive l ("constant mapped to " ++ Text.quote l.name)
    | none => .ok (1, 0)
  | k => .error (.unsupported (k.name ++ " is not a leaf"))

def argWidth (args : Array Int) (i : Nat) : Guarded Int :=
  match args[i]? with
  | some w => pure w
  | none => Guarded.fault (.outOfRange i args.size)

/-- The result width of an operator node given its operands' widths. -/
def operatorWidth (n : Node) (args : Array Int) : Guarded Int := do
  let k := n.kind
  if k.isUnary then argWidth args 0
  else if k.isCompare then pure 1
  else match k with
    | .and | .or | .xor => do
      let l ← argWidth args 0
      let r ← argWidth args 1
      pure (max l r)
    | .add | .sub => do
      let l ← argWidth args 0
      let r ← argWidth args 1
      pure (wrapWord (max l r + 1))
    | .mul => do
      let l ← argWidth args 0
      let r ← argWidth args 1
      pure (wrapWord (l + r))
    | .div => argWidth args 0
    | .mod => argWidth args 1
    | .shl => do
      let r ← argWidth args 1
      if r > maxShiftAmountWidth then
        throw (.semantic s!"left shift by a {r}-bit amount is too wide (size a literal amount with int(n, w))")
      else if r < 0 then Guarded.fault (.broken "runtime error: negative shift amount")
      else
        let l ← argWidth args 0
        pure (wrapWord (l + Int.pow 2 r.toNat - 1))
    | .shr | .asr => argWidth args 0
    | .query => do
      let c ← argWidth args 0
      if c != 1 then throw (.semantic s!"select condition has width {c}, want 1")
      else
        let t ← argWidth args 1
        let f ← argWidth args 2
        pure (max t f)
    | .concat => pure (wrapWord (args.foldl (· + ·) 0))
    | .toBool => pure 1
    | .toInt =>
      if n.width > 0 then pure n.width
      else do
        let x ← argWidth args 0
        if x != 1 then throw (.semantic s!"int() of a {x}-bit value needs an explicit width")
        else pure 1
    | _ => throw (.unsupported ("node kind " ++ k.name))

/-- Inference state: the widths found so far and the reporter, if any. -/
structure WidthState where
  widths : Array (Option Int)
  reporter : Option Reporter

namespace Arena

/-- The width of the node `id` and of everything below it, within `fuel` levels. A failing node is
reported and its error wrapped as `node nN: …`; errors from below pass through unchanged. -/
def widthWithin (a : Arena) (leaves : LeafMap) : Nat → NodeId → Stateful WidthState Int
  | 0, _ => throw (.plain "expression nested too deeply")
  | fuel + 1, id => do
    let s : WidthState ← MonadState.get
    match (if 0 ≤ id then s.widths[id.toNat]? else none).join with
    | some w => pure w
    | none =>
      let n ← (Guarded.ofChecked (a.get id)).lift
      let own : Guarded Int ←
        if n.kind.isLeaf then
          pure (match leafWidth n (leaves.find? id) with
            | .ok (w, _) => pure w
            | .error e => throw e)
        else do
          let args ← n.args.mapM (a.widthWithin leaves fuel)
          pure (operatorWidth n args)
      let w ← tryCatch own.lift fun e => do
        modify fun s => { s with reporter := s.reporter.map (·.error id e.message) }
        throw (e.wrap s!"node n{id}")
      modify fun s => { s with widths := s.widths.setIfInBounds id.toNat (some w) }
      pure w

def inferWidths (a : Arena) (root : NodeId) (leaves : LeafMap) (reporter : Option Reporter) :
    Except Fault (Option Reporter × Except Error (List (NodeId × Int))) :=
  if !a.valid root then .ok (reporter, .error (.plain "width inference requires a valid expression"))
  else do
    let (r, s) ← (a.widthWithin leaves (a.size + 1) root).run'
      { widths := Array.replicate a.size none, reporter }
    match r with
    | .error e => pure (s.reporter, .error e)
    | .ok _ =>
      let found := (List.range a.size).filterMap fun (i : Nat) =>
        (s.widths[i]?.join).map fun w => ((i : Int), w)
      pure (s.reporter, .ok found)

end Arena

end BitSynth
