import BitSynth.Expr.Arena

namespace BitSynth

namespace Arena

def mark (seen : Array Bool) (id : NodeId) : Array Bool :=
  if 0 ≤ id then seen.setIfInBounds id.toNat true else seen

def marked (seen : Array Bool) (id : NodeId) : Bool :=
  0 ≤ id && seen.getD id.toNat false

def leavesWithin (a : Arena) : Nat → NodeId → Array Bool × Array NodeId →
    Except Fault (Array Bool × Array NodeId)
  | 0, _, st => .ok st
  | fuel + 1, id, (seen, out) =>
    if marked seen id then .ok (seen, out)
    else do
      let n ← a.get id
      let seen := mark seen id
      if n.kind.isLeaf then pure (seen, out.push id)
      else n.args.foldlM (fun st arg => a.leavesWithin fuel arg st) (seen, out)

/-- The leaves reachable from `root` in left-to-right order, each once. -/
def leaves (a : Arena) (root : NodeId) : Except Fault (Array NodeId) := do
  let (_, out) ← a.leavesWithin (a.size + 1) root (Array.replicate a.size false, #[])
  pure out

/-- The signal and bit-field leaves reachable from `root`, in first-occurrence order. -/
def signals (a : Arena) (root : NodeId) : Except Fault (Array NodeId) := do
  let ls ← a.leaves root
  ls.filterM fun id => do
    let n ← a.get id
    pure (n.kind == .var || n.kind == .bitField)

def distinctNames (names : Array String) : Array String :=
  names.foldl (fun acc s => if acc.contains s then acc else acc.push s) #[]

/-- The distinct source names of the signals and bit-fields below `root`, in first-occurrence
order. -/
def signalNames (a : Arena) (root : NodeId) : Except Fault (Array String) := do
  let ids ← a.signals root
  let names ← ids.mapM fun id => do pure (← a.get id).name
  pure (distinctNames names)

end Arena

end BitSynth
