import BitSynth.Expr.Walk
import BitSynth.Text.Quoted

namespace BitSynth

/-- The signal that drives a leaf. -/
structure Leaf where
  name : String
  width : Int
  deriving Repr, BEq, Inhabited

/-- Leaf bindings by node id; binding an id again replaces its leaf. -/
structure LeafMap where
  entries : List (NodeId × Leaf) := []
  deriving Repr, Inhabited

namespace LeafMap

def find? (m : LeafMap) (id : NodeId) : Option Leaf := (m.entries.find? (·.1 == id)).map (·.2)

def insert (m : LeafMap) (id : NodeId) (leaf : Leaf) : LeafMap :=
  if m.entries.any (·.1 == id) then
    ⟨m.entries.map fun e => if e.1 == id then (id, leaf) else e⟩
  else ⟨m.entries ++ [(id, leaf)]⟩

def sorted (m : LeafMap) : List (NodeId × Leaf) := m.entries.mergeSort fun a b => a.1 ≤ b.1

end LeafMap

/-- Declared signal widths by name; declaring a name again replaces its width in place. -/
structure WidthTable where
  entries : List (String × Int) := []
  deriving Repr, Inhabited

namespace WidthTable

def find? (t : WidthTable) (name : String) : Option Int := (t.entries.find? (·.1 == name)).map (·.2)

def insert (t : WidthTable) (name : String) (w : Int) : WidthTable :=
  if t.entries.any (·.1 == name) then
    ⟨t.entries.map fun e => if e.1 == name then (name, w) else e⟩
  else ⟨t.entries ++ [(name, w)]⟩

def sorted (t : WidthTable) : List (String × Int) :=
  t.entries.mergeSort fun a b => decide (a.1 ≤ b.1)

end WidthTable

namespace Arena

/-- Binds every signal and bit-field below `root` to its source signal and declared width; a name
without a declared width is a semantic error. -/
def bindSignals (a : Arena) (root : NodeId) (widths : WidthTable) : Guarded LeafMap := do
  let ids ← Guarded.ofChecked (a.signals root)
  ids.foldlM (fun m id => do
    let n ← Guarded.ofChecked (a.get id)
    match widths.find? n.name with
    | some w => pure (m.insert id ⟨n.name, w⟩)
    | none => throw (.semantic ("no width for signal " ++ Text.quote n.name))) ({} : LeafMap)

/-- The width of each distinct source signal below `root`, in first-occurrence order; an unbound
signal is a semantic error. -/
def signalWidths (a : Arena) (root : NodeId) (leaves : LeafMap) : Guarded (Array Int) := do
  let ids ← Guarded.ofChecked (a.signals root)
  let (_, out) ← ids.foldlM (fun (acc : Array String × Array Int) id => do
    match leaves.find? id with
    | none => throw (.semantic s!"node n{id} has no leaf mapping")
    | some leaf =>
      if acc.1.contains leaf.name then pure acc
      else pure (acc.1.push leaf.name, acc.2.push leaf.width)) (#[], #[])
  pure out

end Arena

end BitSynth
