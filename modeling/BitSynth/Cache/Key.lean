import BitSynth.Expr.Binding
import BitSynth.Expr.Printer
import BitSynth.Hash.Xxh64
import BitSynth.Text.Quoted

namespace BitSynth

/-- An expression block to look up: the expression below `root`, its bindings and the width of its
single output. -/
structure Block where
  arena : Arena
  root : NodeId
  leaves : LeafMap
  width : Int
  deriving Inhabited

def Block.key (x : Block) : Guarded String := do
  let widths ← x.arena.signalWidths x.root x.leaves
  let text ← Guarded.ofChecked (x.arena.canonical x.root)
  pure (text ++ String.join (widths.toList.map fun w => "_" ++ toString w) ++ "_" ++ toString x.width)

def moduleName (key : String) : String :=
  "blk_" ++ Text.hexDigits 16 (Hash.xxh64 key.toUTF8).toNat

end BitSynth
