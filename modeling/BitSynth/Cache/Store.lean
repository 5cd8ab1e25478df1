import BitSynth.Cache.Index
import BitSynth.Cache.Key
import BitSynth.Pipeline.Synthesizer

namespace BitSynth

namespace Cache

/-- The directory of the cache of a backend: `<root>/<technology>/<backend>`, with the root from
the local setting or else the global one, and the technology from `ACT_TECH`. -/
def directory (cfg : Config.Store) (backendName : String) : Act String := do
  let root ← match cfg.path Config.Key.cacheLocal, cfg.path Config.Key.cacheGlobal with
    | some r, _ => pure r
    | none, some r => pure r
    | none, none =>
      throw (Config.missingKey ("cache: neither " ++ Config.Key.cacheLocal ++ " nor " ++
        Config.Key.cacheGlobal ++ " is set"))
  let tech ← getEnv "ACT_TECH"
  if tech.isEmpty then throw (Config.missingKey "cache: ACT_TECH is not set")
  pure (Path.join [root, tech, backendName])

def lockFile (path : String) : Act Unit := do
  match ← Act.tryDisk fun d => (d.touch path).map ((), ·) with
  | .ok () => pure ()
  | .error e => throw (e.toError.wrap ("cache: open " ++ path))

def checkArtifacts (e : Entry) : Act Unit := do
  for path in [e.result.mappedFile, e.result.preMapFile] do
    match ← Act.tryDisk fun d => (d.stat "stat" path).map fun _ => ((), d) with
    | .ok () => pure ()
    | .error err => throw (integrity ("slot " ++ toString e.slot ++ " of " ++ e.id ++ ": " ++ err.message))

def appendLine (index : String) (e : Entry) : Act Unit := do
  match ← Act.tryDisk fun d => (d.append index (e.format ++ "\n") false).map ((), ·) with
  | .ok () => pure ()
  | .error err => throw (err.toError.wrap "cache: append index")

def copyInto (dst src : String) : Act Unit := do
  let text ← match ← Act.tryDisk fun d => (d.read src).map (·, d) with
    | .ok t => pure t
    | .error err => throw (err.toError.wrap "cache: open netlist")
  writeFile dst text

/-- Copies both work netlists of a result into the slot files of another. -/
def storeArtifacts (src dst : Metrics.Result) : Act Unit := do
  lockFile dst.mappedFile
  lockFile dst.preMapFile
  copyInto dst.mappedFile src.mappedFile
  copyInto dst.preMapFile src.preMapFile

/-- Renames the signals of a block to `in_<k>`, `k` the position of the signal's name among the
distinct names in first-occurrence order, so that every block with the same key yields the same
module. Bindings of constants are dropped: the key records literal values. -/
def canonicalRequest (name : String) (x : Block) : Guarded Pipeline.Request := do
  let names ← Guarded.ofChecked (x.arena.signalNames x.root)
  let ids ← Guarded.ofChecked (x.arena.signals x.root)
  let mut leaves : LeafMap := {}
  for id in ids do
    match x.leaves.find? id with
    | none => throw (.semantic ("node n" ++ toString id ++ " has no leaf mapping"))
    | some leaf =>
      let n ← Guarded.ofChecked (x.arena.get id)
      let k := (names.toList.findIdx? (· == n.name)).getD 0
      leaves := leaves.insert id ⟨"in_" ++ toString k, leaf.width⟩
  Pipeline.Request.single name x.arena x.root leaves x.width

end Cache

/-- An open cache: its directory and index, the synthesizer for misses, whether blocks are
translated when first requested, the snapshot of the index by key and by slot, the next slot to
probe, the entries this handle added, the keys it translated, and whether it is closed. -/
structure Cache where
  dir : String
  index : String
  synth : Option (Pipeline.Synthesizer Backend) := none
  emit : Bool := false
  ids : List (String × Int) := []
  slots : List (Int × Cache.Entry) := []
  counter : Int := 0
  authored : List Cache.Entry := []
  emitted : List String := []
  closed : Bool := false
  deriving Inhabited

namespace Cache

def resolve (c : Cache) (e : Entry) : Entry :=
  { e with result := { e.result with mappedFile := Path.join [c.dir, mappedName e.slot],
                                     preMapFile := Path.join [c.dir, preMapName e.slot], id := e.id } }

/-- Takes the entries of an index into a snapshot of keys and slots, in order: a key or a slot
seen before is refused, and so is an entry whose netlists are missing. -/
def snapshot (c : Cache) :
    List Entry → List (String × Int) → List (Int × Entry) → Act (List (String × Int) × List (Int × Entry))
  | [], ids, slots => pure (ids, slots)
  | e :: rest, ids, slots => do
    if ids.any (·.1 == e.id) then
      throw (integrity ("duplicate expression " ++ e.id ++ " in " ++ c.index))
    if slots.any (·.1 == e.slot) then
      throw (integrity ("duplicate slot " ++ toString e.slot ++ " in " ++ c.index))
    let e := c.resolve e
    checkArtifacts e
    snapshot c rest (ids ++ [(e.id, e.slot)]) (slots ++ [(e.slot, e)])

/-- Replaces the snapshot with the index on disk, checking that keys and slots are unique and
that every slot has its netlists. A failure keeps the old snapshot. -/
def reload : On Cache Unit := do
  let c ← On.self
  let text ← On.world (readFile c.index)
  let entries ← match readIndex text with
    | .ok es => pure es
    | .error e => throw (e.wrap ("cache: " ++ c.index))
  let (ids, slots) ← On.world (snapshot c entries [] [])
  On.update fun c => { c with ids, slots, counter := entries.length }

def lookup (c : Cache) (id : String) : Option Entry := do
  let slot ← (c.ids.find? (·.1 == id)).map (·.2)
  (c.slots.find? (·.1 == slot)).map (·.2)

def entries (c : Cache) : List Entry :=
  (c.slots.mergeSort fun a b => decide (a.1 ≤ b.1)).map (·.2)

def invalidate (c : Cache) : Act Unit := do
  let artifacts ← match ← Act.attempt (globPaths (Path.join [c.dir, "*.v"])) with
    | .ok ps => pure ps
    | .error e => throw (e.wrap "cache: invalidate")
  for path in artifacts ++ [c.index] do
    match ← Act.tryDisk fun d => (d.remove path).map ((), ·) with
    | .ok () => pure ()
    | .error e => if e.fault != .notFound then throw (e.toError.wrap "cache: invalidate")
  logInfo ("cache: invalidated " ++ c.dir)

def createIndex (c : Cache) : Act Unit := do
  if (← Act.read (·.disk.present c.index)) then return
  lockFile c.index
  if (← readFile c.index).isEmpty then
    match ← Act.tryDisk fun d => (d.append c.index indexHeader false).map ((), ·) with
    | .ok () => pure ()
    | .error e => throw (e.toError.wrap "cache: write index header")

/-- Opens or creates the cache in a directory and reads its index. Without a synthesizer the
cache only answers what it holds. -/
def «open» (dir : String) (synth : Option (Pipeline.Synthesizer Backend)) (invalidating emit : Bool) : Act Cache := do
  let c : Cache := { dir, index := Path.join [dir, indexFile], synth, emit }
  if invalidating then c.invalidate
  match ← Act.tryDisk fun d => (d.mkdirAll dir).map ((), ·) with
  | .ok () => pure ()
  | .error e => throw (e.toError.wrap "cache: create directory")
  c.createIndex
  lockFile c.index
  let (r, c) ← On.within reload c
  match r with
  | .ok () => pure c
  | .error e => throw e

def verify : On Cache Unit := do
  On.world (lockFile (← On.self).index)
  reload

/-- The first free slot from the counter on: neither netlist file may exist. -/
def nextSlot : On Cache Int := do
  let c ← On.self
  let d := (← On.world (Act.read (·.disk)))
  let free (slot : Int) : Bool :=
    !d.present (Path.join [c.dir, mappedName slot]) && !d.present (Path.join [c.dir, preMapName slot])
  let rec probe : Nat → Int → Int
    | 0, slot => slot
    | fuel + 1, slot => if free slot then slot else probe fuel (slot + 1)
  let slot := probe (d.nodes.length + 1) c.counter
  On.update fun c => { c with counter := slot + 1 }
  pure slot

def onSynth {α : Type} (s : Pipeline.Synthesizer Backend) (x : On (Pipeline.Synthesizer Backend) α) : On Cache α :=
  On.focus (fun c => c.synth.getD s) (fun c s => { c with synth := some s }) x

/-- Synthesizes a block missing from the cache and records it under the index lock; a block
another handle added meanwhile is taken from the index instead. -/
def synthesize (id : String) (x : Block) : On Cache Entry := do
  let c ← On.self
  let s ← match c.synth with
    | some s => pure s
    | none => throw (.plain ("cache: " ++ id ++ " is not cached and no synthesizer is configured"))
  On.world (lockFile c.index)
  reload
  if let some e := (← On.self).lookup id then
    On.world (logDebug ("cache: " ++ id ++ " was added by another process"))
    return e
  let req ← Guarded.lift (canonicalRequest (moduleName id) x)
  On.world (logInfo ("cache: synthesizing " ++ id))
  let out ← onSynth s (Pipeline.Synthesizer.synthesize req)
  let slot ← nextSlot
  let c ← On.self
  let e := c.resolve { id, slot, result := out.result }
  let stored ← On.world (Act.attempt (do storeArtifacts out.result e.result; appendLine c.index e))
  let _ ← On.world out.cleanup
  match stored with
  | .error err => throw err
  | .ok () =>
    On.update fun c => { c with ids := c.ids ++ [(id, slot)], slots := c.slots ++ [(slot, e)],
                                authored := c.authored.filter (·.id != id) ++ [e] }
    pure e

def emitEntry (e : Entry) : On Cache Unit := do
  match (← On.self).synth with
  | none => throw (.plain "cache: no synthesizer to emit with")
  | some s =>
    On.world (lockFile e.result.mappedFile)
    On.world (s.emit e.result.mappedFile)

/-- The cached entry of a block, synthesizing and recording it on a miss; with translation on,
the block is translated the first time this handle is asked for it. -/
def get (x : Block) : On Cache Entry := do
  let id ← Guarded.lift x.key
  let c ← On.self
  if c.closed then throw (.plain "cache: closed")
  let e ← match c.lookup id with
    | some e =>
      On.world (checkArtifacts e)
      On.world (logDebug ("cache: hit " ++ id ++ " in slot " ++ toString e.slot))
      pure e
    | none => synthesize id x
  if (← On.self).emit && !(← On.self).emitted.contains id then
    emitEntry e
    On.update fun c => { c with emitted := c.emitted ++ [id] }
  pure e

/-- Restores an entry this handle added, on a close: nothing to do when the index has its key; a
warning when its slot is taken or a netlist is gone; otherwise its line is appended to the index
and its key and slot to the snapshot. -/
def restoreEntry (e : Entry) : On Cache Unit := do
  let now ← On.self
  if now.ids.any (·.1 == e.id) then return
  if now.slots.any (·.1 == e.slot) then
    On.world (logWarn ("cache: slot " ++ toString e.slot ++ " of " ++ e.id ++ " was reused, dropping the entry"))
    return
  match ← On.world (Act.attempt (checkArtifacts e)) with
  | .error err => On.world (logWarn ("cache: not restoring " ++ e.id ++ ": " ++ err.message))
  | .ok () =>
    On.world (appendLine now.index e)
    On.update fun c => { c with ids := c.ids ++ [(e.id, e.slot)], slots := c.slots ++ [(e.slot, e)] }
    On.world (logDebug ("cache: restored " ++ e.id ++ " in slot " ++ toString e.slot))

/-- Closes the cache, appending the entries this handle added that the index lost meanwhile,
unless their slot was reused or their netlists are gone. -/
def close : On Cache Unit := do
  let c ← On.self
  if c.closed then return
  On.update fun c => { c with closed := true }
  if c.authored.isEmpty then return
  On.world (lockFile c.index)
  reload
  let sorted := c.authored.mergeSort fun a b => decide (a.id ≤ b.id)
  for e in sorted do
    restoreEntry e

end Cache

end BitSynth
