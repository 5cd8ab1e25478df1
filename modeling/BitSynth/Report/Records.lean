import BitSynth.Report.Doc
import BitSynth.Metrics.Result
import BitSynth.Cache.Index
import BitSynth.Abc.Session
import BitSynth.Abc.Ports
import BitSynth.Diagnostic
import BitSynth.Expr.Binding
import BitSynth.Host.Disk

namespace BitSynth

def Metrics.Triplet.toDoc (t : Metrics.Triplet) : Doc := .arr [.float t.min, .float t.typ, .float t.max]

def Metrics.Result.toDoc (r : Metrics.Result) (masked : Bool) : Doc :=
  let rt (n : Int) : Doc := if masked then .str "RT" else .int n
  .obj [("delay", r.delay.toDoc), ("static", r.staticPower.toDoc), ("dynamic", r.dynamicPower.toDoc),
    ("total", r.totalPower.toDoc), ("area", .float r.area), ("mapper_runtime", rt r.mapperRuntime),
    ("io_runtime", rt r.ioRuntime), ("mapped_file", .str r.mappedFile), ("premap_file", .str r.preMapFile),
    ("id", .str r.id), ("exists", .bool r.exists)]

def Cache.Entry.toDoc (e : Cache.Entry) (masked : Bool) : Doc :=
  .obj [("id", .str e.id), ("slot", .int e.slot), ("result", e.result.toDoc masked)]

def Abc.Session.toDoc (s : Abc.Session) : Doc :=
  .obj [("name", .str s.name), ("input", .str s.input), ("output", .str s.output), ("log", .str s.log),
    ("constraints", .str s.constraints)]

def Abc.PortGroup.toDoc (p : Abc.PortGroup) : Doc :=
  .obj [("name", .str p.name), ("bits", .int p.bits), ("indexed", .bool p.indexed)]

def Diagnostic.toDoc (d : Diagnostic) : Doc :=
  .obj [("severity", .str d.severity.name), ("node", .int d.node), ("message", .str d.message)]

def Reporter.fields (r : Reporter) : List (String × Doc) :=
  [("diags", .arr (r.diagnostics.toList.map Diagnostic.toDoc)), ("diag_text", .str r.echo)]

def LeafMap.toDoc (m : LeafMap) : Doc :=
  .arr (m.sorted.map fun (id, l) => .obj [("node", .int id), ("name", .str l.name), ("width", .int l.width)])

def maskIndexText (text : String) : String :=
  let mask (line : String) : String :=
    let fs := line.splitOn " "
    if fs.length == Cache.columns && !line.startsWith "#" then " ".intercalate (fs.take (Cache.columns - 2) ++ ["RT", "RT"])
    else line
  "\n".intercalate ((text.splitOn "\n").map mask)

/-- Every file under the working directory except the given ones, with index runtimes masked
when `masked`. -/
def Disk.listingDoc (d : Disk) (except : List String) (masked : Bool) : Doc :=
  .obj (d.listing.filterMap fun (p, c) =>
    if except.contains p then none
    else some (p, .str (if masked && (Path.base p == Cache.indexFile) then maskIndexText c else c)))

end BitSynth
