namespace BitSynth.Text

def dropReturn (l : String) : String :=
  if l.toList.getLast? == some '\r' then String.ofList l.toList.dropLast else l

/-- The raw lines of a text, split at line feeds, without an empty line after a final feed. -/
def rawLines (text : String) : List String :=
  if text.isEmpty then []
  else
    let parts := (text.toList.splitOn '\n').map String.ofList
    if text.toList.getLast? == some '\n' then parts.dropLast else parts

def scanLines (text : String) : List String := (rawLines text).map dropReturn

/-- The number of bytes at which a bounded line reader gives up on a line. -/
def lineLimit : Nat := 65536

/-- The raised limit of the readers of indexes, logs and port reports: sixteen mebibytes. -/
def longLineLimit : Nat := 16777216

/-- The lines a reader bounded by `limit` returns, and whether it then stopped at a line that is
too long. -/
def scanBounded (limit : Nat) (text : String) : List String × Bool :=
  let raw := rawLines text
  let ok := raw.takeWhile (·.utf8ByteSize < limit)
  (ok.map dropReturn, ok.length < raw.length)

end BitSynth.Text
