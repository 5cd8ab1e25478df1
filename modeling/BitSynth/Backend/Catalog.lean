import BitSynth.Host.Path

namespace BitSynth.Backend

def builtins : List String := ["abc", "genus", "yosys"]

def externalPath (root pre name : String) : String :=
  Path.join [root, "lib", pre ++ "_" ++ name]

/-- The hidden command that serves optimiser sessions over standard input and output. -/
def serverCommand : String := "abc-server"

/-- The arguments that start an optimiser server with a cell library and an optimiser binary. -/
def serverArgs (liberty binary : String) (useConstraints : Bool) : List String :=
  [serverCommand, "--liberty", liberty, "--abc", binary] ++
    (if useConstraints then ["--constraints"] else [])

end BitSynth.Backend
