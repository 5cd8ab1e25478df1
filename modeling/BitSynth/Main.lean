import BitSynth.Cli.Run

namespace BitSynth.Cli

def installPath : String := "/usr/local/bin/" ++ toolName

def configFiles (args : List String) : List String :=
  let (chain, rest, _) := find tool args
  match parseFlags (chain.allFlags true) rest with
  | .ok p => p.texts "config"
  | .error _ => []

/-- The world a run starts in: the working directory with the loaded files, the environment, the
system tools and the executable itself installed, and the console as standard streams. -/
def launchWorld (cwd : String) (env : List (String × String)) (files : List (String × String)) : World :=
  let programs := [("/usr/bin/echo", "echo"), ("/usr/bin/true", "true"), ("/usr/bin/false", "false"),
    (installPath, "bitsynth")]
  { disk := ((Disk.empty cwd).withPrograms programs).withFiles files, env,
    streams := { out := .consoleOut, err := .consoleErr, log := .consoleErr } }

/-- The files of the working directory that a run created or changed, by relative path. -/
def written (before after : World) : List (String × String) :=
  let old := before.disk.listing
  after.disk.listing.filter fun (p, data) => old.lookup p != some data

end BitSynth.Cli

open BitSynth

/-- Reads a stream to its end. -/
partial def readStream (s : IO.FS.Stream) (acc : ByteArray) : IO ByteArray := do
  let chunk ← s.read 65536
  if chunk.isEmpty then return acc else readStream s (acc ++ chunk)

def fileOnDisk (p : String) : IO Bool := do
  try
    let _ ← IO.FS.readFile p
    return true
  catch _ =>
    return false

def main (args : List String) : IO UInt32 := do
  let input ← readStream (← IO.getStdin) ByteArray.empty
  let cwd := (← IO.getEnv "PWD").getD "/"
  let env ← ["PATH", "ACT_HOME", "ACT_TECH"].filterMapM fun k => do
    return (← IO.getEnv k).map (k, ·)
  let files ← (Cli.configFiles args).filterMapM fun (p : String) => do
    try return some (p, ← IO.FS.readFile p) catch _ => return none
  let start := Cli.launchWorld cwd env files
  match ((Cli.run Cli.installPath args input.toList).run).run start with
  | .error f =>
    IO.eprintln ("panic: " ++ f.message)
    return 2
  | .ok (r, w) =>
    IO.print w.consoleOut
    IO.eprint w.consoleErr
    for (p, data) in Cli.written start w do
      if files.any (·.1 == p) || !(← fileOnDisk p) then
        try
          IO.FS.createDirAll (Path.dir p)
          IO.FS.writeFile p data
        catch e => IO.eprintln (Cli.toolName ++ ": save " ++ p ++ ": " ++ toString e)
      else IO.eprintln (Cli.toolName ++ ": not overwriting " ++ p ++ ", which the run did not load")
    return match r with
      | .ok code => code.toNat.toUInt32
      | .error _ => 1
