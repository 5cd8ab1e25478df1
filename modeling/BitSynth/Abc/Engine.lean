import BitSynth.Abc.Server

namespace BitSynth.Abc

/-- The other end of an engine's pipes. -/
inductive Peer where
  /-- Fixed replies; requests are recorded, and after `writesLeft` writes the pipe breaks. -/
  | scripted (writesLeft : Option Nat)
  /-- A server in the same process, logging where the process logs. -/
  | inProcess (server : Server)
  /-- A server in a child process, with the child's streams. -/
  | child (server : Server) (streams : Streams)
  deriving Inhabited

/-- An engine: its peer, the reply bytes not yet read, the bytes written so far, the open session,
and whether it is broken or closed. -/
structure Engine where
  peer : Peer
  replies : List UInt8 := []
  sent : List UInt8 := []
  session : String := ""
  broken : Bool := false
  closed : Bool := false
  serving : Bool := true
  deriving Inhabited

namespace Engine

/-- Runs a server computation from a server state: its outcome and the new server state. -/
def runServer {α : Type} (x : On Server α) (srv : Server) : Act (Except Error α × Server) :=
  ExceptT.mk fun w =>
    match On.runFrom x srv w with
    | .ok (r, srv, w) => .ok (.ok (r, srv), w)
    | .error f => .error f

def onPeer {α : Type} (x : On Server α) : On Engine (Option α) := do
  let e ← On.self
  match e.peer with
  | .scripted _ => pure none
  | .inProcess srv =>
    let (r, srv) ← On.world (runServer x srv)
    On.update fun e => { e with peer := .inProcess srv }
    match r with
    | .ok a => pure (some a)
    | .error err => throw err
  | .child srv streams =>
    let (r, srv) ← On.world (Act.withStreams streams (runServer x srv))
    On.update fun e => { e with peer := .child srv streams }
    match r with
    | .ok a => pure (some a)
    | .error err => throw err

/-- Delivers written bytes to the peer, which reads a request from them: a served request yields its
reply bytes, while `$bye$` or bytes that are no request end serving. -/
def deliver (data : List UInt8) : On Engine Unit := do
  let e ← On.self
  if !e.serving then pure ()
  else
    match nextFrame data with
    | .ok (f, _) =>
      if f.op == .bye then
        let _ ← onPeer Server.finish
        On.update fun e => { e with serving := false }
      else
        match ← onPeer (Server.handle f) with
        | some ok => On.update fun e => { e with replies := e.replies ++ Text.bytesOf (replyText ok) }
        | none => pure ()
    | .error _ =>
      let _ ← onPeer Server.finish
      On.update fun e => { e with serving := false }

def send (op : Op) (arg : String) : On Engine Unit := do
  let e ← On.self
  if e.closed && op != .bye then throw (protocolFailure "engine is closed")
  if e.broken then throw (protocolFailure "engine is broken")
  let data ← match Frame.encode op (Text.bytesOf arg) with
    | .ok d => pure d
    | .error err => throw err
  match e.peer with
  | .scripted (some 0) =>
    On.update fun e => { e with broken := true }
    throw (protocolFailure "broken pipe")
  | .scripted left =>
    On.update fun e => { e with peer := .scripted (left.map (· - 1)), sent := e.sent ++ data }
  | _ =>
    On.update fun e => { e with sent := e.sent ++ data }
    deliver data

/-- Writes a request and reads its reply: a refusal is an error naming the opcode. -/
def request (op : Op) (arg : String) : On Engine Unit := do
  send op arg
  match readReply (← On.self).replies with
  | .error err =>
    On.update fun e => { e with broken := true }
    throw err
  | .ok (ok, rest) =>
    On.update fun e => { e with replies := rest }
    if !ok then throw (rejected op.text)

/-- Opens a session for module `name` reading `input` and writing `output`, ending an open one
first. -/
def startSession (name input output : String) : On Engine Unit := do
  let e ← On.self
  if !e.session.isEmpty then
    match ← On.attempt (request .endSession "") with
    | .error err => throw (err.wrap ("end session " ++ e.session))
    | .ok () => On.update fun e => { e with session := "" }
  let arg := if input.isEmpty && output.isEmpty then name else " ".intercalate [name, input, output]
  match ← On.attempt (request .newSession arg) with
  | .error err => throw (err.wrap ("start session " ++ name))
  | .ok () => On.update fun e => { e with session := name }

/-- Runs one command in the open session; a refused command ends the session. -/
def runCmd (cmd : String) : On Engine Unit := do
  match ← On.attempt (request .command cmd) with
  | .error err =>
    if err.cause == .rejected then On.update fun e => { e with session := "" }
    throw (err.wrap ("run " ++ Text.quote cmd))
  | .ok () => pure ()

/-- Prints the timing report of the mapped network into the session log. -/
def runTiming : On Engine Unit := runCmd "stime -p"

def endSession : On Engine Unit := do
  let name := (← On.self).session
  On.update fun e => { e with session := "" }
  match ← On.attempt (request .endSession "") with
  | .error err => throw (err.wrap ("end session " ++ name))
  | .ok () => pure ()

/-- Closes the request pipe: a peer still serving sees the end of its input. -/
def hangUp : On Engine Unit := do
  if (← On.self).serving then
    let _ ← onPeer Server.finish
    On.update fun e => { e with serving := false }

/-- Asks the peer to exit and closes the pipes; closing twice does nothing. -/
def close : On Engine Unit := do
  let e ← On.self
  if e.closed then return
  On.update fun e => { e with closed := true }
  let r ← if e.broken then pure (.ok ()) else On.attempt (send .bye "")
  hangUp
  match r with
  | .error err => throw err
  | .ok () => pure ()

end Engine

def serverOf (args : List String) : Server :=
  let rec go : List String → String × String × Bool → String × String × Bool
    | "--liberty" :: v :: rest, (binary, _, constraints) => go rest (binary, v, constraints)
    | "--abc" :: v :: rest, (_, liberty, constraints) => go rest (v, liberty, constraints)
    | "--constraints" :: rest, (binary, liberty, _) => go rest (binary, liberty, true)
    | _ :: rest, o => go rest o
    | [], o => o
  let (binary, liberty, useConstraints) := go args ("abc", "", false)
  Server.script binary liberty useConstraints

/-- Starts the program at `path` with server arguments as a child process: an engine talking to
it. The child writes its standard error and its log where the parent writes its standard error. -/
def startChild (path : String) (args : List String) : Act Engine := do
  let d := (← get).disk
  match d.lookup path with
  | .ok (some (.program _)) =>
    let err := (← get).streams.err
    logDebug ("running: " ++ path ++ " " ++ " ".intercalate args)
    pure { peer := .child (serverOf args) { out := .discard, err, log := err, level := .info } }
  | .ok (some _) => throw (.plain ("abc: start " ++ path ++ ": fork/exec " ++ path ++ ": permission denied"))
  | .ok none => throw (.plain ("abc: start " ++ path ++ ": fork/exec " ++ path ++ ": no such file or directory"))
  | .error f => throw (.plain ("abc: start " ++ path ++ ": fork/exec " ++ path ++ ": " ++ f.text))

end BitSynth.Abc
