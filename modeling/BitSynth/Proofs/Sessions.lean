import Mathlib
import BitSynth.Proofs.Serving
import BitSynth.Proofs.Text
import BitSynth.Proofs.Wire
import BitSynth.Abc.Engine

namespace BitSynth.Abc

open On

/-- The frame of a request an engine writes. -/
def requestFrame (op : Op) (arg : String) : Abc.Frame := { op, arg := Text.bytesOf arg }

theorem terminator_eq : terminator = UInt8.ofNat '$'.toNat := rfl

theorem sendable_requestFrame {op : Op} {arg : String}
    (hop : op = .newSession ∨ op = .command ∨ op = .endSession ∨ op = .bye)
    (harg : '$' ∉ arg.toList) (hbare : op.hasArg = false → arg = "") :
    (requestFrame op arg).Sendable where
  known := hop
  clean := terminator_eq ▸ Text.ascii_not_mem_bytesOf (by decide) harg
  bare h := by simp [requestFrame, hbare h]

theorem sendable_endRequest : (requestFrame .endSession "").Sendable :=
  sendable_requestFrame (.inr (.inr (.inl rfl))) (by simp) fun _ => rfl

theorem encode_error_of_terminator (op : Op) {arg : String} (hop : op ≠ .unknown)
    (harg : '$' ∈ arg.toList) : ∃ err, Abc.Frame.encode op (Text.bytesOf arg) = .error err := by
  have hmem : terminator ∈ Text.bytesOf arg := terminator_eq ▸ Text.ascii_mem_bytesOf (by decide) harg
  unfold Abc.Frame.encode
  have hne : (op == .unknown) = false := by
    cases op <;> first | rfl | exact absurd rfl hop
  rw [if_neg (by simp [hne]), if_pos (by simpa using hmem)]
  exact ⟨_, rfl⟩

theorem encode_error_cause {op : Op} {arg : List UInt8} {err : Error}
    (h : Abc.Frame.encode op arg = .error err) : err.cause = .other := by
  unfold Abc.Frame.encode at h
  split_ifs at h <;> cases h <;> rfl

theorem readReply_replyText (ok : Bool) : readReply (Text.bytesOf (replyText ok)) = .ok (ok, []) := by
  have hlen : (Text.bytesOf (replyText ok)).length = opcodeLength := by cases ok <;> decide +kernel
  unfold readReply
  rw [if_neg (by simp [← List.length_eq_zero_iff, hlen, opcodeLength]), if_neg (by omega),
    List.take_of_length_le (by omega), List.drop_of_length_le (by omega)]
  dsimp only
  rw [Text.ofBytes?_bytesOf]
  cases ok <;> rfl

/-- A session name or file an engine can pass: a word free of the terminator. -/
def Token (t : String) : Prop := Text.IsWord t ∧ '$' ∉ t.toList

theorem ofArg_tokens {name input output : String} (h : ∀ t ∈ [name, input, output], Token t) :
    Session.ofArg (" ".intercalate [name, input, output]) =
      .ok { name, input, output, log := output ++ ".log",
            constraints := Text.trimEnd input ".v" ++ ".sdc" } := by
  unfold Session.ofArg
  rw [Text.fields_intercalate fun t ht => (h t ht).1]

namespace Engine

theorem run'_runServer {α : Type} (x : On Server α) (srv : Server) (w : World) :
    (runServer x srv).run' w = match x.run' (srv, w) with
      | .ok (r, srv', w') => .ok (.ok (r, srv'), w')
      | .error f => .error f := by
  simp only [runServer, On.runFrom, Stateful.run', ExceptT.run_mk, StateT.run]
  rcases (ExceptT.run x) (srv, w) with _ | ⟨r, srv', w'⟩ <;> rfl

theorem runServer_spec {α : Type} {x : On Server α} {srv : Server}
    {Q : Except Error α → Server → Prop} (hx : Spec x srv Q) (w : World) (r : Except Error (Except Error α × Server)) (w' : World)
    (h : (runServer x srv).run' w = .ok (r, w')) : ∃ a srv', r = .ok (a, srv') ∧ Q a srv' := by
  rw [run'_runServer] at h
  rcases hx₁ : x.run' (srv, w) with _ | ⟨a, srv', w''⟩ <;> rw [hx₁] at h <;> cases h
  exact ⟨a, srv', rfl, hx w a srv' _ hx₁⟩

/-- The peer serves a computation: the engine takes the server it leaves, and its outcome. -/
theorem onPeer_spec {α : Type} {x : On Server α} {Q : Except Error α → Server → Prop}
    {e : Engine} {srv : Server} (hpeer : e.peer = .inProcess srv) (hx : Spec x srv Q) :
    Spec (onPeer x) e fun r e' => ∃ a srv', Q a srv' ∧ r = a.map some ∧
      e' = { e with peer := .inProcess srv' } := by
  unfold onPeer
  refine Spec.self_bind ?_
  rw [hpeer]
  refine Spec.world_bind_of (runServer_spec hx) ?_ ?_
  · rintro v ⟨a, srv', hv, hq⟩
    cases hv
    refine Spec.update_bind _ ?_
    rcases a with err | a
    · exact Spec.throw _ ⟨.error err, srv', hq, rfl, rfl⟩
    · exact Spec.pure _ ⟨.ok a, srv', hq, rfl, rfl⟩
  · rintro _ ⟨_, _, hv, _⟩
    cases hv

/-- A request delivered to a peer that is serving is read whole and answered with one reply. -/
theorem deliver_spec {e : Engine} {srv : Server} {f : Abc.Frame} (hf : f.Sendable)
    (hbye : f.op ≠ .bye) (hpeer : e.peer = .inProcess srv) (hserving : e.serving = true) :
    Spec (deliver f.wire) e fun r e' => r = .ok () ∧ ∃ srv' ok, Server.SameSetup srv srv' ∧
      Serves f.op (Text.ofBytesLossy f.arg) srv.session ok srv'.session ∧
      e' = { e with peer := .inProcess srv', replies := e.replies ++ Text.bytesOf (replyText ok) } := by
  have hnext : nextFrame f.wire = .ok (f.received, []) := by
    simpa using nextFrame_wire_append hf []
  have hb : (f.received.op == .bye) = false := by
    rcases hf.known with h | h | h | h <;> simp only [Frame.received, h] <;> first | rfl | exact absurd h hbye
  unfold deliver
  refine Spec.self_bind ?_
  rw [if_neg (by simp [hserving]), hnext]
  dsimp only
  rw [if_neg (by simp [hb])]
  refine Spec.bind (onPeer_spec hpeer (Server.handle_spec f.received srv)) ?_ ?_
  · rintro v e₁ ⟨a, srv', ⟨hs, ok, rfl, hserve⟩, hv, rfl⟩
    cases hv
    exact Spec.update _ ⟨rfl, srv', ok, hs, hserve, rfl⟩
  · rintro err e₁ ⟨a, srv', ⟨_, ok, rfl, _⟩, hv, _⟩
    cases hv

/-- A request written by an engine connected to a peer that is serving is recorded and
answered with one reply. -/
theorem send_spec {e : Engine} {srv : Server} {op : Op} {arg : String}
    (hf : (requestFrame op arg).Sendable) (hbye : op ≠ .bye)
    (hpeer : e.peer = .inProcess srv) (hserving : e.serving = true) (hbroken : e.broken = false)
    (hclosed : e.closed = false) :
    Spec (send op arg) e fun r e' => r = .ok () ∧ ∃ srv' ok, Server.SameSetup srv srv' ∧
      Serves op arg srv.session ok srv'.session ∧
      e' = { e with
        peer := .inProcess srv', sent := e.sent ++ (requestFrame op arg).wire,
        replies := e.replies ++ Text.bytesOf (replyText ok) } := by
  have henc : Abc.Frame.encode op (Text.bytesOf arg) = .ok (requestFrame op arg).wire :=
    Frame.encode_eq_wire hf
  unfold send
  refine Spec.self_bind ?_
  dsimp only
  rw [if_neg (by simp [hclosed]), if_neg (by simp [hbroken]), henc]
  dsimp only
  rw [pure_bind, hpeer]
  dsimp only
  refine Spec.update_bind _ ((deliver_spec (e := { e with sent := e.sent ++ (requestFrame op arg).wire })
    hf hbye hpeer hserving).conseq ?_)
  rintro r e' ⟨hr, srv', ok, hs, hserve, rfl⟩
  exact ⟨hr, srv', ok, hs, by simpa [requestFrame, Text.ofBytesLossy_bytesOf] using hserve, rfl⟩

/-- A request of an engine in step with a peer that is serving: the peer serves it, and the engine
reads its one reply, failing with the refusal of the opcode when the reply reports a failure. -/
theorem request_spec {e : Engine} {srv : Server} {op : Op} {arg : String}
    (hf : (requestFrame op arg).Sendable) (hbye : op ≠ .bye)
    (hpeer : e.peer = .inProcess srv) (hserving : e.serving = true) (hbroken : e.broken = false)
    (hclosed : e.closed = false) (hreplies : e.replies = []) :
    Spec (request op arg) e fun r e' => ∃ srv' ok, Server.SameSetup srv srv' ∧
      Serves op arg srv.session ok srv'.session ∧
      r = (if ok then .ok () else .error (rejected op.text)) ∧
      e' = { e with peer := .inProcess srv', sent := e.sent ++ (requestFrame op arg).wire } := by
  unfold request
  refine Spec.bind (send_spec hf hbye hpeer hserving hbroken hclosed) ?_ fun _ _ h => by cases h.1
  rintro _ e₁ ⟨-, srv', ok, hs, hserve, rfl⟩
  refine Spec.self_bind ?_
  dsimp only
  rw [hreplies, List.nil_append, readReply_replyText]
  dsimp only
  refine Spec.update_bind _ ?_
  cases ok
  · exact Spec.throw _ ⟨srv', false, hs, hserve, rfl, by simp⟩
  · exact Spec.pure () ⟨srv', true, hs, hserve, rfl, by simp⟩

/-- A request that cannot be encoded fails before anything is written. -/
theorem request_of_encode_error {e : Engine} {op : Op} {arg : String} {err : Error}
    (henc : Abc.Frame.encode op (Text.bytesOf arg) = .error err) (hbroken : e.broken = false)
    (hclosed : e.closed = false) :
    Spec (request op arg) e fun r e' => r = .error err ∧ e' = e := by
  unfold request send
  rw [bind_assoc]
  refine Spec.self_bind ?_
  dsimp only
  rw [if_neg (by simp [hclosed]), if_neg (by simp [hbroken]), henc]
  dsimp only
  rw [bind_assoc]
  exact Spec.throw_bind _ ⟨rfl, rfl⟩

/-- An engine in step with the server it talks to in the same process: the server still serves,
the engine is neither broken nor closed, it has read every reply, and what it wrote is a sequence
of whole requests. -/
structure InStep (e : Engine) (srv : Server) : Prop where
  peer : e.peer = .inProcess srv
  serving : e.serving = true
  intact : e.broken = false
  live : e.closed = false
  answered : e.replies = []
  framed : ∃ fs : List Abc.Frame, (∀ f ∈ fs, f.Sendable) ∧ e.sent = (fs.map Abc.Frame.wire).flatten

theorem InStep.request {e : Engine} {srv : Server} (h : InStep e srv) (srv' : Server)
    {f : Abc.Frame} (hf : f.Sendable) : InStep { e with peer := .inProcess srv', sent := e.sent ++ f.wire } srv' := by
  obtain ⟨fs, hfs, hsent⟩ := h.framed
  refine ⟨rfl, h.serving, h.intact, h.live, h.answered, fs ++ [f], ?_, by simp [hsent]⟩
  intro g hg
  rcases List.mem_append.mp hg with hg | hg
  · exact hfs g hg
  · exact (List.mem_singleton.mp hg) ▸ hf

theorem InStep.rename {e : Engine} {srv : Server} (h : InStep e srv) (name : String) :
    InStep { e with session := name } srv :=
  ⟨h.peer, h.serving, h.intact, h.live, h.answered, h.framed⟩

theorem InStep.request_spec {e : Engine} {srv : Server} {op : Op} {arg : String}
    (h : InStep e srv) (hf : (requestFrame op arg).Sendable) (hbye : op ≠ .bye) :
    Spec (Engine.request op arg) e fun r e' => ∃ srv' ok, Server.SameSetup srv srv' ∧
      Serves op arg srv.session ok srv'.session ∧
      r = (if ok then .ok () else .error (rejected op.text)) ∧ InStep e' srv' ∧
      e'.session = e.session := by
  refine (Engine.request_spec hf hbye h.peer h.serving h.intact h.live h.answered).conseq ?_
  rintro r e' ⟨srv', ok, hs, hserve, hr, rfl⟩
  exact ⟨srv', ok, hs, hserve, hr, h.request srv' hf, rfl⟩

/-- The engine's session agrees with the server's: the engine names a session exactly when the
server holds one, it names it by its name, and the server opened it from `opened`. -/
def Agrees (name : String) (opened : Option (String × String × String)) (held : Option Session) :
    Prop :=
  (name ≠ "" ↔ held.isSome) ∧ ∀ s ∈ held, s.name = name ∧ opened = some (s.name, s.input, s.output)

/-- The engine names a session the server has ended. -/
def Dropped (name : String) (held : Option Session) : Prop := name ≠ "" ∧ held = none

/-- The second half of opening a session, on an engine that names none: the server opens the
session of the three tokens or none, and the engine names it when, and only when, it was opened. -/
theorem attempt_newSession_spec {name input output : String}
    (htok : ∀ t ∈ [name, input, output], Token t) {e : Engine} {srv : Server} (hstep : InStep e srv)
    (hnone : e.session = "") {k : Except Error Unit → On Engine Unit}
    (hk_err : ∀ err, k (.error err) = throw (err.wrap ("start session " ++ name)))
    (hk_ok : k (.ok ()) = On.update fun e => { e with session := name }) :
    Spec (On.attempt (request .newSession (" ".intercalate [name, input, output])) >>= k) e
      fun _ e' => ∃ srv', InStep e' srv' ∧ Agrees e'.session (some (name, input, output)) srv'.session := by
  have hfree : '$' ∉ (" ".intercalate [name, input, output]).toList := by
    simp [(htok name (by simp)).2, (htok input (by simp)).2, (htok output (by simp)).2]
  have hf := sendable_requestFrame (.inl rfl) hfree (by simp [Op.hasArg])
  refine Spec.attempt_bind (hstep.request_spec hf (by decide)) ?_
  rintro r e₁ ⟨srv₁, ok, -, hserve, rfl, hstep₁, hname₁⟩
  cases ok
  · rw [if_neg Bool.false_ne_true, hk_err]
    refine Spec.throw _ ⟨srv₁, hstep₁, ?_⟩
    simp only [Serves, Bool.false_eq_true, if_false] at hserve
    simp [Agrees, hname₁, hnone, hserve]
  · rw [if_pos rfl, hk_ok]
    refine Spec.update _ ⟨srv₁, hstep₁.rename name, ?_⟩
    simp only [Serves, if_true, ofArg_tokens htok] at hserve
    obtain ⟨s, script, hs, hsrv₁⟩ := hserve
    cases hs
    simp [Agrees, hsrv₁, (htok name (by simp)).1.1]

/-- Opening a session ends an open one first. When the server refuses to end it, the call fails
and the engine goes on naming the session, which the server has ended all the same; otherwise the
engine and the server agree on the session opened, or on none. -/
theorem startSession_spec {name input output : String}
    (htok : ∀ t ∈ [name, input, output], Token t) {e : Engine} {srv : Server} (hstep : InStep e srv) :
    Spec (startSession name input output) e fun r e' => ∃ srv', InStep e' srv' ∧
      (Agrees e'.session (some (name, input, output)) srv'.session ∨
        (∃ err, r = .error err) ∧ Dropped e'.session srv'.session) := by
  have harg : (if (input.isEmpty && output.isEmpty) = true then name
      else " ".intercalate [name, input, output]) = " ".intercalate [name, input, output] := by
    rw [if_neg]
    simp [(htok input (by simp)).1.1]
  unfold startSession
  refine Spec.self_bind ?_
  dsimp only
  rw [harg]
  split
  · rename_i hopen
    refine Spec.attempt_bind (hstep.request_spec sendable_endRequest (by decide)) ?_
    rintro r e₁ ⟨srv₁, ok, -, hserve, rfl, hstep₁, hname₁⟩
    cases ok
    · -- the server refused to end the session, and has ended it all the same
      rw [if_neg Bool.false_ne_true]
      exact Spec.throw_bind _ ⟨srv₁, hstep₁, .inr ⟨⟨_, rfl⟩, by simpa [hname₁] using hopen, hserve.1⟩⟩
    · rw [if_pos rfl]
      exact Spec.update_bind _ ((attempt_newSession_spec htok (hstep₁.rename "") rfl (fun _ => rfl)
        rfl).conseq fun _ _ h => h.imp fun _ => And.imp_right .inl)
  · rename_i hnone
    exact (attempt_newSession_spec htok hstep (by simpa using hnone) (fun _ => rfl) rfl).conseq
      fun _ _ h => h.imp fun _ => And.imp_right .inl

/-- Running a command keeps the engine and the server agreeing: a refused command ends the session
on both sides, and a command holding the terminator is not sent and changes nothing. -/
theorem runCmd_spec (cmd : String) {e : Engine} {srv : Server}
    {opened : Option (String × String × String)} (hstep : InStep e srv)
    (hsess : Agrees e.session opened srv.session ∨ Dropped e.session srv.session) :
    Spec (runCmd cmd) e fun r e' => ∃ srv', InStep e' srv' ∧
      (Agrees e'.session opened srv'.session ∨
        (∃ err, r = .error err) ∧ Dropped e'.session srv'.session) := by
  unfold runCmd
  by_cases hd : '$' ∈ cmd.toList
  · -- the command is refused before anything is written
    obtain ⟨err, henc⟩ := encode_error_of_terminator .command (by decide) hd
    refine Spec.attempt_bind (request_of_encode_error henc hstep.intact hstep.live) ?_
    rintro r e₁ ⟨rfl, rfl⟩
    dsimp only
    rw [if_neg (by rw [encode_error_cause henc]; decide)]
    refine Spec.throw _ ⟨srv, hstep, ?_⟩
    rcases hsess with h | h
    · exact .inl h
    · exact .inr ⟨⟨_, rfl⟩, h⟩
  · have hf := sendable_requestFrame (.inr (.inl rfl)) hd (by simp [Op.hasArg])
    refine Spec.attempt_bind (hstep.request_spec hf (by decide)) ?_
    rintro r e₁ ⟨srv₁, ok, -, hserve, rfl, hstep₁, hname₁⟩
    cases ok
    · -- a refused command ends the session on both sides
      rw [if_neg Bool.false_ne_true]
      dsimp only
      rw [if_pos (by rfl)]
      refine Spec.update_bind _ (Spec.throw _ ⟨srv₁, hstep₁.rename "", .inl ?_⟩)
      have hnone : srv₁.session = none := by
        simp only [Serves] at hserve
        split at hserve <;> simp_all
      simp [Agrees, hnone]
    · rw [if_pos rfl]
      refine Spec.pure () ⟨srv₁, hstep₁, .inl ?_⟩
      rw [hname₁]
      simp only [Serves] at hserve
      rcases hsess with ⟨hname, hsame⟩ | ⟨_, hnone⟩
      · split at hserve
        · simp at hserve
        · rename_i s hs
          obtain ⟨script, hsrv₁⟩ := hserve
          obtain ⟨hn, ho⟩ := hsame s (by simp [hs])
          refine ⟨by simpa [hsrv₁, hs] using hname, fun s' hs' => ?_⟩
          simp only [hsrv₁, Option.mem_def, Option.some.injEq] at hs'
          subst hs'
          exact ⟨hn, ho⟩
      · simp [hnone] at hserve

theorem endSession_spec {e : Engine} {srv : Server} (opened : Option (String × String × String))
    (hstep : InStep e srv) :
    Spec endSession e fun _ e' => ∃ srv', InStep e' srv' ∧ Agrees e'.session opened srv'.session := by
  unfold endSession
  refine Spec.self_bind (Spec.update_bind _ ?_)
  refine Spec.attempt_bind ((hstep.rename "").request_spec sendable_endRequest (by decide)) ?_
  rintro r e₁ ⟨srv₁, ok, -, hserve, rfl, hstep₁, hname₁⟩
  have hagree : Agrees e₁.session opened srv₁.session := by simp [Agrees, hname₁, hserve.1]
  cases ok
  · exact Spec.throw _ ⟨srv₁, hstep₁, hagree⟩
  · exact Spec.pure () ⟨srv₁, hstep₁, hagree⟩

end Engine

/-- A call a client makes on an engine. -/
inductive Call where
  | startSession (name input output : String)
  | runCmd (cmd : String)
  | runTiming
  | endSession

namespace Call

/-- The engine computation of a call. -/
def perform : Call → On Engine Unit
  | .startSession name input output => Engine.startSession name input output
  | .runCmd cmd => Engine.runCmd cmd
  | .runTiming => Engine.runTiming
  | .endSession => Engine.endSession

/-- The name and files of the session a call opens. -/
def opens : Call → Option (String × String × String)
  | .startSession name input output => some (name, input, output)
  | _ => none

/-- The name and files of the session the latest of `cs` that opens one opens, or else `opened`. -/
def latest (cs : List Call) (opened : Option (String × String × String)) :
    Option (String × String × String) :=
  cs.foldl (fun o c => c.opens.or o) opened

/-- A call passes tokens as session name and files. -/
def Clean : Call → Prop
  | .startSession name input output => ∀ t ∈ [name, input, output], Token t
  | _ => True

end Call

/-- Makes calls one after another, each whatever the one before returned: their outcomes. -/
def performAll : List Call → On Engine (List (Except Error Unit))
  | [] => pure []
  | c :: cs => do
    let r ← On.attempt c.perform
    let rs ← performAll cs
    pure (r :: rs)

namespace Engine

/-- One call keeps the engine in step with the server, and the engine's session agrees with the
server's, except after a failed call that may leave the engine naming a session the server ended. -/
theorem perform_spec {c : Call} (hc : c.Clean) {e : Engine} {srv : Server}
    {opened : Option (String × String × String)} (hstep : InStep e srv)
    (hsess : Agrees e.session opened srv.session ∨ Dropped e.session srv.session) :
    Spec c.perform e fun r e' => ∃ srv', InStep e' srv' ∧
      (Agrees e'.session (c.opens.or opened) srv'.session ∨
        (∃ err, r = .error err) ∧ Dropped e'.session srv'.session) := by
  cases c with
  | startSession name input output => exact startSession_spec hc hstep
  | runCmd cmd => exact runCmd_spec cmd hstep hsess
  | runTiming => exact runCmd_spec "stime -p" hstep hsess
  | endSession =>
    exact (endSession_spec opened hstep).conseq fun _ _ h => h.imp fun _ => And.imp_right .inl

/-- Calls made one after another keep the engine in step with the server, and the engine's session
agrees with the server's except right after a failed call. -/
theorem performAll_spec (cs : List Call) (hcs : ∀ c ∈ cs, c.Clean) {e : Engine} {srv : Server}
    {opened : Option (String × String × String)} (hstep : InStep e srv)
    (hsess : Agrees e.session opened srv.session ∨ Dropped e.session srv.session) :
    Spec (performAll cs) e fun r e' => ∃ rs srv', r = .ok rs ∧ InStep e' srv' ∧
      rs.length = cs.length ∧ (Agrees e'.session (Call.latest cs opened) srv'.session ∨
        Dropped e'.session srv'.session ∧ ∀ r ∈ rs.getLast?, ∃ err, r = .error err) := by
  induction cs generalizing e srv opened with
  | nil =>
    refine Spec.pure [] ⟨[], srv, rfl, hstep, rfl, ?_⟩
    rcases hsess with h | h
    · exact .inl h
    · exact .inr ⟨h, by simp⟩
  | cons c cs ih =>
    have hcs' : ∀ c' ∈ cs, c'.Clean := fun c' hc' => hcs c' (List.mem_cons_of_mem c hc')
    simp only [performAll]
    refine Spec.attempt_bind (perform_spec (hcs c List.mem_cons_self) hstep hsess) ?_
    rintro r e₁ ⟨srv₁, hstep₁, hsess₁⟩
    cases cs with
    | nil =>
      simp only [performAll, pure_bind]
      refine Spec.pure _ ⟨_, srv₁, rfl, hstep₁, rfl, ?_⟩
      rcases hsess₁ with h | ⟨hr, h⟩
      · exact .inl h
      · exact .inr ⟨h, by simpa using hr⟩
    | cons c' cs =>
      refine Spec.bind (ih hcs' hstep₁ (hsess₁.imp id And.right)) ?_
        fun _ _ h => by obtain ⟨_, _, hrs, _⟩ := h; cases hrs
      rintro rs e' ⟨_, srv', ⟨⟩, hstep', hlen, hsess'⟩
      refine Spec.pure _ ⟨_, srv', rfl, hstep', by simp [hlen], ?_⟩
      obtain ⟨x, xs, rfl⟩ := List.exists_cons_of_length_eq_add_one hlen
      rcases hsess' with h | h
      · exact .inl h
      · exact .inr ⟨h.1, by simpa [List.getLast?_cons_cons] using h.2⟩

end Engine

/-- An engine and a server in the same process keep track of one session. Whatever calls a client
makes, with words free of the terminator as session names and files, and whatever the server's tool
does, a run of the calls on a fresh engine that ends without a defect ends with the server still
serving, having read every request the engine wrote, whole, and answered each with one reply. The
engine then names a session exactly when the server holds one, by its name and with the files of the
latest call that opened a session, unless the last call failed and left the engine naming a session
the server has ended. -/
theorem engine_tracks_server_session (srv : Server) (hsrv : srv.session = none) (cs : List Call)
    (hcs : ∀ c ∈ cs, c.Clean) :
    Spec (performAll cs) { peer := .inProcess srv } fun r e => ∃ rs srv', r = .ok rs ∧
      Engine.InStep e srv' ∧ rs.length = cs.length ∧
      (Engine.Agrees e.session (Call.latest cs none) srv'.session ∨
        Engine.Dropped e.session srv'.session ∧ ∀ r ∈ rs.getLast?, ∃ err, r = .error err) :=
  Engine.performAll_spec cs hcs ⟨rfl, rfl, rfl, rfl, rfl, [], by simp, rfl⟩
    (.inl (by simp [Engine.Agrees, hsrv]))

/-- A session opened, timed and ended on the script server. -/
theorem script_server_tracks_session :
    (Server.script "abc" "cells.lib" false).session = none ∧
      (∀ c ∈ [Call.startSession "blk" "in.v" "out.v", .runTiming, .endSession], c.Clean) ∧
      Spec (performAll [.startSession "blk" "in.v" "out.v", .runTiming, .endSession])
        { peer := .inProcess (Server.script "abc" "cells.lib" false) } fun r e => ∃ rs srv', r = .ok rs ∧
        Engine.InStep e srv' ∧ rs.length = 3 ∧
        (Engine.Agrees e.session (Call.latest [.startSession "blk" "in.v" "out.v", .runTiming, .endSession] none)
            srv'.session ∨
          Engine.Dropped e.session srv'.session ∧ ∀ r ∈ rs.getLast?, ∃ err, r = .error err) :=
  have hcs : ∀ c ∈ [Call.startSession "blk" "in.v" "out.v", .runTiming, .endSession], c.Clean := by
    simp [Call.Clean, Token, Text.IsWord, Text.isSpace]
  ⟨rfl, hcs, engine_tracks_server_session _ rfl _ hcs⟩

/-- A tool that cannot close a session. -/
def refusingTool : Tool where
  openSession _ := pure []
  runCommand s _ := pure s.script
  closeSession _ := throw (.plain "refused")

/-- Opening a second session with a tool that cannot close the first: the server ends the first
session all the same and refuses the implicit end, so the call fails, and the engine goes on
naming the first session while the server holds none. -/
theorem restart_after_refused_end_leaves_engine_naming_ended_session :
    ∃ rs e w, (performAll [.startSession "blk" "in.v" "out.v", .startSession "two" "in.v" "two.v"]).run'
        ({ peer := .inProcess { tool := refusingTool, liberty := "cells.lib", useConstraints := false } },
          default) = .ok (.ok rs, e, w) ∧
      rs.map Except.isOk = [true, false] ∧ e.session = "blk" ∧
      ∃ srv, e.peer = .inProcess srv ∧ srv.session = none := by
  -- the run itself, evaluated: no defect, the second call fails, the engine names the first session
  have hrun : ((performAll [.startSession "blk" "in.v" "out.v", .startSession "two" "in.v" "two.v"]).run'
        ({ peer := .inProcess { tool := refusingTool, liberty := "cells.lib", useConstraints := false } },
          default)).toOption.map (fun p => (p.1.toOption.map (List.map Except.isOk), p.2.1.session)) =
      some (some [true, false], "blk") := by
    decide +kernel
  have hcs : ∀ c ∈ [Call.startSession "blk" "in.v" "out.v", .startSession "two" "in.v" "two.v"],
      c.Clean := by
    simp [Call.Clean, Token, Text.IsWord, Text.isSpace]
  rcases hout : (performAll [.startSession "blk" "in.v" "out.v", .startSession "two" "in.v" "two.v"]).run'
      ({ peer := .inProcess { tool := refusingTool, liberty := "cells.lib", useConstraints := false } },
        default) with f | ⟨r, e, w⟩
  · rw [hout] at hrun
    cases hrun
  rw [hout] at hrun
  simp only [Except.toOption, Option.map_some, Option.some.injEq, Prod.mk.injEq] at hrun
  obtain ⟨hr, hname⟩ := hrun
  -- the server's side comes from the run lemma: the engine and the server cannot agree
  obtain ⟨rs, srv, rfl, hstep, -, hsess⟩ := Engine.performAll_spec _ hcs
    ⟨rfl, rfl, rfl, rfl, rfl, [], by simp, rfl⟩ (.inl (by simp [Engine.Agrees] : Engine.Agrees "" none none))
    default _ e w hout
  refine ⟨rs, e, w, rfl, by simpa using hr, hname, srv, hstep.peer, ?_⟩
  rcases hsess with ⟨hiff, hheld⟩ | ⟨⟨_, hnone⟩, _⟩
  · obtain ⟨s, hs⟩ := Option.isSome_iff_exists.mp (hiff.mp (by simp [hname]))
    obtain ⟨hsname, hopened⟩ := hheld s hs
    simp [Call.latest, Call.opens, hsname, hname] at hopened
  · exact hnone

end BitSynth.Abc
