import Mathlib
import BitSynth.Proofs.Environment
import BitSynth.Proofs.Discipline
import BitSynth.Proofs.Serving
import BitSynth.Proofs.Text
import BitSynth.Proofs.Wire

namespace BitSynth.Abc

/-- The environment `E'` is `E` with calls recorded on top of it that keep the discipline from
`live` to `live'`. -/
def Recorded (E E' : List (String × String)) (live live' : Option String) : Prop :=
  ∃ calls, E' = (calls.map ToolCall.entry).reverse ++ E ∧ Trace E.length live calls live'

namespace Recorded

variable {E E' E'' : List (String × String)} {live live' live'' : Option String}

theorem refl (E : List (String × String)) (live : Option String) : Recorded E E live live :=
  ⟨[], rfl, Trace.nil _ _⟩

theorem trans (h₁ : Recorded E E' live live') (h₂ : Recorded E' E'' live' live'') :
    Recorded E E'' live live'' := by
  obtain ⟨xs, rfl, hx⟩ := h₁
  obtain ⟨ys, rfl, hy⟩ := h₂
  have hlen : ((xs.map ToolCall.entry).reverse ++ E).length = E.length + xs.length := by
    simp [Nat.add_comm]
  rw [hlen] at hy
  exact ⟨xs ++ ys, by simp, hx.append hy⟩

theorem single {c : ToolCall} (h : ToolCall.step live c = some live')
    (hname : c.ask = .openSession → c.session = toString E.length) :
    Recorded E (c.entry :: E) live live' :=
  ⟨[c], rfl, Trace.single h hname⟩

end Recorded

/-- The refusal of a spying tool. -/
def refused : Error := .plain "tool: refused"

/-- Answers a call, the `n`-th when the environment has `n` entries: records it, then does it or
refuses it as `b n` says. -/
def answer {α : Type} (b : Nat → Bool) (ask : Ask) (session : Nat → String) (v : Nat → α) : Act α := do
  let n := (← get).env.length
  modify fun w => { w with env := (⟨ask, session n, b n⟩ : ToolCall).entry :: w.env }
  if b n then pure (v n) else throw refused

/-- A tool that does no work and records each call it gets in the environment, doing it or refusing
it as `b` says. A session it opens is named after the position of the call, and its script holds
just that name, so that the server's session carries the name the tool gave it. -/
def spy (b : Nat → Bool) : Tool where
  openSession _ := answer b .openSession toString fun n => [toString n]
  runCommand s _ := answer b .runCommand (fun _ => s.script.headD "") fun _ => s.script
  closeSession s := answer b .closeSession (fun _ => s.script.headD "") fun _ => ()

/-- The name of the server's open session under a spying tool: the head of its script. -/
def Server.tag (srv : Server) : Option String := srv.session.map (·.script.headD "")

theorem spy_openSession (b : Nat → Bool) (s : Session) :
    (spy b).openSession s = answer b .openSession toString fun n => [toString n] := rfl

theorem spy_runCommand (b : Nat → Bool) (s : Session) (cmd : String) :
    (spy b).runCommand s cmd = answer b .runCommand (fun _ => s.script.headD "") fun _ => s.script := rfl

theorem spy_closeSession (b : Nat → Bool) (s : Session) :
    (spy b).closeSession s = answer b .closeSession (fun _ => s.script.headD "") fun _ => () := rfl

theorem answer_envSpec {α : Type} (b : Nat → Bool) (ask : Ask) (session : Nat → String) (v : Nat → α)
    (E : List (String × String)) :
    Act.EnvSpec (answer b ask session v) E fun r E' =>
      E' = (⟨ask, session E.length, b E.length⟩ : ToolCall).entry :: E ∧
        r = if b E.length then .ok (v E.length) else .error refused := by
  intro w hE
  subst hE
  unfold answer
  rw [Stateful.run'_get_bind, Stateful.run'_bind, Stateful.run'_modify]
  cases hb : b w.env.length <;> simp

section Spy

variable {σ α β : Type} {b : Nat → Bool} {ask : Ask} {session : Nat → String} {v : Nat → α}
  {o : σ} {E : List (String × String)}

/-- A call to a spying tool whose error is caught is recorded, and hands on what the tool
answered. -/
theorem answer_attempt_bind {f : Except Error α → On σ β}
    {Q : Except Error β → σ → List (String × String) → Prop}
    (h : ∀ r, r = (if b E.length then .ok (v E.length) else .error refused) →
      On.EnvSpec (f r) o ((⟨ask, session E.length, b E.length⟩ : ToolCall).entry :: E) Q) :
    On.EnvSpec (On.world (Act.attempt (answer b ask session v)) >>= f) o E Q := by
  refine On.EnvSpec.bind (R := fun r o' E' => (∃ r', r = .ok r' ∧
      E' = (⟨ask, session E.length, b E.length⟩ : ToolCall).entry :: E ∧
        r' = if b E.length then .ok (v E.length) else .error refused) ∧ o' = o)
    (On.EnvSpec.world (answer_envSpec b ask session v E).attempt fun r E' h => ⟨h, rfl⟩) ?_ ?_
  · rintro r o' E' ⟨⟨r', hr, hE', hr'⟩, rfl⟩
    subst hE'
    injection hr with hr
    exact hr ▸ h r' hr'
  · rintro e o' E' ⟨⟨r', hr, -⟩, -⟩
    cases hr

theorem closeWith_spy (b : Nat → Bool) (s : Session) (E : List (String × String)) :
    Act.EnvSpec (Server.closeWith (spy b) s) E fun _ E' =>
      E' = (⟨.closeSession, s.script.headD "", b E.length⟩ : ToolCall).entry :: E := by
  unfold Server.closeWith
  rw [spy_closeSession]
  dsimp only
  refine Act.EnvSpec.bind (answer_envSpec b _ _ _ E).attempt ?_ ?_
  swap
  · rintro e E' ⟨_, he, -⟩
    cases he
  rintro v E' ⟨-, -, rfl, -⟩
  refine Act.KeepsEnv.envSpec ?_ fun _ => rfl
  -- reading the port report and writing the netlist leave the environment alone
  repeat' first
    | exact Act.keepsEnv_pure _ | exact Act.keepsEnv_throw _ | exact Act.keepsEnv_tryDisk _
    | exact Act.keepsEnv_replay _ | exact Act.keepsEnv_disk _
    | refine Act.KeepsEnv.bind ?_ fun _ => ?_
    | split

namespace Server

theorem SameSetup.tool {srv srv' : Server} (h : SameSetup srv srv') : srv'.tool = srv.tool := by
  rw [h]

theorem tag_of_session {srv : Server} {s : Session} (hs : srv.session = some s) :
    srv.tag = some (s.script.headD "") := by
  simp [tag, hs]

theorem tag_of_none {srv : Server} (hs : srv.session = none) : srv.tag = none := by
  simp [tag, hs]

/-- A command is one call in the live session, or none outside a session. -/
theorem run_trace (cmd : String) (srv : Server) (hspy : srv.tool = spy b) (E : List (String × String)) :
    On.EnvSpec (run cmd) srv E fun _ srv' E' => Recorded E E' srv.tag srv'.tag := by
  unfold run
  refine On.EnvSpec.self_bind ?_
  split
  · exact On.EnvSpec.throw _ (Recorded.refl _ _)
  · rename_i s hs
    rw [hspy, spy_runCommand, tag_of_session hs]
    refine answer_attempt_bind fun r hr => ?_
    cases hb : b E.length <;> rw [hb] at hr <;> subst hr
    · -- refused: the session is dropped
      refine On.EnvSpec.update_bind _ (On.EnvSpec.throw _ ?_)
      exact Recorded.single (by simp [ToolCall.step, tag]) fun h => by cases h
    · refine On.EnvSpec.update _ ?_
      exact Recorded.single (by simp [ToolCall.step, tag]) fun h => by cases h

theorem forM_run_trace (cmds : List String) (srv : Server) (hspy : srv.tool = spy b)
    (E : List (String × String)) :
    On.EnvSpec (cmds.forM run) srv E fun _ srv' E' => Recorded E E' srv.tag srv'.tag := by
  induction cmds generalizing srv E with
  | nil => exact On.EnvSpec.pure () (Recorded.refl _ _)
  | cons cmd cmds ih =>
    simp only [List.forM]
    refine On.EnvSpec.bind ((run_trace cmd srv hspy E).and_spec (run_spec cmd srv)) ?_ ?_
    swap
    · rintro e srv₁ E₁ ⟨hrec, -⟩
      exact hrec
    rintro _ srv₁ E₁ ⟨hrec, hsame, -⟩
    exact (ih srv₁ (hsame.tool.trans hspy) E₁).conseq fun _ _ _ h => hrec.trans h

theorem close_trace (srv : Server) (hspy : srv.tool = spy b) (E : List (String × String)) :
    On.EnvSpec close srv E fun _ srv' E' => Recorded E E' srv.tag srv'.tag := by
  unfold close
  refine On.EnvSpec.self_bind ?_
  split
  · exact On.EnvSpec.pure () (Recorded.refl _ _)
  · rename_i s hs
    rw [hspy, tag_of_session hs]
    refine On.EnvSpec.update_bind _ (On.EnvSpec.world (closeWith_spy b s E) fun _ E' hE' => ?_)
    subst hE'
    exact Recorded.single (by simp [ToolCall.step, tag]) fun h => by cases h

/-- Opening on a server without a session is one call, named after its position, and the commands
of the recipe in the session when the tool opened it. -/
theorem openNew_trace (arg : String) (srv : Server) (hspy : srv.tool = spy b)
    (hnone : srv.session = none) (E : List (String × String)) :
    On.EnvSpec (openNew arg) srv E fun _ srv' E' => Recorded E E' none srv'.tag := by
  have htag := tag_of_none hnone
  unfold openNew
  rcases hparse : Session.ofArg arg with e | s
  · refine On.EnvSpec.throw_bind _ ?_
    rw [htag]
    exact Recorded.refl _ _
  · dsimp only
    rw [pure_bind]
    refine On.EnvSpec.self_bind ?_
    rw [hspy, spy_openSession]
    refine answer_attempt_bind fun r hr => ?_
    have hopens (ok : Bool) : Recorded E ((⟨.openSession, toString E.length, ok⟩ : ToolCall).entry :: E)
        none (if ok then some (toString E.length) else none) :=
      Recorded.single (by simp [ToolCall.step]) fun _ => rfl
    cases hb : b E.length <;> rw [hb] at hr <;> subst hr
    · -- the tool refused: nothing is live
      refine On.EnvSpec.throw _ ?_
      rw [htag]
      exact hopens false
    · refine On.EnvSpec.update_bind _ ?_
      exact (forM_run_trace _ { srv with session := some { s with script := [toString E.length] } } hspy _).conseq
        fun _ _ _ h => (hopens true).trans h

theorem start_trace (arg : String) (srv : Server) (hspy : srv.tool = spy b)
    (E : List (String × String)) :
    On.EnvSpec (start arg) srv E fun _ srv' E' => Recorded E E' srv.tag srv'.tag := by
  -- whatever the close did, nothing is live when the new session is opened
  have hopen : ∀ E₁, Recorded E E₁ srv.tag none → On.EnvSpec (openNew arg) { srv with session := none } E₁
      fun _ srv' E' => Recorded E E' srv.tag srv'.tag :=
    fun E₁ h₁ => (openNew_trace arg { srv with session := none } hspy rfl E₁).conseq
      fun _ _ _ h => h₁.trans h
  unfold start
  refine On.EnvSpec.self_bind ?_
  split
  · refine On.EnvSpec.attempt_bind ((close_trace srv hspy E).and_spec (close_spec srv)) ?_
    rintro r srv₁ E₁ ⟨hrec, rfl, -⟩
    rcases r with e | ⟨⟩
    · exact On.EnvSpec.keeps_bind (Act.keepsEnv_logLine _ _) (fun _ => hopen E₁ hrec) fun _ => hrec
    · exact hopen E₁ hrec
  · rename_i hnone
    simp only [Option.not_isSome_iff_eq_none] at hnone
    have h := hopen E (tag_of_none hnone ▸ Recorded.refl E none)
    rwa [← eq_with_session hnone] at h

/-- When serving ends, the open session is closed: nothing is live. -/
theorem finish_trace (srv : Server) (hspy : srv.tool = spy b) (E : List (String × String)) :
    On.EnvSpec finish srv E fun r srv' E' =>
      r = .ok () ∧ Recorded E E' srv.tag none ∧ srv'.session = none := by
  unfold finish
  refine On.EnvSpec.self_bind ?_
  split
  · refine On.EnvSpec.attempt_bind ((close_trace srv hspy E).and_spec (close_spec srv)) ?_
    rintro r srv₁ E₁ ⟨hrec, rfl, -⟩
    rcases r with e | ⟨⟩
    · exact On.EnvSpec.world ((Act.keepsEnv_logLine _ _).envSpec_quiet (logLine_quiet _ _))
        fun _ _ h => ⟨h.1, h.2 ▸ hrec, rfl⟩
    · exact On.EnvSpec.pure () ⟨rfl, hrec, rfl⟩
  · rename_i hnone
    simp only [Option.not_isSome_iff_eq_none] at hnone
    exact On.EnvSpec.pure () ⟨rfl, tag_of_none hnone ▸ Recorded.refl E none, hnone⟩

theorem finish_then (srv : Server) (hspy : srv.tool = spy b) (E : List (String × String))
    (err : Option Error) :
    On.EnvSpec (finish >>= fun _ => pure ("", err)) srv E fun r srv' E' =>
      r = .ok ("", err) ∧ Recorded E E' srv.tag none ∧ srv'.session = none := by
  refine On.EnvSpec.bind (finish_trace srv hspy E) ?_ ?_
  · rintro _ srv' E' ⟨-, hrec, hs⟩
    exact On.EnvSpec.pure _ ⟨rfl, hrec, hs⟩
  · rintro e _ _ ⟨hr, -⟩
    cases hr

theorem handle_trace (f : Frame) (srv : Server) (hspy : srv.tool = spy b) (E : List (String × String)) :
    On.EnvSpec (handle f) srv E fun _ srv' E' => Recorded E E' srv.tag srv'.tag := by
  unfold handle
  refine On.EnvSpec.attempt_bind (R := fun _ srv' E' => Recorded E E' srv.tag srv'.tag) ?_
    fun r srv' E' hrec => ?_
  · rcases hop : f.op with _ | _ | _ | _ | _ | code <;> dsimp only
    · exact On.EnvSpec.throw _ (Recorded.refl _ _)
    · exact start_trace _ srv hspy E
    · exact run_trace _ srv hspy E
    · exact close_trace srv hspy E
    · exact On.EnvSpec.throw _ (Recorded.refl _ _)
    · exact On.EnvSpec.throw _ (Recorded.refl _ _)
  · rcases r with e | ⟨⟩
    · exact On.EnvSpec.keeps_bind (Act.keepsEnv_logLine _ _) (fun _ => On.EnvSpec.pure false hrec)
        fun _ => hrec
    · exact On.EnvSpec.pure true hrec

/-- The answers `oks` to the requests `fs`, each as `Serves` allows from the session the one
before left, the first from `s`. -/
inductive Answers : Option Session → List Frame → List Bool → Prop
  | nil (s : Option Session) : Answers s [] []
  | cons {s s' : Option Session} {f : Frame} {ok : Bool} {fs : List Frame} {oks : List Bool} :
    Serves f.op (Text.ofBytesLossy f.arg) s ok s' → Answers s' fs oks → Answers s (f :: fs) (ok :: oks)

theorem Answers.length_eq {s : Option Session} {fs : List Frame} {oks : List Bool}
    (h : Answers s fs oks) : oks.length = fs.length := by
  induction h with
  | nil => rfl
  | cons _ _ ih => simp [ih]

/-- Serving a stream that the fuel covers ends, with nothing live, having recorded calls that keep
the discipline and answered every request up to the first `$bye$` as `Serves` allows. -/
theorem serveWithin_trace (fuel : Nat) (input : List UInt8) (hfuel : input.length < fuel)
    (srv : Server) (hspy : srv.tool = spy b) (E : List (String × String)) :
    On.EnvSpec (serveWithin fuel input) srv E fun r srv' E' =>
      Recorded E E' srv.tag none ∧ srv'.session = none ∧
        ∃ oks err, r = .ok (String.join (oks.map replyText), err) ∧
          Answers srv.session ((readFrames fuel input).1.takeWhile (·.op != .bye)) oks := by
  induction fuel generalizing input srv E with
  | zero => exact absurd hfuel (Nat.not_lt_zero _)
  | succ fuel ih =>
    -- serving stops at a read error or at `$bye$`, answering nothing more
    have hstop (err : Option Error) (hfs : (readFrames (fuel + 1) input).1.takeWhile (·.op != .bye) = []) :
        On.EnvSpec (finish >>= fun _ => pure ("", err)) srv E fun r srv' E' =>
          Recorded E E' srv.tag none ∧ srv'.session = none ∧
            ∃ oks err, r = .ok (String.join (oks.map replyText), err) ∧
              Answers srv.session ((readFrames (fuel + 1) input).1.takeWhile (·.op != .bye)) oks := by
      refine (finish_then srv hspy E err).conseq ?_
      rintro r srv' E' ⟨rfl, hrec, hs⟩
      exact ⟨hrec, hs, [], err, rfl, hfs ▸ Answers.nil _⟩
    rw [serveWithin]
    split
    · rename_i e he
      have hread : (readFrames (fuel + 1) input).1.takeWhile (·.op != .bye) = [] := by
        simp [readFrames, he]
      split_ifs
      · exact hstop none hread
      · exact hstop _ hread
    · rename_i f rest hf
      have hread : (readFrames (fuel + 1) input).1 = f :: (readFrames fuel rest).1 := by
        simp [readFrames, hf]
      split
      · rename_i hbye
        exact hstop none (by rw [hread, List.takeWhile_cons_of_neg (by simp [bne, hbye])])
      · rename_i hbye
        have hrest : rest.length < fuel := by
          have hc := nextFrame_consumes hf
          have h5 : 0 < opcodeLength := by decide
          omega
        -- the request is answered, then the rest of the stream is served
        refine On.EnvSpec.bind ((handle_trace f srv hspy E).and_spec (handle_spec f srv)) ?_ ?_
        swap
        · rintro e _ _ ⟨-, -, _, hok, -⟩
          cases hok
        rintro ok srv₁ E₁ ⟨hrec, hsame, ok', hok, hserves⟩
        injection hok with hok
        subst hok
        refine On.EnvSpec.bind (ih rest hrest srv₁ (hsame.tool.trans hspy) E₁) ?_ ?_
        swap
        · rintro e _ _ ⟨-, -, _, _, hp, -⟩
          cases hp
        rintro p srv' E' ⟨hrec', hs', oks, err, hp, hans⟩
        injection hp with hp
        subst hp
        refine On.EnvSpec.pure _ ⟨hrec.trans hrec', hs', ok :: oks, err, by simp [String.join_cons], ?_⟩
        rw [hread, List.takeWhile_cons_of_pos (by simpa [bne] using hbye)]
        exact Answers.cons hserves hans

end Server

end Spy

theorem bytesOf_append (a b : String) : Text.bytesOf (a ++ b) = Text.bytesOf a ++ Text.bytesOf b := by
  simp [Text.bytesOf_eq_flatMap, String.toList_append]

theorem bytesOf_replies (oks : List Bool) :
    (Text.bytesOf (String.join (oks.map replyText))).length = 5 * oks.length := by
  induction oks with
  | nil => simp
  | cons ok oks ih =>
    have hreply : (Text.bytesOf (replyText ok)).length = 5 := by
      cases ok <;> simp [Text.bytesOf_eq_flatMap, replyText, replyOk, replyErr, Char.utf8Size]
    rw [List.map_cons, String.join_cons, bytesOf_append, List.length_append, hreply, ih,
      List.length_cons]
    omega

/-- The requests serving answers: the frames read from the stream, up to the first `$bye$`. -/
def requestsOf (input : List UInt8) : List Frame :=
  (readFrames (input.length + 1) input).1.takeWhile (·.op != .bye)

/-- Serving any input stream, in any world, with a tool that does or refuses each call as `b` says,
ends without a defect and returns replies. The calls it made on the tool keep the session
discipline: every command and close concerns the session opened last, with no command refused and
no close since; no session is closed twice; and when serving ends, nothing is open and each
session the tool opened and never refused a command in has been closed exactly once. The replies
are five bytes to each request up to the first `$bye$`, telling as `Serves` allows whether it
succeeded. -/
theorem served_sessions_keep_discipline (b : Nat → Bool) (liberty : String) (useConstraints : Bool)
    (input : List UInt8) (w : World) :
    ∃ replies err srv' w', (Server.serve input).run' ({ tool := spy b, liberty, useConstraints }, w) =
        .ok (.ok (replies, err), srv', w') ∧
      ∃ calls : List ToolCall, w'.env = (calls.map ToolCall.entry).reverse ++ w.env ∧
        (∀ before c after, calls = before ++ c :: after → c.ask ≠ .openSession →
          LiveAfter before c.session) ∧
        (∀ t, calls.countP (ToolCall.closes t) ≤ 1) ∧
        (∀ t, ⟨.openSession, t, true⟩ ∈ calls → ⟨.runCommand, t, false⟩ ∉ calls →
          calls.countP (ToolCall.closes t) = 1) ∧
        srv'.session = none ∧
        ∃ oks : List Bool, replies = String.join (oks.map replyText) ∧
          (Text.bytesOf replies).length = 5 * (requestsOf input).length ∧
          Server.Answers none (requestsOf input) oks := by
  obtain ⟨r, srv', w', hrun, ⟨calls, henv, htrace⟩, hs, oks, err, hr, hans⟩ :=
    Server.serveWithin_trace (input.length + 1) input (Nat.lt_succ_self _) { tool := spy b, liberty, useConstraints }
      rfl w.env w rfl
  subst hr
  refine ⟨_, err, srv', w', hrun, calls, henv, fun before c after hc hask => ?_, htrace.closes_le_one,
    fun t => htrace.closes_eq_one, hs, oks, rfl, ?_, hans⟩
  · exact (hc ▸ htrace.disciplined).concerns_live hask
  · rw [bytesOf_replies, hans.length_eq]
    rfl

end BitSynth.Abc
