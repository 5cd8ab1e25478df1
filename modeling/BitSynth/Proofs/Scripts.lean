import Mathlib
import BitSynth.Proofs.Sessions

namespace BitSynth.Abc

open On

/-- A command the optimiser accepts: a blank one, or one whose first word is a known command. -/
def whitelisted (cmd : String) : Bool :=
  match Text.fields cmd with
  | [] => true
  | name :: _ => knownCommands.contains name

/-- The commands of a script as the optimiser reads it: line by line, each line cut at `;`. -/
def scriptCommands (text : String) : List String :=
  (Text.splitChar text '\n').flatMap (Text.splitChar · ';')

theorem foldlM_unit_eq_ok_iff {α ε : Type} (g : Unit → α → Except ε Unit) (xs : List α) :
    xs.foldlM g () = .ok () ↔ ∀ x ∈ xs, g () x = .ok () := by
  induction xs with
  | nil => exact ⟨fun _ x hx => absurd hx List.not_mem_nil, fun _ => rfl⟩
  | cons x xs ih =>
    rw [List.foldlM_cons, List.forall_mem_cons, ← ih]
    cases g () x with
    | error e => simp [bind, Except.bind]
    | ok u => simp [bind, Except.bind]

theorem checkCommands_eq_ok_iff (cmd : String) :
    checkCommands cmd = .ok () ↔ ∀ part ∈ Text.splitChar cmd ';', whitelisted part = true := by
  rw [checkCommands, foldlM_unit_eq_ok_iff]
  refine forall₂_congr fun part _ => ?_
  unfold whitelisted
  rcases Text.fields part with _ | ⟨name, rest⟩
  · simp
  · by_cases hk : name ∈ knownCommands <;> simp [hk]

theorem scriptText_eq (s : Session) :
    s.scriptText = (String.singleton '\n').intercalate (s.closingScript ++ [""]) := by
  have hlf : "\n" = String.singleton '\n' := by decide
  rw [Session.scriptText, String.intercalate_append_of_ne_nil (by simp [Session.closingScript])
    (by simp), hlf]
  simp

/-- The optimiser reads a closing script as the parts of each queued command, then the closing
lines. -/
theorem scriptCommands_scriptText {s : Session} (hq : ∀ cmd ∈ s.script, '\n' ∉ cmd.toList)
    (ho : '\n' ∉ s.output.toList) :
    scriptCommands s.scriptText =
      s.script.flatMap (Text.splitChar · ';') ++
        (Text.splitChar ("write_verilog " ++ s.output) ';' ++ ["print_io", "print_gates", ""]) := by
  have hlines : ∀ line ∈ s.closingScript ++ [""], '\n' ∉ line.toList := by
    intro line hline
    simp only [Session.closingScript, List.mem_append, List.mem_cons, List.not_mem_nil,
      or_false] at hline
    rcases hline with (hc | rfl | rfl | rfl) | rfl
    · exact hq line hc
    · simpa using ho
    all_goals decide
  have hclose : ∀ line ∈ ["print_io", "print_gates", ""], Text.splitChar line ';' = [line] := by
    intro line hline
    exact Text.splitChar_of_not_mem (by simp at hline; rcases hline with rfl | rfl | rfl <;> decide)
  rw [scriptCommands, scriptText_eq, Text.splitChar_intercalate hlines (by simp)]
  simp [Session.closingScript, hclose]

/-- A session whose closing script holds only whitelisted commands: every queued command passed
the tool's check and holds no line feed, and the output path is a word without `;`. -/
structure Session.Vetted (s : Session) : Prop where
  checked : ∀ cmd ∈ s.script, checkCommands cmd = .ok ()
  oneLine : ∀ cmd ∈ s.script, '\n' ∉ cmd.toList
  output : Text.IsWord s.output
  outputPlain : ';' ∉ s.output.toList

theorem whitelisted_writeNetlist {output : String} (h : Text.IsWord output) :
    whitelisted ("write_verilog " ++ output) = true := by
  have hwords : ∀ w ∈ ["write_verilog", output], Text.IsWord w := by
    intro w hw
    simp only [List.mem_cons, List.not_mem_nil, or_false] at hw
    rcases hw with rfl | rfl
    · exact ⟨by decide, by simp [Text.isSpace]⟩
    · exact h
  have hjoin : "write_verilog " ++ output = " ".intercalate ["write_verilog", output] := by simp
  rw [whitelisted, hjoin, Text.fields_intercalate hwords]
  exact (by decide : knownCommands.contains "write_verilog" = true)

theorem Session.Vetted.whitelisted {s : Session} (h : s.Vetted) :
    ∀ cmd ∈ scriptCommands s.scriptText, Abc.whitelisted cmd = true := by
  have hlf : '\n' ∉ s.output.toList := fun hm => by simpa [Text.isSpace] using h.output.2 '\n' hm
  have hsemi : ';' ∉ ("write_verilog " ++ s.output).toList := by simpa using h.outputPlain
  rw [scriptCommands_scriptText h.oneLine hlf, Text.splitChar_of_not_mem hsemi]
  intro cmd hcmd
  simp only [List.mem_append, List.mem_flatMap, List.mem_cons, List.not_mem_nil, or_false] at hcmd
  rcases hcmd with ⟨c, hc, hpart⟩ | rfl | rfl | rfl | rfl
  · exact (checkCommands_eq_ok_iff c).mp (h.checked c hc) cmd hpart
  · exact whitelisted_writeNetlist h.output
  all_goals decide

theorem recipe_oneLine : ∀ cmd ∈ recipe, '\n' ∉ cmd.toList := by decide

/-- A session opened from an argument without `;`: its netlists have no white space, its
constraints file none either, and its output path is a word without `;`. -/
theorem ofArg_files {arg : String} {s : Session} (h : Session.ofArg arg = .ok s)
    (harg : ';' ∉ arg.toList) :
    '\n' ∉ s.input.toList ∧ '\n' ∉ s.constraints.toList ∧ Text.IsWord s.output ∧
      ';' ∉ s.output.toList := by
  -- a field of the argument is a word without `;`
  have hfield : ∀ w ∈ Text.fields arg, Text.IsWord w ∧ ';' ∉ w.toList := fun w hw =>
    ⟨(Text.mem_fields hw).1, fun hm => harg ((Text.mem_fields hw).2 ';' hm)⟩
  have hspace : ∀ {w : String}, Text.IsWord w → '\n' ∉ w.toList := fun hw hm => by
    simpa [Text.isSpace] using hw.2 '\n' hm
  -- the constraints file is the input's stem with another suffix
  have hstem : ∀ {w : String}, '\n' ∉ w.toList → '\n' ∉ (Text.trimEnd w ".v" ++ ".sdc").toList := by
    intro w hw
    have htrim : ∀ c ∈ (Text.trimEnd w ".v").toList, c ∈ w.toList := by
      intro c hc
      unfold Text.trimEnd at hc
      split at hc
      · exact List.mem_of_mem_take (by simpa using hc)
      · exact hc
    simp only [String.toList_append, List.mem_append, not_or]
    exact ⟨fun hm => hw (htrim _ hm), by decide⟩
  unfold Session.ofArg at h
  split at h
  · rename_i name hname
    cases h
    have hn := hfield name (by simp [hname])
    have hin : '\n' ∉ (filePrefix ++ name ++ ".v").toList := by
      simp [filePrefix, hspace hn.1]
    refine ⟨hin, hstem hin, ⟨by simp [filePrefix], fun c hc => ?_⟩, ?_⟩
    · simp only [String.toList_append, List.mem_append] at hc
      rcases hc with ((hc | hc) | hc) | hc
      · revert c; simp [filePrefix, Text.isSpace]
      · exact hn.1.2 c hc
      · revert c; simp [mappedSuffix, Text.isSpace]
      · revert c; simp [Text.isSpace]
    · simp [filePrefix, mappedSuffix, hn.2]
  · rename_i name input output hfields
    cases h
    have hi := hfield input (by simp [hfields])
    have ho := hfield output (by simp [hfields])
    exact ⟨hspace hi.1, hstem (hspace hi.1), ho.1, ho.2⟩
  · cases h

/-- A request that cannot get a command past the check: a command without a line feed, a session
argument without `;`. -/
structure Frame.Plain (f : Frame) : Prop where
  command : f.op = .command → '\n' ∉ (Text.ofBytesLossy f.arg).toList
  session : f.op = .newSession → ';' ∉ (Text.ofBytesLossy f.arg).toList

/-- A server running the script tool of `binary`, with a cell library free of line feeds, whose
open session, if any, is vetted. -/
structure Server.Vetted (binary : String) (srv : Server) : Prop where
  tool : srv.tool = scriptTool binary
  liberty : '\n' ∉ srv.liberty.toList
  session : ∀ s ∈ srv.session, s.Vetted

theorem Spec.world_attempt_bind_of {σ α β : Type} {o : σ} {y : Act α}
    {f : Except Error α → On σ β} {P : Except Error α → Prop} {Q : Except Error β → σ → Prop}
    (hy : ∀ w r w', y.run' w = .ok (r, w') → P r) (hf : ∀ r, P r → Spec (f r) o Q) :
    Spec (On.world (Act.attempt y) >>= f) o Q := by
  intro w r o' w' hr
  rw [Stateful.run'_bind, run'_world, Act.run'_attempt] at hr
  rcases h : y.run' w with _ | ⟨r', w''⟩ <;> rw [h] at hr
  · cases hr
  · exact hf r' (hy w r' w'' h) w'' r o' w' hr

theorem scriptTool_runCommand_ok {binary cmd : String} {s : Session} {w w' : World}
    {r : Except Error (List String)} (h : ((scriptTool binary).runCommand s cmd).run' w = .ok (r, w'))
    (script : List String) (hr : r = .ok script) :
    script = s.script ++ [cmd] ∧ checkCommands cmd = .ok () := by
  subst hr
  simp only [scriptTool] at h
  rcases hc : checkCommands cmd with e | ⟨⟩ <;> rw [hc] at h
  · simp at h
  · simp only [Stateful.run'_pure, Except.ok.injEq, Prod.mk.injEq] at h
    exact ⟨h.1.symm, rfl⟩

theorem scriptTool_openSession_ok {binary : String} {s : Session} {w w' : World}
    {r : Except Error (List String)} (h : ((scriptTool binary).openSession s).run' w = .ok (r, w'))
    (script : List String) (hr : r = .ok script) : script = [] := by
  subst hr
  change (do openLog s; pure [] : Act (List String)).run' w = _ at h
  rw [Stateful.run'_bind] at h
  rcases hl : (openLog s).run' w with _ | ⟨_ | ⟨⟩, w₁⟩ <;> rw [hl] at h
  · cases h
  · cases h
  · simp only [Stateful.run'_pure, Except.ok.injEq, Prod.mk.injEq] at h
    exact h.1.symm

namespace Server

variable {binary : String}

/-- A command without a line feed keeps a vetted server vetted: the tool queues it only when it
passes the check, and a refused command ends the session. -/
theorem run_vetted {cmd : String} {srv : Server} (hv : srv.Vetted binary) (hcmd : '\n' ∉ cmd.toList) :
    Spec (run cmd) srv fun _ srv' => srv'.Vetted binary := by
  unfold run
  refine Spec.self_bind ?_
  split
  · exact Spec.throw _ hv
  · rename_i s hs
    have hsv : s.Vetted := hv.session s hs
    rw [hv.tool]
    refine Spec.world_attempt_bind_of (fun _ _ _ h => scriptTool_runCommand_ok h) fun r hr => ?_
    rcases r with e | script
    · exact Spec.update_bind _ (Spec.throw _ ⟨hv.tool, hv.liberty, by simp⟩)
    · obtain ⟨rfl, hc⟩ := hr script rfl
      refine Spec.update _ ⟨hv.tool, hv.liberty, ?_⟩
      simp only [Option.mem_def, Option.some.injEq, forall_eq']
      refine ⟨fun c hc' => ?_, fun c hc' => ?_, hsv.output, hsv.outputPlain⟩
      · rcases List.mem_append.mp hc' with hc' | hc'
        · exact hsv.checked c hc'
        · exact (List.mem_singleton.mp hc') ▸ hc
      · rcases List.mem_append.mp hc' with hc' | hc'
        · exact hsv.oneLine c hc'
        · exact (List.mem_singleton.mp hc') ▸ hcmd

theorem forM_run_vetted (cmds : List String) (hcmds : ∀ cmd ∈ cmds, '\n' ∉ cmd.toList)
    {srv : Server} (hv : srv.Vetted binary) :
    Spec (cmds.forM run) srv fun _ srv' => srv'.Vetted binary := by
  induction cmds generalizing srv with
  | nil => exact Spec.pure () hv
  | cons cmd cmds ih =>
    simp only [List.forM]
    exact Spec.bind (run_vetted hv (hcmds cmd List.mem_cons_self))
      (fun _ _ h₁ => ih (fun c hc => hcmds c (List.mem_cons_of_mem cmd hc)) h₁) fun _ _ h => h

theorem close_vetted {srv : Server} (hv : srv.Vetted binary) :
    Spec close srv fun _ srv' => srv'.Vetted binary :=
  (close_spec srv).conseq fun _ _ ⟨hsrv', _⟩ => hsrv' ▸ ⟨hv.tool, hv.liberty, by simp⟩

/-- Opening from an argument without `;` keeps a vetted server without a session vetted: the
session starts with nothing queued, and the reading steps and the recipe hold no line feed. -/
theorem openNew_vetted {arg : String} {srv : Server} (hv : srv.Vetted binary)
    (harg : ';' ∉ arg.toList) : Spec (openNew arg) srv fun _ srv' => srv'.Vetted binary := by
  unfold openNew
  rcases hparse : Session.ofArg arg with e | s
  · exact Spec.throw_bind _ hv
  · obtain ⟨hin, hconstr, hout, hplain⟩ := ofArg_files hparse harg
    dsimp only
    rw [pure_bind]
    refine Spec.self_bind ?_
    rw [hv.tool]
    refine Spec.world_attempt_bind_of (fun _ _ _ h => scriptTool_openSession_ok h) fun r hr => ?_
    rcases r with e | script
    · exact Spec.throw _ hv
    · obtain rfl := hr script rfl
      have hsteps : ∀ step ∈ ["%read " ++ s.input ++ "; %blast; &put", "read_lib -v " ++ srv.liberty] ++
          recipe ++ (if srv.useConstraints then ["read_constr " ++ s.constraints] else []),
          '\n' ∉ step.toList := by
        intro step hstep
        simp only [List.mem_append, List.mem_cons, List.not_mem_nil, or_false] at hstep
        rcases hstep with ((rfl | rfl) | hr) | hc
        · simpa using hin
        · simpa using hv.liberty
        · exact recipe_oneLine step hr
        · split at hc
          · rw [List.mem_singleton.mp hc]
            simpa using hconstr
          · simp at hc
      exact Spec.update_bind _ (forM_run_vetted _ hsteps ⟨hv.tool, hv.liberty, by
        simpa using (⟨by simp, by simp, hout, hplain⟩ : Session.Vetted { s with script := [] })⟩)

theorem start_vetted {arg : String} {srv : Server} (hv : srv.Vetted binary)
    (harg : ';' ∉ arg.toList) : Spec (start arg) srv fun _ srv' => srv'.Vetted binary := by
  -- whatever the close did, the session is gone when the new one is opened
  have hopen : Spec (openNew arg) { srv with session := none } fun _ srv' => srv'.Vetted binary :=
    openNew_vetted ⟨hv.tool, hv.liberty, by simp⟩ harg
  unfold start
  refine Spec.self_bind ?_
  split
  · refine Spec.attempt_bind (close_spec srv) fun r srv₁ ⟨hsrv₁, _⟩ => ?_
    subst hsrv₁
    rcases r with e | ⟨⟩
    · exact Spec.world_bind (fun _ => hopen) fun _ => ⟨hv.tool, hv.liberty, by simp⟩
    · exact hopen
  · exact openNew_vetted hv harg

/-- A plain request keeps a vetted server vetted. -/
theorem handle_vetted {f : Frame} (hf : f.Plain) {srv : Server} (hv : srv.Vetted binary) :
    Spec (handle f) srv fun _ srv' => srv'.Vetted binary := by
  unfold handle
  refine Spec.attempt_bind (R := fun _ srv' => srv'.Vetted binary) ?_ fun r srv' h => ?_
  · rcases hop : f.op with _ | _ | _ | _ | _ | code <;> dsimp only
    · exact Spec.throw _ hv
    · exact start_vetted hv (hf.session hop)
    · exact run_vetted hv (hf.command hop)
    · exact close_vetted hv
    · exact Spec.throw _ hv
    · exact Spec.throw _ hv
  · rcases r with e | ⟨⟩
    · exact Spec.quiet_bind (logLine_quiet _ _) fun _ => Spec.pure false h
    · exact Spec.pure true h

theorem mapM_handle_vetted (fs : List Frame) (hfs : ∀ f ∈ fs, f.Plain) {srv : Server}
    (hv : srv.Vetted binary) : Spec (fs.mapM handle) srv fun _ srv' => srv'.Vetted binary := by
  induction fs generalizing srv with
  | nil => exact Spec.pure [] hv
  | cons f fs ih =>
    rw [List.mapM_cons]
    refine Spec.bind (handle_vetted (hfs f List.mem_cons_self) hv) (fun _ _ h₁ => ?_) fun _ _ h => h
    exact Spec.bind (ih (fun g hg => hfs g (List.mem_cons_of_mem f hg)) h₁)
      (fun _ _ h₂ => Spec.pure _ h₂) fun _ _ h => h

end Server

/-- A script server hands the optimiser only known commands. Whatever requests it serves, as long
as its cell library holds no line feed, no command request holds one and no session request holds
a `;`, every session it holds closes through the script tool, and every command of the script that
closing writes and runs is blank or starts with a known command. -/
theorem closing_scripts_whitelisted (binary liberty : String) (useConstraints : Bool)
    (fs : List Frame) (hlib : '\n' ∉ liberty.toList) (hfs : ∀ f ∈ fs, f.Plain) :
    Spec (fs.mapM Server.handle) (Server.script binary liberty useConstraints) fun _ srv =>
      srv.tool = scriptTool binary ∧
        ∀ s ∈ srv.session, ∀ cmd ∈ scriptCommands s.scriptText, whitelisted cmd = true :=
  (Server.mapM_handle_vetted fs hfs ⟨rfl, hlib, by simp [Server.script]⟩).conseq
    fun _ _ hv => ⟨hv.tool, fun s hs => (hv.session s hs).whitelisted⟩

/-- A session opened and given one known command on the script server. -/
theorem known_command_scripts_whitelisted :
    '\n' ∉ "cells.lib".toList ∧
      (∀ f ∈ [requestFrame .newSession "blk in.v out.v", requestFrame .command "balance"], f.Plain) ∧
      Spec ([requestFrame .newSession "blk in.v out.v", requestFrame .command "balance"].mapM
          Server.handle) (Server.script "abc" "cells.lib" false) fun _ srv =>
        srv.tool = scriptTool "abc" ∧
          ∀ s ∈ srv.session, ∀ cmd ∈ scriptCommands s.scriptText, whitelisted cmd = true := by
  have hlib : '\n' ∉ "cells.lib".toList := by decide
  have hfs : ∀ f ∈ [requestFrame .newSession "blk in.v out.v", requestFrame .command "balance"],
      f.Plain := by
    intro f hf
    simp only [List.mem_cons, List.not_mem_nil, or_false] at hf
    rcases hf with rfl | rfl
    · constructor
      · intro h; cases h
      · intro _; simp only [requestFrame, Text.ofBytesLossy_bytesOf]; decide
    · constructor
      · intro _; simp only [requestFrame, Text.ofBytesLossy_bytesOf]; decide
      · intro h; cases h
  exact ⟨hlib, hfs, closing_scripts_whitelisted "abc" "cells.lib" false _ hlib hfs⟩

/-- The check reads a command with a line feed as one line: known commands, then `foo` on a
second line, pass it, the script server queues it, and the closing script that the optimiser
reads holds the command `foo`, which is not known. -/
theorem line_feed_smuggles_command :
    checkCommands "balance\nfoo" = .ok () ∧ whitelisted "foo" = false ∧
      ∃ r srv w, ([requestFrame .newSession "blk in.v out.v", requestFrame .command "balance\nfoo"].mapM
          Server.handle).run' (Server.script "abc" "cells.lib" false, default) = .ok (r, srv, w) ∧
        ∃ s ∈ srv.session, "foo" ∈ scriptCommands s.scriptText := by
  -- the run itself, evaluated: the session the server holds at the end closes with `foo`
  have hrun : (([requestFrame .newSession "blk in.v out.v", requestFrame .command "balance\nfoo"].mapM
      Server.handle).run' (Server.script "abc" "cells.lib" false, default)).toOption.bind
        (fun p => p.2.1.session.map fun s => (scriptCommands s.scriptText).contains "foo") =
      some true := by
    decide +kernel
  refine ⟨(checkCommands_eq_ok_iff _).mpr (by decide +kernel), by decide +kernel, ?_⟩
  rcases hout : ([requestFrame .newSession "blk in.v out.v", requestFrame .command "balance\nfoo"].mapM
      Server.handle).run' (Server.script "abc" "cells.lib" false, default) with f | ⟨r, srv, w⟩
  · rw [hout] at hrun
    cases hrun
  rw [hout] at hrun
  rcases hs : srv.session with _ | s
  · simp [Except.toOption, hs] at hrun
  · simp only [Except.toOption, Option.bind_some, hs, Option.map_some, Option.some.injEq,
      List.contains_iff_mem] at hrun
    exact ⟨r, srv, w, rfl, s, by simp [hs], hrun⟩

end BitSynth.Abc
