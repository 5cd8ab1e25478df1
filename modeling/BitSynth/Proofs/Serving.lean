import Mathlib
import BitSynth.Proofs.Triple
import BitSynth.Abc.Server

namespace BitSynth

theorem logLine_quiet (level : Level) (message : String) : On.Quiet (logLine level message) := by
  intro w e w' h
  unfold logLine at h
  rw [Stateful.run'_get_bind] at h
  dsimp only at h
  split at h <;> cases h

namespace Abc

open On

/-- What one request can do to the server's session, whatever the tool does. Opening gives a
session parsed from the argument, or none; a command keeps the session (its queue aside) or ends
it, and fails outside one; closing always ends it, and cannot fail without one; any other request
fails and changes nothing. -/
def Serves (op : Op) (arg : String) (before : Option Session) (ok : Bool) (after : Option Session) :
    Prop :=
  match op with
  | .newSession =>
    if ok then ∃ s script, Session.ofArg arg = .ok s ∧ after = some { s with script } else after = none
  | .command =>
    match before with
    | none => ok = false ∧ after = none
    | some s => if ok then ∃ script, after = some { s with script } else after = none
  | .endSession => after = none ∧ (before = none → ok = true)
  | _ => ok = false ∧ after = before

namespace Server

/-- `srv'` has the tool, cell library and constraints switch of `srv`, with perhaps another session. -/
def SameSetup (srv srv' : Server) : Prop := srv' = { srv with session := srv'.session }

theorem SameSetup.refl (srv : Server) : SameSetup srv srv := rfl

theorem sameSetup_session (srv : Server) (s : Option Session) : SameSetup srv { srv with session := s } :=
  rfl

theorem SameSetup.trans {srv srv' srv'' : Server} (h₁ : SameSetup srv srv') (h₂ : SameSetup srv' srv'') :
    SameSetup srv srv'' := by
  unfold SameSetup at *
  rw [h₂, h₁]

theorem eq_with_session {srv : Server} {s : Option Session} (h : srv.session = s) :
    srv = { srv with session := s } := by
  cases srv
  cases h
  rfl

theorem close_spec (srv : Server) :
    Spec close srv fun r srv' =>
      srv' = { srv with session := none } ∧ (srv.session = none → r = .ok ()) := by
  unfold close
  refine Spec.self_bind ?_
  split
  · rename_i hnone
    exact Spec.pure () ⟨eq_with_session hnone, fun _ => rfl⟩
  · rename_i s hs
    exact Spec.update_bind _ (Spec.world fun r => ⟨rfl, fun h => by simp [hs] at h⟩)

/-- A command runs in the open session, keeping it or ending it; there is none to run it in
otherwise. -/
theorem run_spec (cmd : String) (srv : Server) :
    Spec (run cmd) srv fun r srv' => SameSetup srv srv' ∧ Serves .command cmd srv.session r.isOk srv'.session := by
  unfold run
  refine Spec.self_bind ?_
  split
  · rename_i hnone
    exact Spec.throw _ ⟨.refl srv, by simp [Serves, hnone, Except.isOk, Except.toBool]⟩
  · rename_i s hs
    refine Spec.world_attempt_bind fun v => ?_
    rcases v with e | script
    · exact Spec.update_bind _ (Spec.throw _ ⟨rfl, by simp [Serves, hs, Except.isOk, Except.toBool]⟩)
    · exact Spec.update _ ⟨rfl, by simp [Serves, hs, Except.isOk, Except.toBool]⟩

/-- A run of commands in an open session keeps it, its queue aside, or ends it with the first
that fails. -/
theorem forM_run_spec (cmds : List String) (srv : Server) {s : Session}
    (hs : srv.session = some s) :
    Spec (cmds.forM run) srv fun r srv' => SameSetup srv srv' ∧
      if r.isOk then ∃ script, srv'.session = some { s with script } else srv'.session = none := by
  induction cmds generalizing srv s with
  | nil => exact Spec.pure () ⟨.refl srv, s.script, by simp [hs]⟩
  | cons cmd cmds ih =>
    simp only [List.forM]
    refine Spec.bind (run_spec cmd srv) (fun _ srv₁ ⟨hf₁, hserve⟩ => ?_) (fun e srv₁ ⟨hf₁, hserve⟩ => ?_)
    · -- the command kept the session: the rest runs in it
      simp only [Serves, hs, Except.isOk, Except.toBool, if_true] at hserve
      obtain ⟨script, hs₁⟩ := hserve
      refine (ih srv₁ hs₁).conseq fun r srv' ⟨hf, hr⟩ => ⟨hf₁.trans hf, ?_⟩
      simpa using hr
    · simp only [Serves, hs, Except.isOk, Except.toBool] at hserve
      exact ⟨hf₁, by simpa [Except.isOk, Except.toBool] using hserve⟩

/-- Opening on a server without a session gives a session parsed from the argument, or none. -/
theorem openNew_spec (arg : String) (srv : Server) (hnone : srv.session = none) :
    Spec (openNew arg) srv fun r srv' => SameSetup srv srv' ∧
      Serves .newSession arg srv.session r.isOk srv'.session := by
  unfold openNew
  simp only [Serves]
  rcases hparse : Session.ofArg arg with e | s
  · exact Spec.throw_bind _ ⟨.refl srv, by simp [hnone, Except.isOk, Except.toBool]⟩
  · dsimp only
    rw [pure_bind]
    refine Spec.self_bind (Spec.world_attempt_bind fun v => ?_)
    rcases v with e | script
    · exact Spec.throw _ ⟨.refl srv, by simp [hnone, Except.isOk, Except.toBool]⟩
    · refine Spec.update_bind _ ?_
      refine (forM_run_spec _ _ rfl).conseq fun r srv' ⟨hf, hr⟩ => ⟨(sameSetup_session srv _).trans hf, ?_⟩
      by_cases hok : r.isOk <;> simp_all

/-- Opening ends any open session first, then opens as on a server without one. -/
theorem start_spec (arg : String) (srv : Server) :
    Spec (start arg) srv fun r srv' => SameSetup srv srv' ∧
      Serves .newSession arg srv.session r.isOk srv'.session := by
  -- whatever the close did, the session is gone when the new one is opened
  have hopen : Spec (openNew arg) { srv with session := none } fun r srv' => SameSetup srv srv' ∧
      Serves .newSession arg srv.session r.isOk srv'.session :=
    (openNew_spec arg _ rfl).conseq fun _ _ ⟨hf, hs⟩ => ⟨(sameSetup_session srv none).trans hf, hs⟩
  unfold start
  refine Spec.self_bind ?_
  split
  · refine Spec.attempt_bind (close_spec srv) fun r srv₁ ⟨hsrv₁, _⟩ => ?_
    subst hsrv₁
    rcases r with e | ⟨⟩
    · exact Spec.world_bind (fun _ => hopen) fun _ => ⟨sameSetup_session srv none, by simp [Serves, Except.isOk, Except.toBool]⟩
    · exact hopen
  · rename_i hnone
    simp only [Option.not_isSome_iff_eq_none] at hnone
    exact (eq_with_session hnone).symm ▸ hopen

/-- Every request is answered, as `Serves` allows. -/
theorem handle_spec (f : Abc.Frame) (srv : Server) :
    Spec (handle f) srv fun r srv' => SameSetup srv srv' ∧
      ∃ ok, r = .ok ok ∧ Serves f.op (Text.ofBytesLossy f.arg) srv.session ok srv'.session := by
  unfold handle
  refine Spec.attempt_bind (R := fun r srv' => SameSetup srv srv' ∧
    Serves f.op (Text.ofBytesLossy f.arg) srv.session r.isOk srv'.session) ?_ fun r srv' ⟨hf, hs⟩ => ?_
  · rcases hop : f.op with _ | _ | _ | _ | _ | code <;> dsimp only
    · exact Spec.throw _ ⟨.refl srv, by simp [Serves, Except.isOk, Except.toBool]⟩
    · exact start_spec _ srv
    · exact run_spec _ srv
    · refine (close_spec srv).conseq fun r srv' ⟨hsrv', hr⟩ => ⟨hsrv' ▸ sameSetup_session srv none, ?_⟩
      subst hsrv'
      exact ⟨rfl, fun h => by simp [hr h, Except.isOk, Except.toBool]⟩
    · exact Spec.throw _ ⟨.refl srv, by simp [Serves, Except.isOk, Except.toBool]⟩
    · exact Spec.throw _ ⟨.refl srv, by simp [Serves, Except.isOk, Except.toBool]⟩
  · rcases r with e | ⟨⟩
    · exact Spec.quiet_bind (logLine_quiet _ _) fun _ => Spec.pure false ⟨hf, false, rfl, hs⟩
    · exact Spec.pure true ⟨hf, true, rfl, hs⟩

end Server

end Abc

end BitSynth
