import Mathlib
import BitSynth.Proofs.Directories
import BitSynth.Pipeline.Synthesizer

namespace BitSynth

open Stateful

section Loops

variable {σ α β : Type}

/-- A loop over a list keeps an invariant of the items done, and an error that ends it satisfies
`E`: each item, from a state where the invariant holds of the items before it, goes on to the next
with the invariant holding of the items up to it, or ends with an error satisfying `E`. -/
theorem Stateful.Post.forIn_or_error (xs : List α) (body : α → β → Stateful σ (ForInStep β))
    (I : List α → β → σ → Prop) (E : Error → σ → Prop)
    (hstep : ∀ pre a rest, xs = pre ++ a :: rest → ∀ b s, I pre b s →
      Post (body a b) s fun r s' =>
        (∀ v, r = .ok v → ∃ b', v = .yield b' ∧ I (pre ++ [a]) b' s') ∧ ∀ e, r = .error e → E e s')
    {b : β} {s : σ} (h0 : I [] b s) :
    Post (ForIn.forIn xs b body) s fun r s' => (∀ v, r = .ok v → I xs v s') ∧ ∀ e, r = .error e → E e s' := by
  -- the loop runs over what is left of the list, with the items done as a prefix
  suffices h : ∀ rest pre b s, xs = pre ++ rest → I pre b s →
      Post (ForIn.forIn rest b body) s fun r s' => (∀ v, r = .ok v → I xs v s') ∧ ∀ e, r = .error e → E e s' from
    h xs [] b s rfl h0
  intro rest
  induction rest with
  | nil =>
    intro pre b s hxs hI
    rw [List.forIn_nil]
    refine Post.pure b ⟨fun v hv => ?_, fun e he => by cases he⟩
    cases hv
    simpa [hxs] using hI
  | cons a rest ih =>
    intro pre b s hxs hI
    rw [List.forIn_cons]
    refine Post.bind (hstep pre a rest hxs b s hI) ?_ fun e s' h => ⟨fun v hv => (by cases hv), fun e' he => ?_⟩
    · intro v s' hv
      obtain ⟨b', rfl, hI'⟩ := hv.1 v rfl
      exact ih (pre ++ [a]) b' s' (by simp [hxs]) hI'
    · cases he
      exact h.2 e rfl

theorem Stateful.Post.pure_yield {I : β → σ → Prop} {E : Error → σ → Prop} {b : β} {s : σ} (h : I b s) :
    Post (Pure.pure (ForInStep.yield b)) s fun r s' =>
      (∀ v, r = .ok v → ∃ b', v = .yield b' ∧ I b' s') ∧ ∀ e, r = .error e → E e s' :=
  Post.pure _ ⟨fun v hv => by cases hv; exact ⟨b, rfl, h⟩, fun e he => by cases he⟩

end Loops

namespace On

variable {σ τ α β : Type}

theorem Post.attempt_bind {x : On σ α} {f : Except Error α → On σ β} {s : σ × World}
    {R : Except Error α → σ × World → Prop} {Q : Except Error β → σ × World → Prop}
    (hx : Post x s R) (hf : ∀ r s', R r s' → Post (f r) s' Q) : Post (On.attempt x >>= f) s Q := by
  intro r s' hr
  rw [run'_bind] at hr
  simp only [On.attempt, run'_catchAll] at hr
  rcases hx₁ : x.run' s with _ | ⟨r₁, s₁⟩ <;> rw [hx₁] at hr
  · cases hr
  · exact hf r₁ s₁ (hx _ _ hx₁) r s' hr

theorem Post.focus {part : σ → τ} {put : σ → τ → σ} {x : On τ α} {o : σ} {w : World}
    {R : Except Error α → τ × World → Prop} (hx : Post x (part o, w) R) :
    Post (On.focus part put x) (o, w) fun r s' => ∃ t, s'.1 = put o t ∧ R r (t, s'.2) := by
  intro r s' hr
  simp only [run', On.focus, ExceptT.run_mk, StateT.run] at hr
  rcases hx₁ : ExceptT.run x (part o, w) with _ | ⟨r₁, t, w₁⟩ <;> rw [hx₁] at hr
  · cases hr
  · cases hr
    exact ⟨t, rfl, hx _ _ hx₁⟩

end On

namespace Act

theorem writeFile_post (p data : String) (w : World) :
    Post (writeFile p data) w fun _ w' => w' = w ∨ ∃ d, w.disk.write p data = .ok d ∧ w' = { w with disk := d } := by
  intro r w' hr
  unfold writeFile Act.disk at hr
  rw [run'_get_bind] at hr
  rcases hd : w.disk.write p data with e | d <;> simp only [hd, Except.map] at hr <;> cases hr
  · exact .inl rfl
  · exact .inr ⟨d, rfl, rfl⟩

theorem modify_post (g : World → World) (w : World) :
    Post (modify g) w fun r w' => r = .ok ⟨⟩ ∧ w' = g w := by
  intro r w' hr
  cases hr
  exact ⟨rfl, rfl⟩

theorem attempt_lift_post {α : Type} (g : Guarded α) (w : World) :
    Post (Act.attempt g.lift) w fun r w' => w' = w ∧ ∃ v, r = .ok v := by
  intro r w' hr
  rw [run'_attempt, run'_lift] at hr
  rcases hg : g.run with f | x <;> rw [hg] at hr <;> cases hr
  exact ⟨rfl, _, rfl⟩

end Act

namespace Disk

theorem write_eq_ok {d d' : Disk} {p data : String} (h : d.write p data = .ok d') :
    ∃ r, d.lookup p = .ok r ∧ r.map Item.isDir ≠ some true ∧ d' = d.put (d.absolute p) (.file data) := by
  unfold write at h
  rcases ho : d.openWrite p true with e | old <;> rw [ho] at h <;> cases h
  obtain ⟨r, hl, hr, -⟩ := openWrite_eq_ok ho
  exact ⟨r, hl, hr, rfl⟩

end Disk

namespace Backend.Ops

variable {β : Type}

/-- What a synthesis asks of the operations of a backend on a job: none makes a directory;
mapping changes the environment by `R` and metrics leave it alone; cleaning up changes it by `C`
and never fails, as a backend only logs the failures of its cleanup. -/
structure Framed (ops : Backend.Ops β) (job : Backend.Job)
    (R C : List (String × String) → List (String × String)) : Prop where
  run : ∀ b w, Post (ops.run job) (b, w) fun _ s => Disk.NoNewDirs w.disk s.2.disk ∧ s.2.env = R w.env
  metric : ∀ b k, Act.Tidy (ops.metric b job k)
  cleanup : ∀ b w, Post (ops.cleanup b job) w fun r w' =>
    r = .ok () ∧ Disk.NoNewDirs w.disk w'.disk ∧ w'.env = C w.env

/-- Operations that leave the environment alone and make no directory, with a cleanup that never
fails. -/
structure Tidy (ops : Backend.Ops β) : Prop where
  run : ∀ job b w, Post (ops.run job) (b, w) fun _ s => World.Tidy w s.2
  metric : ∀ b job k, Act.Tidy (ops.metric b job k)
  cleanup : ∀ b job w, Post (ops.cleanup b job) w fun r w' => r = .ok () ∧ World.Tidy w w'

/-- Notes a call of a backend, with the source of its job, at the head of the environment. -/
def note (call : String) (job : Backend.Job) : Act Unit :=
  modify fun w => { w with env := (call, job.input) :: w.env }

/-- The operations of `ops`, each mapping and each cleanup noted as it starts. -/
def noted (ops : Backend.Ops β) : Backend.Ops β :=
  { ops with
    run := fun job => do On.world (note "run" job); ops.run job
    cleanup := fun b job => do note "cleanup" job; ops.cleanup b job }

theorem Tidy.framed_noted {ops : Backend.Ops β} (h : ops.Tidy) (job : Backend.Job) :
    ops.noted.Framed job (("run", job.input) :: ·) (("cleanup", job.input) :: ·) where
  run b w := by
    refine On.Post.world_bind (R := fun r w' => r = .ok () ∧ w' = { w with env := ("run", job.input) :: w.env })
      (fun r w' hr => by cases hr; exact ⟨rfl, rfl⟩) ?_ fun _ _ h => by cases h.1
    rintro ⟨⟩ w₁ ⟨-, rfl⟩
    exact (h.run job b _).conseq fun _ s hs => ⟨hs.2, hs.1⟩
  metric b k := h.metric b job k
  cleanup b w := Post.modify_bind _ ((h.cleanup b job _).conseq fun _ _ hs => ⟨hs.1, hs.2.2, hs.2.1⟩)

end Backend.Ops

namespace Pipeline

variable {β : Type}

/-- Neither work file of a job is there. -/
def Cleared (job : Backend.Job) (w : World) : Prop :=
  w.disk.present job.input = false ∧ w.disk.present job.output = false

/-- Writing a module changes the disk only at its path, makes no directory, and leaves either the
disk it found or a file at the path. -/
theorem writeModule_post (path module : String) (req : Request) (vectorize : Bool) (w : World) :
    Post (writeModule path module req vectorize) w fun _ w' => ∃ d, w' = { w with disk := d } ∧
      Disk.Agree (w.disk.absolute path) w.disk d ∧ Disk.NoNewDirs w.disk d ∧
        (d = w.disk ∨ ∃ t, d.lookup path = .ok (some (.file t))) := by
  unfold writeModule
  refine Post.bind (tryDisk_post _ w) (fun v w₁ h => ?_) fun e w₁ h => ?_
  · rcases h with ⟨a, d₁, hd₁, hv, rfl⟩ | ⟨e, -, hv, rfl⟩ <;> cases hv
    · -- the file was created empty; the module is emitted and written over it
      obtain ⟨r, hl, hr, rfl⟩ : ∃ r, w.disk.lookup path = .ok r ∧ r.map Item.isDir ≠ some true ∧
          d₁ = w.disk.put (w.disk.absolute path) (.file "") := by
        rcases hw : w.disk.write path "" with e | d <;> rw [hw] at hd₁ <;> cases hd₁
        exact Disk.write_eq_ok hw
      have hl₁ := Disk.lookup_put_file hl hr ""
      have hagree := Disk.agree_put w.disk (w.disk.absolute path) (.file "")
      have hdirs := Disk.noNewDirs_put_file w.disk (w.disk.absolute path) ""
      dsimp only
      refine Post.bind (Act.attempt_lift_post _ _) (fun r w₂ hw₂ => ?_) fun e w₂ h => by
        obtain ⟨-, v, hv⟩ := h
        cases hv
      obtain ⟨rfl, -⟩ := hw₂
      split
      · refine (Act.writeFile_post _ _ _).conseq fun _ w₃ h => ?_
        rcases h with rfl | ⟨d, hd, rfl⟩
        · exact ⟨_, rfl, hagree, hdirs, .inr ⟨_, hl₁⟩⟩
        · obtain ⟨r', hl', hr', rfl⟩ := Disk.write_eq_ok hd
          refine ⟨_, rfl, ?_, hdirs.trans (Disk.noNewDirs_put_file _ _ _), .inr ⟨_, Disk.lookup_put_file hl' hr' _⟩⟩
          -- the second write is at the same absolute path as the first
          simp only [Disk.absolute_put]
          exact hagree.trans (Disk.agree_put _ _ _)
      · exact Post.throw _ ⟨_, rfl, hagree, hdirs, .inr ⟨_, hl₁⟩⟩
    · -- the file could not be created: nothing was written
      exact Post.throw_bind _ ⟨_, rfl, Disk.Agree.refl _ _, Disk.NoNewDirs.refl _, .inl rfl⟩
  · rcases h with ⟨_, _, _, h, _⟩ | ⟨_, _, h, _⟩ <;> cases h

@[simp] theorem Outcome.cleanup_of_job_none {o : Outcome β} (h : o.job = none) : o.cleanup = pure o := by
  simp [Outcome.cleanup, h]

theorem Outcome.cleanup_of_keep {o : Outcome β} (h : o.keep = true) : o.cleanup = pure o := by
  unfold Outcome.cleanup
  split <;> simp [h]

/-- Cleaning up an outcome a second time does nothing: a cleanup that ends leaves an outcome whose
cleanup is `pure`, touching neither the backend nor the world. -/
theorem Outcome.cleanup_cleanup (o : Outcome β) (w : World) :
    Post o.cleanup w fun r _ => ∀ o', r = .ok o' → o'.cleanup = pure o' := by
  by_cases hk : o.keep = true
  · rw [Outcome.cleanup_of_keep hk]
    exact Post.pure o fun o' h => by cases h; exact Outcome.cleanup_of_keep hk
  -- otherwise the cleanup ends, if at all, with an outcome that holds no job
  suffices h : Post o.cleanup w fun r _ => ∀ o', r = .ok o' → o'.job = none from
    h.conseq fun r _ h o' hr => Outcome.cleanup_of_job_none (h o' hr)
  unfold Outcome.cleanup
  split
  · rename_i hj
    exact Post.pure o fun o' h => by cases h; exact hj
  rw [if_neg hk]
  have htrue : ∀ {γ : Type} (x : Act γ) (w : World), Post x w fun _ _ => True := fun _ _ _ _ _ => trivial
  exact Post.bind (htrue _ w) (fun _ w₁ _ => Post.bind (htrue _ w₁)
    (fun _ w₂ _ => Post.pure _ fun o' h => by cases h; rfl) fun _ _ _ _ h => by cases h)
    fun _ _ _ _ h => by cases h

/-- Cleaning up an outcome that holds a job and keeps no files runs the backend's cleanup and then
removes both work files: where neither was a directory, neither is left. -/
theorem Outcome.cleanup_clears {o : Outcome β} {job : Backend.Job} (hjob : o.job = some job)
    (hkeep : o.keep = false) {C : List (String × String) → List (String × String)}
    (hcl : ∀ w, Post (o.ops.cleanup o.backend job) w fun r w' =>
      r = .ok () ∧ Disk.NoNewDirs w.disk w'.disk ∧ w'.env = C w.env)
    {w : World} (hin : ¬ w.disk.HasDir job.input) (hout : ¬ w.disk.HasDir job.output) :
    Post o.cleanup w fun r w' => r = .ok { o with job := none } ∧ Cleared job w' ∧ w'.env = C w.env := by
  unfold Outcome.cleanup
  simp only [hjob, hkeep, Bool.false_eq_true, ↓reduceIte]
  refine Post.bind (hcl w) (fun _ w₁ h₁ => ?_) fun e _ h => by cases h.1
  obtain ⟨-, hdirs₁, henv₁⟩ := h₁
  have hclear : ∀ p ∈ [job.input, job.output], ¬ w₁.disk.HasDir p := by
    simp only [List.mem_cons, List.not_mem_nil, or_false, forall_eq_or_imp, forall_eq]
    exact ⟨hdirs₁.not_hasDir hin, hdirs₁.not_hasDir hout⟩
  -- the removals: each leaves nothing at its path and makes nothing anywhere
  refine Post.bind (Post.forIn_or_error _ _ (fun (done : List String) (_ : PUnit) (w' : World) =>
      Disk.NoNewDirs w₁.disk w'.disk ∧ w'.env = w₁.env ∧ ∀ p ∈ done, w'.disk.present p = false)
    (fun _ _ => False) ?_ ⟨Disk.NoNewDirs.refl _, rfl, by simp⟩) ?_ fun e _ h => (h.2 e rfl).elim
  · rintro pre a rest hxs ⟨⟩ w' ⟨hdirs, henv, hdone⟩
    have ha : ¬ w'.disk.HasDir a := hdirs.not_hasDir (hclear a (by simp [hxs]))
    -- a step that makes no path and no directory keeps what the removals have done
    have hkeep : ∀ w'' : World, Disk.NoNewPaths w'.disk w''.disk → Disk.NoNewDirs w'.disk w''.disk →
        w''.env = w'.env → w''.disk.present a = false →
        Disk.NoNewDirs w₁.disk w''.disk ∧ w''.env = w₁.env ∧ ∀ p ∈ pre ++ [a], w''.disk.present p = false := by
      intro w'' hpaths hdirs' henv' ha'
      refine ⟨hdirs.trans hdirs', henv'.trans henv, fun p hp => ?_⟩
      rcases List.mem_append.mp hp with hp | hp
      · cases hq : w''.disk.present p
        · rfl
        · simpa [hdone p hp] using hpaths p hq
      · simp only [List.mem_singleton] at hp
        exact hp ▸ ha'
    refine Post.bind (tryDisk_post _ w') (fun v w'' h => ?_) fun e _ h => ?_
    · rcases h with ⟨u, d, hd, hv, hw⟩ | ⟨e, hd, hv, hw⟩ <;> cases hv <;> subst w''
      · rcases hr : w'.disk.remove a with e | d' <;> rw [hr] at hd <;> cases hd
        obtain ⟨hpaths, hdirs'⟩ := Disk.noNewPaths_remove hr
        exact Post.pure_yield (hkeep _ hpaths hdirs' rfl (Disk.present_remove ha hr))
      · rcases hr : w'.disk.remove a with e' | d' <;> rw [hr] at hd <;> cases hd
        have ha' := Disk.present_of_remove_error ha hr
        dsimp only
        split
        · refine Post.bind (logLine_shape _ _ _) (fun _ w'' h => ?_) fun _ _ h => by cases h.1
          obtain ⟨-, henv', hshape⟩ := h
          exact Post.pure_yield
            (hkeep _ hshape.noNewPaths hshape.noNewDirs henv' ((hshape.present a).trans ha'))
        · exact Post.pure_yield (hkeep _ (Disk.NoNewPaths.refl _) (Disk.NoNewDirs.refl _) rfl ha')
    · rcases h with ⟨_, _, _, h, _⟩ | ⟨_, _, h, _⟩ <;> cases h
  · rintro ⟨⟩ w₂ hI
    obtain ⟨-, henv, hdone⟩ := hI.1 ⟨⟩ rfl
    exact Post.pure _ ⟨rfl, ⟨hdone _ (by simp), hdone _ (by simp)⟩, henv.trans henv₁⟩

section Synthesis

variable {s : Synthesizer β} {req : Request} {R C : List (String × String) → List (String × String)}

/-- The outcome a synthesis builds before it writes anything. -/
abbrev Synthesizer.started (s : Synthesizer β) (req : Request) : Outcome β :=
  { job := some (s.job req), backend := s.backend, ops := s.ops, keep := s.keepFiles }

theorem cleanup_throw_post (hops : s.ops.Framed (s.job req) R C) (hkeep : s.keepFiles = false)
    {w : World} (hin : ¬ w.disk.HasDir (s.job req).input) (hout : ¬ w.disk.HasDir (s.job req).output)
    {σ γ δ : Type} (o : σ) (e : Error) (k : γ → On σ δ) {Q : Except Error δ → σ × World → Prop}
    (hQ : ∀ w', Cleared (s.job req) w' → w'.env = C w.env → Q (.error e) (o, w')) :
    Post (On.world (s.started req).cleanup >>= fun _ => throw e >>= k) (o, w) Q := by
  refine On.Post.world_bind (Outcome.cleanup_clears rfl hkeep (hops.cleanup s.backend) hin hout) ?_
    fun _ _ h => by cases h.1
  rintro o' w' ⟨-, hclear, henv⟩
  exact Post.throw_bind e (hQ w' hclear henv)

/-- The source removed after a failed write: the disk has nothing that it lacked before the write,
whether the removal succeeds or is refused. -/
theorem removed_source_post {w : World} {path : String} {d : Disk}
    (hagree : Disk.Agree (w.disk.absolute path) w.disk d)
    (hd : d = w.disk ∨ ∃ t, d.lookup path = .ok (some (.file t))) :
    Disk.NoNewPaths w.disk (match d.remove path with
      | .ok d' => ({ w with disk := d' } : World)
      | .error _ => { w with disk := d }).disk := by
  rcases hd with rfl | ⟨t, hl⟩
  · split
    · exact (Disk.noNewPaths_remove ‹_›).1
    · exact Disk.NoNewPaths.refl _
  · obtain ⟨d', hr, hpaths⟩ := hagree.remove_file hl
    rw [hr]
    exact hpaths

/-- A synthesis whose backend is framed, which keeps no files, from a world without its work files:
when it fails, neither work file is left, and the environment shows no mapping, or one mapping
followed by one cleanup; when it succeeds, the outcome holds the job, and the environment shows one
mapping. -/
theorem synthesize_post (s : Synthesizer β) (req : Request) (hops : s.ops.Framed (s.job req) R C)
    (hkeep : s.keepFiles = false) (w : World) (hfiles : Cleared (s.job req) w) :
    Post (Synthesizer.synthesize req) (s, w) fun r s' =>
      (∀ e, r = .error e → Cleared (s.job req) s'.2 ∧ (s'.2.env = w.env ∨ s'.2.env = C (R w.env))) ∧
      ∀ o, r = .ok o → o.job = some (s.job req) ∧ s'.2.env = R w.env := by
  have hin := Disk.not_hasDir_of_present hfiles.1
  have hout := Disk.not_hasDir_of_present hfiles.2
  unfold Synthesizer.synthesize
  refine On.Post.self_bind ?_
  dsimp only
  split
  · -- a translation without a translator is refused before anything is written
    exact Post.throw_bind _ ⟨fun _ _ => ⟨hfiles, .inl rfl⟩, fun _ h => by cases h⟩
  refine On.Post.world_attempt_bind (writeModule_post _ _ _ _ w) fun r w₁ hw => ?_
  obtain ⟨d, rfl, hagree, hdirs₁, hd⟩ := hw
  rcases r with e | ⟨⟩
  · -- the module could not be written: its source is removed at once
    dsimp only
    refine On.Post.world_bind (Act.modify_post _ _) ?_ fun _ _ h => by cases h.1
    rintro ⟨⟩ w₂ ⟨-, rfl⟩
    have hpaths := removed_source_post hagree hd
    refine Post.throw_bind _ ⟨fun _ _ => ⟨⟨?_, ?_⟩, .inl ?_⟩, fun _ h => by cases h⟩
    · cases hp : Disk.present _ (s.job req).input
      · rfl
      · simpa [hfiles.1] using hpaths _ hp
    · cases hp : Disk.present _ (s.job req).output
      · rfl
      · simpa [hfiles.2] using hpaths _ hp
    · split <;> rfl
  dsimp only
  refine On.Post.attempt_bind (On.Post.focus (hops.run s.backend _)) ?_
  rintro r ⟨o₂, w₂⟩ ⟨t, -, hdirs₂, henv₂⟩
  have hdirs : Disk.NoNewDirs w.disk w₂.disk := hdirs₁.trans hdirs₂
  rcases r with e | ⟨⟩
  · -- mapping failed: the outcome is cleaned up
    exact cleanup_throw_post hops hkeep (hdirs.not_hasDir hin) (hdirs.not_hasDir hout) o₂ _ _
      fun w' hclear henv => ⟨fun _ _ => ⟨hclear, .inr (henv.trans (congrArg C henv₂))⟩, fun _ h => by cases h⟩
  -- the metrics, one by one; a failure cleans up the outcome
  dsimp only
  refine On.Post.self_bind ?_
  refine Post.bind (Post.forIn_or_error _ _
      (fun _ _ (st : Synthesizer β × World) => Disk.NoNewDirs w.disk st.2.disk ∧ st.2.env = R w.env)
      (fun _ st => Cleared (s.job req) st.2 ∧ st.2.env = C (R w.env)) ?_ ⟨hdirs, henv₂⟩) ?_
    fun e st h => ⟨fun _ _ => ⟨(h.2 e rfl).1, .inr (h.2 e rfl).2⟩, fun _ h' => by cases h'⟩
  · rintro pre kind rest - res ⟨o₃, w₃⟩ ⟨hdirs₃, henv₃⟩
    refine On.Post.world_attempt_bind (hops.metric _ kind w₃) fun r w₄ h₄ => ?_
    rcases r with e | v
    · exact cleanup_throw_post hops hkeep ((hdirs₃.trans h₄.2).not_hasDir hin)
        ((hdirs₃.trans h₄.2).not_hasDir hout) o₃ _ _ fun w' hclear henv =>
          ⟨fun _ h => (by cases h), fun _ h => by cases h; exact ⟨hclear, henv.trans (congrArg C (h₄.1.trans henv₃))⟩⟩
    · exact Post.pure_yield ⟨hdirs₃.trans h₄.2, h₄.1.trans henv₃⟩
  rintro res ⟨o₄, w₄⟩ ⟨hI, -⟩
  obtain ⟨hdirs₄, henv₄⟩ := hI res rfl
  have hdone : Post (Pure.pure { (s.started req) with result := res.fillCorners, module := req.name }
      : On (Synthesizer β) (Outcome β)) (o₄, w₄) fun r s' =>
      (∀ e, r = .error e → Cleared (s.job req) s'.2 ∧ (s'.2.env = w.env ∨ s'.2.env = C (R w.env))) ∧
      ∀ o, r = .ok o → o.job = some (s.job req) ∧ s'.2.env = R w.env :=
    Post.pure _ ⟨fun _ h => (by cases h), fun o h => by cases h; exact ⟨rfl, henv₄⟩⟩
  split
  · split
    · rename_i t _
      refine On.Post.world_attempt_bind (Translate.Translator.tidy_append t _ w₄) fun r w₅ h₅ => ?_
      rcases r with e | ⟨⟩
      · exact cleanup_throw_post hops hkeep ((hdirs₄.trans h₅.2).not_hasDir hin)
          ((hdirs₄.trans h₅.2).not_hasDir hout) o₄ _ _ fun w' hclear henv =>
            ⟨fun _ _ => ⟨hclear, .inr (henv.trans (congrArg C (h₅.1.trans henv₄)))⟩, fun _ h => by cases h⟩
      · exact Post.pure _ ⟨fun _ h => (by cases h), fun o h => by cases h; exact ⟨rfl, h₅.1.trans henv₄⟩⟩
    · exact hdone
  · exact hdone

end Synthesis

end Pipeline

namespace Pipeline

variable {β : Type}

/-- A failed synthesis leaves no work files. Take the operations of any backend that leave the
environment alone, make no directory and never fail to clean up, and note each mapping and each
cleanup in the environment; take a synthesis that keeps no files, started without its work files.
When it fails, neither work file is left, and the notes show no call, or one mapping followed by
one cleanup. When it succeeds, they show one mapping and no cleanup, and a second cleanup of the
outcome does nothing. -/
theorem failed_synthesis_leaves_no_work_files (ops : Backend.Ops β) (hops : ops.Tidy)
    (s : Synthesizer β) (req : Request) (hkeep : s.keepFiles = false) (w : World)
    (hfiles : Cleared (s.job req) w) :
    Post (Synthesizer.synthesize req) ({ s with ops := ops.noted }, w) fun r s' =>
      (∀ e, r = .error e → Cleared (s.job req) s'.2 ∧ (s'.2.env = w.env ∨
        s'.2.env = ("cleanup", (s.job req).input) :: ("run", (s.job req).input) :: w.env)) ∧
      ∀ o, r = .ok o → s'.2.env = ("run", (s.job req).input) :: w.env ∧
        ∀ w', Post o.cleanup w' fun r' _ => ∀ o', r' = .ok o' → o'.cleanup = pure o' :=
  (synthesize_post { s with ops := ops.noted } req (hops.framed_noted _) hkeep w hfiles).conseq
    fun _ _ h => ⟨h.1, fun o ho => ⟨(h.2 o ho).2, Outcome.cleanup_cleanup o⟩⟩

/-- A backend that maps a job by copying its source into its netlist, measures nothing, and leaves
the removal of its files to the pipeline. -/
def copying : Backend.Ops Unit where
  name _ := "copy"
  moduleName _ top := top
  run job := On.world (do writeFile job.output (← readFile job.input))
  metric _ _ _ := pure 0
  cleanup _ _ := pure ()

theorem copying_tidy : copying.Tidy where
  run _ _ w := On.Post.world (World.frame_tidy.bind (World.frame_tidy.readFile _)
    (fun _ => World.frame_tidy.writeFile _ _) w) fun _ _ h => h
  metric _ _ _ := World.frame_tidy.pure _
  cleanup _ _ w := Post.pure () ⟨rfl, World.Tidy.refl w⟩

/-- The copying backend, synthesizing the request `blk` in the empty work directory `/w`. -/
theorem copying_synthesis_leaves_no_work_files :
    let s : Synthesizer Unit := { backend := (), ops := copying, workDir := "/w" }
    let req : Request := { (default : Request) with name := "blk" }
    let w : World := { disk := Disk.empty "/w" }
    copying.Tidy ∧ s.keepFiles = false ∧ Cleared (s.job req) w ∧
      Post (Synthesizer.synthesize req) ({ s with ops := copying.noted }, w) fun r s' =>
        (∀ e, r = .error e → Cleared (s.job req) s'.2 ∧ (s'.2.env = w.env ∨
          s'.2.env = ("cleanup", (s.job req).input) :: ("run", (s.job req).input) :: w.env)) ∧
        ∀ o, r = .ok o → s'.2.env = ("run", (s.job req).input) :: w.env ∧
          ∀ w', Post o.cleanup w' fun r' _ => ∀ o', r' = .ok o' → o'.cleanup = pure o' := by
  intro s req w
  have hfiles : Cleared (s.job req) w := by
    unfold Cleared
    decide +kernel
  exact ⟨copying_tidy, rfl, hfiles, failed_synthesis_leaves_no_work_files copying copying_tidy s req rfl w hfiles⟩

end Pipeline

end BitSynth
