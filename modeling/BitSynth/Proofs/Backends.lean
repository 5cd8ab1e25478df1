import Mathlib
import BitSynth.Proofs.Directories
import BitSynth.Proofs.WorkFiles
import BitSynth.Backend.Mapper

namespace BitSynth

open Stateful

namespace Disk

/-- Every path present on `d` is present on `d'`. -/
def Lasting (d d' : Disk) : Prop := ∀ p, d.present p = true → d'.present p = true

/-- Every path of `keep` that is present on `d` is present on `d'`. -/
def Keeps (keep : String → Prop) (d d' : Disk) : Prop :=
  ∀ p, keep p → d.present p = true → d'.present p = true

variable {keep : String → Prop} {d d₁ d₂ d₃ d' : Disk}

theorem Lasting.refl (d : Disk) : Lasting d d := fun _ h => h

theorem Lasting.trans (h₁ : Lasting d₁ d₂) (h₂ : Lasting d₂ d₃) : Lasting d₁ d₃ :=
  fun p h => h₂ p (h₁ p h)

theorem Lasting.keeps (h : Lasting d d') : Keeps keep d d' := fun p _ hp => h p hp

theorem Keeps.refl (keep : String → Prop) (d : Disk) : Keeps keep d d := fun _ _ h => h

theorem Keeps.trans (h₁ : Keeps keep d₁ d₂) (h₂ : Keeps keep d₂ d₃) : Keeps keep d₁ d₃ :=
  fun p hp h => h₂ p hp (h₁ p hp h)

theorem SameShape.lasting (h : SameShape d d') : Lasting d d' := fun p hp => (h.present p).trans hp

theorem SameShape.keeps (h : SameShape d d') : Keeps keep d d' := h.lasting.keeps

theorem lasting_put_file {abs : String} (h : (d.node? abs).map Item.isDir ≠ some true) (t : String) :
    Lasting d (d.put abs (.file t)) := by
  intro q hq
  obtain ⟨n, hl⟩ := present_iff.mp hq
  obtain ⟨hq₁, hq₂, hanc, hn⟩ := lookup_eq_ok_iff.mp hl
  have habs : (d.put abs (.file t)).absolute q = d.absolute q := absolute_put _ _ _ _
  -- the node at the path is still there, a file now if it was put over
  obtain ⟨n', hn'⟩ : ∃ n', (d.put abs (.file t)).node? (d.absolute q) = some n' := by
    rw [node?_put]
    split_ifs
    · exact ⟨_, rfl⟩
    · exact ⟨_, rfl⟩
    · exact ⟨n, hn.symm⟩
  refine present_iff.mpr ⟨n', lookup_eq_ok_iff.mpr ⟨hq₁, hq₂, fun a ha => ?_, by rw [habs, hn']⟩⟩
  -- every directory above the path is still one: the file went elsewhere
  rw [habs] at ha
  have hne : a ≠ abs := by
    rintro rfl
    exact h (by simp [hanc _ ha, Item.isDir])
  rw [node?_put]
  simp [hne, hanc a ha]

theorem lasting_write {p data : String} (h : d.write p data = .ok d') : Lasting d d' := by
  obtain ⟨r, hl, hr, rfl⟩ := write_eq_ok h
  rw [(lookup_eq_ok_iff.mp hl).2.2.2] at hr
  exact lasting_put_file hr data

theorem lasting_append {p data : String} {create : Bool} (h : d.append p data create = .ok d') :
    Lasting d d' := by
  obtain ⟨old, r, hl, hr, -, rfl⟩ := append_eq_ok h
  rw [(lookup_eq_ok_iff.mp hl).2.2.2] at hr
  exact lasting_put_file hr _

end Disk

/-- A step of the world that takes no path away. -/
def World.Lasting (w w' : World) : Prop := Disk.Lasting w.disk w'.disk

theorem World.frame_lasting : World.Frame World.Lasting where
  refl w := Disk.Lasting.refl w.disk
  trans h₁ h₂ := Disk.Lasting.trans h₁ h₂
  write _ _ _ _ h := Disk.lasting_write h
  append _ _ _ _ _ h := Disk.lasting_append h
  sink w s text := (World.sameShape_write w s text).lasting
  streams _ _ := Disk.Lasting.refl _
  pipe _ _ := Disk.Lasting.refl _


namespace Backend

open Act

variable {R : World → World → Prop}

/-- No name of the job is the option `-f`, which the optimiser stand-in reads as its script. -/
def Job.Plain (job : Job) : Prop := "-f" ∉ [job.input, job.output, job.top]

theorem steps_resolveBinary (hR : World.Frame R) (explicit fallback : String) :
    Steps R (resolveBinary explicit fallback) := by
  unfold resolveBinary
  split
  · exact hR.bind (hR.statPath _) fun _ => hR.pure _
  · refine hR.bind (hR.lookPath _) fun r => ?_
    split
    · exact hR.pure _
    · exact hR.throw _

theorem steps_runTool (hR : World.Frame R) (binary : String) {args : List String} (h : "-f" ∉ args)
    (out err : Sink) (what : String) : Steps R (runTool binary args out err what) := by
  unfold runTool
  refine hR.bind (hR.exec binary (hR.runOptimiserStandin h) out err) fun r => ?_
  split
  · exact hR.throw _
  · exact hR.pure _
  · exact hR.throw _

theorem steps_create (hR : World.Frame R) (path what : String) : Steps R (create path what) := by
  unfold create
  refine hR.bind (hR.tryDisk_write _ _) fun r => ?_
  split
  · exact hR.pure _
  · exact hR.throw _

theorem Constraints.steps_write (hR : World.Frame R) (c : Constraints) (input : String) :
    Steps R (c.write input) := by
  unfold Constraints.write
  dsimp only
  repeat' first
    | with_reducible exact hR.pure _
    | with_reducible exact hR.throw _
    | with_reducible exact hR.tryDisk_write _ _
    | with_reducible refine hR.bind ?_ fun _ => ?_
    | split

theorem Yosys.steps_run (hR : World.Frame R) (y : Yosys) (job : Job) : Steps R (y.run job) := by
  unfold Yosys.run
  dsimp only
  -- the tool runs without arguments
  repeat' first
    | with_reducible exact hR.pure _
    | with_reducible exact hR.throw _
    | with_reducible exact Constraints.steps_write hR y.constraints _
    | with_reducible exact (steps_resolveBinary hR _ _).attempt
    | with_reducible exact steps_create hR _ _
    | with_reducible exact hR.logStep _
    | with_reducible exact steps_runTool hR _ List.not_mem_nil _ _ _
    | with_reducible refine hR.bind ?_ fun _ => ?_
    | split

theorem Genus.scriptPath_ne_flag (job : Job) : Genus.scriptPath job ≠ "-f" := by
  intro h
  have := congrArg (fun s => s.toList.getLast?) h
  simp [Genus.scriptPath] at this

theorem steps_runGenus (hR : World.Frame R) (binary : String) (settings : Genus.Settings) (job : Job) :
    Steps R (runGenus binary settings job) := by
  have hargs : "-f" ∉ ["-batch", "-files", Genus.scriptPath job] := by
    simpa using (Genus.scriptPath_ne_flag job).symm
  unfold runGenus
  dsimp only
  repeat' first
    | with_reducible exact hR.pure _
    | with_reducible exact hR.throw _
    | with_reducible exact hR.tryDisk_write _ _
    | with_reducible exact (steps_resolveBinary hR _ _).attempt
    | with_reducible exact steps_create hR _ _
    | with_reducible exact hR.logStep _
    | with_reducible exact steps_runTool hR _ hargs _ _ _
    | with_reducible refine hR.bind ?_ fun _ => ?_
    | split

theorem steps_runExternal (hR : World.Frame R) (name binary : String) {job : Job} (h : job.Plain) :
    Steps R (runExternal name binary job) := by
  unfold runExternal
  dsimp only
  refine hR.bind (hR.logStep _) fun _ => World.Frame.get_bind fun w => ?_
  refine steps_runTool hR _ ?_ _ _ _
  simp only [Job.Plain, List.mem_cons, List.not_mem_nil, or_false, not_or] at h
  split <;> simp [h.1, h.2.1, h.2.2]

theorem steps_logMetric (hR : World.Frame R) (useConstraints : Bool)
    (parse : Metrics.Reader → String → Except Error (Float × Float)) (job : Job) (kind : Metrics.Metric) :
    Steps R (logMetric useConstraints parse job kind) := by
  unfold logMetric
  split
  · exact hR.pure _
  refine World.Frame.get_bind fun w => ?_
  dsimp only
  split
  · exact hR.throw _
  split_ifs <;> exact hR.pure _

theorem steps_externalMetric (hR : World.Frame R) (name binary : String) {job : Job} (h : job.Plain)
    (kind : Metrics.Metric) : Steps R (externalMetric name binary job kind) := by
  unfold externalMetric
  dsimp only
  refine hR.bind (World.Frame.modify fun w => hR.pipe w _) fun _ => World.Frame.get_bind fun w => ?_
  refine hR.bind (steps_runTool hR _ ?_ _ _ _) fun _ => World.Frame.get_bind fun w => ?_
  · simp only [Job.Plain, List.mem_cons, List.not_mem_nil, or_false, not_or] at h
    have hkind : kind.name ≠ "-f" := by cases kind <;> decide
    simp [h.1, h.2.1, h.2.2, hkind.symm]
  split
  · exact hR.pure _
  · exact hR.throw _

/-- Every metric of a plain job, of every backend, only reads the disk or runs a program on it. -/
theorem steps_metric (hR : World.Frame R) (b : Backend) {job : Job} (h : job.Plain) (kind : Metrics.Metric) :
    Steps R (metric b job kind) := by
  unfold metric
  split
  · exact steps_logMetric hR _ _ _ _
  · exact steps_logMetric hR _ _ _ _
  · refine World.Frame.get_bind fun w => ?_
    dsimp only
    split
    · exact hR.pure _
    · exact hR.throw _
  · exact steps_externalMetric hR _ _ h kind

/-- The backends that run an installed program: all but the built-in optimiser, whose server is
a process of its own. -/
def Installed (b : Backend) : Prop := ∀ o, b ≠ .abc o

/-- Mapping a plain job with an installed backend keeps the backend and is a step of every frame. -/
theorem run_steps (hR : World.Frame R) {b : Backend} (hb : b.Installed) {job : Job} (h : job.Plain)
    (w : World) : Post (run job) (b, w) fun _ s => s.1 = b ∧ R w s.2 := by
  unfold run
  refine On.Post.self_bind ?_
  split
  · exact absurd rfl (hb _)
  · exact On.Post.world (Yosys.steps_run hR _ job w) fun _ _ h => ⟨rfl, h⟩
  · exact On.Post.world (steps_runGenus hR _ _ job w) fun _ _ h => ⟨rfl, h⟩
  · exact On.Post.world (steps_runExternal hR _ _ h w) fun _ _ h => ⟨rfl, h⟩

end Backend

namespace Backend.Ops

variable {β : Type} {keep : String → Prop}

/-- The operations of a backend keep the paths of `keep` that are there on the jobs of `J`, from
the backend states of `B`: neither mapping nor a metric takes one away, and mapping stays in
`B`. -/
structure Keeps (ops : Backend.Ops β) (keep : String → Prop) (B : β → Prop) (J : Backend.Job → Prop) :
    Prop where
  run : ∀ job b w, B b → J job → Post (ops.run job) (b, w) fun _ s => B s.1 ∧ Disk.Keeps keep w.disk s.2.disk
  metric : ∀ b job kind w, B b → J job → Post (ops.metric b job kind) w fun _ w' => Disk.Keeps keep w.disk w'.disk

theorem Keeps.of_jobs {ops : Backend.Ops β} {B : β → Prop} {J J' : Backend.Job → Prop}
    (h : ops.Keeps keep B J) (hJ : ∀ job, J' job → J job) : ops.Keeps keep B J' where
  run job b w hb hj := h.run job b w hb (hJ job hj)
  metric b job kind w hb hj := h.metric b job kind w hb (hJ job hj)

end Backend.Ops

theorem Backend.ops_keeps (keep : String → Prop) : Backend.ops.Keeps keep Backend.Installed Backend.Job.Plain where
  run _ _ w hb hj := (Backend.run_steps World.frame_lasting hb hj w).conseq fun _ _ h =>
    ⟨h.1 ▸ hb, Disk.Lasting.keeps h.2⟩
  metric b _ kind w _ hj := (Backend.steps_metric World.frame_lasting b hj kind w).conseq fun _ _ h =>
    Disk.Lasting.keeps h

namespace Backend

/-- A tool that opens each session by setting the environment variable `X`. -/
def envTool : Abc.Tool :=
  { openSession := fun _ => do modify fun w => { w with env := [("X", "1")] }; pure []
    runCommand := fun s cmd => pure (s.script ++ [cmd])
    closeSession := fun _ => pure () }

/-- An optimiser whose engine already serves in this process, with `envTool`. -/
def envOptimiser : Backend :=
  .abc { server := "", args := [], useConstraints := false, constraints := { load := 0 },
         engine := some { peer := .inProcess { tool := envTool, liberty := "", useConstraints := false } } }

/-- The operations of the backends are not tidy over every backend state: an optimiser whose engine
already serves with a tool of its own runs whatever the tool does, here setting the environment.
The installed backends are tidy on plain jobs (`run_steps` and `steps_metric` with
`World.frame_tidy`). -/
theorem ops_not_tidy : ¬ Backend.ops.Tidy := by
  intro h
  let job : Job := { input := "a.v", output := "a_mapped.v", top := "a" }
  let w : World := { disk := Disk.empty "/w" }
  have hrun : ((Backend.ops.run job).run' (envOptimiser, w)).toOption.map (fun p => p.2.2.env) =
      some [("X", "1")] := by
    decide +kernel
  rcases hr : (Backend.ops.run job).run' (envOptimiser, w) with f | ⟨r, o, w'⟩ <;>
    simp only [hr, Except.toOption, Option.map_none, Option.map_some, Option.some.injEq,
      reduceCtorEq] at hrun
  have henv := (h.run job envOptimiser w r (o, w') hr).1
  rw [hrun] at henv
  cases henv

end Backend

end BitSynth
