import Mathlib
import BitSynth.Proofs.Triple

namespace BitSynth

theorem World.write_env (w : World) (s : Sink) (text : String) : (w.write s text).env = w.env := by
  unfold World.write
  split
  · rfl
  · rfl
  · rfl
  · rfl
  · rfl
  · split_ifs
    · split <;> rfl
    · rfl

namespace Act

variable {α β : Type}

/-- Every run of `y` in a world whose environment is `E` ends without a defect, with an outcome and
an environment satisfying `P`. -/
def EnvSpec (y : Act α) (E : List (String × String))
    (P : Except Error α → List (String × String) → Prop) : Prop :=
  ∀ w, w.env = E → ∃ r w', y.run' w = .ok (r, w') ∧ P r w'.env

/-- Every run of `y` ends without a defect and leaves the environment of the world alone. -/
def KeepsEnv (y : Act α) : Prop := ∀ w, ∃ r w', y.run' w = .ok (r, w') ∧ w'.env = w.env

theorem KeepsEnv.envSpec {y : Act α} {E : List (String × String)}
    {P : Except Error α → List (String × String) → Prop} (h : KeepsEnv y) (hP : ∀ r, P r E) :
    EnvSpec y E P := by
  intro w hE
  obtain ⟨r, w', hr, hE'⟩ := h w
  exact ⟨r, w', hr, hE'.trans hE ▸ hP r⟩

theorem keepsEnv_pure (v : α) : KeepsEnv (pure v : Act α) :=
  fun w => ⟨.ok v, w, rfl, rfl⟩

theorem keepsEnv_throw (e : Error) : KeepsEnv (throw e : Act α) :=
  fun w => ⟨.error e, w, rfl, rfl⟩

theorem KeepsEnv.bind {y : Act α} {f : α → Act β} (hy : KeepsEnv y) (hf : ∀ v, KeepsEnv (f v)) :
    KeepsEnv (y >>= f) := by
  intro w
  obtain ⟨r, w₁, h₁, hE₁⟩ := hy w
  rcases r with e | v
  · exact ⟨.error e, w₁, by rw [Stateful.run'_bind, h₁], hE₁⟩
  · obtain ⟨r, w₂, h₂, hE₂⟩ := hf v w₁
    exact ⟨r, w₂, by rw [Stateful.run'_bind, h₁]; exact h₂, hE₂.trans hE₁⟩

theorem keepsEnv_get_bind {f : World → Act α} (h : ∀ w, KeepsEnv (f w)) :
    KeepsEnv (MonadState.get >>= f) :=
  fun w => h w w

theorem keepsEnv_modify {g : World → World} (hg : ∀ w, (g w).env = w.env) : KeepsEnv (modify g) :=
  fun w => ⟨.ok (), g w, rfl, hg w⟩

theorem keepsEnv_logLine (level : Level) (message : String) : KeepsEnv (logLine level message) := by
  unfold logLine
  refine keepsEnv_get_bind fun w => ?_
  dsimp only
  split_ifs
  · exact keepsEnv_modify fun w => World.write_env _ _ _
  · exact keepsEnv_pure _

theorem keepsEnv_replay (j : Journal) : KeepsEnv (replay j) := by
  unfold replay
  induction j.entries.toList with
  | nil => exact keepsEnv_pure _
  | cons e es ih => exact (keepsEnv_logLine _ _).bind fun _ => ih

theorem keepsEnv_disk {γ : Type} (f : Disk → Except IoError (γ × Disk)) : KeepsEnv (Act.disk f) := by
  intro w
  unfold Act.disk
  rw [Stateful.run'_get_bind]
  split
  · exact ⟨_, _, rfl, rfl⟩
  · exact ⟨_, _, rfl, rfl⟩

theorem keepsEnv_tryDisk {γ : Type} (f : Disk → Except IoError (γ × Disk)) :
    KeepsEnv (Act.tryDisk f) := by
  intro w
  unfold Act.tryDisk
  rw [Stateful.run'_get_bind]
  split
  · exact ⟨_, _, rfl, rfl⟩
  · exact ⟨_, _, rfl, rfl⟩

variable {E : List (String × String)} {P R : Except Error α → List (String × String) → Prop}

theorem EnvSpec.bind {y : Act α} {f : α → Act β} {Q : Except Error β → List (String × String) → Prop}
    (hy : EnvSpec y E R) (hf : ∀ v E', R (.ok v) E' → EnvSpec (f v) E' Q)
    (he : ∀ e E', R (.error e) E' → Q (.error e) E') : EnvSpec (y >>= f) E Q := by
  intro w hE
  obtain ⟨r, w₁, h₁, hR⟩ := hy w hE
  rcases r with e | v
  · exact ⟨.error e, w₁, by rw [Stateful.run'_bind, h₁], he _ _ hR⟩
  · obtain ⟨r, w₂, h₂, hQ⟩ := hf v w₁.env hR w₁ rfl
    exact ⟨r, w₂, by rw [Stateful.run'_bind, h₁]; exact h₂, hQ⟩

theorem KeepsEnv.envSpec_quiet {y : Act Unit} (h : KeepsEnv y) (hq : On.Quiet y) :
    EnvSpec y E fun r E' => r = .ok () ∧ E' = E := by
  intro w hE
  obtain ⟨r, w', hr, hE'⟩ := h w
  rcases r with e | ⟨⟩
  · exact absurd hr (hq w e w')
  · exact ⟨.ok (), w', hr, rfl, hE'.trans hE⟩

theorem EnvSpec.attempt {y : Act α} (h : EnvSpec y E P) :
    EnvSpec (Act.attempt y) E fun r E' => ∃ r', r = .ok r' ∧ P r' E' := by
  intro w hE
  obtain ⟨r, w', hr, hP⟩ := h w hE
  exact ⟨.ok r, w', by rw [Act.run'_attempt, hr]; rfl, r, rfl, hP⟩

end Act

namespace On

variable {σ α β : Type}

/-- Every run of `x` from the object `o` in a world whose environment is `E` ends without a defect,
with an outcome, an object and an environment satisfying `Q`. -/
def EnvSpec (x : On σ α) (o : σ) (E : List (String × String))
    (Q : Except Error α → σ → List (String × String) → Prop) : Prop :=
  ∀ w, w.env = E → ∃ r o' w', x.run' (o, w) = .ok (r, (o', w')) ∧ Q r o' w'.env

variable {x : On σ α} {o : σ} {E : List (String × String)}
  {Q Q' : Except Error α → σ → List (String × String) → Prop}

theorem EnvSpec.conseq (h : EnvSpec x o E Q') (hq : ∀ r o' E', Q' r o' E' → Q r o' E') :
    EnvSpec x o E Q := by
  intro w hE
  obtain ⟨r, o', w', hr, hQ⟩ := h w hE
  exact ⟨r, o', w', hr, hq r o' _ hQ⟩

theorem EnvSpec.and_spec {R : Except Error α → σ → Prop} (h : EnvSpec x o E Q) (h' : Spec x o R) :
    EnvSpec x o E fun r o' E' => Q r o' E' ∧ R r o' := by
  intro w hE
  obtain ⟨r, o', w', hr, hQ⟩ := h w hE
  exact ⟨r, o', w', hr, hQ, h' w r o' w' hr⟩

theorem EnvSpec.pure (v : α) (h : Q (.ok v) o E) : EnvSpec (Pure.pure v) o E Q :=
  fun w hE => ⟨.ok v, o, w, rfl, hE ▸ h⟩

theorem EnvSpec.throw (e : Error) (h : Q (.error e) o E) : EnvSpec (MonadExcept.throw e) o E Q :=
  fun w hE => ⟨.error e, o, w, rfl, hE ▸ h⟩

theorem EnvSpec.bind {f : α → On σ β} {R : Except Error α → σ → List (String × String) → Prop}
    {Q : Except Error β → σ → List (String × String) → Prop} (hx : EnvSpec x o E R)
    (hf : ∀ v o' E', R (.ok v) o' E' → EnvSpec (f v) o' E' Q)
    (he : ∀ e o' E', R (.error e) o' E' → Q (.error e) o' E') : EnvSpec (x >>= f) o E Q := by
  intro w hE
  obtain ⟨r, o₁, w₁, h₁, hR⟩ := hx w hE
  rcases r with e | v
  · exact ⟨.error e, o₁, w₁, by rw [Stateful.run'_bind, h₁], he _ _ _ hR⟩
  · obtain ⟨r, o₂, w₂, h₂, hQ⟩ := hf v o₁ w₁.env hR w₁ rfl
    exact ⟨r, o₂, w₂, by rw [Stateful.run'_bind, h₁]; exact h₂, hQ⟩

theorem EnvSpec.throw_bind (e : Error) {f : α → On σ β}
    {Q : Except Error β → σ → List (String × String) → Prop} (h : Q (.error e) o E) :
    EnvSpec (MonadExcept.throw e >>= f) o E Q := by
  refine EnvSpec.bind (R := fun r o' E' => r = .error e ∧ o' = o ∧ E' = E)
    (EnvSpec.throw e ⟨rfl, rfl, rfl⟩) ?_ ?_
  · rintro v o' E' ⟨hr, -⟩
    cases hr
  · rintro e' o' E' ⟨hr, rfl, rfl⟩
    cases hr
    exact h

theorem EnvSpec.self_bind {f : σ → On σ β} {Q : Except Error β → σ → List (String × String) → Prop}
    (h : EnvSpec (f o) o E Q) : EnvSpec (On.self >>= f) o E Q :=
  fun w hE => h w hE

theorem EnvSpec.update (f : σ → σ) {Q : Except Error Unit → σ → List (String × String) → Prop}
    (h : Q (.ok ()) (f o) E) : EnvSpec (On.update f) o E Q :=
  fun w hE => ⟨.ok (), f o, w, rfl, hE ▸ h⟩

theorem EnvSpec.update_bind (g : σ → σ) {f : Unit → On σ β}
    {Q : Except Error β → σ → List (String × String) → Prop} (h : EnvSpec (f ()) (g o) E Q) :
    EnvSpec (On.update g >>= f) o E Q := by
  refine EnvSpec.bind (R := fun r o' E' => r = .ok () ∧ o' = g o ∧ E' = E)
    (EnvSpec.update g ⟨rfl, rfl, rfl⟩) ?_ ?_
  · rintro _ o' E' ⟨-, rfl, rfl⟩
    exact h
  · rintro e o' E' ⟨he, -⟩
    cases he

theorem EnvSpec.world {y : Act α} {P : Except Error α → List (String × String) → Prop}
    (hy : Act.EnvSpec y E P) (h : ∀ r E', P r E' → Q r o E') : EnvSpec (On.world y) o E Q := by
  intro w hE
  obtain ⟨r, w', hr, hP⟩ := hy w hE
  exact ⟨r, o, w', by rw [run'_world, hr]; rfl, h r _ hP⟩

theorem EnvSpec.keeps {y : Act α} (hy : Act.KeepsEnv y) (h : ∀ r, Q r o E) : EnvSpec (On.world y) o E Q :=
  EnvSpec.world (P := fun _ E' => E' = E) (hy.envSpec fun _ => rfl) fun r _ hE => hE ▸ h r

theorem EnvSpec.keeps_bind {y : Act α} {f : α → On σ β}
    {Q : Except Error β → σ → List (String × String) → Prop} (hy : Act.KeepsEnv y)
    (hok : ∀ v, EnvSpec (f v) o E Q) (herr : ∀ e, Q (.error e) o E) :
    EnvSpec (On.world y >>= f) o E Q := by
  refine EnvSpec.bind (R := fun _ o' E' => o' = o ∧ E' = E) (EnvSpec.keeps hy fun _ => ⟨rfl, rfl⟩) ?_ ?_
  · rintro v o' E' ⟨rfl, rfl⟩
    exact hok v
  · rintro e o' E' ⟨rfl, rfl⟩
    exact herr e

theorem EnvSpec.attempt_bind {f : Except Error α → On σ β}
    {R : Except Error α → σ → List (String × String) → Prop}
    {Q : Except Error β → σ → List (String × String) → Prop} (hx : EnvSpec x o E R)
    (hf : ∀ r o' E', R r o' E' → EnvSpec (f r) o' E' Q) : EnvSpec (On.attempt x >>= f) o E Q := by
  intro w hE
  obtain ⟨r₁, o₁, w₁, h₁, hR⟩ := hx w hE
  obtain ⟨r, o₂, w₂, h₂, hQ⟩ := hf r₁ o₁ w₁.env hR w₁ rfl
  refine ⟨r, o₂, w₂, ?_, hQ⟩
  rw [Stateful.run'_bind]
  simp only [On.attempt, Stateful.run'_catchAll, h₁]
  exact h₂

end On

end BitSynth
