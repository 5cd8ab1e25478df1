import Mathlib
import BitSynth.Proofs.Alike
import BitSynth.Host.World

namespace BitSynth

namespace Stateful

variable {σ α β : Type}

theorem run'_exceptMap (f : α → β) (x : Stateful σ α) (s : σ) :
    Stateful.run' (ExceptT.map f x) s = (x.run' s).map fun p => (p.1.map f, p.2) := by
  have hx : StateT.run x s = (ExceptT.run x).run s := rfl
  simp only [run', ExceptT.map, ExceptT.run_mk, StateT.run_bind, hx]
  rcases (ExceptT.run x).run s with _ | ⟨_ | v, s'⟩ <;> rfl

theorem run'_catchAll (x : Stateful σ α) (s : σ) :
    (tryCatch (ExceptT.map Except.ok x) fun e => pure (Except.error e) : Stateful σ (Except Error α)).run' s =
      (x.run' s).map fun p => (.ok p.1, p.2) := by
  rw [run'_tryCatch, run'_exceptMap]
  rcases x.run' s with _ | ⟨_ | v, s'⟩ <;> rfl

/-- Every run of `x` from the state `s` that ends without a defect ends with an outcome and a state
satisfying `Q`. -/
def Post (x : Stateful σ α) (s : σ) (Q : Except Error α → σ → Prop) : Prop :=
  ∀ r s', x.run' s = .ok (r, s') → Q r s'

section Post

variable {x : Stateful σ α} {s : σ} {Q Q' : Except Error α → σ → Prop}

theorem Post.conseq (h : Post x s Q') (hq : ∀ r s', Q' r s' → Q r s') : Post x s Q :=
  fun r s' hr => hq r s' (h r s' hr)

theorem Post.pure (v : α) (h : Q (.ok v) s) : Post (Pure.pure v) s Q := by
  intro r s' hr
  cases hr
  exact h

theorem Post.throw (e : Error) (h : Q (.error e) s) : Post (MonadExcept.throw e) s Q := by
  intro r s' hr
  cases hr
  exact h

theorem Post.bind {f : α → Stateful σ β} {R : Except Error α → σ → Prop}
    {Q : Except Error β → σ → Prop} (hx : Post x s R) (hf : ∀ v s', R (.ok v) s' → Post (f v) s' Q)
    (he : ∀ e s', R (.error e) s' → Q (.error e) s') : Post (x >>= f) s Q := by
  intro r s' hr
  rw [run'_bind] at hr
  rcases hx₁ : x.run' s with _ | ⟨_ | v, s₁⟩ <;> rw [hx₁] at hr
  · cases hr
  · cases hr
    exact he _ _ (hx _ _ hx₁)
  · exact hf v s₁ (hx _ _ hx₁) r s' hr

theorem Post.throw_bind (e : Error) {f : α → Stateful σ β} {Q : Except Error β → σ → Prop}
    (h : Q (.error e) s) : Post (MonadExcept.throw e >>= f) s Q :=
  Post.bind (R := fun r s' => r = .error e ∧ s' = s) (Post.throw e ⟨rfl, rfl⟩)
    (fun _ _ h => by cases h.1) fun _ _ h => by cases h.1; exact h.2 ▸ ‹Q (.error e) s›

theorem Post.get_bind {f : σ → Stateful σ β} {Q : Except Error β → σ → Prop}
    (h : Post (f s) s Q) : Post (MonadState.get >>= f) s Q :=
  fun r s' hr => h r s' hr

theorem Post.modify_bind (g : σ → σ) {f : PUnit → Stateful σ β} {Q : Except Error β → σ → Prop}
    (h : Post (f ⟨⟩) (g s) Q) : Post (modify g >>= f) s Q :=
  fun r s' hr => h r s' hr

/-- A loop over a list keeps an invariant of the items done: each item, from a state where the
invariant holds of the items before it, goes on to the next with the invariant holding of the
items up to it. An error ends the loop and promises nothing. -/
theorem Post.forIn {β : Type} (xs : List α) (body : α → β → Stateful σ (ForInStep β))
    (I : List α → β → σ → Prop)
    (hstep : ∀ pre a rest, xs = pre ++ a :: rest → ∀ b s, I pre b s →
      Post (body a b) s fun r s' => ∀ v, r = .ok v → ∃ b', v = .yield b' ∧ I (pre ++ [a]) b' s')
    {b : β} (h0 : I [] b s) :
    Post (ForIn.forIn xs b body) s fun r s' => ∀ v, r = .ok v → I xs v s' := by
  -- the loop runs over what is left of the list, with the items done as a prefix
  suffices h : ∀ rest pre b s, xs = pre ++ rest → I pre b s →
      Post (ForIn.forIn rest b body) s fun r s' => ∀ v, r = .ok v → I xs v s' from
    h xs [] b s rfl h0
  intro rest
  induction rest with
  | nil =>
    intro pre b s hxs hI
    rw [List.forIn_nil]
    refine Post.pure b fun v hv => ?_
    cases hv
    simpa [hxs] using hI
  | cons a rest ih =>
    intro pre b s hxs hI
    rw [List.forIn_cons]
    refine Post.bind (hstep pre a rest hxs b s hI) ?_ fun e s' _ v hv => by cases hv
    intro v s' hv
    obtain ⟨b', rfl, hI'⟩ := hv v rfl
    exact ih (pre ++ [a]) b' s' (by simp [hxs]) hI'

end Post

end Stateful

theorem Act.run'_attempt {α : Type} (y : Act α) (w : World) :
    (Act.attempt y).run' w = (y.run' w).map fun p => (.ok p.1, p.2) :=
  Stateful.run'_catchAll y w

namespace On

variable {σ α β : Type}

theorem run'_world (y : Act α) (o : σ) (w : World) :
    (On.world y : On σ α).run' (o, w) = (y.run' w).map fun p => (p.1, (o, p.2)) := by
  simp only [Stateful.run', On.world, ExceptT.run_mk, StateT.run]
  rcases ExceptT.run y w with _ | ⟨r, w'⟩ <;> rfl

section Post

open Stateful

variable {o : σ} {w : World} {Q : Except Error β → σ × World → Prop}

theorem Post.self_bind {f : σ → On σ β} (h : Post (f o) (o, w) Q) : Post (On.self >>= f) (o, w) Q :=
  fun r s' hr => h r s' hr

theorem Post.update_bind (g : σ → σ) {f : Unit → On σ β} (h : Post (f ()) (g o, w) Q) :
    Post (On.update g >>= f) (o, w) Q :=
  fun r s' hr => h r s' hr

theorem Post.update (g : σ → σ) {Q : Except Error Unit → σ × World → Prop} (h : Q (.ok ()) (g o, w)) :
    Post (On.update g) (o, w) Q := by
  intro r s' hr
  cases hr
  exact h

theorem Post.world_bind {y : Act α} {f : α → On σ β} {R : Except Error α → World → Prop}
    (hy : Post y w R) (hf : ∀ v w', R (.ok v) w' → Post (f v) (o, w') Q)
    (he : ∀ e w', R (.error e) w' → Q (.error e) (o, w')) : Post (On.world y >>= f) (o, w) Q := by
  intro r s' hr
  rw [run'_bind, run'_world] at hr
  rcases hy₁ : y.run' w with _ | ⟨_ | v, w₁⟩ <;> rw [hy₁] at hr
  · cases hr
  · cases hr
    exact he _ _ (hy _ _ hy₁)
  · exact hf v w₁ (hy _ _ hy₁) r s' hr

theorem Post.world {y : Act α} {R : Except Error α → World → Prop} {Q : Except Error α → σ × World → Prop}
    (hy : Post y w R) (hq : ∀ r w', R r w' → Q r (o, w')) : Post (On.world y) (o, w) Q := by
  intro r s' hr
  rw [run'_world] at hr
  rcases hy₁ : y.run' w with _ | ⟨r', w₁⟩ <;> rw [hy₁] at hr <;> cases hr
  exact hq _ _ (hy _ _ hy₁)

theorem Post.world_attempt_bind {y : Act α} {f : Except Error α → On σ β}
    {R : Except Error α → World → Prop} (hy : Post y w R) (hf : ∀ r w', R r w' → Post (f r) (o, w') Q) :
    Post (On.world (Act.attempt y) >>= f) (o, w) Q := by
  intro r s' hr
  rw [run'_bind, run'_world, Act.run'_attempt] at hr
  rcases hy₁ : y.run' w with _ | ⟨r', w₁⟩ <;> rw [hy₁] at hr
  · cases hr
  · exact hf r' w₁ (hy _ _ hy₁) r s' hr

end Post

/-- Every run of `x` from the object `o`, in any world, that ends without a defect ends with an
outcome and an object satisfying `Q`. -/
def Spec (x : On σ α) (o : σ) (Q : Except Error α → σ → Prop) : Prop :=
  ∀ w r o' w', x.run' (o, w) = .ok (r, (o', w')) → Q r o'

variable {x : On σ α} {o : σ} {Q Q' : Except Error α → σ → Prop}

theorem Spec.conseq (h : Spec x o Q') (hq : ∀ r o', Q' r o' → Q r o') : Spec x o Q :=
  fun w r o' w' hr => hq r o' (h w r o' w' hr)

theorem Spec.pure (v : α) (h : Q (.ok v) o) : Spec (Pure.pure v) o Q := by
  intro w r o' w' hr
  cases hr
  exact h

theorem Spec.throw (e : Error) (h : Q (.error e) o) : Spec (MonadExcept.throw e) o Q := by
  intro w r o' w' hr
  cases hr
  exact h

theorem Spec.bind {f : α → On σ β} {R : Except Error α → σ → Prop} {Q : Except Error β → σ → Prop}
    (hx : Spec x o R) (hf : ∀ v o', R (.ok v) o' → Spec (f v) o' Q)
    (he : ∀ e o', R (.error e) o' → Q (.error e) o') : Spec (x >>= f) o Q := by
  intro w r o' w' hr
  rw [Stateful.run'_bind] at hr
  rcases hx₁ : x.run' (o, w) with _ | ⟨_ | v, o₁, w₁⟩ <;> rw [hx₁] at hr
  · cases hr
  · cases hr
    exact he _ _ (hx w _ _ _ hx₁)
  · exact hf v o₁ (hx w _ _ _ hx₁) w₁ r o' w' hr

theorem Spec.world {y : Act α} (h : ∀ r, Q r o) : Spec (On.world y) o Q := by
  intro w r o' w' hr
  rw [run'_world] at hr
  rcases hy : y.run' w with _ | ⟨r', w''⟩ <;> rw [hy] at hr <;> cases hr
  exact h _

theorem Spec.self_bind {f : σ → On σ β} {Q : Except Error β → σ → Prop} (h : Spec (f o) o Q) :
    Spec (On.self >>= f) o Q := by
  intro w r o' w' hr
  exact h w r o' w' hr

theorem Spec.throw_bind (e : Error) {f : α → On σ β} {Q : Except Error β → σ → Prop}
    (h : Q (.error e) o) : Spec (MonadExcept.throw e >>= f) o Q :=
  Spec.bind (R := fun r o' => r = .error e ∧ o' = o) (Spec.throw e ⟨rfl, rfl⟩)
    (fun _ _ ⟨hr, _⟩ => by cases hr) (fun _ _ ⟨hr, ho⟩ => by cases hr; exact ho ▸ h)

theorem Spec.update (f : σ → σ) {Q : Except Error Unit → σ → Prop} (h : Q (.ok ()) (f o)) :
    Spec (On.update f) o Q := by
  intro w r o' w' hr
  cases hr
  exact h

theorem Spec.update_bind (g : σ → σ) {f : Unit → On σ β} {Q : Except Error β → σ → Prop}
    (h : Spec (f ()) (g o) Q) : Spec (On.update g >>= f) o Q :=
  Spec.bind (R := fun r o' => r = .ok () ∧ o' = g o) (Spec.update g ⟨rfl, rfl⟩)
    (fun _ _ ⟨_, ho⟩ => ho ▸ h) (fun _ _ ⟨he, _⟩ => by cases he)

theorem Spec.world_bind_of {y : Act α} {f : α → On σ β} {P : Except Error α → Prop}
    {Q : Except Error β → σ → Prop} (hy : ∀ w r w', y.run' w = .ok (r, w') → P r)
    (hok : ∀ v, P (.ok v) → Spec (f v) o Q) (herr : ∀ e, P (.error e) → Q (.error e) o) :
    Spec (On.world y >>= f) o Q :=
  Spec.bind (R := fun r o' => P r ∧ o' = o)
    (fun w r o' w' hr => by
      rw [run'_world] at hr
      rcases hy₁ : y.run' w with _ | ⟨r', w''⟩ <;> rw [hy₁] at hr <;> cases hr
      exact ⟨hy w _ _ hy₁, rfl⟩)
    (fun v _ ⟨hv, ho⟩ => ho ▸ hok v hv) (fun e _ ⟨he, ho⟩ => ho ▸ herr e he)

theorem Spec.world_bind {y : Act α} {f : α → On σ β} {Q : Except Error β → σ → Prop}
    (hok : ∀ v, Spec (f v) o Q) (herr : ∀ e, Q (.error e) o) : Spec (On.world y >>= f) o Q :=
  Spec.world_bind_of (P := fun _ => True) (fun _ _ _ _ => trivial) (fun v _ => hok v)
    (fun e _ => herr e)

theorem Spec.world_attempt_bind {y : Act α} {f : Except Error α → On σ β}
    {Q : Except Error β → σ → Prop} (h : ∀ v, Spec (f v) o Q) :
    Spec (On.world (Act.attempt y) >>= f) o Q := by
  intro w r o' w' hr
  rw [Stateful.run'_bind, run'_world, Act.run'_attempt] at hr
  rcases hy : y.run' w with _ | ⟨r', w''⟩ <;> rw [hy] at hr
  · cases hr
  · exact h r' w'' r o' w' hr

theorem Spec.attempt_bind {f : Except Error α → On σ β} {R : Except Error α → σ → Prop}
    {Q : Except Error β → σ → Prop} (hx : Spec x o R) (hf : ∀ r o', R r o' → Spec (f r) o' Q) :
    Spec (On.attempt x >>= f) o Q := by
  intro w r o' w' hr
  rw [Stateful.run'_bind] at hr
  simp only [On.attempt, Stateful.run'_catchAll] at hr
  rcases hx₁ : x.run' (o, w) with _ | ⟨r₁, o₁, w₁⟩ <;> rw [hx₁] at hr
  · cases hr
  · exact hf r₁ o₁ (hx w _ _ _ hx₁) w₁ r o' w' hr

/-- A world computation that ends with no error, whatever the world: logging, for one. -/
def Quiet (y : Act α) : Prop := ∀ w e w', y.run' w ≠ .ok (.error e, w')

theorem Spec.quiet_bind {y : Act α} {f : α → On σ β} {Q : Except Error β → σ → Prop}
    (hy : Quiet y) (hok : ∀ v, Spec (f v) o Q) : Spec (On.world y >>= f) o Q :=
  Spec.world_bind_of (P := fun r => ∀ e, r ≠ .error e)
    (fun w _ w' hr e he => hy w e w' (he ▸ hr)) (fun v _ => hok v)
    (fun e he => absurd rfl (he e))

end On

end BitSynth
