import Mathlib
import BitSynth.Failure

namespace BitSynth

namespace Stateful

variable {σ α β : Type}

@[simp] theorem run'_pure (v : α) (s : σ) : (pure v : Stateful σ α).run' s = .ok (.ok v, s) := rfl

@[simp] theorem run'_throw (e : Error) (s : σ) : (throw e : Stateful σ α).run' s = .ok (.error e, s) :=
  rfl

@[simp] theorem run'_get (s : σ) : (MonadState.get : Stateful σ σ).run' s = .ok (.ok s, s) := rfl

@[simp] theorem run'_modify (f : σ → σ) (s : σ) :
    (modify f : Stateful σ PUnit).run' s = .ok (.ok ⟨⟩, f s) := rfl

theorem run'_get_bind (f : σ → Stateful σ α) (s : σ) :
    (MonadState.get >>= f).run' s = (f s).run' s := rfl

theorem run'_bind (x : Stateful σ α) (f : α → Stateful σ β) (s : σ) :
    (x >>= f).run' s = match x.run' s with
      | .error e => .error e
      | .ok (.error e, s') => .ok (.error e, s')
      | .ok (.ok v, s') => (f v).run' s' := by
  simp only [run', ExceptT.run_bind, StateT.run_bind]
  rcases (ExceptT.run x).run s with _ | ⟨_ | v, s'⟩ <;> rfl

@[simp] theorem run'_lift (g : Guarded α) (s : σ) :
    g.lift.run' s = match g.run with | .error f => .error f | .ok r => .ok (r, s) := by
  simp only [run', Guarded.lift, ExceptT.run_mk, StateT.run_lift]
  rcases g.run with _ | r <;> rfl

theorem run'_tryCatch (x : Stateful σ α) (h : Error → Stateful σ α) (s : σ) :
    (tryCatch x h).run' s = match x.run' s with
      | .error e => .error e
      | .ok (.error e, s') => (h e).run' s'
      | .ok (.ok v, s') => .ok (.ok v, s') := by
  have hx : (ExceptT.run x).run s = StateT.run x s := rfl
  simp only [run', tryCatch, tryCatchThe, MonadExceptOf.tryCatch, ExceptT.tryCatch, ExceptT.run_mk,
    StateT.run_bind, hx]
  rcases StateT.run x s with _ | ⟨_ | v, s'⟩ <;> rfl

end Stateful

theorem Guarded.lift_ofChecked_ok {σ α : Type} (v : α) :
    (Guarded.ofChecked (.ok v)).lift = (pure v : Stateful σ α) := rfl

section Alike

variable {σ τ α β α' β' γ : Type}

/-- Two stateful computations run from `s` and `t` end alike: with the same defect, with the same
error, or with results related by `Q` in final states related by `R`. -/
def Alike (R : σ → τ → Prop) (Q : α → β → Prop) (x : Stateful σ α) (y : Stateful τ β) (s : σ)
    (t : τ) : Prop :=
  match x.run' s, y.run' t with
  | .error f, .error f' => f = f'
  | .ok (.error e, _), .ok (.error e', _) => e = e'
  | .ok (.ok v, s'), .ok (.ok w, t') => Q v w ∧ R s' t'
  | _, _ => False

variable {R R' : σ → τ → Prop} {Q : α → β → Prop} {Q' : α' → β' → Prop} {x : Stateful σ α}
  {y : Stateful τ β} {s : σ} {t : τ}

theorem Alike.pure {v : α} {w : β} (hq : Q v w) (hr : R s t) :
    Alike R Q (Pure.pure v) (Pure.pure w) s t := ⟨hq, hr⟩

theorem Alike.throw (e : Error) : Alike R Q (throw e : Stateful σ α) (throw e : Stateful τ β) s t :=
  rfl

theorem Alike.bind {f : α → Stateful σ α'} {g : β → Stateful τ β'} (hx : Alike R Q x y s t)
    (hf : ∀ v w s' t', Q v w → R s' t' → Alike R' Q' (f v) (g w) s' t') :
    Alike R' Q' (x >>= f) (y >>= g) s t := by
  unfold Alike at hx ⊢
  rw [Stateful.run'_bind, Stateful.run'_bind]
  rcases hx₁ : x.run' s with _ | ⟨_ | v, s'⟩ <;> rcases hy₁ : y.run' t with _ | ⟨_ | w, t'⟩ <;>
    rw [hx₁, hy₁] at hx <;> first | exact hx | exact absurd hx id | exact hf v w s' t' hx.1 hx.2

theorem Alike.mono (h : Alike R Q x y s t) (hr : ∀ s' t', R s' t' → R' s' t') :
    Alike R' Q x y s t := by
  unfold Alike at h ⊢
  revert h
  rcases x.run' s with _ | ⟨_ | v, s'⟩ <;> rcases y.run' t with _ | ⟨_ | w, t'⟩ <;>
    first | exact id | exact fun h => ⟨h.1, hr _ _ h.2⟩

theorem Alike.of_run' {x' : Stateful σ α} {y' : Stateful τ β} (hx : x.run' s = x'.run' s)
    (hy : y.run' t = y'.run' t) (h : Alike R Q x' y' s t) : Alike R Q x y s t := by
  unfold Alike at h ⊢
  rwa [hx, hy]

/-- Lists mapped by computations that end alike element by element end alike. Each element's
run keeps the invariant `I`, grows the right-hand state along `G` and establishes `P` of its
element, which later growth keeps. -/
theorem Alike.mapM {xs : List γ} {f : γ → Stateful σ α} {g : γ → Stateful τ β}
    {I : σ → τ → Prop} {G : τ → τ → Prop} {P : γ → τ → Prop}
    (hrefl : ∀ t, G t t) (htrans : ∀ t t' t'', G t t' → G t' t'' → G t t'')
    (hmono : ∀ z t t', P z t → G t t' → P z t')
    (hf : ∀ z ∈ xs, ∀ s t, I s t → Alike (fun s' t' => I s' t' ∧ G t t' ∧ P z t') Q (f z) (g z) s t)
    (hi : I s t) :
    Alike (fun s' t' => I s' t' ∧ G t t' ∧ ∀ z ∈ xs, P z t')
      (fun vs ws => vs.length = xs.length ∧ List.Forall₂ Q vs ws) (xs.mapM f) (xs.mapM g) s t := by
  induction xs generalizing s t with
  | nil => exact Alike.pure ⟨rfl, .nil⟩ ⟨hi, hrefl t, by simp⟩
  | cons z zs ih =>
    rw [List.mapM_cons, List.mapM_cons]
    refine (hf z List.mem_cons_self s t hi).bind fun v w s₁ t₁ hq ⟨hi₁, hg₁, hp₁⟩ => ?_
    refine (ih (fun z' hz' => hf z' (List.mem_cons_of_mem z hz')) hi₁).bind
      fun vs ws s₂ t₂ hqs ⟨hi₂, hg₂, hp₂⟩ => ?_
    refine Alike.pure ⟨by simp [hqs.1], .cons hq hqs.2⟩ ⟨hi₂, htrans _ _ _ hg₁ hg₂, ?_⟩
    rintro z' (_ | ⟨_, hz'⟩)
    · exact hmono z t₁ t₂ hp₁ hg₂
    · exact hp₂ z' hz'

theorem Alike.arrayMapM {xs : Array γ} {f : γ → Stateful σ α} {g : γ → Stateful τ β}
    {I : σ → τ → Prop} {G : τ → τ → Prop} {P : γ → τ → Prop}
    (hrefl : ∀ t, G t t) (htrans : ∀ t t' t'', G t t' → G t' t'' → G t t'')
    (hmono : ∀ z t t', P z t → G t t' → P z t')
    (hf : ∀ z ∈ xs, ∀ s t, I s t → Alike (fun s' t' => I s' t' ∧ G t t' ∧ P z t') Q (f z) (g z) s t)
    (hi : I s t) :
    Alike (fun s' t' => I s' t' ∧ G t t' ∧ ∀ z ∈ xs, P z t')
      (fun vs ws => vs.size = xs.size ∧ List.Forall₂ Q vs.toList ws.toList) (xs.mapM f) (xs.mapM g)
      s t := by
  rw [Array.mapM_eq_mapM_toList, Array.mapM_eq_mapM_toList, map_eq_pure_bind, map_eq_pure_bind]
  refine (Alike.mapM hrefl htrans hmono (fun z hz => hf z (Array.mem_toList_iff.mp hz)) hi).bind ?_
  rintro vs ws s' t' ⟨hlen, hq⟩ ⟨hi', hg, hp⟩
  exact Alike.pure ⟨by simpa using hlen, by simpa using hq⟩
    ⟨hi', hg, fun z hz => hp z (Array.mem_toList_iff.mpr hz)⟩

end Alike

end BitSynth
