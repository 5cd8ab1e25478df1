import BitSynth.Proofs.Compiling

namespace BitSynth.Verilog

open Term

/-- From the sound state `c` a run reached the sound state `c'`, whose wires extend those of `c`,
with an operand that carries the meaning of `t`. -/
structure Lowered (a : Arena) (lm : LeafMap) (p : String) (t : Term NodeId) (c c' : Compiler)
    (op : Operand) : Prop where
  sound : c'.Sound a lm p
  grows : c.Extends c'
  carries : Computes c'.wires.toList lm t op

theorem Lowered.extend_left {a : Arena} {lm : LeafMap} {p : String} {t : Term NodeId}
    {c₀ c c' : Compiler} {op : Operand} (hx : c₀.Extends c) (h : Lowered a lm p t c c' op) :
    Lowered a lm p t c₀ c' op :=
  ⟨h.sound, hx.trans h.grows, h.carries⟩

namespace Compiler

variable {a : Arena} {lm : LeafMap} {p : String} {c c' : Compiler} {id : NodeId} {n : Node}
  {op : Operand} {w : Int}

theorem Sound.run_port {s : String} (hs : c.Sound a lm p) (hapart : ∀ i, s ≠ tempName p i)
    (e : Env) : run c.wires.toList e s = e s := by
  have hfree : s ∉ c.wires.toList.map Wire.name := by
    rw [hs.names]
    simp only [List.mem_map, List.mem_range, not_exists, not_and]
    exact fun i _ hi => hapart i hi.symm
  exact run_of_not_mem hfree e

theorem Sound.emitNet {s : String} (hs : c.Sound a lm p)
    (h : Runs (Compiler.emit w (.net s)) c op c') (hw : 0 < w) (hw' : w < 2 ^ 63) (hapart : ∀ i, s ≠ tempName p i) :
    c'.Sound a lm p ∧ c.Extends c' ∧
      Carries c'.wires.toList (fun e => (e s).value < 2 ^ w.toNat) op w (fun e => (e s).value) := by
  obtain ⟨hs', hx, hc⟩ := hs.emit h hw hw'
  refine ⟨hs', hx, (hc.weaken fun _ _ => trivial).congr fun e he => ?_⟩
  simp only [Rhs.eval, hs.run_port hapart, Nat.mod_eq_of_lt he]

theorem compileLeaf_runs (hs : c.Sound a lm p) (h : Runs (compileLeaf id n) c op c') :
    Runs (lowerLeaf id n (lm.find? id)) c op c' := by
  unfold compileLeaf at h
  obtain ⟨_, _, hg, hm⟩ := runs_bind.mp h
  obtain ⟨rfl, rfl⟩ := runs_get.mp hg
  rwa [hs.leaves] at hm

theorem compileLeaf_bound {l : Leaf} (hs : c.Sound a lm p) (hfind : lm.find? id = some l)
    (hk : n.kind = .var ∨ n.kind = .int ∨ n.kind = .true ∨ n.kind = .false)
    (h : Runs (compileLeaf id n) c op c') :
    0 < l.width ∧ Runs (Compiler.emit l.width (.net l.name)) c op c' := by
  have hm := compileLeaf_runs hs h
  rw [hfind] at hm
  by_cases hpos : l.width ≤ 0
  · rcases hk with hk | hk | hk | hk <;> simp [lowerLeaf, leafWidth, hk, hpos, not_runs_throw] at hm
  · refine ⟨by omega, ?_⟩
    rcases hk with hk | hk | hk | hk <;> simpa [lowerLeaf, leafWidth, hk, hpos] using hm

/-- A leaf bound to a signal carries the signal's value. -/
theorem Sound.compileBound {t : Term NodeId} {l : Leaf} (hs : c.Sound a lm p)
    (hfind : lm.find? id = some l) (hk : n.kind = .var ∨ n.kind = .int ∨ n.kind = .true ∨ n.kind = .false)
    (h : Runs (compileLeaf id n) c op c') (hl : Lowerable lm p t) (htag : t.leafTags = [id])
    (hwidth : t.width lm = l.width) (heval : ∀ v, t.eval lm v = v l.name) :
    Lowered a lm p t c c' op := by
  obtain ⟨hpos, he⟩ := compileLeaf_bound hs hfind hk h
  have hfits := hl.fits _ (mem_subterms_self _)
  rw [hwidth] at hfits
  obtain ⟨hs', hx, hc⟩ := hs.emitNet he hpos hfits (hl.apart id (by simp [htag]) l hfind)
  refine ⟨hs', hx, ?_⟩
  rw [Computes, hwidth]
  refine (hc.weaken fun e he => he.1 id (by simp [htag]) l hfind).congr fun e _ => ?_
  rw [heval, values]

theorem Sound.compileVar (hs : c.Sound a lm p) (hk : n.kind = .var)
    (hl : Lowerable lm p (.var id n.name)) (h : Runs (compileLeaf id n) c op c') :
    Lowered a lm p (.var id n.name) c c' op := by
  rcases hfind : lm.find? id with _ | l
  · -- an unbound signal does not compile
    have hm := compileLeaf_runs hs h
    simp [lowerLeaf, hfind, leafWidth, hk, not_runs_throw] at hm
  · exact hs.compileBound hfind (.inl hk) h hl rfl (by simp [Term.width, hfind])
      (by simp [Term.eval, hfind])

theorem Sound.compileInt (hs : c.Sound a lm p) (hk : n.kind = .int)
    (hl : Lowerable lm p (.int id n.value)) (h : Runs (compileLeaf id n) c op c') :
    Lowered a lm p (.int id n.value) c c' op := by
  rcases hfind : lm.find? id with _ | l
  · -- an unbound literal shares the wire of its text
    have hm := compileLeaf_runs hs h
    simp only [lowerLeaf, hfind, leafWidth, hk] at hm
    obtain ⟨hs', hx, hc⟩ := hs.literal hm (.dec n.value)
    refine ⟨hs', hx, ?_⟩
    have hwidth : (Term.int id n.value).width lm = literalWidth := by simp [Term.width, hfind]
    rw [Computes, hwidth]
    exact (hc.weaken fun _ _ => trivial).congr fun e _ => by simp [Term.eval, hfind]
  · exact hs.compileBound hfind (.inr (.inl hk)) h hl rfl (by simp [Term.width, hfind])
      (by simp [Term.eval, hfind])

theorem Sound.compileBool {b : Bool} (hs : c.Sound a lm p) (hk : n.kind = if b then .true else .false)
    (hl : Lowerable lm p (.bool id b)) (h : Runs (compileLeaf id n) c op c') :
    Lowered a lm p (.bool id b) c c' op := by
  rcases hfind : lm.find? id with _ | l
  · -- an unbound constant shares the wire of its text
    have hm := compileLeaf_runs hs h
    have hm' : Runs (Compiler.literal 1 (.bin b)) c op c' := by
      cases b <;> simpa [lowerLeaf, hfind, leafWidth, hk] using hm
    obtain ⟨hs', hx, hc⟩ := hs.literal hm' (.bin b)
    refine ⟨hs', hx, ?_⟩
    have hwidth : (Term.bool id b).width lm = 1 := by simp [Term.width, hfind]
    rw [Computes, hwidth]
    exact (hc.weaken fun _ _ => trivial).congr fun e _ => by simp [Term.eval, hfind]
  · have hk' : n.kind = .var ∨ n.kind = .int ∨ n.kind = .true ∨ n.kind = .false := by
      cases b <;> simp [hk]
    exact hs.compileBound hfind hk' h hl rfl (by simp [Term.width, hfind]) (by simp [Term.eval, hfind])

theorem clampSlice_ok {hi lo src hi' : Int} (h : clampSlice hi lo src = .ok hi') :
    0 < src ∧ hi' = (if hi ≥ src then src - 1 else hi) ∧ 0 ≤ lo ∧ lo ≤ hi' := by
  unfold clampSlice at h
  split_ifs at h with hsrc hhi <;> dsimp only at h <;> split_ifs at h with hlo
  all_goals
    simp only [Except.ok.injEq] at h
    simp only [Bool.or_eq_true, decide_eq_true_eq, not_or] at hlo
    subst h
    exact ⟨by omega, by simp [hhi], by omega, by omega⟩

theorem Sound.compileBitField (hs : c.Sound a lm p) (hk : n.kind = .bitField)
    (hl : Lowerable lm p (.bitField id n.name n.hi n.lo)) (h : Runs (compileLeaf id n) c op c') :
    Lowered a lm p (.bitField id n.name n.hi n.lo) c c' op := by
  have hm := compileLeaf_runs hs h
  rcases hfind : lm.find? id with _ | l
  · simp [lowerLeaf, hfind, leafWidth, hk, not_runs_throw] at hm
  rcases hclamp : clampSlice n.hi n.lo l.width with _ | hi
  · simp [lowerLeaf, hfind, leafWidth, hk, hclamp, not_runs_throw] at hm
  obtain ⟨hsrc, hhi, hlo, hlohi⟩ := clampSlice_ok hclamp
  set t : Term NodeId := .bitField id n.name n.hi n.lo
  have hwidth : t.width lm = hi - n.lo + 1 := by simp [t, Term.width, hfind, hhi]
  have hfits : hi - n.lo + 1 < 2 ^ 63 := hwidth ▸ hl.fits _ (mem_subterms_self _)
  have hport := hl.apart id (by simp [t, leafTags]) l hfind
  have hin : ∀ e, Admits lm t e → (e l.name).value < 2 ^ l.width.toNat :=
    fun e he => he.1 id (by simp [t, leafTags]) l hfind
  have heval : ∀ e, t.eval lm (values e) =
      (e l.name).value / 2 ^ n.lo.toNat % 2 ^ (hi - n.lo + 1).toNat := by
    intro e
    simp [t, Term.eval, hfind, hwidth, values]
  simp only [lowerLeaf, hfind, leafWidth, hk, hclamp, wrapWord_of_lt (by omega) hfits, bne_self_eq_false,
    Bool.false_eq_true, if_false] at hm
  obtain ⟨hs', hx, hc⟩ := hs.emit hm (by omega) hfits
  refine ⟨hs', hx, ?_⟩
  rw [Computes, hwidth]
  refine (hc.weaken fun _ _ => trivial).congr fun e he => ?_
  rw [heval]
  split_ifs with hwhole hbit
  · -- the whole signal
    simp only [Bool.and_eq_true, beq_iff_eq] at hwhole
    obtain ⟨rfl, hlo0⟩ := hwhole
    have hv := hin e he
    simp [Rhs.eval, hs.run_port hport, hlo0, Nat.mod_eq_of_lt hv]
  · -- one bit
    obtain rfl : hi = n.lo := by simpa using hbit
    simp [Rhs.eval, hs.run_port hport]
  · simp [Rhs.eval, hs.run_port hport]

end Compiler

end BitSynth.Verilog
