import Mathlib
import BitSynth.Proofs.Guards
import BitSynth.Proofs.Operators
import BitSynth.Pipeline.Request

namespace BitSynth.Verilog

section Fixes

variable {α β γ δ : Type} {f : Compiler → γ}

/-- Every successful run of `x` leaves the part `f` of the compiler state as it found it. -/
def Fixes (f : Compiler → γ) (x : Compiling α) : Prop := ∀ c v c', Runs x c v c' → f c' = f c

theorem Fixes.bind {x : Compiling α} {g : α → Compiling β} (hx : Fixes f x)
    (hg : ∀ v, Fixes f (g v)) : Fixes f (x >>= g) := by
  intro c w c'' h
  obtain ⟨v, c', hr, hr'⟩ := runs_bind.mp h
  exact (hg v c' w c'' hr').trans (hx c v c' hr)

theorem fixes_pure (v : α) : Fixes f (pure v : Compiling α) := by
  intro c v' c' h
  rw [(runs_pure.mp h).2]

theorem fixes_throw (e : Error) : Fixes f (throw e : Compiling α) :=
  fun _ _ _ h => absurd h not_runs_throw

theorem fixes_fault (e : Fault) : Fixes f (Stateful.fault e : Compiling α) :=
  fun _ _ _ h => absurd h not_runs_fault

theorem fixes_get_bind {k : Compiler → Compiling α} (h : ∀ s, Fixes f (k s)) :
    Fixes f (MonadState.get >>= k) := by
  intro c v c' hr
  obtain ⟨s, c₁, hget, hk⟩ := runs_bind.mp hr
  obtain ⟨rfl, rfl⟩ := runs_get.mp hget
  exact h _ _ v c' hk

theorem fixes_modify {m : Compiler → Compiler} (hm : ∀ c, f (m c) = f c) : Fixes f (modify m) := by
  intro c v c' h
  rw [runs_modify.mp h, hm]

theorem fixes_mapM {g : δ → Compiling α} (h : ∀ x, Fixes f (g x)) :
    ∀ xs : List δ, Fixes f (xs.mapM g)
  | [] => fixes_pure _
  | x :: xs => by
    rw [List.mapM_cons]
    exact (h x).bind fun _ => (fixes_mapM h xs).bind fun _ => fixes_pure _

theorem fixes_mapM_array {g : δ → Compiling α} (h : ∀ x, Fixes f (g x)) (xs : Array δ) :
    Fixes f (xs.mapM g) := by
  rw [Array.mapM_eq_mapM_toList, map_eq_pure_bind]
  exact (fixes_mapM h _).bind fun _ => fixes_pure _

theorem fixes_forIn {g : δ → β → Compiling (ForInStep β)} (h : ∀ x b, Fixes f (g x b)) :
    ∀ (xs : List δ) (b : β), Fixes f (forIn xs b g)
  | [], _ => fixes_pure _
  | x :: xs, b => by
    rw [List.forIn_cons]
    refine (h x b).bind fun r => ?_
    cases r with
    | done b' => exact fixes_pure b'
    | yield b' => exact fixes_forIn h xs b'

end Fixes

namespace Compiler

theorem fixes_emit (w : Int) (r : Rhs) : Fixes tempPrefix (emit w r) := by
  intro c op c' h
  obtain ⟨-, rfl⟩ := runs_emit.mp h
  rfl

theorem fixes_resize (op : Operand) (w : Int) : Fixes tempPrefix (resize op w) := by
  unfold resize
  split_ifs
  · exact fixes_emit _ _
  · exact fixes_emit _ _
  · exact fixes_emit _ _
  · exact fixes_pure _

theorem fixes_literal (w : Int) (lit : Rhs) : Fixes tempPrefix (literal w lit) := by
  unfold literal
  refine fixes_get_bind fun c => ?_
  split
  · exact fixes_pure _
  · refine (fixes_emit w lit).bind fun op => Fixes.bind (fixes_modify ?_) fun _ => fixes_pure op
    intro c
    rfl

theorem fixes_lowerLeaf (id : NodeId) (n : Node) (leaf : Option Leaf) :
    Fixes tempPrefix (lowerLeaf id n leaf) := by
  unfold lowerLeaf
  split
  · exact fixes_throw _
  split
  · split_ifs <;> exact fixes_emit _ _
  · split
    · exact fixes_literal _ _
    · exact fixes_literal _ _
    · exact fixes_literal _ _
    · exact fixes_throw _

theorem fixes_operandAt (ops : Array Operand) (i : Nat) : Fixes tempPrefix (operandAt ops i) := by
  unfold operandAt
  split
  · exact fixes_pure _
  · exact fixes_fault _

theorem fixes_lowerOperatorAt (id : NodeId) (n : Node) (args : Array Operand) (w : Int) :
    Fixes tempPrefix (lowerOperatorAt id n args w) := by
  unfold lowerOperatorAt
  -- every branch reads operands, resizes and declares, one step after another
  split_ifs <;> try split
  all_goals
    repeat' first
      | exact fixes_emit _ _
      | exact fixes_resize _ _
      | exact fixes_throw _
      | refine (fixes_operandAt _ _).bind fun _ => ?_
      | refine (fixes_resize _ _).bind fun _ => ?_
      | refine (fixes_emit _ _).bind fun _ => ?_

theorem fixes_lowerOperator (id : NodeId) (n : Node) (args : Array Operand) :
    Fixes tempPrefix (lowerOperator id n args) := by
  intro c op c' h
  obtain ⟨w, -, hm⟩ := runs_lowerOperator h
  exact fixes_lowerOperatorAt id n args w c op c' hm

theorem fixes_compileWithin : ∀ (fuel : Nat) (id : NodeId), Fixes tempPrefix (compileWithin fuel id)
  | 0, _ => by
    rw [compileWithin]
    exact fixes_throw _
  | fuel + 1, id => by
    rw [compileWithin]
    refine fixes_get_bind fun c => ?_
    split
    · exact fixes_pure _
    split
    · exact fixes_throw _
    have hrecord : ∀ op : Operand, Fixes tempPrefix
        (modify (fun c : Compiler => { c with memo := (id, op) :: c.memo }) >>= fun _ => pure op) :=
      fun op => Fixes.bind (fixes_modify fun _ => rfl) fun _ => fixes_pure op
    split_ifs
    · exact (fixes_get_bind fun _ => fixes_lowerLeaf _ _ _).bind hrecord
    · dsimp only
      exact (fixes_mapM_array (fixes_compileWithin fuel) _).bind fun _ =>
        (fixes_lowerOperator _ _ _).bind hrecord

theorem fixes_compile (id : NodeId) : Fixes tempPrefix (compile id) :=
  fixes_get_bind fun _ => fixes_compileWithin _ id

end Compiler

section Dedupe

variable {ps : List Port} {p : Port}

theorem dedupe_append_singleton (ps : List Port) (p : Port) :
    dedupe (ps ++ [p]) =
      if (dedupe ps).any (·.name == p.name) then dedupe ps else dedupe ps ++ [p] := by
  rw [dedupe, dedupe, List.foldl_append]
  rfl

theorem mem_of_mem_dedupe (h : p ∈ dedupe ps) : p ∈ ps := by
  induction ps using List.reverseRecOn with
  | nil => simp [dedupe] at h
  | append_singleton qs q ih =>
    rw [dedupe_append_singleton] at h
    split_ifs at h
    · exact List.mem_append_left _ (ih h)
    · rcases List.mem_append.mp h with h | h
      · exact List.mem_append_left _ (ih h)
      · exact List.mem_append_right _ h

theorem nodup_dedupe (ps : List Port) : ((dedupe ps).map Port.name).Nodup := by
  induction ps using List.reverseRecOn with
  | nil => simp [dedupe]
  | append_singleton qs q ih =>
    rw [dedupe_append_singleton]
    split_ifs with hany
    · exact ih
    · simp only [List.any_eq_true, beq_iff_eq, not_exists, not_and] at hany
      rw [List.map_append, List.nodup_append]
      refine ⟨ih, List.nodup_singleton _, ?_⟩
      simp only [List.mem_map, List.mem_singleton]
      rintro _ ⟨x, hx, rfl⟩ _ ⟨y, rfl, rfl⟩
      exact hany x hx

theorem exists_mem_dedupe (h : p ∈ ps) : ∃ q ∈ dedupe ps, q.name = p.name := by
  induction ps using List.reverseRecOn with
  | nil => simp at h
  | append_singleton qs q ih =>
    rw [dedupe_append_singleton]
    rcases List.mem_append.mp h with h | h
    · obtain ⟨r, hr, hn⟩ := ih h
      refine ⟨r, ?_, hn⟩
      split_ifs
      · exact hr
      · exact List.mem_append_left _ hr
    · rw [List.mem_singleton] at h
      subst h
      split_ifs with hany
      · simpa using hany
      · exact ⟨p, List.mem_append_right _ (List.mem_singleton_self p), rfl⟩

theorem dedupe_prefix (ps qs : List Port) : dedupe ps <+: dedupe (ps ++ qs) := by
  induction qs using List.reverseRecOn with
  | nil => simp
  | append_singleton qs q ih =>
    rw [← List.append_assoc, dedupe_append_singleton]
    split_ifs
    · exact ih
    · exact ih.trans (List.prefix_append _ _)

/-- The first port of each name is kept. -/
theorem mem_dedupe_of_first {pre post : List Port} (h : p.name ∉ pre.map Port.name) :
    p ∈ dedupe (pre ++ p :: post) := by
  have hfresh : (dedupe pre).any (·.name == p.name) = false := by
    simp only [List.any_eq_false, beq_iff_eq]
    intro x hx heq
    exact h (List.mem_map.mpr ⟨x, mem_of_mem_dedupe hx, heq⟩)
  have hkeep : dedupe (pre ++ [p]) = dedupe pre ++ [p] := by
    rw [dedupe_append_singleton, hfresh]
    rfl
  have hpre := dedupe_prefix (pre ++ [p]) post
  rw [List.append_assoc, List.singleton_append, hkeep] at hpre
  exact hpre.subset (List.mem_append_right _ (List.mem_singleton_self p))

end Dedupe

/-- The prefix of the temporaries starts none of the names it was chosen against, so no temporary is
named like one of them. -/
theorem tempPrefix_apart {names : List String} {pre : String} (h : tempPrefix names = .ok pre) :
    ∀ s ∈ names, ∀ i, s ≠ tempName pre i := by
  unfold tempPrefix at h
  dsimp only at h
  split at h
  · rename_i q hq
    cases h
    have hnone := List.find?_some hq
    simp only [Bool.not_eq_eq_eq_not, Bool.not_true, List.any_eq_false] at hnone
    intro s hs i heq
    apply hnone s hs
    rw [heq, tempName, String.startsWith_string_iff, String.toList_append]
    exact List.prefix_append _ _
  · cases h

/-- The line that drives `target` from the operand `op`. -/
def assignText (target : String) (op : Operand) : String :=
  "\tassign " ++ target ++ " = " ++ op.name ++ ";\n"

/-- One turn of the loop of `compileAssigns`: an assignment whose name is not done yet is compiled,
resized to its port and given its line. -/
def assignStep (as : Assign) (st : List String × String) :
    Compiling (ForInStep (List String × String)) :=
  if !st.1.contains as.port.name then do
    let op ← tryCatch (Compiler.compile as.root) fun e => throw (e.wrap ("compile " ++ as.port.name))
    let op ← Compiler.resize op as.port.width
    pure (.yield (as.port.name :: st.1, st.2 ++ assignText as.port.name op))
  else pure (.yield st)

theorem compileAssigns_eq (list : List Assign) :
    compileAssigns list = forIn list ([], "") assignStep >>= fun st => pure st.2 := by
  unfold compileAssigns assignStep assignText
  simp only [String.append_assoc]

theorem Runs.unique {α : Type} {x : Compiling α} {c c' c'' : Compiler} {v v' : α} (h : Runs x c v c')
    (h' : Runs x c v' c'') : v = v' ∧ c' = c'' := by
  unfold Runs at h h'
  rw [h] at h'
  simpa only [Except.ok.injEq, Prod.mk.injEq] using h'

theorem ends_of_runs {α : Type} {x : Compiling α} {c c' : Compiler} {v : α}
    {Q : Except Error α → Compiler → Prop} (he : Stateful.Ends x c Q) (h : Runs x c v c') :
    Q (.ok v) c' := by
  obtain ⟨r, c₁, hr, hq⟩ := he
  unfold Runs at h
  rw [h, Except.ok.injEq, Prod.mk.injEq] at hr
  obtain ⟨rfl, rfl⟩ := hr
  exact hq

/-- An assignment whose root lowers where the nets `K` are known: regular below its root, with a tree
that fits in machine words and reads only known signals. -/
def Assign.Lowers (a : Arena) (lm : LeafMap) (K : Known) (as : Assign) : Prop :=
  a.RegularBelow as.root ∧ ∃ t, a.Unfolds as.root t ∧ t.Fits lm ∧
    ∀ x ∈ t.leafTags, ∀ l, lm.find? x = some l → K l.name l.width

namespace Compiler

variable {a : Arena} {lm : LeafMap} {K : Known} {c c' : Compiler} {α : Type}

theorem Keeps.of_runs {x : Compiling α} {P : α → Compiler → Prop} {v : α}
    (hk : Keeps a lm K x c P) (h : Runs x c v c') : c'.Orderly a lm K ∧ c.Extends c' ∧ P v c' := by
  obtain ⟨v', c₁, hr, hs, hx, hp⟩ := hk
  obtain ⟨rfl, rfl⟩ := hr.unique h
  exact ⟨hs, hx, hp⟩

theorem Orderly.compile {root : NodeId} {t : Term NodeId} (hs : c.Orderly a lm K) (hacyc : a.Acyclic)
    (hreg : a.RegularBelow root) (hu : a.Unfolds root t) (hfits : t.Fits lm)
    (hK : ∀ x ∈ t.leafTags, ∀ l, lm.find? x = some l → K l.name l.width) :
    Stateful.Ends (Compiler.compile root) c (Lands a lm K t (Refuses a lm t) c) := by
  have hdepth := hu.depth_le_size hacyc
  unfold Compiler.compile
  refine Stateful.Ends.get_bind ?_
  exact Orderly.compileWithin _ hs hreg hu hfits.sizesFit hK (by rw [hs.arena]; omega)

/-- One turn of the loop over assignments: a name done before is skipped; a new one is lowered and
resized to its port, a declared operand of the port's width, and its line added. -/
theorem Orderly.assignStep {as : Assign} {st : List String × String}
    {r : ForInStep (List String × String)} (hs : c.Orderly a lm K) (hacyc : a.Acyclic)
    (has : as.Lowers a lm K) (hw : as.port.name ∉ st.1 → 0 < as.port.width ∧ as.port.width < 2 ^ 63)
    (h : Runs (assignStep as st) c r c') :
    c'.Orderly a lm K ∧ c.Extends c' ∧
      (as.port.name ∈ st.1 ∧ r = .yield st ∨
        as.port.name ∉ st.1 ∧ ∃ op, Holds op as.port.width c' ∧
          r = .yield (as.port.name :: st.1, st.2 ++ assignText as.port.name op)) := by
  unfold Verilog.assignStep at h
  split_ifs at h with hnew
  · -- a name not done yet: its root is lowered and resized to the port
    have hnot : as.port.name ∉ st.1 := by simpa using hnew
    obtain ⟨hreg, t, hu, hfits, hK⟩ := has
    obtain ⟨op, c₁, hc, h₁⟩ := runs_bind.mp h
    rw [runs_tryCatch_throw] at hc
    obtain ⟨hs₁, hx₁, hok, -⟩ := ends_of_runs (hs.compile hacyc hreg hu hfits hK) hc
    obtain ⟨op', c₂, hr, hp⟩ := runs_bind.mp h₁
    obtain ⟨hs₂, hx₂, hh⟩ := (hs₁.resize (hok op rfl).2 (hw hnot)).of_runs hr
    obtain ⟨rfl, rfl⟩ := runs_pure.mp hp
    exact ⟨hs₂, hx₁.trans hx₂, .inr ⟨hnot, op', hh, rfl⟩⟩
  · -- a name done before: nothing happens
    obtain ⟨rfl, rfl⟩ := runs_pure.mp h
    exact ⟨hs, .refl c, .inl ⟨by simpa using hnew, rfl⟩⟩

/-- The loop over assignments, by induction on the assignments left: each compiled assignment is the
first of its name, its port is among the ports `D`, and its line drives the port from a declared
operand of the port's width. -/
theorem Orderly.assignLoop {D : List Port} (hacyc : a.Acyclic)
    (hD : ∀ p ∈ D, 0 < p.width ∧ p.width < 2 ^ 63) :
    ∀ (xs : List Assign) (st : List String × String) (c : Compiler) {r : List String × String}
      {c' : Compiler}, c.Orderly a lm K → (∀ as ∈ xs, as.Lowers a lm K) →
      (∀ pre as post, xs = pre ++ as :: post → as.port.name ∉ st.1 →
        as.port.name ∉ pre.map (·.port.name) → as.port ∈ D) →
      Runs (forIn xs st Verilog.assignStep) c r c' →
      c'.Orderly a lm K ∧ c.Extends c' ∧ ∃ lines : List (String × Operand),
        r.2 = st.2 ++ String.join (lines.map fun q => assignText q.1 q.2) ∧
        ∀ q ∈ lines, ∃ p ∈ D, p.name = q.1 ∧ Holds q.2 p.width c'
  | [], st, c, r, c', hs, _, _, h => by
    rw [List.forIn_nil] at h
    obtain ⟨rfl, rfl⟩ := runs_pure.mp h
    exact ⟨hs, .refl c, [], by simp, by simp⟩
  | as :: xs, st, c, r, c', hs, hL, hfirst, h => by
    rw [List.forIn_cons] at h
    obtain ⟨step, c₁, h₁, h₂⟩ := runs_bind.mp h
    have hw : as.port.name ∉ st.1 → 0 < as.port.width ∧ as.port.width < 2 ^ 63 := fun hnot =>
      hD _ (hfirst [] as xs rfl hnot (by simp))
    have hxs : ∀ b ∈ xs, b.Lowers a lm K := fun b hb => hL b (List.mem_cons_of_mem as hb)
    obtain ⟨hs₁, hx₁, hstep⟩ := hs.assignStep hacyc (hL as List.mem_cons_self) hw h₁
    rcases hstep with ⟨hdone, rfl⟩ | ⟨hnot, op, hop, rfl⟩
    · -- done before: the rest runs with the same names done
      have hrest : ∀ pre b post, xs = pre ++ b :: post → b.port.name ∉ st.1 →
          b.port.name ∉ pre.map (·.port.name) → b.port ∈ D := by
        intro pre b post hxs hb hpre
        refine hfirst (as :: pre) b post (by rw [hxs]; rfl) hb ?_
        simp only [List.map_cons, List.mem_cons, not_or]
        exact ⟨fun heq => hb (heq ▸ hdone), hpre⟩
      obtain ⟨hs₂, hx₂, lines, hr, hlines⟩ := Orderly.assignLoop hacyc hD xs st c₁ hs₁ hxs hrest h₂
      exact ⟨hs₂, hx₁.trans hx₂, lines, hr, hlines⟩
    · -- compiled: its line comes before those of the rest
      have hrest : ∀ pre b post, xs = pre ++ b :: post → b.port.name ∉ as.port.name :: st.1 →
          b.port.name ∉ pre.map (·.port.name) → b.port ∈ D := by
        intro pre b post hxs hb hpre
        rw [List.mem_cons, not_or] at hb
        refine hfirst (as :: pre) b post (by rw [hxs]; rfl) hb.2 ?_
        simp only [List.map_cons, List.mem_cons, not_or]
        exact ⟨hb.1, hpre⟩
      obtain ⟨hs₂, hx₂, lines, hr, hlines⟩ := Orderly.assignLoop hacyc hD xs _ c₁ hs₁ hxs hrest h₂
      have hpD : as.port ∈ D := hfirst [] as xs rfl hnot (by simp)
      refine ⟨hs₂, hx₁.trans hx₂, (as.port.name, op) :: lines, ?_, ?_⟩
      · rw [hr]
        simp [String.append_assoc]
      · intro q hq
        rcases List.mem_cons.mp hq with rfl | hq
        · exact ⟨as.port, hpD, rfl, hop.mono hx₂⟩
        · exact hlines q hq

/-- Compiling the assignments of a list from an orderly state: the lines drive ports kept by
dropping repeated names, each from a declared operand of the port's width. -/
theorem Orderly.compileAssigns {L : List Assign} {s : String} (hs : c.Orderly a lm K)
    (hacyc : a.Acyclic) (hL : ∀ as ∈ L, as.Lowers a lm K)
    (hD : ∀ p ∈ dedupe (L.map (·.port)), 0 < p.width ∧ p.width < 2 ^ 63)
    (h : Runs (Verilog.compileAssigns L) c s c') :
    c'.Orderly a lm K ∧ c.Extends c' ∧ ∃ lines : List (String × Operand),
      s = String.join (lines.map fun q => assignText q.1 q.2) ∧
      ∀ q ∈ lines, ∃ p ∈ dedupe (L.map (·.port)), p.name = q.1 ∧ Holds q.2 p.width c' := by
  rw [compileAssigns_eq] at h
  obtain ⟨st, c₁, hloop, hp⟩ := runs_bind.mp h
  obtain ⟨rfl, rfl⟩ := runs_pure.mp hp
  have hfirst : ∀ pre as post, L = pre ++ as :: post → as.port.name ∉ ([] : List String) →
      as.port.name ∉ pre.map (·.port.name) → as.port ∈ dedupe (L.map (·.port)) := by
    intro pre as post hL' _ hpre
    rw [hL', List.map_append, List.map_cons]
    exact mem_dedupe_of_first (by simpa using hpre)
  obtain ⟨hs', hx, lines, hr, hlines⟩ := Orderly.assignLoop hacyc hD L ([], "") c hs hL hfirst hloop
  exact ⟨hs', hx, lines, by simpa using hr, hlines⟩

theorem fixes_assignStep (as : Assign) (st : List String × String) :
    Fixes tempPrefix (assignStep as st) := by
  unfold assignStep
  split_ifs
  · refine Fixes.bind ?_ fun op => (fixes_resize op _).bind fun _ => fixes_pure _
    intro c v c' h
    rw [runs_tryCatch_throw] at h
    exact fixes_compile _ c v c' h
  · exact fixes_pure _

theorem fixes_compileAssigns (L : List Assign) : Fixes tempPrefix (Verilog.compileAssigns L) := by
  rw [compileAssigns_eq]
  exact (fixes_forIn fixes_assignStep L _).bind fun _ => fixes_pure _

end Compiler

section Guarded

variable {α β δ : Type}

theorem guarded_bind_ok {x : Guarded α} {f : α → Guarded β} {v : β}
    (h : (x >>= f).run = .ok (.ok v)) : ∃ a, x.run = .ok (.ok a) ∧ (f a).run = .ok (.ok v) := by
  rw [ExceptT.run_bind] at h
  rcases hx : ExceptT.run x with e | e | a <;> rw [hx] at h
  · cases h
  · cases h
  · exact ⟨a, rfl, h⟩

theorem ofChecked_ok {x : Except Fault α} {v : α} (h : (Guarded.ofChecked x).run = .ok (.ok v)) :
    x = .ok v := by
  cases x <;> simp_all [Guarded.ofChecked, ExceptT.lift, ExceptT.run_mk]

/-- A loop each of whose turns yields or throws, run to its end, passed every element. -/
theorem forIn_guarded_ok {g : δ → PUnit → Guarded (ForInStep PUnit)} {P : δ → Prop}
    (hg : ∀ x u v, (g x u).run = .ok (.ok v) → P x ∧ v = .yield ⟨⟩) :
    ∀ (xs : List δ) {u : PUnit}, (forIn xs ⟨⟩ g).run = .ok (.ok u) → ∀ x ∈ xs, P x
  | [], _, _ => by simp
  | x :: xs, u, h => by
    rw [List.forIn_cons] at h
    obtain ⟨v, hv, hrest⟩ := guarded_bind_ok h
    obtain ⟨hx, rfl⟩ := hg x ⟨⟩ v hv
    intro y hy
    rcases List.mem_cons.mp hy with rfl | hy
    · exact hx
    · exact forIn_guarded_ok hg xs hrest y hy

end Guarded

/-- A module as the emitter lays it out: its name, whether one-bit ports are declared as vectors,
the input ports, outputs and hidden wires it declares, the compiled wires, and the assignments,
each driving a port from an operand. -/
structure Layout where
  name : String
  vectorize : Bool
  inputs : List Port
  outputs : List Port
  hidden : List Port
  wires : List Wire
  assigns : List (String × Operand)

namespace Layout

/-- The text of a laid-out module: a header, one declaration per port and hidden wire, the compiled
wires, and one `assign` line per assignment. -/
def text (l : Layout) : String :=
  "// generated expression module for " ++ l.name ++ "\n" ++ "module " ++ l.name ++ " (" ++
      ", ".intercalate ((l.inputs ++ l.outputs).map (·.name)) ++ " );\n" ++
    (String.join (l.inputs.map (declare "input" · l.vectorize)) ++
      String.join (l.outputs.map (declare "output" · l.vectorize)) ++
      String.join (l.hidden.map (declare "wire" · l.vectorize))) ++
    String.join (l.wires.map Wire.text) ++ String.join (l.assigns.map fun q => assignText q.1 q.2) ++
    "endmodule\n"

/-- The ports and hidden wires a layout declares. -/
def ports (l : Layout) : List Port := l.inputs ++ l.outputs ++ l.hidden

/-- The names a layout declares, in order: its ports and hidden wires, then its compiled wires. -/
def declared (l : Layout) : List String := l.ports.map Port.name ++ l.wires.map Wire.name

/-- The nets the compiled wires may read first: the input ports, each at its width. -/
def inputNets (l : Layout) : Known := fun s w => ∃ p ∈ l.inputs, p.name = s ∧ p.width = w

/-- A well-formed module: every name is declared once, every port and hidden wire is at least one
bit wide, the compiled wires are well formed in order over the input ports (each reads only nets
declared before it and selects only inside their declared widths), and every assignment drives an
output or a hidden wire from a compiled wire of the same width. -/
structure WellFormed (l : Layout) : Prop where
  nodup : l.declared.Nodup
  ports : ∀ p ∈ l.ports, 0 < p.width
  wires : Verilog.WellFormed l.inputNets l.wires
  assigns : ∀ q ∈ l.assigns, ∃ p ∈ l.outputs ++ l.hidden, p.name = q.1 ∧ q.2.width = p.width ∧
    Declared l.wires q.2

end Layout

/-- What a successful emission did: every port and hidden wire it declares has a positive width,
the temporaries take a prefix chosen against their names, the hidden wires' and then the outputs'
assignments compile from a fresh compiler, and the text lays out the declarations, the compiled
wires and the assignment lines. -/
theorem emit_ok {a : Arena} {lm : LeafMap} {m : Module} {text : String}
    (h : (emit a lm m).run = .ok (.ok text)) :
    (∀ p ∈ dedupe m.inputs ++ dedupe (m.outputs.map (·.port)) ++ dedupe (m.hidden.map (·.port)),
      0 < p.width) ∧
    ∃ pre hs os c₁ c₂, tempPrefix ((dedupe m.inputs ++ dedupe (m.outputs.map (·.port)) ++
        dedupe (m.hidden.map (·.port))).map (·.name)) = .ok pre ∧
      Runs (compileAssigns m.hidden) (Compiler.new a lm pre) hs c₁ ∧
      Runs (compileAssigns m.outputs) c₁ os c₂ ∧
      ∀ hl ol : List (String × Operand), hs = String.join (hl.map fun q => assignText q.1 q.2) →
        os = String.join (ol.map fun q => assignText q.1 q.2) →
        text = Layout.text ⟨m.name, m.vectorizeAll, dedupe m.inputs, dedupe (m.outputs.map (·.port)),
          dedupe (m.hidden.map (·.port)), c₂.wires.toList, hl ++ ol⟩ := by
  unfold emit at h
  split_ifs at h with hname
  · simp at h
  obtain ⟨u, hloop, h⟩ := guarded_bind_ok h
  have hpos := forIn_guarded_ok (P := fun p : Port => 0 < p.width) (fun p u v hv => ?_) _ hloop
  rotate_left
  · split_ifs at hv with hw
    · simp at hv
    · injection hv with hv
      injection hv with hv
      exact ⟨by omega, hv.symm⟩
  dsimp only at h
  split at h
  · rename_i pre hpre
    rw [pure_bind] at h
    obtain ⟨⟨r, c⟩, hrun, h⟩ := guarded_bind_ok h
    dsimp only at h
    split at h
    · rename_i s
      rw [pure_bind] at h
      have htext := Except.ok.inj (Except.ok.inj h)
      obtain ⟨hs, c₁, hh, h₁⟩ := runs_bind.mp (ofChecked_ok hrun)
      obtain ⟨os, c₂, ho, h₂⟩ := runs_bind.mp h₁
      obtain ⟨hs', hc⟩ := runs_pure.mp h₂
      refine ⟨hpos, pre, hs, os, c₁, c₂, hpre, hh, ho, fun hl ol hhl hol => ?_⟩
      subst htext hs' hc hhl hol
      unfold Layout.text Compiler.body
      dsimp only
      simp only [List.map_append, String.join_append]
    · simp at h
  · simp at h

/-- Groups that share no name, each with repeated names dropped, declare every name once. -/
theorem nodup_dedupe_groups {ins outs hidden : List Port}
    (hio : ∀ p ∈ ins, ∀ q ∈ outs ++ hidden, p.name ≠ q.name)
    (hoh : ∀ p ∈ outs, ∀ q ∈ hidden, p.name ≠ q.name) :
    ((dedupe ins ++ dedupe outs ++ dedupe hidden).map Port.name).Nodup := by
  have hsub : ∀ {xs : List Port} {n : String}, n ∈ (dedupe xs).map Port.name → ∃ p ∈ xs, p.name = n := by
    intro xs n hn
    obtain ⟨p, hp, rfl⟩ := List.mem_map.mp hn
    exact ⟨p, mem_of_mem_dedupe hp, rfl⟩
  rw [List.map_append, List.map_append, List.nodup_append, List.nodup_append]
  refine ⟨⟨nodup_dedupe ins, nodup_dedupe outs, ?_⟩, nodup_dedupe hidden, ?_⟩
  · intro x hx y hy
    obtain ⟨p, hp, rfl⟩ := hsub hx
    obtain ⟨q, hq, rfl⟩ := hsub hy
    exact hio p hp q (List.mem_append_left _ hq)
  · intro x hx y hy
    obtain ⟨q, hq, rfl⟩ := hsub hy
    rcases List.mem_append.mp hx with hx | hx
    · obtain ⟨p, hp, rfl⟩ := hsub hx
      exact hio p hp q (List.mem_append_right _ hq)
    · obtain ⟨p, hp, rfl⟩ := hsub hx
      exact hoh p hp q hq

theorem inputNet_of_cover {ins : List Port} {l : Leaf}
    (h : (∃ p ∈ ins, p.name = l.name) ∧ ∀ p ∈ ins, p.name = l.name → p.width = l.width) :
    ∃ q ∈ dedupe ins, q.name = l.name ∧ q.width = l.width := by
  obtain ⟨⟨p, hp, hn⟩, hw⟩ := h
  obtain ⟨q, hq, hqn⟩ := exists_mem_dedupe hp
  exact ⟨q, hq, hqn.trans hn, hw q (mem_of_mem_dedupe hq) (hqn.trans hn)⟩

/-- Modules are emitted well formed. Over an acyclic graph of canonical kinds, let every output and
hidden wire be driven by a root that validation accepts, whose tree fits in machine words and
whose signals the input ports cover at their widths; let the outputs and hidden wires fit in machine
words, and let no name be shared between the inputs, the outputs and the hidden wires. Then the
text of a successful emission lays out the module's ports and hidden wires, with repeated names
dropped, and compiled wires and assignments that make it well formed: every name is declared once,
every temporary is declared before it is read and reads only declared nets, every bit or part select
is inside the declared width, and every output and hidden wire is driven from a temporary of its
width. -/
theorem emitted_module_well_formed {a : Arena} {lm : LeafMap} {m : Module} {r : Reporter}
    {text : String} (hacyc : a.Acyclic) (hcanon : ∀ id n, a.node? id = some n → n.kind.Canonical)
    (hroots : ∀ as ∈ m.outputs ++ m.hidden, (a.check as.root lm (some r)).2 = .ok () ∧
      ∃ t, a.Unfolds as.root t ∧ t.Fits lm ∧ ∀ x ∈ t.leafTags, ∀ l, lm.find? x = some l →
        (∃ p ∈ m.inputs, p.name = l.name) ∧ ∀ p ∈ m.inputs, p.name = l.name → p.width = l.width)
    (hwide : ∀ as ∈ m.outputs ++ m.hidden, as.port.width < 2 ^ 63)
    (hapart : ∀ p ∈ m.inputs, ∀ q ∈ (m.outputs ++ m.hidden).map (·.port), p.name ≠ q.name)
    (hsplit : ∀ p ∈ m.outputs.map (·.port), ∀ q ∈ m.hidden.map (·.port), p.name ≠ q.name)
    (hemit : (emit a lm m).run = .ok (.ok text)) :
    ∃ l : Layout, text = l.text ∧ l.name = m.name ∧ l.vectorize = m.vectorizeAll ∧
      l.inputs = dedupe m.inputs ∧ l.outputs = dedupe (m.outputs.map (·.port)) ∧
      l.hidden = dedupe (m.hidden.map (·.port)) ∧ l.WellFormed := by
  obtain ⟨hpos, pre, hs, os, c₁, c₂, hpre, hh, ho, htext⟩ := emit_ok hemit
  let K : Known := fun s w => ∃ p ∈ dedupe m.inputs, p.name = s ∧ p.width = w
  -- every assignment lowers where the input ports are known
  have hlowers : ∀ as ∈ m.outputs ++ m.hidden, as.Lowers a lm K := by
    intro as has
    obtain ⟨hcheck, t, hu, hfits, hcover⟩ := hroots as has
    exact ⟨Arena.regularBelow_of_check hacyc hcanon hcheck, t, hu, hfits,
      fun x hx l hl => inputNet_of_cover (hcover x hx l hl)⟩
  -- the ports kept for the assignments are positive and fit in machine words
  have hbounds : ∀ L : List Assign, (∀ as ∈ L, as ∈ m.outputs ++ m.hidden) →
      (∀ p ∈ dedupe (L.map (·.port)), 0 < p.width) →
      ∀ p ∈ dedupe (L.map (·.port)), 0 < p.width ∧ p.width < 2 ^ 63 := by
    intro L hL hL' p hp
    obtain ⟨as, has, rfl⟩ := List.mem_map.mp (mem_of_mem_dedupe hp)
    exact ⟨hL' _ hp, hwide as (hL as has)⟩
  have hhid : ∀ as ∈ m.hidden, as ∈ m.outputs ++ m.hidden := fun as h => List.mem_append_right _ h
  have hout : ∀ as ∈ m.outputs, as ∈ m.outputs ++ m.hidden := fun as h => List.mem_append_left _ h
  obtain ⟨hs₁, hx₁, hl, rfl, hhl⟩ := (Compiler.orderly_new a lm pre K).compileAssigns hacyc
    (fun as h => hlowers as (hhid as h))
    (hbounds _ hhid fun p hp => hpos p (List.mem_append_right _ hp)) hh
  obtain ⟨hs₂, hx₂, ol, rfl, hol⟩ := hs₁.compileAssigns hacyc (fun as h => hlowers as (hout as h))
    (hbounds _ hout fun p hp => hpos p (List.mem_append_left _ (List.mem_append_right _ hp))) ho
  -- the temporaries keep the prefix chosen against the port names
  have hpre₂ : c₂.tempPrefix = pre :=
    (Compiler.fixes_compileAssigns _ c₁ _ c₂ ho).trans (Compiler.fixes_compileAssigns _ _ _ c₁ hh)
  refine ⟨⟨m.name, m.vectorizeAll, dedupe m.inputs, dedupe (m.outputs.map (·.port)),
    dedupe (m.hidden.map (·.port)), c₂.wires.toList, hl ++ ol⟩, htext hl ol rfl rfl, rfl, rfl, rfl,
    rfl, rfl, ⟨?_, hpos, hs₂.wires, ?_⟩⟩
  · -- ports apart by hypothesis, temporaries apart by their names, and ports apart from temporaries
    refine List.nodup_append.mpr ⟨nodup_dedupe_groups (by simpa using hapart) hsplit,
      Compiler.nodup_of_names hs₂.names, fun x hx y hy heq => ?_⟩
    rw [hs₂.names, hpre₂] at hy
    obtain ⟨i, -, rfl⟩ := List.mem_map.mp hy
    exact tempPrefix_apart hpre x hx i heq
  · -- each line drives a kept output or hidden wire from a declared wire of its width
    intro q hq
    rcases List.mem_append.mp hq with hq | hq
    · obtain ⟨p, hp, hn, hhold⟩ := hhl q hq
      exact ⟨p, List.mem_append_right _ hp, hn, hhold.1, (hhold.mono hx₂).2⟩
    · obtain ⟨p, hp, hn, hhold⟩ := hol q hq
      exact ⟨p, List.mem_append_left _ hp, hn, hhold.1, hhold.2⟩

/-- `a + a` driving a hidden wire `s` and an output `y`, over a four-bit signal listed twice among
the inputs. -/
def sumModule : Module :=
  { name := "blk", inputs := [⟨"a", 4⟩, ⟨"a", 4⟩], outputs := [⟨⟨"y", 6⟩, 1⟩],
    hidden := [⟨⟨"s", 5⟩, 1⟩] }

set_option maxRecDepth 20000 in
/-- A module whose input `a` is listed twice declares it once, and its text is well formed. -/
theorem sum_module_well_formed :
    (emit doubleArena doubleLeaves sumModule).run = .ok (.ok
      "// generated expression module for blk\nmodule blk (a, y );\n\tinput [3:0] a ;\n\toutput [5:0] y ;\n\twire [4:0] s ;\n\twire [3:0] _xtpa0 = a;\n\twire [4:0] _xtpa1 = \x7b1'd0, _xtpa0\x7d;\n\twire [4:0] _xtpa2 = \x7b1'd0, _xtpa0\x7d;\n\twire [4:0] _xtpa3 = _xtpa1 + _xtpa2;\n\twire [5:0] _xtpa4 = \x7b1'd0, _xtpa3\x7d;\n\tassign s = _xtpa3;\n\tassign y = _xtpa4;\nendmodule\n") ∧
    ∃ l : Layout, l.text = "// generated expression module for blk\nmodule blk (a, y );\n\tinput [3:0] a ;\n\toutput [5:0] y ;\n\twire [4:0] s ;\n\twire [3:0] _xtpa0 = a;\n\twire [4:0] _xtpa1 = \x7b1'd0, _xtpa0\x7d;\n\twire [4:0] _xtpa2 = \x7b1'd0, _xtpa0\x7d;\n\twire [4:0] _xtpa3 = _xtpa1 + _xtpa2;\n\twire [5:0] _xtpa4 = \x7b1'd0, _xtpa3\x7d;\n\tassign s = _xtpa3;\n\tassign y = _xtpa4;\nendmodule\n" ∧
      l.inputs = [⟨"a", 4⟩] ∧ l.WellFormed := by
  have hu : doubleArena.Unfolds 1 (.binary 1 .add (.var 0 "a") (.var 0 "a")) :=
    .binary (n := doubleArena.nodes[1]) rfl ⟨rfl, by decide⟩ rfl
      (.var (n := doubleArena.nodes[0]) rfl rfl rfl) (.var (n := doubleArena.nodes[0]) rfl rfl rfl)
  have hfits : (Term.binary 1 .add (.var 0 "a") (.var 0 "a")).Fits doubleLeaves := by
    unfold Term.Fits
    decide
  have hemit : (emit doubleArena doubleLeaves sumModule).run = .ok (.ok
      "// generated expression module for blk\nmodule blk (a, y );\n\tinput [3:0] a ;\n\toutput [5:0] y ;\n\twire [4:0] s ;\n\twire [3:0] _xtpa0 = a;\n\twire [4:0] _xtpa1 = \x7b1'd0, _xtpa0\x7d;\n\twire [4:0] _xtpa2 = \x7b1'd0, _xtpa0\x7d;\n\twire [4:0] _xtpa3 = _xtpa1 + _xtpa2;\n\twire [5:0] _xtpa4 = \x7b1'd0, _xtpa3\x7d;\n\tassign s = _xtpa3;\n\tassign y = _xtpa4;\nendmodule\n") := by
    with_unfolding_all rfl
  have hroots : ∀ as ∈ sumModule.outputs ++ sumModule.hidden,
      (doubleArena.check as.root doubleLeaves (some {})).2 = .ok () ∧
      ∃ t, doubleArena.Unfolds as.root t ∧ t.Fits doubleLeaves ∧ ∀ x ∈ t.leafTags, ∀ l,
        doubleLeaves.find? x = some l → (∃ p ∈ sumModule.inputs, p.name = l.name) ∧
          ∀ p ∈ sumModule.inputs, p.name = l.name → p.width = l.width := by
    intro as has
    simp only [sumModule, List.cons_append, List.nil_append, List.mem_cons, List.not_mem_nil,
      or_false] at has
    have hroot : as.root = 1 := by rcases has with rfl | rfl <;> rfl
    refine ⟨by rw [hroot]; rfl, _, hroot ▸ hu, hfits, fun x hx l hl => ?_⟩
    simp only [Term.leafTags, List.mem_append, List.mem_singleton, or_self] at hx
    subst hx
    have hleaf : l = ⟨"a", 4⟩ := by
      rw [show doubleLeaves.find? 0 = some ⟨"a", 4⟩ from rfl] at hl
      exact (Option.some.inj hl).symm
    subst hleaf
    decide
  obtain ⟨l, htext, -, -, hins, -, -, hwf⟩ := emitted_module_well_formed
    (Arena.acyclic_of_args_lt (by decide)) (Arena.canonical_of_forall (by decide)) hroots
    (by decide) (by decide) (by decide) hemit
  exact ⟨hemit, l, htext.symm, hins ▸ rfl, hwf⟩

/-- `out + 1` over a four-bit signal named `out`. -/
def outArena : Arena :=
  ⟨#[{ kind := .var, name := "out" }, { kind := .int, value := 1 }, { kind := .add, args := #[0, 1] }]⟩

def outLeaves : LeafMap := ⟨[(0, ⟨"out", 4⟩)]⟩

set_option maxRecDepth 20000 in
/-- A signal named like the output: the request for `out + 1` over a signal `out` takes `out` as
its input port, and the module is emitted with `out` declared twice, as the input and as the
output. -/
theorem signal_named_out_declared_twice :
    ∃ req, (Pipeline.Request.single "blk" outArena 2 outLeaves 65).run = .ok (.ok req) ∧
      req.inputs = [⟨"out", 4⟩] ∧
      (emit outArena outLeaves (req.toModule "blk")).run = .ok (.ok
        "// generated expression module for blk\nmodule blk (out, out );\n\tinput [3:0] out ;\n\toutput [64:0] out ;\n\twire [3:0] _xtpa0 = out;\n\twire [63:0] _xtpa1 = 64'd1;\n\twire [64:0] _xtpa2 = \x7b61'd0, _xtpa0\x7d;\n\twire [64:0] _xtpa3 = \x7b1'd0, _xtpa1\x7d;\n\twire [64:0] _xtpa4 = _xtpa2 + _xtpa3;\n\tassign out = _xtpa4;\nendmodule\n") :=
  ⟨_, by with_unfolding_all rfl, rfl, by with_unfolding_all rfl⟩

end BitSynth.Verilog
