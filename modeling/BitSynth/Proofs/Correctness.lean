import BitSynth.Proofs.Operators
import BitSynth.Proofs.Validation

namespace BitSynth.Verilog

open Term

namespace Compiler

variable {a : Arena} {lm : LeafMap} {p : String} {c c' : Compiler} {id : NodeId} {n : Node}
  {op : Operand} {t : Term NodeId}

/-- Operands lowered one after another, each by a lowering proved for its tree, all carry their
trees' meanings in the final state. -/
theorem Sound.mapM {f : NodeId → Compiling Operand} {ids : List NodeId} {ts : List (Term NodeId)}
    {ops : List Operand} (hs : c.Sound a lm p)
    (hf : List.Forall₂ (fun x u => ∀ c c' op, c.Sound a lm p → Runs (f x) c op c' →
      Lowered a lm p u c c' op) ids ts)
    (h : Runs (ids.mapM f) c ops c') :
    c'.Sound a lm p ∧ c.Extends c' ∧ List.Forall₂ (Computes c'.wires.toList lm) ts ops := by
  induction hf generalizing c ops with
  | nil =>
    obtain ⟨rfl, rfl⟩ := runs_pure.mp h
    exact ⟨hs, .refl c, .nil⟩
  | cons hd _ ih =>
    rw [List.mapM_cons] at h
    obtain ⟨o, c₁, h₁, h'⟩ := runs_bind.mp h
    obtain ⟨os, c₂, h₂, h₃⟩ := runs_bind.mp h'
    obtain ⟨rfl, rfl⟩ := runs_pure.mp h₃
    obtain ⟨hs₁, hx₁, hc₁⟩ := hd c c₁ o hs h₁
    obtain ⟨hs₂, hx₂, hrest⟩ := ih hs₁ h₂
    exact ⟨hs₂, hx₁.trans hx₂, .cons (hx₂.carries hs₂.nodup hc₁) hrest⟩

theorem Sound.mapM_array {f : NodeId → Compiling Operand} {ids : Array NodeId}
    {ts : List (Term NodeId)} {ops : Array Operand} (hs : c.Sound a lm p)
    (hf : List.Forall₂ (fun x u => ∀ c c' op, c.Sound a lm p → Runs (f x) c op c' →
      Lowered a lm p u c c' op) ids.toList ts)
    (h : Runs (ids.mapM f) c ops c') :
    c'.Sound a lm p ∧ c.Extends c' ∧ List.Forall₂ (Computes c'.wires.toList lm) ts ops.toList := by
  rw [Array.mapM_eq_mapM_toList, runs_map] at h
  obtain ⟨os, h, rfl⟩ := h
  exact hs.mapM hf h

/-- Recording a node's operand keeps the state sound when the operand carries the node's tree. -/
theorem Sound.memoise (hs : c.Sound a lm p) (hu : a.Unfolds id t)
    (hc : Computes c.wires.toList lm t op) :
    ({ c with memo := (id, op) :: c.memo } : Compiler).Sound a lm p where
  arena := hs.arena
  leaves := hs.leaves
  temps := hs.temps
  names := hs.names
  memo x o hmem u hu' hl := by
    rcases List.mem_cons.mp hmem with heq | hmem
    · obtain ⟨rfl, rfl⟩ := Prod.mk.inj heq
      obtain rfl := hu.unique hu'
      exact hc
    · exact hs.memo x o hmem u hu' hl
  literals := hs.literals

theorem not_runs_compileWithin_zero : ¬ Runs (compileWithin 0 id) c op c' := by
  rw [compileWithin]
  exact not_runs_throw

/-- One level of lowering: a memoised node gives back its operand, any other node is lowered as a
leaf or as an operator over its lowered operands, and memoised. -/
theorem Sound.compileWithin_succ {fuel : Nat} (hs : c.Sound a lm p) (hu : a.Unfolds id t)
    (hl : Lowerable lm p t) (hn : a.node? id = some n)
    (hleaf : n.kind.isLeaf → ∀ c₁ c₂ op, c₁.Sound a lm p → Runs (compileLeaf id n) c₁ op c₂ →
      Lowered a lm p t c₁ c₂ op)
    (hop : n.kind.isLeaf = false → ∀ c₁ c₂ c₃ ops op, c₁.Sound a lm p →
      Runs (n.args.mapM (compileWithin fuel)) c₁ ops c₂ → Runs (lowerOperator id n ops) c₂ op c₃ →
      Lowered a lm p t c₁ c₃ op)
    (h : Runs (compileWithin (fuel + 1) id) c op c') : Lowered a lm p t c c' op := by
  rw [compileWithin] at h
  obtain ⟨c₀, c₁, hg, hm⟩ := runs_bind.mp h
  obtain ⟨rfl, rfl⟩ := runs_get.mp hg
  split at hm
  · -- a memoised node
    rename_i x o hfind
    obtain ⟨rfl, rfl⟩ := runs_pure.mp hm
    have hx : x = id := by simpa using List.find?_some hfind
    subst hx
    exact ⟨hs, .refl _, hs.memo x o (List.mem_of_find?_eq_some hfind) t hu hl⟩
  rw [hs.arena, hn] at hm
  simp only at hm
  -- a node lowered for the first time is memoised with its operand
  have hmemo : ∀ c₂ c₃ o, Lowered a lm p t c₁ c₂ o → Runs (do
      modify fun c : Compiler => { c with memo := (id, o) :: c.memo }
      pure o) c₂ op c₃ → Lowered a lm p t c₁ c₃ op := by
    intro c₂ c₃ o hlow hrest
    obtain ⟨_, c₄, hmod, hp⟩ := runs_bind.mp hrest
    obtain ⟨rfl, rfl⟩ := runs_pure.mp hp
    obtain rfl := runs_modify.mp hmod
    exact ⟨hlow.sound.memoise hu hlow.carries, hlow.grows, hlow.carries⟩
  split_ifs at hm with hk
  · obtain ⟨o, c₂, h₁, h₂⟩ := runs_bind.mp hm
    exact hmemo c₂ c' o (hleaf hk c₁ c₂ o hs h₁) h₂
  · obtain ⟨ops, c₂, h₁, h₂⟩ := runs_bind.mp hm
    obtain ⟨o, c₃, h₃, h₄⟩ := runs_bind.mp h₂
    exact hmemo c₃ c' o (hop (by simpa using hk) c₁ c₂ c₃ ops o hs h₁ h₃) h₄

theorem compileWithin_fuel {fuel : Nat} (h : Runs (compileWithin fuel id) c op c') :
    ∃ f, fuel = f + 1 := by
  cases fuel with
  | zero => exact absurd h not_runs_compileWithin_zero
  | succ f => exact ⟨f, rfl⟩

theorem Sound.compileOperator {fuel : Nat} (hs : c.Sound a lm p) (hu : a.Unfolds id t)
    (hl : Lowerable lm p t) (hn : a.node? id = some n) (hleaf : n.kind.isLeaf = false)
    (hargs : List.Forall₂ (fun x u => ∀ c c' op, c.Sound a lm p → Runs (compileWithin fuel x) c op c' →
      Lowered a lm p u c c' op) n.args.toList t.args)
    (hlower : ∀ c c' ops op, c.Sound a lm p → List.Forall₂ (Computes c.wires.toList lm) t.args ops.toList →
      Runs (lowerOperator id n ops) c op c' → Lowered a lm p t c c' op)
    (h : Runs (compileWithin (fuel + 1) id) c op c') : Lowered a lm p t c c' op := by
  refine hs.compileWithin_succ hu hl hn (fun hk => by simp [hleaf] at hk) (fun _ c₁ c₂ c₃ ops o hs₁ h₁ h₂ => ?_) h
  obtain ⟨hs₂, hx₂, hops⟩ := hs₁.mapM_array hargs h₁
  exact (hlower c₂ c₃ ops o hs₂ hops h₂).extend_left hx₂

/-- Lowering a node, from a sound state, computes the node's tree: the operand it returns carries
the tree's meaning in every environment that admits it, and the state stays sound. -/
theorem Sound.compileWithin {fuel : Nat} (hs : c.Sound a lm p) (hu : a.Unfolds id t)
    (hl : Lowerable lm p t) (h : Runs (compileWithin fuel id) c op c') : Lowered a lm p t c c' op := by
  induction hu generalizing fuel c c' op with
  | var hn hk ha =>
    obtain ⟨fuel, rfl⟩ := compileWithin_fuel h
    exact hs.compileWithin_succ (.var hn hk ha) hl hn (fun _ _ _ _ hs₁ h₁ => hs₁.compileVar hk hl h₁)
      (fun hleaf => by simp [hk, Kind.isLeaf] at hleaf) h
  | int hn hk ha =>
    obtain ⟨fuel, rfl⟩ := compileWithin_fuel h
    exact hs.compileWithin_succ (.int hn hk ha) hl hn (fun _ _ _ _ hs₁ h₁ => hs₁.compileInt hk hl h₁)
      (fun hleaf => by simp [hk, Kind.isLeaf] at hleaf) h
  | @bool id n b hn hk ha =>
    obtain ⟨fuel, rfl⟩ := compileWithin_fuel h
    exact hs.compileWithin_succ (.bool hn hk ha) hl hn (fun _ _ _ _ hs₁ h₁ => hs₁.compileBool hk hl h₁)
      (fun hleaf => by cases b <;> simp [hk, Kind.isLeaf] at hleaf) h
  | bitField hn hk ha =>
    obtain ⟨fuel, rfl⟩ := compileWithin_fuel h
    exact hs.compileWithin_succ (.bitField hn hk ha) hl hn
      (fun _ _ _ _ hs₁ h₁ => hs₁.compileBitField hk hl h₁) (fun hleaf => by simp [hk, Kind.isLeaf] at hleaf) h
  | @unary id x n tx hn hk ha hx ih =>
    obtain ⟨fuel, rfl⟩ := compileWithin_fuel h
    refine hs.compileOperator (.unary hn hk ha hx) hl hn (Kind.isLeaf_of_isUnary hk) ?_
      (fun c₁ c₂ ops o hs₁ hops h₁ => ?_) h
    · rw [ha]
      exact .cons (fun c c' o hs h => ih hs (hl.arg (by simp [args])) h) .nil
    · rcases ops with ⟨_ | ⟨ox, _ | _⟩⟩ <;> simp [args] at hops
      exact hs₁.lowerUnary hk hl hops h₁
  | @binary id l r n tl tr hn hk ha hl' hr' ihl ihr =>
    obtain ⟨fuel, rfl⟩ := compileWithin_fuel h
    refine hs.compileOperator (.binary hn hk ha hl' hr') hl hn hk.isLeaf ?_
      (fun c₁ c₂ ops o hs₁ hops h₁ => ?_) h
    · rw [ha]
      exact .cons (fun c c' o hs h => ihl hs (hl.arg (by simp [args])) h)
        (.cons (fun c c' o hs h => ihr hs (hl.arg (by simp [args])) h) .nil)
    · rcases ops with ⟨_ | ⟨ol, _ | ⟨or, _ | _⟩⟩⟩ <;> simp [args] at hops
      exact hs₁.lowerBinary hk hl hops.1 hops.2 h₁
  | @query id x y z n tc tt te hn hk ha hc ht he ihc iht ihe =>
    obtain ⟨fuel, rfl⟩ := compileWithin_fuel h
    refine hs.compileOperator (.query hn hk ha hc ht he) hl hn (by rw [hk]; rfl) ?_
      (fun c₁ c₂ ops o hs₁ hops h₁ => ?_) h
    · rw [ha]
      exact .cons (fun c c' o hs h => ihc hs (hl.arg (by simp [args])) h)
        (.cons (fun c c' o hs h => iht hs (hl.arg (by simp [args])) h)
          (.cons (fun c c' o hs h => ihe hs (hl.arg (by simp [args])) h) .nil))
    · rcases ops with ⟨_ | ⟨ox, _ | ⟨oy, _ | ⟨oz, _ | _⟩⟩⟩⟩ <;> simp [args] at hops
      exact hs₁.lowerQuery hk hl hops.1 hops.2.1 hops.2.2 h₁
  | @concat id n ts hn hk hne hlen hs' ih =>
    obtain ⟨fuel, rfl⟩ := compileWithin_fuel h
    refine hs.compileOperator (.concat hn hk hne hlen hs') hl hn (by rw [hk]; rfl) ?_
      (fun c₁ c₂ ops o hs₁ hops h₁ => hs₁.lowerConcat hk hne hl hops h₁) h
    refine List.forall₂_iff_zip.mpr ⟨by simpa [args] using hlen, fun hp c c' o hs h => ?_⟩
    exact ih _ hp hs (hl.arg (by simpa [args] using (List.of_mem_zip hp).2)) h
  | @toBool id x n tx hn hk ha hx ih =>
    obtain ⟨fuel, rfl⟩ := compileWithin_fuel h
    refine hs.compileOperator (.toBool hn hk ha hx) hl hn (by rw [hk]; rfl) ?_
      (fun c₁ c₂ ops o hs₁ hops h₁ => ?_) h
    · rw [ha]
      exact .cons (fun c c' o hs h => ih hs (hl.arg (by simp [args])) h) .nil
    · rcases ops with ⟨_ | ⟨ox, _ | _⟩⟩ <;> simp [args] at hops
      exact hs₁.lowerToBool hk hops h₁
  | @toInt id x n tx hn hk ha hx ih =>
    obtain ⟨fuel, rfl⟩ := compileWithin_fuel h
    refine hs.compileOperator (.toInt hn hk ha hx) hl hn (by rw [hk]; rfl) ?_
      (fun c₁ c₂ ops o hs₁ hops h₁ => ?_) h
    · rw [ha]
      exact .cons (fun c c' o hs h => ih hs (hl.arg (by simp [args])) h) .nil
    · rcases ops with ⟨_ | ⟨ox, _ | _⟩⟩ <;> simp [args] at hops
      exact hs₁.lowerToInt hk hl hops h₁

theorem sound_new (a : Arena) (lm : LeafMap) (p : String) : (Compiler.new a lm p).Sound a lm p where
  arena := rfl
  leaves := rfl
  temps := rfl
  names := rfl
  memo _ _ h := by simp [Compiler.new] at h
  literals _ _ h := by simp [Compiler.new] at h

/-- The netlist computes the expression. On an acyclic graph of canonical kinds that validation
accepts below `root`, `root` unfolds to a tree `t`; when a fresh compiler lowers `root` to an
operand, and no width below `t` reaches `2^63`, `t` has no arithmetic right shift and no signal of
`t` is named like a temporary, the operand has the width of `t` and its wire, in the declarations
read as a straight-line program, carries the meaning of `t` in every environment whose signals
are within their widths and whose divisors are not zero. -/
theorem compile_computes {a : Arena} {lm : LeafMap} {p : String} {root : Int} {r : Reporter}
    (hacyc : a.Acyclic) (hcanon : ∀ id n, a.node? id = some n → n.kind.Canonical)
    (hcheck : (a.check root lm (some r)).2 = .ok ())
    (h : Runs (compile root) (Compiler.new a lm p) op c') :
    ∃ t, a.Unfolds root t ∧ (Lowerable lm p t → op.width = t.width lm ∧
      ∀ e, Admits lm t e → run c'.wires.toList e op.name = ⟨t.eval lm (values e), (t.width lm).toNat⟩) := by
  obtain ⟨t, hu⟩ := Arena.unfolds_of_regular hacyc (Arena.regularBelow_of_check hacyc hcanon hcheck)
  refine ⟨t, hu, fun hl => ?_⟩
  unfold compile at h
  obtain ⟨_, _, hg, hm⟩ := runs_bind.mp h
  obtain ⟨rfl, rfl⟩ := runs_get.mp hg
  have hc := ((sound_new a lm p).compileWithin hu hl hm).carries
  exact ⟨hc.width, hc.value⟩

/-- `a + b` over two four-bit signals. -/
def sumArena : Arena :=
  ⟨#[{ kind := .var, name := "a" }, { kind := .var, name := "b" }, { kind := .add, args := #[0, 1] }]⟩

def sumLeaves : LeafMap := ⟨[(0, ⟨"a", 4⟩), (1, ⟨"b", 4⟩)]⟩

/-- The sum is lowered to two widened operands and a five-bit adder, which carries `9 + 7 = 16`:
the sum fits, has no `>>>` and reads signals apart from the temporaries. -/
theorem compile_computes_sum :
    let t : Term NodeId := .binary 2 .add (.var 0 "a") (.var 1 "b")
    let e : Env := fun s => if s = "a" then ⟨9, 4⟩ else if s = "b" then ⟨7, 4⟩ else ⟨0, 0⟩
    sumArena.Unfolds 2 t ∧ Lowerable sumLeaves "t" t ∧ Admits sumLeaves t e ∧
      run [⟨"t0", 4, .net "a"⟩, ⟨"t1", 4, .net "b"⟩, ⟨"t2", 5, .pad 1 "t0"⟩,
        ⟨"t3", 5, .pad 1 "t1"⟩, ⟨"t4", 5, .binop "t2" "+" "t3"⟩] e "t4" = ⟨16, 5⟩ := by
  intro t e
  obtain ⟨t', hu', hc⟩ := compile_computes (Arena.acyclic_of_args_lt (by decide))
    (Arena.canonical_of_forall (by decide)) (r := {}) rfl
    (show Runs (compile 2) (Compiler.new sumArena sumLeaves "t") ⟨"t4", 5⟩
      { Compiler.new sumArena sumLeaves "t" with
        next := 5
        wires := #[⟨"t0", 4, .net "a"⟩, ⟨"t1", 4, .net "b"⟩, ⟨"t2", 5, .pad 1 "t0"⟩,
          ⟨"t3", 5, .pad 1 "t1"⟩, ⟨"t4", 5, .binop "t2" "+" "t3"⟩]
        memo := [(2, ⟨"t4", 5⟩), (1, ⟨"t1", 4⟩), (0, ⟨"t0", 4⟩)] } by
      unfold Runs
      with_unfolding_all rfl)
  have hu : sumArena.Unfolds 2 t :=
    .binary (n := sumArena.nodes[2]) rfl ⟨rfl, by decide⟩ rfl (.var (n := sumArena.nodes[0]) rfl rfl rfl)
      (.var (n := sumArena.nodes[1]) rfl rfl rfl)
  obtain rfl : t' = t := hu'.unique hu
  -- the signals `a` and `b` start with another letter than the temporaries
  have hl : Lowerable sumLeaves "t" t := by
    refine ⟨by unfold Term.Fits; decide, by simp [Term.NoAsr, t, Term.subterms, Term.kind], ?_⟩
    intro id hid l hl i heq
    have hhead := congrArg (fun s => s.toList.head?) heq
    simp [t, Term.leafTags] at hid
    rcases hid with rfl | rfl <;> simp [sumLeaves, LeafMap.find?] at hl <;> subst hl <;>
      simp [tempName] at hhead
  have ha : Admits sumLeaves t e := by
    constructor
    · simp [Term.Inputs, t, Term.leafTags, sumLeaves, LeafMap.find?, values, e]
    · simp [Term.DivSafe, t, Term.subterms, Term.divisor?]
  refine ⟨hu, hl, ha, ?_⟩
  rw [(hc hl).2 e ha]
  decide

/-- `a >>> b` over a four-bit `a` and a two-bit `b`. -/
def asrArena : Arena :=
  ⟨#[{ kind := .var, name := "a" }, { kind := .var, name := "b" }, { kind := .asr, args := #[0, 1] }]⟩

def asrLeaves : LeafMap := ⟨[(0, ⟨"a", 4⟩), (1, ⟨"b", 2⟩)]⟩

/-- `>>>` is declared on unsigned wires, where it shifts in zeros: `a >>> b` passes validation,
fits and reads its signals within their widths, yet with `a = 8` and `b = 1` its wire carries `4`
where the sign-filling shift of `1000` gives `1100`. -/
theorem compile_asr_shifts_in_zeros :
    let t : Term NodeId := .binary 2 .asr (.var 0 "a") (.var 1 "b")
    let e : Env := fun s => if s = "a" then ⟨8, 4⟩ else if s = "b" then ⟨1, 2⟩ else ⟨0, 0⟩
    (asrArena.check 2 asrLeaves (some {})).2 = .ok () ∧ asrArena.Unfolds 2 t ∧
      t.Fits asrLeaves ∧ Admits asrLeaves t e ∧
      ∃ c', Runs (compile 2) (Compiler.new asrArena asrLeaves "t") ⟨"t2", 4⟩ c' ∧
        run c'.wires.toList e "t2" = ⟨4, 4⟩ ∧ t.eval asrLeaves (values e) = 12 := by
  intro t e
  have hu : asrArena.Unfolds 2 t :=
    .binary (n := asrArena.nodes[2]) rfl ⟨rfl, by decide⟩ rfl (.var (n := asrArena.nodes[0]) rfl rfl rfl)
      (.var (n := asrArena.nodes[1]) rfl rfl rfl)
  have hin : Admits asrLeaves t e := by
    constructor
    · simp [Inputs, t, leafTags, asrLeaves, LeafMap.find?, values, e]
    · simp [DivSafe, t, subterms, divisor?]
  refine ⟨rfl, hu, by unfold Fits; decide, hin, { Compiler.new asrArena asrLeaves "t" with
      next := 3
      wires := #[⟨"t0", 4, .net "a"⟩, ⟨"t1", 2, .net "b"⟩, ⟨"t2", 4, .binop "t0" ">>>" "t1"⟩]
      memo := [(2, ⟨"t2", 4⟩), (1, ⟨"t1", 2⟩), (0, ⟨"t0", 4⟩)] }, ?_, by decide, by decide⟩
  unfold Runs
  with_unfolding_all rfl

end Compiler

end BitSynth.Verilog
