import Mathlib
import BitSynth.Proofs.Triple
import BitSynth.Proofs.Compiling
import BitSynth.Proofs.Visits

namespace BitSynth

namespace Stateful

variable {σ α γ : Type} {s : σ}

/-- A map over an array keeps an invariant of the states that every element's run keeps, whatever
the runs return. -/
theorem Post.arrayMapM {xs : Array γ} {f : γ → Stateful σ α} (I : σ → Prop)
    (hf : ∀ z ∈ xs, ∀ s, I s → Post (f z) s fun _ s' => I s') (hs : I s) :
    Post (xs.mapM f) s fun _ s' => I s' := by
  rw [Array.mapM_eq_mapM_toList, map_eq_pure_bind]
  -- the list is walked element by element, each run starting where the last one ended
  suffices h : ∀ (ys : List γ), (∀ z ∈ ys, z ∈ xs) → ∀ s, I s →
      Post (ys.mapM f) s fun _ s' => I s' from
    Post.bind (h xs.toList (fun z hz => Array.mem_toList_iff.mp hz) s hs)
      (fun _ _ hs' => Post.pure _ hs') fun _ _ hs' => hs'
  intro ys
  induction ys with
  | nil => exact fun _ s hs => Post.pure _ hs
  | cons z zs ih =>
    intro hmem s hs
    rw [List.mapM_cons]
    refine Post.bind (hf z (hmem z List.mem_cons_self) s hs) (fun v s₁ hs₁ => ?_) fun _ _ h => h
    refine Post.bind (ih (fun y hy => hmem y (List.mem_cons_of_mem z hy)) s₁ hs₁)
      (fun _ _ hs₂ => Post.pure _ hs₂) fun _ _ h => h

theorem Post.fault {Q : Except Error α → σ → Prop} (f : Fault) : Post (Stateful.fault f) s Q :=
  fun r s' h => absurd (show (Except.error f : Except Fault (Except Error α × σ)) = .ok (r, s') from h)
    (by simp)

end Stateful

/-- The literal an unbound constant node is lowered to. -/
def Node.literal? (n : Node) : Option Verilog.Rhs :=
  match n.kind with
  | .int => some (.dec literalWidth n.value)
  | .true => some (.bin true)
  | .false => some (.bin false)
  | _ => none

theorem Node.isLeaf_of_literal? {n : Node} {lit : Verilog.Rhs} (h : n.literal? = some lit) :
    n.kind.isLeaf = true := by
  unfold Node.literal? at h
  split at h
  next hk => rw [hk]; rfl
  next hk => rw [hk]; rfl
  next hk => rw [hk]; rfl
  next => cases h

namespace Verilog

/-- The forms a resize declares: zeros before a net, its low bit, or its low bits. -/
def Rhs.isResize : Rhs → Bool
  | .pad _ _ => true
  | .bit _ i => i == 0
  | .part _ _ lo => lo == 0
  | _ => false

/-- The number of wires of `ws` that are not resizes. -/
def nonResizes (ws : List Wire) : Nat := ws.countP fun w => !w.rhs.isResize

@[simp] theorem nonResizes_nil : nonResizes [] = 0 := rfl

@[simp] theorem nonResizes_append (ws ws' : List Wire) :
    nonResizes (ws ++ ws') = nonResizes ws + nonResizes ws' :=
  List.countP_append ..

theorem nonResizes_singleton (w : Wire) : nonResizes [w] = if w.rhs.isResize then 0 else 1 := by
  cases h : w.rhs.isResize <;> simp [nonResizes, h]

namespace Compiler

variable {a : Arena} {lm : LeafMap} {c c' c'' : Compiler} {α β : Type} {k k' : Nat}

/-- The operand memoised for `id`: that of its first entry. -/
def lookup (c : Compiler) (id : NodeId) : Option Operand := (c.memo.find? (·.1 == id)).map Prod.snd

/-- The operand shared by the literals of text `s`. -/
def sharedLiteral (c : Compiler) (s : String) : Option Operand :=
  (c.literals.find? (·.1 == s)).map Prod.snd

theorem lookup_record (op : Operand) (id y : NodeId) :
    ({ c with memo := (id, op) :: c.memo } : Compiler).lookup y = if id = y then some op else c.lookup y := by
  by_cases h : id = y <;> simp [lookup, h]

/-- `c'` keeps every operand that `c` memoised for a node or shared for a literal text. -/
structure Remembers (c c' : Compiler) : Prop where
  lookup : ∀ id op, c.lookup id = some op → c'.lookup id = some op
  shared : ∀ s op, c.sharedLiteral s = some op → c'.sharedLiteral s = some op

theorem Remembers.refl (c : Compiler) : Remembers c c := ⟨fun _ _ => id, fun _ _ => id⟩

theorem Remembers.trans (h₁ : Remembers c c') (h₂ : Remembers c' c'') : Remembers c c'' :=
  ⟨fun id op h => h₂.lookup id op (h₁.lookup id op h), fun s op h => h₂.shared s op (h₁.shared s op h)⟩

theorem Remembers.record (h : Remembers c c') {id : NodeId} (hid : c.lookup id = none) (op : Operand) :
    Remembers c { c' with memo := (id, op) :: c'.memo } := by
  refine ⟨fun y op' hy => ?_, fun s op' hs => h.shared s op' hs⟩
  have hne : id ≠ y := by
    rintro rfl
    rw [hid] at hy
    cases hy
  rw [lookup_record, if_neg hne]
  exact h.lookup y op' hy

/-- What lowering one node does to the state: it declares wires, at most `k` of them not resizes,
and shares literals; the graph, the bindings and the memo stay. -/
structure Lowers (k : Nat) (c c' : Compiler) : Prop where
  arena : c'.arena = c.arena
  leaves : c'.leaves = c.leaves
  memo : c'.memo = c.memo
  wires : ∃ ws, c'.wires.toList = c.wires.toList ++ ws ∧ nonResizes ws ≤ k
  shared : ∀ s op, c.sharedLiteral s = some op → c'.sharedLiteral s = some op

theorem Lowers.refl (k : Nat) (c : Compiler) : Lowers k c c :=
  ⟨rfl, rfl, rfl, ⟨[], by simp, by simp⟩, fun _ _ => id⟩

theorem Lowers.trans (h₁ : Lowers k c c') (h₂ : Lowers k' c' c'') : Lowers (k + k') c c'' := by
  obtain ⟨ws₁, hws₁, hk₁⟩ := h₁.wires
  obtain ⟨ws₂, hws₂, hk₂⟩ := h₂.wires
  refine ⟨h₂.arena.trans h₁.arena, h₂.leaves.trans h₁.leaves, h₂.memo.trans h₁.memo,
    ⟨ws₁ ++ ws₂, by rw [hws₂, hws₁, List.append_assoc], by simp; omega⟩,
    fun s op h => h₂.shared s op (h₁.shared s op h)⟩

theorem Lowers.mono (h : Lowers k c c') (hk : k ≤ k') : Lowers k' c c' := by
  obtain ⟨ws, hws, hle⟩ := h.wires
  exact ⟨h.arena, h.leaves, h.memo, ⟨ws, hws, by omega⟩, h.shared⟩

theorem Lowers.remembers (h : Lowers k c c') : Remembers c c' :=
  ⟨fun id op hl => by rw [lookup, h.memo]; exact hl, h.shared⟩

section Effects

variable {x : Compiling α} {f : α → Compiling β}

/-- Every run of `x` that ends without a defect, whatever it returns, declares at most `k` wires
that are not resizes, and otherwise only shares literals. -/
def Declares (k : Nat) (x : Compiling α) : Prop := ∀ c, Stateful.Post x c fun _ c' => Lowers k c c'

/-- `x` never returns an error: it succeeds or hits a defect. -/
def Errorless (x : Compiling α) : Prop := ∀ c e c', x.run' c ≠ .ok (.error e, c')

/-- A run of `x` that returns an error leaves the state as it found it. -/
def FailsCleanly (x : Compiling α) : Prop := ∀ c e c', x.run' c = .ok (.error e, c') → c' = c

/-- Every run of `x` leaves the state as it found it. -/
def Stays (x : Compiling α) : Prop := ∀ c r c', x.run' c = .ok (r, c') → c' = c

theorem declares_pure (v : α) : Declares k (pure v : Compiling α) :=
  fun c => Stateful.Post.pure v (.refl k c)

theorem declares_throw (e : Error) : Declares k (throw e : Compiling α) :=
  fun c => Stateful.Post.throw e (.refl k c)

theorem Declares.bind (hx : Declares k x) (hf : ∀ v, Declares k' (f v)) :
    Declares (k + k') (x >>= f) := fun c =>
  Stateful.Post.bind (hx c) (fun v _ h₁ => (hf v _).conseq fun _ _ h₂ => h₁.trans h₂)
    fun _ _ h₁ => h₁.mono (Nat.le_add_right k k')

theorem Declares.mono (h : Declares k x) (hk : k ≤ k') : Declares k' x :=
  fun c => (h c).conseq fun _ _ h' => h'.mono hk

theorem Declares.bind_left (hx : Declares 0 x) (hf : ∀ v, Declares k (f v)) : Declares k (x >>= f) :=
  (hx.bind hf).mono (by omega)

theorem Declares.bind_right (hx : Declares k x) (hf : ∀ v, Declares 0 (f v)) : Declares k (x >>= f) :=
  hx.bind hf

theorem declares_get_bind {g : Compiler → Compiling α} (h : ∀ c, Declares k (g c)) :
    Declares k (MonadState.get >>= g) :=
  fun c => Stateful.Post.get_bind (h c c)

theorem Stays.declares (h : Stays x) : Declares k x :=
  fun c r c' hr => h c r c' hr ▸ Lowers.refl k c

theorem FailsCleanly.of_errorless (h : Errorless x) : FailsCleanly x :=
  fun c e c' hr => absurd hr (h c e c')

theorem failsCleanly_throw (e : Error) : FailsCleanly (throw e : Compiling α) := by
  intro c e' c' h
  rw [Stateful.run'_throw] at h
  cases h
  rfl

theorem failsCleanly_get_bind {g : Compiler → Compiling α} (h : ∀ c, FailsCleanly (g c)) :
    FailsCleanly (MonadState.get >>= g) :=
  fun c e c' hr => h c c e c' hr

theorem errorless_pure (v : α) : Errorless (pure v : Compiling α) := by
  intro c e c' h
  rw [Stateful.run'_pure] at h
  cases h

theorem errorless_get_bind {g : Compiler → Compiling α} (h : ∀ c, Errorless (g c)) :
    Errorless (MonadState.get >>= g) :=
  fun c e c' hr => h c c e c' hr

theorem Errorless.bind (hx : Errorless x) (hf : ∀ v, Errorless (f v)) : Errorless (x >>= f) := by
  intro c e c' h
  rw [Stateful.run'_bind] at h
  rcases hx₁ : x.run' c with _ | ⟨_ | v, c₁⟩ <;> rw [hx₁] at h
  · cases h
  · exact hx c _ c₁ hx₁
  · exact hf v c₁ e c' h

theorem FailsCleanly.bind_errorless (hx : FailsCleanly x) (hf : ∀ v, Errorless (f v)) :
    FailsCleanly (x >>= f) := by
  intro c e c' h
  rw [Stateful.run'_bind] at h
  rcases hx₁ : x.run' c with _ | ⟨_ | v, c₁⟩ <;> rw [hx₁] at h
  · cases h
  · cases h
    exact hx c _ _ hx₁
  · exact absurd h (hf v c₁ e c')

theorem Stays.bind_failsCleanly (hx : Stays x) (hx' : FailsCleanly x) (hf : ∀ v, FailsCleanly (f v)) :
    FailsCleanly (x >>= f) := by
  intro c e c' h
  rw [Stateful.run'_bind] at h
  rcases hx₁ : x.run' c with _ | ⟨_ | v, c₁⟩ <;> rw [hx₁] at h
  · cases h
  · cases h
    exact hx' c _ _ hx₁
  · rw [hf v c₁ e c' h]
    exact hx c _ c₁ hx₁

theorem errorless_modify_bind (g : Compiler → Compiler) {f : PUnit → Compiling α}
    (hf : Errorless (f ⟨⟩)) : Errorless (modify g >>= f) :=
  fun c e c' h => hf (g c) e c' h

theorem errorless_fault (f : Fault) : Errorless (Stateful.fault f : Compiling α) :=
  fun c e c' h =>
    absurd (show (Except.error f : Except Fault (Except Error α × Compiler)) = .ok (.error e, c') from h)
      (by simp)

theorem Stays.failsCleanly (h : Stays x) : FailsCleanly x := fun c _ c' hr => h c _ c' hr

end Effects

section Steps

variable {w : Int} {r : Rhs} {op : Operand}

theorem run'_emit (w : Int) (r : Rhs) (c : Compiler) :
    (emit w r).run' c = .ok (.ok ⟨tempName c.tempPrefix c.next, w⟩,
      { c with next := c.next + 1, wires := c.wires.push ⟨tempName c.tempPrefix c.next, w, r⟩ }) :=
  rfl

theorem post_emit {Q : Except Error Operand → Compiler → Prop}
    (h : Q (.ok ⟨tempName c.tempPrefix c.next, w⟩)
      { c with next := c.next + 1, wires := c.wires.push ⟨tempName c.tempPrefix c.next, w, r⟩ }) :
    Stateful.Post (emit w r) c Q := by
  intro res c' hr
  rw [run'_emit] at hr
  cases hr
  exact h

theorem declares_emit_nonResizes (w : Int) (r : Rhs) :
    Declares (if r.isResize then 0 else 1) (emit w r) := fun c =>
  post_emit ⟨rfl, rfl, rfl, ⟨[⟨tempName c.tempPrefix c.next, w, r⟩], by simp,
    by rw [nonResizes_singleton]⟩, fun _ _ h => h⟩

theorem declares_emit (w : Int) (r : Rhs) : Declares 1 (emit w r) :=
  (declares_emit_nonResizes w r).mono (by split <;> omega)

theorem declares_emit_of_isResize (w : Int) (hr : r.isResize = true) : Declares 0 (emit w r) := by
  simpa [hr] using declares_emit_nonResizes w r

theorem errorless_emit (w : Int) (r : Rhs) : Errorless (emit w r) := by
  intro c e c' h
  rw [run'_emit] at h
  cases h

theorem declares_resize (op : Operand) (w : Int) : Declares 0 (resize op w) := by
  unfold resize
  split_ifs
  · exact declares_emit_of_isResize w rfl
  · exact declares_emit_of_isResize w (by simp [Rhs.isResize])
  · exact declares_emit_of_isResize w (by simp [Rhs.isResize])
  · exact declares_pure op

theorem errorless_resize (op : Operand) (w : Int) : Errorless (resize op w) := by
  unfold resize
  split_ifs <;> first | exact errorless_emit _ _ | exact errorless_pure _

theorem declares_operandAt (ops : Array Operand) (i : Nat) : Declares 0 (operandAt ops i) := by
  unfold operandAt
  split
  · exact declares_pure _
  · exact fun c => Stateful.Post.fault _

theorem errorless_operandAt (ops : Array Operand) (i : Nat) : Errorless (operandAt ops i) := by
  unfold operandAt
  split
  · exact errorless_pure _
  · exact errorless_fault _

theorem sharedLiteral_append {s t : String} {op op' : Operand} (h : c.sharedLiteral s = some op') :
    ({ c with literals := c.literals ++ [(t, op)] } : Compiler).sharedLiteral s = some op' := by
  obtain ⟨p, hp, rfl⟩ := Option.map_eq_some_iff.mp h
  simp [sharedLiteral, List.find?_append, hp]

theorem sharedLiteral_append_self {t : String} {op : Operand}
    (h : c.literals.find? (·.1 == t) = none) :
    ({ c with literals := c.literals ++ [(t, op)] } : Compiler).sharedLiteral t = some op := by
  simp [sharedLiteral, List.find?_append, h]

theorem declares_literal (w : Int) (lit : Rhs) : Declares 1 (literal w lit) := by
  unfold literal
  refine declares_get_bind fun c => ?_
  split
  · exact declares_pure _
  · refine (declares_emit w lit).bind_right fun op c₁ => ?_
    exact Stateful.Post.modify_bind _ (Stateful.Post.pure op
      ⟨rfl, rfl, rfl, ⟨[], by simp, le_rfl⟩, fun _ _ h => sharedLiteral_append h⟩)

theorem errorless_literal (w : Int) (lit : Rhs) : Errorless (literal w lit) := by
  unfold literal
  refine errorless_get_bind fun c => ?_
  split
  · exact errorless_pure _
  · exact (errorless_emit w lit).bind fun op => errorless_modify_bind _ (errorless_pure op)

/-- Lowering a literal leaves its text sharing the operand it returns. -/
theorem post_literal (w : Int) (lit : Rhs) (c : Compiler) :
    Stateful.Post (literal w lit) c fun r c' => ∀ op, r = .ok op → c'.sharedLiteral lit.text = some op := by
  unfold literal
  refine Stateful.Post.get_bind ?_
  split
  · rename_i hfind
    refine Stateful.Post.pure _ fun op hop => ?_
    cases hop
    simp [sharedLiteral, hfind]
  · rename_i hnone
    -- the new wire leaves the literals as they were, so the text is still unshared
    have hemit : Stateful.Post (emit w lit) c fun _ c₁ => c₁.literals = c.literals := post_emit rfl
    refine Stateful.Post.bind hemit (fun op c₁ h₁ => ?_) fun _ _ _ _ h => by cases h
    refine Stateful.Post.modify_bind _ (Stateful.Post.pure op fun op' hop => ?_)
    cases hop
    exact sharedLiteral_append_self (by rw [h₁]; exact hnone)

end Steps

section Lowering

variable {id : NodeId} {n : Node}

/-- A leaf is lowered to one declared wire or to a literal. -/
theorem declares_lowerLeaf (id : NodeId) (n : Node) (leaf : Option Leaf) :
    Declares 1 (lowerLeaf id n leaf) := by
  unfold lowerLeaf
  split
  · exact declares_throw _
  split
  · dsimp only
    split_ifs <;> exact declares_emit _ _
  split
  · exact declares_literal _ _
  · exact declares_literal _ _
  · exact declares_literal _ _
  · exact declares_throw _

/-- A leaf that is refused is refused before anything is declared. -/
theorem failsCleanly_lowerLeaf (id : NodeId) (n : Node) (leaf : Option Leaf) :
    FailsCleanly (lowerLeaf id n leaf) := by
  unfold lowerLeaf
  split
  · exact failsCleanly_throw _
  split
  · dsimp only
    split_ifs <;> exact .of_errorless (errorless_emit _ _)
  split
  · exact .of_errorless (errorless_literal _ _)
  · exact .of_errorless (errorless_literal _ _)
  · exact .of_errorless (errorless_literal _ _)
  · exact failsCleanly_throw _

/-- An unbound constant is lowered as its literal. -/
theorem lowerLeaf_none_of_literal? (id : NodeId) {lit : Rhs} (h : n.literal? = some lit) :
    ∃ w, lowerLeaf id n none = literal w lit := by
  unfold Node.literal? at h
  split at h
  next hk =>
    cases h
    exact ⟨literalWidth, by simp [lowerLeaf, leafWidth, hk]⟩
  next hk =>
    cases h
    exact ⟨1, by simp [lowerLeaf, leafWidth, hk]⟩
  next hk =>
    cases h
    exact ⟨1, by simp [lowerLeaf, leafWidth, hk]⟩
  next => cases h

theorem declares_compileLeaf (id : NodeId) (n : Node) : Declares 1 (compileLeaf id n) :=
  declares_get_bind fun _ => declares_lowerLeaf id n _

theorem failsCleanly_compileLeaf (id : NodeId) (n : Node) : FailsCleanly (compileLeaf id n) :=
  failsCleanly_get_bind fun _ => failsCleanly_lowerLeaf id n _

theorem post_compileLeaf_literal {lit : Rhs} (hlit : n.literal? = some lit)
    (hfree : c.leaves.find? id = none) :
    Stateful.Post (compileLeaf id n) c fun r c' =>
      ∀ op, r = .ok op → c'.sharedLiteral lit.text = some op := by
  refine Stateful.Post.get_bind ?_
  obtain ⟨w, hw⟩ := lowerLeaf_none_of_literal? id hlit
  rw [hfree, hw]
  exact post_literal w lit c

/-- An operator declares at most one wire besides resizes of its operands or of its result. -/
theorem declares_lowerOperatorAt (id : NodeId) (n : Node) (ops : Array Operand) (w : Int) :
    Declares 1 (lowerOperatorAt id n ops w) := by
  unfold lowerOperatorAt
  -- every branch reads operands and resizes them, then declares one wire, and may resize it
  split_ifs <;> try split
  all_goals
    repeat' first
      | with_reducible exact declares_emit _ _
      | with_reducible exact (declares_resize _ _).mono (Nat.zero_le 1)
      | with_reducible exact declares_throw _
      | with_reducible refine (declares_operandAt _ _).bind_left fun _ => ?_
      | with_reducible refine (declares_resize _ _).bind_left fun _ => ?_
      | with_reducible refine (declares_emit _ _).bind_right fun _ => ?_
      | with_reducible exact declares_resize _ _

theorem failsCleanly_lowerOperatorAt (id : NodeId) (n : Node) (ops : Array Operand) (w : Int) :
    FailsCleanly (lowerOperatorAt id n ops w) := by
  unfold lowerOperatorAt
  -- only an unknown operator is refused, and before anything is declared
  split_ifs <;> try split
  all_goals
    first
      | with_reducible exact failsCleanly_throw _
      | refine .of_errorless ?_
        repeat' first
          | with_reducible exact errorless_emit _ _
          | with_reducible exact errorless_resize _ _
          | with_reducible refine (errorless_operandAt _ _).bind fun _ => ?_
          | with_reducible refine (errorless_resize _ _).bind fun _ => ?_
          | with_reducible refine (errorless_emit _ _).bind fun _ => ?_

theorem stays_tryCatch_lift (g : Guarded α) (h : Error → Error) :
    Stays (tryCatch g.lift fun e => throw (h e) : Compiling α) := by
  intro c r c' hr
  rw [Stateful.run'_tryCatch, Stateful.run'_lift] at hr
  rcases hg : g.run with _ | ⟨_ | v⟩ <;> rw [hg] at hr <;> cases hr <;> rfl

theorem declares_lowerOperator (id : NodeId) (n : Node) (ops : Array Operand) :
    Declares 1 (lowerOperator id n ops) :=
  (stays_tryCatch_lift _ _).declares.bind_left fun w => declares_lowerOperatorAt id n ops w

theorem failsCleanly_lowerOperator (id : NodeId) (n : Node) (ops : Array Operand) :
    FailsCleanly (lowerOperator id n ops) :=
  (stays_tryCatch_lift _ _).bind_failsCleanly (stays_tryCatch_lift _ _).failsCleanly
    fun w => failsCleanly_lowerOperatorAt id n ops w

end Lowering

section Memo

variable {y : NodeId} {n : Node} {bs new : List (NodeId × List Wire)} {ws : List Wire} {op : Operand}

/-- `ws` are the wires that one successful lowering of the node `x` of `a` declares under `lm`:
as a leaf, or as an operator over some operands. -/
def Lowering (a : Arena) (lm : LeafMap) (x : NodeId) (ws : List Wire) : Prop :=
  ∃ n, a.node? x = some n ∧ ∃ (lower : Compiling Operand) (c c' : Compiler) (op : Operand),
    (lower = compileLeaf x n ∨ ∃ ops, lower = lowerOperator x n ops) ∧
      c.arena = a ∧ c.leaves = lm ∧ Runs lower c op c' ∧ c'.wires.toList = c.wires.toList ++ ws

theorem Lowering.nonResizes_le {x : NodeId} (h : Lowering a lm x ws) : nonResizes ws ≤ 1 := by
  obtain ⟨n, -, lower, c, c', op, hlow, -, -, hrun, hws⟩ := h
  have hd : Declares 1 lower := by
    rcases hlow with rfl | ⟨ops, rfl⟩
    · exact declares_compileLeaf x n
    · exact declares_lowerOperator x n ops
  obtain ⟨ws', hws', hk⟩ := (hd c (.ok op) c' hrun).wires
  rw [hws] at hws'
  rwa [List.append_cancel_left hws']

/-- A compiler for `a` under `lm` whose wires are the lowerings `bs`, one after the other, of
distinct memoised nodes, and whose memoised unbound constants share the operand of their literal's
text. -/
structure Accounted (a : Arena) (lm : LeafMap) (c : Compiler) (bs : List (NodeId × List Wire)) :
    Prop where
  arena : c.arena = a
  leaves : c.leaves = lm
  wires : c.wires.toList = bs.flatMap Prod.snd
  nodup : (bs.map Prod.fst).Nodup
  memoised : ∀ b ∈ bs, c.lookup b.1 ≠ none
  lowering : ∀ b ∈ bs, Lowering a lm b.1 b.2
  shares : ∀ x op n lit, c.lookup x = some op → lm.find? x = none → a.node? x = some n →
    n.literal? = some lit → c.sharedLiteral lit.text = some op

/-- Recording the operand of a lowering of `y`, a node not accounted for yet, accounts for it. -/
theorem Accounted.record {c₁ c₂ : Compiler} (hacc : c₁.Accounted a lm bs) (hlow : Lowers 1 c₁ c₂)
    (hws : c₂.wires.toList = c₁.wires.toList ++ ws) (hL : Lowering a lm y ws)
    (hy : y ∉ bs.map Prod.fst) (op : Operand)
    (hshare : ∀ n lit, lm.find? y = none → a.node? y = some n → n.literal? = some lit →
      c₂.sharedLiteral lit.text = some op) :
    Accounted a lm { c₂ with memo := (y, op) :: c₂.memo } (bs ++ [(y, ws)]) where
  arena := hlow.arena.trans hacc.arena
  leaves := hlow.leaves.trans hacc.leaves
  wires := by simp [hws, hacc.wires]
  nodup := by
    rw [List.map_append, List.nodup_append]
    refine ⟨hacc.nodup, by simp, fun x hx z hz => ?_⟩
    rw [List.map_singleton, List.mem_singleton] at hz
    rintro rfl
    have hxy : x = y := hz
    exact hy (hxy ▸ hx)
  memoised b hb := by
    rw [lookup_record]
    split
    · simp
    · rcases List.mem_append.mp hb with hb | hb
      · rw [lookup, hlow.memo]
        exact hacc.memoised b hb
      · simp_all
  lowering b hb := by
    rcases List.mem_append.mp hb with hb | hb
    · exact hacc.lowering b hb
    · rw [List.mem_singleton.mp hb]
      exact hL
  shares x op' m lit hx hfree hm hlit := by
    rw [lookup_record] at hx
    split at hx
    · rename_i hyx
      cases hx
      exact hshare m lit (hyx ▸ hfree) (hyx ▸ hm) hlit
    · have hx' : c₁.lookup x = some op' := by rwa [lookup, ← hlow.memo]
      exact hlow.shared _ _ (hacc.shares x op' m lit hx' hfree hm hlit)

/-- What a call lowering `y` from `c`, whose wires are the lowerings `bs`, ends in: the lowerings
`bs` followed by new ones, of nodes below `y` that `c` had not memoised; everything `c` memoised
or shared kept; and on success `y` memoised with the operand returned. -/
def Called (a : Arena) (lm : LeafMap) (y : NodeId) (c : Compiler) (bs : List (NodeId × List Wire))
    (r : Except Error Operand) (c' : Compiler) : Prop :=
  ∃ new, c'.Accounted a lm (bs ++ new) ∧ (∀ b ∈ new, a.Below y b.1 ∧ c.lookup b.1 = none) ∧
    c.Remembers c' ∧ ∀ op, r = .ok op → c'.lookup y = some op

theorem Called.stay {r : Except Error Operand} (hacc : c.Accounted a lm bs)
    (hr : ∀ op, r = .ok op → c.lookup y = some op) : Called a lm y c bs r c :=
  ⟨[], by simpa using hacc, by simp, .refl c, hr⟩

theorem run'_record (y : NodeId) (op : Operand) (c : Compiler) :
    (modify (fun c : Compiler => { c with memo := (y, op) :: c.memo }) >>= fun _ => pure op :
      Compiling Operand).run' c = .ok (.ok op, { c with memo := (y, op) :: c.memo }) :=
  rfl

/-- Every call of `compileWithin` from an accounted state ends as `Called` says. The induction is on
the fuel. An operator's operands are lowered first, each from where the last one ended; they lower
only nodes below them, so none of them is the operator, which the graph's ranks forbid. -/
theorem post_compileWithin (hacyc : a.Acyclic) :
    ∀ (fuel : Nat) (y : NodeId) (c : Compiler) (bs : List (NodeId × List Wire)),
      c.Accounted a lm bs → Stateful.Post (compileWithin fuel y) c (Called a lm y c bs)
  | 0, y, c, bs, hacc => by
    rw [compileWithin]
    exact Stateful.Post.throw _ (Called.stay hacc fun _ h => by cases h)
  | fuel + 1, y, c, bs, hacc => by
    rw [compileWithin]
    refine Stateful.Post.get_bind ?_
    split
    · -- memoised: the operand comes back and nothing changes
      rename_i op hfind
      refine Stateful.Post.pure _ (Called.stay hacc fun op' h => ?_)
      cases h
      simp [lookup, hfind]
    rename_i hnone
    have hy : c.lookup y = none := by simp [lookup, hnone]
    have hfresh : y ∉ bs.map Prod.fst := fun hmem => by
      obtain ⟨b, hb, rfl⟩ := List.mem_map.mp hmem
      exact hacc.memoised b hb hy
    split
    · exact Stateful.Post.throw _ (Called.stay hacc fun _ h => by cases h)
    rename_i n hn
    have hn' : a.node? y = some n := hacc.arena ▸ hn
    split_ifs with hleaf
    · -- a leaf is lowered on its own
      intro r c' hrun
      rw [Stateful.run'_bind] at hrun
      rcases hl : (compileLeaf y n).run' c with _ | ⟨_ | op, c₁⟩ <;> rw [hl] at hrun <;>
        dsimp only at hrun
      · cases hrun
      · cases hrun
        rw [failsCleanly_compileLeaf y n c _ _ hl]
        exact Called.stay hacc fun _ h => by cases h
      · rw [run'_record] at hrun
        cases hrun
        have hlow : Lowers 1 c c₁ := declares_compileLeaf y n c _ _ hl
        obtain ⟨ws, hws, -⟩ := hlow.wires
        have hL : Lowering a lm y ws :=
          ⟨n, hn', _, c, c₁, op, .inl rfl, hacc.arena, hacc.leaves, hl, hws⟩
        refine ⟨[(y, ws)], hacc.record hlow hws hL hfresh op ?_, ?_, hlow.remembers.record hy op,
          fun op' h => ?_⟩
        · intro m lit hfree hm hlit
          rw [hn', Option.some.injEq] at hm
          subst hm
          exact post_compileLeaf_literal hlit (hacc.leaves ▸ hfree) _ _ hl op rfl
        · intro b hb
          rw [List.mem_singleton.mp hb]
          exact ⟨.root, hy⟩
        · cases h
          simp [lookup_record]
    · -- an operator: its operands one after the other, then the operator itself
      let I : Compiler → Prop := fun c₁ => ∃ new, c₁.Accounted a lm (bs ++ new) ∧
        (∀ b ∈ new, (∃ z ∈ n.args, a.Below z b.1) ∧ c.lookup b.1 = none) ∧ c.Remembers c₁
      have hargs : Stateful.Post (n.args.mapM (compileWithin fuel)) c fun _ c₁ => I c₁ := by
        refine Stateful.Post.arrayMapM I (fun z hz c₁ hI => ?_) ⟨[], by simpa using hacc, by simp, .refl c⟩
        obtain ⟨new, hacc₁, hnew, hrem⟩ := hI
        refine (post_compileWithin hacyc fuel z c₁ (bs ++ new) hacc₁).conseq fun _ c₂ hc => ?_
        obtain ⟨new', hacc₂, hnew', hrem', -⟩ := hc
        refine ⟨new ++ new', by simpa using hacc₂, fun b hb => ?_, hrem.trans hrem'⟩
        rcases List.mem_append.mp hb with hb | hb
        · exact hnew b hb
        · obtain ⟨hbz, hb₁⟩ := hnew' b hb
          refine ⟨⟨z, hz, hbz⟩, ?_⟩
          -- a node memoised before the operands would still be memoised
          cases hc : c.lookup b.1 with
          | none => rfl
          | some o =>
            rw [hrem.lookup _ _ hc] at hb₁
            cases hb₁
      -- where the operands or the operator fail, what the operands lowered stays accounted for
      have hstop : ∀ c₁ (e : Error), I c₁ → Called a lm y c bs (.error e) c₁ := by
        rintro c₁ e ⟨new, hacc₁, hnew, hrem⟩
        refine ⟨new, hacc₁, fun b hb => ⟨?_, (hnew b hb).2⟩, hrem, fun _ h => by cases h⟩
        obtain ⟨z, hz, hbz⟩ := (hnew b hb).1
        exact Arena.Below.head hn' hz hbz
      intro r c' hrun
      rw [Stateful.run'_bind] at hrun
      rcases hm : (n.args.mapM (compileWithin fuel)).run' c with _ | ⟨_ | ops, c₁⟩ <;> rw [hm] at hrun <;>
        dsimp only at hrun
      · cases hrun
      · cases hrun
        exact hstop _ _ (hargs _ _ hm)
      rw [Stateful.run'_bind] at hrun
      rcases hx : (lowerOperator y n ops).run' c₁ with _ | ⟨_ | op, c₂⟩ <;> rw [hx] at hrun <;>
        dsimp only at hrun
      · cases hrun
      · cases hrun
        rw [failsCleanly_lowerOperator y n ops c₁ _ _ hx]
        exact hstop _ _ (hargs _ _ hm)
      · rw [run'_record] at hrun
        cases hrun
        obtain ⟨new, hacc₁, hnew, hrem⟩ := hargs _ _ hm
        have hlow : Lowers 1 c₁ c₂ := declares_lowerOperator y n ops c₁ _ _ hx
        obtain ⟨ws, hws, -⟩ := hlow.wires
        have hL : Lowering a lm y ws :=
          ⟨n, hn', _, c₁, c₂, op, .inr ⟨ops, rfl⟩, hacc₁.arena, hacc₁.leaves, hx, hws⟩
        -- the operator is neither memoised before nor below one of its operands
        have hfresh' : y ∉ (bs ++ new).map Prod.fst := by
          rw [List.map_append, List.mem_append, not_or]
          refine ⟨hfresh, fun hmem => ?_⟩
          obtain ⟨b, hb, rfl⟩ := List.mem_map.mp hmem
          obtain ⟨z, hz, hbz⟩ := (hnew b hb).1
          obtain ⟨rank, hrank⟩ := hacyc
          exact Arena.not_below_of_arg (fun id n hn => (hrank id n hn).2) hn' hz hbz
        -- an operator is no constant, so it shares no literal
        have hrec := hacc₁.record hlow hws hL hfresh' op fun m lit _ hm hlit => by
          rw [hn', Option.some.injEq] at hm
          subst hm
          simp [Node.isLeaf_of_literal? hlit] at hleaf
        refine ⟨new ++ [(y, ws)], by simpa using hrec, fun b hb => ?_,
          (hrem.trans hlow.remembers).record hy op, fun op' h => ?_⟩
        · rcases List.mem_append.mp hb with hb | hb
          · obtain ⟨z, hz, hbz⟩ := (hnew b hb).1
            exact ⟨Arena.Below.head hn' hz hbz, (hnew b hb).2⟩
          · rw [List.mem_singleton.mp hb]
            exact ⟨.root, hy⟩
        · cases h
          simp [lookup_record]

theorem post_compile (hacyc : a.Acyclic) (id : NodeId) (hacc : c.Accounted a lm bs) :
    Stateful.Post (compile id) c (Called a lm id c bs) :=
  Stateful.Post.get_bind (post_compileWithin hacyc _ id c bs hacc)

theorem run'_compile_of_lookup {id : NodeId} (h : c.lookup id = some op) :
    (compile id).run' c = .ok (.ok op, c) := by
  obtain ⟨p, hp, rfl⟩ := Option.map_eq_some_iff.mp h
  rw [compile, Stateful.run'_get_bind, compileWithin, Stateful.run'_get_bind]
  simp only [hp]
  rfl

/-- `c'` is reached from `c` by calls of `compile` that end without a defect, whatever they
return. -/
inductive Calls : Compiler → Compiler → Prop
  | refl (c : Compiler) : Calls c c
  | call {c c₁ c' : Compiler} {id : NodeId} {r : Except Error Operand} :
      (compile id).run' c = .ok (r, c₁) → Calls c₁ c' → Calls c c'

theorem Calls.accounted (hacyc : a.Acyclic) (h : Calls c c') (hacc : c.Accounted a lm bs) :
    ∃ bs', c'.Accounted a lm bs' ∧ c.Remembers c' := by
  induction h generalizing bs with
  | refl c => exact ⟨bs, hacc, .refl c⟩
  | call hrun _ ih =>
    obtain ⟨new, hacc₁, -, hrem₁, -⟩ := post_compile hacyc _ hacc _ _ hrun
    obtain ⟨bs', hacc', hrem'⟩ := ih hacc₁
    exact ⟨bs', hacc', hrem₁.trans hrem'⟩

theorem accounted_new : (Compiler.new a lm p).Accounted a lm [] where
  arena := rfl
  leaves := rfl
  wires := rfl
  nodup := List.nodup_nil
  memoised _ hb := by cases hb
  lowering _ hb := by cases hb
  shares _ _ _ _ hx := by cases hx

/-- What memoisation promises of a compiler state `c` for `a` under `lm`. -/
structure Memoised (a : Arena) (lm : LeafMap) (c : Compiler) : Prop where
  /-- A node that compiles to an operand compiles to it again after any later calls, and then
  nothing changes: no wire is declared. -/
  again : ∀ id op c₁ c', (compile id).run' c = .ok (.ok op, c₁) → Calls c₁ c' →
    (compile id).run' c' = .ok (.ok op, c')
  /-- Later calls, failed or not, keep every operand memoised for a node or shared for a literal. -/
  keeps : ∀ c', Calls c c' → c.Remembers c'
  /-- The wires are the lowerings of distinct compiled nodes, one after the other, each declaring
  at most one wire that is not a resize. -/
  lowerings : ∃ bs : List (NodeId × List Wire), c.wires.toList = bs.flatMap Prod.snd ∧
    (bs.map Prod.fst).Nodup ∧ ∀ b ∈ bs, c.lookup b.1 ≠ none ∧ Lowering a lm b.1 b.2 ∧ nonResizes b.2 ≤ 1
  /-- Compiled unbound constants whose literals have one text have one operand. -/
  literals : ∀ x y n m lx ly opx opy, a.node? x = some n → a.node? y = some m → lm.find? x = none →
    lm.find? y = none → n.literal? = some lx → m.literal? = some ly → lx.text = ly.text →
    c.lookup x = some opx → c.lookup y = some opy → opx = opy

/-- Over every sequence of calls on a compiler for an acyclic graph, compiling is memoised. -/
theorem compile_memoised (hacyc : a.Acyclic) (hc : Calls (Compiler.new a lm p) c) : c.Memoised a lm := by
  obtain ⟨bs, hacc, -⟩ := hc.accounted hacyc accounted_new
  refine ⟨fun id op c₁ c' hrun hcalls => ?_, fun c' hcalls => ?_, ?_, ?_⟩
  · -- the call memoises the operand, and the later calls keep it
    obtain ⟨new, hacc₁, -, -, hop⟩ := post_compile hacyc id hacc _ _ hrun
    obtain ⟨-, -, hrem⟩ := hcalls.accounted hacyc hacc₁
    exact run'_compile_of_lookup (hrem.lookup id op (hop op rfl))
  · obtain ⟨-, -, hrem⟩ := hcalls.accounted hacyc hacc
    exact hrem
  · exact ⟨bs, hacc.wires, hacc.nodup, fun b hb =>
      ⟨hacc.memoised b hb, hacc.lowering b hb, (hacc.lowering b hb).nonResizes_le⟩⟩
  · intro x y n m lx ly opx opy hx hy hfx hfy hlx hly htext hopx hopy
    have h₁ := hacc.shares x opx n lx hopx hfx hx hlx
    have h₂ := hacc.shares y opy m ly hopy hfy hy hly
    rw [htext, h₂, Option.some.injEq] at h₁
    exact h₁.symm

end Memo

end Compiler

/-- `3 + 3`, the two constants separate nodes. -/
def twinConstants : Arena :=
  ⟨#[{ kind := .int, value := 3 }, { kind := .int, value := 3 }, { kind := .add, args := #[0, 1] }]⟩

theorem twin_constants_memoised :
    ∃ r c, (Compiler.compile 2).run' (Compiler.new twinConstants {} "t") = .ok (r, c) ∧
      c.Memoised twinConstants {} :=
    by
  obtain ⟨r, c, hrun⟩ : ∃ r c,
      (Compiler.compile 2).run' (Compiler.new twinConstants {} "t") = .ok (r, c) :=
    ⟨_, _, by with_unfolding_all rfl⟩
  exact ⟨r, c, hrun,
    Compiler.compile_memoised (Arena.acyclic_of_args_lt (by decide)) (.call hrun (.refl c))⟩

end Verilog

end BitSynth
