import Mathlib
import BitSynth.Proofs.Alike
import BitSynth.Proofs.Compiling
import BitSynth.Proofs.Validation

theorem List.lookup_eq_find?_map {β : Type} (l : List (Int × β)) (x : Int) :
    l.lookup x = (l.find? (·.1 == x)).map (·.2) := by
  induction l with
  | nil => rfl
  | cons p l ih =>
    obtain ⟨k, v⟩ := p
    by_cases h : x = k
    · subst h
      simp
    · have hne : (x == k) = false := beq_eq_false_iff_ne.mpr h
      simp [List.lookup_cons, hne, Ne.symm h, ih]

namespace BitSynth

theorem Kind.operands_of_isBinary {k : Kind} (hb : k.isBinary) : k.operands = some 2 := by
  cases k <;> simp_all [Kind.operands, Kind.isLeaf, Kind.isUnary, Kind.isBinary, Kind.code]

theorem Kind.isBinary_of_isCompare {k : Kind} (h : k.isCompare) : k.isBinary := by
  simp only [Kind.isCompare, Kind.isBinary, Bool.and_eq_true, decide_eq_true_eq] at h ⊢
  omega

theorem Node.Regular.operands {n : Node} (h : n.Regular) (hk : n.kind ≠ .concat) :
    n.kind.operands = some n.args.size := by
  simpa [hk] using h.2

theorem Node.Regular.args_of_isLeaf {n : Node} (h : n.Regular) (hleaf : n.kind.isLeaf) :
    n.args.size = 0 := by
  have hk : n.kind ≠ .concat := by
    rintro hk
    simp [hk, Kind.isLeaf] at hleaf
  simpa [Kind.operands, hleaf] using (Node.Regular.operands h hk).symm

theorem Arena.RegularBelow.arg {a : Arena} {id x : NodeId} {n : Node} (h : a.RegularBelow id)
    (hn : a.node? id = some n) (hx : x ∈ n.args) : a.RegularBelow x :=
  fun y hy => h y (.head hn hx hy)

end BitSynth

namespace BitSynth.Verilog

namespace Compiler

variable {α β : Type} {c c' : Compiler}

/-- Literals compiled so far have their literal's width. -/
def LiteralsSized (c : Compiler) : Prop :=
  ∀ p ∈ c.literals, ∃ lit w x, Literal lit w x ∧ lit.text = p.1 ∧ p.2.width = w

/-- A lowering step from `c` to `c'` that declares wires and shares literals, and touches neither
the graph, the bindings nor the memoised nodes. -/
def Frame (c c' : Compiler) : Prop :=
  c'.arena = c.arena ∧ c'.leaves = c.leaves ∧ c'.memo = c.memo ∧ (c.LiteralsSized → c'.LiteralsSized)

theorem Frame.refl (c : Compiler) : Frame c c := ⟨rfl, rfl, rfl, id⟩

theorem Frame.trans {c'' : Compiler} (h₁ : Frame c c') (h₂ : Frame c' c'') : Frame c c'' :=
  ⟨h₂.1.trans h₁.1, h₂.2.1.trans h₁.2.1, h₂.2.2.1.trans h₁.2.2.1, h₂.2.2.2 ∘ h₁.2.2.2⟩

/-- `x` succeeds from `c` with a result satisfying `P`, declaring wires and touching nothing else. -/
def Frames (x : Compiling α) (c : Compiler) (P : α → Prop) : Prop :=
  ∃ v c', Runs x c v c' ∧ P v ∧ Frame c c'

theorem Frames.bind {x : Compiling α} {f : α → Compiling β} {P : α → Prop} {P' : β → Prop}
    (hx : Frames x c P) (hf : ∀ v c', P v → Frame c c' → Frames (f v) c' P') :
    Frames (x >>= f) c P' := by
  obtain ⟨v, c₁, hr, hp, hfr⟩ := hx
  obtain ⟨w, c₂, hr₂, hp₂, hfr₂⟩ := hf v c₁ hp hfr
  exact ⟨w, c₂, runs_bind.mpr ⟨v, c₁, hr, hr₂⟩, hp₂, hfr.trans hfr₂⟩

theorem frames_pure {v : α} {P : α → Prop} (h : P v) : Frames (pure v) c P :=
  ⟨v, c, runs_pure.mpr ⟨rfl, rfl⟩, h, .refl c⟩

theorem frames_emit (w : Int) (r : Rhs) : Frames (emit w r) c (·.width = w) :=
  ⟨_, _, runs_emit.mpr ⟨rfl, rfl⟩, rfl, rfl, rfl, rfl, id⟩

theorem frames_resize (op : Operand) (w : Int) : Frames (resize op w) c (·.width = w) := by
  unfold resize
  split_ifs with hlt hgt
  · exact frames_emit _ _
  · exact frames_emit _ _
  · exact frames_emit _ _
  · exact frames_pure (by omega)

theorem frames_operandAt {ops : Array Operand} {i : Nat} (h : i < ops.size) :
    Frames (operandAt ops i) c (· = ops[i]) :=
  ⟨ops[i], c, runs_operandAt.mpr ⟨by simp [h], rfl⟩, rfl, .refl c⟩

theorem frames_get_bind {f : Compiler → Compiling α} {P : α → Prop} (h : Frames (f c) c P) :
    Frames (MonadState.get >>= f) c P := by
  obtain ⟨v, c', hr, hp, hf⟩ := h
  exact ⟨v, c', runs_bind.mpr ⟨c, c, runs_get.mpr ⟨rfl, rfl⟩, hr⟩, hp, hf⟩

/-- A literal gives an operand of its width, whether it is shared or emitted. -/
theorem frames_literal {lit : Rhs} {w : Int} {x : Nat} (hlit : Literal lit w x)
    (hs : c.LiteralsSized) : Frames (literal w lit) c (·.width = w) := by
  unfold literal
  refine frames_get_bind ?_
  split
  · -- shared with an earlier literal of the same text, hence of the same width
    rename_i text op hfind
    obtain ⟨lit', w', x', hlit', htext', hw⟩ := hs _ (List.mem_of_find?_eq_some hfind)
    have htext : text = lit.text := by simpa using List.find?_some hfind
    obtain ⟨-, rfl, -⟩ := hlit'.text_inj hlit (htext'.trans htext)
    exact frames_pure hw
  · -- the first literal with this text
    refine (frames_emit w lit).bind fun op c' hw hf => ?_
    refine ⟨op, _, runs_bind.mpr ⟨⟨⟩, _, runs_modify.mpr rfl, runs_pure.mpr ⟨rfl, rfl⟩⟩, hw, rfl, rfl,
      rfl, fun _ p hp => ?_⟩
    rcases List.mem_append.mp hp with hp | hp
    · exact hf.2.2.2 hs p hp
    · obtain rfl := List.mem_singleton.mp hp
      exact ⟨lit, w, x, hlit, rfl, hw⟩

/-- A leaf whose width is found is lowered to an operand of that width. -/
theorem frames_lowerLeaf (id : NodeId) {n : Node} {leaf : Option Leaf} {w hi : Int}
    (hw : leafWidth n leaf = .ok (w, hi)) (hs : c.LiteralsSized) :
    Frames (lowerLeaf id n leaf) c (·.width = w) := by
  unfold lowerLeaf
  rw [hw]
  dsimp only
  cases leaf with
  | some l => split_ifs <;> exact frames_emit _ _
  | none =>
    cases hk : n.kind <;> simp [leafWidth, hk] at hw
    case int =>
      obtain ⟨rfl, -⟩ := hw
      exact frames_literal (.dec n.value) hs
    case true =>
      obtain ⟨rfl, -⟩ := hw
      exact frames_literal (.bin true) hs
    case false =>
      obtain ⟨rfl, -⟩ := hw
      exact frames_literal (.bin false) hs

theorem run'_lowerLeaf_error {id : NodeId} {n : Node} {leaf : Option Leaf} {e : Error}
    (he : leafWidth n leaf = .error e) :
    (lowerLeaf id n leaf).run' c = .ok (.error (e.wrap s!"node n{id}"), c) := by
  unfold lowerLeaf
  rw [he]
  rfl

/-- Every operator node that validation lets through is lowered to an operand of the width it
is given, declaring wires and nothing else. -/
theorem frames_lowerOperatorAt {id : NodeId} {n : Node} {ops : Array Operand} {w : Int}
    (hreg : n.Regular) (hleaf : n.kind.isLeaf = false) (hsize : ops.size = n.args.size) :
    Frames (lowerOperatorAt id n ops w) c (·.width = w) := by
  have hops : ∀ k, n.kind = k → k ≠ .concat → ∀ m, k.operands = some m → ops.size = m := by
    intro k hk hc m hm
    have := Node.Regular.operands hreg (hk ▸ hc)
    rw [hk, hm] at this
    exact hsize.trans (Option.some.inj this).symm
  have two : ∀ k, n.kind = k → k.isBinary = true → ops.size = 2 := fun k hk hb =>
    hops k hk (by rintro rfl; simp [Kind.isBinary, Kind.code] at hb) 2 (Kind.operands_of_isBinary hb)
  unfold lowerOperatorAt
  dsimp only
  by_cases hu : n.kind.isUnary
  · -- a prefix operator: one operand
    have h1 : ops.size = 1 := hops _ rfl (by rintro h; simp [h, Kind.isUnary] at hu) 1
      (by simp [Kind.operands, hu, hleaf])
    rw [if_pos hu]
    exact (frames_operandAt (by omega)).bind fun _ _ _ _ => frames_emit _ _
  rw [if_neg hu]
  by_cases hcmp : n.kind.isCompare
  · -- a comparison: two operands
    have h2 := two _ rfl (Kind.isBinary_of_isCompare hcmp)
    rw [if_pos hcmp]
    exact (frames_operandAt (by omega)).bind fun _ _ _ _ =>
      (frames_operandAt (by omega)).bind fun _ _ _ _ => frames_emit _ _
  rw [if_neg hcmp]
  cases hk : n.kind with
  | and | or | xor | shr | asr =>
    have h2 := two _ hk rfl
    exact (frames_operandAt (by omega)).bind fun _ _ _ _ =>
      (frames_operandAt (by omega)).bind fun _ _ _ _ => frames_emit _ _
  | add | sub | mul =>
    have h2 := two _ hk rfl
    exact (frames_operandAt (by omega)).bind fun _ _ _ _ =>
      (frames_resize _ _).bind fun _ _ _ _ => (frames_operandAt (by omega)).bind fun _ _ _ _ =>
        (frames_resize _ _).bind fun _ _ _ _ => frames_emit _ _
  | shl =>
    have h2 := two _ hk rfl
    exact (frames_operandAt (by omega)).bind fun _ _ _ _ =>
      (frames_resize _ _).bind fun _ _ _ _ => (frames_operandAt (by omega)).bind fun _ _ _ _ =>
        frames_emit _ _
  | div | mod =>
    have h2 := two _ hk rfl
    exact (frames_operandAt (by omega)).bind fun _ _ _ _ =>
      (frames_operandAt (by omega)).bind fun _ _ _ _ => (frames_emit _ _).bind fun _ _ _ _ =>
        frames_resize _ _
  | query =>
    have h3 : ops.size = 3 := hops _ hk (by decide) 3 rfl
    exact (frames_operandAt (by omega)).bind fun _ _ _ _ =>
      (frames_operandAt (by omega)).bind fun _ _ _ _ => (frames_operandAt (by omega)).bind
        fun _ _ _ _ => frames_emit _ _
  | concat => exact frames_emit _ _
  | toBool =>
    have h1 : ops.size = 1 := hops _ hk (by decide) 1 rfl
    exact (frames_operandAt (by omega)).bind fun _ _ _ _ => frames_emit _ _
  | toInt =>
    have h1 : ops.size = 1 := hops _ hk (by decide) 1 rfl
    exact (frames_operandAt (by omega)).bind fun _ _ _ _ => frames_resize _ _
  | var | int | true | false | bitField => simp [hk, Kind.isLeaf] at hleaf
  | not | complement | neg => simp [hk, Kind.isUnary] at hu
  | lt | gt | le | ge | eq | ne => simp [hk, Kind.isCompare, Kind.code] at hcmp
  | other code =>
    have hknown := hreg.1
    simp [hk, Kind.known] at hknown

end Compiler

end BitSynth.Verilog

namespace BitSynth

namespace WidthState

/-- The width recorded for a node. -/
def found (s : WidthState) (id : NodeId) : Option Int :=
  (if 0 ≤ id then s.widths[id.toNat]? else none).join

theorem found_set {s : WidthState} {id x : Int} {w : Int} (hid : 0 ≤ id)
    (hlt : id.toNat < s.widths.size) :
    ({ s with widths := s.widths.setIfInBounds id.toNat (some w) } : WidthState).found x =
      if x = id then some w else s.found x := by
  unfold found
  by_cases hx : 0 ≤ x
  · have hiff : id.toNat = x.toNat ↔ x = id := by omega
    simp only [if_pos hx, Array.getElem?_setIfInBounds, hiff]
    split_ifs <;> simp_all
  · have hne : x ≠ id := by omega
    simp [hx, hne]

/-- `s'` has a record for every node that `s` has one for. -/
def Grows (s s' : WidthState) : Prop := ∀ id, (s.found id).isSome → (s'.found id).isSome

theorem Grows.refl (s : WidthState) : Grows s s := fun _ h => h

theorem Grows.trans {s s' s'' : WidthState} (h₁ : Grows s s') (h₂ : Grows s' s'') : Grows s s'' :=
  fun id h => h₂ id (h₁ id h)

/-- Every node with a recorded width has recorded operands. -/
def Closed (a : Arena) (s : WidthState) : Prop :=
  ∀ id n, (s.found id).isSome → a.node? id = some n → ∀ x ∈ n.args, (s.found x).isSome

theorem Closed.below {a : Arena} {s : WidthState} (hc : Closed a s) {root x : NodeId}
    (hroot : (s.found root).isSome) (hb : a.Below root x) : (s.found x).isSome := by
  induction hb with
  | root => exact hroot
  | arg _ hn hx ih => exact hc _ _ ih hn _ hx

end WidthState

end BitSynth

namespace BitSynth.Verilog

open WidthState

/-- A compiler state and a width-inference state over the same graph and bindings that have
settled the same nodes at the same widths. -/
structure Agrees (a : Arena) (lm : LeafMap) (c : Compiler) (s : WidthState) : Prop where
  arena : c.arena = a
  leaves : c.leaves = lm
  size : s.widths.size = a.size
  memo : ∀ id, (c.memo.find? (·.1 == id)).map (·.2.width) = s.found id
  literals : c.LiteralsSized

variable {a : Arena} {lm : LeafMap}

theorem widths_of_forall₂ {ops : Array Operand} {ws : Array Int}
    (h : List.Forall₂ (fun op w => op.width = w) ops.toList ws.toList) : ws = ops.map (·.width) := by
  have h' := List.forall₂_map_left_iff.mpr h
  rw [List.forall₂_eq_eq_eq] at h'
  exact Array.toList_inj.mp (by simp [h'])

theorem Agrees.frame {c c' : Compiler} {s : WidthState} (h : Agrees a lm c s)
    (hf : Compiler.Frame c c') : Agrees a lm c' s :=
  ⟨hf.1.trans h.arena, hf.2.1.trans h.leaves, h.size, fun id => hf.2.2.1 ▸ h.memo id,
    hf.2.2.2 h.literals⟩

section Steps

variable {id : NodeId} {n : Node} {c : Compiler} {s : WidthState}
  {h : Error → Stateful WidthState Int}

/-- A leaf is lowered and sized alike, given a width handler that wraps errors as the compiler
does. -/
theorem alike_compileLeaf {own : Guarded Int} (hag : Agrees a lm c s)
    (hok : ∀ w hi, leafWidth n (lm.find? id) = .ok (w, hi) → own.run = .ok (.ok w))
    (herr : ∀ e, leafWidth n (lm.find? id) = .error e → own.run = .ok (.error e))
    (hh : ∀ e, ∃ s', (h e).run' s = .ok (.error (e.wrap s!"node n{id}"), s')) :
    Alike (fun c' s' => Agrees a lm c' s' ∧ s' = s) (fun op w => op.width = w)
      (Compiler.compileLeaf id n) (tryCatch own.lift h) c s := by
  refine Alike.of_run' (Stateful.run'_get_bind _ c) rfl ?_
  unfold Alike
  rw [Stateful.run'_tryCatch, Stateful.run'_lift, hag.leaves]
  rcases hl : leafWidth n (lm.find? id) with e | ⟨w, hi⟩
  · obtain ⟨s', hs'⟩ := hh e
    rw [Compiler.run'_lowerLeaf_error hl, herr e hl]
    simp only [hs']
  · obtain ⟨op, c', hr, hw, hf⟩ := Compiler.frames_lowerLeaf id hl hag.literals
    rw [hr, hok w hi hl]
    exact ⟨hw, hag.frame hf, rfl⟩

/-- An operator is lowered and sized alike from operands of the widths it is sized from. -/
theorem alike_lowerOperator {ops : Array Operand} (hag : Agrees a lm c s) (hreg : n.Regular)
    (hleaf : n.kind.isLeaf = false) (hsize : ops.size = n.args.size)
    (hh : ∀ e, ∃ s', (h e).run' s = .ok (.error (e.wrap s!"node n{id}"), s')) :
    Alike (fun c' s' => Agrees a lm c' s' ∧ s' = s) (fun op w => op.width = w)
      (Compiler.lowerOperator id n ops) (tryCatch (operatorWidth n (ops.map (·.width))).lift h) c s := by
  unfold Alike Compiler.lowerOperator
  rw [Stateful.run'_bind, Stateful.run'_tryCatch, Stateful.run'_tryCatch]
  simp only [Stateful.run'_lift]
  rcases hw : (operatorWidth n (ops.map (·.width))).run with f | e | w
  · simp only [hw]
  · obtain ⟨s', hs'⟩ := hh e
    simp only [hw, hs', Stateful.run'_throw]
  · obtain ⟨op, c', hr, hw', hf⟩ := Compiler.frames_lowerOperatorAt (c := c) (w := w) hreg hleaf hsize
    simp only [hw]
    rw [hr]
    exact ⟨hw', hag.frame hf, rfl⟩

/-- Recording an operand for `id` and its width keeps the states agreeing and closed, given that the
operands of `id` are recorded. -/
theorem alike_record {op : Operand} {w : Int} (hag : Agrees a lm c s) (hcl : Closed a s)
    (hn : a.node? id = some n) (hargs : ∀ x ∈ n.args, (s.found x).isSome) (hw : op.width = w) :
    Alike (fun c' s' => (Agrees a lm c' s' ∧ Closed a s') ∧ Grows s s' ∧ (s'.found id).isSome)
      (fun op w => op.width = w)
      (modify (fun c : Compiler => { c with memo := (id, op) :: c.memo }) >>= fun _ => pure op)
      (modify (fun s : WidthState => { s with widths := s.widths.setIfInBounds id.toNat (some w) }) >>=
        fun _ => pure w) c s := by
  obtain ⟨hid, hlt⟩ := Arena.node?_bounds hn
  have hfound := fun x => found_set (s := s) (w := w) (x := x) hid (hag.size ▸ hlt)
  have hgrows : Grows s { s with widths := s.widths.setIfInBounds id.toNat (some w) } := by
    intro x hx
    rw [hfound x]
    split_ifs <;> simp [hx]
  unfold Alike
  simp only [Stateful.run'_bind, Stateful.run'_modify, Stateful.run'_pure]
  refine ⟨hw, ⟨⟨hag.arena, hag.leaves, by simp [hag.size], fun x => ?_, hag.literals⟩, ?_⟩, hgrows,
    by simp [hfound]⟩
  · -- the new memo entry shadows any older one for `id`
    rw [hfound x, List.find?_cons]
    by_cases hx : x = id
    · simp [hx, hw]
    · have hne : (id == x) = false := beq_eq_false_iff_ne.mpr (Ne.symm hx)
      simp [hne, hx, hag.memo x]
  · -- `id` now has a record, and its operands had theirs already
    intro x m hx hm y hy
    rw [hfound x] at hx
    by_cases hxid : x = id
    · subst hxid
      rw [hn, Option.some.injEq] at hm
      subst hm
      exact hgrows y (hargs y hy)
    · rw [if_neg hxid] at hx
      exact hgrows y (hcl x m hx hm y hy)

end Steps

/-- Lowering the node `id` and inferring its width, from agreeing states, end alike: the same
defect, the same error, or an operand of the inferred width in agreeing states that have recorded
`id` and kept every earlier record. -/
theorem compileWithin_alike (fuel : Nat) : ∀ {id : NodeId} {c : Compiler} {s : WidthState},
    a.RegularBelow id → Agrees a lm c s → Closed a s →
    Alike (fun c' s' => (Agrees a lm c' s' ∧ Closed a s') ∧ Grows s s' ∧ (s'.found id).isSome)
      (fun op w => op.width = w) (Compiler.compileWithin fuel id) (a.widthWithin lm fuel id) c s := by
  induction fuel with
  | zero =>
    intro id c s _ _ _
    rw [Compiler.compileWithin, Arena.widthWithin]
    exact Alike.throw _
  | succ fuel ih =>
    intro id c s hreg hag hcl
    rw [Compiler.compileWithin, Arena.widthWithin]
    refine Alike.of_run' (Stateful.run'_get_bind _ c) (Stateful.run'_get_bind _ s) ?_
    dsimp only
    rw [show (if 0 ≤ id then s.widths[id.toNat]? else none).join = s.found id from rfl]
    have hmemo := hag.memo id
    split
    · -- lowered before: the memoised operand has the recorded width
      rename_i op hfind
      rw [hfind] at hmemo
      rw [← hmemo]
      exact Alike.pure rfl ⟨⟨hag, hcl⟩, .refl s, by rw [← hmemo]; rfl⟩
    · rename_i hfind
      rw [hfind] at hmemo
      obtain ⟨n, hn, hnreg⟩ := hreg id .root
      rw [← hmemo, hag.arena, hn, Arena.get_of_node? hn, Guarded.lift_ofChecked_ok, pure_bind]
      dsimp only
      by_cases hleaf : n.kind.isLeaf
      · -- a leaf: sized from its binding on both sides
        have hargs : ∀ x ∈ n.args, (s.found x).isSome := by
          intro x hx
          have hnil := n.args_eq_nil (Node.Regular.args_of_isLeaf hnreg hleaf)
          simp [hnil] at hx
        rw [if_pos hleaf, if_pos hleaf, pure_bind]
        refine (alike_compileLeaf hag (fun w hi hl => by rw [hl]; rfl) (fun e hl => by rw [hl]; rfl)
          (fun e => by exact ⟨_, rfl⟩)).bind ?_
        rintro op w c₁ s₁ hw ⟨hag₁, rfl⟩
        exact alike_record hag₁ hcl hn hargs hw
      · -- an operator: its operands first, each under the induction hypothesis
        rw [if_neg hleaf, if_neg hleaf]
        refine (Alike.arrayMapM (I := fun c s => Agrees a lm c s ∧ Closed a s) (G := Grows)
          (P := fun x s => (s.found x).isSome) Grows.refl (fun _ _ _ => Grows.trans)
          (fun x _ _ h hg => hg x h) (fun x hx c s hi => ih (Arena.RegularBelow.arg hreg hn hx) hi.1 hi.2)
          ⟨hag, hcl⟩).bind ?_
        rintro ops args c₁ s₁ ⟨hsize, hq⟩ ⟨⟨hag₁, hcl₁⟩, hg₁, hargs⟩
        obtain rfl : args = ops.map (·.width) := widths_of_forall₂ hq
        rw [pure_bind]
        refine (alike_lowerOperator hag₁ hnreg (by simpa using hleaf) hsize
          (fun e => by exact ⟨_, rfl⟩)).bind ?_
        rintro op w c₂ s₂ hw ⟨hag₂, rfl⟩
        exact (alike_record hag₂ hcl₁ hn hargs hw).mono fun _ _ ⟨h, hg, hs⟩ => ⟨h, hg₁.trans hg, hs⟩

end BitSynth.Verilog

namespace BitSynth

namespace WidthState

/-- The list of widths that inference reports reads back, node by node, the widths it recorded. -/
theorem lookup_reported (s : WidthState) (n : Nat) {x : Int} (hx : 0 ≤ x) (hlt : x.toNat < n) :
    ((List.range n).filterMap fun i : Nat => (s.widths[i]?.join).map fun w => ((i : Int), w)).lookup x =
      s.found x := by
  induction n with
  | zero => omega
  | succ n ih =>
    rw [List.range_succ, List.filterMap_append, List.lookup_append]
    rcases Nat.lt_succ_iff_lt_or_eq.mp hlt with hlt | heq
    · -- recorded among the first `n` nodes: the last one has another id
      have hne : x ≠ (n : Int) := by omega
      rw [ih hlt]
      simp only [List.filterMap_cons, List.filterMap_nil]
      rcases s.widths[n]?.join with _ | w <;> simp [hne]
    · -- the last node: no earlier one has its id
      have hnone : ((List.range n).filterMap fun i : Nat =>
          (s.widths[i]?.join).map fun w => ((i : Int), w)).lookup x = none := by
        simp only [List.lookup_eq_none_iff, List.mem_filterMap, List.mem_range, Option.map_eq_some_iff]
        rintro p ⟨i, hi, w, -, rfl⟩
        simp only [bne_iff_ne, ne_eq]
        omega
      subst heq
      rw [hnone, found, if_pos hx]
      simp only [List.filterMap_cons, List.filterMap_nil]
      rcases s.widths[x.toNat]?.join with _ | w <;> simp [Int.toNat_of_nonneg hx]

end WidthState

end BitSynth

namespace BitSynth.Verilog

open WidthState

/-- Lowering `root` with a fresh compiler and inferring the widths below it end alike: with the
same defect, with the same error, or with every node below `root` memoised by the compiler as an
operand of the width that inference reports for it. -/
def LowersAtInferredWidths (a : Arena) (lm : LeafMap) (p : String) (root : NodeId)
    (rep : Option Reporter) : Prop :=
  match (Compiler.compile root).run' (Compiler.new a lm p), a.inferWidths root lm rep with
  | .error f, .error f' => f = f'
  | .ok (.error e, _), .ok (_, .error e') => e = e'
  | .ok (.ok _, c), .ok (_, .ok found) =>
    ∀ x, a.Below root x → ∃ op, c.memo.lookup x = some op ∧ found.lookup x = some op.width
  | _, _ => False

@[simp] theorem found_replicate (n : Nat) (rep : Option Reporter) (id : NodeId) :
    (⟨Array.replicate n none, rep⟩ : WidthState).found id = none := by
  unfold found
  split_ifs
  · rw [Array.getElem?_replicate]
    split_ifs <;> rfl
  · rfl

theorem agrees_new (a : Arena) (lm : LeafMap) (p : String) (rep : Option Reporter) :
    Agrees a lm (Compiler.new a lm p) ⟨Array.replicate a.size none, rep⟩ where
  arena := rfl
  leaves := rfl
  size := Array.size_replicate
  memo id := by simp [Compiler.new]
  literals := by simp [Compiler.LiteralsSized, Compiler.new]

theorem closed_new (a : Arena) (rep : Option Reporter) :
    Closed a ⟨Array.replicate a.size none, rep⟩ := by
  intro id n h
  simp at h

/-- On an acyclic graph of canonical kinds, below a root that validation accepts, lowering the root
with a fresh compiler and inferring its widths fail together, with the same defect or the same
error, or both succeed with every node below the root memoised at the width inferred for it. -/
theorem compile_agrees_with_inferred_widths {a : Arena} {lm : LeafMap} {p : String} {root : Int}
    {r : Reporter} (rep : Option Reporter) (hacyc : a.Acyclic)
    (hcanon : ∀ id n, a.node? id = some n → n.kind.Canonical)
    (hcheck : (a.check root lm (some r)).2 = .ok ()) : LowersAtInferredWidths a lm p root rep := by
  have hreg := Arena.regularBelow_of_check hacyc hcanon hcheck
  obtain ⟨n, hn, -⟩ := hreg root .root
  obtain ⟨h0, hlt⟩ := Arena.node?_bounds hn
  have hvalid : a.valid root = true := by
    simp only [Arena.valid, h0, decide_true, Bool.true_and, decide_eq_true_eq]
    rw [← Int.toNat_of_nonneg h0]
    exact_mod_cast hlt
  have hal := compileWithin_alike (a.size + 1) hreg (agrees_new a lm p rep) (closed_new a rep)
  unfold Alike at hal
  unfold LowersAtInferredWidths Compiler.compile Arena.inferWidths
  rw [Stateful.run'_get_bind, if_neg (by simp [hvalid]), show (Compiler.new a lm p).arena = a from rfl]
  rcases h₁ : (Compiler.compileWithin (a.size + 1) root).run' (Compiler.new a lm p) with f | ⟨e | op, c⟩ <;>
    rcases h₂ : (a.widthWithin lm (a.size + 1) root).run' ⟨Array.replicate a.size none, rep⟩ with
      f' | ⟨e' | w, s⟩ <;> rw [h₁, h₂] at hal <;> simp only at hal <;>
    simp only [bind, Except.bind, pure, Except.pure]
  · exact hal
  · exact hal
  · -- every node below the root is recorded, and the memo holds it at the recorded width
    intro x hx
    obtain ⟨-, ⟨hag, hcl⟩, -, hroot⟩ := hal
    obtain ⟨m, hm, -⟩ := hreg x hx
    obtain ⟨hx0, hxlt⟩ := Arena.node?_bounds hm
    obtain ⟨w', hw'⟩ := Option.isSome_iff_exists.mp (hcl.below hroot hx)
    have hmemo := hag.memo x
    rw [hw'] at hmemo
    obtain ⟨⟨k, o⟩, hfind, hwidth⟩ := Option.map_eq_some_iff.mp hmemo
    refine ⟨o, by rw [List.lookup_eq_find?_map, hfind]; rfl, ?_⟩
    rw [lookup_reported s a.size hx0 hxlt, hw']
    exact congrArg some hwidth.symm

/-- `a + a` over one four-bit signal, its operand reached twice. -/
def doubleArena : Arena :=
  ⟨#[{ kind := .var, name := "a" }, { kind := .add, args := #[0, 0] }]⟩

def doubleLeaves : LeafMap := ⟨[(0, ⟨"a", 4⟩)]⟩

theorem double_lowers_at_inferred_widths :
    (doubleArena.check 1 doubleLeaves (some {})).2 = .ok () ∧
      LowersAtInferredWidths doubleArena doubleLeaves "t" 1 none :=
  ⟨rfl, compile_agrees_with_inferred_widths none (Arena.acyclic_of_args_lt (by decide))
    (Arena.canonical_of_forall (by decide)) (r := {}) rfl⟩

end BitSynth.Verilog
