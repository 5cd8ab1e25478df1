import Mathlib
import BitSynth.Proofs.Declarations
import BitSynth.Proofs.Sizing
import BitSynth.Proofs.WidthAgreement

namespace BitSynth

namespace Stateful

variable {σ α β : Type} {x : Stateful σ α} {s : σ} {Q Q' : Except Error α → σ → Prop}

/-- `x` run from `s` ends without a defect, with an outcome and a final state satisfying `Q`. -/
def Ends (x : Stateful σ α) (s : σ) (Q : Except Error α → σ → Prop) : Prop :=
  ∃ r s', x.run' s = .ok (r, s') ∧ Q r s'

theorem Ends.mono (h : Ends x s Q) (hq : ∀ r s', Q r s' → Q' r s') : Ends x s Q' := by
  obtain ⟨r, s', hr, hQ⟩ := h
  exact ⟨r, s', hr, hq r s' hQ⟩

theorem ends_throw (e : Error) (h : Q (.error e) s) : Ends (throw e : Stateful σ α) s Q :=
  ⟨.error e, s, rfl, h⟩

theorem ends_pure {v : α} (h : Q (.ok v) s) : Ends (pure v : Stateful σ α) s Q :=
  ⟨.ok v, s, rfl, h⟩

theorem Ends.get_bind {f : σ → Stateful σ α} (h : Ends (f s) s Q) : Ends (MonadState.get >>= f) s Q := by
  obtain ⟨r, s', hr, hq⟩ := h
  exact ⟨r, s', by rw [run'_get_bind]; exact hr, hq⟩

theorem Ends.bind {f : α → Stateful σ β} {R : Except Error α → σ → Prop}
    {Q : Except Error β → σ → Prop} (hx : Ends x s R) (hf : ∀ v s', R (.ok v) s' → Ends (f v) s' Q)
    (he : ∀ e s', R (.error e) s' → Q (.error e) s') : Ends (x >>= f) s Q := by
  obtain ⟨r, s₁, hr, hR⟩ := hx
  rcases r with e | v
  · exact ⟨.error e, s₁, by rw [run'_bind, hr], he e s₁ hR⟩
  · obtain ⟨r', s₂, hr', hQ⟩ := hf v s₁ hR
    exact ⟨r', s₂, by rw [run'_bind, hr]; exact hr', hQ⟩

end Stateful

namespace Term

variable {α : Type}

theorem depth_pos (t : Term α) : 0 < t.depth := by
  cases t <;> simp [depth]

theorem depth_lt_of_mem_args {t u : Term α} (hu : u ∈ t.args) : u.depth < t.depth := by
  cases t with
  | var | int | bool | bitField => simp [args] at hu
  | unary _ _ x | toBool _ x | toInt _ x _ =>
    obtain rfl := List.mem_singleton.mp hu
    simp [depth]
  | binary _ _ l r =>
    simp only [args, List.mem_cons, List.not_mem_nil, or_false] at hu
    rcases hu with rfl | rfl <;> simp only [depth] <;> omega
  | query _ c t e =>
    simp only [args, List.mem_cons, List.not_mem_nil, or_false] at hu
    rcases hu with rfl | rfl | rfl <;> simp only [depth] <;> omega
  | concat _ ps =>
    have := depth_le_depthList (show u ∈ ps from hu)
    simp only [depth]
    omega

theorem width_pos_of_args {lm : LeafMap} {t : Term NodeId} (hne : t.args ≠ [])
    (hpos : ∀ u ∈ t.args, 0 < u.width lm) : 0 < t.width lm := by
  cases t with
  | var | int | bool | bitField => simp [args] at hne
  | unary _ _ x => simpa [width, args] using hpos
  | binary _ k l r => exact Kind.infixWidth_pos k (hpos l (by simp [args])) (hpos r (by simp [args]))
  | query _ c t e => exact lt_max_of_lt_left (hpos t (by simp [args]))
  | concat _ ps => exact widthSum_pos hne hpos
  | toBool => simp [width]
  | toInt _ x w =>
    simp only [width]
    split_ifs <;> omega

end Term

namespace Arena

variable {a : Arena} {id : NodeId} {t : Term NodeId} {n : Node}

/-- The operand trees of an unfolded node unfold from its operands, one by one. -/
theorem Unfolds.args_forall₂ (hu : a.Unfolds id t) (hn : a.node? id = some n) :
    List.Forall₂ a.Unfolds n.args.toList t.args := by
  cases hu with
  | var hn' _ ha | int hn' _ ha | bool hn' _ ha | bitField hn' _ ha =>
    rw [hn, Option.some.injEq] at hn'
    subst hn'
    simp [ha, Term.args]
  | unary hn' _ ha hx | toBool hn' _ ha hx | toInt hn' _ ha hx =>
    rw [hn, Option.some.injEq] at hn'
    subst hn'
    simp [ha, Term.args, hx]
  | binary hn' _ ha hl hr =>
    rw [hn, Option.some.injEq] at hn'
    subst hn'
    simp [ha, Term.args, hl, hr]
  | query hn' _ ha hc ht he =>
    rw [hn, Option.some.injEq] at hn'
    subst hn'
    simp [ha, Term.args, hc, ht, he]
  | concat hn' _ _ hlen hs =>
    rw [hn, Option.some.injEq] at hn'
    subst hn'
    exact List.forall₂_iff_zip.mpr ⟨by simpa [Term.args] using hlen, fun hp => hs _ hp⟩

theorem Unfolds.args_ne_nil (hu : a.Unfolds id t) (hn : a.node? id = some n)
    (hleaf : n.kind.isLeaf = false) : t.args ≠ [] := by
  cases hu with
  | var hn' hk | int hn' hk | bitField hn' hk =>
    rw [hn, Option.some.injEq] at hn'
    subst hn'
    simp [hk, Kind.isLeaf] at hleaf
  | @bool _ _ b hn' hk =>
    rw [hn, Option.some.injEq] at hn'
    subst hn'
    cases b <;> simp [hk, Kind.isLeaf] at hleaf
  | concat _ _ hne => exact hne
  | _ => simp [Term.args]

theorem Unfolds.leaf_unrefused (lm : LeafMap) (hu : a.Unfolds id t) (hn : a.node? id = some n)
    (hleaf : n.kind.isLeaf) : (t.refusal lm).isNone ∧ t.args = [] := by
  cases hu with
  | var | int | bool | bitField => exact ⟨rfl, rfl⟩
  | unary hn' hk =>
    rw [hn, Option.some.injEq] at hn'
    subst hn'
    simp [Kind.isLeaf_of_isUnary hk] at hleaf
  | binary hn' hk =>
    rw [hn, Option.some.injEq] at hn'
    subst hn'
    simp [hk.isLeaf] at hleaf
  | query hn' hk | concat hn' hk | toBool hn' hk | toInt hn' hk =>
    rw [hn, Option.some.injEq] at hn'
    subst hn'
    simp [hk, Kind.isLeaf] at hleaf

end Arena

namespace Verilog

open Stateful Term

/-- An operand names a wire of `ws` of the operand's width. -/
def Declared (ws : List Wire) (op : Operand) : Prop := ∃ x ∈ ws, x.name = op.name ∧ x.width = op.width

theorem Declared.known {K : Known} {ws : List Wire} {op : Operand} (h : Declared ws op) :
    K.addAll ws op.name op.width := by
  obtain ⟨x, hx, hn, hw⟩ := h
  rw [← hn, ← hw]
  exact Known.addAll_of_mem hx

theorem Declared.mono {c c' : Compiler} {op : Operand} (h : Declared c.wires.toList op)
    (hx : c.Extends c') : Declared c'.wires.toList op := by
  obtain ⟨ws, hws⟩ := hx
  obtain ⟨x, hx, hn⟩ := h
  exact ⟨x, by rw [hws]; exact List.mem_append_left ws hx, hn⟩

/-- A wire of a width that fits, that reads declared operands only and neither selects nor pads, is
ready after the declarations. -/
theorem Wire.ready_of_reads {K : Known} {ws : List Wire} {x : Wire} (ops : List Operand)
    (hw : 0 < x.width ∧ x.width < 2 ^ 63) (hops : ∀ op ∈ ops, Declared ws op)
    (hr : x.rhs.reads = ops.map Operand.name) (hsel : x.rhs.selects = [])
    (hpad : ∀ z s, x.rhs ≠ .pad z s) : x.Ready (K.addAll ws) where
  width_pos := hw.1
  width_lt := hw.2
  reads s hs := by
    rw [hr] at hs
    obtain ⟨op, hop, rfl⟩ := List.mem_map.mp hs
    exact ⟨_, (hops op hop).known⟩
  selects s hi lo hs := by simp [hsel] at hs
  pads z s h := absurd h (hpad z s)

theorem Literal.ready {lit : Rhs} {w : Int} {x : Nat} {K : Known} {name : String}
    (hlit : Literal lit w x) : (⟨name, w, lit⟩ : Wire).Ready K := by
  obtain ⟨hw, hw'⟩ := hlit.width_pos
  cases hlit <;> exact ⟨hw, hw', by simp [Rhs.reads], by simp [Rhs.selects], by simp⟩

namespace Compiler

/-- A compiler state reached by lowering nodes of `a` under `lm` where the nets `K` are known: its
wires are the temporaries below `next`, well formed over `K`; each memoised node's operand is a
declared wire of the width of the node's tree, and each shared literal's operand a declared wire
of the literal's width. -/
structure Orderly (a : Arena) (lm : LeafMap) (K : Known) (c : Compiler) : Prop where
  arena : c.arena = a
  leaves : c.leaves = lm
  names : c.wires.toList.map Wire.name = (List.range c.next).map (tempName c.tempPrefix)
  wires : WellFormed K c.wires.toList
  memo : ∀ id op, (id, op) ∈ c.memo →
    (∃ t, a.Unfolds id t ∧ op.width = t.width lm) ∧ Declared c.wires.toList op
  literals : c.LiteralsSized
  literalsDeclared : ∀ p ∈ c.literals, Declared c.wires.toList p.2

variable {a : Arena} {lm : LeafMap} {K : Known} {c c' c'' : Compiler} {α β : Type}

theorem Orderly.width_bounds {op : Operand} (hs : c.Orderly a lm K) (h : Declared c.wires.toList op) :
    0 < op.width ∧ op.width < 2 ^ 63 := by
  obtain ⟨x, hx, -, hw⟩ := h
  rw [← hw]
  exact hs.wires.width_bounds hx

/-- `x` succeeds from `c` with a result satisfying `P` in an orderly state that extends `c`. -/
def Keeps (a : Arena) (lm : LeafMap) (K : Known) (x : Compiling α) (c : Compiler)
    (P : α → Compiler → Prop) : Prop :=
  ∃ v c', Runs x c v c' ∧ c'.Orderly a lm K ∧ c.Extends c' ∧ P v c'

theorem Keeps.bind {x : Compiling α} {f : α → Compiling β} {P : α → Compiler → Prop}
    {Q : β → Compiler → Prop} (hx : Keeps a lm K x c P)
    (hf : ∀ v c', c'.Orderly a lm K → c.Extends c' → P v c' → Keeps a lm K (f v) c' Q) :
    Keeps a lm K (x >>= f) c Q := by
  obtain ⟨v, c₁, hr, hs₁, hx₁, hp⟩ := hx
  obtain ⟨w, c₂, hr₂, hs₂, hx₂, hq⟩ := hf v c₁ hs₁ hx₁ hp
  exact ⟨w, c₂, runs_bind.mpr ⟨v, c₁, hr, hr₂⟩, hs₂, hx₁.trans hx₂, hq⟩

theorem keeps_get_bind {f : Compiler → Compiling α} {P : α → Compiler → Prop}
    (h : Keeps a lm K (f c) c P) : Keeps a lm K (MonadState.get >>= f) c P := by
  obtain ⟨v, c', hr, hrest⟩ := h
  exact ⟨v, c', runs_bind.mpr ⟨c, c, runs_get.mpr ⟨rfl, rfl⟩, hr⟩, hrest⟩

theorem keeps_pure {v : α} {P : α → Compiler → Prop} (hs : c.Orderly a lm K) (h : P v c) :
    Keeps a lm K (pure v) c P :=
  ⟨v, c, runs_pure.mpr ⟨rfl, rfl⟩, hs, .refl c, h⟩

theorem Keeps.ends {x : Compiling α} {P : α → Compiler → Prop} {Q : Except Error α → Compiler → Prop}
    (h : Keeps a lm K x c P) (hq : ∀ v c', c'.Orderly a lm K → c.Extends c' → P v c' → Q (.ok v) c') :
    Ends x c Q := by
  obtain ⟨v, c', hr, hs', hx, hp⟩ := h
  exact ⟨.ok v, c', hr, hq v c' hs' hx hp⟩

/-- A declared operand stays declared in every state that keeps the wires. -/
def Holds (op : Operand) (w : Int) (c : Compiler) : Prop := op.width = w ∧ Declared c.wires.toList op

theorem Holds.mono {op : Operand} {w : Int} (h : Holds op w c) (hx : c.Extends c') : Holds op w c' :=
  ⟨h.1, h.2.mono hx⟩

/-- Declaring a wire that is ready after the wires so far keeps the state orderly. -/
theorem Orderly.emit {w : Int} {r : Rhs} (hs : c.Orderly a lm K)
    (hr : (⟨tempName c.tempPrefix c.next, w, r⟩ : Wire).Ready (K.addAll c.wires.toList)) :
    Keeps a lm K (Compiler.emit w r) c fun op c' => Holds op w c' := by
  let x : Wire := ⟨tempName c.tempPrefix c.next, w, r⟩
  have hx : c.Extends { c with next := c.next + 1, wires := c.wires.push x } :=
    ⟨[x], by rw [Array.toList_push]⟩
  refine ⟨_, _, runs_emit.mpr ⟨rfl, rfl⟩, ⟨hs.arena, hs.leaves, ?_, ?_, ?_, hs.literals, ?_⟩, hx,
    rfl, ⟨x, by rw [Array.toList_push]; exact List.mem_append_right _ (List.mem_singleton_self x), rfl,
      rfl⟩⟩
  · simp [hs.names, List.range_succ]
  · simpa only [Array.toList_push, wellFormed_append_singleton] using ⟨hs.wires, hr⟩
  · intro id op hmem
    obtain ⟨ht, hd⟩ := hs.memo id op hmem
    exact ⟨ht, hd.mono hx⟩
  · intro p hp
    exact (hs.literalsDeclared p hp).mono hx

theorem Orderly.emit_reading {w : Int} {r : Rhs} (ops : List Operand) (hs : c.Orderly a lm K)
    (hw : 0 < w ∧ w < 2 ^ 63) (hops : ∀ op ∈ ops, Declared c.wires.toList op)
    (hr : r.reads = ops.map Operand.name) (hsel : r.selects = []) (hpad : ∀ z s, r ≠ .pad z s) :
    Keeps a lm K (Compiler.emit w r) c fun op c' => Holds op w c' :=
  hs.emit (Wire.ready_of_reads ops hw hops hr hsel hpad)

theorem Orderly.operandAt {ops : Array Operand} {i : Nat} (hs : c.Orderly a lm K) (h : i < ops.size)
    (hops : ∀ op ∈ ops, Declared c.wires.toList op) :
    Keeps a lm K (operandAt ops i) c fun op c' => Declared c'.wires.toList op :=
  ⟨ops[i], c, runs_operandAt.mpr ⟨by simp [h], rfl⟩, hs, .refl c, hops _ (Array.getElem_mem h)⟩

/-- Resizing a declared operand to a width that fits declares a pad of a positive number of zeros,
a bit or a range inside the operand, or nothing. -/
theorem Orderly.resize {op : Operand} {w : Int} (hs : c.Orderly a lm K)
    (hop : Declared c.wires.toList op) (hw : 0 < w ∧ w < 2 ^ 63) :
    Keeps a lm K (Compiler.resize op w) c fun op' c' => Holds op' w c' := by
  obtain ⟨hpos, hlt⟩ := hs.width_bounds hop
  have hknown : ∀ s ∈ [op.name], ∃ v, K.addAll c.wires.toList s v := by
    simpa using ⟨_, hop.known⟩
  unfold Compiler.resize
  split_ifs with hless hmore h1
  · -- zeros in front: as many as the widths differ by
    refine hs.emit ⟨hw.1, hw.2, hknown, by simp [Rhs.selects], fun z s h => ?_⟩
    obtain ⟨rfl, -⟩ := Rhs.pad.inj h
    rw [wrapWord_of_lt (by omega) (by omega)]
    omega
  · -- the low bit
    refine hs.emit ⟨hw.1, hw.2, hknown, fun s hi lo hsel => ?_, by simp⟩
    simp only [Rhs.selects, List.mem_singleton, Prod.mk.injEq] at hsel
    obtain ⟨rfl, rfl, rfl⟩ := hsel
    exact ⟨_, hop.known, le_refl 0, le_refl 0, hpos⟩
  · -- the low bits
    refine hs.emit ⟨hw.1, hw.2, hknown, fun s hi lo hsel => ?_, by simp⟩
    simp only [Rhs.selects, List.mem_singleton, Prod.mk.injEq] at hsel
    obtain ⟨rfl, rfl, rfl⟩ := hsel
    rw [wrapWord_of_lt (by omega) (by omega)]
    exact ⟨_, hop.known, le_refl 0, by omega, by omega⟩
  · exact keeps_pure hs ⟨by omega, hop⟩

/-- A literal is lowered to a declared operand of its width, shared with the first literal of its
text or declared as the first. -/
theorem Orderly.literal {lit : Rhs} {w : Int} {x : Nat} (hs : c.Orderly a lm K)
    (hlit : Literal lit w x) : Keeps a lm K (Compiler.literal w lit) c fun op c' => Holds op w c' := by
  unfold Compiler.literal
  refine keeps_get_bind ?_
  split
  · -- shared with an earlier literal of the same text, hence of the same width
    rename_i text op hfind
    have hmem := List.mem_of_find?_eq_some hfind
    obtain ⟨lit', w', x', hlit', htext', hw⟩ := hs.literals _ hmem
    have htext : text = lit.text := by simpa using List.find?_some hfind
    obtain ⟨-, rfl, -⟩ := hlit'.text_inj hlit (htext'.trans htext)
    exact keeps_pure hs ⟨hw, hs.literalsDeclared _ hmem⟩
  · -- the first literal with this text
    refine (hs.emit hlit.ready).bind fun op c₁ hs₁ _ hh => ?_
    refine ⟨op, _, runs_bind.mpr ⟨⟨⟩, _, runs_modify.mpr rfl, runs_pure.mpr ⟨rfl, rfl⟩⟩,
      ⟨hs₁.arena, hs₁.leaves, hs₁.names, hs₁.wires, hs₁.memo, fun p hp => ?_, fun p hp => ?_⟩,
      .refl c₁, hh⟩
    · rcases List.mem_append.mp hp with hp | hp
      · exact hs₁.literals p hp
      · obtain rfl := List.mem_singleton.mp hp
        exact ⟨lit, w, x, hlit, rfl, hh.1⟩
    · rcases List.mem_append.mp hp with hp | hp
      · exact hs₁.literalsDeclared p hp
      · obtain rfl := List.mem_singleton.mp hp
        exact hh.2

/-- Every operator node that validation lets through is lowered, from declared operands and to a
width that fits, to a declared operand of that width. -/
theorem Orderly.lowerOperatorAt {id : NodeId} {n : Node} {ops : Array Operand} {w : Int}
    (hs : c.Orderly a lm K) (hreg : n.Regular) (hleaf : n.kind.isLeaf = false)
    (hsize : ops.size = n.args.size) (hops : ∀ op ∈ ops, Declared c.wires.toList op)
    (hw : 0 < w ∧ w < 2 ^ 63) :
    Keeps a lm K (lowerOperatorAt id n ops w) c fun op c' => Holds op w c' := by
  have hcount : ∀ m, n.kind ≠ .concat → n.kind.operands = some m → ops.size = m := by
    intro m hc hm
    have := hreg.operands hc
    rw [hm, Option.some.injEq] at this
    omega
  have two : ∀ k, n.kind = k → k.isBinary = true → ops.size = 2 := by
    intro k hk hb
    refine hcount 2 (by rintro h; rw [h] at hk; subst hk; simp [Kind.isBinary, Kind.code] at hb) ?_
    rw [hk]
    exact Kind.operands_of_isBinary hb
  -- the operands stay declared as wires are declared after them
  have later : ∀ {c'}, c.Extends c' → ∀ op ∈ ops, Declared c'.wires.toList op :=
    fun hx op h => (hops op h).mono hx
  unfold Compiler.lowerOperatorAt
  dsimp only
  by_cases hu : n.kind.isUnary
  · -- a prefix operator: one operand
    have h1 := hcount 1 (by rintro h; simp [h, Kind.isUnary] at hu) (by simp [Kind.operands, hu, hleaf])
    rw [if_pos hu]
    exact (hs.operandAt (by omega) hops).bind fun x c₁ hs₁ _ hx =>
      hs₁.emit_reading [x] hw (by simpa using hx) rfl rfl (by simp)
  rw [if_neg hu]
  by_cases hcmp : n.kind.isCompare
  · -- a comparison: two operands
    have h2 := two _ rfl (Kind.isBinary_of_isCompare hcmp)
    rw [if_pos hcmp]
    exact (hs.operandAt (by omega) hops).bind fun l c₁ hs₁ hx₁ hl =>
      (hs₁.operandAt (by omega) (later hx₁)).bind fun r c₂ hs₂ hx₂ hr =>
        hs₂.emit_reading [l, r] hw (by simp [hl.mono hx₂, hr]) rfl rfl (by simp [operation])
  rw [if_neg hcmp]
  cases hk : n.kind with
  | and | or | xor | shr | asr =>
    have h2 := two _ hk rfl
    exact (hs.operandAt (by omega) hops).bind fun l c₁ hs₁ hx₁ hl =>
      (hs₁.operandAt (by omega) (later hx₁)).bind fun r c₂ hs₂ hx₂ hr =>
        hs₂.emit_reading [l, r] hw (by simp [hl.mono hx₂, hr]) rfl rfl (by simp [operation])
  | add | sub | mul =>
    have h2 := two _ hk rfl
    exact (hs.operandAt (by omega) hops).bind fun l c₁ hs₁ hx₁ hl =>
      (hs₁.resize hl hw).bind fun l' c₂ hs₂ hx₂ hl' =>
        (hs₂.operandAt (by omega) (later (hx₁.trans hx₂))).bind fun r c₃ hs₃ hx₃ hr =>
          (hs₃.resize hr hw).bind fun r' c₄ hs₄ hx₄ hr' =>
            hs₄.emit_reading [l', r'] hw (by simp [((hl'.mono hx₃).mono hx₄).2, hr'.2]) rfl rfl
              (by simp [operation])
  | shl =>
    have h2 := two _ hk rfl
    exact (hs.operandAt (by omega) hops).bind fun l c₁ hs₁ hx₁ hl =>
      (hs₁.resize hl hw).bind fun l' c₂ hs₂ hx₂ hl' =>
        (hs₂.operandAt (by omega) (later (hx₁.trans hx₂))).bind fun r c₃ hs₃ hx₃ hr =>
          hs₃.emit_reading [l', r] hw (by simp [(hl'.mono hx₃).2, hr]) rfl rfl (by simp [operation])
  | div | mod =>
    have h2 := two _ hk rfl
    refine (hs.operandAt (by omega) hops).bind fun l c₁ hs₁ hx₁ hl =>
      (hs₁.operandAt (by omega) (later hx₁)).bind fun r c₂ hs₂ hx₂ hr => ?_
    have hl₂ := hl.mono hx₂
    obtain ⟨hl0, hl1⟩ := hs₂.width_bounds hl₂
    obtain ⟨-, hr1⟩ := hs₂.width_bounds hr
    exact (hs₂.emit_reading [l, r] ⟨lt_max_of_lt_left hl0, max_lt hl1 hr1⟩ (by simp [hl₂, hr]) rfl rfl
      (by simp [operation])).bind fun full c₃ hs₃ _ hfull => hs₃.resize hfull.2 hw
  | query =>
    have h3 := hcount 3 (by rw [hk]; simp) (by rw [hk]; rfl)
    exact (hs.operandAt (by omega) hops).bind fun x c₁ hs₁ hx₁ hx =>
      (hs₁.operandAt (by omega) (later hx₁)).bind fun t c₂ hs₂ hx₂ ht =>
        (hs₂.operandAt (by omega) (later (hx₁.trans hx₂))).bind fun f c₃ hs₃ hx₃ hf =>
          hs₃.emit_reading [x, t, f] hw (by simp [(hx.mono hx₂).mono hx₃, ht.mono hx₃, hf]) rfl rfl
            (by simp)
  | concat => exact hs.emit_reading ops.toList hw (by simpa using hops) rfl rfl (by simp)
  | toBool =>
    have h1 := hcount 1 (by rw [hk]; simp) (by rw [hk]; rfl)
    exact (hs.operandAt (by omega) hops).bind fun x c₁ hs₁ _ hx =>
      hs₁.emit_reading [x] hw (by simpa using hx) rfl rfl (by simp)
  | toInt =>
    have h1 := hcount 1 (by rw [hk]; simp) (by rw [hk]; rfl)
    exact (hs.operandAt (by omega) hops).bind fun x c₁ hs₁ _ hx => hs₁.resize hx hw
  | var | int | true | false | bitField => simp [hk, Kind.isLeaf] at hleaf
  | not | complement | neg => simp [hk, Kind.isUnary] at hu
  | lt | gt | le | ge | eq | ne => simp [hk, Kind.isCompare, Kind.code] at hcmp
  | other code =>
    have hknown := hreg.1
    simp [hk, Kind.known] at hknown

theorem Orderly.holds_forall₂ {ts : List (Term NodeId)} {os : List Operand} (hs : c.Orderly a lm K)
    (h : List.Forall₂ (fun u op => Holds op (u.width lm) c) ts os) :
    (∀ op ∈ os, Declared c.wires.toList op) ∧ (∀ u ∈ ts, 0 < u.width lm ∧ u.width lm < 2 ^ 63) ∧
      os.map (·.width) = ts.map (·.width lm) := by
  induction h with
  | nil => simp
  | cons hh _ ih =>
    obtain ⟨hd, hb, hw⟩ := ih
    have hbound := hs.width_bounds hh.2
    rw [hh.1] at hbound
    exact ⟨by simpa [hh.2] using hd, List.forall_mem_cons.mpr ⟨hbound, hb⟩, by simp [hh.1, hw]⟩

/-- How lowering the tree `t` from `c` may end: in an orderly state that extends `c`, with a
declared operand of the tree's width or with an error that `E` allows. -/
def Lands (a : Arena) (lm : LeafMap) (K : Known) (t : Term NodeId) (E : Error → Prop) (c : Compiler)
    (r : Except Error Operand) (c' : Compiler) : Prop :=
  c'.Orderly a lm K ∧ c.Extends c' ∧ (∀ op, r = .ok op → Holds op (t.width lm) c') ∧
    ∀ e, r = .error e → E e

theorem Keeps.lands {x : Compiling Operand} {t : Term NodeId} {E : Error → Prop}
    (h : Keeps a lm K x c fun op c' => Holds op (t.width lm) c') : Ends x c (Lands a lm K t E c) :=
  h.ends fun _ _ hs hx hh => ⟨hs, hx, fun _ h => by cases h; exact hh, fun _ h => by cases h⟩

theorem Lands.weaken {t : Term NodeId} {E E' : Error → Prop} {r : Except Error Operand}
    (h : Lands a lm K t E c' r c'') (hx : c.Extends c') (hE : ∀ e, E e → E' e) :
    Lands a lm K t E' c r c'' :=
  ⟨h.1, hx.trans h.2.1, h.2.2.1, fun e he => hE e (h.2.2.2 e he)⟩

/-- A leaf that its binding sizes is lowered to a declared operand of its tree's width: its signal
whole, a bit or a range inside it, or a shared literal. A leaf that its binding does not size fails
with the binding's error, naming the node. -/
theorem Orderly.lowerLeaf {id : NodeId} {n : Node} {t : Term NodeId} (hs : c.Orderly a lm K)
    (hu : a.Unfolds id t) (hn : a.node? id = some n) (hleaf : n.kind.isLeaf)
    (hfits : t.width lm < 2 ^ 63) (hK : ∀ l, lm.find? id = some l → K l.name l.width) :
    Ends (Compiler.lowerLeaf id n (lm.find? id)) c (Lands a lm K t
      (fun e => ∃ e', leafWidth n (lm.find? id) = .error e' ∧ e = e'.wrap s!"node n{id}") c) := by
  rcases hw : leafWidth n (lm.find? id) with e | ⟨w, hi⟩
  · exact ⟨_, c, run'_lowerLeaf_error hw, hs, .refl c, (fun _ h => by cases h),
      fun _ h => by cases h; exact ⟨e, rfl, rfl⟩⟩
  obtain ⟨hwt, hpos⟩ := leafWidth_unfolds hu hn hleaf hw hfits
  have hbound : 0 < w ∧ w < 2 ^ 63 := ⟨hpos, hwt ▸ hfits⟩
  suffices h : Keeps a lm K (Compiler.lowerLeaf id n (lm.find? id)) c fun op c' => Holds op w c' by
    rw [hwt] at h
    exact h.lands
  unfold Compiler.lowerLeaf
  rw [hw]
  dsimp only
  rcases hl : lm.find? id with _ | l
  · -- an unbound constant: a literal
    rw [hl] at hw
    cases hk : n.kind <;> simp [leafWidth, hk] at hw
    case int =>
      rw [← hw.1]
      exact hs.literal (.dec n.value)
    case true =>
      rw [← hw.1]
      exact hs.literal (.bin true)
    case false =>
      rw [← hw.1]
      exact hs.literal (.bin false)
  -- a bound leaf reads its signal, known at the signal's width
  have hknown : K.addAll c.wires.toList l.name l.width := Known.addAll_of_known (hK l hl)
  have hread : ∀ s ∈ [l.name], ∃ v, K.addAll c.wires.toList s v := by simpa using ⟨_, hknown⟩
  rw [hl] at hw
  by_cases hk : n.kind = .bitField
  · -- a bit-field: a range of its signal, clamped inside it
    rcases hclamp : clampSlice n.hi n.lo l.width with e | hi'
    · simp [leafWidth, hk, hclamp] at hw
    simp only [leafWidth, hk, hclamp, Except.ok.injEq, Prod.mk.injEq] at hw
    obtain ⟨-, rfl⟩ := hw
    obtain ⟨-, hhi, hlo, hlohi⟩ := clampSlice_ok hclamp
    have hlt : hi' < l.width := by split_ifs at hhi <;> omega
    simp only [hk, bne_self_eq_false, Bool.false_eq_true, if_false]
    split_ifs with hwhole hbit
    · exact hs.emit ⟨hbound.1, hbound.2, hread, by simp [Rhs.selects], by simp⟩
    · refine hs.emit ⟨hbound.1, hbound.2, hread, fun s h l' hsel => ?_, by simp⟩
      simp only [Rhs.selects, List.mem_singleton, Prod.mk.injEq] at hsel
      obtain ⟨rfl, rfl, rfl⟩ := hsel
      exact ⟨_, hknown, hlo, le_refl _, by omega⟩
    · refine hs.emit ⟨hbound.1, hbound.2, hread, fun s h l' hsel => ?_, by simp⟩
      simp only [Rhs.selects, List.mem_singleton, Prod.mk.injEq] at hsel
      obtain ⟨rfl, rfl, rfl⟩ := hsel
      exact ⟨_, hknown, hlo, hlohi, hlt⟩
  · -- any other bound leaf: its signal whole
    dsimp only
    rw [if_pos (by simpa using hk)]
    exact hs.emit ⟨hbound.1, hbound.2, hread, by simp [Rhs.selects], by simp⟩

/-- An operator node over declared operands of its operand trees' widths is lowered to a declared
operand of its tree's width, or fails with the width rules' refusal, naming the node. -/
theorem Orderly.lowerOperator {id : NodeId} {n : Node} {t : Term NodeId} {ops : Array Operand}
    (hs : c.Orderly a lm K) (hu : a.Unfolds id t) (hn : a.node? id = some n) (hreg : n.Regular)
    (hleaf : n.kind.isLeaf = false)
    (hfits : (t.refusal lm).isNone → (∀ v ∈ t.args, v.width lm < 2 ^ 63) → t.width lm < 2 ^ 63)
    (hops : List.Forall₂ (fun u op => Holds op (u.width lm) c) t.args ops.toList) :
    Ends (Compiler.lowerOperator id n ops) c
      (Lands a lm K t (fun e => ∃ e', t.refusal lm = some e' ∧ e = e'.wrap s!"node n{id}") c) := by
  obtain ⟨hdecl, hbounds, hwidths⟩ := hs.holds_forall₂ hops
  have hpos : ∀ u ∈ t.args, 0 < u.width lm := fun u hu => (hbounds u hu).1
  -- the declared operands fit, so the node's width does once the rules size it
  have htop : (t.refusal lm).isNone → t.width lm < 2 ^ 63 :=
    fun hr => hfits hr fun u hu => (hbounds u hu).2
  have hsize : ops.size = n.args.size := by
    have h₁ := hops.length_eq
    have h₂ := (hu.args_forall₂ hn).length_eq
    simp only [Array.length_toList] at h₁ h₂
    omega
  have hmap : ops.map (·.width) = (t.args.map (·.width lm)).toArray :=
    Array.toList_inj.mp (by simpa using hwidths)
  have hsz := operatorWidth_unfolds hu hn hleaf hpos htop
  unfold Compiler.lowerOperator
  rw [hmap]
  rcases hr : t.refusal lm with _ | e
  · -- sized at the width of the tree
    simp only [sizing, hr] at hsz
    have hw : 0 < t.width lm ∧ t.width lm < 2 ^ 63 :=
      ⟨Term.width_pos_of_args (hu.args_ne_nil hn hleaf) hpos, htop (by simp [hr])⟩
    obtain ⟨op, c', hrun, hs', hx, hh⟩ :=
      hs.lowerOperatorAt hreg hleaf hsize (fun op h => hdecl op (by simpa using h)) hw
    refine ⟨.ok op, c', ?_, hs', hx, fun _ h => by cases h; exact hh, fun _ h => by cases h⟩
    rw [run'_bind, run'_tryCatch, run'_lift, hsz]
    exact hrun
  · -- refused, with the state unchanged
    simp only [sizing, hr] at hsz
    refine ⟨.error (e.wrap s!"node n{id}"), c, ?_, hs, .refl c, (fun _ h => by cases h),
      fun _ h => by cases h; exact ⟨e, rfl, rfl⟩⟩
    rw [run'_bind, run'_tryCatch, run'_lift, hsz]
    rfl

/-- Recording a node's operand keeps the state orderly when the operand holds the width of the
node's tree. -/
theorem Orderly.memoise {id : NodeId} {t : Term NodeId} {op : Operand} (hs : c.Orderly a lm K)
    (hu : a.Unfolds id t) (hh : Holds op (t.width lm) c) :
    ({ c with memo := (id, op) :: c.memo } : Compiler).Orderly a lm K where
  arena := hs.arena
  leaves := hs.leaves
  names := hs.names
  wires := hs.wires
  memo x o hmem := by
    rcases List.mem_cons.mp hmem with heq | hmem
    · obtain ⟨rfl, rfl⟩ := Prod.mk.inj heq
      exact ⟨⟨t, hu, hh.1⟩, hh.2⟩
    · exact hs.memo x o hmem
  literals := hs.literals
  literalsDeclared := hs.literalsDeclared

end Compiler

/-- An error that lowering the tree `t` may fail with, naming a node below it: the refusal of an
operator by the width rules, or the error of a leaf whose binding does not size it. -/
def Refuses (a : Arena) (lm : LeafMap) (t : Term NodeId) (e : Error) : Prop :=
  t.RefusedBelow lm e ∨ ∃ x ∈ t.leafTags, ∃ n e', a.node? x = some n ∧ leafWidth n (lm.find? x) = .error e' ∧
      e = e'.wrap s!"node n{x}"

theorem Refuses.of_arg {a : Arena} {lm : LeafMap} {t u : Term NodeId} {e : Error}
    (h : Refuses a lm u e) (hu : u ∈ t.args) : Refuses a lm t e := by
  rcases h with ⟨v, hv, rest⟩ | ⟨x, hx, rest⟩
  · exact .inl ⟨v, Term.subterms_subset_of_mem_args hu hv, rest⟩
  · exact .inr ⟨x, Term.leafTags_subset_of_mem_args hu hx, rest⟩

namespace Compiler

variable {a : Arena} {lm : LeafMap} {K : Known} {c : Compiler}

/-- Operands lowered one after another, each as its tree says, end in an orderly state with each
operand declared at its tree's width, or with the error of one of the trees. -/
theorem Orderly.mapM {f : NodeId → Compiling Operand} {ids : List NodeId} {ts : List (Term NodeId)}
    (hf : List.Forall₂ (fun x u => ∀ c, c.Orderly a lm K →
      Ends (f x) c (Lands a lm K u (Refuses a lm u) c)) ids ts) :
    ∀ {c}, c.Orderly a lm K → Ends (ids.mapM f) c fun r c' => c'.Orderly a lm K ∧ c.Extends c' ∧
      (∀ os, r = .ok os → List.Forall₂ (fun u op => Holds op (u.width lm) c') ts os) ∧
      ∀ e, r = .error e → ∃ u ∈ ts, Refuses a lm u e := by
  induction hf with
  | nil =>
    intro c hs
    exact ends_pure ⟨hs, .refl c, fun _ h => by cases h; exact .nil, (fun _ h => by cases h)⟩
  | @cons x u xs us hx _ ih =>
    intro c hs
    rw [List.mapM_cons]
    refine (hx c hs).bind (fun op c₁ h₁ => ?_) (fun e c₁ h₁ => ?_)
    · -- the first operand lowered, then the rest
      obtain ⟨hs₁, hx₁, hok, -⟩ := h₁
      refine (ih hs₁).bind (fun os c₂ h₂ => ?_) (fun e c₂ h₂ => ?_)
      · obtain ⟨hs₂, hx₂, hok₂, -⟩ := h₂
        exact ends_pure ⟨hs₂, hx₁.trans hx₂,
          fun _ h => by cases h; exact .cons ((hok op rfl).mono hx₂) (hok₂ os rfl), (fun _ h => by cases h)⟩
      · obtain ⟨hs₂, hx₂, -, herr⟩ := h₂
        refine ⟨hs₂, hx₁.trans hx₂, (fun _ h => by cases h), fun _ h => ?_⟩
        cases h
        obtain ⟨u', hu', hr⟩ := herr e rfl
        exact ⟨u', by simp [hu'], hr⟩
    · -- the first operand fails
      obtain ⟨hs₁, hx₁, -, herr⟩ := h₁
      exact ⟨hs₁, hx₁, (fun _ h => by cases h), fun _ h => by cases h; exact ⟨u, by simp, herr e rfl⟩⟩

theorem Orderly.mapM_array {f : NodeId → Compiling Operand} {ids : Array NodeId}
    {ts : List (Term NodeId)}
    (hf : List.Forall₂ (fun x u => ∀ c, c.Orderly a lm K →
      Ends (f x) c (Lands a lm K u (Refuses a lm u) c)) ids.toList ts) (hs : c.Orderly a lm K) :
    Ends (ids.mapM f) c fun r c' => c'.Orderly a lm K ∧ c.Extends c' ∧
      (∀ os, r = .ok os → List.Forall₂ (fun u op => Holds op (u.width lm) c') ts os.toList) ∧
      ∀ e, r = .error e → ∃ u ∈ ts, Refuses a lm u e := by
  rw [Array.mapM_eq_mapM_toList, map_eq_pure_bind]
  refine (Orderly.mapM hf hs).bind (fun os c' h => ?_) (fun e c' h => ?_)
  · obtain ⟨hs', hx, hok, -⟩ := h
    exact ends_pure ⟨hs', hx, fun _ h => by cases h; simpa using hok os rfl, (fun _ h => by cases h)⟩
  · obtain ⟨hs', hx, -, herr⟩ := h
    exact ⟨hs', hx, (fun _ h => by cases h), fun _ h => by cases h; exact herr e rfl⟩

/-- Lowering a node whose computed widths fit in machine words, with fuel for its depth and its
signals known, ends without a defect in an orderly state: with a declared operand of the tree's
width, or with the error of a leaf or an operator below it. -/
theorem Orderly.compileWithin (fuel : Nat) : ∀ {id : NodeId} {t : Term NodeId} {c : Compiler},
    c.Orderly a lm K → a.RegularBelow id → a.Unfolds id t → t.SizesFit lm →
    (∀ x ∈ t.leafTags, ∀ l, lm.find? x = some l → K l.name l.width) → t.depth ≤ fuel →
    Ends (Compiler.compileWithin fuel id) c (Lands a lm K t (Refuses a lm t) c) := by
  induction fuel with
  | zero =>
    intro id t c _ _ _ _ _ hfuel
    have := t.depth_pos
    omega
  | succ fuel ih =>
    intro id t c hs hreg hu hfits hK hfuel
    rw [Compiler.compileWithin]
    refine Ends.get_bind ?_
    dsimp only
    split
    · -- lowered before, as the same tree
      rename_i x op hfind
      have hx : x = id := by simpa using List.find?_some hfind
      subst hx
      obtain ⟨⟨u, hu', hw⟩, hd⟩ := hs.memo x op (List.mem_of_find?_eq_some hfind)
      obtain rfl := hu.unique hu'
      exact ends_pure ⟨hs, .refl c, fun _ h => by cases h; exact ⟨hw, hd⟩, (fun _ h => by cases h)⟩
    obtain ⟨n, hn, hnreg⟩ := hreg id .root
    rw [hs.arena, hn]
    dsimp only
    have htop := hfits t (mem_subterms_self t)
    have hrecord : ∀ op c₁, Lands a lm K t (Refuses a lm t) c (.ok op) c₁ →
        Ends (modify (fun c : Compiler => { c with memo := (id, op) :: c.memo }) >>= fun _ => pure op) c₁
          (Lands a lm K t (Refuses a lm t) c) := by
      rintro op c₁ ⟨hs₁, hx₁, hok, -⟩
      have hh := hok op rfl
      exact ⟨.ok op, _, by simp only [run'_bind, run'_modify, run'_pure], hs₁.memoise hu hh, hx₁,
        fun _ h => by cases h; exact hh, (fun _ h => by cases h)⟩
    split_ifs with hleaf
    · -- a leaf, sized from its binding
      refine Ends.bind ?_ hrecord fun _ _ h => h
      unfold Compiler.compileLeaf
      refine Ends.get_bind ?_
      rw [hs.leaves]
      have hid : id ∈ t.leafTags := hu.mem_leafTags.mpr ⟨.root, n, hn, hleaf⟩
      obtain ⟨hr, hnil⟩ := hu.leaf_unrefused lm hn hleaf
      have hfit : t.width lm < 2 ^ 63 := htop hr (by simp [hnil])
      refine (hs.lowerLeaf hu hn hleaf hfit (hK id hid)).mono fun r c' h => h.weaken (.refl c) ?_
      rintro e ⟨e', he', hwrap⟩
      exact .inr ⟨id, hid, n, e', hn, he', hwrap⟩
    · -- an operator, over its operands lowered first
      have hargs := hu.args_forall₂ hn
      have hf : List.Forall₂ (fun x u => ∀ c, c.Orderly a lm K →
          Ends (Compiler.compileWithin fuel x) c (Lands a lm K u (Refuses a lm u) c))
          n.args.toList t.args := by
        refine List.forall₂_iff_zip.mpr ⟨hargs.length_eq, fun {x u} hp c' hs' => ?_⟩
        obtain ⟨hx, hu'⟩ := List.of_mem_zip hp
        have hdepth := Term.depth_lt_of_mem_args hu'
        exact ih hs' (hreg.arg hn (by simpa using hx)) ((List.forall₂_iff_zip.mp hargs).2 hp)
          (hfits.of_mem_args hu')
          (fun y hy => hK y (Term.leafTags_subset_of_mem_args hu' hy)) (by omega)
      refine (Orderly.mapM_array hf hs).bind (fun ops c₁ h₁ => ?_) (fun e c₁ h₁ => ?_)
      · obtain ⟨hs₁, hx₁, hok, -⟩ := h₁
        refine Ends.bind ?_ hrecord fun _ _ h => h
        refine (hs₁.lowerOperator hu hn hnreg (by simpa using hleaf) htop (hok ops rfl)).mono
          fun r c' h => h.weaken hx₁ ?_
        rintro e ⟨e', hr, hwrap⟩
        exact .inl ⟨t, mem_subterms_self t, e', hr, by rw [hu.tag_eq]; exact hwrap⟩
      · -- an operand fails, and so does the node
        obtain ⟨hs₁, hx₁, -, herr⟩ := h₁
        refine ⟨hs₁, hx₁, (fun _ h => by cases h), fun _ h => ?_⟩
        cases h
        obtain ⟨u, hu', hr⟩ := herr e rfl
        exact hr.of_arg hu'

end Compiler

end Verilog

end BitSynth
