import Mathlib
import BitSynth.Proofs.Lowering
import BitSynth.Proofs.Traversal

namespace BitSynth

namespace Term

/-- The error with which the width rules refuse the top node of a tree, given its operands'
widths. -/
def refusal (lm : LeafMap) : Term NodeId → Option Error
  | binary _ k _ r =>
    if k = .shl ∧ r.width lm > maxShiftAmountWidth then
      some (.semantic s!"left shift by a {r.width lm}-bit amount is too wide (size a literal amount with int(n, w))")
    else none
  | query _ c _ _ =>
    if c.width lm ≠ 1 then some (.semantic s!"select condition has width {c.width lm}, want 1") else none
  | toInt _ x w =>
    if w > 0 then none
    else if x.width lm ≠ 1 then some (.semantic s!"int() of a {x.width lm}-bit value needs an explicit width")
    else none
  | _ => none

/-- The outcome of sizing the top node of a tree from its operands' widths: the refusal, if the
rules refuse it, and the width of the tree otherwise. -/
def sizing (lm : LeafMap) (t : Term NodeId) : Except Error Int :=
  match t.refusal lm with
  | some e => .error e
  | none => .ok (t.width lm)

theorem refusal_cause {lm : LeafMap} {t : Term NodeId} {e : Error} (h : t.refusal lm = some e) :
    e.cause = .semantic := by
  unfold refusal at h
  split at h
  case h_4 => cases h
  all_goals
    split_ifs at h
    cases h
    rfl

/-- The width rules refuse a node below the tree with `e`, which names the node. -/
def RefusedBelow (lm : LeafMap) (t : Term NodeId) (e : Error) : Prop :=
  ∃ u ∈ t.subterms, ∃ e', u.refusal lm = some e' ∧ e = e'.wrap s!"node n{u.tag}"

theorem RefusedBelow.cause {lm : LeafMap} {t : Term NodeId} {e : Error} (h : t.RefusedBelow lm e) :
    e.cause = .semantic := by
  obtain ⟨u, -, e', hr, rfl⟩ := h
  have hcause := refusal_cause hr
  exact hcause

/-- Each node that the width rules size, over operands whose widths fit in a machine word, has a
width that fits in one too: the bound is asked only of the widths the passes compute. -/
def SizesFit (lm : LeafMap) (t : Term NodeId) : Prop :=
  ∀ u ∈ t.subterms, (u.refusal lm).isNone → (∀ v ∈ u.args, v.width lm < 2 ^ 63) → u.width lm < 2 ^ 63

theorem Fits.sizesFit {lm : LeafMap} {t : Term NodeId} (h : t.Fits lm) : t.SizesFit lm :=
  fun u hu _ _ => h u hu

theorem SizesFit.of_mem_args {lm : LeafMap} {t u : Term NodeId} (h : t.SizesFit lm) (hu : u ∈ t.args) :
    u.SizesFit lm :=
  fun v hv => h v (subterms_subset_of_mem_args hu hv)

end Term

open Term

section Operators

open Verilog (except_pure_eq_ok)

variable {n : Node}

theorem operatorWidth_unary {L : Int} (hk : n.kind.isUnary) :
    (operatorWidth n #[L]).run = .ok (.ok L) := by
  simp [operatorWidth, argWidth, hk]

/-- An infix operator on operands of positive widths is refused when it shifts left by an amount
wider than 30 bits, and is otherwise sized at its width in unbounded arithmetic, once that is
below `2^63`. -/
theorem operatorWidth_infix_exact {L R : Int} (hk : n.kind.IsInfix) (hL : 0 < L) (hR : 0 < R)
    (hfits : ¬ (n.kind = .shl ∧ R > maxShiftAmountWidth) → n.kind.infixWidth L R < 2 ^ 63) :
    (operatorWidth n #[L, R]).run =
      .ok (if n.kind = .shl ∧ R > maxShiftAmountWidth then
        .error (.semantic s!"left shift by a {R}-bit amount is too wide (size a literal amount with int(n, w))")
      else .ok (n.kind.infixWidth L R)) := by
  have hpow : (0 : Int) < 2 ^ R.toNat := Int.pow_pos (by decide)
  rcases hk.cases with hk | hk | hk | hk | hk | hk | hk | hk | hk | hk | hk | hk | hk | hk | hk | hk | hk <;>
    simp [operatorWidth, argWidth, hk, Kind.isUnary, Kind.isCompare, Kind.code, Kind.infixWidth] at hfits ⊢
  -- the sums and products are computed in a machine word that the bound keeps exact
  any_goals exact wrapWord_of_lt (by omega) hfits
  -- a left shift, by an amount that is too wide or else positive
  split_ifs with hwide hneg
  · rfl
  · omega
  · rw [wrapWord_of_lt (by omega) (by omega)]
    rfl

theorem operatorWidth_query {C T F : Int} (hk : n.kind = .query) :
    (operatorWidth n #[C, T, F]).run =
      .ok (if C ≠ 1 then .error (.semantic s!"select condition has width {C}, want 1") else .ok (max T F)) := by
  simp only [operatorWidth, argWidth, hk, Kind.isUnary, Kind.isCompare, Kind.code]
  by_cases hC : C = 1 <;> simp [hC]

theorem operatorWidth_concat {ws : List Int} (hk : n.kind = .concat) (hpos : ∀ w ∈ ws, 0 < w)
    (hfits : ws.sum < 2 ^ 63) : (operatorWidth n ws.toArray).run = .ok (.ok ws.sum) := by
  have hsum : 0 ≤ ws.sum := List.sum_nonneg fun w hw => le_of_lt (hpos w hw)
  have hfold : ws.foldl (· + ·) 0 = ws.sum := by
    rw [List.sum_eq_foldl]
  simp [operatorWidth, hk, Kind.isUnary, Kind.isCompare, Kind.code, hfold,
    wrapWord_of_lt (by omega) hfits]

theorem operatorWidth_toBool {X : Int} (hk : n.kind = .toBool) :
    (operatorWidth n #[X]).run = .ok (.ok 1) := by
  simp [operatorWidth, hk, Kind.isUnary, Kind.isCompare, Kind.code]

theorem operatorWidth_toInt {X : Int} (hk : n.kind = .toInt) :
    (operatorWidth n #[X]).run =
      .ok (if n.width > 0 then .ok n.width
        else if X ≠ 1 then .error (.semantic s!"int() of a {X}-bit value needs an explicit width") else .ok 1) := by
  simp only [operatorWidth, argWidth, hk, Kind.isUnary, Kind.isCompare, Kind.code]
  by_cases hw : n.width > 0 <;> by_cases hX : X = 1 <;> simp [hw, hX]

theorem widthSum_eq_sum (lm : LeafMap) (ts : List (Term NodeId)) :
    widthSum lm ts = (ts.map (·.width lm)).sum := by
  induction ts with
  | nil => rfl
  | cons t ts ih => simp [widthSum, ih]

variable {a : Arena} {lm : LeafMap} {id : NodeId} {n : Node} {t : Term NodeId}

/-- An operator node below a root is sized from the widths of its operands' trees as its own tree
says, when those are positive and its own is below `2^63` once the rules size it. -/
theorem operatorWidth_unfolds (hu : a.Unfolds id t) (hn : a.node? id = some n)
    (hleaf : n.kind.isLeaf = false) (hpos : ∀ u ∈ t.args, 0 < u.width lm)
    (hfits : (t.refusal lm).isNone → t.width lm < 2 ^ 63) :
    (operatorWidth n (t.args.map (·.width lm)).toArray).run = .ok (t.sizing lm) := by
  cases hu with
  | var hn' hk | int hn' hk | bitField hn' hk =>
    rw [hn, Option.some.injEq] at hn'
    subst hn'
    simp [hk, Kind.isLeaf] at hleaf
  | @bool _ _ b hn' hk =>
    rw [hn, Option.some.injEq] at hn'
    subst hn'
    cases b <;> simp [hk, Kind.isLeaf] at hleaf
  | @unary _ _ n' tx hn' hk =>
    rw [hn, Option.some.injEq] at hn'
    subst hn'
    simp [operatorWidth_unary hk, Term.args, sizing, refusal, Term.width]
  | @binary _ _ _ n' tl tr hn' hk =>
    rw [hn, Option.some.injEq] at hn'
    subst hn'
    have hl : 0 < tl.width lm := hpos tl (by simp [Term.args])
    have hr : 0 < tr.width lm := hpos tr (by simp [Term.args])
    -- the width is asked to fit only where the shift guard lets the node through
    have hsized : ¬ (n.kind = .shl ∧ tr.width lm > maxShiftAmountWidth) →
        n.kind.infixWidth (tl.width lm) (tr.width lm) < 2 ^ 63 := fun hnarrow => by
      simpa [Term.width] using hfits (by simp [refusal, hnarrow])
    simp only [Term.args, List.map_cons, List.map_nil]
    rw [operatorWidth_infix_exact hk hl hr hsized]
    simp only [sizing, refusal, Term.width]
    split_ifs <;> rfl
  | @query _ _ _ _ n' tc tt te hn' hk =>
    rw [hn, Option.some.injEq] at hn'
    subst hn'
    simp only [Term.args, List.map_cons, List.map_nil]
    rw [operatorWidth_query hk]
    simp only [sizing, refusal, Term.width]
    split_ifs <;> rfl
  | @concat _ n' ts hn' hk =>
    rw [hn, Option.some.injEq] at hn'
    subst hn'
    have hsum : (ts.map (·.width lm)).sum < 2 ^ 63 := by
      simpa [Term.width, widthSum_eq_sum] using hfits rfl
    rw [show (Term.concat id ts).args = ts from rfl,
      operatorWidth_concat hk (by simpa [Term.args] using hpos) hsum]
    simp [sizing, refusal, Term.width, widthSum_eq_sum]
  | @toBool _ _ n' tx hn' hk =>
    rw [hn, Option.some.injEq] at hn'
    subst hn'
    simp [operatorWidth_toBool hk, Term.args, sizing, refusal, Term.width]
  | @toInt _ _ n' tx hn' hk =>
    rw [hn, Option.some.injEq] at hn'
    subst hn'
    simp only [Term.args, List.map_cons, List.map_nil]
    rw [operatorWidth_toInt hk]
    simp only [sizing, refusal, Term.width]
    split_ifs <;> rfl

end Operators

section Leaves

variable {a : Arena} {lm : LeafMap} {id : NodeId} {n : Node} {t : Term NodeId} {w hi : Int}

/-- A leaf below a root that its binding sizes is sized at the positive width of its tree, when
that is below `2^63`. -/
theorem leafWidth_unfolds (hu : a.Unfolds id t) (hn : a.node? id = some n)
    (hleaf : n.kind.isLeaf) (h : leafWidth n (lm.find? id) = .ok (w, hi)) (hfits : t.width lm < 2 ^ 63) :
    w = t.width lm ∧ 0 < w := by
  cases hu with
  | var hn' hk =>
    rw [hn, Option.some.injEq] at hn'
    subst hn'
    rcases hl : lm.find? id with _ | l
    · simp [leafWidth, hk, hl] at h
    · have hpos : ¬ l.width ≤ 0 := fun hle => by simp [leafWidth, hk, hl, hle] at h
      simp only [leafWidth, hk, hl, hpos, if_false, Except.ok.injEq, Prod.mk.injEq] at h
      simp only [Term.width, hl, Option.map_some, Option.getD_some]
      omega
  | int hn' hk =>
    rw [hn, Option.some.injEq] at hn'
    subst hn'
    rcases hl : lm.find? id with _ | l
    · simp only [leafWidth, hk, hl, Except.ok.injEq, Prod.mk.injEq] at h
      simp [Term.width, hl, ← h.1, literalWidth]
    · have hpos : ¬ l.width ≤ 0 := fun hle => by simp [leafWidth, hk, hl, hle] at h
      simp only [leafWidth, hk, hl, hpos, if_false, Except.ok.injEq, Prod.mk.injEq] at h
      simp only [Term.width, hl, Option.map_some, Option.getD_some]
      omega
  | @bool _ _ b hn' hk =>
    rw [hn, Option.some.injEq] at hn'
    subst hn'
    rcases hl : lm.find? id with _ | l
    · cases b <;> simp only [leafWidth, hk, hl, if_true, Bool.false_eq_true, if_false,
        Except.ok.injEq, Prod.mk.injEq] at h <;> simp [Term.width, hl, ← h.1]
    · have hpos : ¬ l.width ≤ 0 := fun hle => by cases b <;> simp [leafWidth, hk, hl, hle] at h
      cases b <;> simp only [leafWidth, hk, hl, hpos, if_true, Bool.false_eq_true, if_false,
        Except.ok.injEq, Prod.mk.injEq] at h <;> simp only [Term.width, hl, Option.map_some,
        Option.getD_some] <;> omega
  | bitField hn' hk =>
    rw [hn, Option.some.injEq] at hn'
    subst hn'
    rcases hl : lm.find? id with _ | l
    · simp [leafWidth, hk, hl] at h
    rcases hclamp : clampSlice n.hi n.lo l.width with e | hi'
    · simp [leafWidth, hk, hl, hclamp] at h
    obtain ⟨-, hhi, hlo, hlohi⟩ := Verilog.Compiler.clampSlice_ok hclamp
    simp only [leafWidth, hk, hl, hclamp, Except.ok.injEq, Prod.mk.injEq] at h
    have hwidth : (Term.bitField id n.name n.hi n.lo).width lm = hi' - n.lo + 1 := by
      simp only [Term.width, hl, hhi]
    rw [hwidth] at hfits ⊢
    rw [← h.1, wrapWord_of_lt (by omega) hfits]
    omega
  | unary hn' hk =>
    rw [hn, Option.some.injEq] at hn'
    subst hn'
    simp [Kind.isLeaf_of_isUnary hk] at hleaf
  | binary hn' hk =>
    rw [hn, Option.some.injEq] at hn'
    subst hn'
    simp [hk.isLeaf] at hleaf
  | query hn' hk | concat hn' hk | toBool hn' hk | toInt hn' hk =>
    rw [hn, Option.some.injEq] at hn'
    subst hn'
    simp [hk, Kind.isLeaf] at hleaf

end Leaves

end BitSynth
