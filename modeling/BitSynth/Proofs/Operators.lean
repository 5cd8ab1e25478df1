import BitSynth.Proofs.Lowering

namespace BitSynth.Verilog

open Term

theorem lt_two_pow_of_le {x m n : Nat} (h : x < 2 ^ m) (hmn : m ≤ n) : x < 2 ^ n :=
  h.trans_le (Nat.pow_le_pow_right Nat.two_pos hmn)

theorem add_sub_two_pow_mod {a b w : Nat} (hb : b ≤ 2 ^ w) :
    (a + (2 ^ w - b)) % 2 ^ w = ((a - b : Int) % 2 ^ w).toNat := by
  have hcast : ((a + (2 ^ w - b) : Nat) : Int) = (a - b : Int) + 2 ^ w := by
    push_cast [Nat.cast_sub hb]
    ring
  rw [← Int.toNat_natCast ((a + (2 ^ w - b)) % 2 ^ w), Int.natCast_mod, hcast]
  push_cast
  rw [← Int.emod_eq_add_self_emod]

namespace Compiler

variable {a : Arena} {lm : LeafMap} {p : String} {c c' : Compiler} {id : NodeId} {n : Node}
  {op : Operand}

theorem runs_lowerOperator {args : Array Operand} (h : Runs (lowerOperator id n args) c op c') :
    ∃ w, ExceptT.run (operatorWidth n (args.map (·.width))) = .ok (.ok w) ∧
      Runs (lowerOperatorAt id n args w) c op c' := by
  obtain ⟨w, _, hw, hm⟩ := runs_bind.mp h
  rw [runs_tryCatch_throw, runs_lift] at hw
  obtain ⟨hw, rfl⟩ := hw
  exact ⟨w, hw, hm⟩

theorem Sound.lowerUnary {x : Operand} {tx : Term NodeId} (hs : c.Sound a lm p)
    (hk : n.kind.isUnary) (hl : Lowerable lm p (.unary id n.kind tx))
    (hx : Computes c.wires.toList lm tx x) (h : Runs (lowerOperator id n #[x]) c op c') :
    Lowered a lm p (.unary id n.kind tx) c c' op := by
  obtain ⟨w, hw, hm⟩ := runs_lowerOperator h
  simp [operatorWidth, argWidth, hk] at hw
  subst hw
  simp [lowerOperatorAt, hk, runs_bind, runs_operandAt] at hm
  set t : Term NodeId := .unary id n.kind tx
  have hwidth : t.width lm = x.width := by simp [t, Term.width, hx.width]
  obtain ⟨hs', hxt, hc⟩ := hs.emit hm (hx.width ▸ hx.pos) (hwidth ▸ hl.fits t (mem_subterms_self t))
  refine ⟨hs', hxt, ?_⟩
  rw [Computes, hwidth]
  refine (hc.weaken fun _ _ => trivial).congr fun e he => ?_
  have hx' := he.arg (u := tx) (by simp [t, args])
  have hlt := hx.lt hx'
  simp only [Rhs.eval, hx.value e hx', hx.width, max_self, t, Term.eval]
  have hpow := Nat.two_pow_pos (tx.width lm).toNat
  rcases Kind.unary_cases hk with hk' | hk' | hk' <;> simp only [hk', Kind.unaryValue]
  · simpa using Nat.mod_eq_of_lt (by omega)
  · simpa using Nat.mod_eq_of_lt (by omega)
  · -- negation: the complement plus one, in the operand's width
    simpa using add_sub_two_pow_mod (a := 0) hlt.le

theorem Sound.emitOperation {l r : Operand} {k : Kind} {w L R : Int} {E : Env → Prop}
    {f g : Env → Nat} (hs : c.Sound a lm p) (h : Runs (Compiler.emit w (operation l k r)) c op c')
    (hw : 0 < w) (hw' : w < 2 ^ 63) (hl : Carries c.wires.toList E l L f)
    (hr : Carries c.wires.toList E r R g) :
    c'.Sound a lm p ∧ c.Extends c' ∧ Carries c'.wires.toList E op w
      (fun e => binopValue w.toNat ⟨f e, L.toNat⟩ k.symbol ⟨g e, R.toNat⟩ % 2 ^ w.toNat) := by
  obtain ⟨hs', hx, hc⟩ := hs.emit h hw hw'
  refine ⟨hs', hx, (hc.weaken fun _ _ => trivial).congr fun e he => ?_⟩
  simp only [operation, Rhs.eval, hl.value e he, hr.value e he]

section Binary

variable {l r : Operand} {k : Kind} {tl tr : Term NodeId}

theorem lowerOperatorAt_direct {w : Int}
    (hk : n.kind ∈ [.and, .or, .xor, .shr, .lt, .gt, .le, .ge, .eq, .ne]) :
    lowerOperatorAt id n #[l, r] w = Compiler.emit w (operation l n.kind r) := by
  simp only [List.mem_cons, List.not_mem_nil, or_false] at hk
  rcases hk with hk | hk | hk | hk | hk | hk | hk | hk | hk | hk <;>
    simp [lowerOperatorAt, hk, operandAt, Kind.isUnary, Kind.isCompare, Kind.code]

theorem Sound.lowerDirect (hs : c.Sound a lm p)
    (hk : k ∈ [.and, .or, .xor, .shr, .lt, .gt, .le, .ge, .eq, .ne])
    (hl : Lowerable lm p (.binary id k tl tr)) (hx : Computes c.wires.toList lm tl l)
    (hy : Computes c.wires.toList lm tr r)
    (h : Runs (Compiler.emit ((Term.binary id k tl tr).width lm) (operation l k r)) c op c') :
    Lowered a lm p (.binary id k tl tr) c c' op := by
  set t : Term NodeId := .binary id k tl tr
  have hpos : 0 < t.width lm := k.infixWidth_pos hx.pos hy.pos
  have hl' : tl ∈ t.args := by simp [t, args]
  have hr' : tr ∈ t.args := by simp [t, args]
  obtain ⟨hs', hxt, hc⟩ := hs.emitOperation h hpos (hl.fits t (mem_subterms_self t))
    (hx.weaken fun e (he : Admits lm t e) => he.arg hl')
    (hy.weaken fun e (he : Admits lm t e) => he.arg hr')
  refine ⟨hs', hxt, hc.congr fun e he => ?_⟩
  have ha := hx.lt (he.arg hl')
  have hb := hy.lt (he.arg hr')
  simp only [List.mem_cons, List.not_mem_nil, or_false] at hk
  -- the bitwise operators and `>>` stay below the wider operand; a comparison is one bit
  rcases hk with rfl | rfl | rfl | rfl | rfl | rfl | rfl | rfl | rfl | rfl <;>
    simp [binopValue, Kind.symbol, t, Term.eval, Term.width, Kind.infixValue, Kind.infixWidth,
      Bool.toNat_le]
  · exact Nat.mod_eq_of_lt (lt_two_pow_of_le (Nat.and_le_left.trans_lt ha) (by omega))
  · exact Nat.mod_eq_of_lt
      (Nat.or_lt_two_pow (lt_two_pow_of_le ha (by omega)) (lt_two_pow_of_le hb (by omega)))
  · exact Nat.mod_eq_of_lt
      (Nat.xor_lt_two_pow (lt_two_pow_of_le ha (by omega)) (lt_two_pow_of_le hb (by omega)))
  · exact Nat.mod_eq_of_lt ((Nat.div_le_self _ _).trans_lt ha)

theorem lowerOperatorAt_padded {w : Int} (hk : n.kind ∈ [.add, .sub, .mul]) :
    lowerOperatorAt id n #[l, r] w = (do
      let l' ← resize l w
      let r' ← resize r w
      Compiler.emit w (operation l' n.kind r')) := by
  simp only [List.mem_cons, List.not_mem_nil, or_false] at hk
  rcases hk with hk | hk | hk <;>
    simp [lowerOperatorAt, hk, operandAt, Kind.isUnary, Kind.isCompare, Kind.code]

theorem Sound.lowerPadded (hs : c.Sound a lm p) (hk : k ∈ [.add, .sub, .mul])
    (hl : Lowerable lm p (.binary id k tl tr)) (hx : Computes c.wires.toList lm tl l)
    (hy : Computes c.wires.toList lm tr r)
    (h : Runs (do
      let l' ← Compiler.resize l ((Term.binary id k tl tr).width lm)
      let r' ← Compiler.resize r ((Term.binary id k tl tr).width lm)
      Compiler.emit ((Term.binary id k tl tr).width lm) (operation l' k r')) c op c') :
    Lowered a lm p (.binary id k tl tr) c c' op := by
  set t : Term NodeId := .binary id k tl tr
  have hpos : 0 < t.width lm := k.infixWidth_pos hx.pos hy.pos
  have hfits := hl.fits t (mem_subterms_self t)
  have hl' : tl ∈ t.args := by simp [t, args]
  have hr' : tr ∈ t.args := by simp [t, args]
  -- both operands are zero-extended to the result width, then combined
  obtain ⟨l', c₁, h₁, h'⟩ := runs_bind.mp h
  obtain ⟨r', c₂, h₂, h₃⟩ := runs_bind.mp h'
  obtain ⟨hs₁, hx₁, hc₁⟩ := hs.resize h₁ (hx.weaken fun e (he : Admits lm t e) => he.arg hl') hpos hfits
  obtain ⟨hs₂, hx₂, hc₂⟩ := hs₁.resize h₂
    (hx₁.carries hs₁.nodup (hy.weaken fun e (he : Admits lm t e) => he.arg hr')) hpos hfits
  obtain ⟨hs₃, hx₃, hc⟩ := hs₂.emitOperation h₃ hpos hfits (hx₂.carries hs₂.nodup hc₁) hc₂
  refine ⟨hs₃, hx₁.trans (hx₂.trans hx₃), hc.congr fun e he => ?_⟩
  have hwide : (tl.width lm).toNat ≤ (t.width lm).toNat ∧ (tr.width lm).toNat ≤ (t.width lm).toNat := by
    have := hx.pos
    have := hy.pos
    simp only [List.mem_cons, List.not_mem_nil, or_false] at hk
    rcases hk with rfl | rfl | rfl <;> simp only [t, Term.width, Kind.infixWidth] <;> omega
  have ha := lt_two_pow_of_le (hx.lt (he.arg hl')) hwide.1
  have hb := lt_two_pow_of_le (hy.lt (he.arg hr')) hwide.2
  rw [Nat.mod_eq_of_lt ha, Nat.mod_eq_of_lt hb]
  simp only [List.mem_cons, List.not_mem_nil, or_false] at hk
  rcases hk with rfl | rfl | rfl <;> simp [binopValue, Kind.symbol, t, Term.eval, Kind.infixValue]
  exact add_sub_two_pow_mod hb.le

theorem lowerOperatorAt_shl {w : Int} (hk : n.kind = .shl) :
    lowerOperatorAt id n #[l, r] w = (do
      let l' ← resize l w
      Compiler.emit w (operation l' .shl r)) := by
  simp [lowerOperatorAt, hk, operandAt, Kind.isUnary, Kind.isCompare, Kind.code]

theorem Sound.lowerShl (hs : c.Sound a lm p) (hk : k = .shl)
    (hl : Lowerable lm p (.binary id k tl tr))
    (hx : Computes c.wires.toList lm tl l) (hy : Computes c.wires.toList lm tr r)
    (h : Runs (do
      let l' ← Compiler.resize l ((Term.binary id k tl tr).width lm)
      Compiler.emit ((Term.binary id k tl tr).width lm) (operation l' .shl r)) c op c') :
    Lowered a lm p (.binary id k tl tr) c c' op := by
  subst hk
  set t : Term NodeId := .binary id .shl tl tr
  have hpos : 0 < t.width lm := Kind.shl.infixWidth_pos hx.pos hy.pos
  have hfits := hl.fits t (mem_subterms_self t)
  have hl' : tl ∈ t.args := by simp [t, args]
  have hr' : tr ∈ t.args := by simp [t, args]
  -- the shifted operand is zero-extended to the result width, the amount is read as it is
  obtain ⟨l', c₁, h₁, h₂⟩ := runs_bind.mp h
  obtain ⟨hs₁, hx₁, hc₁⟩ := hs.resize h₁ (hx.weaken fun e (he : Admits lm t e) => he.arg hl') hpos hfits
  obtain ⟨hs₂, hx₂, hc⟩ := hs₁.emitOperation h₂ hpos hfits hc₁
    (hx₁.carries hs₁.nodup (hy.weaken fun e (he : Admits lm t e) => he.arg hr'))
  refine ⟨hs₂, hx₁.trans hx₂, hc.congr fun e he => ?_⟩
  have hwide : (tl.width lm).toNat ≤ (t.width lm).toNat := by
    have := hx.pos
    have : (0 : Int) < 2 ^ (tr.width lm).toNat := Int.pow_pos (by decide)
    simp only [t, Term.width, Kind.infixWidth]
    omega
  rw [Nat.mod_eq_of_lt (lt_two_pow_of_le (hx.lt (he.arg hl')) hwide)]
  simp [binopValue, Kind.symbol, t, Term.eval, Kind.infixValue]

theorem lowerOperatorAt_divMod {w : Int} (hk : n.kind = .div ∨ n.kind = .mod) :
    lowerOperatorAt id n #[l, r] w = (do
      let full ← Compiler.emit (max l.width r.width) (operation l n.kind r)
      resize full w) := by
  rcases hk with hk | hk <;> simp [lowerOperatorAt, hk, operandAt, Kind.isUnary, Kind.isCompare, Kind.code]

theorem Sound.lowerDivMod (hs : c.Sound a lm p) (hk : k = .div ∨ k = .mod)
    (hl : Lowerable lm p (.binary id k tl tr)) (hx : Computes c.wires.toList lm tl l)
    (hy : Computes c.wires.toList lm tr r)
    (h : Runs (do
      let full ← Compiler.emit (max l.width r.width) (operation l k r)
      Compiler.resize full ((Term.binary id k tl tr).width lm)) c op c') :
    Lowered a lm p (.binary id k tl tr) c c' op := by
  set t : Term NodeId := .binary id k tl tr
  have hpos : 0 < t.width lm := k.infixWidth_pos hx.pos hy.pos
  have hfits := hl.fits t (mem_subterms_self t)
  have hl' : tl ∈ t.args := by simp [t, args]
  have hr' : tr ∈ t.args := by simp [t, args]
  have hmax : max (tl.width lm) (tr.width lm) < 2 ^ 63 :=
    max_lt (hl.fits tl (subterms_subset_of_mem_args hl' (mem_subterms_self tl)))
      (hl.fits tr (subterms_subset_of_mem_args hr' (mem_subterms_self tr)))
  -- the quotient or remainder is taken at the wider operand width, then cut to the result width
  obtain ⟨full, c₁, h₁, h₂⟩ := runs_bind.mp h
  rw [hx.width, hy.width] at h₁
  obtain ⟨hs₁, hx₁, hc₁⟩ := hs.emitOperation h₁ (lt_max_of_lt_left hx.pos) hmax
    (hx.weaken fun e (he : Admits lm t e) => he.arg hl')
    (hy.weaken fun e (he : Admits lm t e) => he.arg hr')
  obtain ⟨hs₂, hx₂, hc⟩ := hs₁.resize h₂ hc₁ hpos hfits
  refine ⟨hs₂, hx₁.trans hx₂, hc.congr fun e he => ?_⟩
  have ha := hx.lt (he.arg hl')
  have hb := hy.lt (he.arg hr')
  have hnz : tr.eval lm (values e) ≠ 0 := he.2 t (mem_subterms_self t) tr (by
    rcases hk with rfl | rfl <;> simp [t, divisor?])
  rcases hk with rfl | rfl <;>
    simp [binopValue, Kind.symbol, t, Term.eval, Term.width, Kind.infixValue, Kind.infixWidth]
  · have hq := (Nat.div_le_self _ (tr.eval lm (values e))).trans_lt ha
    have hq' : _ < 2 ^ (max (tl.width lm) (tr.width lm)).toNat := lt_two_pow_of_le hq (by omega)
    rw [Nat.mod_eq_of_lt hq', Nat.mod_eq_of_lt hq]
  · have hq := (Nat.mod_lt (tl.eval lm (values e)) (Nat.pos_of_ne_zero hnz)).trans hb
    have hq' : _ < 2 ^ (max (tl.width lm) (tr.width lm)).toNat := lt_two_pow_of_le hq (by omega)
    rw [Nat.mod_eq_of_lt hq', Nat.mod_eq_of_lt hq]

theorem operatorWidth_infix {L R w : Int} (hk : n.kind.IsInfix) (hL : 0 < L) (hR : 0 < R)
    (hfits : n.kind.infixWidth L R < 2 ^ 63)
    (h : ExceptT.run (operatorWidth n #[L, R]) = .ok (.ok w)) : w = n.kind.infixWidth L R := by
  rcases hk.cases with hk | hk | hk | hk | hk | hk | hk | hk | hk | hk | hk | hk | hk | hk | hk | hk | hk <;>
    simp [operatorWidth, argWidth, hk, Kind.isUnary, Kind.isCompare, Kind.code, Kind.infixWidth] at h hfits ⊢
  -- the width is read off an operand, or computed in a machine word that the bound keeps exact
  any_goals first
    | omega
    | rw [← h, wrapWord_of_lt (by omega) hfits]
  -- a left shift, by an amount that is neither too wide nor negative
  have hpow : (0 : Int) < 2 ^ R.toNat := Int.pow_pos (by decide)
  split_ifs at h <;> simp [Guarded.fault, ExceptT.run_throw] at h
  rw [← h, wrapWord_of_lt (by omega) (by omega)]

theorem Sound.lowerBinary (hs : c.Sound a lm p) (hk : n.kind.IsInfix)
    (hl : Lowerable lm p (.binary id n.kind tl tr)) (hx : Computes c.wires.toList lm tl l)
    (hy : Computes c.wires.toList lm tr r) (h : Runs (lowerOperator id n #[l, r]) c op c') :
    Lowered a lm p (.binary id n.kind tl tr) c c' op := by
  obtain ⟨w, hw, hm⟩ := runs_lowerOperator h
  have hfits := hl.fits _ (mem_subterms_self _)
  simp only [List.map_toArray, List.map_cons, List.map_nil, hx.width, hy.width] at hw
  have hw' : w = (Term.binary id n.kind tl tr).width lm := by
    simpa [Term.width] using operatorWidth_infix hk hx.pos hy.pos (by simpa [Term.width] using hfits) hw
  subst hw'
  have hasr : n.kind ≠ .asr := hl.noAsr _ (mem_subterms_self _)
  -- the kinds fall in four groups by the wires they lower to
  have hgroup : n.kind ∈ [.and, .or, .xor, .shr, .lt, .gt, .le, .ge, .eq, .ne] ∨
      n.kind ∈ [.add, .sub, .mul] ∨ n.kind = .shl ∨ (n.kind = .div ∨ n.kind = .mod) := by
    rcases hk.cases with hk | hk | hk | hk | hk | hk | hk | hk | hk | hk | hk | hk | hk | hk | hk | hk |
      hk <;> simp [hk] at hasr ⊢
  rcases hgroup with hg | hg | hg | hg
  · rw [lowerOperatorAt_direct hg] at hm
    exact hs.lowerDirect hg hl hx hy hm
  · rw [lowerOperatorAt_padded hg] at hm
    exact hs.lowerPadded hg hl hx hy hm
  · rw [lowerOperatorAt_shl hg] at hm
    exact hs.lowerShl hg hl hx hy hm
  · rw [lowerOperatorAt_divMod hg] at hm
    exact hs.lowerDivMod hg hl hx hy hm

end Binary

theorem Sound.lowerQuery {x y z : Operand} {tc tt te : Term NodeId} (hs : c.Sound a lm p)
    (hk : n.kind = .query) (hl : Lowerable lm p (.query id tc tt te))
    (hx : Computes c.wires.toList lm tc x) (hy : Computes c.wires.toList lm tt y)
    (hz : Computes c.wires.toList lm te z) (h : Runs (lowerOperator id n #[x, y, z]) c op c') :
    Lowered a lm p (.query id tc tt te) c c' op := by
  obtain ⟨w, hw, hm⟩ := runs_lowerOperator h
  set t : Term NodeId := .query id tc tt te
  have hwidth : w = t.width lm := by
    simp [operatorWidth, argWidth, hk, Kind.isUnary, Kind.isCompare, Kind.code] at hw
    split_ifs at hw <;> simp [ExceptT.run_throw] at hw
    simp [← hw, t, Term.width, hy.width, hz.width]
  subst hwidth
  simp [lowerOperatorAt, hk, runs_bind, runs_operandAt, Kind.isUnary, Kind.isCompare, Kind.code] at hm
  obtain ⟨hs', hxt, hc⟩ := hs.emit hm (lt_max_of_lt_left hy.pos) (hl.fits t (mem_subterms_self t))
  refine ⟨hs', hxt, (hc.weaken fun _ _ => trivial).congr fun e he => ?_⟩
  have hc' : tc ∈ t.args := by simp [t, args]
  have ht' : tt ∈ t.args := by simp [t, args]
  have he' : te ∈ t.args := by simp [t, args]
  have hyt := lt_two_pow_of_le (hy.lt (he.arg ht')) (show _ ≤ (t.width lm).toNat by
    simp only [t, Term.width]; omega)
  have hze := lt_two_pow_of_le (hz.lt (he.arg he')) (show _ ≤ (t.width lm).toNat by
    simp only [t, Term.width]; omega)
  simp only [Rhs.eval, hx.value e (he.arg hc'), hy.value e (he.arg ht'), hz.value e (he.arg he')]
  split_ifs with hcond
  · simp [t, Term.eval, hcond, Nat.mod_eq_of_lt hyt]
  · simp [t, Term.eval, hcond, Nat.mod_eq_of_lt hze]

theorem Sound.lowerToBool {x : Operand} {tx : Term NodeId} (hs : c.Sound a lm p)
    (hk : n.kind = .toBool) (hx : Computes c.wires.toList lm tx x) (h : Runs (lowerOperator id n #[x]) c op c') :
    Lowered a lm p (.toBool id tx) c c' op := by
  obtain ⟨w, hw, hm⟩ := runs_lowerOperator h
  simp [operatorWidth, hk, Kind.isUnary, Kind.isCompare, Kind.code] at hw
  subst hw
  simp [lowerOperatorAt, hk, runs_bind, runs_operandAt, Kind.isUnary, Kind.isCompare, Kind.code] at hm
  obtain ⟨hs', hxt, hc⟩ := hs.emit hm (by decide) (by decide)
  refine ⟨hs', hxt, ?_⟩
  rw [Computes, show (Term.toBool id tx).width lm = 1 by simp [Term.width]]
  refine (hc.weaken fun _ _ => trivial).congr fun e he => ?_
  simp only [Rhs.eval, hx.value e (he.arg (by simp [args]))]
  split_ifs with hx0 <;> simp [Term.eval, hx0]

theorem Sound.lowerToInt {x : Operand} {tx : Term NodeId} (hs : c.Sound a lm p)
    (hk : n.kind = .toInt) (hl : Lowerable lm p (.toInt id tx n.width))
    (hx : Computes c.wires.toList lm tx x) (h : Runs (lowerOperator id n #[x]) c op c') :
    Lowered a lm p (.toInt id tx n.width) c c' op := by
  obtain ⟨w, hw, hm⟩ := runs_lowerOperator h
  set t : Term NodeId := .toInt id tx n.width
  have hwidth : w = t.width lm := by
    simp [operatorWidth, argWidth, hk, Kind.isUnary, Kind.isCompare, Kind.code] at hw
    split_ifs at hw with hpos hone <;> simp [ExceptT.run_throw] at hw <;>
      simp [← hw, t, Term.width, hpos]
  subst hwidth
  simp [lowerOperatorAt, hk, runs_bind, runs_operandAt, Kind.isUnary, Kind.isCompare, Kind.code] at hm
  have hpos : 0 < t.width lm := by
    simp only [t, Term.width]
    split_ifs <;> omega
  obtain ⟨hs', hxt, hc⟩ := hs.resize hm (hx.weaken fun e (he : Admits lm t e) => he.arg (by simp [t, args]))
    hpos (hl.fits t (mem_subterms_self t))
  exact ⟨hs', hxt, hc.congr fun e _ => by simp [t, Term.eval]⟩

section Concat

variable {ws : List Wire} {ops : List Operand} {ts : List (Term NodeId)}

theorem Computes.width_pos (h : List.Forall₂ (Computes ws lm) ts ops) : ∀ t ∈ ts, 0 < t.width lm := by
  induction h with
  | nil => simp
  | cons hop _ ih =>
    simp only [List.mem_cons, forall_eq_or_imp]
    exact ⟨hop.pos, ih⟩

theorem Computes.bounds (h : List.Forall₂ (Computes ws lm) ts ops) {e : Env}
    (he : ∀ t ∈ ts, Admits lm t e) :
    ∀ t ∈ ts, 0 < t.width lm ∧ t.eval lm (values e) < 2 ^ (t.width lm).toNat := by
  induction h with
  | nil => simp
  | cons hop _ ih =>
    simp only [List.mem_cons, forall_eq_or_imp] at he ⊢
    exact ⟨⟨hop.pos, hop.lt he.1⟩, ih he.2⟩

theorem Computes.width_foldl (h : List.Forall₂ (Computes ws lm) ts ops) (acc : Int) :
    (ops.map (·.width)).foldl (· + ·) acc = acc + widthSum lm ts := by
  induction h generalizing acc with
  | nil => simp [widthSum]
  | cons hop _ ih =>
    rw [List.map_cons, List.foldl_cons, ih, hop.width, widthSum]
    omega

/-- The operand wires of a concatenation, folded most significant first, give the concatenated
meaning of the operands. -/
theorem Computes.cat_foldl (h : List.Forall₂ (Computes ws lm) ts ops) {e : Env}
    (he : ∀ t ∈ ts, Admits lm t e) (acc : Nat) :
    (ops.map (·.name)).foldl (fun acc s => acc * 2 ^ (run ws e s).width + (run ws e s).value) acc =
      acc * 2 ^ (widthSum lm ts).toNat + evalCat lm (values e) ts := by
  induction h generalizing acc with
  | nil => simp [widthSum, evalCat]
  | @cons t op ts ops hop hrest ih =>
    simp only [List.mem_cons, forall_eq_or_imp] at he
    have hS := widthSum_nonneg (Computes.width_pos hrest)
    rw [List.map_cons, List.foldl_cons, hop.value e he.1, ih he.2, widthSum, evalCat,
      Int.toNat_add (Int.le_of_lt hop.pos) hS, pow_add]
    simp only
    ring

theorem Sound.lowerConcat {args : Array Operand} (hs : c.Sound a lm p) (hk : n.kind = .concat)
    (hne : ts ≠ []) (hl : Lowerable lm p (.concat id ts))
    (hargs : List.Forall₂ (Computes c.wires.toList lm) ts args.toList)
    (h : Runs (lowerOperator id n args) c op c') : Lowered a lm p (.concat id ts) c c' op := by
  obtain ⟨w, hw, hm⟩ := runs_lowerOperator h
  set t : Term NodeId := .concat id ts
  have hpos : 0 < t.width lm := widthSum_pos hne (Computes.width_pos hargs)
  have hfits := hl.fits t (mem_subterms_self t)
  have hwidth : w = t.width lm := by
    simp [operatorWidth, hk, Kind.isUnary, Kind.isCompare, Kind.code] at hw
    have hsize : args.size = (args.map (·.width)).size := by simp
    have hsum : t.width lm = widthSum lm ts := by simp [t, Term.width]
    rw [hsize, ← Array.foldl_toList, Array.toList_map, Computes.width_foldl hargs, zero_add,
      ← hsum, wrapWord_of_lt (by omega) hfits] at hw
    exact hw.symm
  subst hwidth
  simp [lowerOperatorAt, hk, Kind.isUnary, Kind.isCompare, Kind.code] at hm
  obtain ⟨hs', hxt, hc⟩ := hs.emit hm hpos hfits
  refine ⟨hs', hxt, (hc.weaken fun _ _ => trivial).congr fun e he => ?_⟩
  have he' : ∀ u ∈ ts, Admits lm u e := fun u hu => he.arg (by simpa [t, Term.args] using hu)
  simp only [Rhs.eval, Computes.cat_foldl hargs he' 0, zero_mul, zero_add]
  exact Nat.mod_eq_of_lt (evalCat_lt (Computes.bounds hargs he'))

end Concat

end Compiler

end BitSynth.Verilog
