import BitSynth.Proofs.Netlist
import BitSynth.Proofs.Meaning

namespace BitSynth.Verilog

/-- `x`, run from the compiler state `c`, returns `v` and leaves the state `c'`. -/
def Runs {α : Type} (x : Compiling α) (c : Compiler) (v : α) (c' : Compiler) : Prop :=
  Stateful.run' x c = .ok (.ok v, c')

section Runs

variable {α β : Type} {c c' c'' : Compiler} {v : α} {w : β}

theorem runs_pure {v v' : α} : Runs (pure v) c v' c' ↔ v = v' ∧ c = c' := by
  simp only [Runs, Stateful.run', ExceptT.run_pure, StateT.run_pure]
  simp [pure, Except.pure]

theorem runs_bind {x : Compiling α} {f : α → Compiling β} :
    Runs (x >>= f) c w c'' ↔ ∃ v c', Runs x c v c' ∧ Runs (f v) c' w c'' := by
  simp only [Runs, Stateful.run', ExceptT.run_bind, StateT.run_bind]
  rcases hx : (ExceptT.run x).run c with _ | ⟨_ | v, c'⟩
  · simp [bind, Except.bind]
  · simp [bind, Except.bind, StateT.pure, StateT.run, pure, Except.pure]
  · simp only [bind, Except.bind, Except.ok.injEq, Prod.mk.injEq]
    exact ⟨fun h => ⟨v, c', ⟨rfl, rfl⟩, h⟩, fun ⟨_, _, ⟨h₁, h₂⟩, h⟩ => h₁ ▸ h₂ ▸ h⟩

theorem runs_map {x : Compiling α} {g : α → β} :
    Runs (g <$> x) c w c' ↔ ∃ v, Runs x c v c' ∧ g v = w := by
  rw [map_eq_pure_bind, runs_bind]
  simp only [runs_pure]
  constructor
  · rintro ⟨v, c₁, hx, hv, rfl⟩
    exact ⟨v, hx, hv⟩
  · rintro ⟨v, hx, hv⟩
    exact ⟨v, c', hx, hv, rfl⟩

theorem runs_get {v' : Compiler} :
    Runs (MonadState.get : Compiling Compiler) c v' c' ↔ v' = c ∧ c' = c := by
  show (Except.ok (Except.ok c, c) : Except Fault _) = .ok (.ok v', c') ↔ _
  simp [eq_comm]

theorem runs_set {s : Compiler} {v' : PUnit} : Runs (set s : Compiling PUnit) c v' c' ↔ c' = s := by
  show (Except.ok (Except.ok PUnit.unit, s) : Except Fault _) = .ok (.ok v', c') ↔ _
  simp [eq_comm]

theorem runs_modify {f : Compiler → Compiler} {v' : PUnit} :
    Runs (modify f : Compiling PUnit) c v' c' ↔ c' = f c := by
  show (Except.ok (Except.ok PUnit.unit, f c) : Except Fault _) = .ok (.ok v', c') ↔ _
  simp [eq_comm]

theorem not_runs_throw {e : Error} : ¬ Runs (throw e : Compiling α) c v c' := by
  show ¬ (Except.ok (Except.error e, c) : Except Fault _) = .ok (.ok v, c')
  simp

theorem not_runs_fault {f : Fault} : ¬ Runs (Stateful.fault f : Compiling α) c v c' := by
  show ¬ (Except.error f : Except Fault _) = Except.ok (Except.ok v, c')
  simp

theorem runs_lift {g : Guarded α} :
    Runs g.lift c v c' ↔ ExceptT.run g = Except.ok (Except.ok v) ∧ c' = c := by
  simp only [Runs, Stateful.run', Guarded.lift, ExceptT.run_mk, StateT.run_lift]
  rcases g.run with _ | _ | _ <;> simp [bind, Except.bind, pure, Except.pure, eq_comm]

@[simp] theorem except_pure_eq_ok {ε : Type} {v' : α} : (pure v : Except ε α) = .ok v' ↔ v = v' := by
  show Except.ok v = Except.ok v' ↔ v = v'
  simp

theorem runs_tryCatch_throw {x : Compiling α} {h : Error → Error} :
    Runs (tryCatch x fun e => throw (h e)) c v c' ↔ Runs x c v c' := by
  simp only [Runs, Stateful.run', tryCatch, tryCatchThe, MonadExceptOf.tryCatch, ExceptT.tryCatch,
    ExceptT.run_mk, StateT.run_bind]
  rcases hx : (ExceptT.run x).run c with _ | ⟨_ | v, c'⟩
  all_goals
    change StateT.run x c = _ at hx
    simp only [hx, throw, throwThe, MonadExceptOf.throw]
    simp [bind, Except.bind, StateT.pure, StateT.run, ExceptT.mk, pure, Except.pure, eq_comm]

end Runs

theorem toString_nat_injective : Function.Injective (toString : Nat → String) := by
  intro i j h
  have := congrArg (fun s : String => Nat.ofDigitChars 10 s.toList 0) h
  simpa [Nat.toString_eq_repr, Nat.toList_repr, Nat.ofDigitChars_toDigits] using this

/-- The name of the temporary numbered `i`. -/
def tempName (p : String) (i : Nat) : String := p ++ toString i

theorem tempName_injective (p : String) : Function.Injective (tempName p) :=
  fun _ _ h => toString_nat_injective ((String.append_right_inj p).mp h)

/-- The value of every net of an environment. -/
def values (e : Env) : String → Nat := fun s => (e s).value

/-- `op` names a wire of the program `ws`, of width `w > 0`, that carries `f e` in every
environment `e` that `E` admits. -/
structure Carries (ws : List Wire) (E : Env → Prop) (op : Operand) (w : Int) (f : Env → Nat) :
    Prop where
  width : op.width = w
  pos : 0 < w
  declared : op.name ∈ ws.map Wire.name
  value : ∀ e, E e → run ws e op.name = ⟨f e, w.toNat⟩

/-- The literals that unbound constants compile to, with their widths and values. -/
inductive Literal : Rhs → Int → Nat → Prop
  | dec (x : Nat) : Literal (.dec literalWidth x) literalWidth (x % 2 ^ 64)
  | bin (b : Bool) : Literal (.bin b) 1 b.toNat

open Term in
/-- The trees whose lowering is proved to compute them: no width below them wraps, no arithmetic
right shift, and no signal they read is named like a temporary. -/
structure Lowerable (lm : LeafMap) (p : String) (t : Term NodeId) : Prop where
  fits : t.Fits lm
  noAsr : t.NoAsr
  apart : ∀ id ∈ t.leafTags, ∀ l, lm.find? id = some l → ∀ i, l.name ≠ tempName p i

/-- The environments in which the meaning of a tree is defined: its signals within their widths and
no division by zero. -/
def Admits (lm : LeafMap) (t : Term NodeId) (e : Env) : Prop :=
  t.Inputs lm (values e) ∧ t.DivSafe lm (values e)

/-- `op` names a wire of `ws` that carries the meaning of the tree `t` wherever it is defined. -/
abbrev Computes (ws : List Wire) (lm : LeafMap) (t : Term NodeId) (op : Operand) : Prop :=
  Carries ws (Admits lm t) op (t.width lm) (fun e => t.eval lm (values e))

theorem Lowerable.arg {lm : LeafMap} {p : String} {t u : Term NodeId} (h : Lowerable lm p t)
    (hu : u ∈ t.args) : Lowerable lm p u where
  fits v hv := h.fits v (Term.subterms_subset_of_mem_args hu hv)
  noAsr v hv := h.noAsr v (Term.subterms_subset_of_mem_args hu hv)
  apart id hid := h.apart id (Term.leafTags_subset_of_mem_args hu hid)

theorem Admits.arg {lm : LeafMap} {t u : Term NodeId} {e : Env} (h : Admits lm t e)
    (hu : u ∈ t.args) : Admits lm u e :=
  ⟨fun id hid => h.1 id (Term.leafTags_subset_of_mem_args hu hid),
    fun v hv => h.2 v (Term.subterms_subset_of_mem_args hu hv)⟩

/-- A compiler state reached by lowering nodes of `a` under the bindings `lm` with temporaries
named `p0`, `p1`, …: the wires declared so far are exactly the temporaries below `next`, each
memoised node's operand carries the meaning of the node's tree, and each shared literal's operand
carries the literal. -/
structure Compiler.Sound (a : Arena) (lm : LeafMap) (p : String) (c : Compiler) : Prop where
  arena : c.arena = a
  leaves : c.leaves = lm
  temps : c.tempPrefix = p
  names : c.wires.toList.map Wire.name = (List.range c.next).map (tempName p)
  memo : ∀ id op, (id, op) ∈ c.memo → ∀ t, a.Unfolds id t → Lowerable lm p t →
    Computes c.wires.toList lm t op
  literals : ∀ s op, (s, op) ∈ c.literals → ∃ lit w x, Literal lit w x ∧ lit.text = s ∧
    Carries c.wires.toList (fun _ => True) op w (fun _ => x)

/-- The wires of `c'` are those of `c` followed by more. -/
def Compiler.Extends (c c' : Compiler) : Prop := ∃ ws, c'.wires.toList = c.wires.toList ++ ws

namespace Carries

variable {ws ws' : List Wire} {E E' : Env → Prop} {op : Operand} {w : Int} {f g : Env → Nat}

theorem mono (h : Carries ws E op w f) (hnd : ((ws ++ ws').map Wire.name).Nodup) :
    Carries (ws ++ ws') E op w f where
  width := h.width
  pos := h.pos
  declared := by simp [h.declared]
  value e he := by rw [run_append_of_mem h.declared hnd, h.value e he]

theorem weaken (h : Carries ws E op w f) (hE : ∀ e, E' e → E e) : Carries ws E' op w f :=
  ⟨h.width, h.pos, h.declared, fun e he => h.value e (hE e he)⟩

theorem congr (h : Carries ws E op w f) (hf : ∀ e, E e → f e = g e) : Carries ws E op w g :=
  ⟨h.width, h.pos, h.declared, fun e he => by rw [h.value e he, hf e he]⟩

theorem lt (h : Carries ws E op w f) {e : Env} (he : E e) : f e < 2 ^ w.toNat := by
  have := run_value_lt h.declared e
  rwa [h.value e he] at this

end Carries

theorem Literal.text_inj {lit lit' : Rhs} {w w' : Int} {x x' : Nat} (h : Literal lit w x)
    (h' : Literal lit' w' x') (ht : lit.text = lit'.text) : lit = lit' ∧ w = w' ∧ x = x' := by
  have hhead := congrArg (fun s : String => s.toList.head?) ht
  have h64 : literalWidth.repr.toList = ['6', '4'] := by decide
  cases h with
  | dec x =>
    cases h' with
    | dec x' =>
      have hx : x = x' := toString_nat_injective (by simpa [Rhs.text] using ht)
      subst hx
      exact ⟨rfl, rfl, rfl⟩
    | bin b => cases b <;> simp [Rhs.text, h64] at hhead
  | bin b =>
    cases h' with
    | dec x' => cases b <;> simp [Rhs.text, h64] at hhead
    | bin b' => cases b <;> cases b' <;> simp_all [Rhs.text]

theorem Literal.eval {lit : Rhs} {w : Int} {x : Nat} (h : Literal lit w x) (k : Nat) (e : Env) :
    lit.eval k e % 2 ^ w.toNat = x := by
  cases h with
  | dec x => simp [Rhs.eval, literalWidth]
  | bin b => cases b <;> simp [Rhs.eval]

theorem Literal.width_pos {lit : Rhs} {w : Int} {x : Nat} (h : Literal lit w x) : 0 < w ∧ w < 2 ^ 63 := by
  cases h <;> simp [literalWidth]

namespace Compiler

variable {a : Arena} {lm : LeafMap} {p : String} {c c' c'' : Compiler}

theorem Extends.refl (c : Compiler) : c.Extends c := ⟨[], by simp⟩

theorem Extends.trans (h₁ : c.Extends c') (h₂ : c'.Extends c'') : c.Extends c'' := by
  obtain ⟨ws₁, h₁⟩ := h₁
  obtain ⟨ws₂, h₂⟩ := h₂
  exact ⟨ws₁ ++ ws₂, by rw [h₂, h₁, List.append_assoc]⟩

theorem nodup_of_names (h : c.wires.toList.map Wire.name = (List.range c.next).map (tempName p)) :
    (c.wires.toList.map Wire.name).Nodup := by
  rw [h]
  exact List.Nodup.map (tempName_injective p) List.nodup_range

theorem Extends.carries (hx : c.Extends c') (hnd : (c'.wires.toList.map Wire.name).Nodup)
    {E : Env → Prop} {op : Operand} {w : Int} {f : Env → Nat} (h : Carries c.wires.toList E op w f) :
    Carries c'.wires.toList E op w f := by
  obtain ⟨ws, hws⟩ := hx
  rw [hws] at hnd ⊢
  exact h.mono hnd

namespace Sound

theorem nodup (hs : c.Sound a lm p) : (c.wires.toList.map Wire.name).Nodup :=
  nodup_of_names hs.names

/-- More wires, named as the next temporaries, keep a state sound. -/
theorem extend (hs : c.Sound a lm p) (hx : c.Extends c') (ha : c'.arena = c.arena)
    (hl : c'.leaves = c.leaves) (ht : c'.tempPrefix = c.tempPrefix)
    (hn : c'.wires.toList.map Wire.name = (List.range c'.next).map (tempName p))
    (hm : c'.memo = c.memo) (hlit : c'.literals = c.literals) : c'.Sound a lm p where
  arena := ha.trans hs.arena
  leaves := hl.trans hs.leaves
  temps := ht.trans hs.temps
  names := hn
  memo id op h t hu hlow := hx.carries (nodup_of_names hn) (hs.memo id op (hm ▸ h) t hu hlow)
  literals s op h := by
    obtain ⟨lit, w, x, hlit', htext, hc⟩ := hs.literals s op (hlit ▸ h)
    exact ⟨lit, w, x, hlit', htext, hx.carries (nodup_of_names hn) hc⟩

end Sound

theorem runs_emit {w : Int} {r : Rhs} {op : Operand} :
    Runs (emit w r) c op c' ↔ op = ⟨tempName c.tempPrefix c.next, w⟩ ∧
      c' = { c with next := c.next + 1,
                    wires := c.wires.push ⟨tempName c.tempPrefix c.next, w, r⟩ } := by
  simp only [emit, runs_bind, runs_get, runs_set, runs_pure]
  constructor
  · rintro ⟨_, _, ⟨rfl, rfl⟩, _, _, rfl, rfl, rfl⟩
    exact ⟨rfl, rfl⟩
  · rintro ⟨rfl, rfl⟩
    exact ⟨c, c, ⟨rfl, rfl⟩, PUnit.unit, _, rfl, rfl, rfl⟩

/-- Emitting a wire whose width fits a machine word keeps the state sound, and the new operand
carries the right-hand side's value over the nets before it, cut to the width. -/
theorem Sound.emit {w : Int} {r : Rhs} {op : Operand} (hs : c.Sound a lm p)
    (h : Runs (emit w r) c op c') (hw : 0 < w) (hw' : w < 2 ^ 63) :
    c'.Sound a lm p ∧ c.Extends c' ∧ Carries c'.wires.toList (fun _ => True) op w
      (fun e => r.eval w.toNat (run c.wires.toList e) % 2 ^ w.toNat) := by
  obtain ⟨rfl, hc'⟩ := runs_emit.mp h
  have hx : c.Extends c' := ⟨[⟨tempName c.tempPrefix c.next, w, r⟩], by rw [hc', Array.toList_push]⟩
  subst hc'
  refine ⟨hs.extend hx rfl rfl rfl ?_ rfl rfl, hx, ⟨rfl, hw, ?_, fun e _ => ?_⟩⟩
  · simp [hs.names, hs.temps, List.range_succ]
  · simp
  · have hsize : (⟨tempName c.tempPrefix c.next, w, r⟩ : Wire).size = w.toNat := Wire.size_eq hw hw'
    simp only [Array.toList_push]
    refine (run_concat_self _ _ e).trans ?_
    simp only [Wire.drive, hsize]

theorem runs_operandAt {ops : Array Operand} {i : Nat} {v : Operand} :
    Runs (operandAt ops i) c v c' ↔ ops[i]? = some v ∧ c' = c := by
  unfold operandAt
  rcases ops[i]? with _ | o
  · simp [not_runs_fault]
  · simp [runs_pure, eq_comm]

/-- Resizing an operand cuts what it carries to the new width, or zero-extends it. -/
theorem Sound.resize {op op' : Operand} {w wop : Int} {E : Env → Prop} {f : Env → Nat}
    (hs : c.Sound a lm p) (h : Runs (resize op w) c op' c')
    (hop : Carries c.wires.toList E op wop f) (hw : 0 < w) (hw' : w < 2 ^ 63) :
    c'.Sound a lm p ∧ c.Extends c' ∧
      Carries c'.wires.toList E op' w (fun e => f e % 2 ^ w.toNat) := by
  unfold Compiler.resize at h
  split_ifs at h with hlt hgt h1
  · -- zeros in front
    obtain ⟨hs', hx, hc⟩ := hs.emit h hw hw'
    refine ⟨hs', hx, (hc.weaken fun _ _ => trivial).congr fun e he => ?_⟩
    simp only [Rhs.eval, hop.value e he]
  · -- the low bit
    obtain ⟨hs', hx, hc⟩ := hs.emit h hw hw'
    have hw1 : w = 1 := by simpa using h1
    subst hw1
    refine ⟨hs', hx, (hc.weaken fun _ _ => trivial).congr fun e he => ?_⟩
    simp [Rhs.eval, hop.value e he]
  · -- the low bits
    obtain ⟨hs', hx, hc⟩ := hs.emit h hw hw'
    refine ⟨hs', hx, (hc.weaken fun _ _ => trivial).congr fun e he => ?_⟩
    have hhi : (wrapWord (w - 1) - 0 + 1).toNat = w.toNat := by
      rw [wrapWord_of_lt (by omega) (by omega)]
      omega
    simp only [Rhs.eval, hop.value e he, hhi, Int.toNat_zero, pow_zero, Nat.div_one, Nat.mod_mod]
  · -- the same width
    obtain ⟨rfl, rfl⟩ := runs_pure.mp h
    have hwop : wop = w := by
      have := hop.width
      omega
    subst hwop
    exact ⟨hs, .refl c, hop.congr fun e he => (Nat.mod_eq_of_lt (hop.lt he)).symm⟩

/-- A literal compiles to the wire of the first literal with its text. -/
theorem Sound.literal {lit : Rhs} {w : Int} {x : Nat} {op : Operand} (hs : c.Sound a lm p)
    (h : Runs (literal w lit) c op c') (hlit : Literal lit w x) :
    c'.Sound a lm p ∧ c.Extends c' ∧ Carries c'.wires.toList (fun _ => True) op w (fun _ => x) := by
  unfold Compiler.literal at h
  obtain ⟨_, _, hg, hm⟩ := runs_bind.mp h
  obtain ⟨rfl, rfl⟩ := runs_get.mp hg
  split at hm
  · -- a literal with the same text was emitted before
    rename_i s op' hfind
    obtain ⟨hop, rfl⟩ := runs_pure.mp hm
    subst hop
    have htext : s = lit.text := by simpa using List.find?_some hfind
    obtain ⟨lit', w', x', hlit', htext', hc⟩ := hs.literals s op' (List.mem_of_find?_eq_some hfind)
    obtain ⟨rfl, rfl, rfl⟩ := hlit'.text_inj hlit (htext'.trans htext)
    exact ⟨hs, .refl _, hc⟩
  · -- the first literal with this text
    obtain ⟨op', c₁, he, hrest⟩ := runs_bind.mp hm
    obtain ⟨_, c₂, hmod, hp⟩ := runs_bind.mp hrest
    obtain ⟨hop, rfl⟩ := runs_pure.mp hp
    subst hop
    have hc₂ := runs_modify.mp hmod
    subst hc₂
    obtain ⟨hw, hw'⟩ := hlit.width_pos
    obtain ⟨hs₁, hx, hc⟩ := hs.emit he hw hw'
    have hc' : Carries c₁.wires.toList (fun _ => True) op' w (fun _ => x) :=
      hc.congr fun e _ => hlit.eval _ _
    refine ⟨⟨hs₁.arena, hs₁.leaves, hs₁.temps, hs₁.names, hs₁.memo, fun s o hmem => ?_⟩, hx, hc'⟩
    rcases List.mem_append.mp hmem with hmem | hmem
    · exact hs₁.literals s o hmem
    · obtain ⟨rfl, rfl⟩ := Prod.mk.inj (List.mem_singleton.mp hmem)
      exact ⟨lit, w, x, hlit, rfl, hc'⟩

end Compiler

end BitSynth.Verilog
