import Mathlib
import BitSynth.Proofs.Declaring

namespace BitSynth

theorem clampSlice_of_bounds {hi lo src : Int} (hsrc : 0 < src) (hlo : 0 ≤ lo) (hlohi : lo ≤ hi)
    (hlosrc : lo < src) : clampSlice hi lo src = .ok (if hi ≥ src then src - 1 else hi) := by
  unfold clampSlice
  rw [if_neg (by omega)]
  split_ifs <;> simp <;> omega

/-- A leaf whose binding validation accepts is sized by it. -/
theorem Node.Bound.leafWidth_ok {lm : LeafMap} {id : NodeId} {n : Node} (hb : n.Bound lm id)
    (hleaf : n.kind.isLeaf) : ∃ w hi, leafWidth n (lm.find? id) = .ok (w, hi) := by
  have hconst : n.kind.isConst → ∃ w hi, leafWidth n (lm.find? id) = .ok (w, hi) := by
    intro hc
    rcases hl : lm.find? id with _ | l
    · simp only [Kind.isConst, Bool.or_eq_true, beq_iff_eq] at hc
      rcases hc with (hk | hk) | hk <;> simp [leafWidth, hk]
    · have hw := hb.const hc l hl
      simp only [Kind.isConst, Bool.or_eq_true, beq_iff_eq] at hc
      rcases hc with (hk | hk) | hk <;> simp [leafWidth, hk, not_le.mpr hw]
  rcases Kind.isLeaf_iff.mp hleaf with hk | hk | hk | hk | hk
  · -- a signal, bound at a positive width
    obtain ⟨l, hl, hw⟩ := hb.signal (.inl hk)
    exact ⟨l.width, 0, by simp [leafWidth, hk, hl, not_le.mpr hw]⟩
  · exact hconst (by simp [hk, Kind.isConst])
  · exact hconst (by simp [hk, Kind.isConst])
  · exact hconst (by simp [hk, Kind.isConst])
  · -- a bit-field starting inside a source of positive width
    obtain ⟨l, hl, hw⟩ := hb.signal (.inr hk)
    obtain ⟨hlo, hlohi, hlow⟩ := hb.field hk l hl
    have hclamp := clampSlice_of_bounds hw hlo hlohi hlow
    have hsized : leafWidth n (lm.find? id) = .ok (wrapWord ((if n.hi ≥ l.width then l.width - 1
        else n.hi) - n.lo + 1), if n.hi ≥ l.width then l.width - 1 else n.hi) := by
      simp only [leafWidth, hk, hl, hclamp]
    exact ⟨_, _, hsized⟩

/-- Validation accepts a bit-field's binding, with a warning or without, exactly when its slice can
be clamped to the bound source. -/
theorem checkBinding_bitField_iff {lm : LeafMap} {s : CheckState} {id : NodeId} {n : Node}
    (hk : n.kind = .bitField) :
    (Arena.checkBinding lm s id n).errors = s.errors ↔
      ∃ l, lm.find? id = some l ∧ ∃ hi, clampSlice n.hi n.lo l.width = .ok hi := by
  have hsignal : Arena.checkBinding lm s id n = Arena.checkSignal lm s id n := by
    unfold Arena.checkBinding
    rw [hk]
  rw [hsignal]
  constructor
  · intro h
    obtain ⟨l, hl, hw, hf⟩ := Arena.checkSignal_passes.sound h
    obtain ⟨hlo, hlohi, hlow⟩ := hf hk
    exact ⟨l, hl, _, clampSlice_of_bounds hw hlo hlohi hlow⟩
  · rintro ⟨l, hl, hi, hc⟩
    obtain ⟨hw, hhi, hlo, hlohi⟩ := Verilog.Compiler.clampSlice_ok hc
    have hbounds : n.lo ≤ n.hi ∧ n.lo < l.width := by split_ifs at hhi <;> omega
    unfold Arena.checkSignal
    simp only [hl, hk, beq_self_eq_true, if_true]
    -- each failing test contradicts the clamped bounds
    split_ifs with h₁ h₂ h₃ <;> first | rfl | (simp_all; omega)

namespace WidthState

theorem found_of_mem_reported {s : WidthState} {n : Nat} {x : NodeId} {w : Int}
    (h : (x, w) ∈ (List.range n).filterMap fun i : Nat => (s.widths[i]?.join).map fun w => ((i : Int), w)) :
    s.found x = some w := by
  obtain ⟨i, -, hi⟩ := List.mem_filterMap.mp h
  obtain ⟨w', hw', hpair⟩ := Option.map_eq_some_iff.mp hi
  obtain ⟨rfl, rfl⟩ := Prod.mk.inj hpair
  simp [found, hw']

end WidthState

namespace Verilog

open Stateful Compiler

variable {a : Arena} {lm : LeafMap} {p : String} {root : NodeId} {t : Term NodeId}

/-- The signals a leaf map binds, each at its width. -/
def boundSignals (lm : LeafMap) : Known := fun s w => ∃ id l, lm.find? id = some l ∧ l.name = s ∧ l.width = w

theorem Compiler.orderly_new (a : Arena) (lm : LeafMap) (p : String) (K : Known) :
    (Compiler.new a lm p).Orderly a lm K where
  arena := rfl
  leaves := rfl
  names := rfl
  wires := trivial
  memo _ _ h := by simp [Compiler.new] at h
  literals := by simp [LiteralsSized, Compiler.new]
  literalsDeclared _ h := by simp [Compiler.new] at h

theorem compile_lands (hacyc : a.Acyclic) (hreg : a.RegularBelow root) (hu : a.Unfolds root t)
    (hfits : t.SizesFit lm) :
    Ends (compile root) (Compiler.new a lm p)
      (Lands a lm (boundSignals lm) t (Refuses a lm t) (Compiler.new a lm p)) := by
  have hdepth := hu.depth_le_size hacyc
  unfold compile
  refine Ends.get_bind ?_
  exact Orderly.compileWithin _ (orderly_new a lm p _) hreg hu hfits
    (fun x _ l hl => ⟨x, l, hl, rfl, rfl⟩) (by simp only [Compiler.new]; omega)

/-- Width inference below a valid root ends as lowering the root with a fresh compiler does: with the
compiler's error, or, when the compiler succeeds, reporting for each node the width of the operand
the compiler memoised for it. -/
theorem inferWidths_of_compile {r : Except Error Operand} {c' : Compiler} (rep : Option Reporter)
    (hvalid : a.valid root = true) (hreg : a.RegularBelow root)
    (hrun : (compile root).run' (Compiler.new a lm p) = .ok (r, c')) :
    (∀ e, r = .error e → ∃ rep', a.inferWidths root lm rep = .ok (rep', .error e)) ∧
      ∀ op, r = .ok op → ∃ rep' found, a.inferWidths root lm rep = .ok (rep', .ok found) ∧
        ∀ x w, (x, w) ∈ found → ∃ o, (x, o) ∈ c'.memo ∧ o.width = w := by
  have hal := compileWithin_alike (a.size + 1) hreg (agrees_new a lm p rep) (closed_new a rep)
  unfold Alike at hal
  unfold compile at hrun
  rw [run'_get_bind, show (Compiler.new a lm p).arena.size = a.size from rfl] at hrun
  rw [hrun] at hal
  unfold Arena.inferWidths
  rw [if_neg (by simp [hvalid])]
  rcases h₂ : (a.widthWithin lm (a.size + 1) root).run' ⟨Array.replicate a.size none, rep⟩ with
    f | ⟨e' | w, s⟩ <;> rw [h₂] at hal <;> rcases r with e | op <;> simp only at hal <;>
    simp only [bind, Except.bind, pure, Except.pure]
  · -- both fail, with one error
    subst hal
    exact ⟨fun _ h => by cases h; exact ⟨_, rfl⟩, (fun _ h => by cases h)⟩
  · -- both succeed: each reported width is that of a memoised operand
    obtain ⟨-, ⟨hag, -⟩, -⟩ := hal
    refine ⟨(fun _ h => by cases h), fun _ _ => ⟨_, _, rfl, fun x w hx => ?_⟩⟩
    have hmemo := hag.memo x
    rw [WidthState.found_of_mem_reported hx] at hmemo
    obtain ⟨⟨k, o⟩, hfind, hwidth⟩ := Option.map_eq_some_iff.mp hmemo
    have hk : k = x := by simpa using List.find?_some hfind
    subst hk
    exact ⟨o, List.mem_of_find?_eq_some hfind, hwidth⟩

theorem Refuses.refusedBelow {e : Error} (hcb : a.CheckedBelow lm root) (hu : a.Unfolds root t)
    (h : Refuses a lm t e) : t.RefusedBelow lm e := by
  rcases h with h | ⟨x, hx, n, e', hn, hw, -⟩
  · exact h
  obtain ⟨hb, m, hm, hleaf⟩ := hu.mem_leafTags.mp hx
  obtain ⟨n', hn', hc⟩ := hcb x hb
  rw [hn, Option.some.injEq] at hm hn'
  subst hm hn'
  obtain ⟨w, hi, hok⟩ := hc.bound.leafWidth_ok hleaf
  rw [hok] at hw
  cases hw

/-- Below a root that validation accepts, on an acyclic graph of canonical kinds, whose computed
widths fit in machine words, every width that inference reports is the positive width of a node's tree, and a
fresh compiler lowers the root to an operand of its tree's width over wires and pads of positive
widths. -/
theorem inferred_widths_positive_when_they_fit {a : Arena} {lm : LeafMap} {p : String} {root : Int}
    {r : Reporter} {t : Term NodeId} {rep rep' : Option Reporter} {found : List (NodeId × Int)}
    (hacyc : a.Acyclic) (hcanon : ∀ id n, a.node? id = some n → n.kind.Canonical)
    (hcheck : (a.check root lm (some r)).2 = .ok ()) (hu : a.Unfolds root t) (hfits : t.SizesFit lm)
    (hinfer : a.inferWidths root lm rep = .ok (rep', .ok found)) :
    (∀ x w, (x, w) ∈ found → 1 ≤ w ∧ ∃ u, a.Unfolds x u ∧ w = u.width lm) ∧
      ∃ op c', Runs (compile root) (Compiler.new a lm p) op c' ∧ op.width = t.width lm ∧
        ∀ x ∈ c'.wires.toList, 0 < x.width ∧ ∀ z s, x.rhs = .pad z s → 0 < z := by
  have hreg := Arena.regularBelow_of_check hacyc hcanon hcheck
  obtain ⟨n, hn, -⟩ := hreg root .root
  obtain ⟨res, c', hrun, hs', -, hok, -⟩ := compile_lands (p := p) hacyc hreg hu hfits
  obtain ⟨hinf_err, hinf_ok⟩ := inferWidths_of_compile rep (Arena.valid_of_node? hn) hreg hrun
  rcases res with e | op
  · -- a failing compiler would make inference fail too
    obtain ⟨rep'', h⟩ := hinf_err e rfl
    rw [hinfer] at h
    cases h
  obtain ⟨rep'', found', hinf, hmemo⟩ := hinf_ok op rfl
  rw [hinfer] at hinf
  cases hinf
  refine ⟨fun x w hx => ?_, op, c', hrun, (hok op rfl).1, fun x hx => ?_⟩
  · -- a reported width is that of a memoised operand, a declared wire
    obtain ⟨o, ho, hw⟩ := hmemo x w hx
    obtain ⟨⟨u, hu', huw⟩, hd⟩ := hs'.memo x o ho
    have hpos := (hs'.width_bounds hd).1
    exact ⟨by omega, u, hu', by rw [← hw, huw]⟩
  · obtain ⟨_, hready⟩ := hs'.wires.ready hx
    exact ⟨hready.width_pos, hready.pads⟩

/-- `a + a` over a four-bit signal passes the checks, and its inferred widths are positive. -/
theorem double_widths_positive :
    let t : Term NodeId := .binary 1 .add (.var 0 "a") (.var 0 "a")
    (doubleArena.check 1 doubleLeaves (some {})).2 = .ok () ∧ doubleArena.Unfolds 1 t ∧
      t.SizesFit doubleLeaves ∧ doubleArena.inferWidths 1 doubleLeaves none = .ok (none, .ok [(0, 4), (1, 5)]) ∧
      (∀ x w, (x, w) ∈ [((0 : Int), (4 : Int)), (1, 5)] → 1 ≤ w ∧
        ∃ u, doubleArena.Unfolds x u ∧ w = u.width doubleLeaves) ∧
      ∃ op c', Runs (compile 1) (Compiler.new doubleArena doubleLeaves "t") op c' ∧
        op.width = t.width doubleLeaves ∧ ∀ x ∈ c'.wires.toList, 0 < x.width ∧
          ∀ z s, x.rhs = .pad z s → 0 < z := by
  intro t
  have hu : doubleArena.Unfolds 1 t :=
    .binary (n := doubleArena.nodes[1]) rfl ⟨rfl, by decide⟩ rfl (.var (n := doubleArena.nodes[0]) rfl rfl rfl)
      (.var (n := doubleArena.nodes[0]) rfl rfl rfl)
  have hfits : t.SizesFit doubleLeaves := by
    unfold Term.SizesFit
    decide
  have hinfer : doubleArena.inferWidths 1 doubleLeaves none = .ok (none, .ok [(0, 4), (1, 5)]) := by
    with_unfolding_all rfl
  exact ⟨rfl, hu, hfits, hinfer, inferred_widths_positive_when_they_fit (Arena.acyclic_of_args_lt (by decide))
    (Arena.canonical_of_forall (by decide)) (r := {}) rfl hu hfits hinfer⟩

/-- A signal of `2^63 - 1` bits. -/
def wideLeaves : LeafMap := ⟨[(0, ⟨"a", 9223372036854775807⟩)]⟩

/-- Added to itself, a signal of `2^63 - 1` bits passes validation and is inferred `-2^63` bits wide:
the sum wraps in the machine word. -/
theorem wide_double_width_wraps :
    (doubleArena.check 1 wideLeaves (some {})).2 = .ok () ∧
      doubleArena.inferWidths 1 wideLeaves none =
        .ok (none, .ok [(0, 9223372036854775807), (1, -9223372036854775808)]) :=
  ⟨rfl, by with_unfolding_all rfl⟩

/-- Validation guards the passes: below a root that validation accepts, on an acyclic graph of
canonical kinds, whose computed widths fit in machine words, width inference and a fresh compiler end without
a defect and fail only with the semantic error by which the width rules refuse a node below the
root; and validation accepts a bit-field's binding exactly when its slice can be clamped. -/
theorem validated_passes_refuse_only_by_width_rules {a : Arena} {lm : LeafMap} {p : String}
    {root : Int} {r : Reporter} {t : Term NodeId} (rep : Option Reporter) (hacyc : a.Acyclic)
    (hcanon : ∀ id n, a.node? id = some n → n.kind.Canonical)
    (hcheck : (a.check root lm (some r)).2 = .ok ()) (hu : a.Unfolds root t) (hfits : t.SizesFit lm) :
    (∃ rep' res, a.inferWidths root lm rep = .ok (rep', res) ∧
      ∀ e, res = .error e → e.cause = .semantic ∧ t.RefusedBelow lm e) ∧
    (∃ res c', (compile root).run' (Compiler.new a lm p) = .ok (res, c') ∧
      ∀ e, res = .error e → e.cause = .semantic ∧ t.RefusedBelow lm e) ∧
    ∀ (s : CheckState) (id : NodeId) (n : Node), n.kind = .bitField →
      ((Arena.checkBinding lm s id n).errors = s.errors ↔
        ∃ l, lm.find? id = some l ∧ ∃ hi, clampSlice n.hi n.lo l.width = .ok hi) := by
  have hreg := Arena.regularBelow_of_check hacyc hcanon hcheck
  have hcb := Arena.checkedBelow_of_check hacyc hcheck
  obtain ⟨n, hn, -⟩ := hreg root .root
  obtain ⟨res, c', hrun, -, -, -, herr⟩ := compile_lands (p := p) hacyc hreg hu hfits
  have hrefused : ∀ e, res = .error e → e.cause = .semantic ∧ t.RefusedBelow lm e := by
    intro e he
    have h := (herr e he).refusedBelow hcb hu
    exact ⟨h.cause, h⟩
  obtain ⟨hinf_err, hinf_ok⟩ := inferWidths_of_compile rep (Arena.valid_of_node? hn) hreg hrun
  refine ⟨?_, ⟨res, c', hrun, hrefused⟩, fun s id n hk => checkBinding_bitField_iff hk⟩
  rcases res with e | op
  · obtain ⟨rep', h⟩ := hinf_err e rfl
    exact ⟨rep', _, h, fun e' he' => by cases he'; exact hrefused e rfl⟩
  · obtain ⟨rep', found, h, -⟩ := hinf_ok op rfl
    exact ⟨rep', _, h, (fun _ h => by cases h)⟩

/-- `a << b`, the amount `b` sixty-four bits wide. -/
def shiftByArena : Arena :=
  ⟨#[{ kind := .var, name := "a" }, { kind := .var, name := "b" }, { kind := .shl, args := #[0, 1] }]⟩

def shiftByLeaves : LeafMap := ⟨[(0, ⟨"a", 4⟩), (1, ⟨"b", 64⟩)]⟩

/-- A left shift by a sixty-four-bit amount passes the structural checks and is refused by the
width rules, before its width, which no machine word holds, is computed. -/
theorem wide_amount_shift_refused :
    let t : Term NodeId := .binary 2 .shl (.var 0 "a") (.var 1 "b")
    (shiftByArena.check 2 shiftByLeaves (some {})).2 = .ok () ∧ shiftByArena.Unfolds 2 t ∧
      ¬ t.Fits shiftByLeaves ∧ t.SizesFit shiftByLeaves ∧
      (∃ rep' res, shiftByArena.inferWidths 2 shiftByLeaves none = .ok (rep', res) ∧
        ∀ e, res = .error e → e.cause = .semantic ∧ t.RefusedBelow shiftByLeaves e) ∧
      (∃ res c', (compile 2).run' (Compiler.new shiftByArena shiftByLeaves "t") = .ok (res, c') ∧
        ∀ e, res = .error e → e.cause = .semantic ∧ t.RefusedBelow shiftByLeaves e) ∧
      ∀ (s : CheckState) (id : NodeId) (n : Node), n.kind = .bitField →
        ((Arena.checkBinding shiftByLeaves s id n).errors = s.errors ↔
          ∃ l, shiftByLeaves.find? id = some l ∧ ∃ hi, clampSlice n.hi n.lo l.width = .ok hi) := by
  intro t
  have hu : shiftByArena.Unfolds 2 t :=
    .binary (n := shiftByArena.nodes[2]) rfl ⟨rfl, by decide⟩ rfl
      (.var (n := shiftByArena.nodes[0]) rfl rfl rfl) (.var (n := shiftByArena.nodes[1]) rfl rfl rfl)
  have hwide : ¬ t.Fits shiftByLeaves := by
    unfold Term.Fits
    decide
  have hfits : t.SizesFit shiftByLeaves := by
    unfold Term.SizesFit
    decide
  exact ⟨rfl, hu, hwide, hfits, validated_passes_refuse_only_by_width_rules none
    (Arena.acyclic_of_args_lt (by decide)) (Arena.canonical_of_forall (by decide)) (r := {}) rfl hu hfits⟩

/-- `a << (a + a)`. -/
def shiftArena : Arena :=
  ⟨#[{ kind := .var, name := "a" }, { kind := .add, args := #[0, 0] }, { kind := .shl, args := #[0, 1] }]⟩

/-- Over a signal of `2^63 - 1` bits, `a << (a + a)` passes validation, but the amount's width
wraps to `-2^63`, which the shift-amount guard lets through: inference and the compiler fault. -/
theorem wide_shift_amount_faults :
    (shiftArena.check 2 wideLeaves (some {})).2 = .ok () ∧
      shiftArena.inferWidths 2 wideLeaves none = .error (.broken "runtime error: negative shift amount") ∧
      (compile 2).run' (Compiler.new shiftArena wideLeaves "t") =
        .error (.broken "runtime error: negative shift amount") :=
  ⟨rfl, by with_unfolding_all rfl, by with_unfolding_all rfl⟩

end Verilog

end BitSynth
