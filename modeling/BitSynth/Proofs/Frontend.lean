import Mathlib
import BitSynth.Proofs.Forest
import BitSynth.Proofs.Visits
import BitSynth.Proofs.Emission
import BitSynth.Source.Lower

namespace BitSynth

namespace Reporter

@[simp] theorem errorCount_errorFree (r : Reporter) (msg : String) :
    (r.errorFree msg).errorCount = r.errorCount + 1 := by
  simp only [errorFree, add, errorCount]
  rw [Array.filter_push]
  split
  · exact Array.size_push ..
  · rename_i h
    exact absurd rfl h

end Reporter

end BitSynth

namespace BitSynth.Source

/-- A stretch of lowering from `s` to `s'` that gave the ids `roots`: it counts only the errors it
reports, and when it counted none it appended a forest of formed nodes with exactly those roots,
none of them the failure id -1. -/
structure Lowered (s s' : LowerState) (roots : List Int) : Prop where
  counted : s.errors ≤ s'.errors
  reported : s'.reporter.errorCount + s.errors = s.reporter.errorCount + s'.errors
  built : s'.errors = s.errors → s.arena.Forest s'.arena roots ∧ -1 ∉ roots

namespace Lowered

variable {s s₁ s₂ : LowerState} {R R₁ R₂ : List Int}

theorem refl (s : LowerState) : Lowered s s [] :=
  ⟨Nat.le_refl _, rfl, fun _ => ⟨Arena.Forest.refl _, List.not_mem_nil⟩⟩

theorem trans (h₁ : Lowered s s₁ R₁) (h₂ : Lowered s₁ s₂ R₂) : Lowered s s₂ (R₁ ++ R₂) where
  counted := Nat.le_trans h₁.counted h₂.counted
  reported := by
    have := h₁.reported
    have := h₂.reported
    omega
  built he := by
    have he₁ : s₁.errors = s.errors := by
      have := h₁.counted
      have := h₂.counted
      omega
    obtain ⟨hf₁, hn₁⟩ := h₁.built he₁
    obtain ⟨hf₂, hn₂⟩ := h₂.built (he.trans he₁.symm)
    exact ⟨hf₁.trans hf₂, by simp [hn₁, hn₂]⟩

theorem giveUp (h : Lowered s s₁ R) (hgrew : s.errors < s₁.errors) (R' : List Int) : Lowered s s₁ R' :=
  ⟨h.counted, h.reported, fun he => absurd he (by omega)⟩

theorem abandon (h : Lowered s s₁ R) (hR : -1 ∈ R) (R' : List Int) : Lowered s s₁ R' :=
  h.giveUp (by
    have := h.counted
    by_contra hle
    exact (h.built (by omega)).2 hR) R'

theorem report (h : Lowered s s₁ R) (msg : String) (R' : List Int) :
    Lowered s { s₁ with errors := s₁.errors + 1, reporter := s₁.reporter.errorFree msg } R' :=
  ⟨by have := h.counted; simp only; omega, by have := h.reported; simp only [Reporter.errorCount_errorFree]; omega,
    fun he => absurd he (by have := h.counted; simp only; omega)⟩

theorem push (h : Lowered s s₁ R) {n : Node} (hn : s₁.errors = s.errors → n.Formed ∧ n.args.toList = R) :
    Lowered s { s₁ with arena := (s₁.arena.push n).1 } [(s₁.arena.size : Int)] where
  counted := h.counted
  reported := h.reported
  built he := by
    obtain ⟨hf, -⟩ := h.built he
    obtain ⟨hformed, hargs⟩ := hn he
    refine ⟨hf.push hformed hargs, ?_⟩
    simp only [List.mem_singleton]
    omega

end Lowered

namespace Lower

/-- What a lowering computation run from `s` gives and ends in satisfies `Q`. -/
def Post {α : Type} (m : Lower α) (s : LowerState) (Q : α → LowerState → Prop) : Prop :=
  Q (m.run s).1 (m.run s).2

section Post

variable {α β : Type} {s : LowerState} {Q : β → LowerState → Prop}

theorem Post.pure {Q : α → LowerState → Prop} {v : α} (h : Q v s) : Post (Pure.pure v) s Q := h

theorem Post.bind {m : Lower α} {f : α → Lower β} {R : α → LowerState → Prop} (hm : Post m s R)
    (hf : ∀ v s₁, R v s₁ → Post (f v) s₁ Q) : Post (m >>= f) s Q :=
  hf _ _ hm

theorem Post.conseq {m : Lower α} {Q' Q : α → LowerState → Prop} (h : Post m s Q')
    (hq : ∀ v s', Q' v s' → Q v s') : Post m s Q :=
  hq _ _ h

end Post

variable {s₀ s : LowerState} {R : List Int}

theorem emit_lowered {f : Arena → Arena × NodeId} {n : Node} (hf : ∀ a, f a = a.push n)
    (h : Lowered s₀ s R) (hn : s.errors = s₀.errors → n.Formed ∧ n.args.toList = R) :
    Post (emit f) s fun id s' => Lowered s₀ s' [id] := by
  show Lowered s₀ { s with arena := (f s.arena).1 } [(f s.arena).2]
  rw [hf]
  exact h.push hn

/-- A bit index read from `s` to `s'`: it appends nothing, counts an error when it gives no index,
and gives no negative index. -/
structure IndexRead (s s' : LowerState) (v : Option Int) : Prop where
  lowered : Lowered s s' []
  missing : v = none → s.errors < s'.errors
  nonneg : ∀ i, v = some i → 0 ≤ i

theorem fail_counted (h : Lowered s₀ s R) (off : Nat) (msg : String) :
    Post (fail off msg) s fun _ s' => s₀.errors < s'.errors ∧ ∀ R', Lowered s₀ s' R' :=
  ⟨by have := h.counted; show s₀.errors < s.errors + 1; omega, h.report _⟩

theorem index_read (t : Tree) (s : LowerState) : Post (index t) s fun v s' => IndexRead s s' v := by
  -- every way to refuse an index reports it and gives none
  have hrefuse : ∀ off msg, Post (do let _ ← fail off msg; pure none) s fun v s' => IndexRead s s' v :=
    fun off msg => Post.bind (fail_counted (Lowered.refl s) off msg) fun _ _ ⟨hlt, hl⟩ =>
      Post.pure ⟨hl [], fun _ => hlt, fun _ h => by cases h⟩
  rw [index]
  split
  · split
    · rename_i n _
      split_ifs with hn
      · exact hrefuse _ _
      · exact Post.pure ⟨Lowered.refl s, (fun h => by cases h), fun i h => by cases h; omega⟩
    · exact hrefuse _ _
  · exact hrefuse _ _

/-- The node of `int(x, w)`: from a lowered operand and a read width. -/
theorem sized_lowered {x : Int} {w : Option Int} (h : Lowered s₀ s [x]) (hw : w = none → s₀.errors < s.errors)
    (hpos : ∀ i, w = some i → 0 ≤ i) (wPos : Nat) :
    Post (sized x w wPos) s fun id s' => Lowered s₀ s' [id] := by
  unfold sized
  split
  · rename_i i
    split_ifs with hx hi
    · exact Post.pure (h.abandon (List.mem_singleton.mpr (beq_iff_eq.mp hx).symm) _)
    · exact (fail_counted h _ _).conseq fun _ _ h => h.2 _
    · refine emit_lowered (fun _ => rfl) h fun _ => ⟨Node.formed_of_target rfl ?_ rfl, rfl⟩
      have := hpos i rfl
      simp only [beq_iff_eq] at hi
      omega
  · exact Post.pure (h.giveUp (hw rfl) _)

theorem arity?_cases {name : String} {p : Nat × Option Nat} (h : arity? name = some p) :
    name = "sel" ∧ p = (3, some 3) ∨ name = "cat" ∧ p = (1, none) ∨ name = "asr" ∧ p = (2, some 2) ∨
      name = "bool" ∧ p = (1, some 1) ∨ name = "int" ∧ p = (1, some 2) := by
  unfold arity? at h
  split at h <;> simp_all

/-- A built-in call, other than `int(x, w)`, over lowered arguments of a count its arity allows. -/
theorem applyBuiltin_lowered {name : String} {least : Nat} {most : Option Nat} {ids : List Int}
    (h : Lowered s₀ s ids) (harity : arity? name = some (least, most))
    (hcount : outsideArity ids.length least most = false) (hint : name = "int" → ids.length ≠ 2) :
    Post (applyBuiltin name ids) s fun id s' => Lowered s₀ s' [id] := by
  unfold applyBuiltin
  split_ifs with hany
  · exact Post.pure (h.abandon (by simpa using hany) _)
  rcases arity?_cases harity with ⟨rfl, hp⟩ | ⟨rfl, hp⟩ | ⟨rfl, hp⟩ | ⟨rfl, hp⟩ | ⟨rfl, hp⟩ <;>
    simp only [Prod.mk.injEq] at hp <;> obtain ⟨rfl, rfl⟩ := hp <;> simp [outsideArity] at hcount
  · obtain ⟨c, t, f, rfl⟩ := List.length_eq_three.mp (show ids.length = 3 by omega)
    exact emit_lowered (fun _ => rfl) h fun _ =>
      ⟨Node.formed_of_operands .query rfl (by decide) (by decide) (by decide) (by decide) rfl, rfl⟩
  · exact emit_lowered (fun _ => rfl) h fun _ =>
      ⟨Node.formed_of_parts rfl (by simpa using hcount), rfl⟩
  · obtain ⟨l, r, rfl⟩ := List.length_eq_two.mp (show ids.length = 2 by omega)
    exact emit_lowered (fun _ => rfl) h fun _ =>
      ⟨Node.formed_of_operands .asr rfl (by decide) (by decide) (by decide) (by decide) rfl, rfl⟩
  · obtain ⟨x, rfl⟩ := List.length_eq_one_iff.mp
      (show ids.length = 1 by have := List.length_pos_iff.mpr hcount.1; omega)
    exact emit_lowered (fun _ => rfl) h fun _ =>
      ⟨Node.formed_of_operands .toBool rfl (by decide) (by decide) (by decide) (by decide) rfl, rfl⟩
  · obtain ⟨x, rfl⟩ := List.length_eq_one_iff.mp
      (show ids.length = 1 by have := List.length_pos_iff.mpr hcount.1; have := hint rfl; omega)
    exact emit_lowered (fun _ => rfl) h fun _ => ⟨Node.formed_of_target rfl le_rfl rfl, rfl⟩

theorem fail_lowered (s : LowerState) (off : Nat) (msg : String) :
    Post (fail off msg) s fun id s' => Lowered s s' [id] :=
  (fail_counted (Lowered.refl s) off msg).conseq fun _ _ h => h.2 _

theorem leaf_lowered (s : LowerState) {f : Arena → Arena × NodeId} {n : Node} (hf : ∀ a, f a = a.push n)
    (hn : n.Formed) (ha : n.args = #[]) : Post (emit f) s fun id s' => Lowered s s' [id] :=
  emit_lowered hf (Lowered.refl s) fun _ => ⟨hn, by simp [ha]⟩

theorem unaryKind?_formed {op : Token} {k : Kind} (h : unaryKind? op = some k) (x : Int) :
    Node.Formed { kind := k, args := #[x] } := by
  have hk : k ∈ Kind.known ∧ k ≠ .concat ∧ k ≠ .toInt ∧ k ≠ .bitField ∧ k.operands = some 1 := by
    cases op <;> simp [unaryKind?] at h <;> subst h <;> decide
  exact Node.formed_of_operands k rfl hk.1 hk.2.1 hk.2.2.1 hk.2.2.2.1 hk.2.2.2.2

theorem binaryKind?_formed {op : Token} {k : Kind} (h : binaryKind? op = some k) (l r : Int) :
    Node.Formed { kind := k, args := #[l, r] } := by
  have hk : k ∈ Kind.known ∧ k ≠ .concat ∧ k ≠ .toInt ∧ k ≠ .bitField ∧ k.operands = some 2 := by
    cases op <;> simp [binaryKind?] at h <;> subst h <;> decide
  exact Node.formed_of_operands k rfl hk.1 hk.2.1 hk.2.2.1 hk.2.2.2.1 hk.2.2.2.2

mutual

/-- Lowering a tree counts only the errors it reports, and when it counts none it appends a tree of
formed nodes rooted at the id it gives. -/
theorem treeAt_lowered : ∀ (outer : Nat) (t : Tree) (s : LowerState),
    Post (treeAt outer t) s fun id s' => Lowered s s' [id]
  | outer, .paren _ x, s => by
    rw [treeAt.eq_def]
    dsimp only
    exact treeAt_lowered outer x s
  | _, .ident _ name, s => by
    rw [treeAt.eq_def]
    dsimp only
    split_ifs
    · exact leaf_lowered s (fun _ => rfl)
        (Node.formed_of_operands .true rfl (by decide) (by decide) (by decide) (by decide) rfl) rfl
    · exact leaf_lowered s (fun _ => rfl)
        (Node.formed_of_operands .false rfl (by decide) (by decide) (by decide) (by decide) rfl) rfl
    · exact leaf_lowered s (fun _ => rfl)
        (Node.formed_of_operands .var rfl (by decide) (by decide) (by decide) (by decide) rfl) rfl
  | _, .literal p kind v, s => by
    rw [treeAt.eq_def]
    dsimp only
    split_ifs
    · exact fail_lowered s _ _
    · split
      · exact leaf_lowered s (fun _ => rfl)
          (Node.formed_of_operands .int rfl (by decide) (by decide) (by decide) (by decide) rfl) rfl
      · exact fail_lowered s _ _
  | _, .unary p op x, s => by
    rw [treeAt.eq_def]
    dsimp only
    split
    · exact fail_lowered s _ _
    · rename_i k hk
      refine Post.bind (treeAt_lowered x.pos x s) fun y s₁ h₁ => ?_
      split_ifs with hy
      · exact Post.pure (h₁.abandon (List.mem_singleton.mpr (beq_iff_eq.mp hy).symm) _)
      · exact emit_lowered (fun _ => rfl) h₁ fun _ => ⟨unaryKind?_formed hk y, rfl⟩
  | _, .binary x p op y, s => by
    rw [treeAt.eq_def]
    dsimp only
    split
    · exact fail_lowered s _ _
    · rename_i k hk
      refine Post.bind (treeAt_lowered x.pos x s) fun l s₁ h₁ => ?_
      refine Post.bind (treeAt_lowered y.pos y s₁) fun r s₂ h₂ => ?_
      split_ifs with hlr
      · refine Post.pure ((h₁.trans h₂).abandon ?_ _)
        simp only [Bool.or_eq_true, beq_iff_eq] at hlr
        rcases hlr with rfl | rfl <;> simp
      · exact emit_lowered (fun _ => rfl) (h₁.trans h₂) fun _ => ⟨binaryKind?_formed hk l r, rfl⟩
  | _, .slice x low high three, s => by
    rw [treeAt.eq_def]
    dsimp only
    split
    · refine Post.bind (index_read _ s) fun hi s₁ h₁ => Post.bind (index_read _ s₁) fun lo s₂ h₂ => ?_
      split
      · rename_i hi lo
        refine emit_lowered (fun _ => rfl) (h₁.lowered.trans h₂.lowered) fun _ =>
          ⟨Node.formed_of_field rfl (h₂.nonneg lo rfl) (h₁.nonneg hi rfl) rfl, rfl⟩
      · rename_i hne
        refine Post.pure ((h₁.lowered.trans h₂.lowered).giveUp ?_ _)
        have := h₂.lowered.counted
        have := h₁.lowered.counted
        cases hi with
        | none => have := h₁.missing rfl; omega
        | some i =>
          cases lo with
          | none => have := h₂.missing rfl; omega
          | some j => exact absurd rfl (hne i j rfl)
    · exact fail_lowered s _ _
  | _, .index x i, s => by
    rw [treeAt.eq_def]
    dsimp only
    split
    · refine Post.bind (index_read _ s) fun b s₁ h₁ => ?_
      split
      · rename_i b
        exact emit_lowered (fun _ => rfl) h₁.lowered fun _ =>
          ⟨Node.formed_of_field rfl (h₁.nonneg b rfl) (h₁.nonneg b rfl) rfl, rfl⟩
      · exact Post.pure (h₁.lowered.giveUp (h₁.missing rfl) _)
    · exact fail_lowered s _ _
  | _, .call fn args, s => by
    rw [treeAt.eq_def]
    dsimp only
    split
    · split
      · exact fail_lowered s _ _
      · rename_i name _ least most harity
        split_ifs with hout
        · exact fail_lowered s _ _
        · split
          · rename_i x wArg
            refine Post.bind (treeAt_lowered x.pos x s) fun y s₁ h₁ => ?_
            refine Post.bind (index_read wArg s₁) fun w s₂ h₂ => ?_
            exact sized_lowered (h₁.trans h₂.lowered)
              (fun hw => Nat.lt_of_le_of_lt h₁.counted (h₂.missing hw)) h₂.nonneg _
          · rename_i hnot
            refine Post.bind (lowerAll_lowered args s) fun ids s₁ ⟨h₁, hlen⟩ => ?_
            refine applyBuiltin_lowered h₁ harity (by simpa [hlen] using hout) fun hname hids => ?_
            obtain ⟨x, wArg, rfl⟩ := List.length_eq_two.mp (hlen ▸ hids)
            exact hnot x wArg hname rfl
    · exact fail_lowered s _ _
  | _, .bad _, s | _, .selector _ _, s | _, .typeAssert _, s | _, .indexList _, s | _, .star _ _, s
  | _, .chanType _ _ _ _, s | _, .composite _ _, s | _, .other _ _, s => by
    rw [treeAt.eq_def]
    dsimp only
    exact fail_lowered s _ _

theorem lowerAll_lowered : ∀ (ts : List Tree) (s : LowerState),
    Post (lowerAll ts) s fun ids s' => Lowered s s' ids ∧ ids.length = ts.length
  | [], s => Post.pure ⟨Lowered.refl s, rfl⟩
  | t :: ts, s => by
    rw [lowerAll]
    refine Post.bind (treeAt_lowered t.pos t s) fun x s₁ h₁ => ?_
    refine Post.bind (lowerAll_lowered ts s₁) fun xs s₂ ⟨h₂, hlen⟩ => ?_
    exact Post.pure ⟨h₁.trans h₂, by simp [hlen]⟩

end

end Lower

end BitSynth.Source

namespace BitSynth.Arena

open CheckState

variable {lm : LeafMap} {s : CheckState} {id : NodeId} {n : Node}

theorem checkArity_of_arity
    (ha : if n.kind = .concat then n.args.size ≠ 0 else n.kind.operands = some n.args.size) :
    checkArity s id n = s := by
  unfold checkArity
  by_cases hc : n.kind = .concat
  · rw [if_pos hc] at ha
    have he : n.args.isEmpty = false := by simpa using ha
    simp [hc, he]
  · rw [if_neg hc] at ha
    simp [hc, ha]

/-- A signal or bit-field bound as validation asks passes the binding check with no error. -/
theorem checkSignal_errors (hb : n.Bound lm id) (hk : n.kind = .var ∨ n.kind = .bitField) :
    (checkSignal lm s id n).errors = s.errors := by
  obtain ⟨l, hl, hw⟩ := hb.signal hk
  unfold checkSignal
  rw [hl]
  dsimp only
  rw [if_neg (by omega)]
  split_ifs with hf hlo hge hhi
  · obtain ⟨h₀, h₁, -⟩ := hb.field (by simpa using hf) l hl
    simp only [Bool.or_eq_true, decide_eq_true_eq] at hlo
    omega
  · obtain ⟨-, -, h₂⟩ := hb.field (by simpa using hf) l hl
    omega
  · rfl
  · rfl
  · rfl

theorem checkBinding_errors (hb : n.Bound lm id) : (checkBinding lm s id n).errors = s.errors := by
  unfold checkBinding
  split
  · exact checkSignal_errors hb (.inl ‹_›)
  · exact checkSignal_errors hb (.inr ‹_›)
  case h_3 | h_4 | h_5 =>
    rename_i hk
    split
    · rename_i l hl
      have := hb.const (by simp [hk, Kind.isConst]) l hl
      rw [if_neg (by omega)]
    · rfl
  · rename_i hk
    rw [if_neg (by have := hb.target hk; omega)]
  · rfl

theorem checkNode_errors (hc : n.Checked lm id) : (checkNode lm s id n).errors = s.errors := by
  rw [checkNode, checkBinding_errors hc.bound, checkArity_of_arity hc.arity]

/-- Validation is complete: below a node under which every node exists and passes the node checks,
the depth-first check finds no error, whatever it visited before and however much fuel it has. -/
theorem checkWithin_errors {a : Arena} :
    ∀ fuel id s, a.CheckedBelow lm id → (a.checkWithin lm fuel id s).errors = s.errors
  | 0, _, _, _ => rfl
  | fuel + 1, id, s, hc => by
    unfold checkWithin
    split_ifs with hseen
    · rfl
    obtain ⟨n, hn, hnc⟩ := hc id .root
    simp only [hn]
    rw [← Array.foldl_toList]
    -- each operand is checked in turn, everything below it passing
    have hfold : ∀ xs : List NodeId, (∀ x ∈ xs, x ∈ n.args) → ∀ s',
        (xs.foldl (fun s arg => a.checkWithin lm fuel arg s) s').errors = s'.errors := by
      intro xs
      induction xs with
      | nil => exact fun _ _ => rfl
      | cons x xs ih =>
        intro hxs s'
        rw [List.foldl_cons, ih (fun y hy => hxs y (List.mem_cons_of_mem x hy)),
          checkWithin_errors fuel x s' fun y hy => hc y (Below.head hn (hxs x List.mem_cons_self) hy)]
    rw [hfold _ (fun x hx => by simpa using hx), checkNode_errors hnc, errors_mark]

end BitSynth.Arena

namespace BitSynth

theorem List.foldlM_guarded_inv {α σ : Type} {f : σ → α → Guarded σ} (I : List α → σ → Prop)
    (hstep : ∀ pre x s s', I pre s → (f s x).run = .ok (.ok s') → I (pre ++ [x]) s') :
    ∀ (xs pre : List α) (s s' : σ), I pre s → (xs.foldlM f s).run = .ok (.ok s') → I (pre ++ xs) s'
  | [], pre, s, s', hs, h => by
    simp only [List.foldlM_nil] at h
    cases h
    simpa using hs
  | x :: xs, pre, s, s', hs, h => by
    rw [List.foldlM_cons] at h
    obtain ⟨s₁, h₁, h₂⟩ := Verilog.guarded_bind_ok h
    simpa using List.foldlM_guarded_inv I hstep xs (pre ++ [x]) s₁ s' (hstep pre x s s₁ hs h₁) h₂

namespace LeafMap

/-- `m` binds `y` in one of its entries. -/
def Binds (m : LeafMap) (y : NodeId) : Prop := ∃ e ∈ m.entries, e.1 = y

theorem mem_insert {m : LeafMap} {id : NodeId} {l : Leaf} {e : NodeId × Leaf}
    (he : e ∈ (m.insert id l).entries) : e = (id, l) ∨ e ∈ m.entries := by
  unfold insert at he
  split_ifs at he
  · obtain ⟨e', he', rfl⟩ := List.mem_map.mp he
    split_ifs with heq
    · exact .inl rfl
    · exact .inr he'
  · simpa [or_comm] using he

theorem binds_insert {m : LeafMap} {id y : NodeId} {l : Leaf} (h : y = id ∨ m.Binds y) :
    (m.insert id l).Binds y := by
  unfold insert
  split_ifs with hany
  · rcases h with rfl | ⟨e, he, rfl⟩
    · obtain ⟨e, he, hid⟩ := List.any_eq_true.mp hany
      exact ⟨_, List.mem_map_of_mem he, by simp [hid]⟩
    · refine ⟨_, List.mem_map_of_mem he, ?_⟩
      split_ifs with heq
      · exact (beq_iff_eq.mp heq).symm
      · rfl
  · rcases h with rfl | ⟨e, he, rfl⟩
    · exact ⟨(y, l), by simp, rfl⟩
    · exact ⟨e, by simp [he], rfl⟩

theorem find?_of_binds {m : LeafMap} {y : NodeId} (h : m.Binds y) : ∃ l, m.find? y = some l := by
  obtain ⟨e, he, rfl⟩ := h
  obtain ⟨e', he'⟩ : ∃ e', m.entries.find? (·.1 == e.1) = some e' :=
    Option.isSome_iff_exists.mp (List.find?_isSome.mpr ⟨e, he, by simp⟩)
  exact ⟨e'.2, by simp [find?, he']⟩

theorem mem_of_find? {m : LeafMap} {y : NodeId} {l : Leaf} (h : m.find? y = some l) :
    ∃ e ∈ m.entries, e.2 = l := by
  obtain ⟨e, he, rfl⟩ := Option.map_eq_some_iff.mp h
  exact ⟨e, List.mem_of_find?_eq_some he, rfl⟩

theorem eq_of_bindings {m : LeafMap} {l : List (NodeId × String × Int)}
    (h : m.entries.map (fun e => (e.1, e.2.name, e.2.width)) = l) :
    m = ⟨l.map fun e => (e.1, ⟨e.2.1, e.2.2⟩)⟩ := by
  subst h
  simp [List.map_map, Function.comp_def]

end LeafMap

theorem WidthTable.find?_pos {t : WidthTable} (h : ∀ e ∈ t.entries, 0 < e.2) {name : String} {w : Int}
    (hw : t.find? name = some w) : 0 < w := by
  obtain ⟨e, he, rfl⟩ := Option.map_eq_some_iff.mp hw
  exact h e (List.mem_of_find?_eq_some he)

namespace Arena

variable {a : Arena} {root : NodeId} {widths : WidthTable} {lm : LeafMap}

/-- Binding signals, when it succeeds, binds every signal the walk below the root lists, each to a
leaf of a declared width. -/
theorem bindSignals_binds (h : (a.bindSignals root widths).run = .ok (.ok lm)) :
    ∃ ids, a.signals root = .ok ids ∧ (∀ y ∈ ids, lm.Binds y) ∧
      ∀ e ∈ lm.entries, widths.find? e.2.name = some e.2.width := by
  unfold bindSignals at h
  obtain ⟨ids, hids, hfold⟩ := Verilog.guarded_bind_ok h
  refine ⟨ids, Verilog.ofChecked_ok hids, ?_⟩
  rw [← Array.foldlM_toList] at hfold
  -- the loop binds each signal it has passed, to a declared width
  have := List.foldlM_guarded_inv
    (fun pre m => (∀ y ∈ pre, m.Binds y) ∧ ∀ e ∈ m.entries, widths.find? e.2.name = some e.2.width)
    (fun pre x m m' ⟨hpre, hw⟩ hx => by
      obtain ⟨n, -, hn⟩ := Verilog.guarded_bind_ok hx
      split at hn
      · rename_i w hw'
        cases hn
        refine ⟨fun y hy => ?_, fun e he => ?_⟩
        · rcases List.mem_append.mp hy with hy | hy
          · exact LeafMap.binds_insert (.inr (hpre y hy))
          · exact LeafMap.binds_insert (.inl (List.mem_singleton.mp hy))
        · rcases LeafMap.mem_insert he with rfl | he
          · exact hw'
          · exact hw e he
      · cases hn)
    ids.toList [] {} lm ⟨by simp, by simp⟩ hfold
  exact ⟨fun y hy => this.1 y (by simpa using hy), this.2⟩

theorem reaches_of_below
    (hleaf : ∀ y n, a.Below root y → a.node? y = some n → n.kind.isLeaf = true → n.args = #[])
    {y : NodeId} (hy : a.Below root y) : a.Reaches root y := by
  induction hy with
  | root => exact .root
  | @arg id x n hb hn hx ih =>
    cases hk : n.kind.isLeaf with
    | true => simp [hleaf id n hb hn hk] at hx
    | false => exact .arg ih hn hk hx

/-- On an acyclic graph whose nodes below the root exist and whose leaves there list no operands,
the walk lists every signal and bit-field below the root. -/
theorem mem_signals (hacyc : a.Acyclic)
    (hnodes : ∀ y, a.Below root y → ∃ n, a.node? y = some n)
    (hleaf : ∀ y n, a.Below root y → a.node? y = some n → n.kind.isLeaf = true → n.args = #[])
    {ids : Array NodeId} (hids : a.signals root = .ok ids) {y : NodeId} {n : Node} (hy : a.Below root y)
    (hn : a.node? y = some n) (hk : n.kind = .var ∨ n.kind = .bitField) : y ∈ ids := by
  obtain ⟨T, hT⟩ := spans_of_present hacyc fun y hr => hnodes y hr.toBelow
  rw [hT.signals_eq hacyc, Except.ok.injEq] at hids
  subst hids
  have hleafy : n.kind.isLeaf = true := by rcases hk with h | h <;> simp [h, Kind.isLeaf]
  have hmem : y ∈ T.leafIds := hT.mem_leafIds.mpr ⟨reaches_of_below hleaf hy, n, hn, hleafy⟩
  have hsig : a.isSignal y = true := by rcases hk with h | h <;> simp [isSignal, hn, h]
  simpa [hsig] using hmem

end Arena

end BitSynth

namespace BitSynth

namespace Arena.Forest

variable {a a' : Arena} {root : Int} {widths : WidthTable} {lm : LeafMap}

/-- Validation of a tree appended to any arena, with the signals bound to declared widths that are
all positive, refuses exactly the bit-fields whose range is empty or starts past their source. -/
theorem check_ok_iff (h : Forest a a' [root])
    (hwidths : ∀ name w, widths.find? name = some w → 0 < w)
    (hbind : (a'.bindSignals root widths).run = .ok (.ok lm)) (r : Reporter) :
    (a'.check root lm (some r)).2 = .ok () ↔
      ∀ y n l, a'.Below root y → a'.node? y = some n → n.kind = .bitField → lm.find? y = some l →
        n.lo ≤ n.hi ∧ n.lo < l.width := by
  obtain ⟨ids, hids, hbound, hdeclared⟩ := bindSignals_binds hbind
  -- every leaf bound is of a declared width, so positive
  have hpos : ∀ y l, lm.find? y = some l → 0 < l.width := fun y l hl => by
    obtain ⟨e, he, rfl⟩ := LeafMap.mem_of_find? hl
    exact hwidths _ _ (hdeclared e he)
  -- the old nodes play no part below the root: stripped of their operands they leave an acyclic
  -- graph on which the check and the signal walk run alike
  have hagree : ∀ y, a'.Below root y → (a'.unlinkBefore a.size).node? y = a'.node? y :=
    fun y hy => h.node?_unlinkBefore_below hy
  have hacyc := h.acyclic_unlinkBefore
  have hbelow : ∀ y, (a'.unlinkBefore a.size).Below root y ↔ a'.Below root y := fun y => below_congr hagree
  have hcheck : (a'.unlinkBefore a.size).check root lm (some r) = a'.check root lm (some r) :=
    check_congr (size_unlinkBefore _ _) hagree
  have hsig := signals_congr (size_unlinkBefore _ _) hagree (kind_unlinkBefore a' a.size)
  constructor
  · intro hc y n l hy hn hk hl
    rw [← hcheck] at hc
    obtain ⟨n', hn', hchecked⟩ := checkedBelow_of_check hacyc hc y ((hbelow y).mpr hy)
    rw [hagree y hy, hn, Option.some.injEq] at hn'
    subst hn'
    obtain ⟨-, h₁, h₂⟩ := hchecked.bound.field hk l hl
    exact ⟨h₁, h₂⟩
  · intro hfields
    -- below the root, the stripped graph has the formed nodes of the tree
    have hformed : ∀ y, (a'.unlinkBefore a.size).Below root y →
        ∃ n, (a'.unlinkBefore a.size).node? y = some n ∧ n.Formed := fun y hy => by
      rw [hbelow] at hy
      rw [hagree y hy]
      exact h.formed_below hy
    have hnodes : ∀ y, (a'.unlinkBefore a.size).Below root y → ∃ n, (a'.unlinkBefore a.size).node? y = some n :=
      fun y hy => (hformed y hy).imp fun _ h => h.1
    have hleaf : ∀ y n, (a'.unlinkBefore a.size).Below root y → (a'.unlinkBefore a.size).node? y = some n →
        n.kind.isLeaf = true → n.args = #[] := fun y n hy hn hk => by
      obtain ⟨n', hn', hf⟩ := hformed y hy
      rw [hn, Option.some.injEq] at hn'
      exact hn' ▸ hf.args_of_isLeaf (hn' ▸ hk)
    -- every node below the root passes the node checks
    have hchecked : a'.CheckedBelow lm root := fun y hy => by
      obtain ⟨n, hn, hf⟩ := h.formed_below hy
      have hy' := (hbelow y).mpr hy
      have hn' : (a'.unlinkBefore a.size).node? y = some n := (hagree y hy).trans hn
      refine ⟨n, hn, hf.regular.2, ?_⟩
      refine ⟨fun hk => ?_, fun hk l hl => ?_, fun _ l hl => hpos y l hl, hf.target⟩
      · obtain ⟨l, hl⟩ := LeafMap.find?_of_binds (hbound y (mem_signals hacyc hnodes hleaf
          (hsig.trans hids) hy' hn' hk))
        exact ⟨l, hl, hpos y l hl⟩
      · obtain ⟨h₁, h₂⟩ := hfields y n l hy hn hk hl
        exact ⟨(hf.field hk).1, h₁, h₂⟩
    obtain ⟨n, hn⟩ := (h.formed_below .root).imp fun _ h => h.1
    unfold check
    rw [if_neg (by simp [valid_of_node? hn])]
    dsimp only
    rw [if_neg (by rw [checkWithin_errors _ _ _ hchecked]; simp)]

end Arena.Forest

end BitSynth

namespace BitSynth.Source

/-- What reading a source into `a` with the reporter `r` gave, as the arena `a'`, the reporter `r'`
and the outcome `res`: it fails exactly when it reported an error, and when it succeeds the nodes it
appended form a tree of formed nodes rooted at the id it gives. -/
structure ReadInto (a : Arena) (r : Reporter) (a' : Arena) (r' : Reporter) (res : Except Error NodeId) :
    Prop where
  fails : (∃ e, res = .error e) ↔ r.errorCount < r'.errorCount
  tree : ∀ root, res = .ok root → a.Forest a' [root]

theorem parseInto_readInto (a : Arena) (src : String) (r : Reporter) :
    ReadInto a r (parseInto a src r).1 (parseInto a src r).2.1 (parseInto a src r).2.2 := by
  unfold parseInto
  split
  · -- a syntax error is reported as one diagnostic
    exact ⟨⟨fun _ => by simp, fun _ => ⟨_, rfl⟩⟩, fun _ h => by cases h⟩
  · rename_i t _
    have hl : Lower.Post (Lower.tree t) { arena := a, reporter := r, starts := lineStarts src }
        fun id s' => Lowered _ s' [id] := Lower.treeAt_lowered t.pos t _
    unfold Lower.Post at hl
    rcases hrun : (Lower.tree t).run { arena := a, reporter := r, starts := lineStarts src } with ⟨root, s⟩
    rw [hrun] at hl
    have hrep := hl.reported
    simp only at hrep
    simp only [hrun]
    split_ifs with herr
    · exact ⟨⟨fun _ => show r.errorCount < s.reporter.errorCount by omega, fun _ => ⟨_, rfl⟩⟩,
        fun _ h => by cases h⟩
    · have he : s.errors = 0 := by omega
      refine ⟨⟨fun ⟨_, h⟩ => (by cases h), fun h => ?_⟩, fun root' h => ?_⟩
      · change r.errorCount < s.reporter.errorCount at h
        omega
      cases h
      exact (hl.built he).1

/-- The frontend builds only well-formed trees. Reading a source into any arena fails exactly when
it reported an error diagnostic; when it succeeds, the nodes it appended form a tree of formed nodes
rooted at the id it gives, and validation of that tree, with its signals bound to positive widths
declared for all of their names, refuses exactly the bit-fields whose range is empty or starts past
their source. -/
theorem parseInto_builds_well_formed_trees (a : Arena) (src : String) (r : Reporter) :
    ReadInto a r (parseInto a src r).1 (parseInto a src r).2.1 (parseInto a src r).2.2 ∧
    ∀ root, (parseInto a src r).2.2 = .ok root →
      ∀ (widths : WidthTable) (lm : LeafMap) (r₀ : Reporter),
        (∀ name w, widths.find? name = some w → 0 < w) →
        ((parseInto a src r).1.bindSignals root widths).run = .ok (.ok lm) →
        (((parseInto a src r).1.check root lm (some r₀)).2 = .ok () ↔
          ∀ y n l, (parseInto a src r).1.Below root y → (parseInto a src r).1.node? y = some n →
            n.kind = .bitField → lm.find? y = some l → n.lo ≤ n.hi ∧ n.lo < l.width) := by
  refine ⟨parseInto_readInto a src r, fun root hroot widths lm r₀ hwidths hbind => ?_⟩
  exact ((parseInto_readInto a src r).tree root hroot).check_ok_iff hwidths hbind r₀

/-- `a + b[3:1]` read into an empty arena, with four-bit `a` and `b`. -/
theorem field_sum_validates_within_range :
    (parseInto {} "a + b[3:1]" {}).2.2 = .ok 2 ∧
    (((parseInto {} "a + b[3:1]" {}).1.check 2 ⟨[(0, ⟨"a", 4⟩), (1, ⟨"b", 4⟩)]⟩ (some {})).2 = .ok () ↔
      ∀ y n l, (parseInto {} "a + b[3:1]" {}).1.Below 2 y → (parseInto {} "a + b[3:1]" {}).1.node? y = some n →
        n.kind = .bitField → (⟨[(0, ⟨"a", 4⟩), (1, ⟨"b", 4⟩)]⟩ : LeafMap).find? y = some l →
        n.lo ≤ n.hi ∧ n.lo < l.width) := by
  -- the runs are evaluated through decidable views of their results
  have hroot : (parseInto {} "a + b[3:1]" {}).2.2 = .ok 2 := by
    have h : (parseInto {} "a + b[3:1]" {}).2.2.toOption = some 2 := by decide +kernel
    revert h
    cases (parseInto {} "a + b[3:1]" {}).2.2 <;> simp [Except.toOption]
  have hbind : ((parseInto {} "a + b[3:1]" {}).1.bindSignals 2 ⟨[("a", 4), ("b", 4)]⟩).run =
      .ok (.ok ⟨[(0, ⟨"a", 4⟩), (1, ⟨"b", 4⟩)]⟩) := by
    have h : (((parseInto {} "a + b[3:1]" {}).1.bindSignals 2 ⟨[("a", 4), ("b", 4)]⟩).run.toOption.bind
        Except.toOption).map (·.entries.map fun e => (e.1, e.2.name, e.2.width)) =
        some [(0, "a", 4), (1, "b", 4)] := by decide +kernel
    revert h
    rcases ((parseInto {} "a + b[3:1]" {}).1.bindSignals 2 ⟨[("a", 4), ("b", 4)]⟩).run with _ | _ | m <;>
      simp only [Except.toOption, Option.bind_none, Option.bind_some, Option.map_none, Option.map_some,
        reduceCtorEq, false_imp_iff, Option.some.injEq]
    intro h
    rw [LeafMap.eq_of_bindings h]
    rfl
  exact ⟨hroot, (parseInto_builds_well_formed_trees {} "a + b[3:1]" {}).2 2 hroot _ _ {}
    (fun _ _ => WidthTable.find?_pos (by decide)) hbind⟩

end BitSynth.Source
