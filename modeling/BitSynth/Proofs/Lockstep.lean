import Mathlib
import BitSynth.Proofs.Memoisation
import BitSynth.Proofs.Declaring

namespace BitSynth

namespace Term

variable {α : Type}

/-- The trees of the operands of the top node; none for a leaf. -/
def children : Term α → List (Term α)
  | var .. | int .. | bool .. | bitField .. => []
  | unary _ _ x | toBool _ x | toInt _ x _ => [x]
  | binary _ _ l r => [l, r]
  | query _ c t e => [c, t, e]
  | concat _ ps => ps

/-- Whether the top node is a leaf: a signal, a bit-field or a constant. -/
def isLeaf : Term α → Bool
  | var .. | int .. | bool .. | bitField .. => true
  | _ => false

mutual
/-- The tags of all nodes, each node before the nodes below it. -/
def tags : Term α → List α
  | var a _ | int a _ | bool a _ | bitField a _ _ _ => [a]
  | unary a _ x | toBool a x | toInt a x _ => a :: x.tags
  | binary a _ l r => a :: (l.tags ++ r.tags)
  | query a c t e => a :: (c.tags ++ t.tags ++ e.tags)
  | concat a ps => a :: tagsList ps
/-- `tags` of a list of trees, joined. -/
def tagsList : List (Term α) → List α
  | [] => []
  | t :: ts => t.tags ++ tagsList ts
end

@[simp] theorem tagsList_eq (ps : List (Term α)) : tagsList ps = ps.flatMap tags := by
  induction ps with
  | nil => rfl
  | cons p ps ih => simp [tagsList, ih]

theorem tags_eq (t : Term α) : t.tags = t.tag :: t.children.flatMap tags := by
  cases t <;> simp [tags, children, tag]

theorem leafTags_of_isLeaf {t : Term α} (h : t.isLeaf = Bool.true) : t.leafTags = [t.tag] := by
  cases t <;> simp_all [isLeaf, leafTags, tag]

theorem leafTags_of_not_isLeaf {t : Term α} (h : t.isLeaf = Bool.false) :
    t.leafTags = t.children.flatMap leafTags := by
  cases t <;> simp_all [isLeaf, leafTags, children]

theorem depth_lt_of_mem_children {t u : Term α} (hu : u ∈ t.children) : u.depth < t.depth := by
  cases t with
  | var | int | bool | bitField => simp [children] at hu
  | unary _ _ x | toBool _ x | toInt _ x _ =>
    obtain rfl := List.mem_singleton.mp hu
    simp [depth]
  | binary _ _ l r =>
    simp only [children, List.mem_cons, List.not_mem_nil, or_false] at hu
    rcases hu with rfl | rfl <;> simp only [depth] <;> omega
  | query _ c t e =>
    simp only [children, List.mem_cons, List.not_mem_nil, or_false] at hu
    rcases hu with rfl | rfl | rfl <;> simp only [depth] <;> omega
  | concat _ ps =>
    have := depth_le_depthList (show u ∈ ps from hu)
    simp only [depth]
    omega

/-- What lowering reads of a node, as a node: its kind, and the value, the bit indices or the
target width where its kind has one. -/
def head : Term α → Node
  | var .. => { kind := .var }
  | int _ v => { kind := .int, value := v }
  | bool _ b => { kind := if b then .true else .false }
  | bitField _ _ hi lo => { kind := .bitField, hi, lo }
  | unary _ k _ => { kind := k }
  | binary _ k _ _ => { kind := k }
  | query .. => { kind := .query }
  | concat .. => { kind := .concat }
  | toBool .. => { kind := .toBool }
  | toInt _ _ w => { kind := .toInt, width := w }

/-- The shape of a tree: the tree with its tags and its signal names forgotten. -/
def shape (t : Term α) : Term Unit := (t.rename fun _ => "").erase

theorem head_shape (t : Term α) : t.shape.head = t.head := by
  cases t <;> rfl

theorem isLeaf_shape (t : Term α) : t.shape.isLeaf = t.isLeaf := by
  cases t <;> rfl

theorem children_shape (t : Term α) : t.shape.children = t.children.map shape := by
  cases t <;> simp [shape, erase, rename, map, children]

variable {β : Type}

mutual
@[simp] theorem leafTags_map (f : α → β) : (t : Term α) → (t.map f).leafTags = t.leafTags.map f
  | var .. | bitField .. | int .. | bool .. => rfl
  | unary _ _ x => by simp only [map, leafTags, leafTags_map f x]
  | binary _ _ l r => by simp only [map, leafTags, leafTags_map f l, leafTags_map f r, List.map_append]
  | query _ c t e => by
    simp only [map, leafTags, leafTags_map f c, leafTags_map f t, leafTags_map f e, List.map_append]
  | concat _ ps => by simp only [map, leafTags, leafTagsList_mapList f ps]
  | toBool _ x => by simp only [map, leafTags, leafTags_map f x]
  | toInt _ x _ => by simp only [map, leafTags, leafTags_map f x]
theorem leafTagsList_mapList (f : α → β) : (ps : List (Term α)) →
    leafTagsList (mapList f ps) = (leafTagsList ps).map f
  | [] => rfl
  | p :: ps => by
    simp only [mapList, leafTagsList, leafTags_map f p, leafTagsList_mapList f ps, List.map_append]
end

mutual
@[simp] theorem leafTags_rename (r : String → String) : (t : Term α) → (t.rename r).leafTags = t.leafTags
  | var .. | bitField .. | int .. | bool .. => rfl
  | unary _ _ x => by simp only [rename, leafTags, leafTags_rename r x]
  | binary _ _ l r' => by simp only [rename, leafTags, leafTags_rename r l, leafTags_rename r r']
  | query _ c t e => by
    simp only [rename, leafTags, leafTags_rename r c, leafTags_rename r t, leafTags_rename r e]
  | concat _ ps => by simp only [rename, leafTags, leafTagsList_renameList r ps]
  | toBool _ x => by simp only [rename, leafTags, leafTags_rename r x]
  | toInt _ x _ => by simp only [rename, leafTags, leafTags_rename r x]
theorem leafTagsList_renameList (r : String → String) : (ps : List (Term α)) →
    leafTagsList (renameList r ps) = leafTagsList ps
  | [] => rfl
  | p :: ps => by simp only [renameList, leafTagsList, leafTags_rename r p, leafTagsList_renameList r ps]
end

theorem length_leafTags_shape (t : Term α) : t.shape.leafTags.length = t.leafTags.length := by
  simp [shape, erase]

end Term

/-- Nodes that lower alike: one kind, and the same value, bit indices or target width where their
kind reads one. -/
structure Node.LowersLike (n₁ n₂ : Node) : Prop where
  kind : n₁.kind = n₂.kind
  value : n₁.kind = .int → n₁.value = n₂.value
  slice : n₁.kind = .bitField → n₁.hi = n₂.hi ∧ n₁.lo = n₂.lo
  target : n₁.kind = .toInt → n₁.width = n₂.width

namespace Node.LowersLike

variable {n₁ n₂ n₃ : Node}

theorem symm (h : n₁.LowersLike n₂) : n₂.LowersLike n₁ :=
  ⟨h.kind.symm, fun hk => (h.value (h.kind ▸ hk)).symm,
    fun hk => ⟨(h.slice (h.kind ▸ hk)).1.symm, (h.slice (h.kind ▸ hk)).2.symm⟩,
    fun hk => (h.target (h.kind ▸ hk)).symm⟩

theorem trans (h₁ : n₁.LowersLike n₂) (h₂ : n₂.LowersLike n₃) : n₁.LowersLike n₃ :=
  ⟨h₁.kind.trans h₂.kind, fun hk => (h₁.value hk).trans (h₂.value (h₁.kind ▸ hk)),
    fun hk => ⟨(h₁.slice hk).1.trans (h₂.slice (h₁.kind ▸ hk)).1,
      (h₁.slice hk).2.trans (h₂.slice (h₁.kind ▸ hk)).2⟩,
    fun hk => (h₁.target hk).trans (h₂.target (h₁.kind ▸ hk))⟩

theorem of_kind (hk : n₁.kind = n₂.kind) (hi : n₁.kind ≠ .int) (hb : n₁.kind ≠ .bitField)
    (ht : n₁.kind ≠ .toInt) : n₁.LowersLike n₂ :=
  ⟨hk, fun h => absurd h hi, fun h => absurd h hb, fun h => absurd h ht⟩

end Node.LowersLike

namespace Arena

variable {a : Arena}

/-- The node at the top of an unfolded tree lowers as the tree's head says, is a leaf exactly when
the tree is, and takes as operands the tops of the tree's children, which unfold to them. -/
theorem Unfolds.lowers {id : NodeId} {t : Term NodeId} (h : a.Unfolds id t) :
    ∃ n, a.node? id = some n ∧ n.LowersLike t.head ∧ n.kind.isLeaf = t.isLeaf ∧
      n.args.toList = t.children.map Term.tag ∧ ∀ u ∈ t.children, a.Unfolds u.tag u := by
  cases h with
  | var hn hk ha =>
    exact ⟨_, hn, .of_kind hk (by simp [hk]) (by simp [hk]) (by simp [hk]), by rw [hk]; rfl,
      by simp [ha, Term.children], by simp [Term.children]⟩
  | int hn hk ha =>
    exact ⟨_, hn, ⟨hk, fun _ => rfl, by simp [hk], by simp [hk]⟩, by rw [hk]; rfl,
      by simp [ha, Term.children], by simp [Term.children]⟩
  | @bool _ _ b hn hk ha =>
    exact ⟨_, hn, .of_kind hk (by cases b <;> simp [hk]) (by cases b <;> simp [hk]) (by cases b <;> simp [hk]),
      by cases b <;> rw [hk] <;> rfl, by simp [ha, Term.children], by simp [Term.children]⟩
  | bitField hn hk ha =>
    exact ⟨_, hn, ⟨hk, by simp [hk], fun _ => ⟨rfl, rfl⟩, by simp [hk]⟩, by rw [hk]; rfl,
      by simp [ha, Term.children], by simp [Term.children]⟩
  | unary hn hk ha hx =>
    rename_i n _
    obtain ⟨hi, hb, ht⟩ : n.kind ≠ .int ∧ n.kind ≠ .bitField ∧ n.kind ≠ .toInt := by
      rcases Kind.unary_cases hk with h | h | h <;> simp [h]
    refine ⟨_, hn, .of_kind rfl hi hb ht, Kind.isLeaf_of_isUnary hk, by simp [ha, Term.children, hx.tag_eq], ?_⟩
    simpa [Term.children, hx.tag_eq] using hx
  | toBool hn hk ha hx =>
    refine ⟨_, hn, .of_kind hk (by simp [hk]) (by simp [hk]) (by simp [hk]), by rw [hk]; rfl,
      by simp [ha, Term.children, hx.tag_eq], ?_⟩
    simpa [Term.children, hx.tag_eq] using hx
  | toInt hn hk ha hx =>
    refine ⟨_, hn, ⟨hk, by simp [hk], by simp [hk], fun _ => rfl⟩, by rw [hk]; rfl,
      by simp [ha, Term.children, hx.tag_eq], ?_⟩
    simpa [Term.children, hx.tag_eq] using hx
  | binary hn hk ha hl hr =>
    rename_i n _ _
    obtain ⟨hi, hb, ht⟩ : n.kind ≠ .int ∧ n.kind ≠ .bitField ∧ n.kind ≠ .toInt := by
      rcases hk.cases with h | h | h | h | h | h | h | h | h | h | h | h | h | h | h | h | h <;> simp [h]
    refine ⟨_, hn, .of_kind rfl hi hb ht, hk.isLeaf, by simp [ha, Term.children, hl.tag_eq, hr.tag_eq], ?_⟩
    simp only [Term.children, List.mem_cons, List.not_mem_nil, or_false]
    rintro u (rfl | rfl)
    · simpa [hl.tag_eq] using hl
    · simpa [hr.tag_eq] using hr
  | query hn hk ha hc ht he =>
    refine ⟨_, hn, .of_kind hk (by simp [hk]) (by simp [hk]) (by simp [hk]), by rw [hk]; rfl,
      by simp [ha, Term.children, hc.tag_eq, ht.tag_eq, he.tag_eq], ?_⟩
    simp only [Term.children, List.mem_cons, List.not_mem_nil, or_false]
    rintro u (rfl | rfl | rfl)
    · simpa [hc.tag_eq] using hc
    · simpa [ht.tag_eq] using ht
    · simpa [he.tag_eq] using he
  | concat hn hk hne hlen hs =>
    rename_i n ts
    have hzip : ∀ p ∈ n.args.toList.zip ts, p.1 = p.2.tag := fun p hp => ((hs p hp).tag_eq).symm
    refine ⟨_, hn, .of_kind hk (by simp [hk]) (by simp [hk]) (by simp [hk]), by rw [hk]; rfl, ?_,
      fun u hu => ?_⟩
    · -- each operand is the top of the child it is zipped with
      have hl : n.args.toList.length = ts.length := by simp [hlen]
      apply List.ext_getElem (by simp [hl, Term.children])
      intro i h₁ h₂
      have := hzip _ (List.getElem_mem (l := n.args.toList.zip ts) (by simp [hl] at h₁ ⊢; omega))
      simpa [Term.children] using this
    · obtain ⟨x, hxu⟩ := List.exists_mem_zip_left (show n.args.toList.length = ts.length by simp [hlen])
        (show u ∈ ts from hu)
      have hx : x = u.tag := hzip _ hxu
      rw [← hx]
      exact hs _ hxu

end Arena

/-- The width of an operator depends only on what lowering reads of its node. -/
theorem operatorWidth_eq {n₁ n₂ : Node} (h : n₁.LowersLike n₂) (ws : Array Int) :
    operatorWidth n₁ ws = operatorWidth n₂ ws := by
  unfold operatorWidth
  rw [← h.kind]
  by_cases ht : n₁.kind = .toInt
  · rw [h.target ht]
  dsimp only
  by_cases hu : n₁.kind.isUnary = true
  · rw [if_pos hu, if_pos hu]
  rw [if_neg hu, if_neg hu]
  by_cases hc : n₁.kind.isCompare = true
  · rw [if_pos hc, if_pos hc]
  rw [if_neg hc, if_neg hc]
  -- every branch but that of `int()` reads the kind only
  split
  all_goals first | rfl | exact absurd ‹_› ht

/-- Leaves that lower alike get the same width from the same binding. -/
theorem leafWidth_ok_iff {n₁ n₂ : Node} (h : n₁.LowersLike n₂) (l : Option Leaf) (r : Int × Int) :
    leafWidth n₁ l = .ok r ↔ leafWidth n₂ l = .ok r := by
  unfold leafWidth
  rw [← h.kind]
  dsimp only
  split
  · rcases l with _ | l <;> simp
  · rename_i hb
    rw [(h.slice hb).1, (h.slice hb).2]
    rcases l with _ | l
    · simp
    · dsimp only
      split <;> simp
  all_goals rcases l with _ | l <;> simp

namespace Verilog

section Mirrors

variable {α β α' β' : Type} {x : Compiling α} {y : Compiling β} {c c₁ c₂ : Compiler}

theorem Runs.det {v w : α} {c' c'' : Compiler} (h₁ : Runs x c v c') (h₂ : Runs x c w c'') :
    v = w ∧ c' = c'' := by
  unfold Runs at h₁ h₂
  rw [h₁, Except.ok.injEq, Prod.mk.injEq, Except.ok.injEq] at h₂
  exact h₂

/-- `x` from `c₁` and `y` from `c₂` both fail, or both succeed with results related by `Q` in final
states related by `R`. -/
def Mirrors (R : Compiler → Compiler → Prop) (Q : α → β → Prop) (x : Compiling α) (y : Compiling β)
    (c₁ c₂ : Compiler) : Prop :=
  (∀ v c₁', Runs x c₁ v c₁' → ∃ w c₂', Runs y c₂ w c₂' ∧ Q v w ∧ R c₁' c₂') ∧
    ∀ w c₂', Runs y c₂ w c₂' → ∃ v c₁', Runs x c₁ v c₁'

variable {R R' : Compiler → Compiler → Prop} {Q : α → β → Prop} {Q' : α' → β' → Prop}

theorem Mirrors.pure {v : α} {w : β} (hq : Q v w) (hr : R c₁ c₂) :
    Mirrors R Q (Pure.pure v) (Pure.pure w) c₁ c₂ := by
  refine ⟨fun v' c' h => ?_, fun _ _ _ => ⟨v, c₁, runs_pure.mpr ⟨rfl, rfl⟩⟩⟩
  obtain ⟨rfl, rfl⟩ := runs_pure.mp h
  exact ⟨w, c₂, runs_pure.mpr ⟨rfl, rfl⟩, hq, hr⟩

theorem Mirrors.fail (hx : ∀ v c', ¬ Runs x c₁ v c') (hy : ∀ w c', ¬ Runs y c₂ w c') :
    Mirrors R Q x y c₁ c₂ :=
  ⟨fun v c' h => absurd h (hx v c'), fun w c' h => absurd h (hy w c')⟩

theorem Mirrors.throw (e₁ e₂ : Error) : Mirrors R Q (throw e₁) (throw e₂) c₁ c₂ :=
  .fail (fun _ _ => not_runs_throw) (fun _ _ => not_runs_throw)

/-- Computations that mirror each other, each followed by continuations that mirror each other from
related results and states, mirror each other. -/
theorem Mirrors.bind {f : α → Compiling α'} {g : β → Compiling β'} (hx : Mirrors R Q x y c₁ c₂)
    (hf : ∀ v w c₁' c₂', Q v w → R c₁' c₂' → Mirrors R' Q' (f v) (g w) c₁' c₂') :
    Mirrors R' Q' (x >>= f) (y >>= g) c₁ c₂ := by
  constructor
  · intro u c₁'' h
    obtain ⟨v, c₁', hx₁, hf₁⟩ := runs_bind.mp h
    obtain ⟨w, c₂', hy₁, hq, hr⟩ := hx.1 v c₁' hx₁
    obtain ⟨u', c₂'', hg₁, hq', hr'⟩ := (hf v w c₁' c₂' hq hr).1 u c₁'' hf₁
    exact ⟨u', c₂'', runs_bind.mpr ⟨w, c₂', hy₁, hg₁⟩, hq', hr'⟩
  · intro u c₂'' h
    obtain ⟨w, c₂', hy₁, hg₁⟩ := runs_bind.mp h
    obtain ⟨v, c₁', hx₁⟩ := hx.2 w c₂' hy₁
    -- the run of `y` that `x`'s run is matched with is the one we started from
    obtain ⟨w', c₂₁, hy₂, hq, hr⟩ := hx.1 v c₁' hx₁
    obtain ⟨rfl, rfl⟩ := hy₂.det hy₁
    obtain ⟨u', c₁'', hf₁⟩ := (hf v w' c₁' c₂₁ hq hr).2 u c₂'' hg₁
    exact ⟨u', c₁'', runs_bind.mpr ⟨v, c₁', hx₁, hf₁⟩⟩

theorem Mirrors.mono (h : Mirrors R Q x y c₁ c₂) (hr : ∀ c₁' c₂', R c₁' c₂' → R' c₁' c₂') :
    Mirrors R' Q x y c₁ c₂ := by
  refine ⟨fun v c₁' hv => ?_, h.2⟩
  obtain ⟨w, c₂', hy, hq, hR⟩ := h.1 v c₁' hv
  exact ⟨w, c₂', hy, hq, hr _ _ hR⟩

theorem Mirrors.get_bind {f : Compiler → Compiling α} {g : Compiler → Compiling β}
    (h : Mirrors R Q (f c₁) (g c₂) c₁ c₂) :
    Mirrors R Q (MonadState.get >>= f) (MonadState.get >>= g) c₁ c₂ := by
  have hget : ∀ c, Runs (MonadState.get : Compiling Compiler) c c c := fun c => runs_get.mpr ⟨rfl, rfl⟩
  refine ⟨fun v c₁' hv => ?_, fun w c₂' hw => ?_⟩
  · obtain ⟨_, _, hg, hf⟩ := runs_bind.mp hv
    obtain ⟨rfl, rfl⟩ := runs_get.mp hg
    obtain ⟨w, c₂', hy, hq, hR⟩ := h.1 v c₁' hf
    exact ⟨w, c₂', runs_bind.mpr ⟨c₂, c₂, hget c₂, hy⟩, hq, hR⟩
  · obtain ⟨_, _, hg, hf⟩ := runs_bind.mp hw
    obtain ⟨rfl, rfl⟩ := runs_get.mp hg
    obtain ⟨v, c₁', hx⟩ := h.2 w c₂' hf
    exact ⟨v, c₁', runs_bind.mpr ⟨c₁, c₁, hget c₁, hx⟩⟩

theorem Mirrors.tryCatch_throw {h₁ h₂ : Error → Error} (h : Mirrors R Q x y c₁ c₂) :
    Mirrors R Q (tryCatch x fun e => MonadExcept.throw (h₁ e)) (tryCatch y fun e => MonadExcept.throw (h₂ e))
      c₁ c₂ := by
  refine ⟨fun v c₁' hv => ?_, fun w c₂' hw => ?_⟩
  · obtain ⟨w, c₂', hy, hq, hR⟩ := h.1 v c₁' (runs_tryCatch_throw.mp hv)
    exact ⟨w, c₂', runs_tryCatch_throw.mpr hy, hq, hR⟩
  · obtain ⟨v, c₁', hx⟩ := h.2 w c₂' (runs_tryCatch_throw.mp hw)
    exact ⟨v, c₁', runs_tryCatch_throw.mpr hx⟩

/-- Two lists mapped pairwise by computations that mirror each other, the invariant `I` indexed by
the items still to come. -/
theorem Mirrors.mapM {γ δ : Type} {P : γ → δ → Prop} {f : γ → Compiling α} {g : δ → Compiling α}
    {I : List γ → List δ → Compiler → Compiler → Prop}
    (hstep : ∀ x y xs ys c₁ c₂, P x y → I (x :: xs) (y :: ys) c₁ c₂ →
      Mirrors (I xs ys) Eq (f x) (g y) c₁ c₂) :
    ∀ {xs ys}, List.Forall₂ P xs ys → ∀ {c₁ c₂}, I xs ys c₁ c₂ →
      Mirrors (I [] []) Eq (xs.mapM f) (ys.mapM g) c₁ c₂
  | [], [], .nil, _, _, hI => Mirrors.pure rfl hI
  | x :: xs, y :: ys, .cons hxy hrest, c₁, c₂, hI => by
    rw [List.mapM_cons, List.mapM_cons]
    refine (hstep x y xs ys c₁ c₂ hxy hI).bind fun v w c₁' c₂' hvw hI' => ?_
    subst hvw
    refine (Mirrors.mapM hstep hrest hI').bind fun vs ws c₁'' c₂'' hvs hI'' => ?_
    subst hvs
    exact Mirrors.pure rfl hI''

theorem Mirrors.record {y₁ y₂ : NodeId} {op : Operand}
    (h : R { c₁ with memo := (y₁, op) :: c₁.memo } { c₂ with memo := (y₂, op) :: c₂.memo }) :
    Mirrors R Eq (modify (fun c : Compiler => { c with memo := (y₁, op) :: c.memo }) >>= fun _ =>
        Pure.pure op)
      (modify (fun c : Compiler => { c with memo := (y₂, op) :: c.memo }) >>= fun _ => Pure.pure op)
      c₁ c₂ := by
  have hrun : ∀ y c, Runs (modify (fun c : Compiler => { c with memo := (y, op) :: c.memo }) >>= fun _ =>
      (Pure.pure op : Compiling Operand)) c op { c with memo := (y, op) :: c.memo } :=
    fun y c => Compiler.run'_record y op c
  refine ⟨fun v c₁' hv => ?_, fun _ _ _ => ⟨op, _, hrun y₁ c₁⟩⟩
  obtain ⟨rfl, rfl⟩ := (hrun y₁ c₁).det hv
  exact ⟨op, _, hrun y₂ c₂, rfl, h⟩

end Mirrors

namespace Compiler

/-- Compiler states that agree on all that lowering reads and writes besides the graph, the
bindings and the memo. -/
structure Twins (c₁ c₂ : Compiler) : Prop where
  tempPrefix : c₁.tempPrefix = c₂.tempPrefix
  next : c₁.next = c₂.next
  wires : c₁.wires = c₂.wires
  literals : c₁.literals = c₂.literals

/-- A step from `c` to `c'` that leaves the graph, the bindings and the memo alone. -/
structure Steady (c c' : Compiler) : Prop where
  arena : c'.arena = c.arena
  leaves : c'.leaves = c.leaves
  memo : c'.memo = c.memo

theorem Steady.refl (c : Compiler) : Steady c c := ⟨rfl, rfl, rfl⟩

theorem Steady.trans {c c' c'' : Compiler} (h₁ : Steady c c') (h₂ : Steady c' c'') : Steady c c'' :=
  ⟨h₂.arena.trans h₁.arena, h₂.leaves.trans h₁.leaves, h₂.memo.trans h₁.memo⟩

/-- `x` and `y`, run from twin states, both fail or give the same result in twin states, keeping
the graph, the bindings and the memo. -/
def Twinned {α : Type} (x y : Compiling α) : Prop :=
  ∀ c₁ c₂, Twins c₁ c₂ → Mirrors (fun c₁' c₂' => Twins c₁' c₂' ∧ Steady c₁ c₁' ∧ Steady c₂ c₂') Eq x y c₁ c₂

section Twinned

variable {α β : Type} {x y : Compiling α}

theorem twinned_pure (v : α) : Twinned (pure v) (pure v) :=
  fun c₁ c₂ h => .pure rfl ⟨h, .refl c₁, .refl c₂⟩

theorem twinned_throw (e₁ e₂ : Error) : Twinned (throw e₁ : Compiling α) (throw e₂) :=
  fun _ _ _ => .throw e₁ e₂

theorem twinned_fault (f₁ f₂ : Fault) : Twinned (Stateful.fault f₁ : Compiling α) (Stateful.fault f₂) :=
  fun _ _ _ => .fail (fun _ _ => not_runs_fault) (fun _ _ => not_runs_fault)

theorem Twinned.bind {f g : α → Compiling β} (hx : Twinned x y) (hf : ∀ v, Twinned (f v) (g v)) :
    Twinned (x >>= f) (y >>= g) := by
  intro c₁ c₂ h
  refine (hx c₁ c₂ h).bind fun v w c₁' c₂' hq ⟨h', hk₁, hk₂⟩ => ?_
  subst hq
  exact (hf v c₁' c₂' h').mono fun _ _ ⟨h'', hk₁', hk₂'⟩ => ⟨h'', hk₁.trans hk₁', hk₂.trans hk₂'⟩

theorem twinned_emit (w : Int) (r : Rhs) : Twinned (emit w r) (emit w r) := by
  intro c₁ c₂ h
  refine ⟨fun v c₁' hv => ?_, fun _ _ _ => ⟨_, _, runs_emit.mpr ⟨rfl, rfl⟩⟩⟩
  obtain ⟨rfl, rfl⟩ := runs_emit.mp hv
  refine ⟨_, _, runs_emit.mpr ⟨rfl, rfl⟩, by rw [h.tempPrefix, h.next], ?_, ⟨rfl, rfl, rfl⟩, ⟨rfl, rfl, rfl⟩⟩
  exact ⟨h.tempPrefix, by simp [h.next], by simp [h.wires, h.tempPrefix, h.next], h.literals⟩

theorem twinned_resize (op : Operand) (w : Int) : Twinned (resize op w) (resize op w) := by
  unfold resize
  split_ifs
  all_goals first | exact twinned_emit _ _ | exact twinned_pure _

theorem twinned_operandAt (ops : Array Operand) (i : Nat) : Twinned (operandAt ops i) (operandAt ops i) := by
  unfold operandAt
  split
  · exact twinned_pure _
  · exact twinned_fault _ _

theorem twinned_modify_literals (p : String × Operand) :
    Twinned (modify fun c : Compiler => { c with literals := c.literals ++ [p] })
      (modify fun c : Compiler => { c with literals := c.literals ++ [p] }) := by
  intro c₁ c₂ h
  refine ⟨fun v c₁' hv => ?_, fun _ _ _ => ⟨PUnit.unit, _, runs_modify.mpr rfl⟩⟩
  obtain rfl := runs_modify.mp hv
  exact ⟨_, _, runs_modify.mpr rfl, rfl, ⟨h.tempPrefix, h.next, h.wires, by simp [h.literals]⟩,
    ⟨rfl, rfl, rfl⟩, ⟨rfl, rfl, rfl⟩⟩

theorem twinned_literal (w : Int) (lit : Rhs) : Twinned (literal w lit) (literal w lit) := by
  intro c₁ c₂ h
  unfold literal
  refine Mirrors.get_bind ?_
  rw [← h.literals]
  split
  · exact (twinned_pure _) c₁ c₂ h
  · exact ((twinned_emit w lit).bind fun op => (twinned_modify_literals _).bind fun _ => twinned_pure op)
      c₁ c₂ h

/-- Lowering operators of one kind from the same operands, whatever their ids. -/
theorem twinned_lowerOperatorAt {id₁ id₂ : NodeId} {n₁ n₂ : Node} (hk : n₁.kind = n₂.kind)
    (args : Array Operand) (w : Int) :
    Twinned (lowerOperatorAt id₁ n₁ args w) (lowerOperatorAt id₂ n₂ args w) := by
  unfold lowerOperatorAt
  rw [← hk]
  dsimp only
  split_ifs
  all_goals try split
  -- every branch binds operands, resizes and emits the same way on both sides; the last one fails
  all_goals
    repeat' first
      | with_reducible refine Twinned.bind ?_ fun _ => ?_
      | with_reducible exact twinned_emit _ _
      | with_reducible exact twinned_resize _ _
      | with_reducible exact twinned_operandAt _ _
      | with_reducible exact twinned_throw _ _

theorem twinned_lift (g : Guarded α) : Twinned g.lift g.lift := by
  intro c₁ c₂ h
  refine ⟨fun v c₁' hv => ?_, fun w c₂' hw => ⟨w, c₁, runs_lift.mpr ⟨(runs_lift.mp hw).1, rfl⟩⟩⟩
  obtain ⟨hg, rfl⟩ := runs_lift.mp hv
  exact ⟨v, c₂, runs_lift.mpr ⟨hg, rfl⟩, rfl, h, .refl _, .refl _⟩

theorem Twinned.tryCatch_throw {h₁ h₂ : Error → Error} (h : Twinned x y) :
    Twinned (tryCatch x fun e => throw (h₁ e)) (tryCatch y fun e => throw (h₂ e)) :=
  fun c₁ c₂ ht => (h c₁ c₂ ht).tryCatch_throw

theorem twinned_lowerOperator {id₁ id₂ : NodeId} {n₁ n₂ : Node} (h : n₁.LowersLike n₂)
    (args : Array Operand) : Twinned (lowerOperator id₁ n₁ args) (lowerOperator id₂ n₂ args) := by
  unfold lowerOperator
  rw [operatorWidth_eq h]
  exact (twinned_lift _).tryCatch_throw.bind fun w => twinned_lowerOperatorAt h.kind args w

/-- Lowering leaves that lower alike under the same binding, whatever their ids and names. -/
theorem twinned_lowerLeaf {id₁ id₂ : NodeId} {n₁ n₂ : Node} (h : n₁.LowersLike n₂) (l : Option Leaf) :
    Twinned (lowerLeaf id₁ n₁ l) (lowerLeaf id₂ n₂ l) := by
  unfold lowerLeaf
  rcases h₁ : leafWidth n₁ l with e | ⟨w, hi⟩
  · rcases h₂ : leafWidth n₂ l with e' | r
    · exact twinned_throw _ _
    · have := (leafWidth_ok_iff h l r).mpr h₂
      rw [h₁] at this
      cases this
  · rw [(leafWidth_ok_iff h l _).mp h₁]
    rcases l with _ | l
    · -- an unbound constant: the same literal on both sides
      dsimp only
      rw [← h.kind]
      split
      · rw [h.value ‹_›]
        exact twinned_literal _ _
      · exact twinned_literal _ _
      · exact twinned_literal _ _
      · exact twinned_throw _ _
    · dsimp only
      rw [← h.kind]
      by_cases hb : n₁.kind = .bitField
      · -- a bit-field reads its low index
        rw [← (h.slice hb).2]
        split_ifs <;> exact twinned_emit _ _
      · have hb' : (n₁.kind != .bitField) = true := by simpa using hb
        rw [if_pos hb', if_pos hb']
        exact twinned_emit _ _

end Twinned


section Lockstep

variable {a₁ a₂ : Arena} {lm₁ lm₂ : LeafMap}

/-- A compiler ready to lower the tree `t` of the graph `a` under the bindings `lm`: none of the
tree's nodes is memoised yet. -/
structure Ready (a : Arena) (lm : LeafMap) (t : Term NodeId) (c : Compiler) : Prop where
  arena : c.arena = a
  leaves : c.leaves = lm
  fresh : ∀ y ∈ t.tags, c.lookup y = none

/-- A step from `c` to `c'` that keeps the graph and the bindings and memoises only nodes of `t`. -/
structure Within (t : Term NodeId) (c c' : Compiler) : Prop where
  arena : c'.arena = c.arena
  leaves : c'.leaves = c.leaves
  lookup : ∀ y ∉ t.tags, c'.lookup y = c.lookup y

namespace Within

variable {t : Term NodeId} {c d e : Compiler}

theorem of_steady (h : Steady c d) : Within t c d :=
  ⟨h.arena, h.leaves, fun y _ => by simp [Compiler.lookup, h.memo]⟩

theorem steady (h : Within t c d) (hk : Steady d e) : Within t c e :=
  ⟨hk.arena.trans h.arena, hk.leaves.trans h.leaves, fun y hy => by
    rw [← h.lookup y hy]
    simp [Compiler.lookup, hk.memo]⟩

theorem record (h : Within t c d) (op : Operand) :
    Within t c { d with memo := (t.tag, op) :: d.memo } := by
  refine ⟨h.arena, h.leaves, fun y hy => ?_⟩
  have hne : t.tag ≠ y := fun he => hy (he ▸ by rw [Term.tags_eq]; exact List.mem_cons_self)
  rw [lookup_record, if_neg hne, h.lookup y hy]

end Within

/-- Midway through the operands of the top of `t`, lowered from `c₀`: the operands `rest` are still
to come, neither their nodes nor the top are memoised, and only nodes of `t` were memoised since. -/
structure Midway (a : Arena) (lm : LeafMap) (t : Term NodeId) (c₀ : Compiler) (rest : List (Term NodeId))
    (c : Compiler) : Prop where
  arena : c.arena = a
  leaves : c.leaves = lm
  nodup : (t.tag :: rest.flatMap Term.tags).Nodup
  sub : ∀ y ∈ rest.flatMap Term.tags, y ∈ t.tags
  fresh : ∀ y ∈ t.tag :: rest.flatMap Term.tags, c.lookup y = none
  frame : ∀ y ∉ t.tags, c.lookup y = c₀.lookup y

namespace Midway

variable {a : Arena} {lm : LeafMap} {t u : Term NodeId} {c₀ c c' : Compiler} {rest : List (Term NodeId)}

theorem start (h : Ready a lm t c) (hnd : t.tags.Nodup) : Midway a lm t c t.children c where
  arena := h.arena
  leaves := h.leaves
  nodup := by rwa [← Term.tags_eq]
  sub y hy := by rw [Term.tags_eq]; exact List.mem_cons_of_mem _ hy
  fresh y hy := h.fresh y (by rwa [Term.tags_eq])
  frame _ _ := rfl

theorem ready (h : Midway a lm t c₀ (u :: rest) c) : Ready a lm u c :=
  ⟨h.arena, h.leaves, fun y hy => h.fresh y (by simp [hy])⟩

/-- Lowering the next operand, memoising only its own nodes, moves on to the rest. -/
theorem next (h : Midway a lm t c₀ (u :: rest) c) (hw : Within u c c') : Midway a lm t c₀ rest c' := by
  have hnd : (t.tag :: (u.tags ++ rest.flatMap Term.tags)).Nodup := by simpa using h.nodup
  -- the nodes of the operand just lowered are neither the top nor in the operands to come
  have hout : ∀ y ∈ t.tag :: rest.flatMap Term.tags, y ∉ u.tags := by
    intro y hy hyu
    rw [List.nodup_cons, List.nodup_append] at hnd
    rcases List.mem_cons.mp hy with rfl | hy
    · exact hnd.1 (List.mem_append_left _ hyu)
    · exact hnd.2.2.2 y hyu y hy rfl
  refine ⟨hw.arena.trans h.arena, hw.leaves.trans h.leaves, ?_, fun y hy => h.sub y (by simp [hy]),
    fun y hy => ?_, fun y hy => ?_⟩
  · exact List.Nodup.sublist (by simp) h.nodup
  · rw [hw.lookup y (hout y hy)]
    exact h.fresh y (by rcases List.mem_cons.mp hy with rfl | hy <;> simp [*])
  · have hyu : y ∉ u.tags := fun hyu => hy (h.sub y (by simp [hyu]))
    rw [hw.lookup y hyu, h.frame y hy]

theorem within (h : Midway a lm t c₀ [] c) (hr : Ready a lm t c₀) : Within t c₀ c :=
  ⟨h.arena.trans hr.arena.symm, h.leaves.trans hr.leaves.symm, h.frame⟩

end Midway

/-- Two trees that compile alike: their graphs unfold to them, they have one shape, no node occurs
twice in either, and their leaves, in order, are bound alike. -/
structure Matched (a₁ : Arena) (lm₁ : LeafMap) (t₁ : Term NodeId) (a₂ : Arena) (lm₂ : LeafMap)
    (t₂ : Term NodeId) : Prop where
  unfolds₁ : a₁.Unfolds t₁.tag t₁
  unfolds₂ : a₂.Unfolds t₂.tag t₂
  shape : t₁.shape = t₂.shape
  leaves : t₁.leafTags.map lm₁.find? = t₂.leafTags.map lm₂.find?
  nodup₁ : t₁.tags.Nodup
  nodup₂ : t₂.tags.Nodup

/-- Lists of trees of the same shapes whose leaves, in order, are bound alike are matched tree by
tree. -/
theorem matched_of_flatMap {Q₁ Q₂ : Term NodeId → Prop} :
    ∀ {cs₁ cs₂ : List (Term NodeId)}, cs₁.map Term.shape = cs₂.map Term.shape →
      (cs₁.flatMap Term.leafTags).map lm₁.find? = (cs₂.flatMap Term.leafTags).map lm₂.find? →
      (∀ u ∈ cs₁, a₁.Unfolds u.tag u ∧ u.tags.Nodup ∧ Q₁ u) →
      (∀ u ∈ cs₂, a₂.Unfolds u.tag u ∧ u.tags.Nodup ∧ Q₂ u) →
      List.Forall₂ (fun u₁ u₂ => Matched a₁ lm₁ u₁ a₂ lm₂ u₂ ∧ Q₁ u₁ ∧ Q₂ u₂) cs₁ cs₂
  | [], [], _, _, _, _ => .nil
  | [], _ :: _, hs, _, _, _ => by simp at hs
  | _ :: _, [], hs, _, _, _ => by simp at hs
  | u₁ :: cs₁, u₂ :: cs₂, hs, hl, h₁, h₂ => by
    simp only [List.map_cons, List.cons.injEq] at hs
    have hlen : (u₁.leafTags.map lm₁.find?).length = (u₂.leafTags.map lm₂.find?).length := by
      rw [List.length_map, List.length_map, ← Term.length_leafTags_shape, hs.1,
        Term.length_leafTags_shape]
    rw [List.flatMap_cons, List.flatMap_cons, List.map_append, List.map_append] at hl
    obtain ⟨hl₁, hl₂⟩ := List.append_inj hl hlen
    obtain ⟨hu₁, hn₁, hq₁⟩ := h₁ u₁ List.mem_cons_self
    obtain ⟨hu₂, hn₂, hq₂⟩ := h₂ u₂ List.mem_cons_self
    exact .cons ⟨⟨hu₁, hu₂, hs.1, hl₁, hn₁, hn₂⟩, hq₁, hq₂⟩
      (matched_of_flatMap hs.2 hl₂ (fun u hu => h₁ u (List.mem_cons_of_mem _ hu))
        (fun u hu => h₂ u (List.mem_cons_of_mem _ hu)))

/-- The children of matched operator trees are matched in order, and each is shallower than its
parent. -/
theorem Matched.children {t₁ t₂ : Term NodeId} (h : Matched a₁ lm₁ t₁ a₂ lm₂ t₂)
    (hleaf : t₁.isLeaf = false) :
    List.Forall₂ (fun u₁ u₂ => Matched a₁ lm₁ u₁ a₂ lm₂ u₂ ∧ u₁.depth < t₁.depth ∧ u₂.depth < t₂.depth)
      t₁.children t₂.children := by
  have hleaf₂ : t₂.isLeaf = false := by rw [← Term.isLeaf_shape, ← h.shape, Term.isLeaf_shape, hleaf]
  have hshapes : t₁.children.map Term.shape = t₂.children.map Term.shape := by
    rw [← Term.children_shape, ← Term.children_shape, h.shape]
  have hl : (t₁.children.flatMap Term.leafTags).map lm₁.find? =
      (t₂.children.flatMap Term.leafTags).map lm₂.find? := by
    rw [← Term.leafTags_of_not_isLeaf hleaf, ← Term.leafTags_of_not_isLeaf hleaf₂]
    exact h.leaves
  -- each child unfolds, and its nodes are among the distinct nodes of its parent
  have hchild : ∀ {a : Arena} {t : Term NodeId}, a.Unfolds t.tag t → t.tags.Nodup →
      ∀ u ∈ t.children, a.Unfolds u.tag u ∧ u.tags.Nodup ∧ u.depth < t.depth := by
    intro a t hu hnd u hmem
    obtain ⟨_, _, _, _, _, hus⟩ := hu.lowers
    rw [Term.tags_eq, List.nodup_cons, List.nodup_flatMap] at hnd
    exact ⟨hus u hmem, hnd.2.1 u hmem, Term.depth_lt_of_mem_children hmem⟩
  exact matched_of_flatMap hshapes hl (hchild h.unfolds₁ h.nodup₁) (hchild h.unfolds₂ h.nodup₂)

/-- Compiling matched trees in lockstep. From twin compilers ready for either tree, the two
compilations both fail, or both give the same operand in twin compilers that memoised only nodes
of their own tree. The induction is on the fuel of the first compilation; the operands of an
operator are lowered pairwise, carried by `Midway` on each side. -/
theorem compileWithin_lockstep : ∀ (fuel₁ fuel₂ : Nat) {t₁ t₂ : Term NodeId} {c₁ c₂ : Compiler},
    Matched a₁ lm₁ t₁ a₂ lm₂ t₂ → t₁.depth ≤ fuel₁ → t₂.depth ≤ fuel₂ → c₁.Twins c₂ →
    Ready a₁ lm₁ t₁ c₁ → Ready a₂ lm₂ t₂ c₂ →
    Mirrors (fun c₁' c₂' => c₁'.Twins c₂' ∧ Within t₁ c₁ c₁' ∧ Within t₂ c₂ c₂') Eq
      (compileWithin fuel₁ t₁.tag) (compileWithin fuel₂ t₂.tag) c₁ c₂
  | 0, _, t₁, _, _, _, _, hd₁, _, _, _, _ => absurd hd₁ (by have := t₁.depth_pos; omega)
  | _ + 1, 0, _, t₂, _, _, _, _, hd₂, _, _, _ => absurd hd₂ (by have := t₂.depth_pos; omega)
  | fuel₁ + 1, fuel₂ + 1, t₁, t₂, c₁, c₂, hm, hd₁, hd₂, ht, hr₁, hr₂ => by
    obtain ⟨n₁, hn₁, hl₁, hk₁, hargs₁, -⟩ := hm.unfolds₁.lowers
    obtain ⟨n₂, hn₂, hl₂, hk₂, hargs₂, -⟩ := hm.unfolds₂.lowers
    have hlike : n₁.LowersLike n₂ := by
      refine hl₁.trans ?_
      rw [← Term.head_shape, hm.shape, Term.head_shape]
      exact hl₂.symm
    have hleaf : t₂.isLeaf = t₁.isLeaf := by rw [← Term.isLeaf_shape, ← hm.shape, Term.isLeaf_shape]
    have hf₁ : c₁.memo.find? (·.1 == t₁.tag) = none := by
      simpa [lookup] using hr₁.fresh _ (by rw [Term.tags_eq]; exact List.mem_cons_self)
    have hf₂ : c₂.memo.find? (·.1 == t₂.tag) = none := by
      simpa [lookup] using hr₂.fresh _ (by rw [Term.tags_eq]; exact List.mem_cons_self)
    rw [compileWithin, compileWithin]
    refine Mirrors.get_bind ?_
    simp only [hf₁, hf₂, hr₁.arena, hr₂.arena, hn₁, hn₂]
    -- after lowering its top, each side memoises it, and nothing outside its own tree
    have hrecord : ∀ op d₁ d₂, d₁.Twins d₂ → Within t₁ c₁ d₁ → Within t₂ c₂ d₂ →
        Mirrors (fun c₁' c₂' => c₁'.Twins c₂' ∧ Within t₁ c₁ c₁' ∧ Within t₂ c₂ c₂') Eq
          (modify (fun c : Compiler => { c with memo := (t₁.tag, op) :: c.memo }) >>= fun _ => pure op)
          (modify (fun c : Compiler => { c with memo := (t₂.tag, op) :: c.memo }) >>= fun _ => pure op)
          d₁ d₂ := fun op d₁ d₂ hd hw₁ hw₂ =>
      Mirrors.record ⟨⟨hd.tempPrefix, hd.next, hd.wires, hd.literals⟩, hw₁.record op, hw₂.record op⟩
    by_cases hleaf₁ : t₁.isLeaf = true
    · -- a leaf: lowered from the same binding on both sides
      have hk₁' : n₁.kind.isLeaf = true := by rw [hk₁, hleaf₁]
      have hk₂' : n₂.kind.isLeaf = true := by rw [hk₂, hleaf, hleaf₁]
      rw [if_pos hk₁', if_pos hk₂']
      have hbind : lm₁.find? t₁.tag = lm₂.find? t₂.tag := by
        have := hm.leaves
        rw [Term.leafTags_of_isLeaf hleaf₁, Term.leafTags_of_isLeaf (hleaf.trans hleaf₁)] at this
        simpa using this
      unfold compileLeaf
      refine (Mirrors.get_bind (R := fun d₁ d₂ => d₁.Twins d₂ ∧ Steady c₁ d₁ ∧ Steady c₂ d₂) (Q := Eq)
        ?_).bind fun op op' d₁ d₂ hop hd => ?_
      · rw [hr₁.leaves, hr₂.leaves, hbind]
        exact twinned_lowerLeaf hlike _ c₁ c₂ ht
      · subst hop
        exact hrecord op d₁ d₂ hd.1 (.of_steady hd.2.1) (.of_steady hd.2.2)
    · -- an operator: its operands pairwise, then the operators from the same operands
      have hleaf₁' : t₁.isLeaf = false := by simpa using hleaf₁
      have hk₁' : n₁.kind.isLeaf = false := by rw [hk₁, hleaf₁']
      have hk₂' : n₂.kind.isLeaf = false := by rw [hk₂, hleaf, hleaf₁']
      rw [if_neg (by simp [hk₁']), if_neg (by simp [hk₂'])]
      rw [Array.mapM_eq_mapM_toList, Array.mapM_eq_mapM_toList, hargs₁, hargs₂, List.mapM_map,
        List.mapM_map, map_eq_pure_bind, map_eq_pure_bind, bind_assoc, bind_assoc]
      have hops := Mirrors.mapM
        (I := fun r₁ r₂ d₁ d₂ => d₁.Twins d₂ ∧ Midway a₁ lm₁ t₁ c₁ r₁ d₁ ∧ Midway a₂ lm₂ t₂ c₂ r₂ d₂)
        (f := compileWithin fuel₁ ∘ Term.tag) (g := compileWithin fuel₂ ∘ Term.tag)
        (fun u₁ u₂ r₁ r₂ d₁ d₂ hu hI => (compileWithin_lockstep fuel₁ fuel₂ hu.1 (by omega) (by omega)
          hI.1 hI.2.1.ready hI.2.2.ready).mono fun e₁ e₂ he => ⟨he.1, hI.2.1.next he.2.1, hI.2.2.next he.2.2⟩)
        (hm.children hleaf₁') ⟨ht, Midway.start hr₁ hm.nodup₁, Midway.start hr₂ hm.nodup₂⟩
      refine hops.bind fun vs ws d₁ d₂ hvs hI => ?_
      subst hvs
      rw [pure_bind, pure_bind]
      refine ((twinned_lowerOperator hlike _) d₁ d₂ hI.1).bind fun op op' e₁ e₂ hop he => ?_
      subst hop
      exact hrecord op e₁ e₂ he.1 ((hI.2.1.within hr₁).steady he.2.1) ((hI.2.2.within hr₂).steady he.2.2)

end Lockstep

end Compiler

end Verilog

end BitSynth
