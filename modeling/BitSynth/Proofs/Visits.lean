import Mathlib
import BitSynth.Proofs.Key
import BitSynth.Proofs.Validation

namespace BitSynth

/-- The graph below a node unfolded into a tree of ids: a leaf, or a node with one tree per
operand. A shared node occurs once for each path to it. -/
inductive IdTree where
  | leaf (id : NodeId)
  | node (id : NodeId) (parts : List IdTree)
  deriving Inhabited

namespace IdTree

mutual
/-- The leaves of a tree, left to right, repeats kept. -/
def leafIds : IdTree → List NodeId
  | leaf id => [id]
  | node _ ps => leafIdsList ps
/-- `leafIds` of a list of trees, joined. -/
def leafIdsList : List IdTree → List NodeId
  | [] => []
  | t :: ts => t.leafIds ++ leafIdsList ts
end

@[simp] theorem leafIdsList_eq (ts : List IdTree) : leafIdsList ts = ts.flatMap leafIds := by
  induction ts with
  | nil => rfl
  | cons t ts ih => simp [leafIdsList, ih]

end IdTree

/-- A loop in `Except` over a list ends in an invariant of the items done, when every item, from the
invariant of the items before it, succeeds with the invariant of the items up to it. -/
theorem List.foldlM_except_inv {α σ ε : Type} {f : σ → α → Except ε σ} (xs : List α)
    (I : List α → σ → Prop)
    (hstep : ∀ pre x rest s, xs = pre ++ x :: rest → I pre s → ∃ s', f s x = .ok s' ∧ I (pre ++ [x]) s')
    (s : σ) (h0 : I [] s) : ∃ s', xs.foldlM f s = .ok s' ∧ I xs s' := by
  -- the loop runs over what is left of the list, with the items done as a prefix
  suffices h : ∀ rest pre s, xs = pre ++ rest → I pre s → ∃ s', rest.foldlM f s = .ok s' ∧ I xs s' from
    h xs [] s rfl h0
  intro rest
  induction rest with
  | nil =>
    intro pre s hxs hI
    exact ⟨s, rfl, by simpa [hxs] using hI⟩
  | cons x rest ih =>
    intro pre s hxs hI
    obtain ⟨s₁, hx, hI₁⟩ := hstep pre x rest s hxs hI
    obtain ⟨s', hrest, hI'⟩ := ih (pre ++ [x]) s₁ (by simp [hxs]) hI₁
    exact ⟨s', by simp [List.foldlM_cons, hx, hrest, bind, Except.bind], hI'⟩

namespace Arena

variable {a : Arena}

/-- The nodes met going down from `root` through the operands of nodes that are not leaves. -/
inductive Reaches (a : Arena) (root : NodeId) : NodeId → Prop where
  | root : a.Reaches root root
  | arg {id x : NodeId} {n : Node} : a.Reaches root id → a.node? id = some n →
      n.kind.isLeaf = false → x ∈ n.args → a.Reaches root x

/-- `a.Spans id T`: the graph below `id` unfolds to the tree `T`. A node of a leaf kind is a leaf
of it, whatever operands it lists; any other node has the trees of its operands, in order. -/
inductive Spans (a : Arena) : NodeId → IdTree → Prop where
  | leaf {id : NodeId} {n : Node} (hn : a.node? id = some n) (hk : n.kind.isLeaf = true) :
      a.Spans id (.leaf id)
  | node {id : NodeId} {n : Node} {ts : List IdTree} (hn : a.node? id = some n)
      (hk : n.kind.isLeaf = false) (hlen : n.args.size = ts.length)
      (hs : ∀ p ∈ n.args.toList.zip ts, a.Spans p.1 p.2) : a.Spans id (.node id ts)

section Reach

theorem Reaches.trans {r m x : NodeId} (h₁ : a.Reaches r m) (h₂ : a.Reaches m x) : a.Reaches r x := by
  induction h₂ with
  | root => exact h₁
  | arg _ hn hk hx ih => exact .arg ih hn hk hx

theorem Reaches.head {id x y : NodeId} {n : Node} (hn : a.node? id = some n)
    (hk : n.kind.isLeaf = false) (hx : x ∈ n.args) (h : a.Reaches x y) : a.Reaches id y :=
  (Reaches.arg .root hn hk hx).trans h

theorem Reaches.cases_head {id y : NodeId} {n : Node} (hn : a.node? id = some n) (h : a.Reaches id y) :
    y = id ∨ n.kind.isLeaf = false ∧ ∃ x ∈ n.args, a.Reaches x y := by
  induction h with
  | root => exact .inl rfl
  | @arg m z k _ hk hkl hz ih =>
    right
    rcases ih with rfl | ⟨hl, x, hx, hxm⟩
    · rw [hn, Option.some.injEq] at hk
      subst hk
      exact ⟨hkl, z, hz, .root⟩
    · exact ⟨hl, x, hx, .arg hxm hk hkl hz⟩

theorem Reaches.toBelow {r x : NodeId} (h : a.Reaches r x) : a.Below r x := by
  induction h with
  | root => exact .root
  | arg _ hn _ hx ih => exact .arg ih hn hx

theorem Reaches.eq_of_isLeaf {id y : NodeId} {n : Node} (hn : a.node? id = some n)
    (hk : n.kind.isLeaf = true) (h : a.Reaches id y) : y = id := by
  rcases Reaches.cases_head hn h with h | ⟨hl, -⟩
  · exact h
  · simp [hk] at hl

theorem not_below_of_arg {rank : NodeId → Nat}
    (hrank : ∀ id n, a.node? id = some n → ∀ x ∈ n.args, rank x < rank id) {id x : NodeId} {n : Node}
    (hn : a.node? id = some n) (hx : x ∈ n.args) : ¬ a.Below x id := fun hb => by
  have h₁ := Below.rank_le hrank hb
  have h₂ := hrank id n hn x hx
  omega

end Reach

section Spans

theorem Spans.exists_node {id : NodeId} {T : IdTree} (h : a.Spans id T) : ∃ n, a.node? id = some n := by
  cases h <;> exact ⟨_, ‹_›⟩

/-- The leaves of an unfolding are exactly the leaf nodes its top reaches. -/
theorem Spans.mem_leafIds {id y : NodeId} {T : IdTree} (h : a.Spans id T) :
    y ∈ T.leafIds ↔ a.Reaches id y ∧ a.IsLeaf y := by
  induction h with
  | @leaf id n hn hk =>
    rw [IdTree.leafIds, List.mem_singleton]
    constructor
    · rintro rfl
      exact ⟨.root, n, hn, hk⟩
    · rintro ⟨hr, -⟩
      exact hr.eq_of_isLeaf hn hk
  | @node id n ts hn hk hlen hs ih =>
    rw [IdTree.leafIds, IdTree.leafIdsList_eq, List.mem_flatMap]
    have hlen' : n.args.toList.length = ts.length := by simp [hlen]
    constructor
    · rintro ⟨t, ht, hy⟩
      obtain ⟨x, hxt⟩ := List.exists_mem_zip_left hlen' ht
      obtain ⟨hr, hl⟩ := (ih _ hxt).mp hy
      exact ⟨Reaches.head hn hk (by simpa using (List.of_mem_zip hxt).1) hr, hl⟩
    · rintro ⟨hr, hl⟩
      rcases Reaches.cases_head hn hr with rfl | ⟨-, x, hx, hxy⟩
      · obtain ⟨n', hn', hk'⟩ := hl
        rw [hn, Option.some.injEq] at hn'
        subst hn'
        simp [hk] at hk'
      · obtain ⟨t, hxt⟩ := List.exists_mem_zip_right hlen' (show x ∈ n.args.toList by simpa using hx)
        exact ⟨t, (List.of_mem_zip hxt).2, (ih _ hxt).mpr ⟨hxy, hl⟩⟩

/-- In an acyclic graph, a root whose reached nodes all exist unfolds to a tree. -/
theorem spans_of_present {root : NodeId} (hacyc : a.Acyclic)
    (hex : ∀ y, a.Reaches root y → ∃ n, a.node? y = some n) : ∃ T, a.Spans root T := by
  obtain ⟨rank, hrank⟩ := hacyc
  -- strong induction on the rank, over the nodes the root reaches
  suffices h : ∀ m id, rank id < m → a.Reaches root id → ∃ T, a.Spans id T from
    h (rank root + 1) root (by omega) .root
  intro m
  induction m with
  | zero => intro id h; omega
  | succ m ih =>
    intro id hm hr
    obtain ⟨n, hn⟩ := hex id hr
    cases hk : n.kind.isLeaf with
    | true => exact ⟨_, .leaf hn hk⟩
    | false =>
      have hall : ∀ x ∈ n.args.toList, ∃ T, a.Spans x T := fun x hx =>
        have hx' : x ∈ n.args := by simpa using hx
        ih x (by have := (hrank id n hn).2 x hx'; omega) (.arg hr hn hk hx')
      obtain ⟨ts, hlen, hs⟩ := List.exists_zip_of_forall hall
      exact ⟨_, .node hn hk (by simpa using hlen) hs⟩

end Spans

/-- A stretch of a marking walk, from the marks `s₀` to `s`, whose record has grown to `L`: marks
are only added, and only to nodes of `R`; every recorded node is marked; every node of `R` that
`P` selects is recorded. -/
structure Marks (a : Arena) (P R : NodeId → Prop) (s₀ s : Array Bool) (L : List NodeId) : Prop where
  size : s.size = a.size
  listed : ∀ y ∈ L, marked s y = true
  grow : ∀ x, marked s₀ x = true → marked s x = true
  new : ∀ x, marked s x = true → marked s₀ x = true ∨ R x
  complete : ∀ y, R y → P y → y ∈ L

section Marks

variable {P R R₁ R₂ : NodeId → Prop} {s₀ s₁ s : Array Bool} {L₁ L : List NodeId}

theorem Marks.trans (h₁ : a.Marks P R₁ s₀ s₁ L₁) (h₂ : a.Marks P R₂ s₁ s L) (hL : ∀ y ∈ L₁, y ∈ L) :
    a.Marks P (fun y => R₁ y ∨ R₂ y) s₀ s L where
  size := h₂.size
  listed := h₂.listed
  grow x h := h₂.grow x (h₁.grow x h)
  new x h := by
    rcases h₂.new x h with h | h
    · exact (h₁.new x h).imp_right .inl
    · exact .inr (.inr h)
  complete y hy hp := by
    rcases hy with hy | hy
    · exact hL y (h₁.complete y hy hp)
    · exact h₂.complete y hy hp

theorem Marks.congr {R' : NodeId → Prop} (h : a.Marks P R s₀ s L) (hR : ∀ y, R y ↔ R' y) :
    a.Marks P R' s₀ s L :=
  ⟨h.size, h.listed, h.grow, fun x hx => (h.new x hx).imp_right (hR x).mp,
    fun y hy hp => h.complete y ((hR y).mpr hy) hp⟩

theorem marks_mark {id : NodeId} {seen : Array Bool} (hsize : seen.size = a.size)
    (hlisted : ∀ y ∈ L, marked seen y = true) :
    a.Marks P (fun _ => False) (mark seen id) (mark seen id) L :=
  ⟨by simp [hsize], fun y hy => marked_of_marked_mark id (hlisted y hy), fun _ h => h, fun _ h => .inl h,
    fun _ h => h.elim⟩

/-- A stretch that began by marking `id` is, seen from before the mark, a stretch over `R'`, a
relation that holds of `id` and of everything `R` holds of. -/
theorem Marks.unmark {R' : NodeId → Prop} {id : NodeId} {seen : Array Bool} {L' : List NodeId}
    (h0 : 0 ≤ id) (h : a.Marks P R (mark seen id) s L) (hroot : R' id) (hR : ∀ y, R y → R' y)
    (hlisted : ∀ y ∈ L', marked s y = true) (hcomplete : ∀ y, R' y → P y → y ∈ L') :
    a.Marks P R' seen s L' where
  size := h.size
  listed := hlisted
  grow x hx := h.grow x (marked_of_marked_mark id hx)
  new x hx := by
    rcases h.new x hx with hx | hx
    · rcases (marked_mark h0).mp hx with ⟨rfl, -⟩ | hx
      · exact .inr hroot
      · exact .inl hx
    · exact .inr (hR x hx)
  complete := hcomplete

end Marks

section Leaves

/-- What the leaf walk needs on entering `id`: one mark per node, every listed leaf marked, and every
leaf that a marked node reached from `id` reaches listed already. -/
structure LeafReady (a : Arena) (id : NodeId) (seen : Array Bool) (out : List NodeId) : Prop where
  size : seen.size = a.size
  listed : ∀ y ∈ out, marked seen y = true
  done : ∀ m, a.Reaches id m → marked seen m = true → ∀ y, a.Reaches m y → a.IsLeaf y → y ∈ out

/-- The leaf walk from `id` succeeds from every ready state once its fuel exceeds the rank of `id`:
it appends the leaves of `T` not listed yet, and marks only nodes that `id` reaches. -/
def LeafSpec (a : Arena) (rank : NodeId → Nat) (id : NodeId) (T : IdTree) : Prop :=
  ∀ fuel, rank id < fuel → ∀ seen out, a.LeafReady id seen out.toList →
    ∃ seen' out', a.leavesWithin fuel id (seen, out) = .ok (seen', out') ∧
      out'.toList = dedupInto out.toList T.leafIds ∧
      a.Marks a.IsLeaf (a.Reaches id) seen seen' out'.toList

variable {id : NodeId} {n : Node} {T : IdTree} {seen : Array Bool} {out : List NodeId}

theorem LeafReady.of_marked (h : a.Spans id T) (hr : a.LeafReady id seen out)
    (hm : marked seen id = true) :
    dedupInto out T.leafIds = out ∧ a.Marks a.IsLeaf (a.Reaches id) seen seen out := by
  have hdone := hr.done id .root hm
  refine ⟨dedupInto_eq_self fun y hy => ?_, hr.size, hr.listed, fun _ h => h, fun _ h => .inl h, hdone⟩
  obtain ⟨hry, hly⟩ := h.mem_leafIds.mp hy
  exact hdone y hry hly

/-- Entering an unmarked leaf marks and lists it. -/
theorem LeafReady.push_leaf (hn : a.node? id = some n) (hk : n.kind.isLeaf = true)
    (hr : a.LeafReady id seen out) (hm : ¬marked seen id = true) :
    dedupInto out [id] = out ++ [id] ∧
      a.Marks a.IsLeaf (a.Reaches id) seen (mark seen id) (out ++ [id]) := by
  obtain ⟨h0, hlt⟩ := node?_bounds hn
  have hnot : id ∉ out := fun h => hm (hr.listed id h)
  refine ⟨dedupInto_singleton hnot, by simp [hr.size], ?_, fun x h => marked_of_marked_mark id h, ?_, ?_⟩
  · intro y hy
    rcases List.mem_append.mp hy with hy | hy
    · exact marked_of_marked_mark _ (hr.listed y hy)
    · rw [List.mem_singleton.mp hy]
      exact (marked_mark h0).mpr (.inl ⟨rfl, by rw [hr.size]; exact hlt⟩)
  · intro x h
    rcases (marked_mark h0).mp h with ⟨rfl, -⟩ | h
    · exact .inr .root
    · exact .inl h
  · intro y hy _
    simp [hy.eq_of_isLeaf hn hk]

/-- The walk over the operands of an unmarked operator `id`, one after the other. Each operand is
entered ready: a marked node it reaches was marked before `id` was entered, or was reached by an
operand walked already; it is not `id` itself, whose rank is larger. -/
theorem leaf_fold {rank : NodeId → Nat}
    (hrank : ∀ id n, a.node? id = some n → ∀ x ∈ n.args, rank x < rank id)
    (hn : a.node? id = some n) (hk : n.kind.isLeaf = false) (f : Nat) (hf : rank id ≤ f)
    (hr : a.LeafReady id seen out) {o₀ : Array NodeId} (ho₀ : o₀.toList = out)
    {ts : List IdTree} (hlen : n.args.size = ts.length)
    (hs : ∀ p ∈ n.args.toList.zip ts, a.LeafSpec rank p.1 p.2) :
    ∃ s o, n.args.foldlM (fun st arg => a.leavesWithin f arg st) (mark seen id, o₀) = .ok (s, o) ∧
      o.toList = dedupInto out (ts.flatMap IdTree.leafIds) ∧
      a.Marks a.IsLeaf (fun y => ∃ x ∈ n.args, a.Reaches x y) (mark seen id) s o.toList := by
  have hlen' : n.args.toList.length = ts.length := by simp [hlen]
  have h0 : a.Marks a.IsLeaf (fun y => ∃ p ∈ ([] : List (NodeId × IdTree)), a.Reaches p.1 y)
      (mark seen id) (mark seen id) o₀.toList :=
    (marks_mark hr.size (ho₀ ▸ hr.listed)).congr (by simp)
  rw [← Array.foldlM_toList, ← List.map_fst_zip hlen'.le, List.foldlM_map]
  -- the invariant over the pairs of operand and tree done: their leaves appended, what their
  -- operands reach marked
  let I : List (NodeId × IdTree) → Array Bool × Array NodeId → Prop := fun pre st =>
    st.2.toList = dedupInto out (pre.flatMap fun p => p.2.leafIds) ∧
      a.Marks a.IsLeaf (fun y => ∃ p ∈ pre, a.Reaches p.1 y) (mark seen id) st.1 st.2.toList
  have hstep : ∀ pre p rest st, n.args.toList.zip ts = pre ++ p :: rest → I pre st →
      ∃ st', a.leavesWithin f p.1 st = .ok st' ∧ I (pre ++ [p]) st' := by
    rintro pre ⟨x, t⟩ rest ⟨s, o⟩ hsplit ⟨ho, hm⟩
    have hp : (x, t) ∈ n.args.toList.zip ts := by rw [hsplit]; simp
    have hx : x ∈ n.args := by simpa using (List.of_mem_zip hp).1
    have hready : a.LeafReady x s o.toList := by
      refine ⟨hm.size, hm.listed, fun m hxm hmm y hmy hly => ?_⟩
      rcases hm.new m hmm with h | ⟨q, hq, hqm⟩
      · rcases (marked_mark (node?_bounds hn).1).mp h with ⟨rfl, -⟩ | h
        · exact absurd hxm.toBelow (not_below_of_arg hrank hn hx)
        · rw [ho]
          exact mem_dedupInto.mpr (.inl (hr.done m (Reaches.head hn hk hx hxm) h y hmy hly))
      · exact hm.complete y ⟨q, hq, hqm.trans hmy⟩ hly
    obtain ⟨s', o', hrun, ho', hm'⟩ :=
      hs _ hp f (show rank x < f by have := hrank id n hn x hx; omega) s o hready
    refine ⟨(s', o'), hrun, ?_, (hm.trans hm' fun y hy => ?_).congr fun y => ?_⟩
    · rw [ho', ho, List.flatMap_append, dedupInto_append]
      simp
    · rw [ho']
      exact mem_dedupInto.mpr (.inl hy)
    · simp [or_and_right, exists_or]
  obtain ⟨⟨s, o⟩, hrun, ho, hmarks⟩ :=
    List.foldlM_except_inv (n.args.toList.zip ts) I hstep (mark seen id, o₀) ⟨by simp [ho₀], h0⟩
  have hts : ts.flatMap IdTree.leafIds = (n.args.toList.zip ts).flatMap fun p => p.2.leafIds := by
    conv_lhs => rw [← List.map_snd_zip hlen'.ge]
    rw [List.flatMap_map]
  refine ⟨s, o, hrun, by rw [hts, ← ho], ?_⟩
  refine hmarks.congr fun y => ⟨?_, ?_⟩
  · rintro ⟨p, hp, hy⟩
    exact ⟨p.1, by simpa using (List.of_mem_zip hp).1, hy⟩
  · rintro ⟨x, hx, hy⟩
    obtain ⟨t, hxt⟩ := List.exists_mem_zip_right hlen' (show x ∈ n.args.toList by simpa using hx)
    exact ⟨(x, t), hxt, hy⟩

/-- The leaf walk is correct on every unfolding of a graph ranked by `rank`. -/
theorem Spans.leafSpec {rank : NodeId → Nat}
    (hrank : ∀ id n, a.node? id = some n → ∀ x ∈ n.args, rank x < rank id) (h : a.Spans id T) :
    a.LeafSpec rank id T := by
  induction h with
  | @leaf id n hn hk =>
    intro fuel hf seen out hr
    obtain ⟨f, rfl⟩ : ∃ f, fuel = f + 1 := ⟨fuel - 1, by omega⟩
    by_cases hm : marked seen id = true
    · obtain ⟨hd, hmk⟩ := hr.of_marked (.leaf hn hk) hm
      exact ⟨seen, out, by simp [leavesWithin, hm], hd.symm, hmk⟩
    · obtain ⟨hd, hmk⟩ := hr.push_leaf hn hk hm
      refine ⟨mark seen id, out.push id, ?_, by simpa [IdTree.leafIds] using hd.symm, by simpa using hmk⟩
      simp [leavesWithin, hm, get_of_node? hn, hk, bind, Except.bind, pure, Except.pure]
  | @node id n ts hn hk hlen hs ih =>
    intro fuel hf seen out hr
    obtain ⟨f, rfl⟩ : ∃ f, fuel = f + 1 := ⟨fuel - 1, by omega⟩
    by_cases hm : marked seen id = true
    · obtain ⟨hd, hmk⟩ := hr.of_marked (.node hn hk hlen hs) hm
      exact ⟨seen, out, by simp [leavesWithin, hm], hd.symm, hmk⟩
    · obtain ⟨s, o, hfold, ho, hmk⟩ := leaf_fold hrank hn hk f (by omega) hr rfl hlen ih
      refine ⟨s, o, ?_, by simpa [IdTree.leafIds] using ho, ?_⟩
      · simp [leavesWithin, hm, get_of_node? hn, hk, hfold, bind, Except.bind]
      · have hreach : ∀ y, (∃ x ∈ n.args, a.Reaches x y) → a.Reaches id y := by
          rintro y ⟨x, hx, hy⟩
          exact Reaches.head hn hk hx hy
        refine hmk.unmark (node?_bounds hn).1 .root hreach hmk.listed fun y hy hly => ?_
        rcases Reaches.cases_head hn hy with rfl | ⟨-, x, hx, hxy⟩
        · obtain ⟨n', hn', hk'⟩ := hly
          rw [hn, Option.some.injEq] at hn'
          subst hn'
          simp [hk] at hk'
        · exact hmk.complete y ⟨x, hx, hxy⟩ hly

theorem Spans.leaves_eq (hacyc : a.Acyclic) (h : a.Spans id T) :
    a.leaves id = .ok (dedupInto [] T.leafIds).toArray := by
  obtain ⟨rank, hrank⟩ := hacyc
  obtain ⟨n, hn⟩ := h.exists_node
  have hready : a.LeafReady id (Array.replicate a.size false) [] := ⟨by simp, by simp, by simp⟩
  obtain ⟨s, o, hrun, ho, -⟩ := h.leafSpec (fun id n hn => (hrank id n hn).2) (a.size + 1)
    (by have := (hrank _ _ hn).1; omega) _ #[] hready
  have : o = (dedupInto [] T.leafIds).toArray := by
    rw [← Array.toList_inj, ho]
  simp [leaves, hrun, this, bind, Except.bind, pure, Except.pure]

theorem Spans.signals_eq (hacyc : a.Acyclic) (h : a.Spans id T) :
    a.signals id = .ok ((dedupInto [] T.leafIds).filter a.isSignal).toArray := by
  have hp : ∀ y ∈ dedupInto [] T.leafIds,
      (do let n ← a.get y; pure (n.kind == .var || n.kind == .bitField) : Except Fault Bool) =
        .ok (a.isSignal y) := by
    intro y hy
    obtain ⟨-, n, hn, -⟩ := h.mem_leafIds.mp (by simpa using hy)
    simp [get_of_node? hn, isSignal, hn, bind, Except.bind, pure, Except.pure]
  rw [signals, h.leaves_eq hacyc, except_ok_bind, Array.filterM_except_ok _ hp]

/-- The signal names below a root: the names of its signals, each once, in order of first
occurrence. -/
theorem Spans.signalNames_eq (hacyc : a.Acyclic) (h : a.Spans id T) :
    a.signalNames id =
      .ok (dedupInto [] (((dedupInto [] T.leafIds).filter a.isSignal).map a.nameOf)).toArray := by
  have hname : ∀ y ∈ (dedupInto [] T.leafIds).filter a.isSignal,
      (do pure (← a.get y).name : Except Fault String) = .ok (a.nameOf y) := by
    intro y hy
    obtain ⟨-, n, hn, -⟩ := h.mem_leafIds.mp (by simpa using (List.mem_filter.mp hy).1)
    simp [get_of_node? hn, nameOf, hn, bind, Except.bind, pure, Except.pure]
  rw [Arena.signalNames, h.signals_eq hacyc, except_ok_bind, Array.mapM_eq_mapM_toList,
    List.toList_toArray, List.mapM_except_map _ hname]
  simp only [Functor.map, Except.map, except_ok_bind, pure, Except.pure, Except.ok.injEq]
  rw [← Array.toList_inj, distinctNames_toList]

end Leaves

section Dump

/-- The line the dump writes for a node; nothing for an id outside the arena. -/
def lineOf (a : Arena) (id : NodeId) : String :=
  match a.node? id with
  | some n => dumpLine id n
  | none => ""

/-- The dump lines of a list of nodes, in order. -/
def linesOf (a : Arena) (L : List NodeId) : String := String.join (L.map a.lineOf)

/-- Every node of `L` comes after all of its operands. -/
def OperandsFirst (a : Arena) (L : List NodeId) : Prop :=
  ∀ pre y post, L = pre ++ y :: post → ∀ n, a.node? y = some n → ∀ x ∈ n.args, x ∈ pre

variable {id z : NodeId} {n : Node} {seen : Array Bool} {L : List NodeId}

theorem linesOf_append (L L' : List NodeId) : a.linesOf (L ++ L') = a.linesOf L ++ a.linesOf L' := by
  simp [linesOf, String.join_append]

theorem OperandsFirst.append_singleton (h : a.OperandsFirst L)
    (hz : ∀ n, a.node? z = some n → ∀ x ∈ n.args, x ∈ L) : a.OperandsFirst (L ++ [z]) := by
  intro pre y post hsplit
  rcases List.eq_nil_or_concat post with rfl | ⟨post', b, rfl⟩
  · obtain ⟨rfl, hzy⟩ := List.append_inj' hsplit rfl
    obtain rfl : z = y := by simpa using hzy
    exact hz
  · rw [List.concat_eq_append, ← List.cons_append, ← List.append_assoc] at hsplit
    exact h pre y post' (List.append_inj' hsplit rfl).1

/-- What the dump walk needs on entering `id`: one mark per node, every written node marked and
written once after its operands, and everything below a marked node below `id` written. -/
structure DumpReady (a : Arena) (id : NodeId) (seen : Array Bool) (L : List NodeId) : Prop where
  size : seen.size = a.size
  listed : ∀ y ∈ L, marked seen y = true
  nodup : L.Nodup
  ordered : a.OperandsFirst L
  done : ∀ m, a.Below id m → marked seen m = true → ∀ y, a.Below m y → y ∈ L

/-- The dump walk from `id` succeeds from every ready state once its fuel exceeds the rank of `id`:
it writes nodes `D` below `id`, each once and after its operands, and then everything below `id` is
written. -/
def DumpSpec (a : Arena) (rank : NodeId → Nat) (id : NodeId) : Prop :=
  ∀ fuel, rank id < fuel → ∀ seen L, a.DumpReady id seen L →
    ∃ seen' D, a.dumpWithin fuel id (seen, a.linesOf L) = .ok (seen', a.linesOf (L ++ D)) ∧
      (L ++ D).Nodup ∧ a.OperandsFirst (L ++ D) ∧ (∀ y ∈ D, a.Below id y) ∧
      a.Marks (fun _ => True) (a.Below id) seen seen' (L ++ D)

/-- The state of the dump walk over the operands of `id` once the operands `pre` are done: it has
written nodes `D` below them after `L`, each once and after its operands. -/
def DumpFolded (a : Arena) (id : NodeId) (seen : Array Bool) (L : List NodeId) (pre : List NodeId)
    (st : Array Bool × String) : Prop :=
  ∃ D, st.2 = a.linesOf (L ++ D) ∧ (L ++ D).Nodup ∧ a.OperandsFirst (L ++ D) ∧
    (∀ y ∈ D, ∃ x ∈ pre, a.Below x y) ∧
    a.Marks (fun _ => True) (fun y => ∃ x ∈ pre, a.Below x y) (mark seen id) st.1 (L ++ D)

/-- One operand of `id` more: it is entered ready, since a marked node below it was marked before
`id` was entered or lies below an operand done already, and it is not `id` itself. -/
theorem DumpFolded.step {rank : NodeId → Nat}
    (hrank : ∀ id n, a.node? id = some n → ∀ x ∈ n.args, rank x < rank id)
    (hn : a.node? id = some n) (hr : a.DumpReady id seen L) {x : NodeId} (hx : x ∈ n.args)
    {f : Nat} (hf : rank x < f) (hspec : a.DumpSpec rank x) {pre : List NodeId}
    {st : Array Bool × String} (h : a.DumpFolded id seen L pre st) :
    ∃ st', a.dumpWithin f x st = .ok st' ∧ a.DumpFolded id seen L (pre ++ [x]) st' := by
  obtain ⟨s, out⟩ := st
  obtain ⟨D, rfl, hnd, hord, hD, hm⟩ := h
  have hready : a.DumpReady x s (L ++ D) := by
    refine ⟨hm.size, hm.listed, hnd, hord, fun m hxm hmm y hmy => ?_⟩
    rcases hm.new m hmm with h | ⟨q, hq, hqm⟩
    · rcases (marked_mark (node?_bounds hn).1).mp h with ⟨rfl, -⟩ | h
      · exact absurd hxm (not_below_of_arg hrank hn hx)
      · exact List.mem_append_left D (hr.done m (Below.head hn hx hxm) h y hmy)
    · exact hm.complete y ⟨q, hq, hqm.trans hmy⟩ trivial
  obtain ⟨s', D', hrun, hnd', hord', hD', hm'⟩ := hspec f hf s (L ++ D) hready
  refine ⟨(s', a.linesOf (L ++ D ++ D')), hrun, D ++ D', by simp, by simpa using hnd',
    by simpa using hord', fun y hy => ?_, ?_⟩
  · rcases List.mem_append.mp hy with hy | hy
    · obtain ⟨q, hq, hqy⟩ := hD y hy
      exact ⟨q, by simp [hq], hqy⟩
    · exact ⟨x, by simp, hD' y hy⟩
  · rw [← List.append_assoc]
    exact (hm.trans hm' fun y hy => List.mem_append_left D' hy).congr fun y => by
      simp [or_and_right, exists_or]

/-- The dump walk is correct on every node below a root whose nodes below all exist, in a graph
ranked by `rank`. -/
theorem dumpSpec_of_below {rank : NodeId → Nat}
    (hrank : ∀ id n, a.node? id = some n → ∀ x ∈ n.args, rank x < rank id) {root : NodeId}
    (hex : ∀ y, a.Below root y → ∃ n, a.node? y = some n) {id : NodeId} (hb : a.Below root id) :
    a.DumpSpec rank id := by
  -- strong induction on the rank, over the nodes below the root
  suffices h : ∀ m id, rank id < m → a.Below root id → a.DumpSpec rank id from
    h (rank id + 1) id (by omega) hb
  intro m
  induction m with
  | zero => intro id h; omega
  | succ m ih =>
    intro id hm hb fuel hf seen L hr
    obtain ⟨f, rfl⟩ : ∃ f, fuel = f + 1 := ⟨fuel - 1, by omega⟩
    obtain ⟨n, hn⟩ := hex id hb
    obtain ⟨h0, hlt⟩ := node?_bounds hn
    by_cases hmk : marked seen id = true
    · refine ⟨seen, [], by simp [dumpWithin, hmk], by simpa using hr.nodup, by simpa using hr.ordered,
        by simp, ?_⟩
      simpa using (⟨hr.size, hr.listed, fun _ h => h, fun _ h => .inl h,
        fun y hy _ => hr.done id .root hmk y hy⟩ : a.Marks (fun _ => True) (a.Below id) seen seen L)
    -- the operands one after the other, then the line of `id`
    have hstep : ∀ pre x rest st, n.args.toList = pre ++ x :: rest → a.DumpFolded id seen L pre st →
        ∃ st', a.dumpWithin f x st = .ok st' ∧ a.DumpFolded id seen L (pre ++ [x]) st' := by
      intro pre x rest st hsplit h
      have hx : x ∈ n.args := by simp [← Array.mem_toList_iff, hsplit]
      have hrx := hrank id n hn x hx
      exact h.step hrank hn hr hx (by omega) (ih x (by omega) (Below.head hn hx .root |> hb.trans)) 
    have hm0 : a.Marks (fun _ => True) (fun y => ∃ x ∈ ([] : List NodeId), a.Below x y) (mark seen id)
        (mark seen id) L := (marks_mark hr.size hr.listed).congr (by simp)
    obtain ⟨⟨s, out⟩, hfold, D, hout, hnd, hord, hD, hmarks⟩ :=
      List.foldlM_except_inv n.args.toList (a.DumpFolded id seen L) hstep (mark seen id, a.linesOf L)
        ⟨[], by simp, by simpa using hr.nodup, by simpa using hr.ordered, by simp, by simpa using hm0⟩
    have hmarked : marked s id = true :=
      hmarks.grow id ((marked_mark h0).mpr (.inl ⟨rfl, by rw [hr.size]; exact hlt⟩))
    have hnot : id ∉ L ++ D := by
      rintro hid
      rcases List.mem_append.mp hid with hid | hid
      · exact hmk (hr.listed id hid)
      · obtain ⟨x, hx, hxid⟩ := hD id hid
        exact not_below_of_arg hrank hn (by simpa using hx) hxid
    refine ⟨s, D ++ [id], ?_, ?_, ?_, ?_, ?_⟩
    · have hline : a.linesOf (L ++ (D ++ [id])) = out ++ dumpLine id n := by
        rw [← List.append_assoc, linesOf_append, ← show out = a.linesOf (L ++ D) from hout]
        simp [linesOf, lineOf, hn]
      simp [dumpWithin, hmk, get_of_node? hn, ← Array.foldlM_toList, hfold, hline, bind, Except.bind,
        pure, Except.pure]
    · rw [← List.append_assoc]
      refine List.nodup_append.mpr ⟨hnd, List.nodup_singleton id, fun y hy z hz => ?_⟩
      rw [List.mem_singleton.mp hz]
      rintro rfl
      exact hnot hy
    · rw [← List.append_assoc]
      refine hord.append_singleton fun n' hn' x hx => ?_
      rw [hn, Option.some.injEq] at hn'
      subst hn'
      exact hmarks.complete x ⟨x, by simpa using hx, .root⟩ trivial
    · intro y hy
      rcases List.mem_append.mp hy with hy | hy
      · obtain ⟨x, hx, hxy⟩ := hD y hy
        exact Below.head hn (by simpa using hx) hxy
      · rw [List.mem_singleton.mp hy]
        exact .root
    · refine hmarks.unmark h0 .root (fun y ⟨x, hx, hy⟩ => Below.head hn (by simpa using hx) hy)
        (fun y hy => ?_) fun y hy _ => ?_
      · rw [← List.append_assoc] at hy
        rcases List.mem_append.mp hy with hy | hy
        · exact hmarks.listed y hy
        · rw [List.mem_singleton.mp hy]
          exact hmarked
      · rcases Below.cases_head hn hy with rfl | ⟨x, hx, hxy⟩
        · simp
        · have := hmarks.complete y ⟨x, by simpa using hx, hxy⟩ trivial
          rw [← List.append_assoc]
          exact List.mem_append_left _ this

/-- The dump of a root whose nodes below all exist: one line per node below it, each once and after
all of its operands. -/
theorem dump_lines (hacyc : a.Acyclic) {root : NodeId}
    (hex : ∀ y, a.Below root y → ∃ n, a.node? y = some n) :
    ∃ order, a.dump root = .ok (a.linesOf order) ∧ order.Nodup ∧ (∀ y, y ∈ order ↔ a.Below root y) ∧
      a.OperandsFirst order := by
  obtain ⟨rank, hrank⟩ := hacyc
  obtain ⟨n, hn⟩ := hex root .root
  have hready : a.DumpReady root (Array.replicate a.size false) [] :=
    ⟨by simp, by simp, List.nodup_nil, fun pre y post h => by simp at h, by simp⟩
  obtain ⟨s, D, hrun, hnd, hord, hD, hm⟩ := dumpSpec_of_below (fun id n hn => (hrank id n hn).2) hex
    .root (a.size + 1) (by have := (hrank _ _ hn).1; omega) _ [] hready
  refine ⟨D, ?_, by simpa using hnd, fun y => ⟨hD y, fun hy => by simpa using hm.complete y hy trivial⟩,
    by simpa using hord⟩
  have hempty : a.linesOf [] = "" := rfl
  rw [hempty, List.nil_append] at hrun
  simp [dump, valid_of_node? hn, hrun, bind, Except.bind, pure, Except.pure]

end Dump

/-- The orders in which the walks from `root` meet the graph below it. -/
structure WalkOrder (a : Arena) (root : NodeId) : Prop where
  /-- The leaf walk lists the leaves of the unfolding left to right, each once, at its first
  occurrence: exactly the leaf nodes the root reaches. The signals are those of them that are
  signals or bit-fields, and the signal names are their names, each once. -/
  leaves : ∃ T, a.Spans root T ∧ a.leaves root = .ok (dedupInto [] T.leafIds).toArray ∧
    (dedupInto [] T.leafIds).Nodup ∧
    (∀ y, y ∈ dedupInto [] T.leafIds ↔ a.Reaches root y ∧ a.IsLeaf y) ∧
    a.signals root = .ok ((dedupInto [] T.leafIds).filter a.isSignal).toArray ∧
    a.signalNames root =
      .ok (dedupInto [] (((dedupInto [] T.leafIds).filter a.isSignal).map a.nameOf)).toArray
  /-- The dump writes one line for every node below the root, once, after all of its operands. -/
  dump : ∃ order, a.dump root = .ok (a.linesOf order) ∧ order.Nodup ∧
    (∀ y, y ∈ order ↔ a.Below root y) ∧ a.OperandsFirst order
  /-- Over regular nodes, the canonical text is that of the unfolded tree with its `k`-th signal
  name renamed `v<k>`, so that the renamed signals first occur as `v0`, `v1`, … -/
  canonical : a.RegularBelow root → ∃ t, a.Unfolds root t ∧ a.signalNames root = .ok t.names.toArray ∧
    a.canonical root = .ok t.canonical.text ∧
    t.canonical.names = (List.range t.names.length).map (fun k => "v" ++ toString k) ∧
    ∃ f, t.canonical = t.rename f ∧ ∀ k (hk : k < t.names.length), f t.names[k] = "v" ++ toString k

/-- On an acyclic graph whose nodes below the root exist, the leaf walk, the dump and the canonical
text meet the nodes in the orders `WalkOrder` gives. -/
theorem walks_follow_first_occurrences (hacyc : a.Acyclic) {root : NodeId}
    (hex : ∀ y, a.Below root y → ∃ n, a.node? y = some n) : a.WalkOrder root := by
  refine ⟨?_, dump_lines hacyc hex, fun hreg => ?_⟩
  · obtain ⟨T, hT⟩ := spans_of_present hacyc fun y hr => hex y hr.toBelow
    refine ⟨T, hT, hT.leaves_eq hacyc, nodup_dedupInto List.nodup_nil _, fun y => ?_,
      hT.signals_eq hacyc, hT.signalNames_eq hacyc⟩
    simpa using hT.mem_leafIds
  · obtain ⟨t, ht⟩ := unfolds_of_regular hacyc hreg
    exact ⟨t, ht, ht.signalNames_eq hacyc, ht.canonical_eq hacyc, t.names_canonical, _, rfl,
      t.vName_getElem_names⟩

end Arena

/-- `(a + b) * (a + b)`, the sum shared. -/
def sharedSum : Arena :=
  ⟨#[{ kind := .var, name := "a" }, { kind := .var, name := "b" }, { kind := .add, args := #[0, 1] },
    { kind := .mul, args := #[2, 2] }]⟩

theorem shared_sum_walks_in_order : sharedSum.WalkOrder 3 :=
  Arena.walks_follow_first_occurrences (Arena.acyclic_of_args_lt (by decide))
    fun _ hb => Arena.Below.exists_node_of_args_lt (by decide) ⟨_, rfl⟩ hb

/-- `k + b` where `k` is a node of an unknown kind over `a`: the leaf walk goes through `k` and meets
`a` first, while the canonical text prints `k` without its operands, so the first signal it names is
`v1`. -/
def hiddenSum : Arena :=
  ⟨#[{ kind := .var, name := "a" }, { kind := .var, name := "b" }, { kind := .other 999, args := #[0] },
    { kind := .add, args := #[2, 1] }]⟩

theorem hidden_operand_shifts_canonical_names :
    hiddenSum.Acyclic ∧ hiddenSum.signalNames 3 = .ok #["a", "b"] ∧
      hiddenSum.canonical 3 = .ok "(<kind(999)>+v1)" :=
  ⟨Arena.acyclic_of_args_lt (by decide), by with_unfolding_all rfl, by with_unfolding_all rfl⟩

end BitSynth
