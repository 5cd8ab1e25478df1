import Mathlib.Data.List.Basic
import BitSynth.Proofs.Format

namespace BitSynth

/-- The elements of `xs` appended to `acc` one by one, each only when not already present: the first
occurrences, in order. -/
def dedupInto {α : Type} [DecidableEq α] (acc xs : List α) : List α :=
  xs.foldl (fun acc y => if y ∈ acc then acc else acc ++ [y]) acc

section Dedup

variable {α β : Type} [DecidableEq α] [DecidableEq β]

@[simp] theorem dedupInto_nil (acc : List α) : dedupInto acc [] = acc := rfl

theorem dedupInto_cons (acc : List α) (y : α) (xs : List α) :
    dedupInto acc (y :: xs) = dedupInto (if y ∈ acc then acc else acc ++ [y]) xs := rfl

theorem dedupInto_append (acc xs ys : List α) :
    dedupInto acc (xs ++ ys) = dedupInto (dedupInto acc xs) ys := by
  simp [dedupInto, List.foldl_append]

@[simp] theorem mem_dedupInto {acc xs : List α} {y : α} : y ∈ dedupInto acc xs ↔ y ∈ acc ∨ y ∈ xs := by
  induction xs generalizing acc with
  | nil => simp
  | cons x xs ih =>
    rw [dedupInto_cons, ih]
    by_cases hx : x ∈ acc
    · simp only [hx, if_true, List.mem_cons]
      constructor
      · rintro (h | h) <;> simp [h]
      · rintro (h | rfl | h) <;> simp [*]
    · simp [hx, or_assoc]

theorem dedupInto_eq_self {acc xs : List α} (h : ∀ y ∈ xs, y ∈ acc) : dedupInto acc xs = acc := by
  induction xs with
  | nil => rfl
  | cons x xs ih =>
    rw [dedupInto_cons, if_pos (h x (by simp))]
    exact ih fun y hy => h y (by simp [hy])

theorem dedupInto_singleton {acc : List α} {y : α} (h : y ∉ acc) : dedupInto acc [y] = acc ++ [y] := by
  simp [dedupInto_cons, h]

theorem filter_dedupInto (p : α → Bool) (acc xs : List α) :
    (dedupInto acc xs).filter p = dedupInto (acc.filter p) (xs.filter p) := by
  induction xs generalizing acc with
  | nil => rfl
  | cons x xs ih =>
    rw [dedupInto_cons, ih]
    by_cases hp : p x = true
    · by_cases hx : x ∈ acc
      · simp [hp, hx, dedupInto_cons]
      · simp [hp, hx, dedupInto_cons, List.filter_append]
    · split <;> simp [hp, List.filter_append]

/-- Dropping repeats after a map sees through repeats dropped before it. -/
theorem dedupInto_map_dedupInto (f : α → β) (B : List β) (acc xs : List α) :
    dedupInto B ((dedupInto acc xs).map f) = dedupInto (dedupInto B (acc.map f)) (xs.map f) := by
  induction xs generalizing acc with
  | nil => rfl
  | cons x xs ih =>
    rw [dedupInto_cons, ih, List.map_cons, dedupInto_cons]
    congr 1
    by_cases hx : x ∈ acc
    · have hfx : f x ∈ dedupInto B (acc.map f) := mem_dedupInto.mpr (.inr (List.mem_map_of_mem hx))
      simp [hx, hfx]
    · rw [if_neg hx, List.map_append, dedupInto_append]
      rfl

end Dedup

namespace Kind

theorem isLeaf_iff {k : Kind} :
    k.isLeaf = Bool.true ↔ k = .var ∨ k = .int ∨ k = .true ∨ k = .false ∨ k = .bitField := by
  simp [isLeaf, or_assoc]

theorem isLeaf_of_isUnary {k : Kind} (h : k.isUnary = Bool.true) : k.isLeaf = Bool.false := by
  rcases unary_cases h with rfl | rfl | rfl <;> rfl

theorem IsInfix.isLeaf {k : Kind} (h : k.IsInfix) : k.isLeaf = Bool.false := by
  rcases h.cases with rfl | rfl | rfl | rfl | rfl | rfl | rfl | rfl | rfl | rfl | rfl | rfl | rfl | rfl |
    rfl | rfl | rfl <;> rfl

end Kind

theorem List.exists_mem_zip_right {α β : Type} {xs : List α} {ys : List β} {x : α}
    (hlen : xs.length = ys.length) (hx : x ∈ xs) : ∃ y, (x, y) ∈ xs.zip ys := by
  obtain ⟨i, hi, rfl⟩ := List.mem_iff_getElem.mp hx
  exact ⟨ys[i], List.mem_iff_getElem.mpr ⟨i, by simp [← hlen, hi], by simp⟩⟩

namespace Arena

variable {a : Arena}

theorem node?_bounds {id : NodeId} {n : Node} (h : a.node? id = some n) : 0 ≤ id ∧ id.toNat < a.size := by
  unfold node? at h
  split at h
  · exact ⟨‹_›, (Array.getElem?_eq_some_iff.mp h).1⟩
  · cases h

theorem get_of_node? {id : NodeId} {n : Node} (h : a.node? id = some n) : a.get id = .ok n := by
  simp [get, h]

theorem valid_of_node? {id : NodeId} {n : Node} (hn : a.node? id = some n) : a.valid id = true := by
  obtain ⟨h0, hlt⟩ := node?_bounds hn
  simp only [valid, h0, decide_true, Bool.true_and, decide_eq_true_eq]
  rw [← Int.toNat_of_nonneg h0]
  exact_mod_cast hlt

@[simp] theorem size_mark (seen : Array Bool) (id : NodeId) : (mark seen id).size = seen.size := by
  unfold mark
  split <;> simp

theorem marked_mark {seen : Array Bool} {id x : Int} (hid : 0 ≤ id) :
    marked (mark seen id) x = Bool.true ↔ (x = id ∧ id.toNat < seen.size) ∨ marked seen x = Bool.true := by
  simp only [marked, mark, if_pos hid, Bool.and_eq_true, decide_eq_true_eq, Array.getD_eq_getD_getElem?,
    Array.getElem?_setIfInBounds]
  by_cases hx : 0 ≤ x
  · by_cases he : id.toNat = x.toNat
    · have : x = id := by omega
      subst this
      by_cases hs : x.toNat < seen.size <;> simp [hs, hx]
    · have : x ≠ id := by omega
      simp [he, hx, this]
  · have : x ≠ id := by omega
    simp [hx, this]

theorem marked_of_marked_mark {seen : Array Bool} {x : NodeId} (id : NodeId)
    (h : marked seen x = Bool.true) : marked (mark seen id) x = Bool.true := by
  by_cases hid : 0 ≤ id
  · exact (marked_mark hid).mpr (.inr h)
  · simpa [mark, hid] using h

@[simp] theorem marked_replicate (k : Nat) (x : NodeId) : marked (Array.replicate k false) x = false := by
  simp [marked, Array.getElem?_replicate]
  split <;> simp

theorem Below.trans {r m x : NodeId} (h₁ : a.Below r m) (h₂ : a.Below m x) : a.Below r x := by
  induction h₂ with
  | root => exact h₁
  | arg _ hn hx ih => exact .arg ih hn hx

theorem Below.head {id x y : NodeId} {n : Node} (hn : a.node? id = some n) (hx : x ∈ n.args)
    (h : a.Below x y) : a.Below id y :=
  (Below.arg .root hn hx).trans h

theorem Below.cases_head {id y : NodeId} {n : Node} (hn : a.node? id = some n) (h : a.Below id y) :
    y = id ∨ ∃ x ∈ n.args, a.Below x y := by
  induction h with
  | root => exact .inl rfl
  | @arg m z k _ hk hz ih =>
    right
    rcases ih with rfl | ⟨x, hx, hxm⟩
    · rw [hn, Option.some.injEq] at hk
      subst hk
      exact ⟨z, hz, .root⟩
    · exact ⟨x, hx, .arg hxm hk hz⟩

theorem Below.rank_le {rank : NodeId → Nat}
    (hrank : ∀ id n, a.node? id = some n → ∀ x ∈ n.args, rank x < rank id) {r x : NodeId}
    (h : a.Below r x) : rank x ≤ rank r := by
  induction h with
  | root => exact Nat.le_refl _
  | arg _ hn hx ih =>
    have := hrank _ _ hn _ hx
    omega

/-- The node with this id is a leaf: a signal, a bit-field or a constant. -/
def IsLeaf (a : Arena) (id : NodeId) : Prop := ∃ n, a.node? id = some n ∧ n.kind.isLeaf = Bool.true

/-- Induction over unfoldings with the operator rules taken together: a leaf is its own only leaf,
and its only signal when it is one; an operator node has a list of operand trees, one per operand,
whose leaves and signals are its own. -/
theorem Unfolds.induction_on {motive : NodeId → Term NodeId → Prop}
    (leaf : ∀ {id n} (t : Term NodeId), a.Unfolds id t → a.node? id = some n →
      n.kind.isLeaf = Bool.true → n.args = #[] → t.leafTags = [id] →
      t.signals = (if n.kind = .var ∨ n.kind = .bitField then [(id, n.name)] else []) → motive id t)
    (node : ∀ {id n} (t : Term NodeId) (cs : List (Term NodeId)), a.Unfolds id t →
      a.node? id = some n → n.kind.isLeaf = Bool.false → n.args.size = cs.length →
      (∀ p ∈ n.args.toList.zip cs, a.Unfolds p.1 p.2 ∧ motive p.1 p.2) →
      t.leafTags = cs.flatMap Term.leafTags → t.signals = cs.flatMap Term.signals → motive id t)
    {id : NodeId} {t : Term NodeId} (h : a.Unfolds id t) : motive id t := by
  induction h with
  | var hn hk ha =>
    exact leaf _ (.var hn hk ha) hn (by simp [hk, Kind.isLeaf_iff]) ha rfl (by simp [hk, Term.signals])
  | int hn hk ha =>
    exact leaf _ (.int hn hk ha) hn (by simp [hk, Kind.isLeaf_iff]) ha rfl (by simp [hk, Term.signals])
  | bitField hn hk ha =>
    exact leaf _ (.bitField hn hk ha) hn (by simp [hk, Kind.isLeaf_iff]) ha rfl
      (by simp [hk, Term.signals])
  | @bool id n b hn hk ha =>
    exact leaf _ (.bool hn hk ha) hn (by cases b <;> simp [hk, Kind.isLeaf_iff]) ha rfl
      (by cases b <;> simp [hk, Term.signals])
  | @unary id x n tx hn hk ha hx ih =>
    exact node _ [tx] (.unary hn hk ha hx) hn (Kind.isLeaf_of_isUnary hk) (by simp [ha])
      (by simp [ha, hx, ih]) (by simp [Term.leafTags]) (by simp [Term.signals])
  | @toBool id x n tx hn hk ha hx ih =>
    exact node _ [tx] (.toBool hn hk ha hx) hn (by rw [hk]; rfl) (by simp [ha]) (by simp [ha, hx, ih])
      (by simp [Term.leafTags]) (by simp [Term.signals])
  | @toInt id x n tx hn hk ha hx ih =>
    exact node _ [tx] (.toInt hn hk ha hx) hn (by rw [hk]; rfl) (by simp [ha]) (by simp [ha, hx, ih])
      (by simp [Term.leafTags]) (by simp [Term.signals])
  | @binary id l r n tl tr hn hk ha hl hr ihl ihr =>
    refine node _ [tl, tr] (.binary hn hk ha hl hr) hn hk.isLeaf (by simp [ha]) ?_
      (by simp [Term.leafTags]) (by simp [Term.signals])
    simp [ha, hl, hr, ihl, ihr]
  | @query id c t e n tc tt te hn hk ha hc ht he ihc iht ihe =>
    refine node _ [tc, tt, te] (.query hn hk ha hc ht he) hn (by rw [hk]; rfl) (by simp [ha]) ?_
      (by simp [Term.leafTags]) (by simp [Term.signals])
    simp [ha, hc, ht, he, ihc, iht, ihe]
  | @concat id n ts hn hk hne hlen hs ih =>
    exact node _ ts (.concat hn hk hne hlen hs) hn (by rw [hk]; rfl) hlen
      (fun p hp => ⟨hs p hp, ih p hp⟩) (by simp [Term.leafTags]) (by simp [Term.signals])

/-- The leaves of an unfolded tree are exactly the leaf nodes below its top. -/
theorem Unfolds.mem_leafTags {id y : NodeId} {t : Term NodeId} (h : a.Unfolds id t) :
    y ∈ t.leafTags ↔ a.Below id y ∧ a.IsLeaf y := by
  refine Unfolds.induction_on (motive := fun id t => y ∈ t.leafTags ↔ a.Below id y ∧ a.IsLeaf y)
    ?leaf ?node h
  case leaf =>
    intro id n t _ hn hk ha hl _
    rw [hl, List.mem_singleton]
    constructor
    · rintro rfl
      exact ⟨.root, _, hn, hk⟩
    · rintro ⟨hb, -⟩
      simpa [ha] using Below.cases_head hn hb
  case node =>
    intro id n t cs _ hn hk hlen hs hl _
    rw [hl, List.mem_flatMap]
    constructor
    · rintro ⟨c, hc, hy⟩
      obtain ⟨x, hxc⟩ := List.exists_mem_zip_left (show n.args.toList.length = cs.length by simp [hlen]) hc
      obtain ⟨hb, hleaf⟩ := ((hs _ hxc).2).mp hy
      exact ⟨Below.head hn (by simpa using (List.of_mem_zip hxc).1) hb, hleaf⟩
    · rintro ⟨hb, hleaf⟩
      rcases Below.cases_head hn hb with rfl | ⟨x, hx, hxy⟩
      · obtain ⟨n', hn', hk'⟩ := hleaf
        rw [hn, Option.some.injEq] at hn'
        subst hn'
        simp [hk] at hk'
      · obtain ⟨c, hxc⟩ := List.exists_mem_zip_right (show n.args.toList.length = cs.length by simp [hlen])
          (show x ∈ n.args.toList by simpa using hx)
        exact ⟨c, (List.of_mem_zip hxc).2, ((hs _ hxc).2).mpr ⟨hxy, hleaf⟩⟩

theorem Unfolds.exists_node {id : NodeId} {t : Term NodeId} (h : a.Unfolds id t) :
    ∃ n, a.node? id = some n := by
  cases h <;> exact ⟨_, ‹_›⟩

/-- What the leaf walk needs on entering `id`: one mark per node, every listed leaf marked, and every
leaf below a marked node below `id` listed. -/
structure WalkReady (a : Arena) (id : NodeId) (seen : Array Bool) (out : Array NodeId) : Prop where
  size : seen.size = a.size
  listed : ∀ y ∈ out, marked seen y = Bool.true
  done : ∀ m, a.Below id m → marked seen m = Bool.true → ∀ y, a.Below m y → a.IsLeaf y → y ∈ out

/-- A stretch of the leaf walk, from marks `s₀` and list `o₀` to `s` and `o`: the leaves `L` were
appended, each unless listed already; marks were only added, and only to nodes of `R`; and every leaf
of `R` is listed. -/
structure Walked (a : Arena) (s₀ : Array Bool) (o₀ : Array NodeId) (L : List NodeId)
    (R : NodeId → Prop) (s : Array Bool) (o : Array NodeId) : Prop where
  out : o.toList = dedupInto o₀.toList L
  size : s.size = a.size
  listed : ∀ y ∈ o, marked s y = Bool.true
  grow : ∀ x, marked s₀ x = Bool.true → marked s x = Bool.true
  new : ∀ x, marked s x = Bool.true → marked s₀ x = Bool.true ∨ R x
  complete : ∀ y, R y → a.IsLeaf y → y ∈ o

section Walked

variable {s₀ s₁ s : Array Bool} {o₀ o₁ o : Array NodeId} {L L₁ L₂ : List NodeId}
  {R R₁ R₂ : NodeId → Prop}

theorem Walked.mem_of_mem (w : a.Walked s₀ o₀ L R s o) {y : NodeId} (hy : y ∈ o₀) : y ∈ o := by
  rw [Array.mem_def, w.out]
  exact mem_dedupInto.mpr (.inl (Array.mem_def.mp hy))

theorem Walked.trans (w₁ : a.Walked s₀ o₀ L₁ R₁ s₁ o₁) (w₂ : a.Walked s₁ o₁ L₂ R₂ s o) :
    a.Walked s₀ o₀ (L₁ ++ L₂) (fun y => R₁ y ∨ R₂ y) s o where
  out := by rw [w₂.out, w₁.out, dedupInto_append]
  size := w₂.size
  listed := w₂.listed
  grow x h := w₂.grow x (w₁.grow x h)
  new x h := by
    rcases w₂.new x h with h | h
    · rcases w₁.new x h with h | h
      · exact .inl h
      · exact .inr (.inl h)
    · exact .inr (.inr h)
  complete y hy hl := by
    rcases hy with hy | hy
    · exact w₂.mem_of_mem (w₁.complete y hy hl)
    · exact w₂.complete y hy hl

theorem Walked.congr {L' : List NodeId} {R' : NodeId → Prop} (w : a.Walked s₀ o₀ L R s o)
    (hL : L = L') (hR : ∀ y, R y ↔ R' y) : a.Walked s₀ o₀ L' R' s o := by
  subst hL
  obtain ⟨h₁, h₂, h₃, h₄, h₅, h₆⟩ := w
  exact ⟨h₁, h₂, h₃, h₄, fun x h => (h₅ x h).imp_right (hR x).mp, fun y hy => h₆ y ((hR y).mpr hy)⟩

end Walked

/-- The leaf walk from `id` succeeds from every ready state once its fuel exceeds the rank of `id`, and
appends the leaves of `t`. -/
def WalkSpec (a : Arena) (rank : NodeId → Nat) (id : NodeId) (t : Term NodeId) : Prop :=
  ∀ fuel, rank id < fuel → ∀ seen out, a.WalkReady id seen out →
    ∃ seen' out', a.leavesWithin fuel id (seen, out) = .ok (seen', out') ∧
      a.Walked seen out t.leafTags (a.Below id) seen' out'

section Walk

variable {id : NodeId} {n : Node} {t : Term NodeId} {seen : Array Bool} {out : Array NodeId}

theorem walked_of_marked (h : a.Unfolds id t) (hr : a.WalkReady id seen out)
    (hm : marked seen id = Bool.true) : a.Walked seen out t.leafTags (a.Below id) seen out where
  out := (dedupInto_eq_self fun y hy => by
    obtain ⟨hb, hl⟩ := h.mem_leafTags.mp hy
    exact Array.mem_def.mp (hr.done id .root hm y hb hl)).symm
  size := hr.size
  listed := hr.listed
  grow _ h := h
  new _ h := .inl h
  complete y hb hl := hr.done id .root hm y hb hl

/-- Entering an unmarked leaf marks and lists it. -/
theorem walked_leaf (hn : a.node? id = some n) (ha : n.args = #[]) (hl : t.leafTags = [id])
    (hr : a.WalkReady id seen out) (hm : ¬marked seen id = Bool.true) :
    a.Walked seen out t.leafTags (a.Below id) (mark seen id) (out.push id) := by
  obtain ⟨hid, hlt⟩ := node?_bounds hn
  have hnot : id ∉ out.toList := fun h => hm (hr.listed id (Array.mem_def.mpr h))
  refine ⟨?_, by simp [hr.size], ?_, fun x h => marked_of_marked_mark id h, ?_, ?_⟩
  · rw [hl, Array.toList_push, dedupInto_singleton hnot]
  · intro y hy
    rcases Array.mem_push.mp hy with hy | rfl
    · exact marked_of_marked_mark _ (hr.listed y hy)
    · exact (marked_mark hid).mpr (.inl ⟨rfl, by rw [hr.size]; exact hlt⟩)
  · intro x h
    rcases (marked_mark hid).mp h with ⟨rfl, -⟩ | h
    · exact .inr .root
    · exact .inl h
  · intro y hb _
    rcases Below.cases_head hn hb with rfl | ⟨x, hx, -⟩
    · exact Array.mem_push_self
    · simp [ha] at hx

/-- Entering an unmarked operator marks it and walks its operands; the walk over the operands
covers everything below it. -/
theorem walked_node (hn : a.node? id = some n) (hk : n.kind.isLeaf = Bool.false)
    (hm : ¬marked seen id = Bool.true) {s : Array Bool} {o : Array NodeId}
    (w : a.Walked (mark seen id) out t.leafTags (fun y => ∃ x ∈ n.args.toList, a.Below x y) s o) :
    a.Walked seen out t.leafTags (a.Below id) s o := by
  obtain ⟨hid, -⟩ := node?_bounds hn
  refine ⟨w.out, w.size, w.listed, fun x h => w.grow x (marked_of_marked_mark id h), ?_, ?_⟩
  · intro x h
    rcases w.new x h with h | ⟨x', hx', hb⟩
    · rcases (marked_mark hid).mp h with ⟨rfl, -⟩ | h
      · exact .inr .root
      · exact .inl h
    · exact .inr (Below.head hn (Array.mem_def.mpr hx') hb)
  · intro y hb hleaf
    rcases Below.cases_head hn hb with rfl | ⟨x, hx, hxy⟩
    · obtain ⟨n', hn', hk'⟩ := hleaf
      rw [hn, Option.some.injEq] at hn'
      subst hn'
      simp [hk] at hk'
    · exact w.complete y ⟨x, Array.mem_def.mp hx, hxy⟩ hleaf

/-- The walk over the operands of `id`, one operand after the other. Each operand is entered ready:
a marked node below it was marked before `id` was entered, or lies below an operand already walked,
and it cannot be `id` itself, whose rank is larger. -/
theorem walk_fold {rank : NodeId → Nat}
    (hrank : ∀ id n, a.node? id = some n → ∀ x ∈ n.args, rank x < rank id)
    (hn : a.node? id = some n) (f : Nat) (hf : rank id ≤ f) (hr : a.WalkReady id seen out) :
    ∀ (xs : List NodeId) (cs : List (Term NodeId)) (done L : List NodeId) (s : Array Bool)
      (o : Array NodeId), xs.length = cs.length →
      (∀ p ∈ xs.zip cs, p.1 ∈ n.args ∧ a.WalkSpec rank p.1 p.2) →
      a.Walked (mark seen id) out L (fun y => ∃ x ∈ done, a.Below x y) s o →
      ∃ s' o', xs.foldlM (fun st arg => a.leavesWithin f arg st) (s, o) = .ok (s', o') ∧
        a.Walked (mark seen id) out (L ++ cs.flatMap Term.leafTags)
          (fun y => ∃ x ∈ done ++ xs, a.Below x y) s' o'
  | [], [], done, L, s, o, _, _, w => ⟨s, o, rfl, w.congr (by simp) (by simp)⟩
  | x :: xs, c :: cs, done, L, s, o, hlen, hs, w => by
    obtain ⟨hx, hspec⟩ : x ∈ n.args ∧ a.WalkSpec rank x c := hs (x, c) (by simp)
    have hready : a.WalkReady x s o := by
      refine ⟨w.size, w.listed, fun m hbm hmm y hby hly => ?_⟩
      rcases w.new m hmm with h | ⟨x', hx', hb'⟩
      · rcases (marked_mark (node?_bounds hn).1).mp h with ⟨rfl, -⟩ | h
        · have h₁ := Below.rank_le hrank hbm
          have h₂ := hrank _ _ hn x hx
          omega
        · exact w.mem_of_mem (hr.done m (Below.head hn hx hbm) h y hby hly)
      · exact w.complete y ⟨x', hx', hb'.trans hby⟩ hly
    obtain ⟨s₁, o₁, hrun, w₁⟩ := hspec f (by have := hrank id n hn x hx; omega) s o hready
    have w₂ : a.Walked (mark seen id) out (L ++ c.leafTags) (fun y => ∃ x' ∈ done ++ [x], a.Below x' y)
        s₁ o₁ :=
      (w.trans w₁).congr rfl fun y => by simp [or_and_right, exists_or]
    obtain ⟨s', o', hfold, w'⟩ := walk_fold hrank hn f hf hr xs cs (done ++ [x]) (L ++ c.leafTags) s₁ o₁
      (by simpa using hlen) (fun p hp => hs p (by simp [hp])) w₂
    exact ⟨s', o', by simp [List.foldlM_cons, hrun, hfold, bind, Except.bind],
      w'.congr (by simp) (by simp)⟩

end Walk

/-- The leaf walk is correct on every unfolded tree of a graph ranked by `rank`. -/
theorem Unfolds.walk {rank : NodeId → Nat}
    (hrank : ∀ id n, a.node? id = some n → ∀ x ∈ n.args, rank x < rank id) {id : NodeId}
    {t : Term NodeId} (h : a.Unfolds id t) : a.WalkSpec rank id t := by
  refine Unfolds.induction_on (motive := fun id t => a.WalkSpec rank id t) ?leaf ?node h
  case leaf =>
    intro id n t hu hn hk ha hl _ fuel hf seen out hr
    obtain ⟨f, rfl⟩ : ∃ f, fuel = f + 1 := ⟨fuel - 1, by omega⟩
    by_cases hm : marked seen id = Bool.true
    · exact ⟨seen, out, by simp [leavesWithin, hm], walked_of_marked hu hr hm⟩
    · refine ⟨mark seen id, out.push id, ?_, walked_leaf hn ha hl hr hm⟩
      simp [leavesWithin, hm, get_of_node? hn, hk, bind, Except.bind, pure, Except.pure]
  case node =>
    intro id n t cs hu hn hk hlen hs hl _ fuel hf seen out hr
    obtain ⟨f, rfl⟩ : ∃ f, fuel = f + 1 := ⟨fuel - 1, by omega⟩
    by_cases hm : marked seen id = Bool.true
    · exact ⟨seen, out, by simp [leavesWithin, hm], walked_of_marked hu hr hm⟩
    · have w₀ : a.Walked (mark seen id) out [] (fun y => ∃ x ∈ ([] : List NodeId), a.Below x y)
          (mark seen id) out :=
        ⟨rfl, by simp [hr.size], fun y hy => marked_of_marked_mark id (hr.listed y hy), fun _ h => h,
          fun _ h => .inl h, by simp⟩
      obtain ⟨s', o', hfold, w⟩ := walk_fold hrank hn f (by omega) hr n.args.toList cs [] [] _ _
        (by simp [hlen]) (fun p hp => ⟨by simpa using (List.of_mem_zip hp).1, (hs p hp).2⟩) w₀
      refine ⟨s', o', ?_, walked_node hn hk hm (w.congr (by simp [hl]) (by simp))⟩
      simp [leavesWithin, hm, get_of_node? hn, hk, ← Array.foldlM_toList, hfold, bind, Except.bind]

theorem Unfolds.leaves_eq (hacyc : a.Acyclic) {root : NodeId} {t : Term NodeId}
    (h : a.Unfolds root t) : a.leaves root = .ok (dedupInto [] t.leafTags).toArray := by
  obtain ⟨rank, hrank⟩ := hacyc
  obtain ⟨n, hn⟩ := h.exists_node
  have hready : a.WalkReady root (Array.replicate a.size false) #[] := ⟨by simp, by simp, by simp⟩
  obtain ⟨s, o, hrun, w⟩ := h.walk (fun id n hn => (hrank id n hn).2) (a.size + 1)
    (by have := (hrank _ _ hn).1; omega) _ _ hready
  have ho : o = (dedupInto [] t.leafTags).toArray := by
    rw [← Array.toList_inj, w.out]
  simp [leaves, hrun, ho, bind, Except.bind, pure, Except.pure]

/-- Whether a node is a signal or a bit-field, the test `Arena.signals` makes. -/
def isSignal (a : Arena) (id : NodeId) : Bool :=
  match a.node? id with
  | some n => n.kind == .var || n.kind == .bitField
  | none => false

/-- The source name of a node. -/
def nameOf (a : Arena) (id : NodeId) : String := ((a.node? id).map Node.name).getD ""

/-- The signals of an unfolded tree are its leaves that are signals or bit-fields, each with the name
of its node. -/
theorem Unfolds.signals_eq {id : NodeId} {t : Term NodeId} (h : a.Unfolds id t) :
    t.signals = (t.leafTags.filter a.isSignal).map fun y => (y, a.nameOf y) := by
  refine Unfolds.induction_on
    (motive := fun _ t => t.signals = (t.leafTags.filter a.isSignal).map fun y => (y, a.nameOf y))
    ?leaf ?node h
  case leaf =>
    intro id n t _ hn hk _ hl hs
    rw [hs, hl]
    by_cases hsig : n.kind = .var ∨ n.kind = .bitField
    · have : a.isSignal id = Bool.true := by
        rcases hsig with h | h <;> simp [isSignal, hn, h]
      simp [hsig, this, nameOf, hn]
    · have : a.isSignal id = Bool.false := by
        simpa [isSignal, hn] using hsig
      simp [hsig, this]
  case node =>
    intro id n t cs _ _ _ hlen hs hl hsig
    rw [hsig, hl, List.filter_flatMap, List.map_flatMap]
    refine List.flatMap_congr fun c hc => ?_
    obtain ⟨x, hxc⟩ := List.exists_mem_zip_left (show n.args.toList.length = cs.length by simp [hlen]) hc
    exact (hs _ hxc).2

theorem Unfolds.map_nameOf_signals {id : NodeId} {t : Term NodeId} (h : a.Unfolds id t) :
    (t.signals.map Prod.fst).map a.nameOf = t.signalNames := by
  rw [Term.signalNames, h.signals_eq]
  simp [Function.comp_def]

theorem Unfolds.mem_signals {id y : NodeId} {t : Term NodeId} (h : a.Unfolds id t)
    (hy : y ∈ t.signals.map Prod.fst) :
    a.Below id y ∧ ∃ n, a.node? y = some n ∧ (n.kind = .var ∨ n.kind = .bitField) := by
  rw [h.signals_eq, List.map_map] at hy
  obtain ⟨y', hy', rfl⟩ := List.mem_map.mp hy
  obtain ⟨hleaf, hsig⟩ := List.mem_filter.mp hy'
  obtain ⟨hb, n, hn, -⟩ := h.mem_leafTags.mp hleaf
  refine ⟨hb, n, hn, ?_⟩
  simpa [isSignal, hn] using hsig

theorem List.filterM_except_ok {α ε : Type} {p : α → Except ε Bool} {q : α → Bool} :
    ∀ (xs : List α) (acc : Array α), (∀ x ∈ xs, p x = .ok (q x)) →
      xs.foldlM (fun acc x => do if (← p x) then return acc.push x else return acc) acc =
        .ok (acc ++ (xs.filter q).toArray)
  | [], acc, _ => by simp [pure, Except.pure]
  | x :: xs, acc, h => by
    have hx := h x (by simp)
    have ih := List.filterM_except_ok xs (if q x then acc.push x else acc) fun y hy => h y (by simp [hy])
    cases hq : q x <;> simp_all [List.foldlM_cons, bind, Except.bind, pure, Except.pure]

theorem Array.filterM_except_ok {α ε : Type} {p : α → Except ε Bool} {q : α → Bool} (xs : List α)
    (h : ∀ x ∈ xs, p x = .ok (q x)) : xs.toArray.filterM p = .ok (xs.filter q).toArray := by
  unfold Array.filterM
  rw [← Array.foldlM_toList]
  simpa using List.filterM_except_ok xs #[] h

theorem List.mapM_except_map {α β ε : Type} {f : α → Except ε β} {g : α → β} :
    ∀ (xs : List α), (∀ x ∈ xs, f x = .ok (g x)) → xs.mapM f = .ok (xs.map g)
  | [], _ => rfl
  | x :: xs, h => by
    have hx := h x (by simp)
    have hxs := List.mapM_except_map xs fun y hy => h y (by simp [hy])
    simp [List.mapM_cons, hx, hxs, bind, Except.bind, pure, Except.pure]

theorem distinctNames_toList (names : Array String) :
    (distinctNames names).toList = dedupInto [] names.toList := by
  suffices h : ∀ (l : List String) (acc : Array String),
      (l.foldl (fun acc s => if acc.contains s then acc else acc.push s) acc).toList =
        dedupInto acc.toList l by
    simpa [distinctNames, ← Array.foldl_toList] using h names.toList #[]
  intro l
  induction l with
  | nil => intro acc; rfl
  | cons y l ih =>
    intro acc
    rw [List.foldl_cons, ih, dedupInto_cons]
    by_cases hy : y ∈ acc
    · rw [if_pos (Array.contains_iff_mem.mpr hy), if_pos (Array.mem_def.mp hy)]
    · rw [if_neg (mt Array.contains_iff_mem.mp hy), if_neg (mt Array.mem_def.mpr hy), Array.toList_push]

theorem except_ok_bind {ε α β : Type} (x : α) (f : α → Except ε β) : (Except.ok x >>= f) = f x := rfl

/-- The signals below a root, listed by the graph walk: the signals of the unfolded tree, each node
once, in order of first occurrence. -/
theorem Unfolds.signals_eq_dedup (hacyc : a.Acyclic) {root : NodeId} {t : Term NodeId}
    (h : a.Unfolds root t) : a.signals root = .ok (dedupInto [] (t.signals.map Prod.fst)).toArray := by
  have hp : ∀ y ∈ dedupInto [] t.leafTags,
      (do let n ← a.get y; pure (n.kind == .var || n.kind == .bitField) : Except Fault Bool) =
        .ok (a.isSignal y) := by
    intro y hy
    obtain ⟨-, n, hn, -⟩ := h.mem_leafTags.mp (by simpa using hy)
    simp [get_of_node? hn, isSignal, hn, bind, Except.bind, pure, Except.pure]
  have hsig : t.signals.map Prod.fst = t.leafTags.filter a.isSignal := by
    rw [h.signals_eq, List.map_map]
    exact List.map_id' _
  rw [signals, h.leaves_eq hacyc, except_ok_bind, Array.filterM_except_ok _ hp, filter_dedupInto,
    List.filter_nil, hsig]

/-- The distinct signal names below a root, in order of first occurrence. -/
theorem Unfolds.signalNames_eq (hacyc : a.Acyclic) {root : NodeId} {t : Term NodeId}
    (h : a.Unfolds root t) : a.signalNames root = .ok (dedupInto [] t.signalNames).toArray := by
  have hname : ∀ y ∈ dedupInto [] (t.signals.map Prod.fst),
      (do pure (← a.get y).name : Except Fault String) = .ok (a.nameOf y) := by
    intro y hy
    obtain ⟨-, n, hn, -⟩ := h.mem_signals (by simpa using hy)
    simp [get_of_node? hn, nameOf, hn, bind, Except.bind, pure, Except.pure]
  rw [Arena.signalNames, h.signals_eq_dedup hacyc, except_ok_bind, Array.mapM_eq_mapM_toList,
    List.toList_toArray, List.mapM_except_map _ hname]
  simp only [Functor.map, Except.map, except_ok_bind, pure, Except.pure, Except.ok.injEq]
  rw [← Array.toList_inj, distinctNames_toList]
  simp [dedupInto_map_dedupInto, h.map_nameOf_signals]

end Arena

end BitSynth
