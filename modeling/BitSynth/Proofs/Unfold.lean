import Mathlib.Tactic.SplitIfs
import BitSynth.Proofs.Term
import BitSynth.Expr.Check

namespace BitSynth

namespace Kind

theorem beq_eq_decide (k k' : Kind) : (k == k') = decide (k = k') := by
  cases k <;> cases k' <;> first | rfl | skip
  rename_i c d
  show (c == d) = decide (Kind.other c = Kind.other d)
  by_cases h : c = d <;> simp [h]

instance : LawfulBEq Kind where
  eq_of_beq h := by simpa [beq_eq_decide] using h
  rfl := by simp [beq_eq_decide]

/-- The infix operators with a code of their own. -/
def IsInfix (k : Kind) : Prop := k.isBinary = Bool.true ∧ k ∈ known

theorem IsInfix.cases {k : Kind} (h : k.IsInfix) :
    k = .and ∨ k = .or ∨ k = .xor ∨ k = .add ∨ k = .sub ∨ k = .mul ∨ k = .div ∨ k = .mod ∨
      k = .shl ∨ k = .shr ∨ k = .asr ∨ k = .lt ∨ k = .gt ∨ k = .le ∨ k = .ge ∨ k = .eq ∨ k = .ne := by
  obtain ⟨hb, hk⟩ := h
  simp only [known, List.mem_cons, List.not_mem_nil, or_false] at hk
  rcases hk with rfl | rfl | rfl | rfl | rfl | rfl | rfl | rfl | rfl | rfl | rfl | rfl | rfl | rfl |
    rfl | rfl | rfl | rfl | rfl | rfl | rfl | rfl | rfl | rfl | rfl | rfl | rfl | rfl | rfl <;>
    simp_all +decide

theorem unary_cases {k : Kind} (h : k.isUnary = Bool.true) : k = .not ∨ k = .complement ∨ k = .neg := by
  cases k with
  | other c => simp [isUnary] at h
  | _ => revert h; decide

end Kind

/-- A node that validation lets through: a kind of its own, and the operands that kind takes (any
non-empty list for a concatenation). -/
def Node.Regular (n : Node) : Prop :=
  n.kind ∈ Kind.known ∧ if n.kind = .concat then n.args.size ≠ 0 else n.kind.operands = some n.args.size

instance : DecidablePred Node.Regular := fun n => by
  unfold Node.Regular
  infer_instance

namespace Arena

/-- The nodes reachable from `root` through operands, `root` included. -/
inductive Below (a : Arena) (root : NodeId) : NodeId → Prop where
  | root : a.Below root root
  | arg {id x : NodeId} {n : Node} : a.Below root id → a.node? id = some n → x ∈ n.args → a.Below root x

/-- A rank for every node, below the number of nodes, that drops from each node to each of its
operands: a topological order, which a graph has exactly when no node lies below itself. -/
def Acyclic (a : Arena) : Prop :=
  ∃ rank : NodeId → Nat, ∀ id n, a.node? id = some n → rank id < a.size ∧ ∀ x ∈ n.args, rank x < rank id

/-- Every node below `root` exists and is regular. -/
def RegularBelow (a : Arena) (root : NodeId) : Prop :=
  ∀ id, a.Below root id → ∃ n, a.node? id = some n ∧ n.Regular

/-- `a.Unfolds id t`: the graph below `id` is made of regular nodes and unfolds to the tree `t`,
whose nodes are tagged with their ids. -/
inductive Unfolds (a : Arena) : NodeId → Term NodeId → Prop where
  | var {id : NodeId} {n : Node} (hn : a.node? id = some n) (hk : n.kind = .var) (ha : n.args = #[]) :
      a.Unfolds id (.var id n.name)
  | int {id : NodeId} {n : Node} (hn : a.node? id = some n) (hk : n.kind = .int) (ha : n.args = #[]) :
      a.Unfolds id (.int id n.value)
  | bool {id : NodeId} {n : Node} {b : Bool} (hn : a.node? id = some n)
      (hk : n.kind = if b then .true else .false) (ha : n.args = #[]) :
      a.Unfolds id (.bool id b)
  | bitField {id : NodeId} {n : Node} (hn : a.node? id = some n) (hk : n.kind = .bitField)
      (ha : n.args = #[]) :
      a.Unfolds id (.bitField id n.name n.hi n.lo)
  | unary {id x : NodeId} {n : Node} {tx : Term NodeId} (hn : a.node? id = some n)
      (hk : n.kind.isUnary = true) (ha : n.args = #[x]) (hx : a.Unfolds x tx) :
      a.Unfolds id (.unary id n.kind tx)
  | binary {id l r : NodeId} {n : Node} {tl tr : Term NodeId} (hn : a.node? id = some n)
      (hk : n.kind.IsInfix) (ha : n.args = #[l, r]) (hl : a.Unfolds l tl) (hr : a.Unfolds r tr) :
      a.Unfolds id (.binary id n.kind tl tr)
  | query {id c t e : NodeId} {n : Node} {tc tt te : Term NodeId} (hn : a.node? id = some n)
      (hk : n.kind = .query) (ha : n.args = #[c, t, e]) (hc : a.Unfolds c tc) (ht : a.Unfolds t tt)
      (he : a.Unfolds e te) :
      a.Unfolds id (.query id tc tt te)
  | concat {id : NodeId} {n : Node} {ts : List (Term NodeId)} (hn : a.node? id = some n)
      (hk : n.kind = .concat) (hne : ts ≠ []) (hlen : n.args.size = ts.length)
      (hs : ∀ p ∈ n.args.toList.zip ts, a.Unfolds p.1 p.2) :
      a.Unfolds id (.concat id ts)
  | toBool {id x : NodeId} {n : Node} {tx : Term NodeId} (hn : a.node? id = some n)
      (hk : n.kind = .toBool) (ha : n.args = #[x]) (hx : a.Unfolds x tx) :
      a.Unfolds id (.toBool id tx)
  | toInt {id x : NodeId} {n : Node} {tx : Term NodeId} (hn : a.node? id = some n)
      (hk : n.kind = .toInt) (ha : n.args = #[x]) (hx : a.Unfolds x tx) :
      a.Unfolds id (.toInt id tx n.width)

end Arena

namespace Node

theorem args_eq_nil {n : Node} (h : n.args.size = 0) : n.args = #[] := by
  rcases n with ⟨_, _, _, _, _, _, ⟨l⟩⟩
  match l, h with
  | [], _ => rfl

theorem args_eq_one {n : Node} (h : n.args.size = 1) : ∃ x, n.args = #[x] := by
  rcases n with ⟨_, _, _, _, _, _, ⟨l⟩⟩
  match l, h with
  | [x], _ => exact ⟨x, rfl⟩

theorem args_eq_two {n : Node} (h : n.args.size = 2) : ∃ l r, n.args = #[l, r] := by
  rcases n with ⟨_, _, _, _, _, _, ⟨l⟩⟩
  match l, h with
  | [x, y], _ => exact ⟨x, y, rfl⟩

theorem args_eq_three {n : Node} (h : n.args.size = 3) : ∃ c t e, n.args = #[c, t, e] := by
  rcases n with ⟨_, _, _, _, _, _, ⟨l⟩⟩
  match l, h with
  | [x, y, z], _ => exact ⟨x, y, z, rfl⟩

/-- The kinds of regular nodes, grouped by their operands. -/
theorem Regular.cases {n : Node} (h : n.Regular) :
    ((n.kind = .var ∨ n.kind = .int ∨ n.kind = .true ∨ n.kind = .false ∨ n.kind = .bitField) ∧
      n.args = #[]) ∨
    ((n.kind.isUnary = true ∨ n.kind = .toBool ∨ n.kind = .toInt) ∧ ∃ x, n.args = #[x]) ∨
    (n.kind.IsInfix ∧ ∃ l r, n.args = #[l, r]) ∨
    (n.kind = .query ∧ ∃ c t e, n.args = #[c, t, e]) ∨
    (n.kind = .concat ∧ n.args.size ≠ 0) := by
  obtain ⟨hk, ha⟩ := h
  simp only [Kind.known, List.mem_cons, List.not_mem_nil, or_false] at hk
  rcases hk with hk | hk | hk | hk | hk | hk | hk | hk | hk | hk | hk | hk | hk | hk | hk | hk | hk |
    hk | hk | hk | hk | hk | hk | hk | hk | hk | hk | hk | hk <;>
    simp +decide only [hk, reduceCtorEq, if_false, if_true, Kind.operands, Kind.isLeaf,
      Kind.isUnary, Kind.isBinary, Kind.code, Option.some.injEq] at ha
  all_goals first
    | exact .inl ⟨by simp [hk], args_eq_nil ha.symm⟩
    | exact .inr (.inl ⟨by simp +decide [hk, Kind.isUnary], args_eq_one ha.symm⟩)
    | exact .inr (.inr (.inl ⟨⟨by simp +decide [hk, Kind.isBinary, Kind.code], by simp [Kind.known, hk]⟩,
        args_eq_two ha.symm⟩))
    | exact .inr (.inr (.inr (.inl ⟨hk, args_eq_three ha.symm⟩)))
    | exact .inr (.inr (.inr (.inr ⟨hk, ha⟩)))

end Node

theorem List.exists_zip_of_forall {α β : Type} {R : α → β → Prop} {xs : List α}
    (h : ∀ x ∈ xs, ∃ y, R x y) : ∃ ys, xs.length = ys.length ∧ ∀ p ∈ xs.zip ys, R p.1 p.2 := by
  induction xs with
  | nil => exact ⟨[], rfl, by simp⟩
  | cons x xs ih =>
    obtain ⟨y, hy⟩ := h x (by simp)
    obtain ⟨ys, hlen, hys⟩ := ih fun x' hx' => h x' (by simp [hx'])
    refine ⟨y :: ys, by simp [hlen], ?_⟩
    rintro p (hp | ⟨_, hp⟩)
    · exact hy
    · exact hys p hp

theorem List.exists_mem_zip_left {α β : Type} {xs : List α} {ys : List β} {y : β}
    (hlen : xs.length = ys.length) (hy : y ∈ ys) : ∃ x, (x, y) ∈ xs.zip ys := by
  obtain ⟨i, hi, rfl⟩ := List.mem_iff_getElem.mp hy
  exact ⟨xs[i], List.mem_iff_getElem.mpr ⟨i, by simp [hlen, hi], by simp⟩⟩

namespace Arena

variable {a : Arena}

theorem Unfolds.tag_eq {id : NodeId} {t : Term NodeId} (h : a.Unfolds id t) : t.tag = id := by
  cases h <;> rfl

/-- An unfolded tree is at most one level deeper than the rank of its top node. -/
theorem Unfolds.depth_le {rank : NodeId → Nat}
    (hrank : ∀ id n, a.node? id = some n → ∀ x ∈ n.args, rank x < rank id)
    {id : NodeId} {t : Term NodeId} (h : a.Unfolds id t) : t.depth ≤ rank id + 1 := by
  induction h with
  | var | int | bool | bitField => simp [Term.depth]
  | @unary id x n tx hn _ ha _ ih | @toBool id x n tx hn _ ha _ ih | @toInt id x n tx hn _ ha _ ih =>
    have hx := hrank id n hn x (by simp [ha])
    simp only [Term.depth]
    omega
  | @binary id l r n tl tr hn _ ha _ _ ihl ihr =>
    have hl := hrank id n hn l (by simp [ha])
    have hr := hrank id n hn r (by simp [ha])
    simp only [Term.depth]
    omega
  | @query id c t e n tc tt te hn _ ha _ _ _ ihc iht ihe =>
    have hc := hrank id n hn c (by simp [ha])
    have ht := hrank id n hn t (by simp [ha])
    have he := hrank id n hn e (by simp [ha])
    simp only [Term.depth]
    omega
  | @concat id n ts hn _ _ hlen hs ih =>
    have hparts : Term.depthList ts ≤ rank id := by
      apply Term.depthList_le
      intro t ht
      obtain ⟨x, hxt⟩ := List.exists_mem_zip_left (show n.args.toList.length = ts.length by simp [hlen]) ht
      have hx := hrank id n hn x (by simpa using (List.of_mem_zip hxt).1)
      have := ih (x, t) hxt
      simp only at this
      omega
    simp only [Term.depth]
    omega

theorem Unfolds.depth_le_size (hacyc : a.Acyclic) {id : NodeId} {t : Term NodeId}
    (h : a.Unfolds id t) : t.depth ≤ a.size := by
  obtain ⟨rank, hrank⟩ := hacyc
  have hd := h.depth_le fun id n hn => (hrank id n hn).2
  have hroot : rank id < a.size := by cases h <;> exact (hrank _ _ ‹_›).1
  omega

/-- In an acyclic graph, a root whose nodes below are all regular unfolds to a tree. -/
theorem unfolds_of_regular {root : NodeId} (hacyc : a.Acyclic) (hreg : a.RegularBelow root) :
    ∃ t, a.Unfolds root t := by
  obtain ⟨rank, hrank⟩ := hacyc
  -- strong induction on the rank, over the nodes below the root
  suffices h : ∀ m id, rank id < m → a.Below root id → ∃ t, a.Unfolds id t from
    h (rank root + 1) root (by omega) .root
  intro m
  induction m with
  | zero => intro id h; omega
  | succ m ih =>
    intro id hm hb
    obtain ⟨n, hn, hr⟩ := hreg id hb
    have hsub : ∀ x ∈ n.args, ∃ t, a.Unfolds x t := fun x hx =>
      ih x (by have := (hrank id n hn).2 x hx; omega) (.arg hb hn hx)
    rcases hr.cases with ⟨hk, ha⟩ | ⟨hk, x, ha⟩ | ⟨hk, l, r, ha⟩ | ⟨hk, c, t, e, ha⟩ | ⟨hk, hne⟩
    · rcases hk with hk | hk | hk | hk | hk
      · exact ⟨_, .var hn hk ha⟩
      · exact ⟨_, .int hn hk ha⟩
      · exact ⟨Term.bool id Bool.true, .bool hn hk ha⟩
      · exact ⟨Term.bool id Bool.false, .bool hn hk ha⟩
      · exact ⟨_, .bitField hn hk ha⟩
    · obtain ⟨tx, htx⟩ := hsub x (by simp [ha])
      rcases hk with hk | hk | hk
      · exact ⟨_, .unary hn hk ha htx⟩
      · exact ⟨_, .toBool hn hk ha htx⟩
      · exact ⟨_, .toInt hn hk ha htx⟩
    · obtain ⟨tl, htl⟩ := hsub l (by simp [ha])
      obtain ⟨tr, htr⟩ := hsub r (by simp [ha])
      exact ⟨_, .binary hn hk ha htl htr⟩
    · obtain ⟨tc, htc⟩ := hsub c (by simp [ha])
      obtain ⟨tt, htt⟩ := hsub t (by simp [ha])
      obtain ⟨te, hte⟩ := hsub e (by simp [ha])
      exact ⟨_, .query hn hk ha htc htt hte⟩
    · have hall : ∀ x ∈ n.args.toList, ∃ t, a.Unfolds x t := fun x hx => hsub x (by simpa using hx)
      obtain ⟨ts, hlen, hs⟩ := List.exists_zip_of_forall hall
      rw [Array.length_toList] at hlen
      have hts : ts ≠ [] := by
        rintro rfl
        exact hne hlen
      exact ⟨_, .concat hn hk hts hlen hs⟩

/-- A node unfolds to at most one tree: its kind fixes the rule, and its operands the subtrees. -/
theorem Unfolds.unique {id : NodeId} {t u : Term NodeId} (h₁ : a.Unfolds id t) (h₂ : a.Unfolds id u) :
    t = u := by
  induction h₁ generalizing u with
  | @unary id x n tx hn hk ha _ ih =>
    cases h₂ with
    | @unary _ x' n' tx' hn' _ ha' hx' =>
      rw [hn, Option.some.injEq] at hn'
      subst hn'
      obtain rfl : x = x' := by simpa [ha] using ha'
      rw [ih hx']
    | _ => (try split_ifs at *) <;> simp_all [Kind.isUnary, Kind.IsInfix, Kind.isBinary, Kind.code]
  | @binary id l r n tl tr hn hk ha _ _ ihl ihr =>
    cases h₂ with
    | @binary _ l' r' n' tl' tr' hn' _ ha' hl' hr' =>
      rw [hn, Option.some.injEq] at hn'
      subst hn'
      obtain ⟨rfl, rfl⟩ : l = l' ∧ r = r' := by simpa [ha] using ha'
      rw [ihl hl', ihr hr']
    | _ => (try split_ifs at *) <;> simp_all [Kind.isUnary, Kind.IsInfix, Kind.isBinary, Kind.code]
  | @query id c t e n tc tt te hn hk ha _ _ _ ihc iht ihe =>
    cases h₂ with
    | @query _ c' t' e' n' tc' tt' te' hn' _ ha' hc' ht' he' =>
      rw [hn, Option.some.injEq] at hn'
      subst hn'
      obtain ⟨rfl, rfl, rfl⟩ : c = c' ∧ t = t' ∧ e = e' := by simpa [ha] using ha'
      rw [ihc hc', iht ht', ihe he']
    | _ => (try split_ifs at *) <;> simp_all [Kind.isUnary, Kind.IsInfix, Kind.isBinary, Kind.code]
  | @toBool id x n tx hn hk ha _ ih =>
    cases h₂ with
    | @toBool _ x' n' tx' hn' _ ha' hx' =>
      rw [hn, Option.some.injEq] at hn'
      subst hn'
      obtain rfl : x = x' := by simpa [ha] using ha'
      rw [ih hx']
    | _ => (try split_ifs at *) <;> simp_all [Kind.isUnary, Kind.IsInfix, Kind.isBinary, Kind.code]
  | @toInt id x n tx hn hk ha _ ih =>
    cases h₂ with
    | @toInt _ x' n' tx' hn' _ ha' hx' =>
      rw [hn, Option.some.injEq] at hn'
      subst hn'
      obtain rfl : x = x' := by simpa [ha] using ha'
      rw [ih hx']
    | _ => (try split_ifs at *) <;> simp_all [Kind.isUnary, Kind.IsInfix, Kind.isBinary, Kind.code]
  | @concat id n ts hn hk hne hlen hs ih =>
    cases h₂ with
    | @concat _ n' ts' hn' _ _ hlen' hs' =>
      rw [hn, Option.some.injEq] at hn'
      subst hn'
      congr 1
      apply List.ext_getElem (by omega)
      intro i h₁ h₂
      have hi : i < n.args.toList.length := by simp; omega
      have hp : (n.args.toList[i], ts[i]) ∈ n.args.toList.zip ts :=
        List.mem_iff_getElem.mpr ⟨i, by simp; omega, by simp⟩
      have hp' : (n.args.toList[i], ts'[i]) ∈ n.args.toList.zip ts' :=
        List.mem_iff_getElem.mpr ⟨i, by simp; omega, by simp⟩
      exact ih _ hp (hs' _ hp')
    | _ => (try split_ifs at *) <;> simp_all [Kind.isUnary, Kind.IsInfix, Kind.isBinary, Kind.code]
  | _ =>
    cases h₂ <;> (try split_ifs at *) <;> simp_all [Kind.isUnary, Kind.IsInfix, Kind.isBinary, Kind.code]

end Arena

end BitSynth
