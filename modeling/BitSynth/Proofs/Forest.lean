import Mathlib
import BitSynth.Proofs.Validation

namespace BitSynth

/-- A node as the frontend builds it: a known kind with the operand count that kind takes, an
`int()` target width that is not negative, and bit indices that are not negative. -/
structure Node.Formed (n : Node) : Prop where
  regular : n.Regular
  target : n.kind = .toInt → 0 ≤ n.width
  field : n.kind = .bitField → 0 ≤ n.lo ∧ 0 ≤ n.hi

namespace Arena

/-- The operands of the nodes from position `lo` on, in order. -/
def operandsFrom (a : Arena) (lo : Nat) : List NodeId := (a.nodes.toList.drop lo).flatMap (·.args.toList)

/-- The nodes `a'` appends to `a` form a forest with the roots `roots`, in order: each appended node
is formed and takes its operands among the nodes appended before it, and each is either one of the
roots or an operand of one appended node, exactly once. -/
structure Forest (a a' : Arena) (roots : List Int) : Prop where
  grows : a.nodes.toList <+: a'.nodes.toList
  formed : ∀ (j : Int) n, a'.node? j = some n → a.size ≤ j →
    n.Formed ∧ ∀ x : Int, x ∈ n.args → a.size ≤ x ∧ x < j
  roots_new : ∀ x : Int, x ∈ roots → a.size ≤ x ∧ x < a'.size
  once : ∀ j : Nat, a.size ≤ j → j < a'.size → (a'.operandsFrom a.size ++ roots).count (j : Int) = 1

theorem size_le_of_isPrefix {a a' : Arena} (h : a.nodes.toList <+: a'.nodes.toList) : a.size ≤ a'.size := by
  simpa [size] using h.length_le

theorem node?_of_isPrefix {a a' : Arena} (h : a.nodes.toList <+: a'.nodes.toList) {j : Int}
    (hj : j < a.size) : a'.node? j = a.node? j := by
  obtain ⟨t, ht⟩ := h
  unfold node?
  split_ifs with h0
  · -- the test of `node?` is stated over `NodeId`, which omega does not read as `Int`
    have h0' : (0 : Int) ≤ j := h0
    have hlt : j.toNat < a.nodes.toList.length := by simp [size] at hj ⊢; omega
    rw [← Array.getElem?_toList, ← Array.getElem?_toList, ← ht, List.getElem?_append_left hlt]
  · rfl

theorem node?_push_self (a : Arena) (n : Node) : (a.push n).1.node? a.size = some n := by
  simp [push, node?, size]

theorem node?_push_of_lt (a : Arena) (n : Node) {j : Int} (hj : j < a.size) :
    (a.push n).1.node? j = a.node? j :=
  node?_of_isPrefix ⟨[n], by simp [push]⟩ hj

theorem operandsFrom_push {a : Arena} {lo : Nat} (h : lo ≤ a.size) (n : Node) :
    (a.push n).1.operandsFrom lo = a.operandsFrom lo ++ n.args.toList := by
  simp [operandsFrom, push, List.drop_append_of_le_length (by simpa [size] using h : lo ≤ a.nodes.toList.length)]

theorem node?_natCast (a : Arena) (j : Nat) : a.node? j = a.nodes[j]? := by simp [node?]

theorem node?_eq_none {a : Arena} {j : Int} (h : a.size ≤ j) : a.node? j = none := by
  have hj : a.nodes.size ≤ j.toNat := by simp [size] at h; omega
  simp [node?, hj]

theorem mem_operandsFrom {a : Arena} {lo : Nat} {x : Int} :
    x ∈ a.operandsFrom lo ↔ ∃ j : Nat, lo ≤ j ∧ ∃ n, a.node? j = some n ∧ x ∈ n.args := by
  simp only [operandsFrom, List.mem_flatMap, List.mem_drop_iff_getElem, Array.mem_toList_iff,
    node?_natCast]
  constructor
  · rintro ⟨_, ⟨i, hi, rfl⟩, hx⟩
    have hlt : lo + i < a.nodes.size := by simp at hi; omega
    exact ⟨lo + i, by omega, _, by rw [Array.getElem?_eq_getElem hlt]; simp, hx⟩
  · rintro ⟨j, hj, n, hn, hx⟩
    obtain ⟨hlt, rfl⟩ := Array.getElem?_eq_some_iff.mp hn
    exact ⟨_, ⟨j - lo, by simp; omega, by simp [Nat.add_sub_cancel' hj]⟩, hx⟩

theorem operandsFrom_of_isPrefix {a a' : Arena} (h : a.nodes.toList <+: a'.nodes.toList) {lo : Nat}
    (hlo : lo ≤ a.size) : a'.operandsFrom lo = a.operandsFrom lo ++ a'.operandsFrom a.size := by
  obtain ⟨t, ht⟩ := h
  have hlen : lo ≤ a.nodes.toList.length := by simpa [size] using hlo
  simp only [operandsFrom, ← ht, List.drop_append_of_le_length hlen, List.flatMap_append,
    List.drop_left' (show a.nodes.toList.length = a.size by simp [size])]

namespace Forest

variable {a a' a₁ a₂ : Arena} {R R₁ R₂ : List Int}

theorem refl (a : Arena) : Forest a a [] where
  grows := List.prefix_refl _
  formed j n hn hj := by rw [node?_eq_none hj] at hn; cases hn
  roots_new := by simp
  once j h₁ h₂ := by omega

theorem operand_bounds (h : Forest a a' R) {x : Int} (hx : x ∈ a'.operandsFrom a.size) :
    a.size ≤ x ∧ x < a'.size := by
  obtain ⟨j, hj, n, hn, hxn⟩ := mem_operandsFrom.mp hx
  obtain ⟨-, hargs⟩ := h.formed j n hn (by exact_mod_cast hj)
  have hlt : (j : Int) < a'.size := by
    by_contra hge
    rw [node?_eq_none (by omega)] at hn
    cases hn
  have := hargs x hxn
  omega

/-- A node appended over a forest whose roots are its operands makes a tree of the forest. -/
theorem push (h : Forest a a' R) {n : Node} (hn : n.Formed) (hargs : n.args.toList = R) :
    Forest a (a'.push n).1 [a'.size] := by
  have hle := size_le_of_isPrefix h.grows
  have hsize : (a'.push n).1.size = a'.size + 1 := by simp [Arena.push, size]
  refine ⟨h.grows.trans ⟨[n], by simp [Arena.push]⟩, fun j m hm hj => ?_, ?_, fun j hj₁ hj₂ => ?_⟩
  · rcases lt_trichotomy j a'.size with hlt | rfl | hgt
    · rw [node?_push_of_lt _ _ hlt] at hm
      exact h.formed j m hm hj
    · rw [node?_push_self] at hm
      cases hm
      refine ⟨hn, fun x hx => ?_⟩
      have := h.roots_new x (hargs ▸ Array.mem_toList_iff.mpr hx)
      omega
    · rw [node?_eq_none (by rw [hsize]; push_cast; omega)] at hm
      cases hm
  · simp only [List.mem_singleton, hsize]
    rintro x rfl
    constructor <;> push_cast <;> omega
  · rw [operandsFrom_push hle, hargs, List.count_append]
    rw [hsize] at hj₂
    by_cases hlast : j = a'.size
    · subst hlast
      have hnot : ((a'.size : Nat) : Int) ∉ a'.operandsFrom a.size ++ R := by
        intro hm
        rcases List.mem_append.mp hm with hm | hm
        · have := h.operand_bounds hm
          omega
        · have := h.roots_new _ hm
          omega
      rw [List.count_eq_zero_of_not_mem hnot]
      simp
    · have := h.once j hj₁ (by omega)
      have hne : (j : Int) ≠ a'.size := by exact_mod_cast hlast
      rw [this, List.count_eq_zero_of_not_mem (by simpa using hne)]

/-- A forest followed by a forest of the nodes appended after it is one forest, with the roots of
both in order. -/
theorem trans (h₁ : Forest a a₁ R₁) (h₂ : Forest a₁ a₂ R₂) : Forest a a₂ (R₁ ++ R₂) := by
  have hle₁ := size_le_of_isPrefix h₁.grows
  have hle₂ := size_le_of_isPrefix h₂.grows
  refine ⟨h₁.grows.trans h₂.grows, fun j n hn hj => ?_, fun x hx => ?_, fun j hj₁ hj₂ => ?_⟩
  · by_cases hj₁ : j < a₁.size
    · rw [node?_of_isPrefix h₂.grows hj₁] at hn
      exact h₁.formed j n hn hj
    · obtain ⟨hf, hargs⟩ := h₂.formed j n hn (by omega)
      exact ⟨hf, fun x hx => by have := hargs x hx; omega⟩
  · rcases List.mem_append.mp hx with hx | hx
    · have := h₁.roots_new x hx
      omega
    · have := h₂.roots_new x hx
      omega
  · rw [operandsFrom_of_isPrefix h₂.grows hle₁]
    have hsplit : ∀ l₁ l₂ l₃ l₄ : List Int, (l₁ ++ l₂ ++ (l₃ ++ l₄)).count (j : Int) =
        (l₁ ++ l₃).count (j : Int) + (l₂ ++ l₄).count (j : Int) := by
      intro l₁ l₂ l₃ l₄
      simp only [List.count_append]
      omega
    rw [hsplit]
    by_cases hj : j < a₁.size
    · -- an earlier node is none of the later operands or roots
      have hnot : (j : Int) ∉ a₂.operandsFrom a₁.size ++ R₂ := by
        intro hm
        rcases List.mem_append.mp hm with hm | hm
        · have := h₂.operand_bounds hm
          omega
        · have := h₂.roots_new _ hm
          omega
      rw [List.count_eq_zero_of_not_mem hnot, h₁.once j hj₁ hj]
    · have hnot : (j : Int) ∉ a₁.operandsFrom a.size ++ R₁ := by
        intro hm
        rcases List.mem_append.mp hm with hm | hm
        · have := h₁.operand_bounds hm
          omega
        · have := h₁.roots_new _ hm
          omega
      rw [List.count_eq_zero_of_not_mem hnot, h₂.once j (by omega) hj₂]

end Forest

end Arena

namespace Node

theorem formed_of_operands (k : Kind) {n : Node} (hnk : n.kind = k) (hk : k ∈ Kind.known)
    (hc : k ≠ .concat) (ht : k ≠ .toInt) (hf : k ≠ .bitField) (hops : k.operands = some n.args.size) :
    n.Formed := by
  subst hnk
  exact ⟨⟨hk, by rw [if_neg hc]; exact hops⟩, fun h => absurd h ht, fun h => absurd h hf⟩

theorem formed_of_target {n : Node} (hk : n.kind = .toInt) (hw : 0 ≤ n.width) (ha : n.args.size = 1) :
    n.Formed :=
  ⟨⟨by simp [hk, Kind.known], by simp [hk, ha, Kind.operands, Kind.isLeaf, Kind.isUnary]⟩,
    fun _ => hw, fun h => by simp [hk] at h⟩

theorem formed_of_field {n : Node} (hk : n.kind = .bitField) (hlo : 0 ≤ n.lo) (hhi : 0 ≤ n.hi)
    (ha : n.args.size = 0) : n.Formed :=
  ⟨⟨by simp [hk, Kind.known], by simp [hk, ha, Kind.operands, Kind.isLeaf]⟩,
    fun h => by simp [hk] at h, fun _ => ⟨hlo, hhi⟩⟩

theorem formed_of_parts {n : Node} (hk : n.kind = .concat) (ha : n.args.size ≠ 0) : n.Formed :=
  ⟨⟨by simp [hk, Kind.known], by simp [hk, ha]⟩, fun h => by simp [hk] at h, fun h => by simp [hk] at h⟩

theorem Formed.args_of_isLeaf {n : Node} (h : n.Formed) (hk : n.kind.isLeaf = true) : n.args = #[] := by
  have hc : n.kind ≠ .concat := fun hc => by simp [hc, Kind.isLeaf] at hk
  have ha := h.regular.2
  rw [if_neg hc] at ha
  simp only [Kind.operands, hk, if_true, Option.some.injEq] at ha
  exact args_eq_nil ha.symm

end Node

end BitSynth

namespace BitSynth.Arena.Forest

variable {a a' : Arena} {root : Int}

theorem below_new (h : Forest a a' [root]) {y : Int} (hy : a'.Below root y) :
    a.size ≤ y ∧ y < a'.size := by
  induction hy with
  | root => exact h.roots_new root List.mem_cons_self
  | @arg id x n _ hn hx ih =>
    have hlt := (h.formed id n hn ih.1).2 x hx
    omega

theorem exists_node {y : Int} (hy0 : 0 ≤ y) (hy : y < a'.size) : ∃ n, a'.node? y = some n := by
  have hlt : y.toNat < a'.nodes.size := by simp [size] at hy; omega
  exact ⟨_, by rw [node?, if_pos hy0]; exact Array.getElem?_eq_getElem hlt⟩

theorem formed_below (h : Forest a a' [root]) {y : Int} (hy : a'.Below root y) :
    ∃ n, a'.node? y = some n ∧ n.Formed := by
  have hb := h.below_new hy
  obtain ⟨n, hn⟩ : ∃ n, a'.node? y = some n := exists_node (by omega) hb.2
  exact ⟨n, hn, (h.formed y n hn hb.1).1⟩

/-- Every appended node lies below the root: a node other than the root is an operand of an
appended node, which comes after it. -/
theorem below_root (h : Forest a a' [root]) : ∀ j : Nat, a.size ≤ j → j < a'.size → a'.Below root j := by
  -- downward induction, on the number of nodes after `j`
  suffices hk : ∀ k j, a'.size - j = k → a.size ≤ j → j < a'.size → a'.Below root j from
    fun j => hk _ j rfl
  intro k
  induction k using Nat.strong_induction_on with
  | _ k ih =>
    intro j hk hj₁ hj₂
    have hone := h.once j hj₁ hj₂
    by_cases hroot : (j : Int) = root
    · rw [← hroot]
      exact .root
    · have hmem : (j : Int) ∈ a'.operandsFrom a.size := by
        have hpos : 0 < (a'.operandsFrom a.size ++ [root]).count (j : Int) := by omega
        rcases List.mem_append.mp (List.count_pos_iff.mp hpos) with hm | hm
        · exact hm
        · exact absurd (List.mem_singleton.mp hm) hroot
      obtain ⟨p, hp, n, hn, hjn⟩ := mem_operandsFrom.mp hmem
      have hlt := (h.formed p n hn (by exact_mod_cast hp)).2 j hjn
      have hp' : p < a'.size := by
        by_contra hge
        rw [node?_eq_none (by omega)] at hn
        cases hn
      exact .arg (ih (a'.size - p) (by omega) p rfl hp hp') hn hjn

/-- Appending a forest keeps a graph acyclic: the old nodes keep their order, above the new ones,
which are ranked by position. -/
theorem acyclic {R : List Int} (h : Forest a a' R) (hacyc : a.Acyclic) : a'.Acyclic := by
  obtain ⟨rank, hrank⟩ := hacyc
  have hle := size_le_of_isPrefix h.grows
  -- binders are stated over `Int`: omega does not read `NodeId` as `Int`
  refine ⟨fun (id : Int) => if id < a.size then rank id + (a'.size - a.size)
      else if id < a'.size then id.toNat - a.size else 0, fun (id : Int) n hn => ?_⟩
  obtain ⟨h0, hid⟩ := node?_bounds hn
  by_cases hold : id < a.size
  · -- an old node keeps its operands and its order, lifted above the appended nodes
    rw [node?_of_isPrefix h.grows hold] at hn
    obtain ⟨hr, hargs⟩ := hrank id n hn
    simp only [if_pos hold]
    refine ⟨by omega, fun (x : Int) hx => ?_⟩
    have := hargs x hx
    split_ifs <;> omega
  · obtain ⟨-, hargs⟩ := h.formed id n hn (by omega)
    simp only [if_neg hold, if_pos (show id < a'.size by omega)]
    refine ⟨by omega, fun (x : Int) hx => ?_⟩
    have hx' := hargs x hx
    simp only [if_neg (show ¬ x < a.size by omega), if_pos (show x < a'.size by omega)]
    omega

end BitSynth.Arena.Forest

namespace BitSynth.Arena

/-- The arena with the nodes before position `lo` stripped of their operands. -/
def unlinkBefore (a : Arena) (lo : Nat) : Arena :=
  ⟨a.nodes.mapIdx fun i n => if i < lo then { n with args := #[] } else n⟩

@[simp] theorem size_unlinkBefore (a : Arena) (lo : Nat) : (a.unlinkBefore lo).size = a.size := by
  simp [unlinkBefore, size]

theorem node?_unlinkBefore (a : Arena) (lo : Nat) (y : Int) :
    (a.unlinkBefore lo).node? y = (a.node? y).map fun n => if y < lo then { n with args := #[] } else n := by
  unfold node? unlinkBefore
  by_cases hy : 0 ≤ y
  · -- positions are `Nat`, ids `Int`
    have hlt : y.toNat < lo ↔ y < lo := by omega
    simp only [if_pos hy, Array.getElem?_mapIdx, hlt]
  · simp [hy]

theorem kind_unlinkBefore (a : Arena) (lo : Nat) (y : NodeId) :
    ((a.unlinkBefore lo).node? y).map Node.kind = (a.node? y).map Node.kind := by
  rw [node?_unlinkBefore, Option.map_map]
  congr 1
  funext n
  simp only [Function.comp_apply]
  split_ifs <;> rfl

variable {a₁ a₂ : Arena}

theorem below_congr {root : NodeId} (h : ∀ y, a₁.Below root y → a₂.node? y = a₁.node? y) {y : NodeId} :
    a₂.Below root y ↔ a₁.Below root y := by
  constructor
  · intro hy
    induction hy with
    | root => exact .root
    | arg _ hn hx ih => exact .arg ih ((h _ ih).symm.trans hn) hx
  · intro hy
    induction hy with
    | root => exact .root
    | arg hb hn hx ih => exact .arg ih ((h _ hb).trans hn) hx

/-- The depth-first check reads only the nodes below where it starts. -/
theorem checkWithin_congr {lm : LeafMap} :
    ∀ fuel id s, (∀ y, a₁.Below id y → a₂.node? y = a₁.node? y) →
      a₂.checkWithin lm fuel id s = a₁.checkWithin lm fuel id s
  | 0, _, _, _ => rfl
  | fuel + 1, id, s, h => by
    unfold checkWithin
    rw [h id .root]
    split_ifs
    · rfl
    cases hn : a₁.node? id with
    | none => rfl
    | some n =>
      simp only
      rw [← Array.foldl_toList, ← Array.foldl_toList]
      -- each operand is checked alike, everything below it agreeing
      exact List.foldl_ext _ _ _ fun s' x hx =>
        checkWithin_congr fuel x s' fun y hy => h y (Below.head hn (by simpa using hx) hy)

theorem check_congr {root : NodeId} {lm : LeafMap} {r : Option Reporter} (hsize : a₂.size = a₁.size)
    (h : ∀ y, a₁.Below root y → a₂.node? y = a₁.node? y) : a₂.check root lm r = a₁.check root lm r := by
  have hc : ∀ fuel s, a₂.checkWithin lm fuel root s = a₁.checkWithin lm fuel root s :=
    fun fuel s => checkWithin_congr fuel root s h
  unfold check valid
  simp only [hsize, hc]

/-- The leaf walk reads only the nodes below where it starts, and the size of the arena. -/
theorem leavesWithin_congr (hsize : a₂.size = a₁.size) :
    ∀ fuel id st, (∀ y, a₁.Below id y → a₂.node? y = a₁.node? y) →
      a₂.leavesWithin fuel id st = a₁.leavesWithin fuel id st
  | 0, _, _, _ => rfl
  | fuel + 1, id, (seen, out), h => by
    unfold leavesWithin
    split_ifs
    · rfl
    have hget : a₂.get id = a₁.get id := by simp only [get, h id .root, hsize]
    rw [hget]
    cases hn : a₁.node? id with
    | none => simp only [get, hn, bind, Except.bind]
    | some n =>
      simp only [get, hn, bind, Except.bind]
      split_ifs
      · rfl
      rw [← Array.foldlM_toList, ← Array.foldlM_toList]
      -- each operand is walked alike, everything below it agreeing
      have hfold : ∀ xs : List NodeId, (∀ x ∈ xs, x ∈ n.args) → ∀ st',
          xs.foldlM (fun st arg => a₂.leavesWithin fuel arg st) st' =
            xs.foldlM (fun st arg => a₁.leavesWithin fuel arg st) st' := by
        intro xs
        induction xs with
        | nil => exact fun _ _ => rfl
        | cons x xs ih =>
          intro hxs st'
          simp only [List.foldlM_cons]
          rw [leavesWithin_congr hsize fuel x st' fun y hy => h y (Below.head hn (hxs x (by simp)) hy)]
          congr 1
          funext st''
          exact ih (fun y hy => hxs y (by simp [hy])) st''
      exact hfold _ (fun x hx => by simpa using hx) _

/-- The signals below a root depend only on the nodes below it and on the kinds of all nodes. -/
theorem signals_congr {root : NodeId} (hsize : a₂.size = a₁.size)
    (h : ∀ y, a₁.Below root y → a₂.node? y = a₁.node? y)
    (hkind : ∀ y, (a₂.node? y).map Node.kind = (a₁.node? y).map Node.kind) :
    a₂.signals root = a₁.signals root := by
  unfold signals leaves
  rw [hsize, leavesWithin_congr hsize _ _ _ h]
  -- the filter reads the kind of each leaf, and faults alike on a missing one
  have hpred : ∀ id : NodeId, (do let n ← a₂.get id; pure (n.kind == .var || n.kind == .bitField) :
      Except Fault Bool) = (do let n ← a₁.get id; pure (n.kind == .var || n.kind == .bitField)) := by
    intro id
    have hk := hkind id
    cases h₁ : a₁.node? id <;> cases h₂ : a₂.node? id <;> simp_all [get, bind, Except.bind]
  simp only [hpred]

end BitSynth.Arena

namespace BitSynth.Arena.Forest

variable {a a' : Arena} {R : List Int} {root : Int}

theorem acyclic_unlinkBefore (h : Forest a a' R) : (a'.unlinkBefore a.size).Acyclic := by
  refine ⟨fun (id : Int) => id.toNat, fun (id : Int) n hn => ?_⟩
  obtain ⟨h0, hid⟩ := node?_bounds hn
  refine ⟨by simpa using hid, fun (x : Int) hx => ?_⟩
  rw [node?_unlinkBefore] at hn
  obtain ⟨m, hm, rfl⟩ := Option.map_eq_some_iff.mp hn
  split_ifs at hx with hold
  · simp at hx
  · have := (h.formed id m hm (by omega)).2 x hx
    show x.toNat < id.toNat
    omega

theorem node?_unlinkBefore_below (h : Forest a a' [root]) {y : Int} (hy : a'.Below root y) :
    (a'.unlinkBefore a.size).node? y = a'.node? y := by
  have hold : ¬ y < a.size := by have := h.below_new hy; omega
  simp [node?_unlinkBefore, hold]

end BitSynth.Arena.Forest
