import Mathlib
import BitSynth.Proofs.Traversal

namespace BitSynth

/-- What validation asks of a node's binding: a bound signal or bit-field source of positive width,
a bit-field that starts inside its source, a bound constant of positive width, and an `int()` target
width that is not negative. -/
structure Node.Bound (lm : LeafMap) (id : NodeId) (n : Node) : Prop where
  signal : n.kind = .var ∨ n.kind = .bitField → ∃ l, lm.find? id = some l ∧ 0 < l.width
  field : n.kind = .bitField → ∀ l, lm.find? id = some l → 0 ≤ n.lo ∧ n.lo ≤ n.hi ∧ n.lo < l.width
  const : n.kind.isConst → ∀ l, lm.find? id = some l → 0 < l.width
  target : n.kind = .toInt → 0 ≤ n.width

/-- What validation asks of one node: the operand count its kind takes, and its binding. -/
structure Node.Checked (lm : LeafMap) (id : NodeId) (n : Node) : Prop where
  arity : if n.kind = .concat then n.args.size ≠ 0 else n.kind.operands = some n.args.size
  bound : n.Bound lm id

/-- A kind as a stored code reads back: a code that names a kind is that kind, never `other`. -/
def Kind.Canonical (k : Kind) : Prop := Kind.ofCode k.code = k

instance : DecidablePred Kind.Canonical := fun k => inferInstanceAs (Decidable (Kind.ofCode k.code = k))

/-- A canonical kind that takes a fixed number of operands has a code of its own. -/
theorem Kind.mem_known_of_operands {k : Kind} (hk : k.Canonical) {m : Nat} (h : k.operands = some m) :
    k ∈ known := by
  cases k with
  | other c =>
    -- only the codes of the infix operators take operands without a kind of their own
    have hc : 0 ≤ c ∧ c.toNat < known.length := by
      simp [operands, isLeaf, isUnary, isBinary, code] at h
      obtain ⟨⟨h₁, h₂⟩, _⟩ := h
      have h₁ := of_decide_eq_true h₁
      have h₂ := of_decide_eq_true h₂
      have hlen : known.length = 29 := rfl
      omega
    obtain ⟨k', hk'⟩ : ∃ k', known[c.toNat]? = some k' := ⟨_, List.getElem?_eq_getElem hc.2⟩
    unfold Canonical ofCode code at hk
    rw [if_pos hc.1, hk', Option.getD_some] at hk
    exact hk ▸ List.mem_of_getElem? hk'
  | _ => simp [known]

theorem Node.Checked.regular {lm : LeafMap} {id : NodeId} {n : Node} (h : n.Checked lm id)
    (hk : n.kind.Canonical) : n.Regular := by
  refine ⟨?_, h.arity⟩
  by_cases hc : n.kind = .concat
  · simp [hc, Kind.known]
  · have ha := h.arity
    rw [if_neg hc] at ha
    exact Kind.mem_known_of_operands hk ha

namespace CheckState

variable {s s₁ s₂ : CheckState} {id x : NodeId}

@[simp] theorem seen_fail (msg : String) : (s.fail id msg).seen x = s.seen x := rfl

@[simp] theorem errors_fail (msg : String) : (s.fail id msg).errors = s.errors + 1 := rfl

@[simp] theorem errors_mark : (s.mark id).errors = s.errors := by
  unfold mark
  split <;> rfl

theorem seen_mark {id x : Int} : (s.mark id).seen x = true ↔ x = id ∨ s.seen x = true := by
  unfold mark seen
  by_cases hid : 0 ≤ id ∧ id < s.seenValid.size
  · -- an id inside the array is marked in it
    simp only [hid, decide_true, Bool.and_self, if_true, Array.set!_eq_setIfInBounds,
      Array.size_setIfInBounds]
    by_cases hx : 0 ≤ x ∧ x < s.seenValid.size
    · simp only [hx, decide_true, Bool.and_self, if_true, Array.getD_eq_getD_getElem?,
        Array.getElem?_setIfInBounds]
      by_cases he : x = id
      · subst he
        simp [show x.toNat < s.seenValid.size by omega]
      · have hne : id.toNat ≠ x.toNat := by omega
        simp [hne, he]
    · have he : x ≠ id := fun h => hx (h ▸ hid)
      simp only [Bool.and_eq_true, decide_eq_true_eq, hx, if_false, he, false_or]
  · -- any other id joins the list
    have hid' : (decide (0 ≤ id) && decide (id < s.seenValid.size)) = false := by simpa using hid
    simp only [hid', Bool.false_eq_true, if_false]
    by_cases hx : 0 ≤ x ∧ x < s.seenValid.size
    · have he : x ≠ id := fun h => hid (h ▸ hx)
      simp only [Bool.and_eq_true, decide_eq_true_eq, hx, if_true, he, false_or, and_self]
    · have hx' : (decide (0 ≤ x) && decide (x < s.seenValid.size)) = false := by simpa using hx
      simp only [hx', Bool.false_eq_true, if_false, List.contains_cons]
      simp

/-- A check from `s₁` to `s₂` that visits nothing, finds errors only by adding to the count, and
establishes `P` when it finds none. -/
structure Passes (s₁ s₂ : CheckState) (P : Prop) : Prop where
  seen : ∀ x, s₂.seen x = s₁.seen x
  errors : s₁.errors ≤ s₂.errors
  sound : s₂.errors = s₁.errors → P

theorem Passes.refl {P : Prop} (h : P) : Passes s s P := ⟨fun _ => rfl, Nat.le_refl _, fun _ => h⟩

theorem Passes.fail {P : Prop} (msg : String) : Passes s (s.fail id msg) P :=
  ⟨fun _ => rfl, by simp, fun h => by simp at h⟩

theorem Passes.warn {P : Prop} (r : Reporter) (h : P) : Passes s { s with reporter := r } P :=
  ⟨fun _ => rfl, Nat.le_refl _, fun _ => h⟩

theorem Passes.trans {P Q : Prop} {s₃ : CheckState} (h₁ : Passes s₁ s₂ P) (h₂ : Passes s₂ s₃ Q) :
    Passes s₁ s₃ (P ∧ Q) where
  seen x := (h₂.seen x).trans (h₁.seen x)
  errors := Nat.le_trans h₁.errors h₂.errors
  sound h := by
    have h₁' : s₂.errors = s₁.errors := by
      have := h₁.errors
      have := h₂.errors
      omega
    exact ⟨h₁.sound h₁', h₂.sound (h.trans h₁'.symm)⟩

theorem Passes.mono {P Q : Prop} (h : Passes s₁ s₂ P) (hPQ : P → Q) : Passes s₁ s₂ Q :=
  ⟨h.seen, h.errors, fun he => hPQ (h.sound he)⟩

end CheckState

namespace Arena

open CheckState

variable {lm : LeafMap} {s : CheckState} {id : NodeId} {n : Node}

theorem checkArity_passes :
    Passes s (checkArity s id n)
      (if n.kind = .concat then n.args.size ≠ 0 else n.kind.operands = some n.args.size) := by
  unfold checkArity
  by_cases hc : n.kind = .concat
  · simp only [hc, beq_self_eq_true, if_true]
    split_ifs with he
    · exact .fail _
    · exact .refl (by simpa using he)
  · have hc' : (n.kind == .concat) = false := by simpa using hc
    simp only [hc', hc, Bool.false_eq_true, if_false]
    split
    · exact .fail _
    · rename_i want hwant
      split_ifs with hne
      · exact .fail _
      · exact .refl (by simp_all)

theorem checkSignal_passes :
    Passes s (checkSignal lm s id n) (∃ l, lm.find? id = some l ∧ 0 < l.width ∧
      (n.kind = .bitField → 0 ≤ n.lo ∧ n.lo ≤ n.hi ∧ n.lo < l.width)) := by
  unfold checkSignal
  split
  · exact .fail _
  · rename_i l hl
    split_ifs with hw hb hlo hge hhi
    · exact .fail _
    · exact .fail _
    · exact .fail _
    · exact .warn _ ⟨l, hl, by omega, fun _ => by simp_all⟩
    · exact .refl ⟨l, hl, by omega, fun _ => by simp_all⟩
    · exact .refl ⟨l, hl, by omega, fun h => by simp_all⟩

theorem checkBinding_passes : Passes s (checkBinding lm s id n) (n.Bound lm id) := by
  unfold checkBinding
  split
  · -- a signal
    rename_i hk
    exact checkSignal_passes.mono fun ⟨l, hl, hw, _⟩ =>
      ⟨fun _ => ⟨l, hl, hw⟩, fun h => by simp_all, fun h => by simp_all [Kind.isConst],
        fun h => by simp_all⟩
  · -- a bit-field
    rename_i hk
    refine checkSignal_passes.mono fun ⟨l, hl, hw, hf⟩ =>
      ⟨fun _ => ⟨l, hl, hw⟩, fun _ l' hl' => ?_, fun h => by simp_all [Kind.isConst],
        fun h => by simp_all⟩
    rw [hl, Option.some.injEq] at hl'
    exact hl' ▸ hf hk
  case h_3 | h_4 | h_5 =>
    rename_i hk
    split
    · rename_i l hl
      split_ifs with hw
      · exact .fail _
      · refine .refl ⟨fun h => by simp_all, fun h => by simp_all, fun _ l' hl' => ?_, fun h => by simp_all⟩
        rw [hl, Option.some.injEq] at hl'
        subst hl'
        omega
    · rename_i hl
      exact .refl ⟨fun h => by simp_all, fun h => by simp_all, fun _ l' hl' => by simp_all,
        fun h => by simp_all⟩
  · -- an `int()`
    rename_i hk
    split_ifs with hw
    · exact .fail _
    · exact .refl ⟨fun h => by simp_all, fun h => by simp_all, fun h => by simp_all [Kind.isConst],
        fun _ => by omega⟩
  · -- any other kind has nothing bound
    rename_i hvar hfield hint htrue hfalse htoInt
    refine .refl ⟨fun h => by rcases h with h | h <;> contradiction, fun h => by contradiction,
      fun h => ?_, fun h => by contradiction⟩
    simp only [Kind.isConst, Bool.or_eq_true, beq_iff_eq] at h
    rcases h with (h | h) | h <;> contradiction

theorem checkNode_passes : Passes s (checkNode lm s id n) (n.Checked lm id) :=
  (checkArity_passes.trans checkBinding_passes).mono fun ⟨ha, hb⟩ => ⟨ha, hb⟩

/-- Every node below `x` exists and passes the node checks. -/
def CheckedBelow (a : Arena) (lm : LeafMap) (x : NodeId) : Prop :=
  ∀ y, a.Below x y → ∃ n, a.node? y = some n ∧ n.Checked lm y

/-- The nodes a check has visited: each is on the path `S` of nodes still being visited or, as long
as no error was found, everything below it passes. -/
def Closed (a : Arena) (lm : LeafMap) (S : List NodeId) (s : CheckState) : Prop :=
  ∀ x, s.seen x = true → x ∈ S ∨ (s.errors = 0 → a.CheckedBelow lm x)

variable {a : Arena}

theorem checkedBelow_of_args (hn : a.node? id = some n) (hc : n.Checked lm id)
    (hargs : ∀ x ∈ n.args, a.CheckedBelow lm x) : a.CheckedBelow lm id := by
  intro y hy
  rcases Below.cases_head hn hy with rfl | ⟨x, hx, hxy⟩
  · exact ⟨n, hn, hc⟩
  · exact hargs x hx y hxy

/-- The depth-first check from `id`, with fuel above the rank of `id`, keeps the visited nodes
closed, only adds errors, and when it ends without one everything below `id` passes. The path `S`
holds the nodes being visited, all of higher rank, so `id` cannot be among them. -/
theorem checkWithin_spec {rank : NodeId → Nat}
    (hrank : ∀ id n, a.node? id = some n → ∀ x ∈ n.args, rank x < rank id) :
    ∀ fuel id s S, rank id < fuel → (∀ x ∈ S, rank id < rank x) → a.Closed lm S s →
      a.Closed lm S (a.checkWithin lm fuel id s) ∧ s.errors ≤ (a.checkWithin lm fuel id s).errors ∧
      ((a.checkWithin lm fuel id s).errors = 0 → a.CheckedBelow lm id)
  | 0, _, _, _, h, _, _ => absurd h (Nat.not_lt_zero _)
  | fuel + 1, id, s, S, hfuel, hS, hc => by
    unfold checkWithin
    by_cases hseen : s.seen id = true
    · -- a visited node is not on the path, so everything below it passed
      simp only [hseen, if_true]
      refine ⟨hc, Nat.le_refl _, fun h0 => ((hc id hseen).resolve_left fun hm => ?_) h0⟩
      have := hS id hm
      omega
    simp only [hseen, Bool.false_eq_true, if_false]
    cases hn : a.node? id with
    | none =>
      -- a missing node is an error, after which nothing is claimed
      refine ⟨fun x _ => .inr fun h => by simp at h, by simp, fun h => by simp at h⟩
    | some n =>
      have hnode : Passes (s.mark id) (checkNode lm (s.mark id) id n) (n.Checked lm id) :=
        checkNode_passes
      -- the operands are visited with `id` on the path
      have hfold : ∀ xs : List NodeId, (∀ x ∈ xs, x ∈ n.args) → ∀ s', a.Closed lm (id :: S) s' →
          a.Closed lm (id :: S) (xs.foldl (fun s arg => a.checkWithin lm fuel arg s) s') ∧
          s'.errors ≤ (xs.foldl (fun s arg => a.checkWithin lm fuel arg s) s').errors ∧
          ((xs.foldl (fun s arg => a.checkWithin lm fuel arg s) s').errors = 0 →
            ∀ x ∈ xs, a.CheckedBelow lm x) := by
        intro xs
        induction xs with
        | nil => exact fun _ s' hc' => ⟨hc', Nat.le_refl _, by simp⟩
        | cons x xs ih =>
          intro hxs s' hc'
          rw [List.foldl_cons]
          have hx := hrank id n hn x (hxs x (by simp))
          obtain ⟨hc₁, he₁, hb₁⟩ := checkWithin_spec hrank fuel x s' (id :: S) (by omega)
            (by
              intro y hy
              rcases List.mem_cons.mp hy with rfl | hy
              · exact hx
              · have := hS y hy
                omega) hc'
          obtain ⟨hc₂, he₂, hb₂⟩ := ih (fun y hy => hxs y (by simp [hy])) _ hc₁
          refine ⟨hc₂, Nat.le_trans he₁ he₂, fun h0 y hy => ?_⟩
          rcases List.mem_cons.mp hy with rfl | hy
          · exact hb₁ (by omega)
          · exact hb₂ h0 y hy
      have hc₀ : a.Closed lm (id :: S) (checkNode lm (s.mark id) id n) := by
        intro x hx
        rw [hnode.seen x, CheckState.seen_mark] at hx
        rcases hx with rfl | hx
        · exact .inl (List.mem_cons_self ..)
        · rcases hc x hx with hx | hx
          · exact .inl (List.mem_cons_of_mem _ hx)
          · refine .inr fun h0 => hx ?_
            have := hnode.errors
            simp only [CheckState.errors_mark] at this
            omega
      dsimp only
      rw [← Array.foldl_toList]
      obtain ⟨hcr, her, hbr⟩ := hfold n.args.toList (fun x hx => by simpa using hx) _ hc₀
      have herr := hnode.errors
      simp only [CheckState.errors_mark] at herr
      have hid : (n.args.toList.foldl (fun s arg => a.checkWithin lm fuel arg s)
          (checkNode lm (s.mark id) id n)).errors = 0 → a.CheckedBelow lm id := fun h0 =>
        checkedBelow_of_args hn (hnode.sound (by simp only [CheckState.errors_mark]; omega))
          fun x hx => hbr h0 x (by simpa using hx)
      refine ⟨fun x hx => ?_, by omega, hid⟩
      rcases hcr x hx with hx | hx
      · rcases List.mem_cons.mp hx with rfl | hx
        · exact .inr hid
        · exact .inl hx
      · exact .inr hx

/-- Validation is sound: on an acyclic graph, a check that finds nothing wrong below `root` means
that every node below it exists and passes the node checks. -/
theorem checkedBelow_of_check (hacyc : a.Acyclic) {root : Int} {r : Reporter}
    (h : (a.check root lm (some r)).2 = .ok ()) : a.CheckedBelow lm root := by
  obtain ⟨rank, hrank⟩ := hacyc
  unfold check at h
  split_ifs at h with hvalid
  simp only at h
  split_ifs at h with herr
  simp only [Bool.not_eq_true', Bool.not_eq_false] at hvalid
  obtain ⟨n, hn⟩ : ∃ n, a.node? root = some n := by
    simp only [valid, size, Bool.and_eq_true, decide_eq_true_eq] at hvalid
    -- stated over `Int` for omega, which does not see through `NodeId`
    have h₀ : (0 : Int) ≤ root := hvalid.1
    have h₁ : root < (a.nodes.size : Int) := of_decide_eq_true hvalid.2
    have hb : root.toNat < a.nodes.size := by omega
    refine ⟨a.nodes[root.toNat], ?_⟩
    rw [node?, if_pos hvalid.1]
    exact Array.getElem?_eq_getElem hb
  have hfresh : a.Closed lm [] { seenValid := Array.replicate a.size false, reporter := r } := by
    intro x hx
    simp [CheckState.seen, Array.getElem?_replicate] at hx
    split at hx <;> simp at hx
  exact (checkWithin_spec (fun id n hn => (hrank id n hn).2) (a.size + 1) root _ [] (by
    have := (hrank root n hn).1
    omega) (by simp) hfresh).2.2 (by omega)

theorem regularBelow_of_check (hacyc : a.Acyclic)
    (hcanon : ∀ id n, a.node? id = some n → n.kind.Canonical) {root : Int} {r : Reporter}
    (h : (a.check root lm (some r)).2 = .ok ()) : a.RegularBelow root := fun id hb => by
  obtain ⟨n, hn, hc⟩ := checkedBelow_of_check hacyc h id hb
  exact ⟨n, hn, hc.regular (hcanon id n hn)⟩

theorem node?_eq_some {id : Int} {n : Node} :
    a.node? id = some n ↔ ∃ i : Fin a.nodes.size, (i : Int) = id ∧ a.nodes[i] = n := by
  unfold node?
  constructor
  · intro h
    split at h
    · rename_i hid
      have hid' : (0 : Int) ≤ id := hid
      obtain ⟨hi, hget⟩ := Array.getElem?_eq_some_iff.mp h
      exact ⟨⟨id.toNat, hi⟩, by simp; omega, hget⟩
    · cases h
  · rintro ⟨i, rfl, rfl⟩
    simp

theorem acyclic_of_args_lt (h : ∀ i : Fin a.nodes.size, ∀ x ∈ a.nodes[i].args.toList, 0 ≤ x ∧ x < i) :
    a.Acyclic := by
  refine ⟨fun id => id.toNat, fun id n hn => ?_⟩
  obtain ⟨i, rfl, rfl⟩ := node?_eq_some.mp hn
  refine ⟨by simp [size], fun x hx => ?_⟩
  have hx' : (0 : Int) ≤ x ∧ x < (i : Int) := h i x (by simpa using hx)
  show x.toNat < (i : Int).toNat
  rw [Int.toNat_natCast]
  exact (Int.toNat_lt hx'.1).mpr hx'.2

theorem Below.exists_node_of_args_lt
    (h : ∀ i : Fin a.nodes.size, ∀ x ∈ a.nodes[i].args.toList, 0 ≤ x ∧ x < i) {root y : NodeId}
    (hroot : ∃ n, a.node? root = some n) (hb : a.Below root y) : ∃ n, a.node? y = some n := by
  induction hb with
  | root => exact hroot
  | @arg id x n _ hn hx _ =>
    obtain ⟨i, rfl, rfl⟩ := node?_eq_some.mp hn
    obtain ⟨h0, hlt⟩ := h i x (Array.mem_toList_iff.mpr hx)
    have hlt' : x.toNat < a.nodes.size :=
      (Int.toNat_lt h0).mpr (lt_trans hlt (Int.ofNat_lt.mpr i.isLt))
    exact ⟨_, by simp only [node?, if_pos h0]; exact Array.getElem?_eq_getElem hlt'⟩

theorem canonical_of_forall (h : ∀ i : Fin a.nodes.size, a.nodes[i].kind.Canonical) :
    ∀ id n, a.node? id = some n → n.kind.Canonical := by
  intro id n hn
  obtain ⟨i, -, rfl⟩ := node?_eq_some.mp hn
  exact h i

end Arena

end BitSynth
