import Mathlib
import BitSynth.Proofs.Unfold
import BitSynth.Expr.Width

namespace BitSynth

namespace Kind

/-- The width of an infix operator's result from its operands' widths, in unbounded arithmetic:
the wider operand for `&`, `|` and `^`, one bit more for `+` and `-`, the sum for `*`, the left
operand for `/`, `>>` and `>>>`, the right one for `%`, `l + 2^r - 1` bits for `<<`, one bit for a
comparison. -/
def infixWidth (k : Kind) (l r : Int) : Int :=
  match k with
  | .and | .or | .xor => max l r
  | .add | .sub => max l r + 1
  | .mul => l + r
  | .div | .shr | .asr => l
  | .mod => r
  | .shl => l + 2 ^ r.toNat - 1
  | _ => 1

theorem infixWidth_pos (k : Kind) {l r : Int} (hl : 0 < l) (hr : 0 < r) : 0 < k.infixWidth l r := by
  have hpow : (0 : Int) < 2 ^ r.toNat := Int.pow_pos (by decide)
  cases k <;> simp only [infixWidth] <;> omega

/-- The value of a prefix operator on a `w`-bit operand: the bitwise complement for `!` and `~`,
the negation modulo `2^w` for `-`. -/
def unaryValue (k : Kind) (w x : Nat) : Nat :=
  match k with
  | .neg => ((-x : Int) % 2 ^ w).toNat
  | _ => 2 ^ w - 1 - x

/-- The value of an infix operator on operands `a` (of `l` bits) and `b`, in a `w`-bit result:
bitwise `&`, `|` and `^`; `+`, `-` and `*` modulo `2^w`; natural division and remainder; `<<` as
`a * 2^b` modulo `2^w`; `>>` as `a / 2^b`; `>>>` as the shift of the `l`-bit two's complement value
of `a`, filling with its sign bit; unsigned comparisons, one for true. -/
def infixValue (k : Kind) (l w a b : Nat) : Nat :=
  match k with
  | .and => a &&& b
  | .or => a ||| b
  | .xor => a ^^^ b
  | .add => (a + b) % 2 ^ w
  | .sub => ((a - b : Int) % 2 ^ w).toNat
  | .mul => a * b % 2 ^ w
  | .div => a / b
  | .mod => a % b
  | .shl => a * 2 ^ b % 2 ^ w
  | .shr => a / 2 ^ b
  | .asr =>
    let s : Int := if 2 ^ (l - 1) ≤ a then a - 2 ^ l else a
    ((s >>> b) % 2 ^ l).toNat
  | .lt => (decide (a < b)).toNat
  | .gt => (decide (a > b)).toNat
  | .le => (decide (a ≤ b)).toNat
  | .ge => (decide (a ≥ b)).toNat
  | .eq => (decide (a = b)).toNat
  | .ne => (decide (a ≠ b)).toNat
  | _ => 0

end Kind

namespace Term

variable {α : Type}

/-- The kind of the top node. -/
def kind : Term α → Kind
  | var .. => .var
  | int .. => .int
  | bool _ b => if b then .true else .false
  | bitField .. => .bitField
  | unary _ k _ | binary _ k _ _ => k
  | query .. => .query
  | concat .. => .concat
  | toBool .. => .toBool
  | toInt .. => .toInt

/-- The right operand of a division or a remainder. -/
def divisor? : Term α → Option (Term α)
  | binary _ k _ r => if k = .div ∨ k = .mod then some r else none
  | _ => none

mutual
/-- The tree and all the trees below it. -/
def subterms : Term α → List (Term α)
  | t@(var ..) | t@(int ..) | t@(bool ..) | t@(bitField ..) => [t]
  | t@(unary _ _ x) | t@(toBool _ x) | t@(toInt _ x _) => t :: x.subterms
  | t@(binary _ _ l r) => t :: (l.subterms ++ r.subterms)
  | t@(query _ c u e) => t :: (c.subterms ++ u.subterms ++ e.subterms)
  | t@(concat _ ps) => t :: subtermsList ps
/-- `subterms` of a list of trees, joined. -/
def subtermsList : List (Term α) → List (Term α)
  | [] => []
  | t :: ts => t.subterms ++ subtermsList ts
end

@[simp] theorem subtermsList_eq (ps : List (Term α)) : subtermsList ps = ps.flatMap subterms := by
  induction ps with
  | nil => rfl
  | cons p ps ih => simp [subtermsList, ih]

theorem mem_subterms_self (t : Term α) : t ∈ t.subterms := by
  cases t <;> simp [subterms]

/-- The operands of the top node. -/
def args : Term α → List (Term α)
  | var .. | int .. | bool .. | bitField .. => []
  | unary _ _ x | toBool _ x | toInt _ x _ => [x]
  | binary _ _ l r => [l, r]
  | query _ c t e => [c, t, e]
  | concat _ ps => ps

theorem subterms_subset_of_mem_args {t u : Term α} (hu : u ∈ t.args) : u.subterms ⊆ t.subterms := by
  intro v hv
  cases t with
  | var | int | bool | bitField => simp [args] at hu
  | unary _ _ x | toBool _ x | toInt _ x _ =>
    obtain rfl := List.mem_singleton.mp hu
    simp [subterms, hv]
  | binary _ _ l r =>
    simp only [args, List.mem_cons, List.not_mem_nil, or_false] at hu
    rcases hu with rfl | rfl <;> simp [subterms, hv]
  | query _ c t e =>
    simp only [args, List.mem_cons, List.not_mem_nil, or_false] at hu
    rcases hu with rfl | rfl | rfl <;> simp [subterms, hv]
  | concat _ ps => simpa [subterms] using Or.inr ⟨u, hu, hv⟩

theorem leafTags_subset_of_mem_args {t u : Term α} (hu : u ∈ t.args) : u.leafTags ⊆ t.leafTags := by
  intro v hv
  cases t with
  | var | int | bool | bitField => simp [args] at hu
  | unary _ _ x | toBool _ x | toInt _ x _ =>
    obtain rfl := List.mem_singleton.mp hu
    simpa [leafTags] using hv
  | binary _ _ l r =>
    simp only [args, List.mem_cons, List.not_mem_nil, or_false] at hu
    rcases hu with rfl | rfl <;> simp [leafTags, hv]
  | query _ c t e =>
    simp only [args, List.mem_cons, List.not_mem_nil, or_false] at hu
    rcases hu with rfl | rfl | rfl <;> simp [leafTags, hv]
  | concat _ ps => simpa [leafTags] using ⟨u, hu, hv⟩

mutual
/-- The width of a tree by the rules of width inference, in unbounded arithmetic. A leaf bound to
a signal takes the signal's width, and a bit-field the width of its range clamped to the signal; an
unbound integer literal is 64 bits wide and an unbound `true` or `false` one bit. -/
def width (lm : LeafMap) : Term NodeId → Int
  | var id _ => ((lm.find? id).map Leaf.width).getD 0
  | int id _ => ((lm.find? id).map Leaf.width).getD literalWidth
  | bool id _ => ((lm.find? id).map Leaf.width).getD 1
  | bitField id _ hi lo =>
    match lm.find? id with
    | some l => (if hi ≥ l.width then l.width - 1 else hi) - lo + 1
    | none => 0
  | unary _ _ x => width lm x
  | binary _ k l r => k.infixWidth (width lm l) (width lm r)
  | query _ _ t e => max (width lm t) (width lm e)
  | concat _ ps => widthSum lm ps
  | toBool .. => 1
  | toInt _ _ w => if w > 0 then w else 1
/-- The widths of a list of trees, added up. -/
def widthSum (lm : LeafMap) : List (Term NodeId) → Int
  | [] => 0
  | t :: ts => width lm t + widthSum lm ts
end

mutual
/-- The value of a tree at its width, the signals taking the values `v` by name: a leaf bound to a
signal reads the signal, a bit-field the bits of its range, an unbound literal its value; operators
compute as `Kind.unaryValue` and `Kind.infixValue` say, a select takes its second operand when the
first is not zero, a concatenation places its parts most significant first, `bool(x)` tests `x`
against zero and `int(x, w)` cuts or extends `x` to `w` bits. -/
def eval (lm : LeafMap) (v : String → Nat) : Term NodeId → Nat
  | var id _ => ((lm.find? id).map fun l => v l.name).getD 0
  | int id x => ((lm.find? id).map fun l => v l.name).getD (x % 2 ^ 64)
  | bool id b => ((lm.find? id).map fun l => v l.name).getD b.toNat
  | t@(bitField id _ _ lo) => ((lm.find? id).map fun l => v l.name / 2 ^ lo.toNat).getD 0 %
      2 ^ (t.width lm).toNat
  | unary _ k x => k.unaryValue (x.width lm).toNat (eval lm v x)
  | t@(binary _ k l r) =>
    k.infixValue (l.width lm).toNat (t.width lm).toNat (eval lm v l) (eval lm v r)
  | query _ c t e => if eval lm v c ≠ 0 then eval lm v t else eval lm v e
  | concat _ ps => evalCat lm v ps
  | toBool _ x => if eval lm v x ≠ 0 then 1 else 0
  | t@(toInt _ x _) => eval lm v x % 2 ^ (t.width lm).toNat
/-- The value of a concatenation of trees, the first most significant. -/
def evalCat (lm : LeafMap) (v : String → Nat) : List (Term NodeId) → Nat
  | [] => 0
  | t :: ts => eval lm v t * 2 ^ (widthSum lm ts).toNat + evalCat lm v ts
end

section Concat

variable {lm : LeafMap} {ts : List (Term NodeId)}

theorem widthSum_nonneg (h : ∀ t ∈ ts, 0 < t.width lm) : 0 ≤ widthSum lm ts := by
  induction ts with
  | nil => simp [widthSum]
  | cons t ts ih =>
    simp only [List.mem_cons, forall_eq_or_imp] at h
    have := ih h.2
    simp only [widthSum]
    omega

theorem widthSum_pos (hne : ts ≠ []) (h : ∀ t ∈ ts, 0 < t.width lm) : 0 < widthSum lm ts := by
  obtain ⟨t, ts, rfl⟩ := List.exists_cons_of_ne_nil hne
  simp only [List.mem_cons, forall_eq_or_imp] at h
  have := widthSum_nonneg h.2
  simp only [widthSum]
  omega

/-- A concatenation of values, each within its width, is within the sum of the widths. -/
theorem evalCat_lt {v : String → Nat}
    (h : ∀ t ∈ ts, 0 < t.width lm ∧ t.eval lm v < 2 ^ (t.width lm).toNat) :
    evalCat lm v ts < 2 ^ (widthSum lm ts).toNat := by
  induction ts with
  | nil => simp [evalCat, widthSum]
  | cons t ts ih =>
    simp only [List.mem_cons, forall_eq_or_imp] at h
    have hrest := ih h.2
    have hS := widthSum_nonneg fun u hu => (h.2 u hu).1
    rw [evalCat, widthSum, Int.toNat_add (Int.le_of_lt h.1.1) hS, pow_add]
    calc t.eval lm v * 2 ^ (widthSum lm ts).toNat + evalCat lm v ts
        < t.eval lm v * 2 ^ (widthSum lm ts).toNat + 2 ^ (widthSum lm ts).toNat := by omega
      _ = (t.eval lm v + 1) * 2 ^ (widthSum lm ts).toNat := by rw [Nat.succ_mul]
      _ ≤ 2 ^ (t.width lm).toNat * 2 ^ (widthSum lm ts).toNat := Nat.mul_le_mul_right _ h.1.2

end Concat

/-- No width below the tree reaches `2^63`: width inference, done in 64-bit words, computes them
without wrapping. -/
def Fits (lm : LeafMap) (t : Term NodeId) : Prop := ∀ u ∈ t.subterms, u.width lm < 2 ^ 63

/-- Every signal read below the tree carries a value below `2` to the power of its width. -/
def Inputs (lm : LeafMap) (v : String → Nat) (t : Term NodeId) : Prop :=
  ∀ id ∈ t.leafTags, ∀ l, lm.find? id = some l → v l.name < 2 ^ l.width.toNat

/-- No division or remainder below the tree divides by zero. -/
def DivSafe (lm : LeafMap) (v : String → Nat) (t : Term NodeId) : Prop :=
  ∀ u ∈ t.subterms, ∀ d, u.divisor? = some d → d.eval lm v ≠ 0

/-- No arithmetic right shift below the tree. -/
def NoAsr (t : Term α) : Prop := ∀ u ∈ t.subterms, u.kind ≠ .asr

end Term

end BitSynth
