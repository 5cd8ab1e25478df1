import Mathlib
import BitSynth.Verilog.Compiler

namespace BitSynth.Verilog

namespace Rhs

/-- The nets a right-hand side reads. -/
def reads : Rhs → List String
  | .net a | .bit a _ | .part a _ _ | .pad _ a | .unop _ a | .test a => [a]
  | .dec .. | .bin _ => []
  | .binop l _ r => [l, r]
  | .cond c t f => [c, t, f]
  | .cat ps => ps

/-- The bit ranges a right-hand side selects, as the net, the high and the low index; the bit
select `a[i]` is the range `a[i:i]`. -/
def selects : Rhs → List (String × Int × Int)
  | .bit a i => [(a, i, i)]
  | .part a hi lo => [(a, hi, lo)]
  | _ => []

end Rhs

/-- The nets that may be read at a point of a list of declarations: `K s w` when `s` may be read as
a `w`-bit net. -/
abbrev Known := String → Int → Prop

/-- The nets known once a wire is declared. -/
def Known.add (K : Known) (x : Wire) : Known := fun s w => K s w ∨ (s = x.name ∧ w = x.width)

/-- The nets known once wires are declared one after another. -/
def Known.addAll (K : Known) (xs : List Wire) : Known := xs.foldl Known.add K

/-- A wire that may be declared where the nets `K` are known. -/
structure Wire.Ready (K : Known) (x : Wire) : Prop where
  width_pos : 0 < x.width
  width_lt : x.width < 2 ^ 63
  reads : ∀ s ∈ x.rhs.reads, ∃ w, K s w
  selects : ∀ s hi lo, (s, hi, lo) ∈ x.rhs.selects → ∃ w, K s w ∧ 0 ≤ lo ∧ lo ≤ hi ∧ hi < w
  pads : ∀ z s, x.rhs = .pad z s → 0 < z

/-- Declarations in order, each ready where the nets `K` and the wires before it are known. -/
def WellFormed : Known → List Wire → Prop
  | _, [] => True
  | K, x :: xs => x.Ready K ∧ WellFormed (K.add x) xs

variable {K K' : Known} {x : Wire} {xs : List Wire}

@[simp] theorem Known.addAll_nil : K.addAll [] = K := rfl

@[simp] theorem Known.addAll_cons : K.addAll (x :: xs) = (K.add x).addAll xs := rfl

theorem Known.addAll_append_singleton : K.addAll (xs ++ [x]) = (K.addAll xs).add x := by
  simp [Known.addAll, List.foldl_append]

/-- After a list of declarations, a net is known when it was known before or is one of the
wires, at the wire's width. -/
theorem Known.addAll_iff {s : String} {w : Int} :
    K.addAll xs s w ↔ K s w ∨ ∃ y ∈ xs, y.name = s ∧ y.width = w := by
  induction xs generalizing K with
  | nil => simp
  | cons y ys ih =>
    rw [Known.addAll_cons, ih]
    simp only [Known.add, List.mem_cons, exists_eq_or_imp]
    constructor
    · rintro ((h | ⟨rfl, rfl⟩) | h)
      · exact .inl h
      · exact .inr (.inl ⟨rfl, rfl⟩)
      · exact .inr (.inr h)
    · rintro (h | ⟨rfl, rfl⟩ | h)
      · exact .inl (.inl h)
      · exact .inl (.inr ⟨rfl, rfl⟩)
      · exact .inr h

theorem Known.addAll_of_mem {y : Wire} (hy : y ∈ xs) : K.addAll xs y.name y.width :=
  Known.addAll_iff.mpr (.inr ⟨y, hy, rfl, rfl⟩)

theorem Known.addAll_of_known {s : String} {w : Int} (h : K s w) : K.addAll xs s w :=
  Known.addAll_iff.mpr (.inl h)

theorem Wire.Ready.mono (h : x.Ready K) (hK : ∀ s w, K s w → K' s w) : x.Ready K' where
  width_pos := h.width_pos
  width_lt := h.width_lt
  reads s hs := by
    obtain ⟨w, hw⟩ := h.reads s hs
    exact ⟨w, hK s w hw⟩
  selects s hi lo hs := by
    obtain ⟨w, hw, hb⟩ := h.selects s hi lo hs
    exact ⟨w, hK s w hw, hb⟩
  pads := h.pads

theorem wellFormed_append_singleton :
    WellFormed K (xs ++ [x]) ↔ WellFormed K xs ∧ x.Ready (K.addAll xs) := by
  induction xs generalizing K with
  | nil => simp [WellFormed]
  | cons y ys ih =>
    simp only [List.cons_append, WellFormed, ih, Known.addAll_cons, and_assoc]

theorem WellFormed.ready {y : Wire} (h : WellFormed K xs) (hy : y ∈ xs) :
    ∃ before, y.Ready (K.addAll before) := by
  induction xs generalizing K with
  | nil => simp at hy
  | cons z zs ih =>
    obtain ⟨hz, hzs⟩ := h
    rcases List.mem_cons.mp hy with rfl | hy
    · exact ⟨[], hz⟩
    · obtain ⟨before, hb⟩ := ih hzs hy
      exact ⟨z :: before, hb⟩

theorem WellFormed.width_bounds {y : Wire} (h : WellFormed K xs) (hy : y ∈ xs) :
    0 < y.width ∧ y.width < 2 ^ 63 := by
  obtain ⟨_, hb⟩ := h.ready hy
  exact ⟨hb.width_pos, hb.width_lt⟩

end BitSynth.Verilog
