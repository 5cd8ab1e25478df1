import Mathlib
import BitSynth.Verilog.Compiler

namespace BitSynth

@[simp] theorem int_pow_eq (x : Int) (n : Nat) : Int.pow x n = x ^ n := rfl

theorem wrapWord_of_lt {x : Int} (h₁ : -2 ^ 63 ≤ x) (h₂ : x < 2 ^ 63) : wrapWord x = x := by
  rw [wrapWord, int_pow_eq, int_pow_eq, Int.emod_eq_of_lt (by omega) (by omega)]
  omega

end BitSynth

namespace BitSynth.Verilog

/-- A value on a net: its bits read as an unsigned number, and its width. -/
structure Signal where
  value : Nat
  width : Nat
  deriving DecidableEq, Repr

/-- The signals on the nets, by name. -/
abbrev Env := String → Signal

/-- An infix operator on unsigned operands in a declaration of `k` bits. The operands of
`& | ^ + - * / %` are zero-extended to the widest of `k` and their own widths, comparisons are made
at the wider operand width, the left operand of a shift is extended to the wider of `k` and its own
width while the amount is self-determined, and `>>>` on unsigned operands shifts in zeros. -/
def binopValue (k : Nat) (l : Signal) (op : String) (r : Signal) : Nat :=
  let w := max k (max l.width r.width)
  let a := l.value
  let b := r.value
  if op = "&" then a &&& b
  else if op = "|" then a ||| b
  else if op = "^" then a ^^^ b
  else if op = "+" then (a + b) % 2 ^ w
  else if op = "-" then (a + (2 ^ w - b)) % 2 ^ w
  else if op = "*" then a * b % 2 ^ w
  else if op = "/" then a / b
  else if op = "%" then a % b
  else if op = "<<" then a * 2 ^ b % 2 ^ max k l.width
  else if op = ">>" ∨ op = ">>>" then a / 2 ^ b
  else if op = "<" then (decide (a < b)).toNat
  else if op = ">" then (decide (a > b)).toNat
  else if op = "<=" then (decide (a ≤ b)).toNat
  else if op = ">=" then (decide (a ≥ b)).toNat
  else if op = "==" then (decide (a = b)).toNat
  else if op = "!=" then (decide (a ≠ b)).toNat
  else 0

namespace Rhs

/-- The value of a right-hand side in a declaration of `k` bits, before it is cut to `k` bits. The
operand of `~` and of unary `-` and the branches of `?:` are zero-extended to the wider of `k` and
their own widths; a concatenation places its parts most significant first, each at its own width. -/
def eval (k : Nat) (e : Env) : Rhs → Nat
  | .net a => (e a).value
  | .bit a i => (e a).value / 2 ^ i.toNat % 2
  | .part a hi lo => (e a).value / 2 ^ lo.toNat % 2 ^ (hi - lo + 1).toNat
  | .pad _ a => (e a).value
  | .dec w v => v % 2 ^ w.toNat
  | .bin b => b.toNat
  | .unop op x =>
    let w := max k (e x).width
    if op = "~" then 2 ^ w - 1 - (e x).value
    else if op = "-" then (2 ^ w - (e x).value) % 2 ^ w
    else 0
  | .binop l op r => binopValue k (e l) op (e r)
  | .cond c t f => if (e c).value ≠ 0 then (e t).value else (e f).value
  | .test x => if (e x).value ≠ 0 then 1 else 0
  | .cat ps => ps.foldl (fun acc a => acc * 2 ^ (e a).width + (e a).value) 0

end Rhs

namespace Wire

/-- The width that the range `[m:0]` of the declaration gives. -/
def size (w : Wire) : Nat := (wrapWord (w.width - 1) + 1).toNat

/-- The signal a declared wire carries: its right-hand side cut to the declared width. -/
def drive (w : Wire) (e : Env) : Signal := ⟨w.rhs.eval w.size e % 2 ^ w.size, w.size⟩

end Wire

/-- A straight-line program of declarations: each wire takes the value of its right-hand side over
the nets as the declarations before it left them. -/
def run : List Wire → Env → Env
  | [], e => e
  | w :: ws, e => run ws (Function.update e w.name (w.drive e))

@[simp] theorem run_nil (e : Env) : run [] e = e := rfl

@[simp] theorem run_cons (w : Wire) (ws : List Wire) (e : Env) :
    run (w :: ws) e = run ws (Function.update e w.name (w.drive e)) := rfl

theorem run_append (ws ws' : List Wire) (e : Env) : run (ws ++ ws') e = run ws' (run ws e) := by
  induction ws generalizing e with
  | nil => rfl
  | cons w ws ih => exact ih _

theorem run_of_not_mem {ws : List Wire} {s : String} (h : s ∉ ws.map Wire.name) (e : Env) :
    run ws e s = e s := by
  induction ws generalizing e with
  | nil => rfl
  | cons w ws ih =>
    simp only [List.map_cons, List.mem_cons, not_or] at h
    rw [run_cons, ih h.2, Function.update_of_ne h.1]

theorem run_concat_self (ws : List Wire) (w : Wire) (e : Env) :
    run (ws ++ [w]) e w.name = w.drive (run ws e) := by
  simp [run_append]

theorem run_append_of_mem {ws ws' : List Wire} {s : String} (hs : s ∈ ws.map Wire.name)
    (hnd : ((ws ++ ws').map Wire.name).Nodup) (e : Env) : run (ws ++ ws') e s = run ws e s := by
  have hs' : s ∉ ws'.map Wire.name := by
    rw [List.map_append, List.nodup_append] at hnd
    exact fun h => hnd.2.2 s hs s h rfl
  rw [run_append, run_of_not_mem hs']

theorem run_value_lt {ws : List Wire} {s : String} (hs : s ∈ ws.map Wire.name) (e : Env) :
    (run ws e s).value < 2 ^ (run ws e s).width := by
  induction ws generalizing e with
  | nil => simp at hs
  | cons w ws ih =>
    rw [run_cons]
    by_cases hmem : s ∈ ws.map Wire.name
    · exact ih hmem _
    · have hw : s = w.name := by simpa [hmem] using hs
      subst hw
      rw [run_of_not_mem hmem, Function.update_self]
      exact Nat.mod_lt _ (Nat.two_pow_pos _)

theorem Wire.size_eq {w : Wire} (h₁ : 0 < w.width) (h₂ : w.width < 2 ^ 63) :
    w.size = w.width.toNat := by
  rw [size, wrapWord_of_lt (by omega) (by omega)]
  omega

end BitSynth.Verilog
