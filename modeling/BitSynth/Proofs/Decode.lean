import BitSynth.Proofs.Unfold

namespace BitSynth

namespace Term

variable {α : Type}

mutual
/-- The trees a graph of regular nodes unfolds to, conversions to a width below zero aside: prefix
operators under `unary`, infix operators under `binary`, and non-empty concatenations. -/
def Shaped : Term α → Prop
  | var .. | int .. | bool .. | bitField .. => True
  | unary _ k x => k.isUnary = Bool.true ∧ x.Shaped
  | binary _ k l r => k.IsInfix ∧ l.Shaped ∧ r.Shaped
  | query _ c t e => c.Shaped ∧ t.Shaped ∧ e.Shaped
  | concat _ ps => ps ≠ [] ∧ ShapedList ps
  | toBool _ x => x.Shaped
  | toInt _ x w => 0 ≤ w ∧ x.Shaped
/-- `Shaped` for each tree of a list. -/
def ShapedList : List (Term α) → Prop
  | [] => True
  | t :: ts => t.Shaped ∧ ShapedList ts
end

/-- The signal name `v<k>` that the canonical text gives a name numbered `k` by `g`. -/
def vName (g : String → Nat) (s : String) : String := "v" ++ toString (g s)

end Term

namespace Decode

@[simp] theorem toString_string (s : String) : toString s = s := rfl

/-- Drops one expected character. -/
def expect (c : Char) : List Char → Option (List Char)
  | d :: cs => if d = c then some cs else none
  | [] => none

/-- The decimal number at the front of a text, and the rest. -/
def readNat (cs : List Char) : Option (Nat × List Char) :=
  match cs.takeWhile Char.isDigit with
  | [] => none
  | ds => some (Nat.ofDigitChars 10 ds 0, cs.dropWhile Char.isDigit)

/-- The integer, a decimal number with an optional minus sign, at the front of a text. -/
def readInt : List Char → Option (Int × List Char)
  | '-' :: cs => (readNat cs).map fun (n, cs) => (-(n : Int), cs)
  | cs => (readNat cs).map fun (n, cs) => ((n : Int), cs)

/-- The infix operator whose symbol is at the front of a text, longest symbol first. -/
def readInfix : List Char → Option (Kind × List Char)
  | '&' :: cs => some (.and, cs)
  | '|' :: cs => some (.or, cs)
  | '^' :: cs => some (.xor, cs)
  | '+' :: cs => some (.add, cs)
  | '-' :: cs => some (.sub, cs)
  | '*' :: cs => some (.mul, cs)
  | '/' :: cs => some (.div, cs)
  | '%' :: cs => some (.mod, cs)
  | '<' :: '<' :: cs => some (.shl, cs)
  | '<' :: '=' :: cs => some (.le, cs)
  | '<' :: cs => some (.lt, cs)
  | '>' :: '>' :: '>' :: cs => some (.asr, cs)
  | '>' :: '>' :: cs => some (.shr, cs)
  | '>' :: '=' :: cs => some (.ge, cs)
  | '>' :: cs => some (.gt, cs)
  | '=' :: '=' :: cs => some (.eq, cs)
  | '!' :: '=' :: cs => some (.ne, cs)
  | _ => none

mutual
/-- The tree written at the front of a text, within `fuel` characters, and the rest of the text. The
first character tells the kind of the tree, `(` followed by an operand then `?` a select. -/
def readTerm : Nat → List Char → Option (Term Unit × List Char)
  | 0, _ => none
  | _ + 1, [] => none
  | fuel + 1, c :: cs =>
    if c.isDigit then (readNat (c :: cs)).map fun (v, cs) => (.int () v, cs)
    else match c, cs with
    | 'v', cs =>
      let name := String.ofList ('v' :: cs.takeWhile Char.isDigit)
      let cs := cs.dropWhile Char.isDigit
      if cs.head? = some '[' then do
        let (hi, cs) ← readInt (cs.drop 1)
        let cs ← expect ':' cs
        let (lo, cs) ← readInt cs
        let cs ← expect ']' cs
        pure (.bitField () name hi lo, cs)
      else some (.var () name, cs)
    | 't', 'r' :: 'u' :: 'e' :: cs => some (.bool () Bool.true, cs)
    | 'f', 'a' :: 'l' :: 's' :: 'e' :: cs => some (.bool () Bool.false, cs)
    | '!', '(' :: cs => do
      let (x, cs) ← readTerm fuel cs
      let cs ← expect ')' cs
      pure (.unary () .not x, cs)
    | '~', '(' :: cs => do
      let (x, cs) ← readTerm fuel cs
      let cs ← expect ')' cs
      pure (.unary () .complement x, cs)
    | '-', '(' :: cs => do
      let (x, cs) ← readTerm fuel cs
      let cs ← expect ')' cs
      pure (.unary () .neg x, cs)
    | '(', cs => do
      let (l, cs) ← readTerm fuel cs
      if cs.head? = some '?' then do
        let (t, cs) ← readTerm fuel (cs.drop 1)
        let cs ← expect ':' cs
        let (e, cs) ← readTerm fuel cs
        let cs ← expect ')' cs
        pure (.query () l t e, cs)
      else do
        let (k, cs) ← readInfix cs
        let (r, cs) ← readTerm fuel cs
        let cs ← expect ')' cs
        pure (.binary () k l r, cs)
    | '{', cs => do
      let (ps, cs) ← readParts fuel cs
      pure (.concat () ps, cs)
    | 'b', 'o' :: 'o' :: 'l' :: '(' :: cs => do
      let (x, cs) ← readTerm fuel cs
      let cs ← expect ')' cs
      pure (.toBool () x, cs)
    | 'i', 'n' :: 't' :: '(' :: cs => do
      let (x, cs) ← readTerm fuel cs
      if cs.head? = some ',' then do
        let (w, cs) ← readInt (cs.drop 1)
        let cs ← expect ')' cs
        pure (.toInt () x w, cs)
      else do
        let cs ← expect ')' cs
        pure (.toInt () x 0, cs)
    | _, _ => none
/-- The trees of a concatenation, separated by `,` and closed by `}`. -/
def readParts : Nat → List Char → Option (List (Term Unit) × List Char)
  | 0, _ => none
  | fuel + 1, cs => do
    let (p, cs) ← readTerm fuel cs
    match cs with
    | ',' :: cs => do
      let (ps, cs) ← readParts fuel cs
      pure (p :: ps, cs)
    | '}' :: cs => pure ([p], cs)
    | _ => none
end

/-- A text that may follow a complete tree or number: empty, or starting with neither a digit nor
`[`. -/
def Stops (s : List Char) : Prop := ∀ c cs, s = c :: cs → c.isDigit = Bool.false ∧ c ≠ '['

theorem stops_nil : Stops [] := fun _ _ h => nomatch h

theorem stops_cons {c : Char} {cs : List Char} (hd : c.isDigit = Bool.false) (hb : c ≠ '[') :
    Stops (c :: cs) := by
  intro c' cs' h
  cases h
  exact ⟨hd, hb⟩

theorem digits_split {ds s : List Char} (hd : ∀ c ∈ ds, c.isDigit = Bool.true)
    (hs : ∀ c cs, s = c :: cs → c.isDigit = Bool.false) :
    (ds ++ s).takeWhile Char.isDigit = ds ∧ (ds ++ s).dropWhile Char.isDigit = s := by
  have hs' : s.takeWhile Char.isDigit = [] ∧ s.dropWhile Char.isDigit = s := by
    cases s with
    | nil => exact ⟨rfl, rfl⟩
    | cons c cs => simp [hs c cs rfl]
  rw [List.takeWhile_append_of_pos hd, List.dropWhile_append_of_pos hd, hs'.1, hs'.2, List.append_nil]
  exact ⟨rfl, rfl⟩

theorem isDigit_of_mem_toDigits {n : Nat} {c : Char} (h : c ∈ Nat.toDigits 10 n) : c.isDigit = Bool.true :=
  Nat.isDigit_of_mem_toDigits (by decide) (by decide) h

theorem readNat_toDigits (n : Nat) {s : List Char} (hs : Stops s) :
    readNat (Nat.toDigits 10 n ++ s) = some (n, s) := by
  obtain ⟨ht, hd⟩ := digits_split (fun _ h => isDigit_of_mem_toDigits h) fun c cs h => (hs c cs h).1
  obtain ⟨c, cs, hcs⟩ := List.exists_cons_of_ne_nil (@Nat.toDigits_ne_nil n 10)
  unfold readNat
  rw [ht, hd, hcs]
  simp only [Option.some.injEq, Prod.mk.injEq, and_true]
  rw [← hcs]
  exact Nat.ofDigitChars_toDigits (by decide) (by decide)

theorem readInt_toString (i : Int) {s : List Char} (hs : Stops s) :
    readInt ((toString i).toList ++ s) = some (i, s) := by
  rw [Int.toString_eq_repr, Int.repr_eq_if]
  by_cases hi : 0 ≤ i
  · obtain ⟨c, cs, hcs⟩ := List.exists_cons_of_ne_nil (@Nat.toDigits_ne_nil i.toNat 10)
    have hc : c.isDigit = Bool.true :=
      isDigit_of_mem_toDigits (show c ∈ Nat.toDigits 10 i.toNat by simp [hcs])
    have hne : c ≠ '-' := by rintro rfl; exact absurd hc (by decide)
    have hn := readNat_toDigits i.toNat hs
    rw [hcs, List.cons_append] at hn
    simp only [if_pos hi, Nat.toList_repr, hcs, List.cons_append, readInt]
    split
    · rename_i h
      exact absurd (List.cons.inj h).1 hne
    · simp [hn, Int.toNat_of_nonneg hi]
  · simp [if_neg hi, Nat.toList_repr, readInt, readNat_toDigits _ hs]
    omega

theorem ofList_v_toDigits (n : Nat) : String.ofList ('v' :: Nat.toDigits 10 n) = "v" ++ toString n := by
  rw [← String.toList_inj]
  simp [Nat.toList_repr]

/-- A text that may follow an infix symbol: it starts with none of `<`, `=`, `>`, which would make
a longer symbol. -/
def Opens (s : List Char) : Prop := ∃ c cs, s = c :: cs ∧ c ≠ '<' ∧ c ≠ '=' ∧ c ≠ '>'

theorem readInfix_symbol {k : Kind} (hk : k.IsInfix) {s : List Char} (hs : Opens s) :
    readInfix (k.symbol.toList ++ s) = some (k, s) := by
  obtain ⟨c, cs, rfl, h₁, h₂, h₃⟩ := hs
  rcases hk.cases with rfl | rfl | rfl | rfl | rfl | rfl | rfl | rfl | rfl | rfl | rfl | rfl | rfl |
    rfl | rfl | rfl | rfl <;>
    simp [readInfix, Kind.symbol, h₁, h₂, h₃]

theorem symbol_head {k : Kind} (hk : k.IsInfix) :
    ∃ c cs, k.symbol.toList = c :: cs ∧ c ≠ '?' ∧ c.isDigit = Bool.false ∧ c ≠ '[' := by
  rcases hk.cases with rfl | rfl | rfl | rfl | rfl | rfl | rfl | rfl | rfl | rfl | rfl | rfl | rfl |
    rfl | rfl | rfl | rfl <;>
    exact ⟨_, _, rfl, by decide, by decide, by decide⟩

section Text

variable {α : Type} (g : String → Nat)

open Term

theorem opens_text (t : Term α) (ht : t.Shaped) (s : List Char) :
    Opens ((t.rename (vName g)).text.toList ++ s) := by
  have hdigit : ∀ c : Char, c.isDigit = Bool.true → c ≠ '<' ∧ c ≠ '=' ∧ c ≠ '>' := by
    intro c hc
    refine ⟨?_, ?_, ?_⟩ <;> (rintro rfl; exact absurd hc (by decide))
  cases t with
  | int a v =>
    obtain ⟨c, cs, hcs⟩ := List.exists_cons_of_ne_nil (@Nat.toDigits_ne_nil v 10)
    have hc := hdigit c (isDigit_of_mem_toDigits (show c ∈ Nat.toDigits 10 v by simp [hcs]))
    exact ⟨c, cs ++ s, by simp [rename, text, Nat.toList_repr, hcs], hc⟩
  | bool a b => cases b <;> exact ⟨_, _, by simp [rename, text]; exact ⟨rfl, rfl⟩, by decide⟩
  | unary a k x =>
    rcases Kind.unary_cases ht.1 with rfl | rfl | rfl <;>
      exact ⟨_, _, by simp [rename, text, Kind.symbol]; exact ⟨rfl, rfl⟩, by decide⟩
  | var | bitField => exact ⟨'v', _, by simp [rename, text, vName]; rfl, by decide⟩
  | binary | query => exact ⟨'(', _, by simp [rename, text]; rfl, by decide⟩
  | concat => exact ⟨'\x7b', _, by simp [rename, text]; rfl, by decide⟩
  | toBool => exact ⟨'b', _, by simp [rename, text]; rfl, by decide⟩
  | toInt => exact ⟨'i', _, by simp [rename, text]; rfl, by decide⟩

theorem vName_toList (x : String) : (vName g x).toList = 'v' :: Nat.toDigits 10 (g x) := by
  simp [vName, Nat.toString_eq_repr, Nat.toList_repr]

theorem stops_head {s : List Char} (hs : Stops s) : ¬s.head? = some '[' := by
  cases s with
  | nil => simp
  | cons c cs => simpa using (hs c cs rfl).2

mutual
/-- A tree with signal names `v<k>` is read back from the front of its text, whatever follows, once
the fuel exceeds the length of the text. -/
theorem readTerm_text (g : String → Nat) : ∀ (t : Term α), t.Shaped → ∀ (s : List Char), Stops s → ∀ fuel,
    (t.rename (vName g)).text.toList.length < fuel →
    readTerm fuel ((t.rename (vName g)).text.toList ++ s) = some ((t.rename (vName g)).erase, s)
  | _, _, _, _, 0, hf => absurd hf (Nat.not_lt_zero _)
  | .var a x, _, s, hs, f + 1, _ => by
    obtain ⟨ht, hd⟩ := digits_split (fun _ h => isDigit_of_mem_toDigits (n := g x) h)
      fun c cs h => (hs c cs h).1
    simp only [rename, text, vName_toList, List.cons_append]
    simp +decide only [readTerm, if_false]
    rw [ht, hd, if_neg (stops_head hs), ofList_v_toDigits]
    rfl
  | .bitField a x hi lo, _, s, hs, f + 1, _ => by
    obtain ⟨ht, hd⟩ := digits_split (fun _ h => isDigit_of_mem_toDigits (n := g x) h)
      (s := '[' :: ((toString hi).toList ++ ':' :: ((toString lo).toList ++ ']' :: s)))
      fun c cs h => by cases h; decide
    have hhi := readInt_toString hi (s := ':' :: ((toString lo).toList ++ ']' :: s))
      (stops_cons (by decide) (by decide))
    have hlo := readInt_toString lo (s := ']' :: s) (stops_cons (by decide) (by decide))
    simp only [rename, text, vName_toList, toString_string, String.toList_append, String.reduceToList,
      List.cons_append, List.nil_append, List.append_assoc]
    simp +decide only [readTerm, if_false]
    rw [ht, hd]
    simp only [List.head?_cons, if_true, List.drop_succ_cons, List.drop_zero, hhi, hlo,
      Option.bind_some, bind, pure, expect]
    rw [ofList_v_toDigits]
    rfl
  | .int a v, _, s, hs, f + 1, _ => by
    obtain ⟨c, cs, hcs⟩ := List.exists_cons_of_ne_nil (@Nat.toDigits_ne_nil v 10)
    have hc : c.isDigit = Bool.true :=
      isDigit_of_mem_toDigits (show c ∈ Nat.toDigits 10 v by simp [hcs])
    have hn := readNat_toDigits v hs
    rw [hcs, List.cons_append] at hn
    simp only [rename, text, Nat.toString_eq_repr, Nat.toList_repr, hcs, List.cons_append]
    simp only [readTerm, if_pos hc, hn, Option.map_some]
    rfl
  | .bool a b, _, s, hs, f + 1, _ => by
    cases b <;>
      simp +decide only [rename, text, if_true, if_false, String.reduceToList, List.cons_append,
        List.nil_append, readTerm] <;> rfl
  | .unary a k x, ⟨hk, hx⟩, s, hs, f + 1, hf => by
    simp only [rename, text, String.toList_append, String.reduceToList, List.length_append,
      List.length_cons, List.length_nil] at hf
    have ih := readTerm_text g x hx (')' :: s) (stops_cons (by decide) (by decide)) f
      (by omega)
    rcases Kind.unary_cases hk with rfl | rfl | rfl <;>
    · simp only [rename, text, Kind.symbol, String.toList_append, String.reduceToList, List.cons_append,
        List.nil_append, List.append_assoc]
      simp +decide only [readTerm, if_false, ih, bind, Option.bind_some, pure, expect, if_true]
      rfl
  | .binary a k l r, ⟨hk, hl, hr⟩, s, hs, f + 1, hf => by
    simp only [rename, text, String.toList_append, String.reduceToList, List.length_append,
      List.length_cons, List.length_nil] at hf
    obtain ⟨c, cs, hsym, hq, hd, hb⟩ := symbol_head hk
    have ihr := readTerm_text g r hr (')' :: s) (stops_cons (by decide) (by decide)) f
      (by omega)
    have ihl := readTerm_text g l hl (k.symbol.toList ++ ((r.rename (vName g)).text.toList ++ ')' :: s))
      (by rw [hsym]; exact stops_cons hd hb) f (by omega)
    have hinf := readInfix_symbol hk (opens_text g r hr (')' :: s))
    have hnq : ¬(k.symbol.toList ++ ((r.rename (vName g)).text.toList ++ ')' :: s)).head? = some '?' := by
      simpa [hsym] using hq
    simp only [rename, text, String.toList_append, String.reduceToList, List.cons_append,
      List.nil_append, List.append_assoc]
    simp +decide only [readTerm, if_false, ihl, bind, Option.bind_some]
    rw [if_neg hnq]
    simp only [hinf, ihr, Option.bind_some, expect, if_true, pure]
    rfl
  | .query a c t e, ⟨hc, ht, he⟩, s, hs, f + 1, hf => by
    simp only [rename, text, String.toList_append, String.reduceToList, List.length_append,
      List.length_cons, List.length_nil] at hf
    have ihe := readTerm_text g e he (')' :: s) (stops_cons (by decide) (by decide)) f (by omega)
    have iht := readTerm_text g t ht (':' :: ((e.rename (vName g)).text.toList ++ ')' :: s))
      (stops_cons (by decide) (by decide)) f (by omega)
    have ihc := readTerm_text g c hc
      ('?' :: ((t.rename (vName g)).text.toList ++ ':' :: ((e.rename (vName g)).text.toList ++ ')' :: s)))
      (stops_cons (by decide) (by decide)) f (by omega)
    simp only [rename, text, String.toList_append, String.reduceToList, List.cons_append,
      List.nil_append, List.append_assoc]
    simp +decide only [readTerm, if_false, ihc, bind, Option.bind_some, List.head?_cons, if_true,
      List.drop_succ_cons, List.drop_zero, iht, ihe, expect, pure]
    rfl
  | .concat a ps, ⟨hne, hps⟩, s, hs, f + 1, hf => by
    have ih := readParts_text g ps hne hps s f (by
      simp only [rename, text, renameList_eq, texts_eq, List.map_map, Function.comp_def,
        String.toList_append, String.reduceToList, List.length_append, List.length_cons,
        List.length_nil] at hf
      omega)
    simp only [rename, text, renameList_eq, texts_eq, List.map_map, Function.comp_def,
      String.toList_append, String.reduceToList, List.cons_append, List.nil_append, List.append_assoc]
    simp +decide only [readTerm, if_false, ih, bind, Option.bind_some, pure]
    simp [erase, map, Function.comp_def]
  | .toBool a x, hx, s, hs, f + 1, hf => by
    simp only [rename, text, String.toList_append, String.reduceToList, List.length_append,
      List.length_cons, List.length_nil] at hf
    have ih := readTerm_text g x hx (')' :: s) (stops_cons (by decide) (by decide)) f (by omega)
    simp only [rename, text, String.toList_append, String.reduceToList, List.cons_append,
      List.nil_append, List.append_assoc]
    simp +decide only [readTerm, if_false, ih, bind, Option.bind_some, pure, expect, if_true]
    rfl
  | .toInt a x w, ⟨hw, hx⟩, s, hs, f + 1, hf => by
    by_cases hpos : w > 0
    · simp only [rename, text, if_pos hpos, toString_string, String.toList_append, String.reduceToList,
        List.length_append, List.length_cons, List.length_nil] at hf
      have ihx := readTerm_text g x hx (',' :: ((toString w).toList ++ ')' :: s))
        (stops_cons (by decide) (by decide)) f (by omega)
      have hw' := readInt_toString w (s := ')' :: s) (stops_cons (by decide) (by decide))
      simp only [rename, text, if_pos hpos, toString_string, String.toList_append, String.reduceToList,
        List.cons_append, List.nil_append, List.append_assoc]
      simp +decide only [readTerm, if_false, ihx, bind, Option.bind_some, List.head?_cons, if_true,
        List.drop_succ_cons, List.drop_zero, hw', expect, pure]
      rfl
    · have hw0 : w = 0 := by omega
      subst hw0
      simp only [rename, text, if_neg hpos, String.toList_append, String.reduceToList,
        List.length_append, List.length_cons, List.length_nil] at hf
      have ihx := readTerm_text g x hx (')' :: s) (stops_cons (by decide) (by decide)) f
        (by omega)
      simp only [rename, text, if_neg hpos, String.toList_append, String.reduceToList,
        List.cons_append, List.nil_append, List.append_assoc]
      simp +decide only [readTerm, if_false, ihx, bind, Option.bind_some, List.head?_cons,
        expect, if_true, pure]
      rfl
theorem readParts_text (g : String → Nat) : ∀ (ps : List (Term α)), ps ≠ [] → ShapedList ps → ∀ (s : List Char) fuel,
    (",".intercalate (ps.map fun p => (p.rename (vName g)).text)).toList.length + 1 < fuel →
    readParts fuel ((",".intercalate (ps.map fun p => (p.rename (vName g)).text)).toList ++ '}' :: s) =
      some (ps.map fun p => (p.rename (vName g)).erase, s)
  | [], h, _, _, _, _ => absurd rfl h
  | _ :: _, _, _, _, 0, hf => absurd hf (Nat.not_lt_zero _)
  | [p], _, ⟨hp, _⟩, s, f + 1, hf => by
    have ih := readTerm_text g p hp ('\x7d' :: s) (stops_cons (by decide) (by decide)) f (by
      simp only [List.map_cons, List.map_nil, String.intercalate_singleton] at hf
      omega)
    simp only [List.map_cons, List.map_nil, String.intercalate_singleton]
    simp only [readParts, ih, bind, Option.bind_some, pure]
  | p :: q :: ps, _, ⟨hp, hqs⟩, s, f + 1, hf => by
    have hlen := hf
    simp only [List.map_cons, String.intercalate_cons_cons, String.toList_append, String.reduceToList,
      List.length_append, List.length_cons, List.length_nil] at hlen
    have ihq := readParts_text g (q :: ps) (List.cons_ne_nil _ _) hqs s f (by
      simp only [List.map_cons] at hlen ⊢
      omega)
    have ihp := readTerm_text g p hp
      (',' :: ((",".intercalate ((q :: ps).map fun p => (p.rename (vName g)).text)).toList ++ '\x7d' :: s))
      (stops_cons (by decide) (by decide)) f (by omega)
    simp only [List.map_cons, String.intercalate_cons_cons, String.toList_append, String.reduceToList,
      List.cons_append, List.nil_append, List.append_assoc]
    simp only [List.map_cons] at ihp ihq
    simp only [readParts, ihp, ihq, bind, Option.bind_some, pure]
end

/-- Texts with signal names `v<k>` read uniquely: when two such trees are written in front of texts
that may follow a tree, and the results agree, the trees agree up to tags, and so do the texts after
them. -/
theorem erase_eq_of_text_append {t u : Term α} {g₁ g₂ : String → Nat} (ht : t.Shaped)
    (hu : u.Shaped) {s s' : List Char} (hs : Stops s) (hs' : Stops s')
    (heq : (t.rename (vName g₁)).text.toList ++ s = (u.rename (vName g₂)).text.toList ++ s') :
    (t.rename (vName g₁)).erase = (u.rename (vName g₂)).erase ∧ s = s' := by
  have hlen := congrArg List.length heq
  simp only [List.length_append] at hlen
  have h₁ := readTerm_text g₁ t ht s hs ((t.rename (vName g₁)).text.toList.length + s.length + 1)
    (by omega)
  have h₂ := readTerm_text g₂ u hu s' hs' ((t.rename (vName g₁)).text.toList.length + s.length + 1)
    (by omega)
  rw [heq, h₂, Option.some.injEq, Prod.mk.injEq] at h₁
  exact ⟨h₁.1.symm, h₁.2.symm⟩

end Text

end Decode

end BitSynth
