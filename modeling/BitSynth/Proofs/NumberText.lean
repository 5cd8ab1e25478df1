import Mathlib
import BitSynth.Proofs.Binary64
import BitSynth.Proofs.Text
import BitSynth.Decimal.Read
import BitSynth.Decimal.Text

namespace BitSynth

namespace Text

theorem isSpace_of_visible {c : Char} (h1 : 0x21 ≤ c.toNat) (h2 : c.toNat ≤ 0x7E) :
    isSpace c = false := by
  simp only [isSpace, Bool.or_eq_false_iff, Bool.and_eq_false_imp, decide_eq_true_eq,
    decide_eq_false_iff_not, beq_eq_false_iff_ne, ne_eq]
  omega

/-- A text without white space. -/
def Spaceless (s : String) : Prop := ∀ c ∈ s.toList, isSpace c = false

theorem spaceless_of_all {s : String} (h : s.toList.all (fun c => !isSpace c) = true) :
    Spaceless s := by
  intro c hc
  simpa using List.all_eq_true.mp h c hc

theorem Spaceless.append {s t : String} (hs : Spaceless s) (ht : Spaceless t) :
    Spaceless (s ++ t) := by
  intro c hc
  rw [String.toList_append, List.mem_append] at hc
  exact hc.elim (hs c) (ht c)

theorem ne_empty_of_mem {s : String} {c : Char} (h : c ∈ s.toList) : s ≠ "" := by
  rintro rfl
  simp at h

end Text

namespace Decimal

open Text

/-! ### Digits -/

theorem isDigit_iff_toNat {c : Char} : c.isDigit = true ↔ 48 ≤ c.toNat ∧ c.toNat ≤ 57 := by
  simp only [Char.isDigit, Bool.and_eq_true, decide_eq_true_eq, ge_iff_le, UInt32.le_iff_toNat_le]
  rfl

theorem char_le_iff {c d : Char} : c ≤ d ↔ c.toNat ≤ d.toNat := by
  simp only [Char.le_def, UInt32.le_iff_toNat_le]
  rfl

theorem isDigit_of_mem_toDigits {n : Nat} {c : Char} (h : c ∈ Nat.toDigits 10 n) :
    c.isDigit = true :=
  Nat.isDigit_of_mem_toDigits (by decide) (by decide) h

theorem isSpace_of_isDigit {c : Char} (h : c.isDigit = true) : isSpace c = false := by
  rw [isDigit_iff_toNat] at h
  exact isSpace_of_visible (by omega) (by omega)

theorem digitValue?_of_isDigit {c : Char} (h : c.isDigit = true) :
    digitValue? c = some (c.toNat - '0'.toNat) := by
  rw [isDigit_iff_toNat] at h
  have h0 : '0' ≤ c := char_le_iff.mpr h.1
  have h9 : c ≤ '9' := char_le_iff.mpr h.2
  simp [digitValue?, h0, h9]

theorem lowerAscii_of_isDigit {c : Char} (h : c.isDigit = true) : lowerAscii c = c := by
  rw [isDigit_iff_toNat] at h
  have hA : ¬ 'A' ≤ c := fun h' => by have := char_le_iff.mp h'; simp at this; omega
  simp [lowerAscii, hA]

theorem isSpace_digitChar {d : Nat} (h : d < 10) :
    isSpace (Char.ofNat ('0'.toNat + d)) = false := by
  interval_cases d <;> decide

theorem natDigits_lt {n d : Nat} (h : d ∈ natDigits n) : d < 10 := by
  obtain ⟨c, hc, rfl⟩ := List.mem_map.mp h
  have := isDigit_iff_toNat.mp (isDigit_of_mem_toDigits hc)
  have h0 : '0'.toNat = 48 := rfl
  omega

theorem trimZeros_subset {ds : List Nat} {d : Nat} (h : d ∈ trimZeros ds) : d ∈ ds := by
  unfold trimZeros at h
  exact List.mem_reverse.mp ((List.dropWhile_sublist _).subset (List.mem_reverse.mp h))

theorem shortest_digits_lt (m : Nat) (e : Int) (halved : Bool) :
    ∀ d ∈ (shortest m e halved).digits, d < 10 := by
  intro d hd
  unfold shortest shortestOf at hd
  split at hd
  · simp at hd
  · dsimp only at hd
    split at hd <;> exact natDigits_lt (trimZeros_subset hd)

/-! ### Numbers as fields -/

theorem spaceless_digitText {ds : List Nat} (h : ∀ d ∈ ds, d < 10) : Spaceless (digitText ds) := by
  intro c hc
  simp only [digitText, String.toList_ofList, List.mem_map] at hc
  obtain ⟨d, hd, rfl⟩ := hc
  exact isSpace_digitChar (h d hd)

theorem spaceless_exponentForm (layout : Layout) {d : Digits} (h : ∀ x ∈ d.digits, x < 10) :
    Spaceless (exponentForm layout d) := by
  have hds : ∀ x ∈ (if d.digits.isEmpty then [0] else d.digits), x < 10 := by
    split <;> simp_all
  unfold exponentForm
  dsimp only
  -- mantissa, `e`, the exponent's sign, and the padded exponent digits
  refine (((?_ : Spaceless _).append (spaceless_of_all (by simp only [String.reduceToList]; decide))).append
      (by split <;> exact spaceless_of_all (by simp only [String.reduceToList]; decide))).append
    ((?_ : Spaceless _).append (spaceless_digitText fun _ hx => natDigits_lt hx))
  · split
    · exact spaceless_of_all (by simp only [String.reduceToList]; decide)
    · rename_i x heq
      exact spaceless_digitText fun y hy => hds y (by rw [heq]; exact hy)
    · rename_i x rest _ heq
      have hxs : ∀ y ∈ x :: rest, y < 10 := fun y hy => hds y (by rw [heq]; exact hy)
      exact ((spaceless_digitText fun y hy => hxs y (by simp_all)).append
        (spaceless_of_all (by simp only [String.reduceToList]; decide))).append
        (spaceless_digitText fun y hy => hxs y (by simp_all))
  · intro c hc
    simp only [String.toList_ofList, List.mem_replicate] at hc
    rw [hc.2]
    decide

theorem spaceless_positionalForm {d : Digits} (h : ∀ x ∈ d.digits, x < 10) :
    Spaceless (positionalForm d) := by
  have hget : ∀ i, d.digits.getD i 0 < 10 := by
    intro i
    rw [List.getD_eq_getElem?_getD]
    cases hi : d.digits[i]? with
    | none => simp
    | some x => exact h x (List.mem_of_getElem? hi)
  have hint : Spaceless (if d.point ≤ 0 then "0" else
      digitText ((List.range d.point.toNat).map fun i => d.digits.getD i 0)) := by
    split
    · exact spaceless_of_all (by simp only [String.reduceToList]; decide)
    · exact spaceless_digitText fun x hx => by
        obtain ⟨i, -, rfl⟩ := List.mem_map.mp hx
        exact hget i
  unfold positionalForm
  dsimp only
  split
  · exact hint
  · refine (hint.append (spaceless_of_all (by simp only [String.reduceToList]; decide))).append
      (spaceless_digitText ?_)
    simp only [List.mem_map, List.mem_range]
    rintro x ⟨i, -, rfl⟩
    split
    · omega
    · exact hget _

theorem positionalForm_ne_empty (d : Digits) : positionalForm d ≠ "" := by
  unfold positionalForm
  dsimp only
  have hint : (if d.point ≤ 0 then "0" else
      digitText ((List.range d.point.toNat).map fun i => d.digits.getD i 0)).toList ≠ [] := by
    split
    · simp
    · simp [digitText]
      omega
  split
  · exact fun h => hint (by rw [h]; rfl)
  · exact ne_empty_of_mem (c := '.') (by simp [String.toList_append])

theorem render_word (layout : Layout) {d : Digits} (h : ∀ x ∈ d.digits, x < 10) :
    IsWord (d.render layout) := by
  unfold Digits.render
  dsimp only
  split
  · exact ⟨by decide, spaceless_of_all (by simp only [String.reduceToList]; decide)⟩
  split
  · exact ⟨ne_empty_of_mem (c := 'e') (by simp [exponentForm, String.toList_append]),
      spaceless_exponentForm layout h⟩
  · exact ⟨positionalForm_ne_empty d, spaceless_positionalForm h⟩

theorem isWord_text (x : Float) : IsWord x.text := by
  unfold Float.text textWith
  split
  · exact ⟨by decide, spaceless_of_all (by simp only [Layout.general, String.reduceToList]; decide)⟩
  · refine ⟨ne_empty_of_mem (c := 'I') (by simp [Layout.general, String.toList_append]), ?_⟩
    exact (by split <;> [skip; split] <;>
        exact spaceless_of_all (by simp only [String.reduceToList]; decide) : Spaceless _).append
      (spaceless_of_all (by simp only [Layout.general, String.reduceToList]; decide))
  · rename_i neg m e halved _
    have hw := render_word Layout.general (shortest_digits_lt m e halved)
    refine ⟨fun h => hw.1 ?_, ?_⟩
    · have := congrArg String.toList h
      simp only [String.toList_append, String.toList_empty, List.append_eq_nil_iff] at this
      exact String.toList_inj.mp (by simpa using this.2)
    · exact (by split <;> exact spaceless_of_all (by simp only [String.reduceToList]; decide) :
        Spaceless _).append hw.2

theorem toString_int_toList (i : Int) :
    (toString i).toList = (if i < 0 then ['-'] else []) ++ Nat.toDigits 10 i.natAbs := by
  rw [Int.toString_eq_repr, Int.repr_eq_if]
  by_cases hi : 0 ≤ i
  · simp only [hi, if_true, Nat.toList_repr, show ¬ i < 0 by omega, if_false, List.nil_append]
    congr 1
    omega
  · simp only [hi, if_false, String.toList_append, Nat.toList_repr, show i < 0 by omega, if_true]
    congr 2
    omega

theorem isWord_toString (i : Int) : IsWord (toString i) := by
  refine ⟨fun h => @Nat.toDigits_ne_nil i.natAbs 10 ?_, fun c hc => ?_⟩
  · have := congrArg String.toList h
    rw [toString_int_toList, String.toList_empty, List.append_eq_nil_iff] at this
    exact this.2
  · rw [toString_int_toList, List.mem_append] at hc
    rcases hc with hc | hc
    · split at hc
      · rw [List.mem_singleton.mp hc]
        decide
      · simp at hc
    · exact isSpace_of_isDigit (isDigit_of_mem_toDigits hc)

/-! ### Reading integers -/

theorem le_ofDigitChars (cs : List Char) (acc : Nat) : acc ≤ Nat.ofDigitChars 10 cs acc := by
  rw [Nat.ofDigitChars_eq_ofDigitChars_zero]
  calc acc ≤ 10 ^ cs.length * acc := Nat.le_mul_of_pos_left _ (Nat.pow_pos (by omega))
    _ ≤ _ := Nat.le_add_right _ _

/-- Decimal digits accumulate to their value while it stays below the limit. -/
theorem accumulate_digits {limit : Nat} :
    ∀ {cs : List Char} {acc : Nat}, (∀ c ∈ cs, c.isDigit = true) →
      Nat.ofDigitChars 10 cs acc ≤ limit →
      accumulate 10 limit false cs acc = .ok (Nat.ofDigitChars 10 cs acc)
  | [], acc, _, _ => rfl
  | c :: cs, acc, hd, hle => by
    have hc := hd c List.mem_cons_self
    rw [Nat.ofDigitChars_cons] at hle ⊢
    -- every partial value is at most the whole one
    have hstep := (le_ofDigitChars cs _).trans hle
    have hlt : c.toNat - '0'.toNat < 10 := by rw [isDigit_iff_toNat] at hc; simp; omega
    simp only [accumulate, Bool.and_false, Bool.false_eq_true, if_false, digitValue?_of_isDigit hc]
    rw [if_neg (by omega), if_neg (by omega), Nat.mul_comm acc 10]
    exact accumulate_digits (fun c hc => hd c (List.mem_cons_of_mem _ hc)) hle

theorem readUnsigned_toDigits (reader : String) {n : Nat} (h : n ≤ Nat.pow 2 64 - 1) :
    readUnsigned reader false (String.ofList (Nat.toDigits 10 n)) = .ok n := by
  have hd : ∀ c ∈ Nat.toDigits 10 n, c.isDigit = true := fun _ hc => isDigit_of_mem_toDigits hc
  have hacc : accumulate 10 (Nat.pow 2 64 - 1) false (Nat.toDigits 10 n) 0 = .ok n := by
    rw [accumulate_digits hd (by rw [Nat.ofDigitChars_ten_toDigits]; exact h),
      Nat.ofDigitChars_ten_toDigits]
  have hne : (String.ofList (Nat.toDigits 10 n)).isEmpty = false := by
    simp [Nat.toDigits_ne_nil]
  unfold readUnsigned
  simp only [hne, Bool.false_eq_true, if_false, String.toList_ofList, hacc, Bool.false_and]

/-- A minus sign or none, then digits that read as `n`: the signed word, when in range. -/
theorem readSigned_eq_ok {reader : String} {p : Bool} {s body : String} {neg : Bool} {n : Nat}
    (hs : s.toList = (if neg then ['-'] else []) ++ body.toList)
    (hne : body.toList ≠ []) (hd : ∀ c cs, body.toList = c :: cs → c.isDigit = true)
    (hn : readUnsigned reader p body = .ok n)
    (hrange : if neg then n ≤ Nat.pow 2 63 else n < Nat.pow 2 63) :
    readSigned reader p s = .ok (if neg then -(n : Int) else n) := by
  have hs' : s.isEmpty = false := by
    rw [String.isEmpty_eq_false_iff, ne_eq, ← String.toList_inj, hs]
    cases neg <;> simp [hne]
  unfold readSigned
  split
  · rename_i h
    rw [hs'] at h
    cases h
  obtain ⟨c, cs, hc⟩ := List.exists_cons_of_ne_nil hne
  have hsign : c ≠ '+' ∧ c ≠ '-' := by
    have := hd c cs hc
    constructor <;> rintro rfl <;> simp at this
  split
  rename_i neg' body' heq
  -- the sign read off the text is the sign it was written with
  obtain ⟨rfl, rfl⟩ : neg = neg' ∧ body = body' := by
    rw [hc] at hs
    split at heq
    · rename_i r hr
      rw [hs] at hr
      cases neg <;> simp at hr
      exact absurd hr.1 hsign.1
    · rename_i r hr
      simp only [Prod.mk.injEq] at heq
      rw [hs] at hr
      cases neg <;> simp at hr
      · exact absurd hr.1 hsign.2
      · refine ⟨heq.1, ?_⟩
        rw [← heq.2, ← hr, ← hc, String.ofList_toList]
    · rename_i hplus hminus
      simp only [Prod.mk.injEq] at heq
      cases neg
      · refine ⟨heq.1, ?_⟩
        rw [← heq.2, hs, ← hc]
        simp only [Bool.false_eq_true, if_false, List.nil_append, String.ofList_toList]
      · exact absurd hs (hminus _)
  simp only [hn]
  cases neg <;> simp only [Bool.not_false, Bool.not_true, Bool.true_and, Bool.false_and,
    decide_eq_true_eq, if_true, if_false, Bool.false_eq_true] at hrange ⊢
  · rw [if_neg (by omega)]
  · rw [if_neg (by omega)]

/-- The decimal text of a 64-bit word reads back as the word. -/
theorem readInt?_toString {i : Int} (hlo : -Int.pow 2 63 ≤ i) (hhi : i < Int.pow 2 63) :
    readInt? (toString i) = some i := by
  have hn : i.natAbs ≤ Nat.pow 2 64 - 1 := by
    simp only [Int.pow_eq, Nat.pow_eq] at *
    omega
  have hs : (toString i).toList = (if decide (i < 0) = true then ['-'] else []) ++
      (String.ofList (Nat.toDigits 10 i.natAbs)).toList := by
    rw [toString_int_toList, String.toList_ofList]
    simp only [decide_eq_true_eq]
  have hrange : if decide (i < 0) = true then i.natAbs ≤ Nat.pow 2 63
      else i.natAbs < Nat.pow 2 63 := by
    simp only [Int.pow_eq, Nat.pow_eq, decide_eq_true_eq] at *
    split_ifs <;> omega
  have h := readSigned_eq_ok hs (by simp [Nat.toDigits_ne_nil])
    (fun c cs hcs => isDigit_of_mem_toDigits
      (show c ∈ Nat.toDigits 10 i.natAbs by simp [String.toList_ofList] at hcs; simp [hcs]))
    (readUnsigned_toDigits "Atoi" hn) hrange
  unfold readInt? readInt
  rw [h]
  simp only [decide_eq_true_eq, Option.some.injEq]
  split_ifs <;> omega

/-! ### Reading integers as binary64 values -/

theorem scanMantissa_digits :
    ∀ {cs : List Char} {m : MantissaScan}, (∀ c ∈ cs, c.isDigit = true) → m.sawPoint = false →
      scanMantissa 10 cs m =
        ({ m with value := Nat.ofDigitChars 10 cs m.value, sawDigit := m.sawDigit || !cs.isEmpty }, [])
  | [], m, _, _ => by simp [scanMantissa]
  | c :: cs, m, hd, hp => by
    have hc := hd c List.mem_cons_self
    have hc' := isDigit_iff_toNat.mp hc
    have hu : (c == '_') = false := by
      rw [beq_eq_false_iff_ne]; rintro rfl; simp at hc'
    have hpt : (c == '.') = false := by
      rw [beq_eq_false_iff_ne]; rintro rfl; simp at hc'
    have h0 : '0' ≤ c := char_le_iff.mpr hc'.1
    have h9 : c ≤ '9' := char_le_iff.mpr hc'.2
    rw [scanMantissa, hu, hpt, digitValue?_of_isDigit hc]
    simp only [Bool.false_eq_true, if_false, h0, h9, decide_true, Bool.and_self, Bool.or_true,
      show c.toNat - '0'.toNat < 10 by simp; omega, hp]
    rw [scanMantissa_digits (fun c hc => hd c (List.mem_cons_of_mem _ hc)) rfl, Nat.ofDigitChars_cons]
    simp [Nat.mul_comm]

/-- The decimal text of an integer is a numeral with the integer's sign and magnitude. -/
theorem parse?_toString (i : Int) :
    Numeral.parse? (toString i) = some ⟨decide (i < 0), i.natAbs, 0, false⟩ := by
  have hdigits : ∀ c ∈ Nat.toDigits 10 i.natAbs, c.isDigit = true :=
    fun _ hc => isDigit_of_mem_toDigits hc
  obtain ⟨c, cs, hc⟩ := List.exists_cons_of_ne_nil (@Nat.toDigits_ne_nil i.natAbs 10)
  have hsign : c ≠ '+' ∧ c ≠ '-' := by
    have := hdigits c (by simp [hc])
    constructor <;> rintro rfl <;> simp at this
  have hs := toString_int_toList i
  unfold Numeral.parse?
  extract_lets cs'
  have hcs' : cs' = (toString i).toList := rfl
  clear_value cs'
  split
  rename_i negative body heq
  -- the sign read off the text is the sign of the integer, and the rest its digits
  obtain ⟨rfl, rfl⟩ : decide (i < 0) = negative ∧ Nat.toDigits 10 i.natAbs = body := by
    split at heq
    · rename_i _ rest
      rw [hs, hc] at hcs'
      by_cases hi : i < 0 <;> simp [hi] at hcs'
      exact absurd hcs'.1.symm hsign.1
    · rename_i _ rest
      rw [hs, hc] at hcs'
      simp only [Prod.mk.injEq] at heq
      by_cases hi : i < 0 <;> simp [hi] at hcs'
      · exact ⟨by simp [hi, ← heq.1], by rw [hc, ← heq.2, hcs']⟩
      · exact absurd hcs'.1.symm hsign.2
    · rename_i hplus hminus
      simp only [Prod.mk.injEq] at heq
      by_cases hi : i < 0
      · exact absurd (show cs' = '-' :: Nat.toDigits 10 i.natAbs by rw [hcs', hs]; simp [hi])
          (hminus _)
      · exact ⟨by simp [hi, ← heq.1], by rw [← heq.2, hcs', hs]; simp [hi]⟩
  split
  rename_i hex digits heq2
  obtain ⟨rfl, rfl⟩ : false = hex ∧ Nat.toDigits 10 i.natAbs = digits := by
    split at heq2
    · rename_i _ x _ _ hx
      have hxd : x.isDigit = true := hdigits x (by rw [hx]; simp)
      rw [lowerAscii_of_isDigit hxd, if_neg (by rintro h; simp at h; subst h; simp at hxd)] at heq2
      simp only [Prod.mk.injEq] at heq2
      exact heq2
    · simp only [Prod.mk.injEq] at heq2
      exact heq2
  extract_lets base expChar
  split
  rename_i m rest heq3
  change scanMantissa 10 (Nat.toDigits 10 i.natAbs) {} = (m, rest) at heq3
  rw [scanMantissa_digits hdigits rfl] at heq3
  simp only [Prod.mk.injEq] at heq3
  obtain ⟨rfl, rfl⟩ := heq3
  have hu : '_' ∉ cs' := by
    rw [hcs', hs]
    simp
  simp [hu, Nat.toDigits_ne_nil]

theorem commonPrefixLength_cons_of_ne {c x : Char} {cs ws : List Char} (h : lowerAscii c ≠ x) :
    commonPrefixLength (c :: cs) (x :: ws) = 0 := by
  simp [commonPrefixLength, h]

theorem special?_toString (i : Int) : special? (toString i) = none := by
  obtain ⟨c, cs, hc⟩ := List.exists_cons_of_ne_nil (@Nat.toDigits_ne_nil i.natAbs 10)
  have hd : c.isDigit = true :=
    isDigit_of_mem_toDigits (show c ∈ Nat.toDigits 10 i.natAbs by simp [hc])
  have hsign : c ≠ '+' ∧ c ≠ '-' := by
    constructor <;> rintro rfl <;> simp at hd
  have hs := toString_int_toList i
  unfold special?
  extract_lets cs'
  have hcs' : cs' = (toString i).toList := rfl
  clear_value cs'
  split
  rename_i sign rest signed heq
  -- whatever the sign, the text goes on with a digit
  have hrest : rest = c :: cs := by
    split at heq
    · rename_i _ r
      rw [hs, hc] at hcs'
      by_cases hi : i < 0 <;> simp [hi] at hcs'
      exact absurd hcs'.1.symm hsign.1
    · rename_i _ r
      rw [hs, hc] at hcs'
      simp only [Prod.mk.injEq] at heq
      by_cases hi : i < 0 <;> simp [hi] at hcs'
      · rw [← heq.2.1, hcs']
      · exact absurd hcs'.1.symm hsign.2
    · rename_i hplus hminus
      simp only [Prod.mk.injEq] at heq
      by_cases hi : i < 0
      · exact absurd (show cs' = '-' :: Nat.toDigits 10 i.natAbs by rw [hcs', hs]; simp [hi])
          (hminus _)
      · rw [← heq.2.1, hcs', hs, hc]
        simp [hi]
  have hl : lowerAscii c = c := lowerAscii_of_isDigit hd
  have hi : commonPrefixLength rest "infinity".toList = 0 := by
    rw [hrest, show "infinity".toList = 'i' :: "nfinity".toList from rfl]
    exact commonPrefixLength_cons_of_ne (by rw [hl]; rintro rfl; exact absurd hd (by decide))
  have hn : commonPrefixLength rest "nan".toList = 0 := by
    rw [hrest, show "nan".toList = 'n' :: "an".toList from rfl]
    exact commonPrefixLength_cons_of_ne (by rw [hl]; rintro rfl; exact absurd hd (by decide))
  extract_lets inf
  have hinf : inf = 0 := hi
  rw [hinf, hn]
  simp only [show ((0 : Nat) == 3) = false from rfl, show ((0 : Nat) == 8) = false from rfl,
    Bool.false_and, Bool.or_false, Bool.and_false, Bool.false_eq_true, if_false]

/-- An integer numeral of at most 53 bits has a binary64 value, which truncates back to it. -/
theorem value?_int (neg : Bool) {n : Nat} (h : n ≤ 2 ^ 53) :
    (Numeral.value? ⟨neg, n, 0, false⟩).map truncateWord = some (if neg then -(n : Int) else n) := by
  rcases Nat.eq_zero_or_pos n with rfl | hpos
  · cases neg
    · simp only [Numeral.value?, beq_self_eq_true, if_true, Bool.false_eq_true, if_false,
        Option.map_some]
      decide +kernel
    · simp only [Numeral.value?, beq_self_eq_true, if_true, Option.map_some]
      decide +kernel
  have hlen : (natDigits n).length ≤ 16 := by
    rw [natDigits, List.length_map, Nat.length_toDigits_le_iff (by omega) (by omega)]
    omega
  obtain ⟨q, -, -, hq2, hbits⟩ := Binary64.nearestBits_int hpos h
  have hinf : (Binary64.nearestBits n 1 == Binary64.infinityBits) = false := by
    rw [beq_eq_false_iff_ne]
    intro he
    have := congrArg UInt64.toNat he
    rw [hbits] at this
    have hlog := Binary64.log2_le_53 hpos h
    simp [Binary64.infinityBits] at this
    omega
  simp only [Numeral.value?, show (n == 0) = false by simp; omega, Bool.false_eq_true, if_false,
    Bool.and_true, Bool.not_false, Bool.false_and, decide_eq_true_eq]
  rw [if_neg (by omega), if_neg (by omega)]
  have hpow : n * Nat.pow 10 0 = n := by simp
  simp only [le_refl, if_true, Int.toNat_zero, hpow, hinf, Bool.false_eq_true, if_false,
    Option.map_some, Option.some.injEq]
  exact truncateWord_nearest hpos h neg

/-- The decimal text of an integer of at most 53 bits reads as a binary64 value that truncates
back to the integer. -/
theorem truncateWord_readFloat?_toString {i : Int} (h : i.natAbs ≤ 2 ^ 53) :
    (readFloat? (toString i)).map truncateWord = some i := by
  have hv := value?_int (decide (i < 0)) h
  unfold readFloat? readFloat
  rw [special?_toString, parse?_toString]
  rcases hx : Numeral.value? ⟨decide (i < 0), i.natAbs, 0, false⟩ with _ | x
  · rw [hx] at hv
    cases hv
  · rw [hx] at hv
    simp only [Option.map_some, Option.some.injEq, decide_eq_true_eq] at hv
    simp only [hx, Option.map_some, Option.some.injEq, hv]
    split_ifs <;> omega

/-! ### NaN -/

theorem text_of_nan {x : Float} (h : Binary64.decode x.toBits = .nan) : x.text = "NaN" := by
  unfold Float.text textWith
  rw [h]
  rfl

theorem readFloat?_nanText : readFloat? "NaN" = some (0.0 / 0.0) := by
  decide +kernel

theorem readFloat?_text_of_nan {x : Float} (h : Binary64.decode x.toBits = .nan) :
    readFloat? x.text = some x := by
  rw [text_of_nan h, readFloat?_nanText]
  exact congrArg some (eq_nan_of_decode h).symm

end Decimal

end BitSynth
