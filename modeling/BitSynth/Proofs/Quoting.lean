import Mathlib
import BitSynth.Proofs.Text

namespace BitSynth.Text

theorem isGraphic_newline : isGraphic '\n' = false := by
  rw [isGraphic, ← Array.any_toList]
  decide +kernel

theorem hexValue?_digitChar {d : Nat} (h : d < 16) : hexValue? (Nat.digitChar d) = some d := by
  interval_cases d <;> decide

theorem exists_digitChar_of_mem_toDigits {b n : Nat} {y : Char} (hb : 1 < b)
    (h : y ∈ Nat.toDigits b n) : ∃ d, y = Nat.digitChar d := by
  induction n using Nat.strong_induction_on with
  | _ n ih =>
    rw [Nat.toDigits_eq_if hb] at h
    split at h
    · exact ⟨n, by simpa using h⟩
    · rcases List.mem_append.mp h with h | h
      · exact ih (n / b) (Nat.div_lt_self (by omega) hb) h
      · exact ⟨n % b, by simpa using h⟩

/-- Reading `k₁ + k₂` digits reads `k₁` digits, then `k₂` more from where those stopped. -/
theorem readDigits_add (base k₁ k₂ : Nat) (cs : List Char) (acc : Nat) :
    readDigits base (k₁ + k₂) cs acc =
      (readDigits base k₁ cs acc).bind fun r => readDigits base k₂ r.2 r.1 := by
  induction k₁ generalizing cs acc with
  | zero => simp [readDigits]
  | succ k ih =>
    rw [show k + 1 + k₂ = (k + k₂) + 1 by omega]
    cases cs with
    | nil => simp [readDigits]
    | cons c rest =>
      simp only [readDigits]
      split
      · split
        · exact ih rest _
        · rfl
      · rfl

theorem readDigits_zeros {base : Nat} (hb : 0 < base) (z : Nat) (cs : List Char) :
    readDigits base z (List.replicate z '0' ++ cs) 0 = some (0, cs) := by
  induction z with
  | zero => rfl
  | succ z ih =>
    have h0 : hexValue? '0' = some 0 := by decide
    simp only [List.replicate_succ, List.cons_append, readDigits, h0, if_pos hb, Nat.zero_mul,
      Nat.add_zero, ih]

/-- The hexadecimal digits of a number read back as that number, after the digits read before. -/
theorem readDigits_toDigits (v acc : Nat) (rest : List Char) :
    readDigits 16 (Nat.toDigits 16 v).length (Nat.toDigits 16 v ++ rest) acc =
      some (acc * 16 ^ (Nat.toDigits 16 v).length + v, rest) := by
  induction v using Nat.strong_induction_on generalizing acc rest with
  | _ v ih =>
    by_cases hv : v < 16
    · rw [Nat.toDigits_of_lt_base hv]
      simp [readDigits, hexValue?_digitChar hv, hv]
    · -- the digits of `v / 16`, then the last digit
      have hsplit := Nat.toDigits_of_base_le (b := 16) (n := v) (by omega) (by omega)
      have hmod : v % 16 < 16 := Nat.mod_lt v (by omega)
      rw [hsplit, List.length_append, List.length_singleton, readDigits_add, List.append_assoc,
        ih (v / 16) (by omega) acc _]
      simp only [Option.bind_some, List.singleton_append, readDigits, hexValue?_digitChar hmod,
        if_pos hmod]
      congr 2
      rw [pow_succ]
      have := Nat.div_add_mod v 16
      nlinarith

theorem readDigits_hexDigits {width v : Nat} (hw : 0 < width) (hv : v < 16 ^ width)
    (rest : List Char) : readDigits 16 width ((hexDigits width v).toList ++ rest) 0 = some (v, rest) := by
  have hlen : (Nat.toDigits 16 v).length ≤ width := Nat.toDigits_length 16 v width hw hv
  have hsum : width = (width - (Nat.toDigits 16 v).length) + (Nat.toDigits 16 v).length := by omega
  rw [hexDigits, String.toList_ofList, List.append_assoc]
  nth_rewrite 1 [hsum]
  rw [readDigits_add, readDigits_zeros (by omega)]
  simp [readDigits_toDigits]

theorem Piece.bytes_char (c : Char) : (Piece.char c).bytes = String.utf8EncodeChar c := by
  rw [show (Piece.char c).bytes = bytesOf (String.singleton c) from rfl, bytesOf_eq_flatMap]
  simp

/-- The escape of one character decodes, in one step, to a piece with the character's bytes. -/
theorem unescapeWithin_escapeChar (c : Char) :
    ∃ p : Piece, p.bytes = String.utf8EncodeChar c ∧
      ∀ fuel rest, unescapeWithin (fuel + 1) ((escapeChar '"' c).toList ++ rest) =
        (unescapeWithin fuel rest).map (p :: ·) := by
  unfold escapeChar
  by_cases hq : (c == '"' || c == '\\') = true
  · rw [if_pos hq]
    refine ⟨.char c, Piece.bytes_char c, fun fuel rest => ?_⟩
    rcases (by simpa using hq : c = '"' ∨ c = '\\') with rfl | rfl <;> simp [unescapeWithin]
  · rw [if_neg hq]
    by_cases hg : isGraphic c = true
    · rw [if_pos hg]
      refine ⟨.char c, Piece.bytes_char c, fun fuel rest => ?_⟩
      have hn : c ≠ '\n' := by
        rintro rfl
        simp [isGraphic_newline] at hg
      have hq' : c ≠ '"' ∧ c ≠ '\\' := by simpa using hq
      simp [unescapeWithin, hn, hq'.1, hq'.2]
    · rw [if_neg hg]
      split
      case h_8 =>
        have hvalid : c.toNat < 0xD800 ∨ (0xDFFF < c.toNat ∧ c.toNat < 0x110000) := c.valid
        split
        · -- a control character: one byte, written in two hexadecimal digits
          rename_i hsmall
          replace hsmall : c.toNat < 32 ∨ c.toNat = 127 := by simpa using hsmall
          have hlt : c.toNat < 16 ^ 2 := by omega
          refine ⟨.byte c.toNat, ?_, fun fuel rest => ?_⟩
          · simp [Piece.bytes, String.utf8EncodeChar, show c.val.toNat = c.toNat from rfl,
              show c.toNat ≤ 127 by omega, Nat.toUInt8]
          · simp only [String.toList_append, List.append_assoc]
            simp [unescapeWithin, readDigits_hexDigits (by norm_num) hlt]
            omega
        · -- any other character: its code point, which is never a surrogate
          rename_i hbig
          replace hbig : 32 ≤ c.toNat ∧ c.toNat ≠ 127 := by simpa using hbig
          refine ⟨.char c, Piece.bytes_char c, fun fuel rest => ?_⟩
          split
          · have hlt : c.toNat < 16 ^ 4 := by omega
            simp only [String.toList_append, List.append_assoc]
            simp [unescapeWithin, readDigits_hexDigits (by norm_num) hlt, Char.ofNat_toNat]
            omega
          · have hlt : c.toNat < 16 ^ 8 := by omega
            simp only [String.toList_append, List.append_assoc]
            simp [unescapeWithin, readDigits_hexDigits (by norm_num) hlt, Char.ofNat_toNat]
            omega
      all_goals exact ⟨.char _, Piece.bytes_char _, fun fuel rest => by simp [unescapeWithin]⟩

/-- Escaped characters decode, with one step of fuel for each, to pieces with their bytes. -/
theorem unescapeWithin_escaped (cs : List Char) (fuel : Nat) (h : cs.length < fuel) :
    ∃ ps, unescapeWithin fuel (cs.flatMap fun c => (escapeChar '"' c).toList) = some ps ∧
      ps.flatMap Piece.bytes = cs.flatMap String.utf8EncodeChar := by
  obtain ⟨f, rfl⟩ : ∃ f, fuel = f + 1 := ⟨fuel - 1, by omega⟩
  induction cs generalizing f with
  | nil => exact ⟨[], by simp [unescapeWithin], rfl⟩
  | cons c cs ih =>
    obtain ⟨p, hp, hstep⟩ := unescapeWithin_escapeChar c
    obtain ⟨g, rfl⟩ : ∃ g, f = g + 1 := ⟨f - 1, by simp at h; omega⟩
    obtain ⟨ps, hps, hbytes⟩ := ih g (by simp at h; omega)
    refine ⟨p :: ps, ?_, ?_⟩
    · rw [List.flatMap_cons, hstep, hps]
      rfl
    · simp [hp, hbytes]

theorem piecesText_of_bytes {ps : List Piece} {s : String}
    (h : ps.flatMap Piece.bytes = s.toList.flatMap String.utf8EncodeChar) : piecesText ps = s := by
  have hs : String.fromUTF8? (ByteArray.mk (ps.flatMap Piece.bytes).toArray) = some s := by
    rw [h, ← bytesOf_eq_flatMap]
    exact ofBytes?_bytesOf s
  simp [piecesText, hs]

theorem escapeChar_ne_nil (q c : Char) : (escapeChar q c).toList ≠ [] := by
  unfold escapeChar
  split
  · simp
  · split
    · simp
    · split <;> try simp
      split
      · simp
      · split <;> simp

theorem quote_toList (s : String) :
    (quote s).toList = '"' :: ((s.toList.flatMap fun c => (escapeChar '"' c).toList) ++ ['"']) := by
  simp [quote, String.toList_join, List.flatMap_map]

theorem length_le_escaped (cs : List Char) :
    cs.length ≤ (cs.flatMap fun c => (escapeChar '"' c).toList).length := by
  induction cs with
  | nil => simp
  | cons c cs ih =>
    have := List.length_pos_of_ne_nil (escapeChar_ne_nil '"' c)
    simp only [List.flatMap_cons, List.length_append, List.length_cons]
    omega

theorem unquote?_quote (s : String) : unquote? (quote s) = some s := by
  obtain ⟨ps, hps, hbytes⟩ :=
    unescapeWithin_escaped s.toList _ (Nat.lt_succ_of_le (length_le_escaped s.toList))
  have hlast : ('"' :: ((s.toList.flatMap fun c => (escapeChar '"' c).toList) ++ ['"'])).getLast? =
      some '"' := by
    simp [List.getLast?_cons]
  rw [unquote?, quote_toList]
  simp [-List.length_flatMap]
  exact ⟨hlast, ps, hps, piecesText_of_bytes hbytes⟩

/-- A character that a line reader takes as it is inside quotes: neither a quote, nor a backslash,
nor a line feed. -/
def Plain (c : Char) : Prop := c ≠ '"' ∧ c ≠ '\\' ∧ c ≠ '\n'

theorem plain_of_mem_hexDigits {w n : Nat} {y : Char} (h : y ∈ (hexDigits w n).toList) : Plain y := by
  rw [hexDigits, String.toList_ofList] at h
  rcases List.mem_append.mp h with h | h
  · rw [List.eq_of_mem_replicate h]
    exact ⟨by decide, by decide, by decide⟩
  · obtain ⟨d, rfl⟩ := exists_digitChar_of_mem_toDigits (by norm_num) h
    exact ⟨Nat.digitChar_ne '"' (by decide), Nat.digitChar_ne '\\' (by decide),
      Nat.digitChar_ne '\n' (by decide)⟩

/-- An escape is one plain character, or a backslash, the character it protects (not a line
feed), and plain characters. -/
theorem escapeChar_shape (c : Char) :
    ((escapeChar '"' c).toList = [c] ∧ Plain c) ∨
      ∃ x t, (escapeChar '"' c).toList = '\\' :: x :: t ∧ x ≠ '\n' ∧ ∀ y ∈ t, Plain y := by
  unfold escapeChar
  by_cases hq : (c == '"' || c == '\\') = true
  · rw [if_pos hq]
    refine .inr ⟨c, [], by simp, ?_, by simp⟩
    rcases (by simpa using hq : c = '"' ∨ c = '\\') with rfl | rfl <;> decide
  · rw [if_neg hq]
    have hq' : c ≠ '"' ∧ c ≠ '\\' := by simpa using hq
    by_cases hg : isGraphic c = true
    · rw [if_pos hg]
      have hn : c ≠ '\n' := by
        rintro rfl
        simp [isGraphic_newline] at hg
      exact .inl ⟨by simp, hq'.1, hq'.2, hn⟩
    · rw [if_neg hg]
      split
      case h_8 =>
        refine .inr ?_
        split
        · exact ⟨'x', (hexDigits 2 c.toNat).toList, by simp, by decide,
            fun y hy => plain_of_mem_hexDigits hy⟩
        · split
          · exact ⟨'u', (hexDigits 4 c.toNat).toList, by simp, by decide,
              fun y hy => plain_of_mem_hexDigits hy⟩
          · exact ⟨'U', (hexDigits 8 c.toNat).toList, by simp, by decide,
              fun y hy => plain_of_mem_hexDigits hy⟩
      all_goals exact .inr ⟨_, [], rfl, by decide, by simp⟩

theorem newline_not_mem_quote (s : String) : '\n' ∉ (quote s).toList := by
  rw [quote_toList]
  simp only [List.mem_cons, List.mem_append, List.mem_flatMap, not_or]
  refine ⟨by decide, ?_, by decide⟩
  rintro ⟨c, -, hc⟩
  rcases escapeChar_shape c with ⟨he, hp⟩ | ⟨x, t, he, hx, ht⟩
  · rw [he, List.mem_singleton] at hc
    exact hp.2.2 hc.symm
  · rw [he] at hc
    rcases List.mem_cons.mp hc with h | h
    · exact absurd h (by decide)
    rcases List.mem_cons.mp h with h | h
    · exact hx h.symm
    · exact (ht '\n' h).2.2 rfl

end BitSynth.Text
