import Mathlib
import BitSynth.Text.Bytes
import BitSynth.Text.Space
import BitSynth.Text.Search

namespace ByteArray

theorem toList_loop_eq (bs : ByteArray) (i : Nat) (r : List UInt8) :
    toList.loop bs i r = r.reverse ++ bs.data.toList.drop i := by
  fun_induction toList.loop bs i r with
  | case1 i r h ih =>
    have hi : i < bs.data.toList.length := by simpa using h
    rw [ih, List.drop_eq_getElem_cons (l := bs.data.toList) hi]
    simp [ByteArray.get!, h]
  | case2 i r h =>
    rw [List.drop_eq_nil_of_le (by simpa using Nat.le_of_not_lt h)]
    simp

theorem toList_eq_data_toList (bs : ByteArray) : bs.toList = bs.data.toList := by
  simp [toList, toList_loop_eq]

end ByteArray

namespace BitSynth.Text

theorem ofBytes?_bytesOf (s : String) : ofBytes? (bytesOf s) = some s := by
  have hb : ByteArray.mk (bytesOf s).toArray = s.toByteArray := by
    simp [bytesOf, ByteArray.toList_eq_data_toList]
  rw [ofBytes?, hb, String.fromUTF8?, dif_pos s.isValidUTF8]
  rfl

theorem ofBytesLossy_bytesOf (s : String) : ofBytesLossy (bytesOf s) = s := by
  rw [ofBytesLossy, ofBytes?_bytesOf]

theorem bytesOf_eq_flatMap (s : String) : bytesOf s = s.toList.flatMap String.utf8EncodeChar := by
  rw [bytesOf, ByteArray.toList_eq_data_toList]
  have : s.toUTF8 = s.toByteArray := rfl
  rw [this, ← String.utf8Encode_toList, List.utf8Encode]
  simp

@[simp] theorem bytesOf_empty : bytesOf "" = [] := by
  simp [bytesOf_eq_flatMap]

theorem toNat_eq_of_mem_utf8EncodeChar {c : Char} {b : UInt8} (hb : b ∈ String.utf8EncodeChar c)
    (h : b.toNat < 128) : c.toNat = b.toNat := by
  unfold String.utf8EncodeChar at hb
  dsimp only at hb
  have hv : c.val.toNat = c.toNat := rfl
  split_ifs at hb <;> simp only [List.mem_cons, List.not_mem_nil, or_false] at hb <;>
    rcases hb with rfl | rfl | rfl | rfl <;> simp only [UInt8.toNat_ofNat'] at h ⊢ <;> omega

/-- A text without an ASCII character has none of that character's byte in its encoding. -/
theorem ascii_not_mem_bytesOf {s : String} {c : Char} (hc : c.toNat < 128) (h : c ∉ s.toList) :
    UInt8.ofNat c.toNat ∉ bytesOf s := by
  rw [bytesOf_eq_flatMap, List.mem_flatMap]
  rintro ⟨d, hd, hb⟩
  have hlt : (UInt8.ofNat c.toNat).toNat < 128 := by
    rw [UInt8.toNat_ofNat']
    omega
  have hdc : d = c := by
    have := toNat_eq_of_mem_utf8EncodeChar hb hlt
    rw [UInt8.toNat_ofNat', Nat.mod_eq_of_lt (by omega)] at this
    exact Char.toNat_inj.mp this
  exact h (hdc ▸ hd)

theorem ascii_mem_bytesOf {s : String} {c : Char} (hc : c.toNat < 128) (h : c ∈ s.toList) :
    UInt8.ofNat c.toNat ∈ bytesOf s := by
  rw [bytesOf_eq_flatMap, List.mem_flatMap]
  refine ⟨c, h, ?_⟩
  have hv : c.val.toNat = c.toNat := rfl
  simp [String.utf8EncodeChar, hv, show c.toNat ≤ 127 by omega]

/-- A field: a non-empty text without white space. -/
def IsWord (s : String) : Prop := s ≠ "" ∧ ∀ c ∈ s.toList, isSpace c = false

/-- One character of the scan that splits a text into fields: white space ends the current
field, any other character extends it. -/
def fieldStep (acc : List String × List Char) (c : Char) : List String × List Char :=
  if isSpace c then (if acc.2.isEmpty then acc.1 else String.ofList acc.2.reverse :: acc.1, [])
  else (acc.1, c :: acc.2)

/-- The fields of the characters `cs` after the fields `done` and a field begun with `cur`. -/
def fieldsFrom (done : List String) (cur : List Char) (cs : List Char) : List String :=
  let (done, cur) := cs.foldl fieldStep (done, cur)
  (if cur.isEmpty then done else String.ofList cur.reverse :: done).reverse

theorem fields_eq_fieldsFrom (s : String) : fields s = fieldsFrom [] [] s.toList := rfl

theorem foldl_fieldStep_of_word {cs : List Char} (h : ∀ c ∈ cs, isSpace c = false)
    (done : List String) (cur : List Char) :
    cs.foldl fieldStep (done, cur) = (done, cs.reverse ++ cur) := by
  induction cs generalizing cur with
  | nil => rfl
  | cons c cs ih =>
    have hc : isSpace c = false := h c List.mem_cons_self
    rw [List.foldl_cons, fieldStep, if_neg (by simp [hc]), ih fun c' hc' => h c' (List.mem_cons_of_mem c hc')]
    simp

theorem fieldsFrom_append (done : List String) (cur cs cs' : List Char) :
    fieldsFrom done cur (cs ++ cs') =
      fieldsFrom (cs.foldl fieldStep (done, cur)).1 (cs.foldl fieldStep (done, cur)).2 cs' := by
  simp only [fieldsFrom, List.foldl_append]

theorem fieldsFrom_intercalate {ws : List String} (hws : ∀ w ∈ ws, IsWord w) (hne : ws ≠ [])
    (done : List String) :
    fieldsFrom done [] ([' '].intercalate (ws.map String.toList)) = done.reverse ++ ws := by
  induction ws generalizing done with
  | nil => exact absurd rfl hne
  | cons w vs ih =>
    have hw := hws w List.mem_cons_self
    have hfold := foldl_fieldStep_of_word hw.2 done []
    have hrev : w.toList.reverse.isEmpty = false := by simpa using hw.1
    cases vs with
    | nil =>
      simp only [List.map_cons, List.map_nil, List.intercalate_singleton, fieldsFrom, hfold,
        List.append_nil, hrev]
      simp
    | cons v vs =>
      -- the first word, then the space that ends it, then the others
      have hspace : isSpace ' ' = true := by decide
      rw [List.map_cons, List.intercalate_cons_of_ne_nil (by simp), List.append_assoc,
        fieldsFrom_append, hfold, fieldsFrom_append]
      simp only [List.foldl_cons, List.foldl_nil, fieldStep, hspace, if_true, List.append_nil, hrev,
        Bool.false_eq_true, if_false]
      rw [ih (fun v' hv' => hws v' (List.mem_cons_of_mem w hv')) (List.cons_ne_nil v vs)]
      simp

theorem fields_intercalate {ws : List String} (hws : ∀ w ∈ ws, IsWord w) :
    fields (" ".intercalate ws) = ws := by
  cases ws with
  | nil => rfl
  | cons w ws =>
    rw [fields_eq_fieldsFrom, String.toList_intercalate]
    exact fieldsFrom_intercalate hws (List.cons_ne_nil w ws) []

/-- A state of the field scan over characters of `S`: every finished field is a word of `S`, and
the field being read has no white space and lies inside `S`. -/
def Scanned (S : List Char) (acc : List String × List Char) : Prop :=
  (∀ w ∈ acc.1, IsWord w ∧ ∀ c ∈ w.toList, c ∈ S) ∧ ∀ c ∈ acc.2, isSpace c = false ∧ c ∈ S

theorem Scanned.step {S : List Char} {acc : List String × List Char} {c : Char}
    (h : Scanned S acc) (hc : c ∈ S) : Scanned S (fieldStep acc c) := by
  obtain ⟨hdone, hcur⟩ := h
  unfold fieldStep
  by_cases hs : isSpace c
  · rw [if_pos hs]
    refine ⟨fun w hw => ?_, by simp⟩
    split at hw
    · exact hdone w hw
    · rename_i hne
      rcases List.mem_cons.mp hw with rfl | hw
      · have hne' : acc.2 ≠ [] := by simpa using hne
        refine ⟨⟨by simpa [String.ofList_eq_empty_iff] using hne', fun d hd => ?_⟩, fun d hd => ?_⟩
        · exact (hcur d (by simpa using hd)).1
        · exact (hcur d (by simpa using hd)).2
      · exact hdone w hw
  · rw [if_neg hs]
    refine ⟨hdone, fun d hd => ?_⟩
    rcases List.mem_cons.mp hd with rfl | hd
    · exact ⟨by simpa using hs, hc⟩
    · exact hcur d hd

theorem Scanned.foldl {S : List Char} {acc : List String × List Char} (h : Scanned S acc)
    (cs : List Char) (hcs : ∀ c ∈ cs, c ∈ S) : Scanned S (cs.foldl fieldStep acc) := by
  induction cs generalizing acc with
  | nil => exact h
  | cons c cs ih =>
    rw [List.foldl_cons]
    exact ih (h.step (hcs c List.mem_cons_self)) fun c' hc' => hcs c' (List.mem_cons_of_mem c hc')

/-- Every field is a word made of characters of the text. -/
theorem mem_fields {s w : String} (hw : w ∈ fields s) : IsWord w ∧ ∀ c ∈ w.toList, c ∈ s.toList := by
  rw [fields_eq_fieldsFrom, fieldsFrom] at hw
  have hscan := (show Scanned s.toList ([], []) by simp [Scanned]).foldl s.toList fun _ h => h
  obtain ⟨hdone, hcur⟩ := hscan
  simp only [List.mem_reverse] at hw
  split at hw
  · exact hdone w hw
  · rename_i hne
    rcases List.mem_cons.mp hw with rfl | hw
    · have hne' : (s.toList.foldl fieldStep ([], [])).2 ≠ [] := by simpa using hne
      refine ⟨⟨by simpa [String.ofList_eq_empty_iff] using hne', fun d hd => ?_⟩, fun d hd => ?_⟩
      · exact (hcur d (by simpa using hd)).1
      · exact (hcur d (by simpa using hd)).2
    · exact hdone w hw

theorem splitChar_of_not_mem {s : String} {sep : Char} (h : sep ∉ s.toList) : splitChar s sep = [s] := by
  simp [splitChar, List.splitOn_eq_singleton h]

theorem splitChar_intercalate {sep : Char} {parts : List String} (h : ∀ p ∈ parts, sep ∉ p.toList)
    (hne : parts ≠ []) : splitChar ((String.singleton sep).intercalate parts) sep = parts := by
  rw [splitChar, String.toList_intercalate, String.toList_singleton, List.splitOn_intercalate]
  · simp
  · simpa using h
  · simpa using hne

/-! ## Searching and trimming -/

theorem breakChars_append {p : Char} {ps xs : List Char} (hx : p ∉ xs) (ys : List Char) :
    breakChars (p :: ps) (xs ++ p :: ps ++ ys) = some (xs, ys) := by
  induction xs with
  | nil => simp [breakChars]
  | cons x xs ih =>
    have hpx : p ≠ x := fun h => hx (h ▸ List.mem_cons_self)
    rw [List.cons_append, List.cons_append, breakChars, ← List.cons_append, ← List.cons_append,
      ih fun h => hx (List.mem_cons_of_mem x h)]
    simp [hpx]

theorem breakChars_single_none {p : Char} {xs : List Char} (hx : p ∉ xs) :
    breakChars [p] xs = none := by
  induction xs with
  | nil => rfl
  | cons x xs ih =>
    have hpx : p ≠ x := fun h => hx (h ▸ List.mem_cons_self)
    rw [breakChars, ih fun h => hx (List.mem_cons_of_mem x h)]
    simp [hpx]

theorem breakOn?_append {s pat : String} {p : Char} {ps : List Char} (hpat : pat.toList = p :: ps)
    (hs : p ∉ s.toList) (t : String) : breakOn? (s ++ pat ++ t) pat = some (s, t) := by
  have h : breakChars (p :: ps) (s.toList ++ p :: ps ++ t.toList) = some (s.toList, t.toList) :=
    breakChars_append hs t.toList
  rw [← hpat, List.append_assoc] at h
  simp [breakOn?, h]

theorem breakOn?_of_not_mem {s : String} {p : Char} (hs : p ∉ s.toList) :
    breakOn? s (String.singleton p) = none := by
  simp [breakOn?, breakChars_single_none hs]

theorem trimStart_append (p s : String) : trimStart (p ++ s) p = s := by
  rw [trimStart, if_pos (by simp), String.toList_append, ← String.length_toList, List.drop_left,
    String.ofList_toList]

theorem endsWith_append (s p : String) : (s ++ p).endsWith p = true := by
  change (s ++ p).toSlice.endsWith p = true
  rw [String.Slice.endsWith_string_iff]
  simp

theorem trimEnd_append (s p : String) : trimEnd (s ++ p) p = s := by
  rw [trimEnd, if_pos (endsWith_append s p), String.length_append, Nat.add_sub_cancel,
    String.toList_append, ← String.length_toList, List.take_left, String.ofList_toList]

theorem fields_space_append (s : String) : fields (" " ++ s) = fields s := by
  have hspace : isSpace ' ' = true := by decide
  rw [fields_eq_fieldsFrom, fields_eq_fieldsFrom, String.toList_append, fieldsFrom_append]
  simp [fieldStep, hspace]

/-- Words joined by single spaces hold no white space but those spaces. -/
theorem space_of_mem_intercalate {ws : List String} (hws : ∀ w ∈ ws, IsWord w) {c : Char}
    (hc : c ∈ (" ".intercalate ws).toList) (hs : isSpace c = true) : c = ' ' := by
  induction ws with
  | nil => simp at hc
  | cons w ws ih =>
    have hw := hws w List.mem_cons_self
    cases ws with
    | nil =>
      rw [String.intercalate_singleton] at hc
      rw [hw.2 c hc] at hs
      exact absurd hs (by decide)
    | cons v vs =>
      rw [String.intercalate_cons_of_ne_nil (List.cons_ne_nil v vs), String.toList_append,
        String.toList_append, List.mem_append, List.mem_append] at hc
      rcases hc with (hc | hc) | hc
      · rw [hw.2 c hc] at hs
        exact absurd hs (by decide)
      · simpa using hc
      · exact ih (fun w' hw' => hws w' (List.mem_cons_of_mem w hw')) hc

/-- Words joined by single spaces are at least as many characters as there are words. -/
theorem length_le_length_intercalate {ws : List String} (hws : ∀ w ∈ ws, w ≠ "") :
    ws.length ≤ (" ".intercalate ws).length := by
  induction ws with
  | nil => simp
  | cons w ws ih =>
    have hw : 0 < w.length := by
      rw [← String.length_toList]
      exact List.length_pos_of_ne_nil (by simpa [String.toList_eq_nil_iff] using hws w List.mem_cons_self)
    cases ws with
    | nil =>
      simp only [List.length_singleton, String.intercalate_singleton]
      omega
    | cons v vs =>
      have ih' := ih fun w' hw' => hws w' (List.mem_cons_of_mem w hw')
      rw [String.intercalate_cons_of_ne_nil (List.cons_ne_nil v vs), String.length_append,
        String.length_append]
      simp only [List.length_cons] at ih' ⊢
      omega

end BitSynth.Text
