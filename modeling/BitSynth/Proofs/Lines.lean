import Mathlib
import BitSynth.Text.Lines

namespace BitSynth.Text

/-- Lists joined by a separator end as the last list does, when that one is not empty. -/
theorem getLast?_intercalate {α : Type} (sep : α) {ls : List (List α)} (hne : ls ≠ [])
    (hlast : ls.getLast hne ≠ []) : ([sep].intercalate ls).getLast? = (ls.getLast hne).getLast? := by
  induction ls with
  | nil => exact absurd rfl hne
  | cons l ls ih =>
    cases ls with
    | nil => simp
    | cons l' ls' =>
      have hrest : (l' :: ls').getLast (List.cons_ne_nil l' ls') ≠ [] := by
        simpa [List.getLast_cons] using hlast
      have ih' := ih (List.cons_ne_nil l' ls') hrest
      rw [List.intercalate_cons_of_ne_nil (List.cons_ne_nil l' ls'), List.getLast?_append, ih',
        List.getLast_cons (List.cons_ne_nil l' ls')]
      obtain ⟨x, hx⟩ := Option.isSome_iff_exists.mp (List.getLast?_isSome.mpr hrest)
      simp [hx]

/-- Lines without line feeds, joined by line feeds, are the raw lines of the text, provided the
last one is not empty. -/
theorem rawLines_intercalate {L : List String} (hne : L ≠ []) (hnl : ∀ l ∈ L, '\n' ∉ l.toList)
    (hlast : L.getLast hne ≠ "") : rawLines ("\n".intercalate L) = L := by
  have hne' : L.map String.toList ≠ [] := by simpa using hne
  have hlast' : (L.map String.toList).getLast hne' ≠ [] := by
    simpa [List.getLast_map, String.toList_eq_nil_iff] using hlast
  have htext : ("\n".intercalate L).toList = ['\n'].intercalate (L.map String.toList) := by
    simp [String.toList_intercalate]
  have hend := getLast?_intercalate '\n' hne' hlast'
  obtain ⟨c, hc⟩ := Option.isSome_iff_exists.mp (List.getLast?_isSome.mpr hlast')
  have hc_mem : c ∈ (L.map String.toList).getLast hne' := List.mem_of_getLast? hc
  have hcn : c ≠ '\n' := by
    rintro rfl
    rw [List.getLast_map] at hc_mem
    exact hnl _ (List.getLast_mem hne) hc_mem
  have hnonempty : ("\n".intercalate L).isEmpty = false := by
    rw [String.isEmpty_eq_false_iff]
    intro h
    have h' : ['\n'].intercalate (L.map String.toList) = [] := by rw [← htext, h]; rfl
    rw [h', hc] at hend
    simp at hend
  have hsplit : (['\n'].intercalate (L.map String.toList)).splitOn '\n' = L.map String.toList :=
    List.splitOn_intercalate '\n' (by simpa using hnl) hne'
  simp only [rawLines, hnonempty, htext, hsplit]
  simp only [Bool.false_eq_true, if_false, List.map_map, Function.comp_def, String.ofList_toList,
    List.map_id', beq_iff_eq, hend, hc, Option.some.injEq, hcn, if_false]

theorem rawLines_line_append {l : String} (h : '\n' ∉ l.toList) (rest : String) :
    rawLines (l ++ "\n" ++ rest) = l :: rawLines rest := by
  have htext : (l ++ "\n" ++ rest).toList = l.toList ++ '\n' :: rest.toList := by simp
  have hne : (l ++ "\n" ++ rest).isEmpty = false := by
    rw [String.isEmpty_eq_false_iff, ne_eq, ← String.toList_inj, htext]
    simp
  unfold rawLines
  rw [hne, htext, List.splitOn_append_cons_self_of_not_mem h]
  by_cases hr : rest = ""
  · subst hr
    simp
  · have hr' : rest.toList ≠ [] := by simpa [String.toList_eq_nil_iff] using hr
    have hlast : ('\n' :: rest.toList).getLast? = rest.toList.getLast? := by
      obtain ⟨x, xs, hx⟩ := List.exists_cons_of_ne_nil hr'
      rw [hx, List.getLast?_cons_cons]
    simp only [Bool.false_eq_true, if_false, List.map_cons, String.ofList_toList,
      List.getLast?_append_cons, hlast, String.isEmpty_eq_false_iff.mpr hr]
    split
    · exact List.dropLast_cons_of_ne_nil (by simp)
    · rfl

theorem rawLines_lines {A : List String} (hA : ∀ l ∈ A, '\n' ∉ l.toList) (rest : String) :
    rawLines (String.join (A.map (· ++ "\n")) ++ rest) = A ++ rawLines rest := by
  induction A with
  | nil => simp
  | cons l A ih =>
    rw [List.map_cons, String.join_cons, String.append_assoc,
      rawLines_line_append (hA l List.mem_cons_self), ih fun l' hl' => hA l' (List.mem_cons_of_mem l hl')]
    rfl

/-! ## Line ends -/

theorem dropReturn_of_getLast? {l : String} (h : l.toList.getLast? ≠ some '\r') : dropReturn l = l := by
  simp [dropReturn, h]

theorem isPrefix_dropReturn (l : String) : (dropReturn l).toList <+: l.toList := by
  unfold dropReturn
  split
  · simpa using List.dropLast_prefix l.toList
  · exact List.prefix_refl _

theorem startsWith_dropReturn {l p : String} (h : l.startsWith p = false) :
    (dropReturn l).startsWith p = false := by
  rw [String.startsWith_string_eq_false_iff] at h ⊢
  exact fun hp => h (hp.trans (isPrefix_dropReturn l))

theorem dropReturn_of_not_mem {l : String} (h : '\r' ∉ l.toList) : dropReturn l = l :=
  dropReturn_of_getLast? fun hl => h (List.mem_of_getLast? hl)

/-! ## Bounded readers -/

theorem length_le_utf8ByteSize (s : String) : s.length ≤ s.utf8ByteSize := by
  rw [← String.utf8Len_toList, ← String.length_toList]
  induction s.toList with
  | nil => simp
  | cons c cs ih =>
    have := c.utf8Size_pos
    simp only [List.length_cons, String.utf8Len_cons]
    omega

theorem scanBounded_intercalate {limit : Nat} {L : List String} (hne : L ≠ [])
    (hnl : ∀ l ∈ L, '\n' ∉ l.toList) (hlast : L.getLast hne ≠ "")
    (hret : ∀ l ∈ L, l.toList.getLast? ≠ some '\r') (hshort : ∀ l ∈ L, l.utf8ByteSize < limit) :
    scanBounded limit ("\n".intercalate L) = (L, false) := by
  have htake : L.takeWhile (fun l => decide (l.utf8ByteSize < limit)) = L :=
    List.takeWhile_eq_self_iff.mpr fun l hl => by simpa using hshort l hl
  have hdrop : L.map dropReturn = L := by
    conv => rhs; rw [← List.map_id L]
    exact List.map_congr_left fun l hl => dropReturn_of_getLast? (hret l hl)
  simp [scanBounded, rawLines_intercalate hne hnl hlast, htake, hdrop]

theorem scanBounded_lines {limit : Nat} {A : List String}
    (hA : ∀ l ∈ A, '\n' ∉ l.toList ∧ l.utf8ByteSize < limit) (rest : String) :
    ∃ more tooLong, scanBounded limit (String.join (A.map (· ++ "\n")) ++ rest) =
      (A.map dropReturn ++ more, tooLong) := by
  have hpos : ∀ l ∈ A, decide (l.utf8ByteSize < limit) = true := fun l hl => by
    simpa using (hA l hl).2
  simp only [scanBounded]
  rw [rawLines_lines (fun l hl => (hA l hl).1), List.takeWhile_append_of_pos hpos]
  exact ⟨_, _, Prod.ext (List.map_append ..) rfl⟩

theorem scanBounded_join {limit : Nat} {A : List String}
    (hA : ∀ l ∈ A, '\n' ∉ l.toList ∧ l.utf8ByteSize < limit) :
    scanBounded limit (String.join (A.map (· ++ "\n"))) = (A.map dropReturn, false) := by
  have hraw : rawLines (String.join (A.map (· ++ "\n"))) = A := by
    simpa [rawLines] using rawLines_lines (fun l hl => (hA l hl).1) ""
  have htake : A.takeWhile (fun l => decide (l.utf8ByteSize < limit)) = A :=
    List.takeWhile_eq_self_iff.mpr fun l hl => by simpa using (hA l hl).2
  simp [scanBounded, hraw, htake]

theorem scanBounded_long {limit : Nat} {l : String} (hpos : 0 < limit) (hnl : '\n' ∉ l.toList)
    (hlong : limit ≤ l.utf8ByteSize) : (scanBounded limit l).2 = true := by
  have hne : l ≠ "" := by
    rintro rfl
    simp at hlong
    omega
  have hraw : rawLines l = [l] := by
    simpa using rawLines_intercalate (L := [l]) (by simp) (by simpa using hnl) (by simpa using hne)
  simp [scanBounded, hraw, Nat.not_lt.mpr hlong]

end BitSynth.Text
