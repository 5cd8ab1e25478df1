import Mathlib
import BitSynth.Proofs.Lines
import BitSynth.Proofs.NumberText
import BitSynth.Proofs.Reconciliation

namespace BitSynth

namespace Text

theorem head?_intercalate {α : Type} (sep : List α) {l : List α} (hl : l ≠ []) (ls : List (List α)) :
    (sep.intercalate (l :: ls)).head? = l.head? := by
  cases ls with
  | nil => simp
  | cons l' ls => rw [List.intercalate_cons_cons, List.append_assoc, List.head?_append_of_ne_nil _ hl]

theorem dropWhile_of_head? {l : List Char} (h : ∀ c ∈ l.head?, isSpace c = false) :
    l.dropWhile isSpace = l := by
  cases l with
  | nil => rfl
  | cons c cs => simp [h c rfl]

theorem trimSpace_of_ends {s : String} (hhead : ∀ c ∈ s.toList.head?, isSpace c = false)
    (hlast : ∀ c ∈ s.toList.getLast?, isSpace c = false) : trimSpace s = s := by
  have hrev : s.toList.reverse.dropWhile isSpace = s.toList.reverse :=
    dropWhile_of_head? (by rw [List.head?_reverse]; exact hlast)
  simp [trimSpace, dropWhile_of_head? hhead, hrev]

theorem trimSpace_intercalate {ws : List String} (hws : ∀ w ∈ ws, IsWord w) :
    trimSpace (" ".intercalate ws) = " ".intercalate ws := by
  cases ws with
  | nil => rfl
  | cons w ws =>
    have hw := hws w List.mem_cons_self
    have hne : (w :: ws).map String.toList ≠ [] := by simp
    -- the last word of the line is the last list of characters joined
    have hlast : ((w :: ws).map String.toList).getLast hne ∈ (w :: ws).map String.toList :=
      List.getLast_mem hne
    obtain ⟨x, hx, hxl⟩ := List.mem_map.mp hlast
    have hword := hws x hx
    apply trimSpace_of_ends
    · rw [String.toList_intercalate, List.map_cons,
        head?_intercalate _ (by simpa [String.toList_eq_nil_iff] using hw.1)]
      exact fun c hc => hw.2 c (List.mem_of_mem_head? hc)
    · rw [String.toList_intercalate, show " ".toList = [' '] from rfl,
        getLast?_intercalate ' ' hne (by rw [← hxl]; simpa [String.toList_eq_nil_iff] using hword.1),
        ← hxl]
      exact fun c hc => hword.2 c (List.mem_of_mem_getLast? hc)

end Text

namespace Cache

open Text Decimal Stateful

/-- The thirteen metric columns of an entry's line, in their order. -/
def Entry.metrics (e : Entry) : List Float :=
  let corners (t : Metrics.Triplet) := [t.min, t.typ, t.max]
  corners e.result.delay ++ corners e.result.staticPower ++ corners e.result.dynamicPower ++
    corners e.result.totalPower ++ [e.result.area]

/-- What the index keeps of an entry: the result without its netlist paths, under the entry's
key. -/
def Entry.stored (e : Entry) : Entry :=
  { e with result := { e.result with mappedFile := "", preMapFile := "", id := e.id } }

theorem Entry.format_eq (e : Entry) :
    e.format = " ".intercalate ([e.id, toString e.slot] ++ e.metrics.map Float.text ++
      [toString e.result.mapperRuntime, toString e.result.ioRuntime]) := rfl

theorem readColumns_of_forall₂ {ss : List String} {vs : List Float}
    (h : List.Forall₂ (fun s v => readFloat? s = some v) ss vs) (column : Nat) :
    readColumns ss column = .ok vs := by
  induction h generalizing column with
  | nil => rfl
  | cons hsv _ ih => simp [readColumns, hsv, ih, bind, Except.bind, pure, Except.pure]

/-- An entry the index holds as it is: its key is a field that does not start a comment, its slot
a word that is not negative, its runtimes have at most 53 bits, each of its metrics but a NaN reads
back from its shortest text (what the reader is trusted to do), and its line is shorter than the
line limit. -/
structure Entry.Indexable (e : Entry) : Prop where
  key : IsWord e.id
  uncommented : e.id.toList.head? ≠ some '#'
  slot_nonneg : 0 ≤ e.slot
  slot_lt : e.slot < Int.pow 2 63
  mapperRuntime : e.result.mapperRuntime.natAbs ≤ 2 ^ 53
  ioRuntime : e.result.ioRuntime.natAbs ≤ 2 ^ 53
  metrics : ∀ x ∈ e.metrics, Binary64.decode x.toBits ≠ .nan → readFloat? x.text = some x
  short : e.format.utf8ByteSize < longLineLimit

theorem readFloat?_runtime {i : Int} (h : i.natAbs ≤ 2 ^ 53) :
    ∃ y, readFloat? (toString i) = some y ∧ truncateWord y = i := by
  have hread := truncateWord_readFloat?_toString h
  rcases hr : readFloat? (toString i) with _ | y
  · rw [hr] at hread
    cases hread
  · rw [hr] at hread
    exact ⟨y, rfl, Option.some.inj hread⟩

namespace Entry.Indexable

variable {e : Entry}

theorem words (h : e.Indexable) : ∀ w ∈ [e.id, toString e.slot] ++ e.metrics.map Float.text ++
    [toString e.result.mapperRuntime, toString e.result.ioRuntime], IsWord w := by
  simp only [List.mem_append, List.mem_cons, List.mem_map, List.not_mem_nil, or_false]
  rintro w (((rfl | rfl) | ⟨x, -, rfl⟩) | rfl | rfl)
  · exact h.key
  all_goals first | exact isWord_toString _ | exact isWord_text _

theorem readFloat?_metric (h : e.Indexable) {x : Float} (hx : x ∈ e.metrics) :
    readFloat? x.text = some x := by
  by_cases hnan : Binary64.decode x.toBits = .nan
  · exact readFloat?_text_of_nan hnan
  · exact h.metrics x hx hnan

theorem parse_format (h : e.Indexable) : Entry.parse e.format = .ok e.stored := by
  -- the runtime columns are read as binary64 values and truncated back to words
  obtain ⟨y₁, hy₁, ht₁⟩ := readFloat?_runtime h.mapperRuntime
  obtain ⟨y₂, hy₂, ht₂⟩ := readFloat?_runtime h.ioRuntime
  have hcols : readColumns (e.metrics.map Float.text ++
      [toString e.result.mapperRuntime, toString e.result.ioRuntime]) 3 = .ok (e.metrics ++ [y₁, y₂]) := by
    refine readColumns_of_forall₂ (List.rel_append ?_ ?_) 3
    · exact List.forall₂_map_left_iff.mpr (List.forall₂_same.mpr fun _ hx => h.readFloat?_metric hx)
    · exact .cons hy₁ (.cons hy₂ .nil)
  have hfields : fields e.format = e.id :: toString e.slot :: (e.metrics.map Float.text ++
      [toString e.result.mapperRuntime, toString e.result.ioRuntime]) := by
    rw [format_eq, fields_intercalate h.words]
    rfl
  have hcount : (e.id :: toString e.slot :: (e.metrics.map Float.text ++
      [toString e.result.mapperRuntime, toString e.result.ioRuntime])).length = columns := by
    simp [Entry.metrics, columns]
  have hslot : readInt? (toString e.slot) = some e.slot :=
    readInt?_toString (le_trans (by decide) h.slot_nonneg) h.slot_lt
  unfold Entry.parse
  simp only [hfields, hcount, bne_self_eq_false, Bool.false_eq_true, if_false, hslot,
    if_neg (not_lt.mpr h.slot_nonneg), hcols]
  simp [Entry.metrics, ht₁, ht₂, Entry.stored, pure, Except.pure, bind, Except.bind]

theorem trimSpace_format (h : e.Indexable) : trimSpace e.format = e.format := by
  rw [format_eq]
  exact trimSpace_intercalate h.words

theorem not_mem_format {c : Char} (hc : isSpace c = true) (hne : c ≠ ' ') (h : e.Indexable) :
    c ∉ e.format.toList := by
  rw [format_eq]
  exact fun hm => hne (space_of_mem_intercalate h.words hm hc)

theorem head?_format (h : e.Indexable) : e.format.toList.head? = e.id.toList.head? := by
  rw [format_eq, String.toList_intercalate, List.cons_append, List.cons_append, List.map_cons,
    Text.head?_intercalate _ (by simpa [String.toList_eq_nil_iff] using h.key.1)]

theorem readIndexLine_format (h : e.Indexable) (out : Array Entry) (n : Nat) :
    readIndexLine (.ok out) (e.format, n) = .ok (out.push e.stored) := by
  have hne : e.format.isEmpty = false := by
    rw [String.isEmpty_eq_false_iff]
    intro h0
    have hhead := h.head?_format
    obtain ⟨c, cs, hc⟩ := List.exists_cons_of_ne_nil
      (by simpa [String.toList_eq_nil_iff] using h.key.1 : e.id.toList ≠ [])
    simp [h0, hc] at hhead
  simp [readIndexLine, h.trimSpace_format, hne, h.head?_format, h.uncommented, h.parse_format,
    bind, Except.bind, pure, Except.pure]

end Entry.Indexable

theorem foldl_readIndexLine_comments {L : List (String × Nat)}
    (hL : ∀ x ∈ L, (trimSpace x.1).toList.head? = some '#') (out : Array Entry) :
    L.foldl readIndexLine (.ok out) = .ok out := by
  induction L with
  | nil => rfl
  | cons x L ih =>
    have hx : (trimSpace x.1).toList.head? = some '#' := hL x List.mem_cons_self
    have hskip : readIndexLine (.ok out) x = .ok out := by
      simp [readIndexLine, hx, bind, Except.bind, pure, Except.pure]
    rw [List.foldl_cons, hskip, ih fun y hy => hL y (List.mem_cons_of_mem x hy)]

/-- The lines of entries the index holds, numbered from any line on, read as the entries it keeps. -/
theorem foldl_readIndexLine_entries {es : List Entry} (h : ∀ e ∈ es, e.Indexable) (k : Nat)
    (out : Array Entry) :
    ((es.map Entry.format).zipIdx k).foldl readIndexLine (.ok out) =
      .ok (out ++ (es.map Entry.stored).toArray) := by
  induction es generalizing k out with
  | nil => simp
  | cons e es ih =>
    rw [List.map_cons, List.zipIdx_cons, List.foldl_cons,
      (h e List.mem_cons_self).readIndexLine_format,
      ih (fun e' he' => h e' (List.mem_cons_of_mem e he'))]
    simp
theorem headerLines_comments : ∀ l ∈ headerLines, (trimSpace l).toList.head? = some '#' := by
  decide +kernel

theorem headerLines_plain :
    ∀ l ∈ headerLines, '\n' ∉ l.toList ∧ '\r' ∉ l.toList ∧ l.utf8ByteSize < longLineLimit := by
  decide +kernel

/-- An index made of the header and the lines of entries it holds reads as the entries it keeps. -/
theorem readIndex_header_lines {es : List Entry} (h : ∀ e ∈ es, e.Indexable) :
    readIndex (indexHeader ++ Entry.lines es) = .ok (es.map Entry.stored) := by
  have htext : indexHeader ++ Entry.lines es =
      String.join ((headerLines ++ es.map Entry.format).map (· ++ "\n")) := by
    simp [indexHeader, Entry.lines, String.join_append, Function.comp_def]
  have hplain : ∀ l ∈ headerLines ++ es.map Entry.format,
      '\n' ∉ l.toList ∧ '\r' ∉ l.toList ∧ l.utf8ByteSize < longLineLimit := by
    intro l hl
    rcases List.mem_append.mp hl with hl | hl
    · exact headerLines_plain l hl
    · obtain ⟨e, he, rfl⟩ := List.mem_map.mp hl
      have hI := h e he
      exact ⟨hI.not_mem_format (by decide) (by decide), hI.not_mem_format (by decide) (by decide), hI.short⟩
  have hdrop : (headerLines ++ es.map Entry.format).map dropReturn = headerLines ++ es.map Entry.format :=
    (List.map_congr_left fun l hl => dropReturn_of_not_mem (hplain l hl).2.1).trans (List.map_id _)
  have hfold : (headerLines ++ es.map Entry.format).zipIdx.foldl readIndexLine (.ok #[]) =
      .ok (es.map Entry.stored).toArray := by
    rw [List.zipIdx_append, List.foldl_append,
      foldl_readIndexLine_comments (fun x hx => headerLines_comments x.1 (List.fst_mem_of_mem_zipIdx hx)),
      foldl_readIndexLine_entries h]
    simp
  rw [htext, readIndex, scanBounded_join fun l hl => ⟨(hplain l hl).1, (hplain l hl).2.2⟩, hdrop]
  simp [hfold, bind, Except.bind, pure, Except.pure]

theorem find?_key {α β : Type} [BEq β] [LawfulBEq β] {key : α → β} {L : List α}
    (hL : (L.map key).Nodup) {x : α} (hx : x ∈ L) : L.find? (fun y => key y == key x) = some x := by
  induction L with
  | nil => cases hx
  | cons y L ih =>
    rw [List.map_cons, List.nodup_cons] at hL
    rcases List.mem_cons.mp hx with rfl | hx
    · simp
    · have hne : key y ≠ key x := fun he => hL.1 (he ▸ List.mem_map_of_mem hx)
      simp [hne, ih hL.2 hx]

theorem lookup_loaded {c : Cache} {es : List Entry} (hids : (es.map (·.id)).Nodup)
    (hslots : (es.map (·.slot)).Nodup) {e : Entry} (he : e ∈ es) :
    (c.loaded es).lookup e.id = some (c.resolve e) := by
  simp [lookup, loaded, List.find?_map, Function.comp_def, find?_key hids he, find?_key hslots he]

theorem resolve_stored (c : Cache) (e : Entry) : c.resolve e.stored = c.resolve e := rfl

/-- Reading again an index made of the header and the lines of entries it holds finds each entry
under its key, with its netlist paths. -/
theorem reload_lookup {c : Cache} {w : World} {es : List Entry} (h : ∀ e ∈ es, e.Indexable)
    (hread : w.disk.read c.index = .ok (indexHeader ++ Entry.lines es)) :
    Post reload (c, w) fun r s => r = .ok () → ∀ e ∈ es, s.1.lookup e.id = some (c.resolve e) := by
  refine (reload_post c w).conseq ?_
  intro r s hpost hr e he
  obtain ⟨text, es', htext, hes', hc, hids, hslots, -⟩ := hpost.2.2 hr
  rw [hread] at htext
  cases htext
  rw [readIndex_header_lines h] at hes'
  cases hes'
  rw [hc, ← resolve_stored]
  exact lookup_loaded (e := e.stored) hids hslots (List.mem_map_of_mem he)

/-- The index keeps the entries it holds: the line of each parses back as the entry it keeps, which
writes the same line; an index made of the header and those lines reads as the entries kept; and
reading that index again finds each entry under its key, with the netlist paths of its slot. -/
structure IndexCodec (es : List Entry) : Prop where
  parse : ∀ e ∈ es, Entry.parse e.format = .ok e.stored
  format : ∀ e ∈ es, e.stored.format = e.format
  read : readIndex (indexHeader ++ Entry.lines es) = .ok (es.map Entry.stored)
  reopen : ∀ (c : Cache) (w : World), w.disk.read c.index = .ok (indexHeader ++ Entry.lines es) →
    Post reload (c, w) fun r s => r = .ok () → ∀ e ∈ es, s.1.lookup e.id = some (c.resolve e)

theorem index_lines_read_back {es : List Entry} (h : ∀ e ∈ es, e.Indexable) : IndexCodec es where
  parse e he := (h e he).parse_format
  format _ _ := rfl
  read := readIndex_header_lines h
  reopen _ _ hread := reload_lookup h hread

/-- The entry of the index line of the tests: a key with brackets and digits, slot 3, small
delays and powers, and runtimes of 1520 and 37 microseconds. -/
def sampleEntry : Entry :=
  { id := "(v0+v1)_4_4_5", slot := 3,
    result := { delay := ⟨1e-10, 1.25e-10, 1.5e-10⟩, totalPower := ⟨3.5e-06, 3.5e-06, 3.5e-06⟩,
                area := 2.4e-11, mapperRuntime := 1520, ioRuntime := 37 } }

example : sampleEntry.format =
    "(v0+v1)_4_4_5 3 1e-10 1.25e-10 1.5e-10 0 0 0 0 0 0 3.5e-06 3.5e-06 3.5e-06 2.4e-11 1520 37" := by
  decide +kernel

theorem sampleEntry_indexable : sampleEntry.Indexable where
  key := ⟨by decide, spaceless_of_all (by simp only [sampleEntry, String.reduceToList]; decide)⟩
  uncommented := by simp only [sampleEntry, String.reduceToList]; decide
  slot_nonneg := by decide
  slot_lt := by decide
  mapperRuntime := by decide
  ioRuntime := by decide
  metrics x hx _ := (by decide +kernel : ∀ x ∈ sampleEntry.metrics, readFloat? x.text = some x) x hx
  short := by decide +kernel

theorem sample_index_reads_back : (∀ e ∈ [sampleEntry], e.Indexable) ∧ IndexCodec [sampleEntry] :=
  have h : ∀ e ∈ [sampleEntry], e.Indexable := by
    intro e he
    rw [List.mem_singleton.mp he]
    exact sampleEntry_indexable
  ⟨h, index_lines_read_back h⟩

/-- An entry whose mapper runtime, `2 ^ 53 + 1` microseconds, lies between two binary64 values. -/
def oddRuntimeEntry : Entry := { id := "x", slot := 0, result := { mapperRuntime := 9007199254740993 } }

/-- Its line parses back with a runtime one microsecond less: runtimes are read through the
nearest binary64 value. -/
theorem long_runtime_reads_back_rounded :
    oddRuntimeEntry.format = "x 0 0 0 0 0 0 0 0 0 0 0 0 0 0 9007199254740993 0" ∧
      (Entry.parse oddRuntimeEntry.format).toOption.map (·.result.mapperRuntime) = some 9007199254740992 := by
  decide +kernel

end Cache

end BitSynth
