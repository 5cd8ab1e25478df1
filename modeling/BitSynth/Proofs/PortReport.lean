import Mathlib
import BitSynth.Proofs.Lines
import BitSynth.Proofs.NumberText
import BitSynth.Abc.Ports

namespace BitSynth.Abc

open Text

/-! ## Entries -/

theorem isDigit_of_mem_toString {i : Nat} {c : Char} (h : c ∈ (toString i).toList) :
    c.isDigit = true :=
  Decimal.isDigit_of_mem_toDigits (by simpa [Nat.toList_repr] using h)

theorem readInt?_toString_nat {i : Nat} (hi : i < 2 ^ 63) : Decimal.readInt? i.repr = some (i : Int) :=
  Decimal.readInt?_toString (i := (i : Int)) (by simp [Int.pow_eq]) (by simp [Int.pow_eq]; omega)

/-- The entry of bit `k` of a vector port in the report. -/
def bitEntry (name : String) (k : Nat) : String := name ++ "[" ++ toString k ++ "]"

/-- The entries of a port in the report: its name, or one `name[k]` for each of its bits. -/
def PortGroup.entries (p : PortGroup) : List String :=
  if p.indexed then (List.range p.bits.toNat).map (bitEntry p.name) else [p.name]

/-- A port as a report can list it: its name is not empty and has no white space and no opening
bracket; a plain port has one bit and a vector at least one. -/
structure PortGroup.Listed (p : PortGroup) : Prop where
  name_ne : p.name ≠ ""
  name_word : ∀ c ∈ p.name.toList, isSpace c = false
  name_bracket : '[' ∉ p.name.toList
  bits_pos : 0 < p.bits
  plain_bit : p.indexed = false → p.bits = 1

theorem splitIndexed_plain {name : String} (h : '[' ∉ name.toList) :
    splitIndexed name = .ok (name, -1) := by
  have hnone : breakOn? name "[" = none := breakOn?_of_not_mem h
  simp [splitIndexed, hnone]

theorem splitIndexed_bitEntry {name : String} (hne : name ≠ "") (h : '[' ∉ name.toList) {k : Nat}
    (hk : k < 2 ^ 63) : splitIndexed (bitEntry name k) = .ok (name, k) := by
  have hentry : bitEntry name k = name ++ "[" ++ (toString k ++ "]") := by
    simp [bitEntry, String.append_assoc]
  have hbreak : breakOn? (bitEntry name k) "[" = some (name, toString k ++ "]") := by
    rw [hentry]
    exact breakOn?_append (by simp : "[".toList = ['[']) h _
  have hend : (bitEntry name k).endsWith "]" = true := endsWith_append _ _
  simp [splitIndexed, hbreak, hend, hne, trimEnd_append, readInt?_toString_nat hk]

/-! ## Collapsing entries into ports -/

namespace Collapse

@[simp] theorem flush_current (c : Collapse) : c.flush.current = none := by
  unfold flush
  split <;> simp_all

theorem add_plain (c : Collapse) {name : String} (h : '[' ∉ name.toList) :
    c.add name = pure { done := c.flush.done.push ⟨name, 1, false⟩ } := by
  simp [add, splitIndexed_plain h]

theorem add_first (c : Collapse) {name : String} (hne : name ≠ "") (h : '[' ∉ name.toList) :
    c.add (bitEntry name 0) = pure { done := c.flush.done, current := some ⟨name, 1, true⟩ } := by
  simp [add, splitIndexed_bitEntry hne h (by norm_num : 0 < 2 ^ 63)]

theorem add_next {c : Collapse} {name : String} (hne : name ≠ "") (h : '[' ∉ name.toList) {k : Nat}
    (hk : 0 < k) (hk' : k < 2 ^ 63) (hc : c.current = some ⟨name, k, true⟩) :
    c.add (bitEntry name k) = pure { c with current := some ⟨name, ((k + 1 : Nat) : Int), true⟩ } := by
  have hk0 : ((k : Int) == 0) = false := by simp; omega
  simp [add, splitIndexed_bitEntry hne h hk', hk0, hc]

/-- The bits `j`, ..., `j + m - 1` of the vector being extended, at bit `j`, extend it by `m`. -/
theorem foldlM_add_bits {name : String} (hne : name ≠ "") (h : '[' ∉ name.toList) (m : Nat) :
    ∀ (j : Nat) (c : Collapse), 0 < j → j + m ≤ 2 ^ 63 → c.current = some ⟨name, j, true⟩ →
      ((List.range' j m).map (bitEntry name)).foldlM add c =
        pure { c with current := some ⟨name, ((j + m : Nat) : Int), true⟩ } := by
  induction m with
  | zero =>
    intro j c _ _ hc
    cases c
    simp_all
  | succ m ih =>
    intro j c hj hjm hc
    rw [List.range'_succ, List.map_cons, List.foldlM_cons, add_next hne h hj (by omega) hc, pure_bind,
      ih (j + 1) _ (by omega) (by omega) rfl]
    simp [Nat.add_assoc, Nat.add_comm 1 m]

/-- The entries of a listed port collapse into that port, whatever came before. -/
theorem foldlM_add_entries {p : PortGroup} (hp : p.Listed) (hb : p.bits < 2 ^ 63) (c : Collapse) :
    ∃ c', p.entries.foldlM add c = pure c' ∧ c'.flush.done = c.flush.done.push p := by
  obtain ⟨name, bits, indexed⟩ := p
  cases indexed with
  | false =>
    have hbits : bits = 1 := hp.plain_bit rfl
    subst hbits
    refine ⟨{ done := c.flush.done.push ⟨name, 1, false⟩ },
      by simp [PortGroup.entries, add_plain c hp.name_bracket], ?_⟩
    simp [flush]
  | true =>
    -- bit 0 starts the vector, the other bits extend it
    have hpos : 0 < bits := hp.bits_pos
    change bits < 2 ^ 63 at hb
    have hrange : List.range bits.toNat = List.range' 0 ((bits.toNat - 1) + 1) := by
      rw [List.range_eq_range']
      congr 1
      omega
    refine ⟨{ done := c.flush.done, current := some ⟨name, ((1 + (bits.toNat - 1) : Nat) : Int), true⟩ },
      ?_, ?_⟩
    · rw [PortGroup.entries, if_pos rfl, hrange, List.range'_succ, List.map_cons, List.foldlM_cons,
        add_first c hp.name_ne hp.name_bracket, pure_bind, Nat.zero_add]
      exact foldlM_add_bits hp.name_ne hp.name_bracket _ 1 _ (by omega) (by omega) rfl
    · simp only [flush]
      congr
      omega

end Collapse

theorem PortGroup.Listed.length_entries {p : PortGroup} (hp : p.Listed) :
    (p.entries.length : Int) = p.bits := by
  obtain ⟨name, bits, indexed⟩ := p
  cases indexed with
  | false =>
    simp only [PortGroup.entries]
    exact (hp.plain_bit rfl).symm
  | true =>
    have hpos : 0 < bits := hp.bits_pos
    simp [PortGroup.entries]
    omega

theorem sum_bits {gs : List PortGroup} (hgs : ∀ p ∈ gs, p.Listed) :
    (gs.map PortGroup.bits).sum = ((gs.flatMap PortGroup.entries).length : Int) := by
  induction gs with
  | nil => simp
  | cons p gs ih =>
    rw [List.map_cons, List.sum_cons, ih fun q hq => hgs q (List.mem_cons_of_mem p hq),
      ← (hgs p List.mem_cons_self).length_entries]
    simp

/-- The entries of listed ports, one after the other, collapse into those ports. -/
theorem foldlM_add_groups {gs : List PortGroup} (hgs : ∀ p ∈ gs, p.Listed)
    (hlen : (gs.flatMap PortGroup.entries).length < 2 ^ 63) (c : Collapse) :
    ∃ c', (gs.flatMap PortGroup.entries).foldlM Collapse.add c = pure c' ∧
      c'.flush.done.toList = c.flush.done.toList ++ gs := by
  induction gs generalizing c with
  | nil => exact ⟨c, rfl, by simp⟩
  | cons p gs ih =>
    have hp := hgs p List.mem_cons_self
    rw [List.flatMap_cons, List.length_append] at hlen
    have hb : p.bits < 2 ^ 63 := by
      rw [← hp.length_entries]
      omega
    obtain ⟨c₁, h₁, hd₁⟩ := Collapse.foldlM_add_entries hp hb c
    obtain ⟨c₂, h₂, hd₂⟩ := ih (fun q hq => hgs q (List.mem_cons_of_mem p hq)) (by omega) c₁
    refine ⟨c₂, ?_, ?_⟩
    · rw [List.flatMap_cons, List.foldlM_append, h₁, pure_bind, h₂]
    · rw [hd₂, hd₁]
      simp

/-! ## Port lines -/

/-- The entries of a port line, each after its position. -/
def numbered (es : List String) : List String := es.zipIdx.map fun e => toString e.2 ++ "=" ++ e.1

/-- The text of a port line after its prefix: the number of entries, then the numbered entries. -/
def portList (es : List String) : String :=
  "(" ++ toString es.length ++ "): " ++ " ".intercalate (numbered es)

theorem collapseEntry_numbered (c : Collapse) {i : Nat} (hi : i < 2 ^ 63) (e : String) :
    collapseEntry c (toString i ++ "=" ++ e) i = c.add e := by
  have hbreak : breakOn? (toString i ++ "=" ++ e) "=" = some (toString i, e) :=
    breakOn?_append (by simp : "=".toList = ['='])
      (fun h => by simpa using isDigit_of_mem_toString h) e
  unfold collapseEntry
  rw [hbreak]
  simp [readInt?_toString_nat hi]

theorem foldlM_collapseEntry (es : List String) (k : Nat) (hk : k + es.length ≤ 2 ^ 63)
    (c : Collapse) :
    (((es.zipIdx k).map fun e => toString e.2 ++ "=" ++ e.1).zipIdx k).foldlM
      (fun c x => collapseEntry c x.1 x.2) c = es.foldlM Collapse.add c := by
  induction es generalizing k c with
  | nil => rfl
  | cons e es ih =>
    simp only [List.length_cons] at hk
    simp only [List.zipIdx_cons, List.map_cons, List.foldlM_cons, collapseEntry_numbered c
      (show k < 2 ^ 63 by omega)]
    congr 1
    funext c'
    exact ih (k + 1) (by omega) c'

theorem PortGroup.Listed.word_of_mem_entries {p : PortGroup} (hp : p.Listed) {e : String}
    (he : e ∈ p.entries) : IsWord e := by
  unfold PortGroup.entries at he
  split at he
  · obtain ⟨k, -, rfl⟩ := List.mem_map.mp he
    refine ⟨by simp [bitEntry, hp.name_ne], fun c hc => ?_⟩
    simp only [bitEntry, String.toList_append, List.mem_append] at hc
    rcases hc with ((hc | hc) | hc) | hc
    · exact hp.name_word c hc
    · simp at hc
      subst hc
      decide
    · exact Decimal.isSpace_of_isDigit (isDigit_of_mem_toString hc)
    · simp at hc
      subst hc
      decide
  · rw [List.mem_singleton.mp he]
    exact ⟨hp.name_ne, hp.name_word⟩

theorem word_numbered {es : List String} (hes : ∀ e ∈ es, IsWord e) :
    ∀ w ∈ numbered es, IsWord w := by
  intro w hw
  obtain ⟨⟨e, i⟩, hmem, rfl⟩ := List.mem_map.mp hw
  have he := hes e (List.fst_mem_of_mem_zipIdx hmem)
  refine ⟨by simp, fun c hc => ?_⟩
  simp only [String.toList_append, List.mem_append] at hc
  rcases hc with (hc | hc) | hc
  · exact Decimal.isSpace_of_isDigit (isDigit_of_mem_toString hc)
  · simp at hc
    subst hc
    decide
  · exact he.2 c hc

theorem parsePortLine_portList {gs : List PortGroup} (hgs : ∀ p ∈ gs, p.Listed)
    (hlen : (gs.flatMap PortGroup.entries).length < 2 ^ 63) :
    parsePortLine (portList (gs.flatMap PortGroup.entries)) = pure (.ok gs) := by
  generalize hes : gs.flatMap PortGroup.entries = es at hlen
  have hwords : ∀ w ∈ numbered es, IsWord w := word_numbered fun e he => by
    rw [← hes] at he
    obtain ⟨p, hp, hep⟩ := List.mem_flatMap.mp he
    exact (hgs p hp).word_of_mem_entries hep
  have hbreak : breakOn? (portList es) "):" =
      some ("(" ++ toString es.length, " " ++ " ".intercalate (numbered es)) := by
    have hclose : ')' ∉ ("(" ++ toString es.length).toList := by
      simp only [String.toList_append, List.mem_append, not_or]
      exact ⟨by simp, fun h => by simpa using isDigit_of_mem_toString h⟩
    have htext : portList es =
        "(" ++ toString es.length ++ "):" ++ (" " ++ " ".intercalate (numbered es)) := by
      rw [← String.toList_inj]
      simp [portList]
    rw [htext]
    exact breakOn?_append (by simp : "):".toList = [')', ':']) hclose _
  have hstart : (portList es).startsWith "(" = true := by
    simp [portList]
  have hcount : Decimal.readInt? (trimStart ("(" ++ es.length.repr) "(") = some (es.length : Int) := by
    rw [trimStart_append]
    exact readInt?_toString_nat hlen
  have hfields : fields (" " ++ " ".intercalate (numbered es)) = numbered es := by
    rw [fields_space_append, fields_intercalate hwords]
  obtain ⟨c, hfold, hdone⟩ := foldlM_add_groups hgs (hes ▸ hlen) {}
  rw [hes] at hfold
  have hfold' : (numbered es).zipIdx.foldlM (fun c x => collapseEntry c x.1 x.2) {} = pure c :=
    (foldlM_collapseEntry es 0 (by omega) {}).trans hfold
  have hdone' : c.flush.done.toList = gs := by simpa [Collapse.flush] using hdone
  have hlength : (numbered es).length = es.length := by simp [numbered]
  have htake : (numbered es).take es.length = numbered es := List.take_of_length_le hlength.le
  unfold parsePortLine
  rw [hbreak]
  simp [hstart, hcount, hfields, hlength, htake, hfold', hdone']

/-- The only white space of a port line is the single spaces around its entries. -/
theorem space_of_mem_portList {es : List String} (hws : ∀ w ∈ numbered es, IsWord w) {c : Char}
    (hc : c ∈ (portList es).toList) (hs : isSpace c = true) : c = ' ' := by
  simp only [portList, String.toList_append, List.mem_append] at hc
  rcases hc with (((hc | hc) | hc)) | hc
  · simp at hc
    subst hc
    exact absurd hs (by decide)
  · rw [Decimal.isSpace_of_isDigit (isDigit_of_mem_toString hc)] at hs
    exact absurd hs (by decide)
  · simp at hc
    rcases hc with rfl | rfl | rfl
    · exact absurd hs (by decide)
    · exact absurd hs (by decide)
    · rfl
  · exact space_of_mem_intercalate hws hc hs

/-! ## Session logs -/

/-- A line of a session log that is no line of the port report. -/
def OtherLine (l : String) : Prop :=
  '\n' ∉ l.toList ∧ l.startsWith "Primary inputs " = false ∧ l.startsWith "Primary outputs " = false

theorem scanReport_other {l : String} (hin : l.startsWith "Primary inputs " = false)
    (hout : l.startsWith "Primary outputs " = false) (rest : List String) (tooLong : Bool)
    (inputs : Option (List PortGroup)) :
    scanReport (l :: rest) tooLong inputs = scanReport rest tooLong inputs := by
  rw [scanReport]
  simp [hin, hout]

theorem scanReport_others {ls : List String}
    (h : ∀ l ∈ ls, l.startsWith "Primary inputs " = false ∧ l.startsWith "Primary outputs " = false)
    (rest : List String) (tooLong : Bool) (inputs : Option (List PortGroup)) :
    scanReport (ls ++ rest) tooLong inputs = scanReport rest tooLong inputs := by
  induction ls with
  | nil => rfl
  | cons l ls ih =>
    obtain ⟨hin, hout⟩ := h l List.mem_cons_self
    rw [List.cons_append, scanReport_other hin hout, ih fun l' hl' => h l' (List.mem_cons_of_mem l hl')]

theorem scanReport_inputs {ins : List PortGroup} (hins : ∀ p ∈ ins, p.Listed)
    (hlen : (ins.flatMap PortGroup.entries).length < 2 ^ 63) (rest : List String) (tooLong : Bool)
    (inputs : Option (List PortGroup)) :
    scanReport (("Primary inputs " ++ portList (ins.flatMap PortGroup.entries)) :: rest) tooLong inputs =
      scanReport rest tooLong (some ins) := by
  rw [scanReport]
  simp [trimStart_append, parsePortLine_portList hins hlen]

theorem scanReport_outputs {outs : List PortGroup} (houts : ∀ p ∈ outs, p.Listed)
    (hlen : (outs.flatMap PortGroup.entries).length < 2 ^ 63) (rest : List String) (tooLong : Bool)
    (ins : List PortGroup) :
    scanReport (("Primary outputs " ++ portList (outs.flatMap PortGroup.entries)) :: rest) tooLong
      (some ins) = pure (.ok (ins, outs)) := by
  rw [scanReport]
  simp [trimStart_append, parsePortLine_portList houts hlen]

/-- The lines of a session log up to the end of its port report: the lines `pre`, the inputs
line, the lines `mid` and the outputs line. -/
def reportLines (pre mid : List String) (ins outs : List PortGroup) : List String :=
  pre ++ ["Primary inputs " ++ portList (ins.flatMap PortGroup.entries)] ++ mid ++
    ["Primary outputs " ++ portList (outs.flatMap PortGroup.entries)]

/-- A session log that reports the ports `ins` and `outs`: its report lines, each ended by a line
feed, then any text. -/
def reportLog (pre mid : List String) (ins outs : List PortGroup) (rest : String) : String :=
  String.join ((reportLines pre mid ins outs).map (· ++ "\n")) ++ rest

/-- A report line of listed ports holds no line end, and no more entries than bytes. -/
theorem reportLine_facts {pre : String} (hpre : ∀ c ∈ pre.toList, isSpace c = true → c = ' ')
    {gs : List PortGroup} (hgs : ∀ p ∈ gs, p.Listed) :
    '\n' ∉ (pre ++ portList (gs.flatMap PortGroup.entries)).toList ∧
      '\r' ∉ (pre ++ portList (gs.flatMap PortGroup.entries)).toList ∧
      (gs.flatMap PortGroup.entries).length ≤ (pre ++ portList (gs.flatMap PortGroup.entries)).length := by
  have hwords : ∀ w ∈ numbered (gs.flatMap PortGroup.entries), IsWord w :=
    word_numbered fun e he => by
      obtain ⟨p, hp, hep⟩ := List.mem_flatMap.mp he
      exact (hgs p hp).word_of_mem_entries hep
  have hspace : ∀ c ∈ (pre ++ portList (gs.flatMap PortGroup.entries)).toList, isSpace c = true →
      c = ' ' := by
    intro c hc hs
    rw [String.toList_append, List.mem_append] at hc
    rcases hc with hc | hc
    · exact hpre c hc hs
    · exact space_of_mem_portList hwords hc hs
  refine ⟨fun h => absurd (hspace _ h (by decide)) (by decide),
    fun h => absurd (hspace _ h (by decide)) (by decide), ?_⟩
  have hlen := length_le_length_intercalate fun w hw => (hwords w hw).1
  have hnum : (numbered (gs.flatMap PortGroup.entries)).length = (gs.flatMap PortGroup.entries).length := by
    simp [numbered]
  simp only [portList, String.length_append] at hlen ⊢
  omega

theorem space_of_mem_of_all {s : String} (h : s.toList.all (fun c => !isSpace c || c == ' ') = true) :
    ∀ c ∈ s.toList, isSpace c = true → c = ' ' := by
  intro c hc hs
  simpa [hs] using List.all_eq_true.mp h c hc

theorem space_of_mem_inputs : ∀ c ∈ "Primary inputs ".toList, isSpace c = true → c = ' ' :=
  space_of_mem_of_all (by simp only [String.reduceToList]; decide)

theorem space_of_mem_outputs : ∀ c ∈ "Primary outputs ".toList, isSpace c = true → c = ' ' :=
  space_of_mem_of_all (by simp only [String.reduceToList]; decide)

/-- The port report of a session log reads back as the ports it lists, with no warning, when no
line up to it reaches the raised line limit. -/
theorem parsePortReport_reportLog {pre mid : List String} {ins outs : List PortGroup}
    (hins : ∀ p ∈ ins, p.Listed) (houts : ∀ p ∈ outs, p.Listed)
    (hother : ∀ l ∈ pre ++ mid, OtherLine l)
    (hshort : ∀ l ∈ reportLines pre mid ins outs, l.utf8ByteSize < longLineLimit)
    (rest : String) (journal : Journal) :
    (parsePortReport (reportLog pre mid ins outs rest)).run journal = (.ok (ins, outs), journal) := by
  obtain ⟨hnlIn, hcrIn, hlenIn⟩ := reportLine_facts space_of_mem_inputs hins
  obtain ⟨hnlOut, hcrOut, hlenOut⟩ := reportLine_facts space_of_mem_outputs houts
  -- the limit bounds the number of entries far below the width of the integers that count them
  have hboundIn : (ins.flatMap PortGroup.entries).length < 2 ^ 63 := by
    have h := hshort ("Primary inputs " ++ portList (ins.flatMap PortGroup.entries))
      (by simp [reportLines])
    have := length_le_utf8ByteSize ("Primary inputs " ++ portList (ins.flatMap PortGroup.entries))
    simp only [longLineLimit] at h
    omega
  have hboundOut : (outs.flatMap PortGroup.entries).length < 2 ^ 63 := by
    have h := hshort ("Primary outputs " ++ portList (outs.flatMap PortGroup.entries))
      (by simp [reportLines])
    have := length_le_utf8ByteSize ("Primary outputs " ++ portList (outs.flatMap PortGroup.entries))
    simp only [longLineLimit] at h
    omega
  have hlines : ∀ l ∈ reportLines pre mid ins outs, '\n' ∉ l.toList ∧ l.utf8ByteSize < longLineLimit := by
    intro l hl
    refine ⟨?_, hshort l hl⟩
    simp only [reportLines, List.mem_append, List.mem_singleton] at hl
    rcases hl with ((hl | rfl) | hl) | rfl
    · exact (hother l (List.mem_append_left mid hl)).1
    · exact hnlIn
    · exact (hother l (List.mem_append_right pre hl)).1
    · exact hnlOut
  have hskip : ∀ ls ⊆ pre ++ mid, ∀ l ∈ ls.map dropReturn,
      l.startsWith "Primary inputs " = false ∧ l.startsWith "Primary outputs " = false := by
    intro ls hls l hl
    obtain ⟨l', hl', rfl⟩ := List.mem_map.mp hl
    obtain ⟨-, hin, hout⟩ := hother l' (hls hl')
    exact ⟨startsWith_dropReturn hin, startsWith_dropReturn hout⟩
  obtain ⟨more, tooLong, hscan⟩ := scanBounded_lines hlines rest
  unfold parsePortReport reportLog
  rw [hscan]
  simp only [reportLines, List.map_append, List.map_cons, List.map_nil, dropReturn_of_not_mem hcrIn,
    dropReturn_of_not_mem hcrOut, List.append_assoc, List.cons_append, List.nil_append]
  rw [scanReport_others (hskip pre (List.subset_append_left pre mid)), scanReport_inputs hins hboundIn,
    scanReport_others (hskip mid (List.subset_append_right pre mid)), scanReport_outputs houts hboundOut]
  rfl

/-! ## The wrapper -/

/-- The entries of a port that the wrapper connects: its entries, but a vector of one bit by its
name. -/
def PortGroup.connections (p : PortGroup) : List String :=
  if p.bits = 1 then [p.name] else p.entries

theorem PortGroup.Listed.wires_eq {p : PortGroup} (hp : p.Listed) : p.wires = p.connections := by
  have hpos := hp.bits_pos
  unfold PortGroup.wires PortGroup.connections
  by_cases h1 : p.bits = 1
  · simp [h1]
  · -- more than one bit: the port is a vector, connected bit by bit
    have hind : p.indexed = true := by
      cases hi : p.indexed
      · exact absurd (hp.plain_bit hi) h1
      · rfl
    rw [if_neg (by omega), if_neg h1, PortGroup.entries, if_pos hind]
    rfl

/-- The wrapper connects the entries of the inputs, then those of the outputs, in order. -/
theorem wrapper_eq {ins outs : List PortGroup} (hins : ∀ p ∈ ins, p.Listed)
    (houts : ∀ p ∈ outs, p.Listed) (name : String) :
    wrapper name ins outs =
      "module " ++ name ++ " (" ++ ", ".intercalate ((ins ++ outs).map PortGroup.name) ++ ");\n" ++
        String.join (ins.map (portDecl "input")) ++ String.join (outs.map (portDecl "output")) ++
        " " ++ name ++ "tmp _passthru_ (" ++
        ", ".intercalate (ins.flatMap PortGroup.connections ++ outs.flatMap PortGroup.connections) ++
        ");\n" ++ "\nendmodule\n\n" := by
  have hwires : ∀ gs : List PortGroup, (∀ p ∈ gs, p.Listed) →
      gs.flatMap PortGroup.wires = gs.flatMap PortGroup.connections := fun gs hgs =>
    List.flatMap_congr fun p hp => (hgs p hp).wires_eq
  unfold wrapper
  simp only [List.flatMap_append, hwires ins hins, hwires outs houts]

theorem portDecl_vector (kind : String) {p : PortGroup} (h : 2 ≤ p.bits) :
    portDecl kind p = "  " ++ kind ++ " [" ++ toString (p.bits - 1) ++ ":0] " ++ p.name ++ ";\n" := by
  rw [portDecl, if_pos (by omega)]
  rfl

/-! ## Round trip -/

/-- A session log whose port report lists listed ports, with no line up to it as long as the raised
line limit, reads back as those ports with no warning: their bits add up to the entries listed.
The wrapper built from them connects the entries of the inputs and then those of the outputs, in
order, a vector of one bit by its name, and declares each port of more bits as a range. -/
theorem port_report_collapse_and_expand {pre mid : List String} {ins outs : List PortGroup}
    (hins : ∀ p ∈ ins, p.Listed) (houts : ∀ p ∈ outs, p.Listed)
    (hother : ∀ l ∈ pre ++ mid, OtherLine l)
    (hshort : ∀ l ∈ reportLines pre mid ins outs, l.utf8ByteSize < longLineLimit)
    (rest : String) (journal : Journal) (name : String) :
    (parsePortReport (reportLog pre mid ins outs rest)).run journal = (.ok (ins, outs), journal) ∧
      (ins.map PortGroup.bits).sum = ((ins.flatMap PortGroup.entries).length : Int) ∧
      (outs.map PortGroup.bits).sum = ((outs.flatMap PortGroup.entries).length : Int) ∧
      wrapper name ins outs =
        "module " ++ name ++ " (" ++ ", ".intercalate ((ins ++ outs).map PortGroup.name) ++ ");\n" ++
          String.join (ins.map (portDecl "input")) ++ String.join (outs.map (portDecl "output")) ++
          " " ++ name ++ "tmp _passthru_ (" ++
          ", ".intercalate (ins.flatMap PortGroup.connections ++ outs.flatMap PortGroup.connections) ++
          ");\n" ++ "\nendmodule\n\n" ∧
      ∀ p ∈ ins ++ outs, 2 ≤ p.bits → ∀ kind,
        portDecl kind p = "  " ++ kind ++ " [" ++ toString (p.bits - 1) ++ ":0] " ++ p.name ++ ";\n" :=
  ⟨parsePortReport_reportLog hins houts hother hshort rest journal, sum_bits hins, sum_bits houts,
    wrapper_eq hins houts name, fun _ _ h kind => portDecl_vector kind h⟩

theorem vector_and_plain_ports_read_back :
    (parsePortReport (reportLog ["abc 1.0"] ["Primary nodes (3)"]
        [⟨"a", 2, true⟩, ⟨"b", 1, false⟩, ⟨"c", 1, true⟩] [⟨"y", 3, true⟩] "")).run default =
      (.ok ([⟨"a", 2, true⟩, ⟨"b", 1, false⟩, ⟨"c", 1, true⟩], [⟨"y", 3, true⟩]), default) :=
  (port_report_collapse_and_expand
    (by
      intro p hp
      simp only [List.mem_cons, List.not_mem_nil, or_false] at hp
      rcases hp with rfl | rfl | rfl <;> exact ⟨by simp, by simp [isSpace], by simp, by decide, by decide⟩)
    (by
      intro p hp
      simp only [List.mem_cons, List.not_mem_nil, or_false] at hp
      subst hp
      exact ⟨by simp, by simp [isSpace], by simp, by decide, by decide⟩)
    (by simp [OtherLine]) (by decide +kernel) "" default "blk").1

/-! ## Long lines -/

/-- A line of `longLineLimit` bytes or more before the port report stops the reader: the report
is never reached. -/
theorem parsePortReport_refuses_long_line {l : String} (hnl : '\n' ∉ l.toList)
    (hlong : longLineLimit ≤ l.length) (pre mid : List String) (ins outs : List PortGroup)
    (rest : String) (journal : Journal) :
    (parsePortReport (reportLog (l :: pre) mid ins outs rest)).run journal =
      (.error (.plain "bufio.Scanner: token too long"), journal) := by
  have hbytes := hlong.trans (length_le_utf8ByteSize l)
  have hlog : reportLog (l :: pre) mid ins outs rest =
      l ++ "\n" ++ (String.join ((reportLines pre mid ins outs).map (· ++ "\n")) ++ rest) := by
    simp [reportLog, reportLines, String.append_assoc]
  have hscan : scanBounded longLineLimit (reportLog (l :: pre) mid ins outs rest) = ([], true) := by
    rw [hlog]
    simp [scanBounded, rawLines_line_append hnl, Nat.not_lt.mpr hbytes]
  unfold parsePortReport
  rw [hscan]
  rfl

theorem long_line_before_port_report_refused :
    (parsePortReport (reportLog [String.ofList (List.replicate 16777216 'x')] []
        [⟨"a", 1, false⟩] [⟨"y", 1, false⟩] "")).run default =
      (.error (.plain "bufio.Scanner: token too long"), default) :=
  parsePortReport_refuses_long_line
    (by rw [String.toList_ofList]; exact fun h => absurd (List.eq_of_mem_replicate h) (by decide))
    (by simp only [String.length_ofList, List.length_replicate, longLineLimit, le_refl]) [] [] _ _ _ _

end BitSynth.Abc
