import Mathlib
import BitSynth.Proofs.Quoting
import BitSynth.Proofs.Lines
import BitSynth.Config.Text

namespace BitSynth.Config

open Text

/-! ## Fields -/

/-- A name of a scope or key in a configuration file: not empty, and without blanks, line feeds,
comment marks or quotes. -/
def IsName (n : String) : Prop :=
  n ≠ "" ∧ ∀ c ∈ n.toList, c ≠ ' ' ∧ c ≠ '\t' ∧ c ≠ '\r' ∧ c ≠ '\n' ∧ c ≠ '#' ∧ c ≠ '"'

instance : DecidablePred IsName := fun n => inferInstanceAs (Decidable (n ≠ "" ∧ _))

/-- A character that a field takes as it is outside quotes: no blank, comment mark or quote. -/
def Ordinary (c : Char) : Prop := c ≠ ' ' ∧ c ≠ '\t' ∧ c ≠ '\r' ∧ c ≠ '#' ∧ c ≠ '"'

theorem IsName.ordinary {n : String} (h : IsName n) : ∀ c ∈ n.toList, Ordinary c := by
  intro c hc
  obtain ⟨h1, h2, h3, -, h5, h6⟩ := h.2 c hc
  exact ⟨h1, h2, h3, h5, h6⟩

theorem IsName.toList_ne_nil {n : String} (h : IsName n) : n.toList ≠ [] := by
  simpa [String.toList_eq_nil_iff] using h.1

/- The steps of the field splitter. Its state is the rest of the line, whether a quote is open,
whether a field has begun, the current field reversed and the fields so far. -/

theorem go_ordinary_cons {c : Char} (hc : Ordinary c) (rest : List Char) (inField : Bool)
    (cur : List Char) (out : List String) :
    splitFields.go (c :: rest) false inField cur out = splitFields.go rest false true (c :: cur) out := by
  obtain ⟨h1, h2, h3, h4, h5⟩ := hc
  cases rest <;> rw [splitFields.go.eq_def] <;> simp [h1, h2, h3, h4, h5]

theorem go_blank_cons (rest : List Char) (cur : List Char) (out : List String) :
    splitFields.go (' ' :: rest) false true cur out =
      splitFields.go rest false false [] (out ++ [String.ofList cur.reverse]) := by
  cases rest <;> rw [splitFields.go.eq_def] <;> simp

theorem go_quote_cons (rest : List Char) (inField : Bool) (cur : List Char) (out : List String) :
    splitFields.go ('"' :: rest) false inField cur out =
      splitFields.go rest true true ('"' :: cur) out := by
  cases rest <;> rw [splitFields.go.eq_def] <;> simp

theorem go_quoted_cons {c : Char} (hc : c ≠ '\\') (rest : List Char) (cur : List Char)
    (out : List String) :
    splitFields.go (c :: rest) true true cur out = splitFields.go rest (c != '"') true (c :: cur) out := by
  cases rest <;> rw [splitFields.go.eq_def] <;> simp [hc]

theorem go_escape_cons (x : Char) (rest : List Char) (cur : List Char) (out : List String) :
    splitFields.go ('\\' :: x :: rest) true true cur out =
      splitFields.go rest true true (x :: '\\' :: cur) out := by
  rw [splitFields.go.eq_def]
  simp

theorem go_end (cur : List Char) (out : List String) :
    splitFields.go [] false true cur out = .ok (out ++ [String.ofList cur.reverse]) := by
  rw [splitFields.go.eq_def]
  simp

/-- Ordinary characters outside quotes extend the current field. -/
theorem go_ordinary {cs : List Char} (h : ∀ c ∈ cs, Ordinary c) (hne : cs ≠ []) (rest : List Char)
    (inField : Bool) (cur : List Char) (out : List String) :
    splitFields.go (cs ++ rest) false inField cur out =
      splitFields.go rest false true (cs.reverse ++ cur) out := by
  induction cs generalizing inField cur with
  | nil => exact absurd rfl hne
  | cons c cs ih =>
    rw [List.cons_append, go_ordinary_cons (h c List.mem_cons_self)]
    cases cs with
    | nil => simp
    | cons d ds =>
      rw [ih (fun x hx => h x (List.mem_cons_of_mem c hx)) (List.cons_ne_nil d ds)]
      simp

theorem go_plain {t : List Char} (h : ∀ c ∈ t, Plain c) (rest : List Char) (cur : List Char)
    (out : List String) :
    splitFields.go (t ++ rest) true true cur out = splitFields.go rest true true (t.reverse ++ cur) out := by
  induction t generalizing cur with
  | nil => rfl
  | cons c t ih =>
    obtain ⟨hq, hb, -⟩ := h c List.mem_cons_self
    rw [List.cons_append, go_quoted_cons hb, show (c != '"') = true by simpa using hq,
      ih (fun x hx => h x (List.mem_cons_of_mem c hx))]
    simp

theorem go_escapeChar (c : Char) (rest : List Char) (cur : List Char) (out : List String) :
    splitFields.go ((escapeChar '"' c).toList ++ rest) true true cur out =
      splitFields.go rest true true ((escapeChar '"' c).toList.reverse ++ cur) out := by
  rcases escapeChar_shape c with ⟨he, hp⟩ | ⟨x, t, he, -, ht⟩
  · rw [he]
    exact go_plain (by simpa using hp) rest cur out
  · rw [he, List.cons_append, List.cons_append, go_escape_cons, go_plain ht]
    simp

theorem go_escaped (cs : List Char) (rest : List Char) (cur : List Char) (out : List String) :
    splitFields.go ((cs.flatMap fun c => (escapeChar '"' c).toList) ++ rest) true true cur out =
      splitFields.go rest true true
        ((cs.flatMap fun c => (escapeChar '"' c).toList).reverse ++ cur) out := by
  induction cs generalizing cur with
  | nil => rfl
  | cons c cs ih =>
    rw [List.flatMap_cons, List.append_assoc, go_escapeChar, ih]
    simp

theorem go_quote (s : String) (rest : List Char) (inField : Bool) (cur : List Char)
    (out : List String) :
    splitFields.go ((quote s).toList ++ rest) false inField cur out =
      splitFields.go rest false true ((quote s).toList.reverse ++ cur) out := by
  rw [quote_toList, List.cons_append, go_quote_cons, List.append_assoc, go_escaped,
    List.singleton_append, go_quoted_cons (by decide)]
  simp

theorem splitFields_name {w : String} (hw : IsName w) : splitFields w = .ok [w] := by
  have h := go_ordinary hw.ordinary hw.toList_ne_nil [] false [] []
  rw [List.append_nil] at h
  simp [splitFields, h, go_end]

theorem splitFields_pair {kw p : String} (hkw : IsName kw) (hp : IsName p) :
    splitFields (kw ++ " " ++ p) = .ok [kw, p] := by
  have htext : (kw ++ " " ++ p).toList = kw.toList ++ ' ' :: (p.toList ++ []) := by simp
  rw [splitFields, htext, go_ordinary hkw.ordinary hkw.toList_ne_nil, go_blank_cons,
    go_ordinary hp.ordinary hp.toList_ne_nil, go_end]
  simp

theorem splitFields_string {n : String} (hn : IsName n) (s : String) :
    splitFields ("string " ++ n ++ " " ++ quote s) = .ok ["string", n, quote s] := by
  have hkw : IsName "string" := ⟨by simp, by simp⟩
  have htext : ("string " ++ n ++ " " ++ quote s).toList =
      "string".toList ++ ' ' :: (n.toList ++ ' ' :: ((quote s).toList ++ [])) := by simp
  rw [splitFields, htext, go_ordinary hkw.ordinary hkw.toList_ne_nil, go_blank_cons,
    go_ordinary hn.ordinary hn.toList_ne_nil, go_blank_cons, go_quote, go_end]
  simp

/-! ## Statements -/

section Statements

variable (includeFile : String → Loading Unit) (name : String) (lineNo : Nat)

theorem statement_begin (scopes : List String) (p : String) :
    statement includeFile name lineNo scopes ["begin", p] = pure (p :: scopes) := rfl

theorem statement_end (p : String) (scopes : List String) :
    statement includeFile name lineNo (p :: scopes) ["end"] = pure scopes := rfl

theorem parseValue_quote (s : String) : parseValue .string (quote s) = .ok (.text s) := by
  simp [parseValue, unquote?_quote]

theorem statement_string (scopes : List String) (n s : String) :
    statement includeFile name lineNo scopes ["string", n, quote s] =
      (do modify fun st => st.put (".".intercalate (scopes.reverse ++ [n])) (.text s) true
          pure scopes) := by
  simp [statement, parseValue_quote]

end Statements

/-! ## A file of one setting -/

/-- The lines of a file that sets the string `s` under the key `n` inside the scopes `ps`,
outermost first. -/
def scopedString (ps : List String) (n s : String) : List String :=
  ps.map ("begin " ++ ·) ++ ["string " ++ n ++ " " ++ quote s] ++ List.replicate ps.length "end"

section Folds

variable {step : List String → String × Nat → Loading (List String)}

theorem foldlM_begins (hstep : ∀ scopes p i, IsName p → step scopes ("begin " ++ p, i) = pure (p :: scopes))
    {ps : List String} (hps : ∀ p ∈ ps, IsName p) (k : Nat) (scopes : List String) :
    ((ps.map ("begin " ++ ·)).zipIdx k).foldlM step scopes = pure (ps.reverse ++ scopes) := by
  induction ps generalizing k scopes with
  | nil => rfl
  | cons p ps ih =>
    rw [List.map_cons, List.zipIdx_cons, List.foldlM_cons, hstep scopes p k (hps p List.mem_cons_self),
      pure_bind, ih (fun q hq => hps q (List.mem_cons_of_mem p hq))]
    simp

theorem foldlM_ends (hstep : ∀ p scopes i, step (p :: scopes) ("end", i) = pure scopes)
    (xs scopes : List String) (k : Nat) :
    ((List.replicate xs.length "end").zipIdx k).foldlM step (xs ++ scopes) = pure scopes := by
  induction xs generalizing k with
  | nil => rfl
  | cons x xs ih =>
    rw [List.length_cons, List.replicate_succ, List.zipIdx_cons, List.foldlM_cons, List.cons_append,
      hstep, pure_bind, ih]

end Folds

theorem getLast?_of_isName {pre : String} {p : String} (hp : IsName p) :
    ∃ c, (pre ++ p).toList.getLast? = some c ∧ c ≠ '\r' := by
  obtain ⟨c, hc⟩ := Option.isSome_iff_exists.mp (List.getLast?_isSome.mpr hp.toList_ne_nil)
  exact ⟨c, by simp [List.getLast?_append, hc], (hp.2 c (List.mem_of_getLast? hc)).2.2.1⟩

/-- Every line of a scoped string is a line of its own, ending in a character other than a
carriage return. -/
theorem scopedString_lines {ps : List String} {n s : String} (hps : ∀ p ∈ ps, IsName p)
    (hn : IsName n) :
    ∀ l ∈ scopedString ps n s, '\n' ∉ l.toList ∧ ∃ c, l.toList.getLast? = some c ∧ c ≠ '\r' := by
  intro l hl
  simp only [scopedString, List.mem_append, List.mem_map, List.mem_singleton,
    List.mem_replicate] at hl
  rcases hl with (⟨p, hp, rfl⟩ | rfl) | ⟨-, rfl⟩
  · refine ⟨?_, getLast?_of_isName (hps p hp)⟩
    simp only [String.toList_append, List.mem_append, not_or]
    exact ⟨by simp, fun h => ((hps p hp).2 '\n' h).2.2.2.1 rfl⟩
  · refine ⟨?_, '"', ?_, by decide⟩
    swap
    · rw [String.toList_append, List.getLast?_append, quote_toList, List.getLast?_cons]
      simp
    simp only [String.toList_append, List.mem_append, not_or]
    exact ⟨⟨⟨by simp, fun h => (hn.2 '\n' h).2.2.2.1 rfl⟩, by simp⟩, newline_not_mem_quote s⟩
  · exact ⟨by simp, 'd', by simp, by decide⟩

section Lines

variable (includeFile : String → Loading Unit) (name : String)

theorem lineStatement_begin (scopes : List String) {p : String} (i : Nat) (hp : IsName p) :
    lineStatement includeFile name scopes ("begin " ++ p, i) = pure (p :: scopes) := by
  have hbegin : IsName "begin" := ⟨by simp, by simp⟩
  simp only [lineStatement, show "begin " ++ p = "begin" ++ " " ++ p by simp, splitFields_pair hbegin hp]
  rfl

theorem lineStatement_end (p : String) (scopes : List String) (i : Nat) :
    lineStatement includeFile name (p :: scopes) ("end", i) = pure scopes := by
  simp only [lineStatement, splitFields_name (⟨by simp, by simp⟩ : IsName "end")]
  rfl

theorem lineStatement_string (scopes : List String) {n : String} (s : String) (i : Nat)
    (hn : IsName n) :
    lineStatement includeFile name scopes ("string " ++ n ++ " " ++ quote s, i) =
      (do modify fun st => st.put (".".intercalate (scopes.reverse ++ [n])) (.text s) true
          pure scopes) := by
  simp only [lineStatement, splitFields_string hn, statement_string]

end Lines

/-- A file that sets one quoted string inside scopes, read line by line, stores that string under
the dotted key and nothing else. -/
theorem parseWith_scopedString (includeFile : String → Loading Unit) (name : String)
    {ps : List String} {n s : String} (hps : ∀ p ∈ ps, IsName p) (hn : IsName n)
    (hshort : ∀ l ∈ scopedString ps n s, l.utf8ByteSize < lineLimit) :
    parseWith includeFile ("\n".intercalate (scopedString ps n s)) name =
      modify fun st => st.put (".".intercalate (ps ++ [n])) (.text s) true := by
  have hlines := scopedString_lines (s := s) hps hn
  have hne : scopedString ps n s ≠ [] := by simp [scopedString]
  have hscan : scanBounded lineLimit ("\n".intercalate (scopedString ps n s)) =
      (scopedString ps n s, false) := by
    refine scanBounded_intercalate hne (fun l hl => (hlines l hl).1) ?_
      (fun l hl => by obtain ⟨c, hc, hcr⟩ := (hlines l hl).2; simpa [hc] using hcr) hshort
    obtain ⟨c, hc, -⟩ := (hlines _ (List.getLast_mem hne)).2
    rintro h
    simp [h] at hc
  have hends := foldlM_ends (lineStatement_end includeFile name) ps.reverse []
  rw [List.length_reverse, List.append_nil] at hends
  rw [parseWith, hscan]
  simp only [scopedString, List.zipIdx_append, List.foldlM_append,
    foldlM_begins (fun scopes p i hp => lineStatement_begin includeFile name scopes i hp) hps,
    List.append_nil, pure_bind, List.zipIdx_cons, List.zipIdx_nil, List.foldlM_cons, List.foldlM_nil,
    lineStatement_string includeFile name _ s _ hn, bind_assoc, hends, List.reverse_reverse]
  simp

/-! ## The store -/

theorem readInt?_of_head_quote {t : String} {r : List Char} (h : t.toList = '"' :: r) :
    Decimal.readInt? t = Option.none := by
  have hne : t.isEmpty = false := by
    rw [String.isEmpty_eq_false_iff]
    rintro rfl
    simp at h
  simp [Decimal.readInt?, Decimal.readInt, Decimal.readSigned, Decimal.readUnsigned, h, hne,
    Decimal.accumulate, Decimal.digitValue?, Decimal.lowerAscii]
  rfl

theorem readFloat?_of_head_quote {t : String} {r : List Char} (h : t.toList = '"' :: r) :
    Decimal.readFloat? t = Option.none := by
  simp [Decimal.readFloat?, Decimal.readFloat, Decimal.special?, Decimal.Numeral.parse?, h,
    Decimal.commonPrefixLength, Decimal.scanMantissa, Decimal.digitValue?, Decimal.lowerAscii]

theorem Loading.run_modify (f : Store → Store) (st : Store) :
    ((modify f : Loading Unit).run).run st = (.ok (), f st) := rfl

namespace Store

theorem find?_put (st : Store) (key : String) (v : Value) : (st.put key v true).find? key = some v := by
  unfold put find?
  split
  · -- the entry under the key is replaced in place
    rename_i hany
    obtain ⟨e, he⟩ := Option.isSome_iff_exists.mp (List.find?_isSome.mpr (List.any_eq_true.mp hany))
    have hk := List.find?_some he
    have hsame : ((fun x : String × Value => x.1 == key) ∘
        fun e => if (e.1 == key) = true then (key, v) else e) = fun x => x.1 == key := by
      funext x
      by_cases h : x.1 = key <;> simp [h]
    simp only [if_true, List.find?_map, hsame, he, Option.map_some, hk]
  · -- a new key goes at the end
    rename_i hany
    have hnone : st.entries.find? (·.1 == key) = Option.none :=
      List.find?_eq_none.mpr fun x hx hp => hany (List.any_eq_true.mpr ⟨x, hx, hp⟩)
    simp [List.find?_append, hnone]

theorem string_put_text (st : Store) (key t : String) :
    (st.put key (.text t) true).string key = .ok t := by
  simp [string, get, find?_put, Value.type]
  rfl

theorem format_put_text (st : Store) (key t : String) :
    (st.put key (.text t) true).format key = "string " ++ quote t := by
  simp [format, find?_put]

theorem set_quote (st : Store) (key s : String)
    (h : ∀ v, st.find? key = some v → v.type = .string) :
    st.set key (quote s) = .ok (st.put key (.text s) true) := by
  unfold set
  cases hf : st.find? key with
  | none =>
    simp [readInt?_of_head_quote (quote_toList s), readFloat?_of_head_quote (quote_toList s),
      parseValue_quote]
  | some v => simp [h v hf, parseValue_quote]

end Store

/-! ## Round trip -/

/-- A quoted string set in a file inside scopes named `ps` under the key `n` reads back under the
dotted key, whatever the store held before, as long as every line is shorter than `lineLimit`. The
same quoted text set on a string key or a new key is stored as it reads, however long. Either way
the store formats the key as `string` followed by the quoted text. -/
theorem quoted_string_round_trip (read : String → Except IoError String) (name : String)
    {ps : List String} {n : String} (hps : ∀ p ∈ ps, IsName p) (hn : IsName n) (s : String) :
    ((∀ l ∈ scopedString ps n s, l.utf8ByteSize < lineLimit) →
      ∀ st : Store, ∃ st', ((parse read ("\n".intercalate (scopedString ps n s)) name).run).run st =
        (.ok (), st') ∧ st'.string (".".intercalate (ps ++ [n])) = .ok s ∧
        st'.format (".".intercalate (ps ++ [n])) = "string " ++ quote s) ∧
    (∀ (st : Store) (key : String), (∀ v, st.find? key = some v → v.type = .string) →
      ∃ st', st.set key (quote s) = .ok st' ∧ st'.string key = .ok s ∧
        st'.format key = "string " ++ quote s) := by
  refine ⟨fun hshort st => ?_, fun st key h => ?_⟩
  · refine ⟨_, ?_, Store.string_put_text st _ s, Store.format_put_text st _ s⟩
    rw [parse, parseWith_scopedString _ name hps hn hshort, Loading.run_modify]
  · exact ⟨_, Store.set_quote st key s h, Store.string_put_text st key s,
      Store.format_put_text st key s⟩

theorem scoped_quoted_string_read_back :
    ∃ st', ((parse (Disk.empty "/").read ("\n".intercalate
        (scopedString ["synth", "abc"] "script" "say \"hi\"")) "cfg").run).run {} = (.ok (), st') ∧
      st'.string "synth.abc.script" = .ok "say \"hi\"" ∧
      st'.format "synth.abc.script" = "string " ++ quote "say \"hi\"" :=
  (quoted_string_round_trip (Disk.empty "/").read "cfg"
    (by simp [IsName] : ∀ p ∈ ["synth", "abc"], IsName p) (⟨by simp, by simp⟩ : IsName "script")
    "say \"hi\"").1 (by decide +kernel) {}

/-! ## Long lines -/

theorem Loading.run_bind_throw {α β : Type} (m : Loading α) (e : Error) (st : Store) :
    ∃ e' st', (((m >>= fun _ => (throw e : Loading β)) : Loading β).run).run st = (.error e', st') := by
  simp only [ExceptT.run_bind, StateT.run_bind]
  cases hm : (m.run).run st with
  | mk r st' =>
    -- either way the run stops with an error: the first one, or the thrown one
    cases r with
    | error e' => exact ⟨e', st', rfl⟩
    | ok a => exact ⟨e, st', rfl⟩

theorem parseWith_refuses_long_line (includeFile : String → Loading Unit) (name : String)
    {text : String} (h : (scanBounded lineLimit text).2 = true) (st : Store) :
    ∃ e st', ((parseWith includeFile text name).run).run st = (.error e, st') := by
  rcases hs : scanBounded lineLimit text with ⟨lines, tooLong⟩
  rw [hs] at h
  subst h
  simp only [parseWith, hs, if_true]
  exact Loading.run_bind_throw _ _ st

/-- A value of `lineLimit` characters or more cannot be read back from a file: its line is refused. -/
theorem parse_refuses_long_value (read : String → Except IoError String) (name : String)
    {n : String} (hn : IsName n) {s : String} (hs : lineLimit ≤ s.length) (st : Store) :
    ∃ e st', ((parse read ("\n".intercalate (scopedString [] n s)) name).run).run st =
      (.error e, st') := by
  have hline : "\n".intercalate (scopedString [] n s) = "string " ++ n ++ " " ++ quote s := by
    simp [scopedString]
  have hnl : '\n' ∉ ("string " ++ n ++ " " ++ quote s).toList :=
    (scopedString_lines (s := s) (by simp : ∀ p ∈ ([] : List String), IsName p) hn _
      (by simp [scopedString])).1
  have hquote : s.length + 2 ≤ (quote s).length := by
    have := length_le_escaped s.toList
    rw [← String.length_toList (s := quote s), quote_toList, ← String.length_toList (s := s)]
    simp only [List.length_cons, List.length_append]
    omega
  have hlen : lineLimit ≤ ("string " ++ n ++ " " ++ quote s).length := by
    simp only [String.length_append]
    omega
  rw [parse, hline]
  exact parseWith_refuses_long_line _ _
    (scanBounded_long (by decide) hnl (hlen.trans (length_le_utf8ByteSize _))) st

theorem long_quoted_string_refused :
    ∃ e st', ((parse (Disk.empty "/").read ("\n".intercalate
        (scopedString [] "k" (String.ofList (List.replicate 65536 'a')))) "cfg").run).run {} =
      (.error e, st') :=
  parse_refuses_long_value _ _ ⟨by simp, by simp⟩
    (by simp only [String.length_ofList, List.length_replicate, lineLimit, le_refl]) {}

end BitSynth.Config
