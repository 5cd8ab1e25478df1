import Mathlib
import BitSynth.Proofs.Files
import BitSynth.Proofs.Key
import BitSynth.Cache.Store

namespace BitSynth.Cache

open Stateful

/-- Both netlists of an entry are on disk. -/
def Entry.Stored (e : Entry) (w : World) : Prop :=
  w.disk.present e.result.mappedFile = true ∧ w.disk.present e.result.preMapFile = true

theorem Entry.stored_congr {e : Entry} {w w' : World}
    (h : ∀ q, w'.disk.present q = w.disk.present q) : e.Stored w' ↔ e.Stored w := by
  simp [Entry.Stored, h]

/-- The text of the index lines of entries, each with its line end. -/
def Entry.lines (es : List Entry) : String := String.join (es.map (·.format ++ "\n"))

theorem Entry.lines_append_singleton (es : List Entry) (e : Entry) :
    Entry.lines (es ++ [e]) = Entry.lines es ++ (e.format ++ "\n") := by
  simp [Entry.lines, String.join_append]

/-- The snapshot of an index that reads as the entries `es`. -/
def loaded (c : Cache) (es : List Entry) : Cache :=
  { c with ids := es.map fun e => (e.id, e.slot), slots := es.map fun e => (e.slot, c.resolve e),
           counter := es.length }

@[simp] theorem resolve_id (c : Cache) (e : Entry) : (c.resolve e).id = e.id := rfl

@[simp] theorem resolve_slot (c : Cache) (e : Entry) : (c.resolve e).slot = e.slot := rfl

theorem any_fst_eq_true {α β : Type} [BEq α] [LawfulBEq α] {xs : List (α × β)} {k : α} :
    (xs.any fun x => x.1 == k) = true ↔ k ∈ xs.map (·.1) := by
  simp only [List.any_eq_true, beq_iff_eq, List.mem_map]

/-! ### Reading the index -/

theorem stat_post (p : String) (w : World) :
    Post (Act.tryDisk fun d => (d.stat "stat" p).map fun _ => ((), d)) w fun r w' =>
      w' = w ∧ ∃ v, r = .ok v ∧ (v = .ok () ↔ w.disk.present p = true) := by
  refine (tryDisk_post _ w).conseq ?_
  rintro r w' (⟨a, d, hf, hr, hw⟩ | ⟨e, hf, hr, hw⟩)
  · rcases hs : w.disk.stat "stat" p with e | n <;> rw [hs] at hf <;> cases hf
    exact ⟨hw, _, hr, iff_of_true rfl ((Disk.present_iff_stat "stat").mpr ⟨n, hs⟩)⟩
  · refine ⟨hw, _, hr, iff_of_false (by simp) ?_⟩
    rw [Disk.present_iff_stat "stat"]
    rintro ⟨n, hn⟩
    rw [hn] at hf
    cases hf

theorem checkArtifacts_post (e : Entry) (w : World) :
    Post (checkArtifacts e) w fun r w' => w' = w ∧ (r = .ok () ↔ e.Stored w) := by
  unfold checkArtifacts
  simp only [List.forIn_cons, List.forIn_nil, bind_assoc]
  refine Post.bind (stat_post _ w) ?_ fun _ _ h => by obtain ⟨-, v, hv, -⟩ := h; cases hv
  rintro v w₁ ⟨rfl, v, hv, hmapped⟩
  cases hv
  rcases v with err | ⟨⟩
  · -- the mapped netlist is missing
    simp only [bind_assoc]
    refine Post.throw_bind _ ⟨rfl, iff_of_false (by simp) fun h => ?_⟩
    cases hmapped.mpr h.1
  · simp only [pure_bind, bind_assoc]
    refine Post.bind (stat_post _ w₁) ?_ fun _ _ h => by obtain ⟨-, v, hv, -⟩ := h; cases hv
    rintro v w₂ ⟨rfl, v, hv, hpre⟩
    cases hv
    rcases v with err | ⟨⟩
    · -- the netlist before mapping is missing
      simp only [bind_assoc]
      refine Post.throw_bind _ ⟨rfl, iff_of_false (by simp) fun h => ?_⟩
      cases hpre.mpr h.2
    · simp only [pure_bind]
      exact Post.pure () ⟨rfl, iff_of_true rfl ⟨hmapped.mp rfl, hpre.mp rfl⟩⟩

/-- Taking the entries of an index into a snapshot leaves the world as it is; on success the keys
and slots of the entries are new and apart, each entry's netlists are on disk, and the snapshot
holds them after what it held. -/
theorem snapshot_post (c : Cache) (w : World) :
    ∀ (es : List Entry) (ids : List (String × Int)) (slots : List (Int × Entry)),
    Post (c.snapshot es ids slots) w fun r w' => w' = w ∧ ∀ v, r = .ok v →
      v = (ids ++ es.map fun e => (e.id, e.slot), slots ++ es.map fun e => (e.slot, c.resolve e)) ∧
      (∀ e ∈ es, e.id ∉ ids.map (·.1) ∧ e.slot ∉ slots.map (·.1)) ∧
      (es.map (·.id)).Nodup ∧ (es.map (·.slot)).Nodup ∧ ∀ e ∈ es, (c.resolve e).Stored w
  | [], ids, slots => Post.pure _ ⟨rfl, fun v hv => by cases hv; simp⟩
  | e :: rest, ids, slots => by
    rw [snapshot.eq_2]
    split
    · exact Post.throw_bind _ ⟨rfl, fun v hv => by cases hv⟩
    · rename_i hid
      dsimp only
      split
      · exact Post.throw_bind _ ⟨rfl, fun v hv => by cases hv⟩
      · rename_i hslot
        refine Post.bind (checkArtifacts_post _ w) ?_ fun _ _ h => ⟨h.1, fun v hv => by cases hv⟩
        rintro ⟨⟩ w₁ ⟨rfl, hstored⟩
        refine (snapshot_post c _ rest _ _).conseq ?_
        rintro r w' ⟨rfl, hrest⟩
        refine ⟨rfl, fun v hv => ?_⟩
        obtain ⟨rfl, hfresh, hids, hslots, hst⟩ := hrest v hv
        have hid' : e.id ∉ ids.map (·.1) := fun h => hid (any_fst_eq_true.mpr h)
        have hslot' : e.slot ∉ slots.map (·.1) := fun h => hslot (any_fst_eq_true.mpr h)
        refine ⟨by simp, ?_, ?_, ?_, ?_⟩
        · intro e' he'
          rcases List.mem_cons.mp he' with rfl | he'
          · exact ⟨hid', hslot'⟩
          · have := hfresh e' he'
            simp only [resolve_id, resolve_slot, List.map_append, List.mem_append, not_or] at this
            exact ⟨this.1.1, this.2.1⟩
        · refine List.nodup_cons.mpr ⟨fun h => ?_, hids⟩
          obtain ⟨e', he', hid⟩ := List.mem_map.mp h
          have := hfresh e' he'
          simp [hid] at this
        · refine List.nodup_cons.mpr ⟨fun h => ?_, hslots⟩
          obtain ⟨e', he', hs⟩ := List.mem_map.mp h
          have := hfresh e' he'
          simp [hs] at this
        · intro e' he'
          rcases List.mem_cons.mp he' with rfl | he'
          · exact hstored.mp rfl
          · exact hst e' he'

/-- Reading the index again leaves the world as it is. A failure keeps the snapshot; on success
the snapshot is that of the entries the index reads as, with keys and slots apart and every
netlist on disk. -/
theorem reload_post (c : Cache) (w : World) :
    Post reload (c, w) fun r s => s.2 = w ∧ (∀ e, r = .error e → s.1 = c) ∧
      (r = .ok () → ∃ text es, w.disk.read c.index = .ok text ∧ readIndex text = .ok es ∧
        s.1 = c.loaded es ∧ (es.map (·.id)).Nodup ∧ (es.map (·.slot)).Nodup ∧
        ∀ e ∈ es, (c.resolve e).Stored w) := by
  unfold reload
  refine On.Post.self_bind ?_
  refine On.Post.world_bind (readFile_post _ w) ?_ fun e w₁ h => ⟨h.1, fun _ _ => rfl, fun h => by cases h⟩
  rintro text w₁ ⟨rfl, htext⟩
  dsimp only
  split
  · rename_i es hes
    simp only [pure_bind]
    refine On.Post.world_bind (snapshot_post c w₁ es [] []) ?_
      fun e w₂ h => ⟨h.1, fun _ _ => rfl, fun h => by cases h⟩
    rintro v w₂ ⟨rfl, hv⟩
    obtain ⟨rfl, -, hids, hslots, hst⟩ := hv v rfl
    refine On.Post.update _ ⟨rfl, fun e h => ?_, fun _ => ?_⟩
    · cases h
    · exact ⟨text, es, htext text rfl, hes, by simp [loaded], hids, hslots, hst⟩
  · exact Post.throw_bind _ ⟨rfl, fun _ _ => rfl, fun h => by cases h⟩

/-- Opening a file to lock it keeps the streams; on success the file reads as the text it had, or
as nothing when it was missing. -/
theorem lockFile_post (p : String) (w : World) :
    Post (lockFile p) w fun r w' => w'.streams = w.streams ∧
      (r = .ok () → ∃ t, w'.disk.read p = .ok t ∧ (w.disk.read p = .ok t ∨ t = "")) := by
  unfold lockFile
  refine Post.bind (tryDisk_post _ w) ?_ ?_
  · rintro v w₁ (⟨a, d, hf, hv, rfl⟩ | ⟨e, hf, hv, rfl⟩)
    · cases hv
      rcases ht : w.disk.touch p with e | d' <;> rw [ht] at hf <;> cases hf
      exact Post.pure () ⟨rfl, fun _ => Disk.read_touch ht⟩
    · cases hv
      exact Post.throw _ ⟨rfl, fun h => by cases h⟩
  · rintro e w₁ (⟨_, _, _, hv, _⟩ | ⟨_, _, hv, _⟩) <;> cases hv

/-- Appending a line to an index that reads as a text keeps the streams; on success the index
reads as that text followed by the line, and every path is present or missing as it was. -/
theorem appendLine_post (index : String) (e : Entry) {w : World} {t : String}
    (ht : w.disk.read index = .ok t) :
    Post (appendLine index e) w fun r w' => w'.streams = w.streams ∧ (r = .ok () →
      w'.disk.read index = .ok (t ++ (e.format ++ "\n")) ∧ ∀ q, w'.disk.present q = w.disk.present q) := by
  unfold appendLine
  refine Post.bind (tryDisk_post _ w) ?_ ?_
  · rintro v w₁ (⟨a, d, hf, hv, rfl⟩ | ⟨e, hf, hv, rfl⟩)
    · cases hv
      rcases ha : w.disk.append index (e.format ++ "\n") false with err | d' <;> rw [ha] at hf <;> cases hf
      exact Post.pure () ⟨rfl, fun _ => ⟨Disk.read_append ha ht,
        Disk.present_append ha (Disk.present_of_read ht)⟩⟩
    · cases hv
      exact Post.throw _ ⟨rfl, fun h => by cases h⟩
  · rintro e w₁ (⟨_, _, _, hv, _⟩ | ⟨_, _, hv, _⟩) <;> cases hv

/-! ### The close -/

/-- What a close has done after the authored entries `done`, from the world `w₀` it reloaded in,
where the index read as `text`, that is, as the entries `es`: the index reads as that text followed
by the lines of the entries restored, `news`, each among `done`; the snapshot holds the keys and
slots of the entries found and restored, all apart; no path appeared or vanished and the streams
are as they were; and every entry done has a line with its key or its slot, or a netlist
missing. -/
structure Reconciling (c : Cache) (w₀ : World) (text : String) (es news done : List Entry)
    (now : Cache) (w : World) : Prop where
  index : now.index = c.index
  ids : now.ids.map (·.1) = (es ++ news).map (·.id)
  slots : now.slots.map (·.1) = (es ++ news).map (·.slot)
  read : w.disk.read c.index = .ok (text ++ Entry.lines news)
  present : ∀ q, w.disk.present q = w₀.disk.present q
  streams : w.streams = w₀.streams
  restored : ∀ n ∈ news, n ∈ done
  idsApart : ((es ++ news).map (·.id)).Nodup
  slotsApart : ((es ++ news).map (·.slot)).Nodup
  accounted : ∀ e ∈ done, e.id ∈ (es ++ news).map (·.id) ∨ e.slot ∈ (es ++ news).map (·.slot) ∨
    ¬ e.Stored w₀

namespace Reconciling

variable {c now : Cache} {w₀ w w' : World} {text : String} {es news done : List Entry} {e : Entry}

theorem skip (h : Reconciling c w₀ text es news done now w)
    (he : e.id ∈ (es ++ news).map (·.id) ∨ e.slot ∈ (es ++ news).map (·.slot) ∨ ¬ e.Stored w₀) :
    Reconciling c w₀ text es news (done ++ [e]) now w :=
  { h with
    restored := fun n hn => List.mem_append_left _ (h.restored n hn)
    accounted := fun e' he' => by
      rcases List.mem_append.mp he' with he' | he'
      · exact h.accounted e' he'
      · rw [List.mem_singleton.mp he']
        exact he }

theorem log (h : Reconciling c w₀ text es news done now w) (hdisk : w'.disk = w.disk)
    (hstreams : w'.streams = w.streams) : Reconciling c w₀ text es news done now w' :=
  { h with
    read := hdisk ▸ h.read
    present := fun q => hdisk ▸ h.present q
    streams := hstreams.trans h.streams }

/-- An entry whose key and slot are both new, with both netlists on disk, is restored: its line is
appended to the index and its key and slot to the snapshot. -/
theorem restore (h : Reconciling c w₀ text es news done now w)
    (hid : e.id ∉ (es ++ news).map (·.id)) (hslot : e.slot ∉ (es ++ news).map (·.slot))
    (hread : w'.disk.read c.index = .ok (text ++ Entry.lines news ++ (e.format ++ "\n")))
    (hpresent : ∀ q, w'.disk.present q = w.disk.present q) (hstreams : w'.streams = w.streams) :
    Reconciling c w₀ text es (news ++ [e]) (done ++ [e])
      { now with ids := now.ids ++ [(e.id, e.slot)], slots := now.slots ++ [(e.slot, e)] } w' where
  index := h.index
  ids := by simp [h.ids]
  slots := by simp [h.slots]
  read := by rw [Entry.lines_append_singleton, ← String.append_assoc]; exact hread
  present q := (hpresent q).trans (h.present q)
  streams := hstreams.trans h.streams
  restored n hn := by
    rcases List.mem_append.mp hn with hn | hn
    · exact List.mem_append_left _ (h.restored n hn)
    · exact List.mem_append_right _ hn
  idsApart := by
    rw [← List.append_assoc, List.map_append, List.map_cons, List.map_nil, ← List.concat_eq_append]
    exact h.idsApart.concat hid
  slotsApart := by
    rw [← List.append_assoc, List.map_append, List.map_cons, List.map_nil, ← List.concat_eq_append]
    exact h.slotsApart.concat hslot
  accounted e' he' := by
    rcases List.mem_append.mp he' with he' | he'
    · rcases h.accounted e' he' with hk | hs | hm
      · exact .inl (by rw [← List.append_assoc, List.map_append]; exact List.mem_append_left _ hk)
      · exact .inr (.inl (by rw [← List.append_assoc, List.map_append]; exact List.mem_append_left _ hs))
      · exact .inr (.inr hm)
    · rw [List.mem_singleton.mp he']
      exact .inl (by simp)

/-- Before the loop: nothing done, nothing restored, the snapshot that of the index found. -/
theorem start {c' : Cache} (hindex : c'.index = c.index) (hread : w.disk.read c.index = .ok text)
    (hids : (es.map (·.id)).Nodup) (hslots : (es.map (·.slot)).Nodup) :
    Reconciling c w text es [] [] (c'.loaded es) w where
  index := hindex
  ids := by simp [loaded]
  slots := by simp [loaded]
  read := by simpa [Entry.lines] using hread
  present _ := rfl
  streams := rfl
  restored := by simp
  idsApart := by simpa using hids
  slotsApart := by simpa using hslots
  accounted := by simp

end Reconciling

/-- One step of the close's loop keeps what the close has done, with the entry done. -/
theorem restoreEntry_post {c now : Cache} {w₀ w : World} {text : String}
    {es news done : List Entry} (e : Entry) (h : Reconciling c w₀ text es news done now w)
    (hlog : w₀.LogsAside) :
    Post (restoreEntry e) (now, w) fun r s =>
      r = .ok () → ∃ news', Reconciling c w₀ text es news' (done ++ [e]) s.1 s.2 := by
  have hlog' : w.LogsAside := hlog.of_streams h.streams
  unfold restoreEntry
  refine On.Post.self_bind ?_
  split
  · -- a line with its key is in the index
    rename_i hk
    exact Post.pure _ fun _ => ⟨news, h.skip (.inl (h.ids ▸ any_fst_eq_true.mp hk))⟩
  rename_i hk
  split
  · -- a line with its slot is in the index
    rename_i hs
    refine On.Post.world_bind (logLine_post _ _ hlog') ?_ fun _ _ h => by cases h.1
    rintro ⟨⟩ w₁ ⟨-, hdisk, hstr⟩
    exact Post.pure _
      fun _ => ⟨news, (h.log hdisk hstr).skip (.inr (.inl (h.slots ▸ any_fst_eq_true.mp hs)))⟩
  rename_i hs
  refine On.Post.world_attempt_bind (checkArtifacts_post e w) ?_
  rintro r w₁ ⟨rfl, hst⟩
  rcases r with err | ⟨⟩
  · -- a netlist is missing
    dsimp only
    have hmissing : ¬ e.Stored w₀ := fun hs' =>
      absurd (hst.mpr ((Entry.stored_congr h.present).mpr hs')) (by simp)
    refine On.Post.world (logLine_post _ _ hlog') ?_
    rintro r w₂ ⟨-, hdisk, hstr⟩ -
    exact ⟨news, (h.log hdisk hstr).skip (.inr (.inr hmissing))⟩
  · -- the entry is restored
    dsimp only
    refine On.Post.world_bind (appendLine_post now.index e (h.index ▸ h.read)) ?_
      fun _ _ _ h => by cases h
    rintro ⟨⟩ w₂ ⟨hstr, happ⟩
    obtain ⟨hread, hpresent⟩ := happ rfl
    refine On.Post.update_bind _ ?_
    refine On.Post.world (logLine_post _ _ (hlog'.of_streams hstr)) ?_
    rintro r w₃ ⟨-, hdisk, hstr'⟩ -
    have hid : e.id ∉ (es ++ news).map (·.id) := fun hm => hk (any_fst_eq_true.mpr (h.ids ▸ hm))
    have hslot : e.slot ∉ (es ++ news).map (·.slot) :=
      fun hm => hs (any_fst_eq_true.mpr (h.slots ▸ hm))
    exact ⟨news ++ [e], h.restore hid hslot (hdisk ▸ h.index ▸ hread)
      (fun q => hdisk ▸ hpresent q) (hstr'.trans hstr)⟩

/-- What a successful close of a handle leaves in the world: either the handle wrote nothing and
the world is as it was, or the index reads as the text it had (nothing, when it was missing), whose
lines are the entries `es`, followed by the lines of entries `news` the handle wrote; no two of
these lines share a key or a slot; and every entry the handle wrote has a line with its key or its
slot, or a netlist missing. -/
def Reconciled (c : Cache) (w w' : World) : Prop :=
  (c.authored = [] ∧ w' = w) ∨
    ∃ text es news, (w.disk.read c.index = .ok text ∨ text = "") ∧ readIndex text = .ok es ∧
      w'.disk.read c.index = .ok (text ++ Entry.lines news) ∧ (∀ n ∈ news, n ∈ c.authored) ∧
      ((es ++ news).map (·.id)).Nodup ∧ ((es ++ news).map (·.slot)).Nodup ∧
      ∀ e ∈ c.authored, e.id ∈ (es ++ news).map (·.id) ∨ e.slot ∈ (es ++ news).map (·.slot) ∨
        ¬ e.Stored w'

/-- A successful close of an open handle, in a run whose log is not a file, leaves the index
reconciled with the entries the handle wrote. -/
theorem close_reconciles_written_entries (c : Cache) (w : World) (hopen : c.closed = false)
    (hlog : w.LogsAside) : Post close (c, w) fun r s => r = .ok () → Reconciled c w s.2 := by
  unfold close
  refine On.Post.self_bind ?_
  rw [if_neg (by simp [hopen])]
  refine On.Post.update_bind _ ?_
  by_cases hempty : c.authored.isEmpty = true
  · rw [if_pos hempty]
    exact Post.pure () fun _ => Or.inl ⟨List.isEmpty_iff.mp hempty, rfl⟩
  rw [if_neg hempty]
  refine On.Post.world_bind (lockFile_post c.index w) ?_ fun _ _ _ h => by cases h
  rintro ⟨⟩ w₁ ⟨hstreams₁, hlock⟩
  obtain ⟨t, hread₁, ht⟩ := hlock rfl
  refine Post.bind (reload_post _ w₁) ?_ fun _ _ _ h => by cases h
  rintro ⟨⟩ ⟨c₂, w₂⟩ ⟨hw₂, -, hload⟩
  obtain ⟨text, es, hread, hes, hc₂, hids, hslots, -⟩ := hload rfl
  dsimp only at hw₂ hc₂
  subst hw₂ hc₂
  obtain rfl : t = text := Except.ok.inj (hread₁.symm.trans hread)
  have hlog₂ : w₂.LogsAside := hlog.of_streams hstreams₁
  dsimp only
  -- the loop over the authored entries, in key order, keeps what the close has done
  refine Post.bind (Post.forIn _ _ (fun (done : List Entry) (_ : PUnit) (s : Cache × World) =>
      ∃ news, Reconciling c w₂ t es news done s.1 s.2)
    ?_ ⟨[], Reconciling.start rfl hread hids hslots⟩) ?_ fun _ _ _ h => by cases h
  · rintro pre a rest - ⟨⟩ ⟨now, w'⟩ ⟨news, h⟩
    refine Post.bind (restoreEntry_post a h hlog₂) ?_ fun _ _ _ v hv => by cases hv
    rintro ⟨⟩ s hI
    exact Post.pure _ fun v hv => ⟨_, (Except.ok.inj hv).symm, hI rfl⟩
  · rintro ⟨⟩ ⟨c', w'⟩ hI
    obtain ⟨news, h⟩ := hI ⟨⟩ rfl
    refine Post.pure () fun _ => Or.inr ⟨t, es, news, ht, hes, h.read,
      fun n hn => List.mem_mergeSort.mp (h.restored n hn), h.idsApart, h.slotsApart, fun e he => ?_⟩
    rcases h.accounted e (List.mem_mergeSort.mpr he) with hk | hs | hm
    · exact .inl hk
    · exact .inr (.inl hs)
    · exact .inr (.inr fun hs' => hm ((Entry.stored_congr h.present).mp hs'))

/-- A handle that wrote three entries, two of them in one slot, on a cache whose index holds
another entry, in a world with the log aside, is reconciled by its close. -/
theorem close_reconciles_entries_sharing_slot :
    let entry : String → Int → Entry := fun id slot => { id, slot, result := default }
    let c : Cache := { dir := "c1", index := "c1/expr.index",
                       authored := [entry "k1" 1, entry "k2" 1, entry "k3" 2] }
    let w : World :=
      { disk := (Disk.empty "/w").withFiles [("c1/expr.index", "k0 0 0 0 0 0 0 0 0 0 0 0 0 0 0 0 0\n")] }
    c.closed = false ∧ w.LogsAside ∧ Post close (c, w) fun r s => r = .ok () → Reconciled c w s.2 := by
  intro entry c w
  have hlog : w.LogsAside := by
    intro p h
    cases h
  exact ⟨rfl, hlog, close_reconciles_written_entries c w rfl hlog⟩

/-- A handle on the cache directory c1 that writes one key twice: another process empties the index
after each write, and removes the later mapped netlist before the close. -/
def rewrittenTwice : On Cache (Entry × Entry) := do
  let e₁ ← Cache.get (Block.signalBlock "a")
  On.world (writeFile "c1/expr.index" "")
  verify
  let e₂ ← Cache.get (Block.signalBlock "a")
  On.world (writeFile "c1/expr.index" "")
  On.world (removePath "c1/1.v")
  close
  pure (e₁, e₂)

/-- A cache on the directory c1, whose index is empty and whose synthesizer is an external backend
stand-in, with its log in the journal. -/
def standIn : Cache × World :=
  ({ dir := "c1", index := "c1/expr.index",
     synth := some { backend := .external "fake" "/opt/ext/expropt_fake", ops := Backend.ops } },
   { disk := ((Disk.empty "/w").withPrograms [("/opt/ext/expropt_fake", "backend-standin")]).withFiles
       [("c1/expr.index", "")],
     streams := { log := .journal } })

/-- The handle holds one entry per key, the last it wrote. Once the later entry has lost a
netlist, the close restores neither: the index is left empty while both netlists of the earlier
entry are on disk. -/
theorem close_forgets_earlier_entry_of_key : ∃ e₁ e₂ c w,
    rewrittenTwice.run' standIn = .ok (.ok (e₁, e₂), c, w) ∧ e₁.id = e₂.id ∧ e₁.slot ≠ e₂.slot ∧
      w.disk.read "c1/expr.index" = .ok "" ∧ e₁.Stored w := by
  -- the run itself, evaluated: both calls succeed, and the close leaves the index empty
  have hrun : (rewrittenTwice.run' standIn).toOption.bind (fun p => p.1.toOption.map fun es =>
      (es.1.id == es.2.id, decide (es.1.slot ≠ es.2.slot),
        (p.2.2.disk.read "c1/expr.index").toOption == some "",
        p.2.2.disk.present es.1.result.mappedFile && p.2.2.disk.present es.1.result.preMapFile)) =
      some (true, true, true, true) := by
    decide +kernel
  rcases hout : rewrittenTwice.run' standIn with f | ⟨r, c, w⟩
  · rw [hout] at hrun
    cases hrun
  rcases r with err | ⟨e₁, e₂⟩
  · rw [hout] at hrun
    cases hrun
  rw [hout] at hrun
  simp only [Except.toOption, Option.bind_some, Option.map_some, Option.some.injEq, Prod.mk.injEq,
    beq_iff_eq, decide_eq_true_eq, Bool.and_eq_true] at hrun
  obtain ⟨hid, hslot, hread, hstored⟩ := hrun
  refine ⟨e₁, e₂, c, w, rfl, hid, hslot, ?_, hstored⟩
  rcases h : w.disk.read "c1/expr.index" with err | t
  · simp [h] at hread
  · simp [h] at hread
    rw [hread]

end BitSynth.Cache
