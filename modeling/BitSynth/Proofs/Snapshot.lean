import Mathlib
import BitSynth.Proofs.Slots
import BitSynth.Proofs.Reconciliation
import BitSynth.Proofs.WorkFiles
import BitSynth.Proofs.CachedModule
import BitSynth.Proofs.Backends

namespace BitSynth

open Stateful

namespace Stateful

variable {σ α β : Type}

theorem Post.trivial (x : Stateful σ α) (s : σ) : Post x s fun _ _ => True := fun _ _ _ => True.intro

theorem Post.lift_bind {g : Guarded α} {f : α → Stateful σ β} {s : σ} {Q : Except Error β → σ → Prop}
    (hok : ∀ v, g.result = some v → Post (f v) s Q) (herr : ∀ e, Q (.error e) s) :
    Post (Guarded.lift g >>= f) s Q := by
  intro r s' hr
  rw [run'_bind, run'_lift] at hr
  unfold Guarded.result at hok
  rcases hg : g.run with _ | _ | v <;> rw [hg] at hr hok
  · cases hr
  · cases hr
    exact herr _
  · exact hok v rfl r s' hr

end Stateful

namespace On

variable {σ α β : Type} {o : σ} {w : World} {Q : Except Error β → σ × World → Prop}

theorem Post.world_any_bind {y : Act α} {f : α → On σ β} (hf : ∀ v w', Post (f v) (o, w') Q)
    (he : ∀ e w', Q (.error e) (o, w')) : Post (On.world y >>= f) (o, w) Q :=
  Post.world_bind (Post.trivial y w) (fun v w' _ => hf v w') fun e w' _ => he e w'

theorem run'_within (x : On σ α) (o : σ) (w : World) :
    (On.within x o).run' w = (x.run' (o, w)).map fun p => (.ok (p.1, p.2.1), p.2.2) := by
  unfold On.within On.runFrom Stateful.run'
  simp only [ExceptT.run_mk, StateT.run]
  rcases ExceptT.run x (o, w) with _ | ⟨r, o', w'⟩ <;> rfl

theorem Post.within {x : On σ α} {R : Except Error α → σ × World → Prop} (hx : Post x (o, w) R) :
    Post (On.within x o) w fun r w' => ∀ v o', r = .ok (v, o') → R v (o', w') := by
  intro r w' hr
  rw [run'_within] at hr
  rcases hx₁ : x.run' (o, w) with _ | ⟨v, o', w₁⟩ <;> rw [hx₁] at hr <;> cases hr
  intro v' o'' h
  cases h
  exact hx _ _ hx₁

end On

/-! ### A synthesis keeps what the backend keeps -/

namespace Pipeline

variable {β : Type} {keep : String → Prop}

theorem writeModule_keeps (keep : String → Prop) (path module : String) (req : Request) (vectorize : Bool) (w : World) :
    Post (writeModule path module req vectorize) w fun _ w' => Disk.Keeps keep w.disk w'.disk := by
  unfold writeModule
  refine Post.bind (tryDisk_post _ w) (fun v w₁ h => ?_) fun e w₁ h => ?_
  · rcases h with ⟨a, d₁, hd₁, hv, rfl⟩ | ⟨e, -, hv, rfl⟩ <;> cases hv
    · have hk₁ : Disk.Keeps keep w.disk d₁ := by
        rcases hw : w.disk.write path "" with e | d <;> rw [hw] at hd₁ <;> cases hd₁
        exact (Disk.lasting_write hw).keeps
      dsimp only
      refine Post.bind (Act.attempt_lift_post _ _) (fun r w₂ hw₂ => ?_) fun e w₂ h => by
        obtain ⟨-, v, hv⟩ := h
        cases hv
      obtain ⟨rfl, -⟩ := hw₂
      split
      · refine (Act.writeFile_post _ _ _).conseq fun _ w₃ h => ?_
        rcases h with rfl | ⟨d, hd, rfl⟩
        · exact hk₁
        · exact hk₁.trans (Disk.lasting_write hd).keeps
      · exact Post.throw _ hk₁
    · exact Post.throw_bind _ (Disk.Keeps.refl _ _)
  · rcases h with ⟨_, _, _, h, _⟩ | ⟨_, _, h, _⟩ <;> cases h

end Pipeline

namespace Pipeline

variable {β : Type} {keep : String → Prop}

theorem Request.single_result {name : String} {a : Arena} {root : NodeId} {leaves : LeafMap}
    {width : Int} {r : Request} (h : (Request.single name a root leaves width).result = some r) :
    r.name = name ∧ r.translate = false := by
  unfold Request.single at h
  rw [Guarded.result_bind] at h
  obtain ⟨inputs, -, h⟩ := Option.bind_eq_some_iff.mp h
  cases h
  exact ⟨rfl, rfl⟩

/-- A synthesis changes only the backend of the synthesizer, within `B` when the backend keeps
the paths of `keep` from `B` on the job. A synthesis that succeeds and asks for no translation
keeps those paths too: it writes only its own source. -/
theorem synthesize_keeps (s : Synthesizer β) (req : Request) {B : β → Prop} {J : Backend.Job → Prop}
    (hops : s.ops.Keeps keep B J) (hB : B s.backend) (hJ : J (s.job req)) (htr : req.translate = false)
    (w : World) :
    Post (Synthesizer.synthesize req) (s, w) fun r s' => (∃ b, s'.1 = { s with backend := b } ∧ B b) ∧
      ∀ v, r = .ok v → Disk.Keeps keep w.disk s'.2.disk := by
  unfold Synthesizer.synthesize
  refine On.Post.self_bind ?_
  dsimp only
  split
  · exact Post.throw_bind _ ⟨⟨s.backend, rfl, hB⟩, fun _ h => by cases h⟩
  refine On.Post.world_attempt_bind (writeModule_keeps keep _ _ _ _ w) fun r w₁ hk₁ => ?_
  rcases r with e | ⟨⟩
  · -- the module could not be written: its source is removed and the error handed on
    dsimp only
    refine On.Post.world_any_bind (fun _ _ => ?_) fun _ _ => ⟨⟨s.backend, rfl, hB⟩, fun _ h => by cases h⟩
    exact Post.throw_bind _ ⟨⟨s.backend, rfl, hB⟩, fun _ h => by cases h⟩
  dsimp only
  refine On.Post.attempt_bind (On.Post.focus (hops.run _ s.backend _ hB hJ)) ?_
  rintro r ⟨o₂, w₂⟩ ⟨t, ho₂, hB₂, hk₂⟩
  rcases r with e | ⟨⟩
  · -- mapping failed: the outcome is cleaned up and the error handed on
    refine On.Post.world_any_bind (fun _ _ => ?_) fun _ _ => ⟨⟨t, ho₂, hB₂⟩, fun _ h => by cases h⟩
    exact Post.throw_bind _ ⟨⟨t, ho₂, hB₂⟩, fun _ h => by cases h⟩
  dsimp only
  refine On.Post.self_bind ?_
  refine Post.bind (Post.forIn_or_error _ _
      (fun _ _ (st : Synthesizer β × World) => st.1 = { s with backend := t } ∧
        Disk.Keeps keep w.disk st.2.disk)
      (fun _ st => st.1 = { s with backend := t }) ?_ ⟨ho₂, hk₁.trans hk₂⟩) ?_
    fun e st h => ⟨⟨t, h.2 e rfl, hB₂⟩, fun _ h' => by cases h'⟩
  · rintro pre kind rest - res ⟨o₃, w₃⟩ ⟨ho₃, hk₃⟩
    -- the metrics are asked of the backend that mapped, on the same job
    simp only at ho₂ hB₂
    subst ho₂
    refine On.Post.world_attempt_bind (hops.metric _ _ kind w₃ hB₂ hJ) fun r w₄ hk₄ => ?_
    rcases r with e | v
    · refine On.Post.world_any_bind (fun _ _ => ?_) fun _ _ => ⟨fun _ h => (by cases h), fun _ _ => ho₃⟩
      exact Post.throw_bind _ ⟨fun _ h => (by cases h), fun _ _ => ho₃⟩
    · exact Post.pure_yield ⟨ho₃, hk₃.trans hk₄⟩
  rintro res ⟨o₄, w₄⟩ ⟨hI, -⟩
  obtain ⟨ho₄, hk₄⟩ := hI res rfl
  split
  · rename_i htrue
    rw [htr] at htrue
    cases htrue
  · exact Post.pure _ ⟨⟨t, ho₄, hB₂⟩, fun _ _ => hk₄⟩

end Pipeline

namespace Cache

theorem canonicalRequest_result {name : String} {x : Block} {r : Pipeline.Request}
    (h : (canonicalRequest name x).result = some r) : r.name = name ∧ r.translate = false := by
  unfold canonicalRequest at h
  simp only [Guarded.result_bind, Option.bind_eq_some_iff] at h
  obtain ⟨_, -, _, -, _, -, h⟩ := h
  exact Pipeline.Request.single_result h

/-! ### Coherent snapshots -/

/-- The snapshot of a handle is coherent: its slots are apart and so are the keys of their
entries, the map by key is the map by slot read the other way, and every entry stands in its slot
with its key and its netlist paths in the directory. The entries the handle wrote carry their
paths too, as a close adds them back. -/
structure Coherent (c : Cache) : Prop where
  ids_eq : c.ids = c.slots.map fun p => (p.2.id, p.1)
  keys_nodup : (c.slots.map (·.2.id)).Nodup
  slots_nodup : (c.slots.map (·.1)).Nodup
  placed : ∀ p ∈ c.slots, p.2.slot = p.1 ∧ c.resolve p.2 = p.2
  authored : ∀ e ∈ c.authored, c.resolve e = e

@[simp] theorem resolve_resolve (c : Cache) (e : Entry) : c.resolve (c.resolve e) = c.resolve e := rfl

theorem resolve_congr {c c' : Cache} (h : c'.dir = c.dir) (e : Entry) : c'.resolve e = c.resolve e := by
  simp [resolve, h]

namespace Coherent

variable {c c' : Cache}

theorem congr (h : Coherent c) (hids : c'.ids = c.ids) (hslots : c'.slots = c.slots)
    (hauth : c'.authored = c.authored) (hdir : c'.dir = c.dir) : Coherent c' where
  ids_eq := by rw [hids, hslots]; exact h.ids_eq
  keys_nodup := hslots ▸ h.keys_nodup
  slots_nodup := hslots ▸ h.slots_nodup
  placed p hp := by
    rw [resolve_congr hdir]
    exact h.placed p (hslots ▸ hp)
  authored e he := by
    rw [resolve_congr hdir]
    exact h.authored e (hauth ▸ he)

theorem loaded (h : Coherent c) {es : List Entry} (hids : (es.map (·.id)).Nodup)
    (hslots : (es.map (·.slot)).Nodup) : Coherent (c.loaded es) where
  ids_eq := by simp [Cache.loaded]
  keys_nodup := by simpa [Cache.loaded, Function.comp_def] using hids
  slots_nodup := by simpa [Cache.loaded, Function.comp_def] using hslots
  placed p hp := by
    obtain ⟨e, -, rfl⟩ := List.mem_map.mp hp
    exact ⟨rfl, rfl⟩
  authored := h.authored

theorem ids_keys (h : Coherent c) : c.ids.map (·.1) = c.slots.map (·.2.id) := by
  rw [h.ids_eq, List.map_map]
  rfl

/-- A key the snapshot does not find is the key of none of its entries. -/
theorem key_not_mem_of_lookup (h : Coherent c) {id : String} (hl : c.lookup id = none) :
    id ∉ c.slots.map (·.2.id) := by
  intro hmem
  obtain ⟨p, hp, rfl⟩ := List.mem_map.mp hmem
  -- the key map finds a slot for the key, and the slot map an entry in that slot
  have hid : (p.2.id, p.1) ∈ c.ids := by
    rw [h.ids_eq]
    exact List.mem_map_of_mem hp
  obtain ⟨q, hq⟩ := Option.isSome_iff_exists.mp
    (List.find?_isSome.mpr ⟨_, hid, by simp⟩ : (c.ids.find? (·.1 == p.2.id)).isSome)
  have hqmem := List.mem_of_find?_eq_some hq
  rw [h.ids_eq] at hqmem
  obtain ⟨p', hp', rfl⟩ := List.mem_map.mp hqmem
  obtain ⟨r, hr⟩ := Option.isSome_iff_exists.mp
    (List.find?_isSome.mpr ⟨p', hp', by simp⟩ : (c.slots.find? (·.1 == p'.1)).isSome)
  simp [lookup, hq, hr] at hl

theorem nodup_append_singleton {α : Type} {l : List α} {a : α} (hl : l.Nodup) (ha : a ∉ l) :
    (l ++ [a]).Nodup := by
  rw [← List.concat_eq_append]
  exact hl.concat ha

/-- An entry with a new key and a new slot, standing in its slot with its paths, joins a coherent
snapshot coherently, whatever entries written it comes with, as long as they carry their paths. -/
theorem insert (h : Coherent c) {e : Entry} (hid : e.id ∉ c.slots.map (·.2.id))
    (hslot : e.slot ∉ c.slots.map (·.1)) (he : c.resolve e = e) {written : List Entry}
    (hwritten : ∀ a ∈ written, c.resolve a = a) :
    Coherent { c with ids := c.ids ++ [(e.id, e.slot)], slots := c.slots ++ [(e.slot, e)],
                      authored := written } where
  ids_eq := by simp [h.ids_eq]
  keys_nodup := by
    rw [List.map_append, List.map_singleton]
    exact nodup_append_singleton h.keys_nodup hid
  slots_nodup := by
    rw [List.map_append, List.map_singleton]
    exact nodup_append_singleton h.slots_nodup hslot
  placed p hp := by
    rcases List.mem_append.mp hp with hp | hp
    · exact h.placed p hp
    · rw [List.mem_singleton.mp hp]
      exact ⟨rfl, he⟩
  authored := hwritten

end Coherent

/-! ### Handles in good order -/

/-- The netlists of a directory. -/
def Netlist (dir p : String) : Prop := ∃ mapped slot, p = Path.join [dir, netlistName mapped slot]

/-- A job the cache hands a backend: its source and its netlist are `.v` files, and its module is
named after a key. -/
def CacheJob (job : Backend.Job) : Prop :=
  (∃ stem, job.input = stem ++ ".v") ∧ (∃ stem, job.output = stem ++ ".v") ∧ ∃ key, job.top = moduleName key

theorem cacheJob_job {β : Type} (s : Pipeline.Synthesizer β) {req : Pipeline.Request} {key : String}
    (h : req.name = moduleName key) : CacheJob (s.job req) :=
  ⟨⟨_, rfl⟩, ⟨_, rfl⟩, key, h⟩

theorem CacheJob.plain {job : Backend.Job} (h : CacheJob job) : job.Plain := by
  obtain ⟨⟨i, hi⟩, ⟨o, ho⟩, key, hk⟩ := h
  have hv : ∀ stem : String, "-f" ≠ stem ++ ".v" := fun stem h => by
    have := congrArg (fun t => t.toList.getLast?) h
    simp at this
  have hm : "-f" ≠ moduleName key := fun h => by
    have := congrArg String.toList h
    simp [moduleName] at this
  simp only [Backend.Job.Plain, List.mem_cons, List.not_mem_nil, or_false, not_or]
  exact ⟨hi ▸ hv i, ho ▸ hv o, hk ▸ hm⟩

/-- A synthesizer whose backend keeps the netlists of the directory on the jobs of the cache, from
states that hold of its backend and that mapping keeps. -/
def KeepsNetlists (dir : String) (s : Pipeline.Synthesizer Backend) : Prop :=
  ∃ B, s.ops.Keeps (Netlist dir) B CacheJob ∧ B s.backend

theorem keepsNetlists_of_installed {dir : String} {s : Pipeline.Synthesizer Backend}
    (hops : s.ops = Backend.ops) (hb : s.backend.Installed) : KeepsNetlists dir s :=
  ⟨Backend.Installed, hops ▸ (Backend.ops_keeps _).of_jobs fun _ h => h.plain, hb⟩

/-- A handle in good order: a coherent snapshot, and a synthesizer, if any, that keeps the
netlists of the directory. -/
structure Sound (c : Cache) : Prop where
  coherent : Coherent c
  synth : ∀ s, c.synth = some s → KeepsNetlists c.dir s

namespace Sound

variable {c c' : Cache}

theorem congr (h : Sound c) (hids : c'.ids = c.ids) (hslots : c'.slots = c.slots)
    (hauth : c'.authored = c.authored) (hdir : c'.dir = c.dir) (hsynth : c'.synth = c.synth) : Sound c' :=
  ⟨h.coherent.congr hids hslots hauth hdir, fun s hs => hdir ▸ h.synth s (hsynth ▸ hs)⟩

theorem with_backend (h : Sound c) {s : Pipeline.Synthesizer Backend} {B : Backend → Prop}
    (hops : s.ops.Keeps (Netlist c.dir) B CacheJob) {b : Backend} (hb : B b) :
    Sound { c with synth := some { s with backend := b } } := by
  refine ⟨h.coherent.congr rfl rfl rfl rfl, fun s' hs' => ?_⟩
  cases hs'
  exact ⟨B, hops, hb⟩

end Sound

variable {c : Cache} {w : World}

theorem slot_not_mem_of_free {es : List Entry} {w' : World} (hst : ∀ e ∈ es, (c.resolve e).Stored w)
    (hkeep : Disk.Keeps (Netlist c.dir) w.disk w'.disk) {slot : Int}
    (hfree : slotFree w'.disk c.dir slot = true) : slot ∉ es.map (·.slot) := by
  intro hmem
  obtain ⟨e, he, rfl⟩ := List.mem_map.mp hmem
  have hp : w'.disk.present (Path.join [c.dir, mappedName e.slot]) = true :=
    hkeep _ ⟨true, e.slot, rfl⟩ (hst e he).1
  simp only [slotFree, Bool.and_eq_true, Bool.not_eq_true'] at hfree
  rw [hfree.1] at hp
  cases hp

theorem reload_sound (h : Sound c) (w : World) :
    Post reload (c, w) fun r s => Sound s.1 ∧ s.1.dir = c.dir ∧ ∀ e, r = .error e → s.1 = c := by
  intro r s hr
  obtain ⟨-, herr, hok⟩ := reload_post c w r s hr
  rcases r with e | ⟨⟩
  · rw [herr e rfl]
    exact ⟨h, rfl, fun _ _ => rfl⟩
  · obtain ⟨text, es, -, -, hc', hids, hslots, -⟩ := hok rfl
    rw [hc']
    exact ⟨⟨h.coherent.loaded hids hslots, h.synth⟩, rfl, fun _ h => by cases h⟩

theorem verify_sound (h : Sound c) (w : World) : Post verify (c, w) fun _ s => Sound s.1 := by
  unfold verify
  refine On.Post.self_bind ?_
  exact On.Post.world_any_bind (fun _ w' => (reload_sound h w').conseq fun _ _ h => h.1) fun _ _ => h

/-- Adding back an entry written, on a close, keeps the handle in good order. -/
theorem restoreEntry_sound (h : Sound c) {e : Entry} (he : c.resolve e = e) (w : World) :
    Post (restoreEntry e) (c, w) fun _ s => Sound s.1 ∧ s.1.dir = c.dir := by
  unfold restoreEntry
  refine On.Post.self_bind ?_
  split
  · exact Post.pure _ ⟨h, rfl⟩
  rename_i hid
  split
  · exact On.Post.world_any_bind (fun _ _ => Post.pure _ ⟨h, rfl⟩) fun _ _ => ⟨h, rfl⟩
  rename_i hslot
  refine On.Post.world_attempt_bind (Post.trivial _ w) fun r w₁ _ => ?_
  rcases r with err | ⟨⟩
  · exact On.Post.world (Post.trivial _ w₁) fun _ _ _ => ⟨h, rfl⟩
  refine On.Post.world_any_bind (fun _ w₂ => ?_) fun _ _ => ⟨h, rfl⟩
  -- the key and the slot are both new: the entry joins the snapshot
  have hid' : e.id ∉ c.slots.map (·.2.id) := by
    rw [← h.coherent.ids_keys]
    exact fun hm => hid (any_fst_eq_true.mpr hm)
  have hslot' : e.slot ∉ c.slots.map (·.1) := fun hm => hslot (any_fst_eq_true.mpr hm)
  refine On.Post.update_bind _ (On.Post.world (Post.trivial _ w₂) fun _ _ _ => ⟨⟨?_, h.synth⟩, rfl⟩)
  exact h.coherent.insert hid' hslot' he h.coherent.authored

theorem emitEntry_post (e : Entry) (w : World) : Post (emitEntry e) (c, w) fun _ s => s.1 = c := by
  unfold emitEntry
  refine On.Post.self_bind ?_
  split
  · exact Post.throw _ rfl
  · exact On.Post.world_any_bind (fun _ _ => On.Post.world (Post.trivial _ _) fun _ _ _ => rfl) fun _ _ => rfl

/-- A miss keeps the handle in good order. The reload gives a coherent snapshot whose netlists are
all on disk; the key is new, as the snapshot does not find it; the synthesis and the log keep the
netlists, so the slot `nextSlot` finds free is none of the snapshot's. -/
theorem synthesize_sound (h : Sound c) (id : String) (x : Block) (w : World) :
    Post (synthesize id x) (c, w) fun _ s => Sound s.1 := by
  unfold synthesize
  refine On.Post.self_bind ?_
  split
  next s hs =>
    simp only [pure_bind]
    refine On.Post.world_any_bind (fun _ w₁ => ?_) fun _ _ => h
    refine Post.bind (reload_post c w₁) (fun _ s₁ hr => ?_) fun e s₁ hr => by
      rw [hr.2.1 e rfl]
      exact h
    obtain ⟨c₁, w₁'⟩ := s₁
    obtain ⟨hw₁, -, hok⟩ := hr
    obtain ⟨-, es, -, -, hc₁, hids, hslots, hst⟩ := hok rfl
    simp only at hw₁ hc₁
    subst hw₁ hc₁
    have hsound₁ : Sound (c.loaded es) := ⟨h.coherent.loaded hids hslots, h.synth⟩
    refine On.Post.self_bind ?_
    split
    · exact On.Post.world_any_bind (fun _ _ => Post.pure _ hsound₁) fun _ _ => hsound₁
    rename_i hl
    refine Post.lift_bind (fun req hreq => ?_) fun _ => hsound₁
    refine On.Post.world_bind (logLine_shape _ _ w₁') (fun _ w₂ hw₂ => ?_) fun _ _ hw => by cases hw.1
    -- the synthesis runs on the synthesizer of the handle, on a job of the cache
    obtain ⟨B, hops, hB⟩ := h.synth s hs
    obtain ⟨hname, htr⟩ := canonicalRequest_result hreq
    have hx : Post (Pipeline.Synthesizer.synthesize req) ((c.loaded es).synth.getD s, w₂) fun r s' =>
        (∃ b, s'.1 = { s with backend := b } ∧ B b) ∧
          ∀ v, r = .ok v → Disk.Keeps (Netlist c.dir) w₂.disk s'.2.disk := by
      rw [show (c.loaded es).synth.getD s = s by simp [Cache.loaded, hs]]
      exact Pipeline.synthesize_keeps s req hops hB (cacheJob_job s hname) htr w₂
    unfold onSynth
    refine Post.bind (On.Post.focus hx) (fun out s₃ hr => ?_) fun e s₃ hr => ?_
    rotate_left
    · obtain ⟨t, hc₃, ⟨b, rfl, hb⟩, -⟩ := hr
      rw [hc₃]
      exact hsound₁.with_backend hops hb
    obtain ⟨t, hc₃, ⟨b, rfl, hb⟩, hk₃⟩ := hr
    have hsound₃ := hsound₁.with_backend hops hb
    refine Post.bind (nextSlot_post _ s₃.2) (fun slot s₄ hr => ?_) fun e _ hr => ?_
    rotate_left
    · obtain ⟨-, _, he, -⟩ := hr
      cases he
    obtain ⟨c₄, w₄⟩ := s₄
    obtain ⟨hw₄, slot', hslot', hc₄, hfree⟩ := hr
    cases hslot'
    simp only at hw₄ hc₄
    subst hw₄ hc₄
    rw [hc₃] at hfree ⊢
    have hsound₄ : Sound { c.loaded es with synth := some { s with backend := b }, counter := slot + 1 } :=
      hsound₃.congr rfl rfl rfl rfl rfl
    refine On.Post.self_bind ?_
    refine On.Post.world_attempt_bind (Post.trivial _ _) fun r w₅ _ => ?_
    refine On.Post.world_any_bind (fun _ w₆ => ?_) fun _ _ => hsound₄
    rcases r with err | ⟨⟩
    · exact Post.throw _ hsound₄
    -- the key and the slot are new: the entry joins the snapshot
    have hid : id ∉ (c.loaded es).slots.map (·.2.id) :=
      hsound₁.coherent.key_not_mem_of_lookup (Option.eq_none_iff_forall_ne_some.mpr hl)
    have hslot : slot ∉ (c.loaded es).slots.map (·.1) := by
      have hkeep : Disk.Keeps (Netlist c.dir) w₁'.disk s₃.2.disk :=
        (Disk.SameShape.keeps hw₂.2.2).trans (hk₃ out rfl)
      simpa [Cache.loaded, Function.comp_def] using slot_not_mem_of_free hst hkeep hfree
    refine On.Post.update_bind _ (Post.pure _ ⟨?_, hsound₄.synth⟩)
    refine hsound₄.coherent.insert (e := c.resolve ⟨id, slot, out.result⟩) hid hslot rfl fun a ha => ?_
    rcases List.mem_append.mp ha with ha | ha
    · exact hsound₁.coherent.authored a (List.mem_filter.mp ha).1
    · rw [List.mem_singleton.mp ha]
      rfl
  next => exact Post.throw_bind _ h

/-- The end of a get: a translation, when asked for, leaves the snapshot as it is. -/
theorem translate_tail_sound {c : Cache} (h : Sound c) (id : String) (e : Entry) (w : World) :
    Post (do
      let a ← On.self
      let b ← On.self
      if (a.emit && !b.emitted.contains id) = true then do
        emitEntry e
        On.update fun c => { c with emitted := c.emitted ++ [id] }
        pure e
      else pure e : On Cache Entry) (c, w) fun _ s => Sound s.1 := by
  refine On.Post.self_bind ?_
  refine On.Post.self_bind ?_
  split
  · refine Post.bind (emitEntry_post e w) (fun _ s₂ hs₂ => ?_) fun _ s₂ hs₂ => by
      rw [hs₂]
      exact h
    obtain ⟨c₂, w₂⟩ := s₂
    simp only at hs₂
    subst hs₂
    exact On.Post.update_bind _ (Post.pure _ (h.congr rfl rfl rfl rfl rfl))
  · exact Post.pure _ h

theorem get_sound (h : Sound c) (x : Block) (w : World) : Post (get x) (c, w) fun _ s => Sound s.1 := by
  unfold get
  refine Post.lift_bind (fun id _ => ?_) fun _ => h
  refine On.Post.self_bind ?_
  dsimp only
  by_cases hclosed : c.closed = true
  · rw [if_pos hclosed]
    exact Post.throw_bind _ h
  rw [if_neg hclosed]
  split
  · refine On.Post.world_any_bind (fun _ _ => On.Post.world_any_bind (fun _ w₁ => ?_) fun _ _ => h) fun _ _ => h
    rw [pure_bind]
    exact translate_tail_sound h id _ w₁
  · refine Post.bind (synthesize_sound h _ x w) (fun e s hs => ?_) fun _ _ hs => hs
    exact translate_tail_sound hs id e s.2

/-- A close keeps the handle in good order: the entries it adds back carry their paths. -/
theorem close_sound (h : Sound c) (w : World) : Post close (c, w) fun _ s => Sound s.1 := by
  unfold close
  refine On.Post.self_bind ?_
  split
  · exact Post.pure _ h
  have hc : Sound { c with closed := true } := h.congr rfl rfl rfl rfl rfl
  refine On.Post.update_bind _ ?_
  split
  · exact Post.pure _ hc
  refine On.Post.world_any_bind (fun _ w₁ => ?_) fun _ _ => hc
  refine Post.bind (reload_sound hc w₁) (fun _ s₁ hs₁ => ?_) fun _ _ hs => hs.1
  refine Post.bind (Post.forIn_or_error _ _ (fun _ _ s => Sound s.1 ∧ s.1.dir = c.dir)
    (fun _ s => Sound s.1) ?_ ⟨hs₁.1, hs₁.2.1⟩) (fun _ s hs => ?_) fun _ s hs => hs.2 _ rfl
  · rintro pre e rest hsorted _ s ⟨hs, hdir⟩
    have he : e ∈ c.authored := List.mem_mergeSort.mp (by rw [hsorted]; simp)
    have hres : s.1.resolve e = e := by
      rw [resolve_congr hdir]
      exact h.coherent.authored e he
    refine Post.bind (restoreEntry_sound hs hres s.2) (fun _ s' hs' => ?_) fun _ s' hs' =>
      ⟨fun _ h => (by cases h), fun _ _ => hs'.1⟩
    exact Post.pure_yield ⟨hs'.1, hs'.2.trans hdir⟩
  · exact Post.pure _ (hs.1 _ rfl).1

/-- A handle that `Cache.open` returns is in good order when the backend of its synthesizer keeps
the netlists of the directory: it starts empty, and its reload succeeded. -/
theorem open_sound {dir : String} {synth : Option (Pipeline.Synthesizer Backend)} {invalidating emit : Bool}
    (hsynth : ∀ s, synth = some s → KeepsNetlists dir s) (w : World) :
    Post (Cache.open dir synth invalidating emit) w fun r _ => ∀ c, r = .ok c → Sound c := by
  have h₀ : Sound { dir, index := Path.join [dir, indexFile], synth, emit } :=
    ⟨⟨rfl, List.nodup_nil, List.nodup_nil, fun _ h => (by cases h), fun _ h => (by cases h)⟩, hsynth⟩
  unfold Cache.open
  dsimp only
  -- the removal of the netlists and the index, when asked for, changes the world only
  split
  refine Post.bind (Post.trivial _ w) (fun _ w₁ _ => ?_) fun _ _ _ _ h => by cases h
  all_goals
    refine Post.bind (Post.trivial _ _) (fun r w₁ _ => ?_) fun _ _ _ _ h => by cases h
    rcases r with e | ⟨⟩
    · exact Post.throw_bind _ fun _ h => by cases h
    refine Post.bind (Post.trivial _ _) (fun _ w₂ _ => ?_) fun _ _ _ _ h => by cases h
    refine Post.bind (Post.trivial _ _) (fun _ w₃ _ => ?_) fun _ _ _ _ h => by cases h
    refine Post.bind (On.Post.within (reload_sound h₀ w₃)) (fun p w₄ hp => ?_) fun _ _ _ _ h => by cases h
    obtain ⟨r, c⟩ := p
    have hc := (hp r c rfl).1
    rcases r with e | ⟨⟩
    · exact Post.throw _ fun _ h => by cases h
    · exact Post.pure _ fun _ h => by cases h; exact hc

/-- The handles that a run of calls reaches: the one `Cache.open` returns, when the backend of its
synthesizer keeps the netlists of the directory, and the one that a call of `get`, `verify` or
`close` leaves, with or without an error. Each call starts from any world: between calls other
processes may change the index and the netlists as they like. Lookups and listings read the
snapshot and leave it as it is. -/
inductive Reachable : Cache → Prop
  | opened {dir : String} {synth : Option (Pipeline.Synthesizer Backend)} {invalidating emit : Bool}
      {w w' : World} {c : Cache} (hsynth : ∀ s, synth = some s → KeepsNetlists dir s)
      (hrun : (Cache.open dir synth invalidating emit).run' w = .ok (.ok c, w')) : Reachable c
  | got {c c' : Cache} {x : Block} {w w' : World} {r : Except Error Entry} (hc : Reachable c)
      (hrun : (get x).run' (c, w) = .ok (r, (c', w'))) : Reachable c'
  | verified {c c' : Cache} {w w' : World} {r : Except Error Unit} (hc : Reachable c)
      (hrun : verify.run' (c, w) = .ok (r, (c', w'))) : Reachable c'
  | closed {c c' : Cache} {w w' : World} {r : Except Error Unit} (hc : Reachable c)
      (hrun : close.run' (c, w) = .ok (r, (c', w'))) : Reachable c'

theorem Reachable.sound {c : Cache} (h : Reachable c) : Sound c := by
  induction h with
  | opened hsynth hrun => exact open_sound hsynth _ _ _ hrun _ rfl
  | got _ hrun ih => exact get_sound ih _ _ _ _ hrun
  | verified _ hrun ih => exact verify_sound ih _ _ _ hrun
  | closed _ hrun ih => exact close_sound ih _ _ _ hrun

namespace Coherent

variable {c : Cache}

theorem entries_perm (_ : Coherent c) : c.entries.Perm (c.slots.map (·.2)) :=
  (List.mergeSort_perm _ _).map _

/-- The entries of a coherent snapshot are listed by strictly increasing slot: the sort orders
the slots, which are apart, and every entry stands in its slot. -/
theorem entries_sorted (h : Coherent c) : (c.entries.map (·.slot)).Pairwise (· < ·) := by
  have hperm := List.mergeSort_perm c.slots fun a b => decide (a.1 ≤ b.1)
  have hle : (c.slots.mergeSort fun a b => decide (a.1 ≤ b.1)).Pairwise
      fun a b => decide (a.1 ≤ b.1) = true :=
    List.pairwise_mergeSort (fun a b c hab hbc => by simp only [decide_eq_true_eq] at *; omega)
      (fun a b => by simp only [Bool.or_eq_true, decide_eq_true_eq]; omega) _
  have hne : ((c.slots.mergeSort fun a b => decide (a.1 ≤ b.1)).map (·.1)).Nodup :=
    (hperm.map _).nodup_iff.mpr h.slots_nodup
  have hkeys : c.entries.map (·.slot) = (c.slots.mergeSort fun a b => decide (a.1 ≤ b.1)).map (·.1) := by
    unfold entries
    rw [List.map_map]
    exact List.map_congr_left fun p hp => (h.placed p (hperm.subset hp)).1
  rw [hkeys, List.pairwise_map]
  exact (hle.and (List.pairwise_map.mp hne)).imp fun hp => lt_of_le_of_ne (by simpa using hp.1) hp.2

end Coherent

/-- The snapshot of every handle that a run of calls reaches is a pair of inverse finite maps: the
key map holds a key at a slot exactly when the slot map holds an entry of that key at that slot,
and neither map holds a key twice. Every entry stands in its slot with its key in its result and
the netlist paths of its slot; the entries are listed by increasing slot; and a reload that fails
leaves the handle as it was. -/
theorem reachable_snapshot_coherent {c : Cache} (h : Reachable c) :
    (∀ id slot, (id, slot) ∈ c.ids ↔ ∃ e, (slot, e) ∈ c.slots ∧ e.id = id) ∧
      (c.ids.map (·.1)).Nodup ∧ (c.slots.map (·.1)).Nodup ∧
      (∀ slot e, (slot, e) ∈ c.slots → e.slot = slot ∧ e.result.id = e.id ∧
        e.result.mappedFile = Path.join [c.dir, mappedName slot] ∧
        e.result.preMapFile = Path.join [c.dir, preMapName slot]) ∧
      (c.entries.map (·.slot)).Pairwise (· < ·) ∧ c.entries.Perm (c.slots.map (·.2)) ∧
      ∀ w e c' w', reload.run' (c, w) = .ok (.error e, (c', w')) → c' = c := by
  have hc := h.sound.coherent
  refine ⟨fun id slot => ?_, hc.ids_keys ▸ hc.keys_nodup, hc.slots_nodup, fun slot e he => ?_,
    hc.entries_sorted, hc.entries_perm, fun w e c' w' hr => (reload_post c w _ _ hr).2.1 e rfl⟩
  · rw [hc.ids_eq]
    constructor
    · intro hm
      obtain ⟨p, hp, hpe⟩ := List.mem_map.mp hm
      obtain ⟨rfl, rfl⟩ := Prod.mk.inj hpe
      exact ⟨p.2, hp, rfl⟩
    · rintro ⟨e, he, rfl⟩
      exact List.mem_map.mpr ⟨_, he, rfl⟩
  · obtain ⟨hslot, hres⟩ := hc.placed _ he
    dsimp only at hslot hres
    subst hslot
    rw [← hres]
    exact ⟨rfl, rfl, rfl, rfl⟩

/-- The handle that opening a cache, one get and a close leave, when no step has a defect. -/
def afterGetClose (dir : String) (synth : Option (Pipeline.Synthesizer Backend)) (x : Block) (w : World) :
    Option Cache :=
  ((Cache.open dir synth false false).run' w).toOption.bind fun p₁ =>
    p₁.1.toOption.bind fun c₁ =>
      ((get x).run' (c₁, p₁.2)).toOption.bind fun p₂ =>
        (close.run' p₂.2).toOption.map fun p₃ => p₃.2.1

theorem Reachable.of_afterGetClose {dir : String} {synth : Option (Pipeline.Synthesizer Backend)}
    {x : Block} {w : World} {c : Cache} (hsynth : ∀ s, synth = some s → KeepsNetlists dir s)
    (h : afterGetClose dir synth x w = some c) : Reachable c := by
  unfold afterGetClose at h
  rcases h₁ : (Cache.open dir synth false false).run' w with _ | ⟨_ | c₁, w₁⟩ <;>
    simp only [h₁, Except.toOption, Option.bind_none, Option.bind_some, reduceCtorEq] at h
  rcases h₂ : (get x).run' (c₁, w₁) with _ | ⟨r₂, c₂, w₂⟩ <;>
    simp only [h₂, Option.bind_none, Option.bind_some, reduceCtorEq] at h
  rcases h₃ : close.run' (c₂, w₂) with _ | ⟨r₃, c₃, w₃⟩ <;>
    simp only [h₃, Option.map_none, Option.map_some, Option.some.injEq, reduceCtorEq] at h
  subst h
  exact .closed (.got (.opened hsynth h₁) h₂) h₃

/-- A world with the cache directory `c1`, whose index holds the key `k0` in slot 0 with both its
netlists, and an external backend stand-in installed. -/
def oneEntryWorld : World :=
  { disk := ((((Disk.empty "/w").withPrograms [("/opt/ext/expropt_fake", "backend-standin")]).withFiles
      [("c1/expr.index", "k0 0 0 0 0 0 0 0 0 0 0 0 0 0 0 0 0\n")]).withFiles [("c1/0.v", "")]).withFiles
      [("c1/0pre.v", "")],
    streams := { log := .journal } }

/-- A synthesizer whose backend is the external stand-in. -/
def standInSynth : Pipeline.Synthesizer Backend :=
  { backend := .external "fake" "/opt/ext/expropt_fake", ops := Backend.ops }

/-- Opening that cache, getting the block of one signal, a miss, and closing leave a handle with
the entry of the index in slot 0 and the new entry in slot 1, in good order. -/
theorem missed_handle_coherent : ∃ c : Cache, Reachable c ∧ c.slots.map (·.1) = [0, 1] ∧
    ((∀ id slot, (id, slot) ∈ c.ids ↔ ∃ e, (slot, e) ∈ c.slots ∧ e.id = id) ∧
      (c.ids.map (·.1)).Nodup ∧ (c.slots.map (·.1)).Nodup ∧
      (∀ slot e, (slot, e) ∈ c.slots → e.slot = slot ∧ e.result.id = e.id ∧
        e.result.mappedFile = Path.join [c.dir, mappedName slot] ∧
        e.result.preMapFile = Path.join [c.dir, preMapName slot]) ∧
      (c.entries.map (·.slot)).Pairwise (· < ·) ∧ c.entries.Perm (c.slots.map (·.2)) ∧
      ∀ w e c' w', reload.run' (c, w) = .ok (.error e, (c', w')) → c' = c) := by
  have hrun : (afterGetClose "c1" (some standInSynth) (Block.signalBlock "a") oneEntryWorld).map
      (fun c => c.slots.map (·.1)) = some [0, 1] := by
    decide +kernel
  rcases h : afterGetClose "c1" (some standInSynth) (Block.signalBlock "a") oneEntryWorld with _ | c <;>
    rw [h] at hrun
  · cases hrun
  have hsynth : ∀ s, some standInSynth = some s → KeepsNetlists "c1" s := by
    rintro s ⟨⟩
    exact keepsNetlists_of_installed rfl fun _ h => by cases h
  have hreach := Reachable.of_afterGetClose hsynth h
  exact ⟨c, hreach, Option.some.inj hrun, reachable_snapshot_coherent hreach⟩

end Cache

end BitSynth
