import Mathlib
import BitSynth.Proofs.Triple

namespace BitSynth

namespace Disk

theorem foldl_ok_iff {ε α : Type} (g : Except ε Unit → α → Except ε Unit) (P : α → Prop)
    (herr : ∀ e a, g (.error e) a = .error e) (hok : ∀ a, g (.ok ()) a = .ok () ↔ P a) :
    ∀ (as : List α) (acc : Except ε Unit), as.foldl g acc = .ok () ↔ acc = .ok () ∧ ∀ a ∈ as, P a
  | [], acc => by simp
  | a :: as, acc => by
    rw [List.foldl_cons, foldl_ok_iff g P herr hok as, List.forall_mem_cons]
    rcases acc with e | ⟨⟩
    · simp [herr]
    · simp [hok]

theorem foldl_ok_iff_of_eq {ε α : Type} {g : Except ε Unit → α → Except ε Unit} {as : List α}
    {acc r : Except ε Unit} (h : as.foldl g acc = r) (P : α → Prop)
    (herr : ∀ e a, g (.error e) a = .error e) (hok : ∀ a, g (.ok ()) a = .ok () ↔ P a) :
    r = .ok () ↔ acc = .ok () ∧ ∀ a ∈ as, P a :=
  h ▸ foldl_ok_iff g P herr hok as acc

/-- A lookup succeeds when the path is well formed and every proper ancestor is a directory; it
then finds the node at the path, if any. -/
theorem lookup_eq_ok_iff {d : Disk} {p : String} {r : Option Item} :
    d.lookup p = .ok r ↔ p.isEmpty = false ∧ p.toList.contains '\x00' = false ∧
      (∀ a ∈ ancestors (d.absolute p), d.node? a = some .dir) ∧ r = d.node? (d.absolute p) := by
  unfold lookup
  split_ifs with hp hz
  · simp [hp]
  · have hz' : '\x00' ∈ p.toList := by simpa using hz
    simp [hz']
  · simp only [Bool.not_eq_true] at hp hz
    simp only [hp, hz, true_and]
    -- the walk over the ancestors stops at the first one that is not a directory
    split
    · rename_i e he
      have key := foldl_ok_iff_of_eq he (fun a => d.node? a = some .dir) (fun _ _ => rfl)
        (fun a => by dsimp only; split <;> simp_all)
      constructor
      · intro h
        cases h
      · rintro ⟨hanc, -⟩
        cases key.mpr ⟨rfl, hanc⟩
    · rename_i he
      have key := foldl_ok_iff_of_eq he (fun a => d.node? a = some .dir) (fun _ _ => rfl)
        (fun a => by dsimp only; split <;> simp_all)
      have hanc := (key.mp rfl).2
      constructor
      · intro h
        cases h
        exact ⟨hanc, rfl⟩
      · rintro ⟨-, rfl⟩
        rfl

theorem present_iff {d : Disk} {p : String} : d.present p = true ↔ ∃ n, d.lookup p = .ok (some n) := by
  unfold present
  split <;> simp_all

theorem present_iff_stat {d : Disk} (op : String) {p : String} :
    d.present p = true ↔ ∃ n, d.stat op p = .ok n := by
  rw [present_iff]
  unfold stat
  rcases d.lookup p with f | _ | n <;> simp

theorem present_of_read {d : Disk} {p t : String} (h : d.read p = .ok t) : d.present p = true := by
  refine present_iff.mpr ?_
  unfold read at h
  rcases hs : d.stat "open" p with e | n <;> rw [hs] at h
  · cases h
  · unfold stat at hs
    rcases hl : d.lookup p with f | _ | m <;> rw [hl] at hs
    · cases hs
    · cases hs
    · exact ⟨m, rfl⟩

theorem node?_put (d : Disk) (abs a : String) (n : Item) :
    (d.put abs n).node? a = if a == "/" then some .dir else if a = abs then some n else d.node? a := by
  unfold node?
  cases hroot : a == "/"
  · simp only [Bool.false_eq_true, ↓reduceIte]
    unfold put
    split
    · -- a node at the path is replaced where it stands; the keys stay as they were
      rename_i hany
      have hcomp : ((fun (e : String × Item) => e.1 == a) ∘ fun e => if e.1 == abs then (abs, n) else e) =
          fun e => e.1 == a := by
        funext e
        by_cases he : e.1 == abs <;> simp_all
      simp only [List.find?_map, hcomp]
      rcases hf : d.nodes.find? (fun e => e.1 == a) with _ | e
      · have ha : a ≠ abs := by
          rintro rfl
          obtain ⟨e, he, hea⟩ := List.any_eq_true.mp hany
          exact absurd hf (List.find?_isSome.mpr ⟨e, he, hea⟩ |> Option.isSome_iff_ne_none.mp)
        simp [hf, ha]
      · have hkey : e.1 = a := by simpa using List.find?_some hf
        by_cases ha : a = abs
        · subst ha
          rw [hf]
          simp [hkey]
        · simp [hf, hkey, ha]
    · -- a new node is added after all the others
      rename_i hany
      rw [List.find?_append]
      by_cases ha : a = abs
      · subst ha
        have hnone : d.nodes.find? (fun e => e.1 == a) = none := by
          rw [List.find?_eq_none]
          intro e he hea
          exact hany (List.any_eq_true.mpr ⟨e, he, hea⟩)
        simp [hnone]
      · rcases hf : d.nodes.find? (fun e => e.1 == a) with _ | e
        · simp [hf, Ne.symm ha, ha]
        · simp [hf, ha]
  · rfl

@[simp] theorem put_cwd (d : Disk) (abs : String) (n : Item) : (d.put abs n).cwd = d.cwd := by
  unfold put
  split <;> rfl

@[simp] theorem absolute_put (d : Disk) (abs p : String) (n : Item) :
    (d.put abs n).absolute p = d.absolute p := by
  simp [absolute]

/-- Two file systems agree, what is something else and what is missing. -/
def SameShape (d d' : Disk) : Prop :=
  d'.cwd = d.cwd ∧ ∀ a, (d'.node? a).map Item.isDir = (d.node? a).map Item.isDir

theorem node?_eq_dir_iff {d : Disk} {a : String} : d.node? a = some .dir ↔ (d.node? a).map Item.isDir = some true := by
  rcases d.node? a with _ | ⟨_ | _ | _⟩ <;> simp [Item.isDir]

theorem SameShape.present {d d' : Disk} (h : SameShape d d') (p : String) : d'.present p = d.present p := by
  have habs : d'.absolute p = d.absolute p := by simp [absolute, h.1]
  have hdir : ∀ a, d'.node? a = some .dir ↔ d.node? a = some .dir := fun a => by
    rw [node?_eq_dir_iff, node?_eq_dir_iff, h.2 a]
  have hsome : (d'.node? (d.absolute p)).isSome = (d.node? (d.absolute p)).isSome := by
    have := congrArg Option.isSome (h.2 (d.absolute p))
    simpa using this
  rw [Bool.eq_iff_iff, present_iff, present_iff]
  simp only [lookup_eq_ok_iff, habs]
  constructor
  · rintro ⟨n, hp, hz, hanc, hn⟩
    obtain ⟨m, hm⟩ := Option.isSome_iff_exists.mp (hsome ▸ (by simp [← hn] : (d'.node? (d.absolute p)).isSome = true))
    exact ⟨m, hp, hz, fun a ha => (hdir a).mp (hanc a ha), hm.symm⟩
  · rintro ⟨n, hp, hz, hanc, hn⟩
    obtain ⟨m, hm⟩ := Option.isSome_iff_exists.mp (hsome.symm ▸ (by simp [← hn] : (d.node? (d.absolute p)).isSome = true))
    exact ⟨m, hp, hz, fun a ha => (hdir a).mpr (hanc a ha), hm.symm⟩

/-- Replacing something other than a directory by a file keeps the shape. -/
theorem sameShape_put_file {d : Disk} {abs : String} {old : Item} (hold : d.node? abs = some old)
    (hnd : old.isDir = false) (t : String) : SameShape d (d.put abs (.file t)) := by
  refine ⟨put_cwd _ _ _, fun a => ?_⟩
  rw [node?_put]
  cases hroot : a == "/"
  · simp only [Bool.false_eq_true, ↓reduceIte]
    by_cases ha : a = abs
    · subst ha
      simp only [↓reduceIte, hold, Option.map_some, hnd, Option.some.injEq]
      rfl
    · simp [ha]
  · simp [node?, hroot]

theorem openWrite_eq_ok {d : Disk} {p : String} {create : Bool} {old : String}
    (h : d.openWrite p create = .ok old) :
    ∃ r, d.lookup p = .ok r ∧ (r.map Item.isDir ≠ some true) ∧
      (d.read p = .ok old ∨ r = none ∧ old = "") := by
  unfold openWrite at h
  split at h
  · cases h
  · rename_i hl
    refine ⟨none, hl, by simp, .inr ⟨rfl, ?_⟩⟩
    split at h <;> cases h
    rfl
  · cases h
  · rename_i data hl
    cases h
    refine ⟨_, hl, by simp [Item.isDir], .inl ?_⟩
    simp [read, stat, hl]
  · rename_i tool hl
    cases h
    refine ⟨_, hl, by simp [Item.isDir], .inl ?_⟩
    simp [read, stat, hl]

/-- A file written at a path that a lookup reaches can be read back. -/
theorem read_put_file {d : Disk} {p : String} {r : Option Item} (hl : d.lookup p = .ok r)
    (hr : r.map Item.isDir ≠ some true) (t : String) : (d.put (d.absolute p) (.file t)).read p = .ok t := by
  obtain ⟨hp, hz, hanc, rfl⟩ := lookup_eq_ok_iff.mp hl
  have habs : (d.put (d.absolute p) (.file t)).absolute p = d.absolute p := absolute_put _ _ _ _
  have hroot : (d.absolute p == "/") = false := by
    cases h : d.absolute p == "/"
    · rfl
    · exfalso
      apply hr
      simp [node?, h, Item.isDir]
  have hl' : (d.put (d.absolute p) (.file t)).lookup p = .ok (some (.file t)) := by
    refine lookup_eq_ok_iff.mpr ⟨hp, hz, fun a ha => ?_, ?_⟩
    · rw [habs] at ha
      rw [node?_put]
      have hne : a ≠ d.absolute p := by
        rintro rfl
        apply hr
        simp [hanc _ ha, Item.isDir]
      simp [hne, hanc a ha]
    · rw [habs, node?_put]
      simp [hroot]
  simp [read, stat, hl']

theorem append_eq_ok {d d' : Disk} {p data : String} {create : Bool}
    (h : d.append p data create = .ok d') :
    ∃ old r, d.lookup p = .ok r ∧ r.map Item.isDir ≠ some true ∧ (d.read p = .ok old ∨ r = none ∧ old = "") ∧
      d' = d.put (d.absolute p) (.file (old ++ data)) := by
  unfold append at h
  rcases ho : d.openWrite p create with e | old <;> rw [ho] at h
  · cases h
  · cases h
    obtain ⟨r, hl, hr, hold⟩ := openWrite_eq_ok ho
    exact ⟨old, r, hl, hr, hold, rfl⟩

/-- Appending to a file that exists keeps every path present or missing as it was. -/
theorem present_append {d d' : Disk} {p data : String} {create : Bool}
    (h : d.append p data create = .ok d') (hp : d.present p = true) (q : String) :
    d'.present q = d.present q := by
  obtain ⟨old, r, hl, hr, -, rfl⟩ := append_eq_ok h
  obtain ⟨n, hn⟩ := present_iff.mp hp
  rw [hl] at hn
  cases hn
  have hnode : d.node? (d.absolute p) = some n := ((lookup_eq_ok_iff.mp hl).2.2.2).symm
  have hnd : n.isDir = false := by
    cases hd : n.isDir
    · rfl
    · exact absurd (by simp [hd]) hr
  exact (sameShape_put_file hnode hnd _).present q

/-- Appending to a file that reads as a text makes it read as that text followed by what was
appended. -/
theorem read_append {d d' : Disk} {p data t : String} {create : Bool}
    (h : d.append p data create = .ok d') (ht : d.read p = .ok t) : d'.read p = .ok (t ++ data) := by
  obtain ⟨old, r, hl, hr, hold, rfl⟩ := append_eq_ok h
  have hold : old = t := by
    rcases hold with hold | ⟨rfl, -⟩
    · exact Except.ok.inj (hold.symm.trans ht)
    · have := present_of_read ht
      rw [present_iff] at this
      obtain ⟨n, hn⟩ := this
      rw [hl] at hn
      cases hn
  subst hold
  exact read_put_file hl hr _

theorem read_touch {d d' : Disk} {p : String} (h : d.touch p = .ok d') :
    ∃ t, d'.read p = .ok t ∧ (d.read p = .ok t ∨ t = "") := by
  obtain ⟨old, r, hl, hr, hold, rfl⟩ := append_eq_ok h
  refine ⟨old, by simpa using read_put_file hl hr old, ?_⟩
  rcases hold with hold | ⟨-, rfl⟩
  · exact .inl hold
  · exact .inr rfl

end Disk

/-- The log of the running process is not a file, so logging never touches the disk. -/
def World.LogsAside (w : World) : Prop := ∀ p, w.streams.log ≠ .file p

theorem World.LogsAside.of_streams {w w' : World} (hlog : w.LogsAside) (h : w'.streams = w.streams) :
    w'.LogsAside := fun p => h ▸ hlog p

theorem World.write_log_disk {w : World} (h : w.LogsAside) (text : String) :
    (w.write w.streams.log text).disk = w.disk ∧ (w.write w.streams.log text).streams = w.streams := by
  unfold World.write
  split
  · exact ⟨rfl, rfl⟩
  · exact ⟨rfl, rfl⟩
  · exact ⟨rfl, rfl⟩
  · exact ⟨rfl, rfl⟩
  · exact ⟨rfl, rfl⟩
  · rename_i p hp
    exact absurd hp (h p)

open Stateful

/-- Logging, by a run whose log is not a file, leaves the disk and the streams as they were. -/
theorem logLine_post (level : Level) (message : String) {w : World} (h : w.LogsAside) :
    Post (logLine level message) w fun r w' => r = .ok () ∧ w'.disk = w.disk ∧ w'.streams = w.streams := by
  intro r w' hr
  unfold logLine at hr
  rw [run'_get_bind] at hr
  dsimp only at hr
  split_ifs at hr
  · simp only [emit, run'_modify] at hr
    cases hr
    exact ⟨rfl, World.write_log_disk h _⟩
  · cases hr
    exact ⟨rfl, rfl, rfl⟩

theorem readFile_post (p : String) (w : World) :
    Post (readFile p) w fun r w' => w' = w ∧ ∀ t, r = .ok t → w.disk.read p = .ok t := by
  intro r w' hr
  unfold readFile Act.disk at hr
  rw [run'_get_bind] at hr
  rcases hd : w.disk.read p with e | t <;> simp only [hd, Except.map] at hr
  · cases hr
    exact ⟨rfl, fun _ h => by cases h⟩
  · cases hr
    exact ⟨rfl, fun _ h => by cases h; rfl⟩

/-- A file operation whose refusal is kept as a value: on success the world takes the new disk. -/
theorem tryDisk_post {γ : Type} (f : Disk → Except IoError (γ × Disk)) (w : World) :
    Post (Act.tryDisk f) w fun r w' =>
      (∃ a d, f w.disk = .ok (a, d) ∧ r = .ok (.ok a) ∧ w' = { w with disk := d }) ∨
        (∃ e, f w.disk = .error e ∧ r = .ok (.error e) ∧ w' = w) := by
  intro r w' hr
  unfold Act.tryDisk at hr
  rw [run'_get_bind] at hr
  rcases hf : f w.disk with e | ⟨a, d⟩ <;> simp only [hf] at hr
  · cases hr
    exact .inr ⟨e, rfl, rfl, rfl⟩
  · cases hr
    exact .inl ⟨a, d, rfl, rfl, rfl⟩

end BitSynth
