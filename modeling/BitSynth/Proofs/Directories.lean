import Mathlib
import BitSynth.Proofs.Environment
import BitSynth.Proofs.Files
import BitSynth.Translate.Translator

namespace BitSynth

namespace Disk

/-- A path names a directory. -/
def HasDir (d : Disk) (p : String) : Prop := d.lookup p = .ok (some .dir)

/-- `d'` has a directory at no path where `d` has none. -/
def NoNewDirs (d d' : Disk) : Prop := ∀ p, d'.HasDir p → d.HasDir p

/-- `d'` has something at no path where `d` has nothing. -/
def NoNewPaths (d d' : Disk) : Prop := ∀ p, d'.present p = true → d.present p = true

theorem NoNewDirs.refl (d : Disk) : NoNewDirs d d := fun _ h => h

theorem NoNewDirs.trans {d₁ d₂ d₃ : Disk} (h₁ : NoNewDirs d₁ d₂) (h₂ : NoNewDirs d₂ d₃) :
    NoNewDirs d₁ d₃ := fun p h => h₁ p (h₂ p h)

theorem NoNewPaths.refl (d : Disk) : NoNewPaths d d := fun _ h => h

theorem NoNewPaths.trans {d₁ d₂ d₃ : Disk} (h₁ : NoNewPaths d₁ d₂) (h₂ : NoNewPaths d₂ d₃) :
    NoNewPaths d₁ d₃ := fun p h => h₁ p (h₂ p h)

theorem lookup_of_stat {d : Disk} {op p : String} {n : Item} (h : d.stat op p = .ok n) :
    d.lookup p = .ok (some n) := by
  unfold stat at h
  rcases hl : d.lookup p with f | _ | m <;> rw [hl] at h <;> cases h
  rfl

theorem node?_of_stat {d : Disk} {op p : String} {n : Item} (h : d.stat op p = .ok n) :
    d.node? (d.absolute p) = some n :=
  ((lookup_eq_ok_iff.mp (lookup_of_stat h)).2.2.2).symm

section Nodes

variable {d d' : Disk}

theorem noNewDirs_of_node? (hcwd : d'.cwd = d.cwd)
    (h : ∀ a, d'.node? a = some .dir → d.node? a = some .dir) : NoNewDirs d d' := by
  intro p hp
  have habs : d'.absolute p = d.absolute p := by simp [absolute, hcwd]
  obtain ⟨hpe, hz, hanc, hn⟩ := lookup_eq_ok_iff.mp hp
  rw [habs] at hanc hn
  exact lookup_eq_ok_iff.mpr ⟨hpe, hz, fun a ha => h a (hanc a ha), (h _ hn.symm).symm⟩

theorem noNewPaths_of_node? (hcwd : d'.cwd = d.cwd)
    (h : ∀ a n, d'.node? a = some n → d.node? a = some n) : NoNewPaths d d' := by
  intro p hp
  have habs : d'.absolute p = d.absolute p := by simp [absolute, hcwd]
  obtain ⟨n, hl⟩ := present_iff.mp hp
  obtain ⟨hpe, hz, hanc, hn⟩ := lookup_eq_ok_iff.mp hl
  rw [habs] at hanc hn
  exact present_iff.mpr
    ⟨n, lookup_eq_ok_iff.mpr ⟨hpe, hz, fun a ha => h a _ (hanc a ha), (h _ _ hn.symm).symm⟩⟩

theorem SameShape.noNewDirs (h : SameShape d d') : NoNewDirs d d' :=
  noNewDirs_of_node? h.1 fun a ha => node?_eq_dir_iff.mpr (h.2 a ▸ node?_eq_dir_iff.mp ha)

theorem SameShape.noNewPaths (h : SameShape d d') : NoNewPaths d d' :=
  fun p hp => (h.present p) ▸ hp

theorem SameShape.refl (d : Disk) : SameShape d d := ⟨rfl, fun _ => rfl⟩

end Nodes

theorem noNewDirs_put_file (d : Disk) (abs t : String) : NoNewDirs d (d.put abs (.file t)) := by
  refine noNewDirs_of_node? (put_cwd _ _ _) fun a ha => ?_
  rw [node?_put] at ha
  split_ifs at ha with hroot
  · simp [node?, hroot]
  · cases ha
  · exact ha

theorem noNewDirs_write {d d' : Disk} {p data : String} (h : d.write p data = .ok d') :
    NoNewDirs d d' := by
  unfold write at h
  rcases ho : d.openWrite p true with e | old <;> rw [ho] at h <;> cases h
  exact noNewDirs_put_file _ _ _

theorem noNewDirs_append {d d' : Disk} {p data : String} {create : Bool}
    (h : d.append p data create = .ok d') : NoNewDirs d d' := by
  obtain ⟨old, r, -, -, -, rfl⟩ := append_eq_ok h
  exact noNewDirs_put_file _ _ _

theorem sameShape_append {d d' : Disk} {p data : String} {create : Bool}
    (h : d.append p data create = .ok d') (hp : d.present p = true) : SameShape d d' := by
  obtain ⟨old, r, hl, hr, -, rfl⟩ := append_eq_ok h
  obtain ⟨n, hn⟩ := present_iff.mp hp
  rw [hl] at hn
  cases hn
  have hnode : d.node? (d.absolute p) = some n := ((lookup_eq_ok_iff.mp hl).2.2.2).symm
  have hnd : n.isDir = false := by
    cases hd : n.isDir
    · rfl
    · exact absurd (by simp [hd]) hr
  exact sameShape_put_file hnode hnd _

/-- Dropping the node at an absolute path changes that node and no other; the root stays. -/
theorem node?_filter (d : Disk) (abs a : String) :
    ({ d with nodes := d.nodes.filter (·.1 != abs) } : Disk).node? a =
      if a == "/" then some .dir else if a = abs then none else d.node? a := by
  unfold node?
  cases hroot : a == "/"
  · simp only [Bool.false_eq_true, ↓reduceIte, List.find?_filter]
    by_cases ha : a = abs
    · subst ha
      simp
    · rw [if_neg ha]
      congr 2
      funext e
      by_cases he : e.1 = a
      · simp [he, ha]
      · simp [he]
  · rfl

theorem remove_eq_ok {d d' : Disk} {p : String} (h : d.remove p = .ok d') :
    d' = { d with nodes := d.nodes.filter (·.1 != d.absolute p) } := by
  unfold remove at h
  split at h
  · cases h
  · dsimp only at h
    split_ifs at h
    cases h
    rfl

theorem noNewPaths_remove {d d' : Disk} {p : String} (h : d.remove p = .ok d') :
    NoNewPaths d d' ∧ NoNewDirs d d' := by
  obtain rfl := remove_eq_ok h
  have hnodes : ∀ a n, ({ d with nodes := d.nodes.filter (·.1 != d.absolute p) } : Disk).node? a = some n →
      d.node? a = some n := by
    intro a n ha
    rw [node?_filter] at ha
    split_ifs at ha with hroot
    · simp [node?, hroot, ← ha]
    · exact ha
  exact ⟨noNewPaths_of_node? rfl hnodes, noNewDirs_of_node? rfl fun a => hnodes a .dir⟩

/-- A removal that succeeds leaves nothing at the path, unless the path was a directory. -/
theorem present_remove {d d' : Disk} {p : String} (hp : ¬ d.HasDir p) (h : d.remove p = .ok d') :
    d'.present p = false := by
  obtain ⟨n, hs⟩ : ∃ n, d.stat "remove" p = .ok n := by
    unfold remove at h
    rcases hs : d.stat "remove" p with e | n <;> rw [hs] at h
    · cases h
    · exact ⟨n, rfl⟩
  obtain rfl := remove_eq_ok h
  -- the node removed is the one the lookup found; it was no directory, so it was not the root
  have hroot : (d.absolute p == "/") = false := by
    cases hr : d.absolute p == "/"
    · rfl
    · have hn := node?_of_stat hs
      simp only [node?, hr, ↓reduceIte, Option.some.injEq] at hn
      subst hn
      exact absurd (lookup_of_stat hs) hp
  cases hpr : Disk.present _ p
  · rfl
  · obtain ⟨m, hl⟩ := present_iff.mp hpr
    have hm := (lookup_eq_ok_iff.mp hl).2.2.2
    change some m = Disk.node? _ (d.absolute p) at hm
    rw [node?_filter, hroot] at hm
    simp at hm


theorem not_hasDir_of_present {d : Disk} {p : String} (h : d.present p = false) : ¬ d.HasDir p :=
  fun hd => by simp [present, show d.lookup p = .ok (some .dir) from hd] at h

theorem NoNewDirs.not_hasDir {d d' : Disk} (h : NoNewDirs d d') {p : String} (hp : ¬ d.HasDir p) :
    ¬ d'.HasDir p := fun hd => hp (h p hd)

/-- A file put at a path that a lookup reaches is found there. -/
theorem lookup_put_file {d : Disk} {p : String} {r : Option Item} (hl : d.lookup p = .ok r)
    (hr : r.map Item.isDir ≠ some true) (t : String) :
    (d.put (d.absolute p) (.file t)).lookup p = .ok (some (.file t)) := by
  obtain ⟨hp, hz, hanc, rfl⟩ := lookup_eq_ok_iff.mp hl
  have habs : (d.put (d.absolute p) (.file t)).absolute p = d.absolute p := absolute_put _ _ _ _
  have hroot : (d.absolute p == "/") = false := by
    cases h : d.absolute p == "/"
    · rfl
    · exact absurd (by simp [node?, h, Item.isDir]) hr
  refine lookup_eq_ok_iff.mpr ⟨hp, hz, fun a ha => ?_, ?_⟩
  · rw [habs] at ha
    rw [node?_put]
    have hne : a ≠ d.absolute p := by
      rintro rfl
      exact hr (by simp [hanc _ ha, Item.isDir])
    simp [hne, hanc a ha]
  · rw [habs, node?_put]
    simp [hroot]

/-- `d'` has the working directory of `d` and its node at every absolute path but `abs`. -/
def Agree (abs : String) (d d' : Disk) : Prop := d'.cwd = d.cwd ∧ ∀ a, a ≠ abs → d'.node? a = d.node? a

theorem Agree.refl (abs : String) (d : Disk) : Agree abs d d := ⟨rfl, fun _ _ => rfl⟩

theorem Agree.trans {abs : String} {d₁ d₂ d₃ : Disk} (h₁ : Agree abs d₁ d₂) (h₂ : Agree abs d₂ d₃) :
    Agree abs d₁ d₃ := ⟨h₂.1.trans h₁.1, fun a ha => (h₂.2 a ha).trans (h₁.2 a ha)⟩

theorem agree_put (d : Disk) (abs : String) (n : Item) : Agree abs d (d.put abs n) := by
  refine ⟨put_cwd _ _ _, fun a ha => ?_⟩
  rw [node?_put]
  split_ifs with hroot
  · simp [node?, hroot]
  · rfl

theorem Agree.remove_file {d d' : Disk} {p t : String} (h : Agree (d.absolute p) d d')
    (hl : d'.lookup p = .ok (some (.file t))) : ∃ d'', d'.remove p = .ok d'' ∧ NoNewPaths d d'' := by
  have habs : d'.absolute p = d.absolute p := by simp [absolute, h.1]
  have hs : d'.stat "remove" p = .ok (.file t) := by simp [stat, hl]
  refine ⟨{ d' with nodes := d'.nodes.filter (·.1 != d'.absolute p) }, by simp [remove, hs, Item.isDir],
    noNewPaths_of_node? h.1 fun a n ha => ?_⟩
  rw [node?_filter] at ha
  split_ifs at ha with hroot hp
  · simp [node?, hroot, ← ha]
  · exact (h.2 a (habs ▸ hp)) ▸ ha

/-- A refused removal of a path that is not a directory finds nothing there. -/
theorem present_of_remove_error {d : Disk} {p : String} {e : IoError} (hp : ¬ d.HasDir p)
    (h : d.remove p = .error e) : d.present p = false := by
  unfold remove at h
  rcases hs : d.stat "remove" p with e' | n <;> rw [hs] at h
  · cases hpr : d.present p
    · rfl
    · obtain ⟨m, hm⟩ := (present_iff_stat "remove").mp hpr
      rw [hs] at hm
      cases hm
  · -- only a directory with something inside refuses removal
    dsimp only at h
    split_ifs at h with hfull
    cases n with
    | dir => exact absurd (lookup_of_stat hs) hp
    | file _ => simp [Item.isDir] at hfull
    | program _ => simp [Item.isDir] at hfull

end Disk

/-- Writing to a sink keeps the shape of the file system: it appends to a file that exists, or
writes no file at all. -/
theorem World.sameShape_write (w : World) (s : Sink) (text : String) :
    Disk.SameShape w.disk (w.write s text).disk := by
  unfold World.write
  split
  · exact Disk.SameShape.refl _
  · exact Disk.SameShape.refl _
  · exact Disk.SameShape.refl _
  · exact Disk.SameShape.refl _
  · exact Disk.SameShape.refl _
  · split_ifs with hp
    · split
      · rename_i d hd
        exact Disk.sameShape_append hd hp
      · exact Disk.SameShape.refl _
    · exact Disk.SameShape.refl _

/-- A step of the world that leaves the environment alone and makes no directory. -/
def World.Tidy (w w' : World) : Prop := w'.env = w.env ∧ Disk.NoNewDirs w.disk w'.disk

theorem World.Tidy.refl (w : World) : World.Tidy w w := ⟨rfl, Disk.NoNewDirs.refl _⟩

theorem World.Tidy.trans {w₁ w₂ w₃ : World} (h₁ : World.Tidy w₁ w₂) (h₂ : World.Tidy w₂ w₃) :
    World.Tidy w₁ w₃ := ⟨h₂.1.trans h₁.1, h₁.2.trans h₂.2⟩

theorem World.tidy_write (w : World) (s : Sink) (text : String) : World.Tidy w (w.write s text) :=
  ⟨World.write_env w s text, (World.sameShape_write w s text).noNewDirs⟩

open Stateful in
/-- Logging writes into a file that exists or into no file: the shape of the file system stays. -/
theorem logLine_shape (level : Level) (message : String) (w : World) :
    Post (logLine level message) w fun r w' =>
      r = .ok () ∧ w'.env = w.env ∧ Disk.SameShape w.disk w'.disk := by
  intro r w' hr
  unfold logLine at hr
  rw [run'_get_bind] at hr
  dsimp only at hr
  split_ifs at hr
  · simp only [emit, run'_modify] at hr
    cases hr
    exact ⟨rfl, World.write_env _ _ _, World.sameShape_write _ _ _⟩
  · cases hr
    exact ⟨rfl, rfl, Disk.SameShape.refl _⟩

open Stateful

/-- A relation between worlds that the steps of the host keep: a preorder that holds across writing
or appending a file, writing to a sink, and setting the streams or the pipe. -/
structure World.Frame (R : World → World → Prop) : Prop where
  refl : ∀ w, R w w
  trans : ∀ {w₁ w₂ w₃ : World}, R w₁ w₂ → R w₂ w₃ → R w₁ w₃
  write : ∀ w {p data : String} {d : Disk}, w.disk.write p data = .ok d → R w { w with disk := d }
  append : ∀ w {p data : String} {create : Bool} {d : Disk}, w.disk.append p data create = .ok d →
    R w { w with disk := d }
  sink : ∀ w s text, R w (w.write s text)
  streams : ∀ w s, R w { w with streams := s }
  pipe : ∀ w text, R w { w with pipe := text }

theorem World.frame_tidy : World.Frame World.Tidy where
  refl := World.Tidy.refl
  trans h₁ h₂ := h₁.trans h₂
  write _ _ _ _ h := ⟨rfl, Disk.noNewDirs_write h⟩
  append _ _ _ _ _ h := ⟨rfl, Disk.noNewDirs_append h⟩
  sink := World.tidy_write
  streams _ _ := ⟨rfl, Disk.NoNewDirs.refl _⟩
  pipe _ _ := ⟨rfl, Disk.NoNewDirs.refl _⟩

/-- Every run of `y` that ends without a defect is a step of `R`. -/
def Act.Steps {α : Type} (R : World → World → Prop) (y : Act α) : Prop :=
  ∀ w, Post y w fun _ w' => R w w'

theorem Act.Steps.attempt {α : Type} {R : World → World → Prop} {y : Act α} (h : Act.Steps R y) :
    Act.Steps R (Act.attempt y) := by
  intro w r w' hr
  rw [run'_attempt] at hr
  rcases hy : y.run' w with _ | ⟨r', w''⟩ <;> rw [hy] at hr <;> cases hr
  exact h w _ _ hy

theorem run'_fileOrEmpty_empty (w : World) : (fileOrEmpty "").run' w = .ok (.ok "", w) := rfl

namespace World.Frame

open Act

variable {α β : Type} {R : World → World → Prop}

theorem pure (hR : Frame R) (v : α) : Steps R (Pure.pure v : Act α) :=
  fun w => Post.pure v (hR.refl w)

theorem throw (hR : Frame R) (e : Error) : Steps R (MonadExcept.throw e : Act α) :=
  fun w => Post.throw e (hR.refl w)

theorem bind (hR : Frame R) {y : Act α} {f : α → Act β} (hy : Steps R y) (hf : ∀ v, Steps R (f v)) :
    Steps R (y >>= f) := fun w =>
  Post.bind (hy w) (fun v _ h₁ => (hf v _).conseq fun _ _ h₂ => hR.trans h₁ h₂) fun _ _ h => h

/-- A first step that always gives `v` and leaves the world as it is. -/
theorem bind_of_run {y : Act α} {f : α → Act β} {v : α} (hy : ∀ w, y.run' w = .ok (.ok v, w))
    (hf : Steps R (f v)) : Steps R (y >>= f) := by
  intro w r w' hr
  rw [run'_bind, hy w] at hr
  exact hf w r w' hr

theorem get_bind {f : World → Act α} (h : ∀ w, Steps R (f w)) : Steps R (get >>= f) :=
  fun w => Post.get_bind (h w w)

theorem modify {g : World → World} (hg : ∀ w, R w (g w)) : Steps R (modify g) := by
  intro w r w' hr
  simp only [run'_modify] at hr
  cases hr
  exact hg w

theorem read (hR : Frame R) (f : World → α) : Steps R (Act.read f) :=
  get_bind fun _ => hR.pure _

/-- A file operation that is a step of `R` is one whether its refusal is an error or a value. -/
theorem disk (hR : Frame R) {f : Disk → Except IoError (α × Disk)}
    (hf : ∀ w a d, f w.disk = .ok (a, d) → R w { w with disk := d }) : Steps R (Act.disk f) := by
  intro w r w' hr
  unfold Act.disk at hr
  rw [run'_get_bind] at hr
  rcases hd : f w.disk with e | ⟨a, d⟩ <;> simp only [hd] at hr <;> cases hr
  · exact hR.refl w
  · exact hf _ _ _ hd

theorem tryDisk (hR : Frame R) {f : Disk → Except IoError (α × Disk)}
    (hf : ∀ w a d, f w.disk = .ok (a, d) → R w { w with disk := d }) : Steps R (Act.tryDisk f) := by
  intro w r w' hr
  rcases tryDisk_post f w r w' hr with ⟨a, d, hd, -, rfl⟩ | ⟨e, -, -, rfl⟩
  · exact hf _ _ _ hd
  · exact hR.refl _

theorem tryDisk_write (hR : Frame R) (p data : String) :
    Steps R (Act.tryDisk fun d => (d.write p data).map ((), ·)) :=
  hR.tryDisk fun w _ d h => by
    rcases hw : w.disk.write p data with e | d'' <;> rw [hw] at h <;> cases h
    exact hR.write w hw

theorem writeFile (hR : Frame R) (p data : String) : Steps R (BitSynth.writeFile p data) :=
  hR.disk fun w _ d h => by
    rcases hw : w.disk.write p data with e | d'' <;> rw [hw] at h <;> cases h
    exact hR.write w hw

theorem appendFile (hR : Frame R) (p data : String) (create : Bool) :
    Steps R (BitSynth.appendFile p data create) :=
  hR.disk fun w _ d h => by
    rcases hw : w.disk.append p data create with e | d'' <;> rw [hw] at h <;> cases h
    exact hR.append w hw

theorem readFile (hR : Frame R) (p : String) : Steps R (BitSynth.readFile p) :=
  fun w r w' hr => (readFile_post p w r w' hr).1 ▸ hR.refl w

theorem statPath (hR : Frame R) (p : String) : Steps R (BitSynth.statPath p) :=
  hR.disk fun w _ d h => by
    rcases hs : w.disk.stat "stat" p with e | n <;> rw [hs] at h <;> cases h
    exact hR.refl w

theorem emit (hR : Frame R) (s : Sink) (text : String) : Steps R (BitSynth.emit s text) :=
  modify fun w => hR.sink w s text

theorem logLine (hR : Frame R) (level : Level) (message : String) :
    Steps R (BitSynth.logLine level message) := by
  unfold BitSynth.logLine
  refine get_bind fun w => ?_
  dsimp only
  split_ifs
  · exact hR.emit _ _
  · exact hR.pure _

theorem logStep (hR : Frame R) (command : String) : Steps R (BitSynth.logStep command) :=
  hR.logLine _ _

theorem withStreams (hR : Frame R) {y : Act α} (s : Streams) (h : Steps R y) :
    Steps R (Act.withStreams s y) := by
  unfold Act.withStreams
  refine get_bind fun w => ?_
  refine hR.bind (modify fun w => hR.streams w _) fun _ => ?_
  refine hR.bind h.attempt fun r => ?_
  refine hR.bind (modify fun w => hR.streams w _) fun _ => ?_
  rcases r with e | a
  · exact hR.throw e
  · exact hR.pure a

theorem printOut (hR : Frame R) (text : String) : Steps R (BitSynth.printOut text) :=
  get_bind fun _ => hR.emit _ _

theorem printErr (hR : Frame R) (text : String) : Steps R (BitSynth.printErr text) :=
  get_bind fun _ => hR.emit _ _

theorem hasFile (hR : Frame R) (p : String) : Steps R (BitSynth.hasFile p) := hR.read _

theorem fileOrEmpty (hR : Frame R) (p : String) : Steps R (BitSynth.fileOrEmpty p) := by
  unfold BitSynth.fileOrEmpty
  refine hR.bind (hR.readFile p).attempt fun r => ?_
  split <;> exact hR.pure _

/-- Without the option `-f` the optimiser stand-in reads the empty script: it names no netlist,
so nothing is written or removed. -/
theorem runOptimiserStandin (hR : Frame R) {args : List String} (h : "-f" ∉ args) :
    Steps R (BitSynth.runOptimiserStandin args) := by
  have hdrop : args.dropWhile (· != "-f") = [] :=
    List.dropWhile_eq_nil_iff.mpr fun x hx => by
      have hne : x ≠ "-f" := fun hx' => h (hx' ▸ hx)
      simpa using hne
  have hscan : Text.scanLines "" = [] := by decide
  unfold BitSynth.runOptimiserStandin
  rw [hdrop]
  refine hR.bind (hR.printOut _) fun _ => bind_of_run run'_fileOrEmpty_empty ?_
  simp only [hscan, List.filterMap_nil, List.getLast?_nil]
  repeat' first
    | with_reducible exact hR.pure _
    | with_reducible exact hR.hasFile _
    | with_reducible exact hR.printOut _
    | with_reducible exact hR.fileOrEmpty _
    | with_reducible refine hR.bind ?_ fun _ => ?_
    | split

/-- The backend stand-in records its calls, copies the source to the netlist and prints
metrics: it only writes. -/
theorem runBackendStandin (hR : Frame R) (args : List String) :
    Steps R (BitSynth.runBackendStandin args) := by
  unfold BitSynth.runBackendStandin
  dsimp only
  repeat' first
    | with_reducible exact hR.pure _
    | with_reducible exact hR.hasFile _
    | with_reducible exact hR.printOut _
    | with_reducible exact hR.printErr _
    | with_reducible exact hR.fileOrEmpty _
    | with_reducible exact (hR.appendFile _ _ _).attempt
    | with_reducible exact (hR.writeFile _ _).attempt
    | with_reducible refine hR.bind ?_ fun _ => ?_
    | split

theorem runProgram (hR : Frame R) (tool : String) {args : List String}
    (hopt : Steps R (BitSynth.runOptimiserStandin args)) : Steps R (BitSynth.runProgram tool args) := by
  unfold BitSynth.runProgram
  split
  · exact hR.bind (hR.printOut _) fun _ => hR.pure _
  · exact hR.pure _
  · exact hR.pure _
  · exact hopt
  · exact hR.runBackendStandin args
  · exact hR.bind (hR.printErr _) fun _ => hR.pure _

theorem lookPath (hR : Frame R) (name : String) : Steps R (BitSynth.lookPath name) := by
  unfold BitSynth.lookPath searchPath BitSynth.getEnv
  refine hR.bind (hR.bind (hR.read _) fun _ => hR.pure _) fun dirs => get_bind fun w => ?_
  dsimp only
  split <;> exact hR.pure _

/-- A program run is a step of every frame in which the optimiser stand-in's run with the same
arguments is one. -/
theorem exec (hR : Frame R) (name : String) {args : List String}
    (hopt : Steps R (BitSynth.runOptimiserStandin args)) (out err : Sink) :
    Steps R (BitSynth.exec name args out err) := by
  unfold BitSynth.exec
  dsimp only
  split_ifs <;> refine hR.bind ?_ fun path => ?_
  all_goals first
    | exact hR.lookPath name
    | exact hR.pure _
    | split
      · exact hR.pure _
      · refine get_bind fun w => ?_
        split
        · exact hR.bind (hR.withStreams _ (hR.runProgram _ hopt)) fun _ => hR.pure _
        all_goals exact hR.pure _

end World.Frame

namespace Act

open Stateful

variable {α : Type}

/-- Every run of `y` that ends without a defect is a tidy step. -/
def Tidy (y : Act α) : Prop := ∀ w, Post y w fun _ w' => World.Tidy w w'

theorem tidy_removePath (p : String) : Steps World.Tidy (removePath p) :=
  World.frame_tidy.disk fun w _ d h => by
    rcases hw : w.disk.remove p with e | d'' <;> rw [hw] at h <;> cases h
    exact ⟨rfl, (Disk.noNewPaths_remove hw).2⟩

/-- The optimiser stand-in is tidy, whatever its script: it only prints, reads, writes files and
removes files. Its branches share their endings, so the proof walks its steps rather than its
cases. -/
theorem tidy_runOptimiserStandin (args : List String) :
    Steps World.Tidy (runOptimiserStandin args) := by
  have hR := World.frame_tidy
  unfold runOptimiserStandin
  dsimp only
  repeat' first
    | with_reducible exact hR.pure _
    | with_reducible exact hR.hasFile _
    | with_reducible exact hR.printOut _
    | with_reducible exact hR.fileOrEmpty _
    | with_reducible exact (hR.writeFile _ _).attempt
    | with_reducible exact (tidy_removePath _).attempt
    | with_reducible refine hR.bind ?_ fun _ => ?_
    | split

end Act

/-- The translator is tidy: it opens its output, then runs its program into it. -/
theorem Translate.Translator.tidy_append (t : Translate.Translator) (netlist : String) :
    Act.Tidy (t.append netlist) := by
  have hR := World.frame_tidy
  show Act.Steps World.Tidy _
  unfold Translate.Translator.append
  have hopen : Act.Steps World.Tidy (Act.disk fun d => (d.touch t.output).map ((), ·)) :=
    hR.disk fun w _ d h => by
      rcases ht : w.disk.touch t.output with e | d'' <;> rw [ht] at h <;> cases h
      exact ⟨rfl, Disk.noNewDirs_append ht⟩
  refine hR.bind hopen.attempt fun r => ?_
  dsimp only
  split <;> [refine hR.bind (hR.throw _) fun _ => ?_; skip]
  all_goals
    refine hR.bind (hR.logLine _ _) fun _ => World.Frame.get_bind fun w =>
      hR.bind (hR.exec _ (Act.tidy_runOptimiserStandin _) _ _) fun code => ?_
    split
    · exact hR.throw _
    · exact hR.pure _
    · exact hR.throw _

end BitSynth
