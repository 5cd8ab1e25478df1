import BitSynth.Proofs.Canonical
import BitSynth.Proofs.Validation
import BitSynth.Cache.Key

namespace BitSynth

theorem Guarded.ofChecked_ok {α : Type} (v : α) : Guarded.ofChecked (.ok v) = pure v := rfl

theorem Guarded.pure_inj {α : Type} {v w : α} (h : (pure v : Guarded α) = pure w) : v = w := by
  have h' : (Except.ok (Except.ok v) : Except Fault (Except Error α)) = .ok (.ok w) :=
    congrArg ExceptT.run h
  injection h' with h''
  injection h''

theorem List.foldlM_eq_pure {m : Type → Type} [Monad m] [LawfulMonad m] {α β : Type}
    {f : β → α → m β} {g : β → α → β} :
    ∀ (xs : List α) (init : β), (∀ b, ∀ x ∈ xs, f b x = pure (g b x)) →
      xs.foldlM f init = pure (xs.foldl g init)
  | [], _, _ => rfl
  | x :: xs, init, h => by
    rw [List.foldlM_cons, h init x (by simp), pure_bind, List.foldl_cons]
    exact List.foldlM_eq_pure xs _ fun b y hy => h b y (by simp [hy])

namespace Term

theorem shapedList_iff {α : Type} {ps : List (Term α)} : ShapedList ps ↔ ∀ p ∈ ps, p.Shaped := by
  induction ps with
  | nil => simp [ShapedList]
  | cons p ps ih => simp [ShapedList, ih]

end Term

/-- The width part of a key: `_w` for each width. -/
def widthText (ws : List Int) : String := String.join (ws.map fun w => "_" ++ toString w)

theorem stops_widthText (ws : List Int) : Decode.Stops (widthText ws).toList := by
  cases ws with
  | nil => exact Decode.stops_nil
  | cons w ws =>
    simp only [widthText, List.map_cons, String.join_cons, String.toList_append, String.reduceToList,
      List.cons_append, List.nil_append]
    exact Decode.stops_cons (by decide) (by decide)

theorem widthText_inj : ∀ {ws ws' : List Int}, (widthText ws).toList = (widthText ws').toList → ws = ws'
  | [], [], _ => rfl
  | [], w :: ws, h | w :: ws, [], h => by
    simp [widthText, String.join_cons] at h
  | w :: ws, w' :: ws', h => by
    simp only [widthText, List.map_cons, String.join_cons, String.toList_append, String.reduceToList,
      List.cons_append, List.nil_append, List.cons.injEq, true_and] at h
    have h' : (toString w).toList ++ (widthText ws).toList =
        (toString w').toList ++ (widthText ws').toList := h
    have hr := Decode.readInt_toString w (stops_widthText ws)
    rw [h', Decode.readInt_toString w' (stops_widthText ws'), Option.some.injEq,
      Prod.mk.injEq] at hr
    obtain ⟨rfl, hrest⟩ := hr
    rw [widthText_inj hrest.symm]

namespace Arena

variable {a : Arena}

/-- Below a root whose conversions take widths that are not negative, the unfolded tree is shaped. -/
theorem Unfolds.shaped {id : NodeId} {t : Term NodeId} (h : a.Unfolds id t) :
    (∀ y n, a.Below id y → a.node? y = some n → n.kind = .toInt → 0 ≤ n.width) → t.Shaped := by
  induction h with
  | var | int | bool | bitField => intro; trivial
  | @unary id x n tx hn hk ha _ ih =>
    intro hw
    exact ⟨hk, ih fun y m hb => hw y m (Below.head hn (by simp [ha]) hb)⟩
  | @binary id l r n tl tr hn hk ha _ _ ihl ihr =>
    intro hw
    exact ⟨hk, ihl fun y m hb => hw y m (Below.head hn (by simp [ha]) hb),
      ihr fun y m hb => hw y m (Below.head hn (by simp [ha]) hb)⟩
  | @query id c t e n tc tt te hn hk ha _ _ _ ihc iht ihe =>
    intro hw
    exact ⟨ihc fun y m hb => hw y m (Below.head hn (by simp [ha]) hb),
      iht fun y m hb => hw y m (Below.head hn (by simp [ha]) hb),
      ihe fun y m hb => hw y m (Below.head hn (by simp [ha]) hb)⟩
  | @concat id n ts hn hk hne hlen hs ih =>
    intro hw
    refine ⟨hne, Term.shapedList_iff.mpr fun p hp => ?_⟩
    obtain ⟨x, hxp⟩ := List.exists_mem_zip_left (show n.args.toList.length = ts.length by simp [hlen]) hp
    exact ih _ hxp fun y m hb => hw y m (Below.head hn (by simpa using (List.of_mem_zip hxp).1) hb)
  | @toBool id x n tx hn hk ha _ ih =>
    intro hw
    exact ih fun y m hb => hw y m (Below.head hn (by simp [ha]) hb)
  | @toInt id x n tx hn hk ha _ ih =>
    intro hw
    exact ⟨hw id n .root hn hk, ih fun y m hb => hw y m (Below.head hn (by simp [ha]) hb)⟩

theorem Unfolds.canonical_eq (hacyc : a.Acyclic) {root : NodeId} {t : Term NodeId}
    (h : a.Unfolds root t) : a.canonical root = .ok t.canonical.text := by
  rw [canonical, h.signalNames_eq hacyc, except_ok_bind]
  rw [h.writeWithin_eq _ (a.size + 1) (by have := h.depth_le_size hacyc; omega)]
  simp only [List.idxOf_toArray]
  rfl

/-- One step of the width list of a key: a name seen before adds nothing, a new one adds its
width. -/
def widthStep (W : String → Int) (name : NodeId → String) (acc : Array String × Array Int)
    (id : NodeId) : Array String × Array Int :=
  if acc.1.contains (name id) then acc else (acc.1.push (name id), acc.2.push (W (name id)))

theorem foldl_widthStep (W : String → Int) (name : NodeId → String) :
    ∀ (ids : List NodeId) (acc : Array String × Array Int), acc.2.toList = acc.1.toList.map W →
      (ids.foldl (widthStep W name) acc).1.toList = dedupInto acc.1.toList (ids.map name) ∧
      (ids.foldl (widthStep W name) acc).2.toList = (ids.foldl (widthStep W name) acc).1.toList.map W
  | [], acc, h => ⟨rfl, h⟩
  | y :: ids, acc, h => by
    rw [List.foldl_cons, List.map_cons, dedupInto_cons]
    by_cases hy : name y ∈ acc.1
    · have hc : acc.1.contains (name y) = Bool.true := Array.contains_iff_mem.mpr hy
      simp only [widthStep, hc, if_true, if_pos (Array.mem_def.mp hy)]
      exact foldl_widthStep W name ids acc h
    · have hc : acc.1.contains (name y) = Bool.false := by simpa [Array.contains_iff_mem] using hy
      simp only [widthStep, hc, Bool.false_eq_true, if_false, if_neg (mt Array.mem_def.mpr hy)]
      have := foldl_widthStep W name ids (acc.1.push (name y), acc.2.push (W (name y)))
        (by simp [h])
      simpa using this

/-- The widths of a key: the width of each distinct signal name, in order of first occurrence,
when every signal is bound to its own name and the width `W` gives that name. -/
theorem Unfolds.signalWidths_eq (hacyc : a.Acyclic) {root : NodeId} {t : Term NodeId}
    {m : LeafMap} {W : String → Int} (h : a.Unfolds root t)
    (hbound : ∀ id n, a.Below root id → a.node? id = some n → n.kind = .var ∨ n.kind = .bitField →
      m.find? id = some ⟨n.name, W n.name⟩) :
    a.signalWidths root m = pure (t.names.map W).toArray := by
  rw [signalWidths, h.signals_eq_dedup hacyc, Guarded.ofChecked_ok, pure_bind, ← Array.foldlM_toList,
    List.toList_toArray]
  rw [List.foldlM_eq_pure _ _ fun acc y hy => ?step]
  case step =>
    obtain ⟨hb, n, hn, hk⟩ := h.mem_signals (mem_dedupInto.mp hy |>.resolve_left (by simp))
    have hname : a.nameOf y = n.name := by simp [nameOf, hn]
    show _ = pure (widthStep W a.nameOf acc y)
    simp only [hbound y n hb hn hk, widthStep, hname]
    split <;> rfl
  obtain ⟨h₁, h₂⟩ := foldl_widthStep W a.nameOf (dedupInto [] (t.signals.map Prod.fst)) (#[], #[]) rfl
  rw [pure_bind]
  show pure (List.foldl (widthStep W a.nameOf) (#[], #[]) (dedupInto [] (t.signals.map Prod.fst))).2 = _
  congr 1
  rw [← Array.toList_inj, h₂, h₁]
  simp [Term.names, dedupInto_map_dedupInto, h.map_nameOf_signals]

end Arena

namespace Block

/-- The hypotheses under which keys identify blocks: the graph is acyclic and regular below the root,
conversions below the root take widths that are not negative, and every signal and bit-field below
the root is bound to a leaf of its own name, whose width `W` gives by name. -/
structure BoundBy (x : Block) (W : String → Int) : Prop where
  acyclic : x.arena.Acyclic
  regular : x.arena.RegularBelow x.root
  toInt_width : ∀ id n, x.arena.Below x.root id → x.arena.node? id = some n → n.kind = .toInt →
    0 ≤ n.width
  bound : ∀ id n, x.arena.Below x.root id → x.arena.node? id = some n →
    n.kind = .var ∨ n.kind = .bitField → x.leaves.find? id = some ⟨n.name, W n.name⟩

theorem key_eq {x : Block} {W : String → Int} {t : Term NodeId} (hx : x.BoundBy W)
    (ht : x.arena.Unfolds x.root t) :
    x.key = pure (t.canonical.text ++ widthText (t.names.map W ++ [x.width])) := by
  rw [key, ht.signalWidths_eq hx.acyclic hx.bound, pure_bind, ht.canonical_eq hx.acyclic,
    Guarded.ofChecked_ok, pure_bind]
  simp [widthText, String.join_append, String.append_assoc]

/-- Keys of bound blocks with unfolded trees `t₁` and `t₂` agree exactly when the trees agree up to
node numbering and an injective renaming of signals, each signal keeps its width under the renaming,
and the output widths agree. -/
theorem key_eq_iff_of_unfolds {x₁ x₂ : Block} {W₁ W₂ : String → Int} {t₁ t₂ : Term NodeId}
    (hx₁ : x₁.BoundBy W₁) (hx₂ : x₂.BoundBy W₂) (ht₁ : x₁.arena.Unfolds x₁.root t₁)
    (ht₂ : x₂.arena.Unfolds x₂.root t₂) :
    x₁.key = x₂.key ↔
      ∃ f : String → String, (∀ s ∈ t₁.signalNames, ∀ s' ∈ t₁.signalNames, f s = f s' → s = s') ∧
        (t₁.rename f).erase = t₂.erase ∧ (∀ s ∈ t₁.signalNames, W₁ s = W₂ (f s)) ∧
        x₁.width = x₂.width := by
  rw [key_eq hx₁ ht₁, key_eq hx₂ ht₂]
  constructor
  · intro h
    -- read the key back: first the canonical text, then the widths
    have htext := congrArg String.toList (Guarded.pure_inj h)
    simp only [String.toList_append] at htext
    obtain ⟨hcan, hsuf⟩ := Decode.erase_eq_of_text_append (ht₁.shaped hx₁.toInt_width)
      (ht₂.shaped hx₂.toInt_width) (stops_widthText _) (stops_widthText _) htext
    obtain ⟨hmap, hw⟩ := List.append_inj' (widthText_inj hsuf) rfl
    obtain ⟨f, hinj, herase, hf⟩ := Term.exists_rename_of_canonical hcan
    refine ⟨f, hinj, herase, fun s hs => ?_, by simpa using hw⟩
    obtain ⟨hlt, hfs⟩ := hf s hs
    have hi₁ := List.idxOf_lt_length_of_mem (Term.mem_names.mpr hs)
    have hs' := congrArg (fun l => l[t₁.names.idxOf s]?) hmap
    simp only [List.getElem?_map, List.getElem?_eq_getElem hi₁, List.getElem?_eq_getElem hlt,
      List.getElem_idxOf, Option.map_some, Option.some.injEq] at hs'
    rw [hs', hfs, List.getD_eq_getElem _ _ hlt]
  · rintro ⟨f, hinj, herase, hW, hw⟩
    -- the second tree is the first renamed, so its names and canonical form follow
    have hnames : t₂.names = t₁.names.map f := by
      rw [← Term.names_map (fun _ => ()) t₂, ← Term.erase, ← herase, Term.erase, Term.names_map,
        Term.names_rename hinj]
    have hcan : t₂.canonical.text = t₁.canonical.text := by
      rw [← Term.text_map (fun _ => ()) t₂.canonical, ← Term.erase, Term.erase_canonical, ← herase,
        ← Term.erase_canonical, Term.canonical_rename hinj, Term.erase, Term.text_map]
    have hwidths : t₁.names.map W₁ = t₁.names.map (W₂ ∘ f) :=
      List.map_congr_left fun s hs => hW s (Term.mem_names.mp hs)
    rw [hcan, hnames, hw, List.map_map, hwidths]

/-- Keys identify blocks: the graphs of two bound blocks unfold to trees, and the blocks share a key
exactly when the trees agree up to node numbering and an injective renaming of signals, each signal
keeps its width under the renaming, and the output widths agree. -/
theorem key_eq_iff {x₁ x₂ : Block} {W₁ W₂ : String → Int} (hx₁ : x₁.BoundBy W₁)
    (hx₂ : x₂.BoundBy W₂) :
    ∃ t₁ t₂, x₁.arena.Unfolds x₁.root t₁ ∧ x₂.arena.Unfolds x₂.root t₂ ∧
      (x₁.key = x₂.key ↔
        ∃ f : String → String, (∀ s ∈ t₁.signalNames, ∀ s' ∈ t₁.signalNames, f s = f s' → s = s') ∧
          (t₁.rename f).erase = t₂.erase ∧ (∀ s ∈ t₁.signalNames, W₁ s = W₂ (f s)) ∧
          x₁.width = x₂.width) := by
  obtain ⟨t₁, ht₁⟩ := Arena.unfolds_of_regular hx₁.acyclic hx₁.regular
  obtain ⟨t₂, ht₂⟩ := Arena.unfolds_of_regular hx₂.acyclic hx₂.regular
  exact ⟨t₁, t₂, ht₁, ht₂, key_eq_iff_of_unfolds hx₁ hx₂ ht₁ ht₂⟩

/-- A block made of one signal of width four, read at width four. -/
def signalBlock (name : String) : Block :=
  { arena := ⟨#[{ kind := .var, name }]⟩, root := 0, leaves := ⟨[(0, ⟨name, 4⟩)]⟩, width := 4 }

theorem signalBlock_node? {name : String} {id : NodeId} {n : Node} :
    (signalBlock name).arena.node? id = some n ↔ id = 0 ∧ n = { kind := .var, name } := by
  simp only [signalBlock, Arena.node?]
  constructor
  · intro hn
    split at hn
    · rename_i h
      obtain ⟨hi, hget⟩ := Array.getElem?_eq_some_iff.mp hn
      have hi0 : id.toNat = 0 := by simpa using hi
      have hid : id = 0 := by rw [← Int.toNat_of_nonneg h, hi0]; rfl
      subst hid
      exact ⟨rfl, hget.symm⟩
    · cases hn
  · rintro ⟨rfl, rfl⟩
    rfl

theorem signalBlock_boundBy (name : String) : (signalBlock name).BoundBy fun _ => 4 where
  acyclic := ⟨fun _ => 0, fun id n hn => by
    obtain ⟨rfl, rfl⟩ := signalBlock_node?.mp hn
    exact ⟨Nat.zero_lt_one, by simp⟩⟩
  regular id hb := by
    have hid : id = 0 := by
      rcases Arena.Below.cases_head (signalBlock_node?.mpr ⟨rfl, rfl⟩) hb with h | ⟨x, hx, -⟩
      · exact h
      · simp at hx
    subst hid
    exact ⟨_, signalBlock_node?.mpr ⟨rfl, rfl⟩, by simp [Node.Regular, Kind.known, Kind.operands, Kind.isLeaf]⟩
  toInt_width id n _ hn hk := by
    obtain ⟨rfl, rfl⟩ := signalBlock_node?.mp hn
    cases hk
  bound id n _ hn _ := by
    obtain ⟨rfl, rfl⟩ := signalBlock_node?.mp hn
    rfl

/-- A block whose nodes are all regular and numbered after their operands, with a root among them,
each signal bound to a leaf of its name at the width `W` gives it, and no negative `toInt` width,
is bound by `W`. The conditions read the node array one entry at a time. -/
theorem boundBy_of_forall {x : Block} {W : String → Int} (hroot : ∃ n, x.arena.node? x.root = some n)
    (hargs : ∀ i : Fin x.arena.nodes.size, ∀ y ∈ x.arena.nodes[i].args.toList, 0 ≤ y ∧ y < i)
    (hreg : ∀ i : Fin x.arena.nodes.size, x.arena.nodes[i].Regular)
    (hint : ∀ i : Fin x.arena.nodes.size, x.arena.nodes[i].kind = .toInt → 0 ≤ x.arena.nodes[i].width)
    (hleaf : ∀ i : Fin x.arena.nodes.size, x.arena.nodes[i].kind = .var ∨ x.arena.nodes[i].kind = .bitField →
      (x.leaves.find? i).map (fun l => (l.name, l.width)) =
        some (x.arena.nodes[i].name, W x.arena.nodes[i].name)) :
    x.BoundBy W where
  acyclic := Arena.acyclic_of_args_lt hargs
  regular id hb := by
    obtain ⟨n, hn⟩ := Arena.Below.exists_node_of_args_lt hargs hroot hb
    obtain ⟨i, -, rfl⟩ := Arena.node?_eq_some.mp hn
    exact ⟨_, hn, hreg i⟩
  toInt_width id n _ hn hk := by
    obtain ⟨i, -, rfl⟩ := Arena.node?_eq_some.mp hn
    exact hint i hk
  bound id n _ hn hk := by
    obtain ⟨i, rfl, rfl⟩ := Arena.node?_eq_some.mp hn
    obtain ⟨l, hl, hnw⟩ := Option.map_eq_some_iff.mp (hleaf i hk)
    obtain ⟨hname, hwidth⟩ := Prod.mk.inj hnw
    obtain ⟨ln, lw⟩ := l
    dsimp only at hname hwidth
    rw [hl, hname, hwidth]

/-- `(a + b) & (a + b)` over four-bit signals, its sum one shared node. With `swap` the signals are
`c` and `d` and the operands of the sum are numbered the other way round. -/
def sharedSum (swap : Bool) : Block :=
  if swap then
    { arena := ⟨#[{ kind := .var, name := "d" }, { kind := .var, name := "c" },
        { kind := .add, args := #[1, 0] }, { kind := .and, args := #[2, 2] }]⟩,
      root := 3, leaves := ⟨[(0, ⟨"d", 4⟩), (1, ⟨"c", 4⟩)]⟩, width := 5 }
  else
    { arena := ⟨#[{ kind := .var, name := "a" }, { kind := .var, name := "b" },
        { kind := .add, args := #[0, 1] }, { kind := .and, args := #[2, 2] }]⟩,
      root := 3, leaves := ⟨[(0, ⟨"a", 4⟩), (1, ⟨"b", 4⟩)]⟩, width := 5 }

theorem sharedSum_boundBy (swap : Bool) : (sharedSum swap).BoundBy fun _ => 4 := by
  cases swap <;>
    exact boundBy_of_forall ⟨_, rfl⟩ (by decide) (by decide) (by decide) (by decide)

/-- The shared sum over `a` and `b` and its renaming to `c` and `d`, numbered otherwise, meet the
hypotheses of `key_eq_iff`. -/
theorem key_eq_iff_sharedSum :
    (sharedSum false).BoundBy (fun _ => 4) ∧ (sharedSum true).BoundBy (fun _ => 4) ∧
      ∃ t₁ t₂, (sharedSum false).arena.Unfolds (sharedSum false).root t₁ ∧
        (sharedSum true).arena.Unfolds (sharedSum true).root t₂ ∧
        ((sharedSum false).key = (sharedSum true).key ↔
          ∃ f : String → String, (∀ s ∈ t₁.signalNames, ∀ s' ∈ t₁.signalNames, f s = f s' → s = s') ∧
            (t₁.rename f).erase = t₂.erase ∧
            (∀ s ∈ t₁.signalNames, (fun _ => (4 : Int)) s = (fun _ => (4 : Int)) (f s)) ∧
            (sharedSum false).width = (sharedSum true).width) :=
  ⟨sharedSum_boundBy false, sharedSum_boundBy true,
    key_eq_iff (sharedSum_boundBy false) (sharedSum_boundBy true)⟩

end Block

end BitSynth
