import Mathlib
import BitSynth.Proofs.Lockstep
import BitSynth.Proofs.Emission
import BitSynth.Cache.Store

namespace BitSynth

theorem List.forIn_eq_pure_foldl {m : Type → Type} [Monad m] [LawfulMonad m] {α β : Type}
    {f : α → β → m (ForInStep β)} {g : β → α → β} :
    ∀ (xs : List α) (init : β), (∀ b, ∀ x ∈ xs, f x b = pure (.yield (g b x))) →
      forIn xs init f = pure (xs.foldl g init)
  | [], _, _ => rfl
  | x :: xs, init, h => by
    rw [List.forIn_cons, h init x (by simp), pure_bind, List.foldl_cons]
    exact List.forIn_eq_pure_foldl xs _ fun b y hy => h b y (by simp [hy])

/-- Two loops whose bodies read their elements only through a view, over lists that look alike
through it, are one loop. -/
theorem List.forIn_congr_of_map {m : Type → Type} [Monad m] {α₁ α₂ γ β : Type} {g₁ : α₁ → γ}
    {g₂ : α₂ → γ} :
    ∀ {xs : List α₁} {ys : List α₂}, xs.map g₁ = ys.map g₂ →
      ∀ (f₁ : α₁ → β → m (ForInStep β)) (f₂ : α₂ → β → m (ForInStep β)),
        (∀ x y, g₁ x = g₂ y → f₁ x = f₂ y) → ∀ init, forIn xs init f₁ = forIn ys init f₂
  | [], [], _, _, _, _, _ => rfl
  | x :: xs, y :: ys, h, f₁, f₂, hf, init => by
    simp only [List.map_cons, List.cons.injEq] at h
    rw [List.forIn_cons, List.forIn_cons, hf x y h.1]
    congr 1
    funext s
    cases s with
    | done b => rfl
    | yield b => exact List.forIn_congr_of_map h.2 f₁ f₂ hf b

theorem dedupInto_of_nodup {α : Type} [DecidableEq α] :
    ∀ (acc xs : List α), (acc ++ xs).Nodup → dedupInto acc xs = acc ++ xs
  | _, [], _ => by simp
  | acc, x :: xs, h => by
    have hx : x ∉ acc := fun hx => (List.nodup_append.mp h).2.2 x hx x (by simp) rfl
    rw [dedupInto_cons, if_neg hx, dedupInto_of_nodup (acc ++ [x]) xs (by simpa using h)]
    simp

namespace Term

variable {α β : Type}

mutual
/-- The source name of each leaf, left to right; a constant has none. -/
def leafNames : Term α → List (Option String)
  | var _ s | bitField _ s _ _ => [some s]
  | int .. | bool .. => [none]
  | unary _ _ x | toBool _ x | toInt _ x _ => x.leafNames
  | binary _ _ l r => l.leafNames ++ r.leafNames
  | query _ c t e => c.leafNames ++ t.leafNames ++ e.leafNames
  | concat _ ps => leafNamesList ps
/-- `leafNames` of a list of trees, joined. -/
def leafNamesList : List (Term α) → List (Option String)
  | [] => []
  | t :: ts => t.leafNames ++ leafNamesList ts
end

@[simp] theorem leafNamesList_eq (ps : List (Term α)) : leafNamesList ps = ps.flatMap leafNames := by
  induction ps with
  | nil => rfl
  | cons p ps ih => simp [leafNamesList, ih]

mutual
@[simp] theorem leafNames_map (f : α → β) : (t : Term α) → (t.map f).leafNames = t.leafNames
  | var .. | bitField .. | int .. | bool .. => rfl
  | unary _ _ x => by simp only [map, leafNames, leafNames_map f x]
  | binary _ _ l r => by simp only [map, leafNames, leafNames_map f l, leafNames_map f r]
  | query _ c t e => by
    simp only [map, leafNames, leafNames_map f c, leafNames_map f t, leafNames_map f e]
  | concat _ ps => by simp only [map, leafNames, leafNamesList_mapList f ps]
  | toBool _ x => by simp only [map, leafNames, leafNames_map f x]
  | toInt _ x _ => by simp only [map, leafNames, leafNames_map f x]
theorem leafNamesList_mapList (f : α → β) : (ps : List (Term α)) →
    leafNamesList (mapList f ps) = leafNamesList ps
  | [] => rfl
  | p :: ps => by simp only [mapList, leafNamesList, leafNames_map f p, leafNamesList_mapList f ps]
end

mutual
@[simp] theorem leafNames_rename (r : String → String) :
    (t : Term α) → (t.rename r).leafNames = t.leafNames.map (Option.map r)
  | var .. | bitField .. | int .. | bool .. => rfl
  | unary _ _ x => by simp only [rename, leafNames, leafNames_rename r x]
  | binary _ _ l r' => by
    simp only [rename, leafNames, leafNames_rename r l, leafNames_rename r r', List.map_append]
  | query _ c t e => by
    simp only [rename, leafNames, leafNames_rename r c, leafNames_rename r t, leafNames_rename r e,
      List.map_append]
  | concat _ ps => by simp only [rename, leafNames, leafNamesList_renameList r ps]
  | toBool _ x => by simp only [rename, leafNames, leafNames_rename r x]
  | toInt _ x _ => by simp only [rename, leafNames, leafNames_rename r x]
theorem leafNamesList_renameList (r : String → String) : (ps : List (Term α)) →
    leafNamesList (renameList r ps) = (leafNamesList ps).map (Option.map r)
  | [] => rfl
  | p :: ps => by
    simp only [renameList, leafNamesList, leafNames_rename r p, leafNamesList_renameList r ps,
      List.map_append]
end

theorem shape_eq_of_erase {t₁ t₂ : Term α} {f : String → String}
    (h : (t₁.rename f).erase = t₂.erase) : t₁.shape = t₂.shape := by
  have h₂ : t₂.shape = t₂.erase.rename fun _ => "" := by rw [shape, erase, erase, map_rename]
  rw [h₂, ← h, erase, ← map_rename, rename_rename]
  rfl

theorem leafNames_of_erase {t₁ t₂ : Term α} {f : String → String}
    (h : (t₁.rename f).erase = t₂.erase) : t₂.leafNames = t₁.leafNames.map (Option.map f) :=
  calc t₂.leafNames = t₂.erase.leafNames := (leafNames_map _ t₂).symm
    _ = (t₁.rename f).erase.leafNames := by rw [h]
    _ = t₁.leafNames.map (Option.map f) := by rw [erase, leafNames_map, leafNames_rename]

theorem names_of_erase {t₁ t₂ : Term α} {f : String → String}
    (hinj : ∀ s ∈ t₁.signalNames, ∀ s' ∈ t₁.signalNames, f s = f s' → s = s')
    (h : (t₁.rename f).erase = t₂.erase) : t₂.names = t₁.names.map f := by
  rw [← names_map (fun _ => ()) t₂, ← erase, ← h, erase, names_map, names_rename hinj]

theorem leafTags_sublist_tags (t : Term α) : t.leafTags.Sublist t.tags := by
  induction hd : t.depth using Nat.strong_induction_on generalizing t with
  | _ d ih =>
    rw [tags_eq]
    cases hl : t.isLeaf with
    | true =>
      rw [leafTags_of_isLeaf hl]
      exact (List.nil_sublist _).cons_cons _
    | false =>
      rw [leafTags_of_not_isLeaf hl]
      exact (List.Sublist.flatMap_right _ fun u hu =>
        ih _ (hd ▸ depth_lt_of_mem_children hu) u rfl).cons _

end Term

namespace Arena

variable {a : Arena}

/-- The name of a node that is a signal or a bit-field. -/
def signalName? (a : Arena) (y : NodeId) : Option String :=
  if a.isSignal y then some (a.nameOf y) else none

/-- The leaves of an unfolded tree name, in order, the signals their nodes are. -/
theorem Unfolds.leafTags_signalName? {id : NodeId} {t : Term NodeId} (h : a.Unfolds id t) :
    t.leafTags.map a.signalName? = t.leafNames := by
  induction h with
  | var hn hk _ => simp [Term.leafTags, Term.leafNames, signalName?, isSignal, nameOf, hn, hk]
  | int hn hk _ => simp [Term.leafTags, Term.leafNames, signalName?, isSignal, hn, hk]
  | @bool _ _ b hn hk _ =>
    cases b <;> simp_all [Term.leafTags, Term.leafNames, signalName?, isSignal]
  | bitField hn hk _ => simp [Term.leafTags, Term.leafNames, signalName?, isSignal, nameOf, hn, hk]
  | unary _ _ _ _ ih | toBool _ _ _ _ ih | toInt _ _ _ _ ih =>
    simpa [Term.leafTags, Term.leafNames] using ih
  | binary _ _ _ _ _ ihl ihr => simp [Term.leafTags, Term.leafNames, ihl, ihr]
  | query _ _ _ _ _ _ ihc iht ihe => simp [Term.leafTags, Term.leafNames, ihc, iht, ihe]
  | @concat _ n ts _ _ _ hlen _ ih =>
    simp only [Term.leafTags, Term.leafNames, Term.leafTagsList_eq, Term.leafNamesList_eq,
      List.map_flatMap]
    refine List.flatMap_congr fun c hc => ?_
    obtain ⟨x, hxc⟩ :=
      List.exists_mem_zip_left (show n.args.toList.length = ts.length by simp [hlen]) hc
    exact ih _ hxc

theorem Unfolds.mem_signalNames_of_leafNames {id : NodeId} {t : Term NodeId} (h : a.Unfolds id t)
    {s : String} (hs : some s ∈ t.leafNames) : s ∈ t.signalNames := by
  rw [← h.leafTags_signalName?] at hs
  obtain ⟨y, hy, hys⟩ := List.mem_map.mp hs
  unfold signalName? at hys
  split_ifs at hys with hsig
  cases hys
  rw [Term.signalNames, h.signals_eq, List.map_map]
  exact List.mem_map_of_mem (List.mem_filter.mpr ⟨hy, hsig⟩)

end Arena

namespace LeafMap

theorem find?_insert (m : LeafMap) (id y : NodeId) (l : Leaf) :
    (m.insert id l).find? y = if id = y then some l else m.find? y := by
  unfold insert find?
  split_ifs with hany hid hid
  · -- the first binding of `id` is replaced in place
    subst hid
    obtain ⟨e, he⟩ :=
      Option.isSome_iff_exists.mp (List.find?_isSome.mpr (List.any_eq_true.mp hany))
    have hkey : ((fun e : NodeId × Leaf => e.1 == id) ∘ fun e => if e.1 == id then (id, l) else e) =
        fun e => e.1 == id := by
      funext e
      by_cases h : e.1 = id <;> simp [h]
    have he₁ : e.1 = id := by simpa using List.find?_some he
    rw [List.find?_map, hkey, he]
    simp [he₁]
  · -- the other bindings keep their place
    have hkey : ((fun e : NodeId × Leaf => e.1 == y) ∘ fun e => if e.1 == id then (id, l) else e) =
        fun e => e.1 == y := by
      funext e
      by_cases h : e.1 = id <;> simp [h]
    rw [List.find?_map, hkey]
    cases he : m.entries.find? (·.1 == y) with
    | none => rfl
    | some e =>
      have he₁ : e.1 = y := by simpa using List.find?_some he
      simp [he₁, Ne.symm hid]
  · subst hid
    have hnone : m.entries.find? (·.1 == id) = none :=
      List.find?_eq_none.mpr fun e he h => hany (List.any_eq_true.mpr ⟨e, he, h⟩)
    simp [List.find?_append, hnone]
  · simp [List.find?_append, hid]

theorem find?_foldl_insert (g : NodeId → Leaf) :
    ∀ (ids : List NodeId) (m : LeafMap) (y : NodeId),
      (ids.foldl (fun m id => m.insert id (g id)) m).find? y =
        if y ∈ ids then some (g y) else m.find? y
  | [], m, y => by simp
  | x :: xs, m, y => by
    rw [List.foldl_cons, find?_foldl_insert g xs, find?_insert]
    by_cases hy : y ∈ xs
    · simp [hy]
    · by_cases hx : x = y
      · simp [hx]
      · simp [hy, hx, Ne.symm hx]

end LeafMap


/-- The value of a successful computation; nothing for an error or a defect. -/
def Guarded.result {α : Type} (x : Guarded α) : Option α :=
  match x.run with
  | .ok (.ok v) => some v
  | _ => none

namespace Guarded

variable {α β : Type}

@[simp] theorem result_pure (v : α) : (pure v : Guarded α).result = some v := rfl

@[simp] theorem result_throw (e : Error) : (throw e : Guarded α).result = none := rfl

theorem result_bind (x : Guarded α) (f : α → Guarded β) :
    (x >>= f).result = x.result.bind fun v => (f v).result := by
  unfold result
  rw [ExceptT.run_bind]
  rcases x.run with _ | _ | v <;> rfl

theorem result_ofChecked_bind (r : Except Fault α) (f : α → Guarded β) :
    (ofChecked r >>= f).result = r.toOption.bind fun v => (f v).result := by
  rcases r with _ | v <;> rfl

end Guarded

namespace Verilog

/-- Runs that mirror each other read alike through any view that sees no failure and sees of the
final state only what `R` relates. -/
theorem Mirrors.toOption_bind {α β : Type} {R : Compiler → Compiler → Prop} {x y : Compiling α}
    {c₁ c₂ : Compiler} (h : Mirrors R Eq x y c₁ c₂) {F : Except Error α × Compiler → Option β}
    (herr : ∀ e d, F (.error e, d) = none) (hok : ∀ v d₁ d₂, R d₁ d₂ → F (.ok v, d₁) = F (.ok v, d₂)) :
    (x.run' c₁).toOption.bind F = (y.run' c₂).toOption.bind F := by
  rcases hx : x.run' c₁ with f₁ | ⟨_ | v₁, d₁⟩ <;> rcases hy : y.run' c₂ with f₂ | ⟨_ | v₂, d₂⟩
  all_goals first
    | rfl
    | simp only [Except.toOption, Option.bind_some, Option.bind_none, herr]
  · -- the second side succeeds, so the first does
    obtain ⟨v, d, hv⟩ := h.2 v₂ d₂ hy
    rw [Runs, hx] at hv
    cases hv
  · obtain ⟨v, d, hv⟩ := h.2 v₂ d₂ hy
    rw [Runs, hx] at hv
    cases hv
  · obtain ⟨w, d, hw, -, -⟩ := h.1 v₁ d₁ hx
    rw [Runs, hy] at hw
    cases hw
  · obtain ⟨w, d, hw, -, -⟩ := h.1 v₁ d₁ hx
    rw [Runs, hy] at hw
    cases hw
  · obtain ⟨w, d, hw, rfl, hR⟩ := h.1 v₁ d₁ hx
    obtain ⟨rfl, rfl⟩ := hw.det hy
    simpa [Except.toOption] using hok v₁ d₁ d hR

/-- Emission depends on the compiled assignments only through their success, their text and the
wires they declare: modules with one name, flag and ports whose assignments compile alike from
fresh compilers with one temporary prefix emit the same text, or both fail. -/
theorem emit_result_congr {a₁ a₂ : Arena} {lm₁ lm₂ : LeafMap} {m₁ m₂ : Module}
    (hname : m₁.name = m₂.name) (hvec : m₁.vectorizeAll = m₂.vectorizeAll)
    (hins : m₁.inputs = m₂.inputs) (houts : m₁.outputs.map (·.port) = m₂.outputs.map (·.port))
    (hhidden : m₁.hidden.map (·.port) = m₂.hidden.map (·.port))
    (hrun : ∀ pre, Mirrors (fun c₁ c₂ => c₁.wires = c₂.wires) Eq
      (do let h ← compileAssigns m₁.hidden; let o ← compileAssigns m₁.outputs; pure (h ++ o))
      (do let h ← compileAssigns m₂.hidden; let o ← compileAssigns m₂.outputs; pure (h ++ o))
      (Compiler.new a₁ lm₁ pre) (Compiler.new a₂ lm₂ pre)) :
    (emit a₁ lm₁ m₁).result = (emit a₂ lm₂ m₂).result := by
  unfold emit
  rw [← hname, ← hvec, ← hins, ← houts, ← hhidden]
  dsimp only
  split_ifs
  · rfl
  rw [Guarded.result_bind, Guarded.result_bind]
  congr 1
  funext u
  split
  · rename_i pre _
    rw [pure_bind, pure_bind, Guarded.result_ofChecked_bind, Guarded.result_ofChecked_bind]
    refine (hrun pre).toOption_bind (fun e d => rfl) fun v d₁ d₂ hw => ?_
    simp [Compiler.body, hw]
  · rfl

/-- A module with no hidden wires and one output compiles alike on two sides whose roots lower
alike. -/
theorem Mirrors.single_assign {p : Port} {r₁ r₂ : NodeId} {c₁ c₂ : Compiler}
    (h : Mirrors (fun d₁ d₂ => d₁.Twins d₂) Eq (Compiler.compile r₁) (Compiler.compile r₂) c₁ c₂) :
    Mirrors (fun d₁ d₂ => d₁.wires = d₂.wires) Eq
      (do let h ← compileAssigns []; let o ← compileAssigns [⟨p, r₁⟩]; Pure.pure (h ++ o))
      (do let h ← compileAssigns []; let o ← compileAssigns [⟨p, r₂⟩]; Pure.pure (h ++ o)) c₁ c₂ := by
  simp only [compileAssigns_eq, List.forIn_nil, List.forIn_cons, assignStep, pure_bind, bind_assoc,
    List.contains_nil, Bool.not_false, if_true]
  refine h.tryCatch_throw.bind fun op op' d₁ d₂ hop hd => ?_
  subst hop
  refine (Compiler.twinned_resize op p.width d₁ d₂ hd).bind fun op₁ op₂ d₁' d₂' hop hd' => ?_
  subst hop
  exact Mirrors.pure rfl hd'.1.wires


theorem inputs_congr {a₁ a₂ : Arena} {lm₁ lm₂ : LeafMap} {r₁ r₂ : NodeId} {ls₁ ls₂ : Array NodeId}
    (h₁ : a₁.leaves r₁ = .ok ls₁) (h₂ : a₂.leaves r₂ = .ok ls₂)
    (h : ls₁.toList.map lm₁.find? = ls₂.toList.map lm₂.find?) :
    inputs a₁ lm₁ [r₁] = inputs a₂ lm₂ [r₂] := by
  unfold inputs
  simp only [List.forIn_cons, List.forIn_nil, h₁, h₂, Guarded.ofChecked_ok, pure_bind]
  rw [← Array.forIn_toList, ← Array.forIn_toList, List.forIn_congr_of_map h]
  intro x y hxy
  simp only [hxy]

namespace Compiler

variable {a₁ a₂ : Arena} {lm₁ lm₂ : LeafMap}

/-- Fresh compilers of two matched trees lower their roots alike. -/
theorem compile_new_lockstep {t₁ t₂ : Term NodeId} (hm : Matched a₁ lm₁ t₁ a₂ lm₂ t₂)
    (hacyc₁ : a₁.Acyclic) (hacyc₂ : a₂.Acyclic) (pre : String) :
    Mirrors (fun d₁ d₂ => d₁.Twins d₂) Eq (compile t₁.tag) (compile t₂.tag)
      (Compiler.new a₁ lm₁ pre) (Compiler.new a₂ lm₂ pre) := by
  have hready : ∀ a lm (t : Term NodeId), Ready a lm t (Compiler.new a lm pre) :=
    fun _ _ _ => ⟨rfl, rfl, fun _ _ => rfl⟩
  have htwins : (Compiler.new a₁ lm₁ pre).Twins (Compiler.new a₂ lm₂ pre) := ⟨rfl, rfl, rfl, rfl⟩
  unfold compile
  exact Mirrors.get_bind ((compileWithin_lockstep _ _ hm
    (Nat.le_succ_of_le (hm.unfolds₁.depth_le_size hacyc₁))
    (Nat.le_succ_of_le (hm.unfolds₂.depth_le_size hacyc₂)) htwins
    (hready a₁ lm₁ t₁) (hready a₂ lm₂ t₂)).mono fun _ _ h => h.1)

end Compiler

end Verilog

namespace Cache

/-- The binding the canonical request gives a signal named `s` of the tree `t`, widths given by
name: the port named by the position of `s` among the names of `t`. -/
def portLeaf (t : Term NodeId) (W : String → Int) (s : String) : Leaf :=
  ⟨"in_" ++ toString (t.names.idxOf s), W s⟩

/-- The bindings of the canonical request of a block whose graph unfolds to `t`: each signal
node, in order of first occurrence, bound to the port of its name. -/
def portLeaves (a : Arena) (t : Term NodeId) (W : String → Int) : LeafMap :=
  (dedupInto [] (t.signals.map Prod.fst)).foldl
    (fun m id => m.insert id (portLeaf t W (a.nameOf id))) {}

variable {x : Block} {W : String → Int} {t : Term NodeId}

/-- The canonical request of a bound block: the block with its signals bound to their ports. -/
theorem canonicalRequest_eq (hx : x.BoundBy W) (ht : x.arena.Unfolds x.root t) (name : String) :
    canonicalRequest name x =
      Pipeline.Request.single name x.arena x.root (portLeaves x.arena t W) x.width := by
  unfold canonicalRequest
  rw [ht.signalNames_eq hx.acyclic, ht.signals_eq_dedup hx.acyclic]
  simp only [Guarded.ofChecked_ok, pure_bind]
  rw [← Array.forIn_toList, List.toList_toArray,
    List.forIn_eq_pure_foldl _ _ fun m id hid => ?step, pure_bind]
  · rfl
  case step =>
    -- each signal is bound by the block, so the turn only inserts its port
    have hid' : id ∈ t.signals.map Prod.fst := by simpa using hid
    obtain ⟨hb, n, hn, hk⟩ := ht.mem_signals hid'
    have hname : x.arena.nameOf id = n.name := by simp [Arena.nameOf, hn]
    have hmem : n.name ∈ t.names := by
      rw [Term.mem_names, ← hname, ← ht.map_nameOf_signals]
      exact List.mem_map_of_mem hid'
    have hidx : (dedupInto [] t.signalNames).findIdx? (· == n.name) = some (t.names.idxOf n.name) :=
      List.findIdx?_eq_some_of_exists ⟨n.name, hmem, by simp⟩
    rw [hx.bound id n hb hn hk]
    dsimp only
    rw [Arena.get_of_node? hn, Guarded.ofChecked_ok, pure_bind, hidx, hname]
    rfl

theorem leafTags_map_find?_portLeaves {a : Arena} {root : NodeId} (ht : a.Unfolds root t) :
    t.leafTags.map (portLeaves a t W).find? = t.leafNames.map (Option.map (portLeaf t W)) := by
  rw [← ht.leafTags_signalName?, List.map_map]
  refine List.map_congr_left fun y hy => ?_
  have hsig : y ∈ dedupInto [] (t.signals.map Prod.fst) ↔ a.isSignal y = true := by
    simp [ht.signals_eq, hy]
  unfold portLeaves
  rw [LeafMap.find?_foldl_insert]
  by_cases hs : a.isSignal y = true
  · simp [hsig.mpr hs, Arena.signalName?, hs]
  · simp [mt hsig.mp hs, Arena.signalName?, hs, LeafMap.find?]

theorem portLeaf_of_erase {t₁ t₂ : Term NodeId} {W₁ W₂ : String → Int} {f : String → String}
    (hinj : ∀ s ∈ t₁.signalNames, ∀ s' ∈ t₁.signalNames, f s = f s' → s = s')
    (h : (t₁.rename f).erase = t₂.erase) (hW : ∀ s ∈ t₁.signalNames, W₁ s = W₂ (f s))
    {s : String} (hs : s ∈ t₁.signalNames) : portLeaf t₂ W₂ (f s) = portLeaf t₁ W₁ s := by
  have hinj' : ∀ s ∈ t₁.names, ∀ s' ∈ t₁.names, f s = f s' → s = s' :=
    fun s hs s' hs' => hinj s (Term.mem_names.mp hs) s' (Term.mem_names.mp hs')
  rw [portLeaf, portLeaf, Term.names_of_erase hinj h,
    List.idxOf_map_of_injOn hinj' (Term.mem_names.mpr hs), hW s hs]

/-- Two trees one up to an injective renaming of signals, widths kept, are matched once their
signals are bound to their ports. -/
theorem matched_portLeaves {a₁ a₂ : Arena} {root₁ root₂ : NodeId} {t₁ t₂ : Term NodeId}
    {W₁ W₂ : String → Int} {f : String → String} (hu₁ : a₁.Unfolds root₁ t₁)
    (hu₂ : a₂.Unfolds root₂ t₂) (hnd₁ : t₁.tags.Nodup) (hnd₂ : t₂.tags.Nodup)
    (hinj : ∀ s ∈ t₁.signalNames, ∀ s' ∈ t₁.signalNames, f s = f s' → s = s')
    (h : (t₁.rename f).erase = t₂.erase) (hW : ∀ s ∈ t₁.signalNames, W₁ s = W₂ (f s)) :
    Verilog.Compiler.Matched a₁ (portLeaves a₁ t₁ W₁) t₁ a₂ (portLeaves a₂ t₂ W₂) t₂ where
  unfolds₁ := by rw [hu₁.tag_eq]; exact hu₁
  unfolds₂ := by rw [hu₂.tag_eq]; exact hu₂
  shape := Term.shape_eq_of_erase h
  leaves := by
    rw [leafTags_map_find?_portLeaves hu₁, leafTags_map_find?_portLeaves hu₂,
      Term.leafNames_of_erase h, List.map_map]
    refine List.map_congr_left fun o ho => ?_
    cases o with
    | none => rfl
    | some s => simp [portLeaf_of_erase hinj h hW (hu₁.mem_signalNames_of_leafNames ho)]
  nodup₁ := hnd₁
  nodup₂ := hnd₂

end Cache

theorem Arena.Unfolds.leaves_of_nodup {a : Arena} {root : NodeId} {t : Term NodeId}
    (hacyc : a.Acyclic) (h : a.Unfolds root t) (hnd : t.tags.Nodup) :
    a.leaves root = .ok t.leafTags.toArray := by
  rw [h.leaves_eq hacyc, dedupInto_of_nodup [] _ (by simpa using hnd.sublist t.leafTags_sublist_tags),
    List.nil_append]

namespace Block

/-- A block is tree-shaped when its graph below the root unfolds to a tree in which no node occurs
twice. -/
def TreeShaped (x : Block) : Prop := ∃ t, x.arena.Unfolds x.root t ∧ t.tags.Nodup

/-- One cached module serves every block of a key: for tree-shaped blocks whose signals are bound
to leaves of their own names, at widths given by name, equal keys give canonical requests that
both fail, or both succeed and emit the same text or both fail to, under any module name. -/
theorem equal_keys_emit_one_module {x₁ x₂ : Block} {W₁ W₂ : String → Int} (hx₁ : x₁.BoundBy W₁)
    (hx₂ : x₂.BoundBy W₂) (ht₁ : x₁.TreeShaped) (ht₂ : x₂.TreeShaped) (hkey : x₁.key = x₂.key)
    (name module : String) (v : Bool) :
    (Cache.canonicalRequest name x₁).result.map (fun r =>
      (Verilog.emit r.arena r.leaves { r.toModule module with vectorizeAll := v }).result) =
    (Cache.canonicalRequest name x₂).result.map (fun r =>
      (Verilog.emit r.arena r.leaves { r.toModule module with vectorizeAll := v }).result) := by
  obtain ⟨t₁, hu₁, hnd₁⟩ := ht₁
  obtain ⟨t₂, hu₂, hnd₂⟩ := ht₂
  obtain ⟨f, hinj, herase, hW, hw⟩ := (key_eq_iff_of_unfolds hx₁ hx₂ hu₁ hu₂).mp hkey
  have hm := Cache.matched_portLeaves hu₁ hu₂ hnd₁ hnd₂ hinj herase hW
  have hins := Verilog.inputs_congr (hu₁.leaves_of_nodup hx₁.acyclic hnd₁)
    (hu₂.leaves_of_nodup hx₂.acyclic hnd₂) (by simpa using hm.leaves)
  rw [Cache.canonicalRequest_eq hx₁ hu₁, Cache.canonicalRequest_eq hx₂ hu₂]
  unfold Pipeline.Request.single
  rw [Guarded.result_bind, Guarded.result_bind, hins]
  generalize (Verilog.inputs x₂.arena (Cache.portLeaves x₂.arena t₂ W₂) [x₂.root]).result = o
  cases o with
  | none => rfl
  | some ins =>
    have hc := Verilog.Compiler.compile_new_lockstep hm hx₁.acyclic hx₂.acyclic
    rw [hu₁.tag_eq, hu₂.tag_eq] at hc
    simp only [Option.bind_some, Guarded.result_pure, Option.map_some, Option.some.injEq]
    refine Verilog.emit_result_congr rfl rfl rfl (by simp [Pipeline.Request.toModule, hw]) rfl
      fun pre => ?_
    simp only [Pipeline.Request.toModule, List.map_cons, List.map_nil, hw]
    exact Verilog.Mirrors.single_assign (hc pre)

/-- `a + (a & b)` over four-bit signals, the signal `a` read by two nodes. With `swap` the signals
are `c` and `d` and the nodes are numbered otherwise. -/
def sharedSignal (swap : Bool) : Block :=
  if swap then
    { arena := ⟨#[{ kind := .var, name := "d" }, { kind := .var, name := "c" },
        { kind := .and, args := #[1, 0] }, { kind := .var, name := "c" }, { kind := .add, args := #[3, 2] }]⟩,
      root := 4, leaves := ⟨[(0, ⟨"d", 4⟩), (1, ⟨"c", 4⟩), (3, ⟨"c", 4⟩)]⟩, width := 5 }
  else
    { arena := ⟨#[{ kind := .var, name := "a" }, { kind := .var, name := "a" },
        { kind := .var, name := "b" }, { kind := .and, args := #[1, 2] }, { kind := .add, args := #[0, 3] }]⟩,
      root := 4, leaves := ⟨[(0, ⟨"a", 4⟩), (1, ⟨"a", 4⟩), (2, ⟨"b", 4⟩)]⟩, width := 5 }

theorem sharedSignal_boundBy (swap : Bool) : (sharedSignal swap).BoundBy fun _ => 4 := by
  cases swap <;>
    exact boundBy_of_forall ⟨_, rfl⟩ (by decide) (by decide) (by decide) (by decide)

theorem sharedSignal_unfolds_false : (sharedSignal false).arena.Unfolds 4
    (.binary 4 .add (.var 0 "a") (.binary 3 .and (.var 1 "a") (.var 2 "b"))) :=
  .binary (n := (sharedSignal false).arena.nodes[4]) rfl ⟨rfl, by decide⟩ rfl
    (.var (n := (sharedSignal false).arena.nodes[0]) rfl rfl rfl)
    (.binary (n := (sharedSignal false).arena.nodes[3]) rfl ⟨rfl, by decide⟩ rfl
      (.var (n := (sharedSignal false).arena.nodes[1]) rfl rfl rfl)
      (.var (n := (sharedSignal false).arena.nodes[2]) rfl rfl rfl))

theorem sharedSignal_unfolds_true : (sharedSignal true).arena.Unfolds 4
    (.binary 4 .add (.var 3 "c") (.binary 2 .and (.var 1 "c") (.var 0 "d"))) :=
  .binary (n := (sharedSignal true).arena.nodes[4]) rfl ⟨rfl, by decide⟩ rfl
    (.var (n := (sharedSignal true).arena.nodes[3]) rfl rfl rfl)
    (.binary (n := (sharedSignal true).arena.nodes[2]) rfl ⟨rfl, by decide⟩ rfl
      (.var (n := (sharedSignal true).arena.nodes[1]) rfl rfl rfl)
      (.var (n := (sharedSignal true).arena.nodes[0]) rfl rfl rfl))

theorem sharedSignal_key_eq : (sharedSignal false).key = (sharedSignal true).key := by
  rw [key_eq (sharedSignal_boundBy false) sharedSignal_unfolds_false,
    key_eq (sharedSignal_boundBy true) sharedSignal_unfolds_true]
  congr 1

/-- Blocks reading one signal twice, renamed and numbered otherwise, emit one module. -/
theorem renamed_blocks_emit_one_module :
    (sharedSignal false).BoundBy (fun _ => 4) ∧ (sharedSignal true).BoundBy (fun _ => 4) ∧
      (sharedSignal false).TreeShaped ∧ (sharedSignal true).TreeShaped ∧
      (sharedSignal false).key = (sharedSignal true).key ∧
      (Cache.canonicalRequest "m" (sharedSignal false)).result.map (fun r =>
        (Verilog.emit r.arena r.leaves { r.toModule "blk" with vectorizeAll := false }).result) =
      (Cache.canonicalRequest "m" (sharedSignal true)).result.map (fun r =>
        (Verilog.emit r.arena r.leaves { r.toModule "blk" with vectorizeAll := false }).result) := by
  have ht₁ : (sharedSignal false).TreeShaped := ⟨_, sharedSignal_unfolds_false, by decide⟩
  have ht₂ : (sharedSignal true).TreeShaped := ⟨_, sharedSignal_unfolds_true, by decide⟩
  exact ⟨sharedSignal_boundBy false, sharedSignal_boundBy true, ht₁, ht₂, sharedSignal_key_eq,
    equal_keys_emit_one_module (sharedSignal_boundBy false) (sharedSignal_boundBy true) ht₁ ht₂
      sharedSignal_key_eq "m" "blk" false⟩

/-- `p | q` at eight bits, with both signals bound to leaves named `s`: of four bits for `p` and of
`w` bits for `q`. -/
def orSharedLeaf (w : Int) : Block :=
  { arena := ⟨#[{ kind := .var, name := "p" }, { kind := .var, name := "q" },
      { kind := .or, args := #[0, 1] }]⟩,
    root := 2, leaves := ⟨[(0, ⟨"s", 4⟩), (1, ⟨"s", w⟩)]⟩, width := 8 }

/-- Bound to leaves that are not named as their nodes, two blocks of one key emit different
modules: the key takes the width of the leaf name `s` once, from `p`, while the module gives `q`'s
port the width of its own leaf. -/
theorem leaf_names_split_key_and_module :
    (orSharedLeaf 8).key.result = some "(v0|v1)_4_8" ∧ (orSharedLeaf 4).key.result = some "(v0|v1)_4_8" ∧
      (Cache.canonicalRequest (moduleName "(v0|v1)_4_8") (orSharedLeaf 8)).result.map (fun r =>
        (Verilog.emit r.arena r.leaves
          { r.toModule (moduleName "(v0|v1)_4_8") with vectorizeAll := false }).result) ≠
      (Cache.canonicalRequest (moduleName "(v0|v1)_4_8") (orSharedLeaf 4)).result.map (fun r =>
        (Verilog.emit r.arena r.leaves
          { r.toModule (moduleName "(v0|v1)_4_8") with vectorizeAll := false }).result) := by
  decide +kernel

end Block

end BitSynth
