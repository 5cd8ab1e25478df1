import BitSynth.Expr.Printer

namespace BitSynth

/-- An expression tree: the graph below a node unfolded, so that a shared node occurs once for each
path to it. Every node carries a tag, such as its id in the arena or nothing. -/
inductive Term (α : Type) where
  | var (tag : α) (name : String)
  | int (tag : α) (value : Nat)
  | bool (tag : α) (b : Bool)
  | bitField (tag : α) (name : String) (hi lo : Int)
  | unary (tag : α) (k : Kind) (x : Term α)
  | binary (tag : α) (k : Kind) (l r : Term α)
  | query (tag : α) (c t f : Term α)
  | concat (tag : α) (parts : List (Term α))
  | toBool (tag : α) (x : Term α)
  | toInt (tag : α) (x : Term α) (width : Int)
  deriving Repr, Inhabited

namespace Term

variable {α β : Type}

/-- The tag of the top node. -/
def tag : Term α → α
  | var a _ | int a _ | bool a _ | bitField a _ _ _ | unary a _ _ | binary a _ _ _ | query a _ _ _
  | concat a _ | toBool a _ | toInt a _ _ => a

mutual
/-- The same tree with every tag passed through `f`. -/
def map (f : α → β) : Term α → Term β
  | var a s => var (f a) s
  | int a v => int (f a) v
  | bool a b => bool (f a) b
  | bitField a s hi lo => bitField (f a) s hi lo
  | unary a k x => unary (f a) k (x.map f)
  | binary a k l r => binary (f a) k (l.map f) (r.map f)
  | query a c t e => query (f a) (c.map f) (t.map f) (e.map f)
  | concat a ps => concat (f a) (mapList f ps)
  | toBool a x => toBool (f a) (x.map f)
  | toInt a x w => toInt (f a) (x.map f) w
/-- `map` on each tree of a list. -/
def mapList (f : α → β) : List (Term α) → List (Term β)
  | [] => []
  | t :: ts => t.map f :: mapList f ts
end

/-- The shape of a tree: its tags forgotten, so that two unfoldings of differently numbered graphs
can be compared. -/
def erase (t : Term α) : Term Unit := t.map fun _ => ()

mutual
/-- The same tree with every signal and bit-field source renamed by `r`. -/
def rename (r : String → String) : Term α → Term α
  | var a s => var a (r s)
  | int a v => int a v
  | bool a b => bool a b
  | bitField a s hi lo => bitField a (r s) hi lo
  | unary a k x => unary a k (x.rename r)
  | binary a k l r' => binary a k (l.rename r) (r'.rename r)
  | query a c t e => query a (c.rename r) (t.rename r) (e.rename r)
  | concat a ps => concat a (renameList r ps)
  | toBool a x => toBool a (x.rename r)
  | toInt a x w => toInt a (x.rename r) w
/-- `rename` on each tree of a list. -/
def renameList (r : String → String) : List (Term α) → List (Term α)
  | [] => []
  | t :: ts => t.rename r :: renameList r ts
end

mutual
/-- The fully parenthesised text of a tree, as `Arena.format` writes it. -/
def text : Term α → String
  | var _ s => s
  | int _ v => toString v
  | bool _ b => if b then "true" else "false"
  | bitField _ s hi lo => s!"{s}[{hi}:{lo}]"
  | unary _ k x => k.symbol ++ "(" ++ x.text ++ ")"
  | binary _ k l r => "(" ++ l.text ++ k.symbol ++ r.text ++ ")"
  | query _ c t e => "(" ++ c.text ++ "?" ++ t.text ++ ":" ++ e.text ++ ")"
  | concat _ ps => "\x7b" ++ ",".intercalate (texts ps) ++ "\x7d"
  | toBool _ x => "bool(" ++ x.text ++ ")"
  | toInt _ x w => "int(" ++ x.text ++ (if w > 0 then s!",{w}" else "") ++ ")"
/-- The texts of the trees of a list. -/
def texts : List (Term α) → List String
  | [] => []
  | t :: ts => t.text :: texts ts
end

mutual
/-- The tags of the leaves (signals, bit-fields and constants), left to right, repeats kept. -/
def leafTags : Term α → List α
  | var a _ | int a _ | bool a _ | bitField a _ _ _ => [a]
  | unary _ _ x | toBool _ x | toInt _ x _ => x.leafTags
  | binary _ _ l r => l.leafTags ++ r.leafTags
  | query _ c t e => c.leafTags ++ t.leafTags ++ e.leafTags
  | concat _ ps => leafTagsList ps
/-- `leafTags` of a list of trees, joined. -/
def leafTagsList : List (Term α) → List α
  | [] => []
  | t :: ts => t.leafTags ++ leafTagsList ts
end

mutual
/-- The signals and bit-fields, left to right, each as its tag and source name. -/
def signals : Term α → List (α × String)
  | var a s | bitField a s _ _ => [(a, s)]
  | int _ _ | bool _ _ => []
  | unary _ _ x | toBool _ x | toInt _ x _ => x.signals
  | binary _ _ l r => l.signals ++ r.signals
  | query _ c t e => c.signals ++ t.signals ++ e.signals
  | concat _ ps => signalsList ps
/-- `signals` of a list of trees, joined. -/
def signalsList : List (Term α) → List (α × String)
  | [] => []
  | t :: ts => t.signals ++ signalsList ts
end

/-- The source names of the signals and bit-fields, left to right, repeats kept. -/
def signalNames (t : Term α) : List String := t.signals.map Prod.snd

mutual
/-- The number of levels of a tree; a leaf has one. -/
def depth : Term α → Nat
  | var .. | int .. | bool .. | bitField .. => 1
  | unary _ _ x | toBool _ x | toInt _ x _ => x.depth + 1
  | binary _ _ l r => max l.depth r.depth + 1
  | query _ c t e => max c.depth (max t.depth e.depth) + 1
  | concat _ ps => depthList ps + 1
/-- The largest depth of a list of trees. -/
def depthList : List (Term α) → Nat
  | [] => 0
  | t :: ts => max t.depth (depthList ts)
end

theorem depth_le_depthList {t : Term α} {ts : List (Term α)} (h : t ∈ ts) :
    t.depth ≤ depthList ts := by
  induction ts with
  | nil => simp at h
  | cons u us ih =>
    rcases List.mem_cons.mp h with rfl | h
    · exact Nat.le_max_left _ _
    · have := ih h
      simp only [depthList]
      omega

theorem depthList_le {ts : List (Term α)} {m : Nat} (h : ∀ t ∈ ts, t.depth ≤ m) :
    depthList ts ≤ m := by
  induction ts with
  | nil => simp [depthList]
  | cons u us ih =>
    have hu := h u (by simp)
    have hus := ih fun t ht => h t (by simp [ht])
    simp only [depthList]
    omega

@[simp] theorem mapList_eq (f : α → β) (ps : List (Term α)) : mapList f ps = ps.map (map f) := by
  induction ps with
  | nil => rfl
  | cons p ps ih => simp [mapList, ih]

@[simp] theorem renameList_eq (r : String → String) (ps : List (Term α)) :
    renameList r ps = ps.map (rename r) := by
  induction ps with
  | nil => rfl
  | cons p ps ih => simp [renameList, ih]

@[simp] theorem texts_eq (ps : List (Term α)) : texts ps = ps.map text := by
  induction ps with
  | nil => rfl
  | cons p ps ih => simp [texts, ih]

@[simp] theorem leafTagsList_eq (ps : List (Term α)) : leafTagsList ps = ps.flatMap leafTags := by
  induction ps with
  | nil => rfl
  | cons p ps ih => simp [leafTagsList, ih]

@[simp] theorem signalsList_eq (ps : List (Term α)) : signalsList ps = ps.flatMap signals := by
  induction ps with
  | nil => rfl
  | cons p ps ih => simp [signalsList, ih]

mutual
@[simp] theorem rename_id : (t : Term α) → t.rename id = t
  | var .. | int .. | bool .. | bitField .. => rfl
  | unary a k x => by rw [rename, rename_id x]
  | binary a k l r => by rw [rename, rename_id l, rename_id r]
  | query a c t e => by rw [rename, rename_id c, rename_id t, rename_id e]
  | concat a ps => by rw [rename, renameList_id ps]
  | toBool a x => by rw [rename, rename_id x]
  | toInt a x w => by rw [rename, rename_id x]
theorem renameList_id : (ps : List (Term α)) → renameList id ps = ps
  | [] => rfl
  | p :: ps => by rw [renameList, rename_id p, renameList_id ps]
end

mutual
@[simp] theorem text_map (f : α → β) : (t : Term α) → (t.map f).text = t.text
  | var .. | int .. | bool .. | bitField .. => rfl
  | unary _ _ x => by simp only [map, text, text_map f x]
  | binary _ _ l r => by simp only [map, text, text_map f l, text_map f r]
  | query _ c t e => by simp only [map, text, text_map f c, text_map f t, text_map f e]
  | concat _ ps => by simp only [map, text, texts_mapList f ps]
  | toBool _ x => by simp only [map, text, text_map f x]
  | toInt _ x _ => by simp only [map, text, text_map f x]
theorem texts_mapList (f : α → β) : (ps : List (Term α)) → texts (mapList f ps) = texts ps
  | [] => rfl
  | p :: ps => by simp only [mapList, texts, text_map f p, texts_mapList f ps]
end

mutual
@[simp] theorem signals_map (f : α → β) :
    (t : Term α) → (t.map f).signals = t.signals.map fun p => (f p.1, p.2)
  | var .. | bitField .. | int .. | bool .. => rfl
  | unary _ _ x => by simp only [map, signals, signals_map f x]
  | binary _ _ l r => by simp only [map, signals, signals_map f l, signals_map f r, List.map_append]
  | query _ c t e => by
    simp only [map, signals, signals_map f c, signals_map f t, signals_map f e, List.map_append]
  | concat _ ps => by simp only [map, signals, signalsList_mapList f ps]
  | toBool _ x => by simp only [map, signals, signals_map f x]
  | toInt _ x _ => by simp only [map, signals, signals_map f x]
theorem signalsList_mapList (f : α → β) : (ps : List (Term α)) →
    signalsList (mapList f ps) = (signalsList ps).map fun p => (f p.1, p.2)
  | [] => rfl
  | p :: ps => by
    simp only [mapList, signalsList, signals_map f p, signalsList_mapList f ps, List.map_append]
end

mutual
@[simp] theorem signals_rename (r : String → String) :
    (t : Term α) → (t.rename r).signals = t.signals.map fun p => (p.1, r p.2)
  | var .. | bitField .. | int .. | bool .. => rfl
  | unary _ _ x => by simp only [rename, signals, signals_rename r x]
  | binary _ _ l r' => by
    simp only [rename, signals, signals_rename r l, signals_rename r r', List.map_append]
  | query _ c t e => by
    simp only [rename, signals, signals_rename r c, signals_rename r t, signals_rename r e,
      List.map_append]
  | concat _ ps => by simp only [rename, signals, signalsList_renameList r ps]
  | toBool _ x => by simp only [rename, signals, signals_rename r x]
  | toInt _ x _ => by simp only [rename, signals, signals_rename r x]
theorem signalsList_renameList (r : String → String) : (ps : List (Term α)) →
    signalsList (renameList r ps) = (signalsList ps).map fun p => (p.1, r p.2)
  | [] => rfl
  | p :: ps => by
    simp only [renameList, signalsList, signals_rename r p, signalsList_renameList r ps,
      List.map_append]
end

@[simp] theorem signalNames_map (f : α → β) (t : Term α) : (t.map f).signalNames = t.signalNames := by
  simp [signalNames, Function.comp_def]

@[simp] theorem signalNames_rename (r : String → String) (t : Term α) :
    (t.rename r).signalNames = t.signalNames.map r := by
  simp [signalNames, Function.comp_def]

mutual
theorem map_rename (f : α → β) (r : String → String) :
    (t : Term α) → (t.rename r).map f = (t.map f).rename r
  | var .. | bitField .. | int .. | bool .. => rfl
  | unary _ _ x => by simp only [rename, map, map_rename f r x]
  | binary _ _ l r' => by simp only [rename, map, map_rename f r l, map_rename f r r']
  | query _ c t e => by simp only [rename, map, map_rename f r c, map_rename f r t, map_rename f r e]
  | concat _ ps => by simp only [rename, map, mapList_renameList f r ps]
  | toBool _ x => by simp only [rename, map, map_rename f r x]
  | toInt _ x _ => by simp only [rename, map, map_rename f r x]
theorem mapList_renameList (f : α → β) (r : String → String) :
    (ps : List (Term α)) → mapList f (renameList r ps) = renameList r (mapList f ps)
  | [] => rfl
  | p :: ps => by simp only [renameList, mapList, map_rename f r p, mapList_renameList f r ps]
end

mutual
theorem rename_rename (r r' : String → String) :
    (t : Term α) → (t.rename r).rename r' = t.rename (r' ∘ r)
  | var .. | bitField .. | int .. | bool .. => rfl
  | unary _ _ x => by simp only [rename, rename_rename r r' x]
  | binary _ _ l e => by simp only [rename, rename_rename r r' l, rename_rename r r' e]
  | query _ c t e => by
    simp only [rename, rename_rename r r' c, rename_rename r r' t, rename_rename r r' e]
  | concat _ ps => by simp only [rename, renameList_renameList r r' ps]
  | toBool _ x => by simp only [rename, rename_rename r r' x]
  | toInt _ x _ => by simp only [rename, rename_rename r r' x]
theorem renameList_renameList (r r' : String → String) :
    (ps : List (Term α)) → renameList r' (renameList r ps) = renameList (r' ∘ r) ps
  | [] => rfl
  | p :: ps => by simp only [renameList, rename_rename r r' p, renameList_renameList r r' ps]
end

mutual
theorem rename_congr {r r' : String → String} :
    (t : Term α) → (∀ s ∈ t.signalNames, r s = r' s) → t.rename r = t.rename r'
  | var _ s, h | bitField _ s _ _, h => by
    simp only [rename, h s (by simp [signalNames, signals])]
  | int .., _ | bool .., _ => rfl
  | unary _ _ x, h => by
    simp only [rename, rename_congr x (by simpa [signalNames, signals] using h)]
  | binary _ _ l e, h => by
    simp only [signalNames, signals, List.map_append, List.mem_append] at h
    simp only [rename, rename_congr l (by simpa [signalNames] using fun s hs => h s (.inl hs)),
      rename_congr e (by simpa [signalNames] using fun s hs => h s (.inr hs))]
  | query _ c t e, h => by
    simp only [signalNames, signals, List.map_append, List.mem_append] at h
    simp only [rename, rename_congr c (by simpa [signalNames] using fun s hs => h s (.inl (.inl hs))),
      rename_congr t (by simpa [signalNames] using fun s hs => h s (.inl (.inr hs))),
      rename_congr e (by simpa [signalNames] using fun s hs => h s (.inr hs))]
  | concat _ ps, h => by
    simp only [rename, renameList_congr ps (by simpa [signalNames, signals] using h)]
  | toBool _ x, h => by
    simp only [rename, rename_congr x (by simpa [signalNames, signals] using h)]
  | toInt _ x _, h => by
    simp only [rename, rename_congr x (by simpa [signalNames, signals] using h)]
theorem renameList_congr {r r' : String → String} :
    (ps : List (Term α)) → (∀ s ∈ (signalsList ps).map Prod.snd, r s = r' s) →
      renameList r ps = renameList r' ps
  | [], _ => rfl
  | p :: ps, h => by
    simp only [signalsList, List.map_append, List.mem_append] at h
    simp only [renameList, rename_congr p (by simpa [signalNames] using fun s hs => h s (.inl hs)),
      renameList_congr ps fun s hs => h s (.inr hs)]
end

end Term

end BitSynth
