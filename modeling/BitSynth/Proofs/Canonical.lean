import Mathlib.Data.List.GetD
import Mathlib.Data.List.Nodup
import BitSynth.Proofs.Traversal
import BitSynth.Proofs.Decode

namespace BitSynth

section Dedup

variable {α β : Type} [DecidableEq α] [DecidableEq β]

theorem nodup_dedupInto {acc : List α} (h : acc.Nodup) (xs : List α) : (dedupInto acc xs).Nodup := by
  induction xs generalizing acc with
  | nil => exact h
  | cons x xs ih =>
    rw [dedupInto_cons]
    split
    · exact ih h
    · rename_i hx
      refine ih (List.nodup_append.mpr ⟨h, List.nodup_singleton x, ?_⟩)
      intro a ha b hb
      rw [List.mem_singleton] at hb
      rintro rfl
      exact hx (hb ▸ ha)

/-- Dropping repeats commutes with a map that is injective on the elements. -/
theorem dedupInto_map_of_injOn {f : α → β} :
    ∀ (acc xs : List α), (∀ x ∈ acc ++ xs, ∀ y ∈ acc ++ xs, f x = f y → x = y) →
      dedupInto (acc.map f) (xs.map f) = (dedupInto acc xs).map f
  | _, [], _ => rfl
  | acc, x :: xs, hf => by
    have hmem : f x ∈ acc.map f ↔ x ∈ acc := by
      constructor
      · rintro hx
        obtain ⟨y, hy, hyx⟩ := List.mem_map.mp hx
        exact hf y (by simp [hy]) x (by simp) hyx ▸ hy
      · exact List.mem_map_of_mem
    have hacc : (if x ∈ acc then acc else acc ++ [x]).map f =
        if f x ∈ acc.map f then acc.map f else acc.map f ++ [f x] := by
      by_cases hx : x ∈ acc <;> simp [hx, hmem]
    have hsub : ∀ y ∈ (if x ∈ acc then acc else acc ++ [x]) ++ xs, y ∈ acc ++ x :: xs := by
      intro y hy
      split at hy
      · simp only [List.mem_append, List.mem_cons] at hy ⊢
        tauto
      · simp only [List.mem_append, List.mem_cons, List.not_mem_nil] at hy ⊢
        tauto
    rw [List.map_cons, dedupInto_cons, dedupInto_cons, ← hacc]
    exact dedupInto_map_of_injOn _ xs fun y hy z hz => hf y (hsub y hy) z (hsub z hz)

end Dedup

theorem List.idxOf_map_of_injOn {α β : Type} [BEq α] [LawfulBEq α] [BEq β] [LawfulBEq β] {f : α → β}
    {l : List α} (hf : ∀ x ∈ l, ∀ y ∈ l, f x = f y → x = y) {x : α} (hx : x ∈ l) :
    (l.map f).idxOf (f x) = l.idxOf x := by
  induction l with
  | nil => simp at hx
  | cons a l ih =>
    by_cases hax : a = x
    · subst hax
      simp
    · have hfax : f a ≠ f x := fun h => hax (hf a (by simp) x hx h)
      have hx' : x ∈ l := by simpa [Ne.symm hax] using hx
      rw [List.map_cons, List.idxOf_cons_ne _ hfax, List.idxOf_cons_ne _ hax,
        ih (fun y hy z hz => hf y (by simp [hy]) z (by simp [hz])) hx']

namespace Term

variable {α β : Type}

/-- The signal names of a tree, each once, in order of first occurrence. -/
def names (t : Term α) : List String := dedupInto [] t.signalNames

/-- The canonical form of a tree: each signal renamed `v<k>`, `k` being the position of its name
among the names of the tree. -/
def canonical (t : Term α) : Term α := t.rename (vName fun s => t.names.idxOf s)

theorem mem_names {t : Term α} {s : String} : s ∈ t.names ↔ s ∈ t.signalNames := by
  simp [names]

theorem nodup_names (t : Term α) : t.names.Nodup := nodup_dedupInto List.nodup_nil _

@[simp] theorem names_map (f : α → β) (t : Term α) : (t.map f).names = t.names := by
  simp [names]

theorem names_rename {f : String → String} {t : Term α}
    (hf : ∀ s ∈ t.signalNames, ∀ s' ∈ t.signalNames, f s = f s' → s = s') :
    (t.rename f).names = t.names.map f := by
  simpa [names] using dedupInto_map_of_injOn [] t.signalNames (by simpa using hf)

theorem vName_inj {g₁ g₂ : String → Nat} {s₁ s₂ : String} :
    vName g₁ s₁ = vName g₂ s₂ ↔ g₁ s₁ = g₂ s₂ := by
  constructor
  · intro h
    have h' := congrArg (fun s => Nat.ofDigitChars 10 (s.toList.drop 1) 0) h
    simpa [vName, Nat.toString_eq_repr, Nat.toList_repr, Nat.ofDigitChars_toDigits] using h'
  · intro h
    simp [vName, h]

theorem canonical_injOn (t : Term α) :
    ∀ s ∈ t.signalNames, ∀ s' ∈ t.signalNames,
      vName (fun s => t.names.idxOf s) s = vName (fun s => t.names.idxOf s) s' → s = s' := by
  intro s hs s' _ h
  exact (List.idxOf_inj (mem_names.mpr hs)).mp (vName_inj.mp h)

theorem vName_getElem_names (t : Term α) (k : Nat) (hk : k < t.names.length) :
    vName (fun s => t.names.idxOf s) t.names[k] = "v" ++ toString k := by
  simp [vName, t.nodup_names.idxOf_getElem]

theorem names_canonical (t : Term α) :
    t.canonical.names = (List.range t.names.length).map fun k => "v" ++ toString k := by
  rw [canonical, names_rename (canonical_injOn t)]
  apply List.ext_getElem (by simp)
  intro k hk _
  simpa using vName_getElem_names t k (by simpa using hk)

theorem canonical_rename {f : String → String} {t : Term α}
    (hf : ∀ s ∈ t.signalNames, ∀ s' ∈ t.signalNames, f s = f s' → s = s') :
    (t.rename f).canonical = t.canonical := by
  rw [canonical, names_rename hf, rename_rename]
  apply rename_congr
  intro s hs
  exact vName_inj.mpr (List.idxOf_map_of_injOn
    (fun x hx y hy => hf x (mem_names.mp hx) y (mem_names.mp hy)) (mem_names.mpr hs))

theorem erase_canonical (t : Term α) : t.canonical.erase = t.erase.canonical := by
  simp only [canonical, erase, map_rename, names_map]

/-- Two trees with canonical forms of one shape are renamings of one another: the renaming maps the
name at each position among the names of the first to the name at that position among the names of
the second, and it is injective. -/
theorem exists_rename_of_canonical {t₁ : Term α} {t₂ : Term β}
    (h : t₁.canonical.erase = t₂.canonical.erase) :
    ∃ f : String → String, (∀ s ∈ t₁.signalNames, ∀ s' ∈ t₁.signalNames, f s = f s' → s = s') ∧
      (t₁.rename f).erase = t₂.erase ∧
      ∀ s ∈ t₁.signalNames, t₁.names.idxOf s < t₂.names.length ∧
        f s = t₂.names.getD (t₁.names.idxOf s) "" := by
  set c₁ : String → String := vName fun s => t₁.names.idxOf s
  set c₂ : String → String := vName fun s => t₂.names.idxOf s
  -- the canonical names of the two trees agree position by position
  have hsig : t₁.signalNames.map c₁ = t₂.signalNames.map c₂ := by
    have := congrArg signalNames h
    simpa [canonical, erase] using this
  have hnames : t₁.names.map c₁ = t₂.names.map c₂ := by
    have h₁ := dedupInto_map_of_injOn (f := c₁) [] t₁.signalNames (by simpa using canonical_injOn t₁)
    have h₂ := dedupInto_map_of_injOn (f := c₂) [] t₂.signalNames (by simpa using canonical_injOn t₂)
    simp only [List.map_nil] at h₁ h₂
    rw [names, names, ← h₁, ← h₂, hsig]
  have hlen : t₁.names.length = t₂.names.length := by
    simpa using congrArg List.length hnames
  -- read a canonical name back as a name of the second tree
  let back (v : String) : String := t₂.names.getD ((t₂.names.map c₂).idxOf v) ""
  have hinj₂ : ∀ x ∈ t₂.names, ∀ y ∈ t₂.names, c₂ x = c₂ y → x = y := fun x hx y hy =>
    canonical_injOn t₂ x (mem_names.mp hx) y (mem_names.mp hy)
  have hinj₁ : ∀ x ∈ t₁.names, ∀ y ∈ t₁.names, c₁ x = c₁ y → x = y := fun x hx y hy =>
    canonical_injOn t₁ x (mem_names.mp hx) y (mem_names.mp hy)
  have hback₂ : ∀ s ∈ t₂.signalNames, back (c₂ s) = s := by
    intro s hs
    have hs' := mem_names.mpr hs
    simp only [back, List.idxOf_map_of_injOn hinj₂ hs']
    rw [List.getD_eq_getElem _ _ (List.idxOf_lt_length_of_mem hs'), List.getElem_idxOf]
  have hback₁ : ∀ s ∈ t₁.signalNames, back (c₁ s) = t₂.names.getD (t₁.names.idxOf s) "" := by
    intro s hs
    simp only [back, ← hnames, List.idxOf_map_of_injOn hinj₁ (mem_names.mpr hs)]
  have hlt : ∀ s ∈ t₁.signalNames, t₁.names.idxOf s < t₂.names.length := fun s hs =>
    hlen ▸ List.idxOf_lt_length_of_mem (mem_names.mpr hs)
  refine ⟨back ∘ c₁, ?_, ?_, fun s hs => ⟨hlt s hs, hback₁ s hs⟩⟩
  · intro s hs s' hs' hss'
    simp only [Function.comp_apply, hback₁ s hs, hback₁ s' hs'] at hss'
    rw [List.getD_eq_getElem _ _ (hlt s hs), List.getD_eq_getElem _ _ (hlt s' hs')] at hss'
    have hidx := (List.Nodup.getElem_inj_iff (nodup_names t₂)).mp hss'
    exact (List.idxOf_inj (mem_names.mpr hs)).mp hidx
  · -- undo the second canonical renaming on both canonical forms
    have h' := congrArg (fun u => u.rename back) h
    simp only [canonical, erase, ← map_rename, rename_rename] at h'
    have h'' : (t₁.rename (back ∘ c₁)).erase = (t₂.rename (back ∘ c₂)).erase := h'
    have hid : t₂.rename (back ∘ c₂) = t₂.rename id := rename_congr t₂ fun s hs => hback₂ s hs
    rw [h'', hid, rename_id]

end Term

end BitSynth
