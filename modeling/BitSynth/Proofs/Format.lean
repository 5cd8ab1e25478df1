import BitSynth.Proofs.Unfold

namespace BitSynth

theorem List.mapM_except_ok {α β γ ε : Type} {f : α → Except ε β} {g : γ → β} :
    ∀ {xs : List α} {ys : List γ}, xs.length = ys.length →
      (∀ p ∈ xs.zip ys, f p.1 = .ok (g p.2)) → xs.mapM f = .ok (ys.map g)
  | [], [], _, _ => rfl
  | x :: xs, y :: ys, hlen, h => by
    have hx : f x = .ok (g y) := h (x, y) (by simp)
    have hxs : xs.mapM f = .ok (ys.map g) :=
      List.mapM_except_ok (by simpa using hlen) fun p hp => h p (by simp [hp])
    simp [List.mapM_cons, hx, hxs, bind, Except.bind, pure, Except.pure]

namespace Arena

variable {a : Arena}

/-- The printer writes exactly the text of the unfolded tree, signal names renamed, once its fuel
covers the depth of the tree. -/
theorem Unfolds.writeWithin_eq (r : String → String) {id : NodeId} {t : Term NodeId}
    (h : a.Unfolds id t) : ∀ fuel, t.depth ≤ fuel → a.writeWithin r fuel id = .ok (t.rename r).text := by
  induction h with
  | var hn hk ha | int hn hk ha | bitField hn hk ha =>
    intro fuel hf
    obtain ⟨f, rfl⟩ : ∃ f, fuel = f + 1 := ⟨fuel - 1, by simp only [Term.depth] at hf; omega⟩
    simp [writeWithin, Arena.get, bind, Except.bind, pure, Except.pure, hn, hk, Term.rename, Term.text]
  | @bool id n b hn hk ha =>
    intro fuel hf
    obtain ⟨f, rfl⟩ : ∃ f, fuel = f + 1 := ⟨fuel - 1, by simp only [Term.depth] at hf; omega⟩
    cases b <;> simp_all [writeWithin, Arena.get, bind, Except.bind, pure, Except.pure, Term.rename,
      Term.text]
  | @unary id x n tx hn hk ha _ ih =>
    intro fuel hf
    obtain ⟨f, rfl⟩ : ∃ f, fuel = f + 1 := ⟨fuel - 1, by simp only [Term.depth] at hf; omega⟩
    have hx := ih f (by simp only [Term.depth] at hf; omega)
    rcases Kind.unary_cases hk with hk | hk | hk <;>
      simp +decide [writeWithin, Arena.get, bind, Except.bind, pure, Except.pure, hn, hk, Node.arg,
        ha, hx, Term.rename, Term.text]
  | @binary id l r n tl tr hn hk ha _ _ ihl ihr =>
    intro fuel hf
    obtain ⟨f, rfl⟩ : ∃ f, fuel = f + 1 := ⟨fuel - 1, by simp only [Term.depth] at hf; omega⟩
    have hl := ihl f (by simp only [Term.depth] at hf; omega)
    have hr := ihr f (by simp only [Term.depth] at hf; omega)
    rcases hk.cases with hk | hk | hk | hk | hk | hk | hk | hk | hk | hk | hk | hk | hk | hk | hk |
      hk | hk <;>
      simp +decide [writeWithin, Arena.get, bind, Except.bind, pure, Except.pure, hn, hk, Node.arg,
        ha, hl, hr, Term.rename, Term.text]
  | @query id c t e n tc tt te hn hk ha _ _ _ ihc iht ihe =>
    intro fuel hf
    obtain ⟨f, rfl⟩ : ∃ f, fuel = f + 1 := ⟨fuel - 1, by simp only [Term.depth] at hf; omega⟩
    have hc := ihc f (by simp only [Term.depth] at hf; omega)
    have ht := iht f (by simp only [Term.depth] at hf; omega)
    have he := ihe f (by simp only [Term.depth] at hf; omega)
    simp [writeWithin, Arena.get, bind, Except.bind, pure, Except.pure, hn, hk, Node.arg, ha, hc, ht,
      he, Term.rename, Term.text]
  | @toBool id x n tx hn hk ha _ ih | @toInt id x n tx hn hk ha _ ih =>
    intro fuel hf
    obtain ⟨f, rfl⟩ : ∃ f, fuel = f + 1 := ⟨fuel - 1, by simp only [Term.depth] at hf; omega⟩
    have hx := ih f (by simp only [Term.depth] at hf; omega)
    simp [writeWithin, Arena.get, bind, Except.bind, pure, Except.pure, hn, hk, Node.arg, ha, hx,
      Term.rename, Term.text]
  | @concat id n ts hn hk hne hlen hs ih =>
    intro fuel hf
    obtain ⟨f, rfl⟩ : ∃ f, fuel = f + 1 := ⟨fuel - 1, by simp only [Term.depth] at hf; omega⟩
    have hparts : n.args.toList.mapM (a.writeWithin r f) = .ok (ts.map fun t => (t.rename r).text) := by
      apply List.mapM_except_ok (by simpa using hlen)
      intro p hp
      apply ih p hp
      have hmem := (List.of_mem_zip hp).2
      have := Term.depth_le_depthList hmem
      simp only [Term.depth] at hf
      omega
    simp [writeWithin, Arena.get, bind, Except.bind, pure, Except.pure, hn, hk, Array.mapM_eq_mapM_toList,
      hparts, Functor.map, Except.map, Term.rename, Term.text, Function.comp_def]

theorem format_eq {root : NodeId} {t : Term NodeId} (hacyc : a.Acyclic) (h : a.Unfolds root t) :
    a.format root = .ok t.text := by
  have := h.writeWithin_eq id (a.size + 1) (by have := h.depth_le_size hacyc; omega)
  simpa [format] using this

end Arena

end BitSynth
