import Mathlib
import BitSynth.Proofs.Files
import BitSynth.Proofs.NumberText
import BitSynth.Proofs.Text
import BitSynth.Proofs.Triple
import BitSynth.Cache.Store

namespace BitSynth

namespace Path

/-- The last element of a path as written: what follows its last slash. -/
def final (p : String) : Option String := (Text.splitChar p '/').getLast?

/-- An element that cleaning keeps as it is: not empty, not `.` or `..`, and without a slash. -/
structure Plain (b : String) : Prop where
  ne_empty : b ≠ ""
  ne_dot : b ≠ "."
  ne_dotDot : b ≠ ".."
  no_slash : '/' ∉ b.toList

theorem splitChar_append_slash (s t : String) :
    Text.splitChar (s ++ "/" ++ t) '/' = Text.splitChar s '/' ++ Text.splitChar t '/' := by
  simp [Text.splitChar, List.splitOn_append_cons_self]

theorem final_append_slash (s t : String) : final (s ++ "/" ++ t) = final t := by
  unfold final
  rw [splitChar_append_slash, List.getLast?_append]
  have hne : Text.splitChar t '/' ≠ [] := by simp [Text.splitChar]
  obtain ⟨x, hx⟩ := List.getLast?_isSome.mpr hne |> Option.isSome_iff_exists.mp
  simp [hx]

theorem final_of_no_slash {b : String} (hb : '/' ∉ b.toList) : final b = some b := by
  simp [final, Text.splitChar_of_not_mem hb]

theorem final_root : final "/" = some "" := by
  rw [show "/" = "" ++ "/" ++ "" from rfl, final_append_slash]
  exact final_of_no_slash (by simp)

/-- Resolving the elements of a path never touches a plain element at its end. -/
theorem resolveElements_append_plain {b : String} (hb : Plain b) (rooted : Bool) :
    ∀ (acc xs : List String),
      resolveElements rooted acc (xs ++ [b]) = resolveElements rooted acc xs ++ [b] := by
  intro acc xs
  induction xs generalizing acc with
  | nil =>
    have h₁ : (b == "" || b == ".") = false := by simp [hb.ne_empty, hb.ne_dot]
    have h₂ : (b == "..") = false := by simp [hb.ne_dotDot]
    simp [resolveElements, h₁, h₂]
  | cons x xs ih =>
    rw [List.cons_append]
    unfold resolveElements
    by_cases h₁ : (x == "" || x == ".") = true
    · rw [if_pos h₁, if_pos h₁]
      exact ih acc
    rw [if_neg h₁, if_neg h₁]
    by_cases h₂ : (x == "..") = true
    · rw [if_pos h₂, if_pos h₂]
      rcases acc with _ | ⟨top, below⟩
      · cases rooted <;> exact ih _
      · dsimp only
        split_ifs <;> exact ih _
    · rw [if_neg h₂, if_neg h₂]
      exact ih _

theorem final_clean {p b : String} (h : final p = some b) (hb : Plain b) : final (clean p) = some b := by
  obtain ⟨xs, hxs⟩ := List.getLast?_eq_some_iff.mp h
  have hbody : final ("/".intercalate (resolveElements (isAbsolute p) [] xs ++ [b])) = some b := by
    by_cases hR : resolveElements (isAbsolute p) [] xs = []
    · rw [hR, List.nil_append, String.intercalate_singleton]
      exact final_of_no_slash hb.no_slash
    · rw [String.intercalate_append_of_ne_nil hR (by simp), String.intercalate_singleton,
        final_append_slash]
      exact final_of_no_slash hb.no_slash
  unfold clean
  dsimp only
  rw [hxs, resolveElements_append_plain hb]
  split_ifs with hroot hempty
  · rw [show "/" ++ _ = "" ++ "/" ++ _ from rfl, final_append_slash]
    exact hbody
  · -- a body that ends with a plain element is not empty
    rw [String.isEmpty_iff.mp hempty] at hbody
    exact absurd (Option.some.inj hbody).symm hb.ne_empty
  · exact hbody

theorem final_join {b : String} (dir : String) (hb : Plain b) : final (join [dir, b]) = some b := by
  have hb' : (b != "") = true := by simpa using hb.ne_empty
  unfold join
  by_cases hdir : dir = ""
  · subst hdir
    simp only [List.filter_cons, bne_self_eq_false, hb', List.filter_nil, if_true]
    exact final_clean (final_of_no_slash hb.no_slash) hb
  · have hdir' : (dir != "") = true := by simpa using hdir
    simp only [List.filter_cons, hdir', hb', List.filter_nil, if_true, String.intercalate_cons_cons,
      String.intercalate_singleton]
    exact final_clean (by rw [final_append_slash]; exact final_of_no_slash hb.no_slash) hb

theorem final_resolve {p b : String} (cwd : String) (h : final p = some b) (hb : Plain b) :
    final (resolve cwd p) = some b := by
  unfold resolve
  split_ifs
  · exact final_clean h hb
  · exact final_clean (by rw [final_append_slash]; exact h) hb

theorem final_absolute_join (d : Disk) (dir : String) {b : String} (hb : Plain b) :
    final (d.absolute (join [dir, b])) = some b :=
  final_resolve d.cwd (final_join dir hb) hb

end Path

namespace Disk

theorem absolute_mem_nodes {d : Disk} {p : String} (h : d.present p = true) :
    d.absolute p = "/" ∨ d.absolute p ∈ d.nodes.map (·.1) := by
  obtain ⟨n, hl⟩ := present_iff.mp h
  have hn := (lookup_eq_ok_iff.mp hl).2.2.2
  unfold node? at hn
  split_ifs at hn with hroot
  · exact .inl (by simpa using hroot)
  · obtain ⟨e, he, -⟩ := Option.map_eq_some_iff.mp hn.symm
    refine .inr (List.mem_map.mpr ⟨e, List.mem_of_find?_eq_some he, ?_⟩)
    simpa using List.find?_some he

end Disk

namespace Cache

/-! ### The names of the netlists -/

theorem toString_int_getLast? (i : Int) : ∃ c, (toString i).toList.getLast? = some c ∧ c.isDigit = true := by
  obtain ⟨c, hc⟩ := List.getLast?_isSome.mpr (@Nat.toDigits_ne_nil i.natAbs 10) |>
    Option.isSome_iff_exists.mp
  refine ⟨c, ?_, Decimal.isDigit_of_mem_toDigits (List.mem_of_getLast? hc)⟩
  rw [Decimal.toString_int_toList, List.getLast?_append, hc]
  rfl

theorem slash_not_mem_toString (i : Int) : '/' ∉ (toString i).toList := by
  rw [Decimal.toString_int_toList, List.mem_append]
  rintro (h | h)
  · split at h <;> simp_all
  · exact absurd (Decimal.isDigit_of_mem_toDigits h) (by decide)

/-- A numeral followed by a suffix without a slash that ends in `v` is a plain element. -/
theorem plain_toString_append (i : Int) {t : String} (ht : '/' ∉ t.toList)
    (hv : t.toList.getLast? = some 'v') : Path.Plain (toString i ++ t) := by
  have hlast : (toString i ++ t).toList.getLast? = some 'v' := by
    rw [String.toList_append, List.getLast?_append, hv]
    rfl
  refine ⟨fun h => ?_, fun h => ?_, fun h => ?_, ?_⟩
  · rw [h] at hlast
    cases hlast
  · rw [h] at hlast
    cases hlast
  · rw [h] at hlast
    cases hlast
  · rw [String.toList_append, List.mem_append, not_or]
    exact ⟨slash_not_mem_toString i, ht⟩

theorem plain_mappedName (slot : Int) : Path.Plain (mappedName slot) :=
  plain_toString_append slot (by decide) rfl

theorem plain_preMapName (slot : Int) : Path.Plain (preMapName slot) :=
  plain_toString_append slot (by decide) rfl

/-- The name of one of the two netlists of a slot: the mapped one or the one before mapping. -/
def netlistName (mapped : Bool) (slot : Int) : String :=
  if mapped then mappedName slot else preMapName slot

theorem plain_netlistName (mapped : Bool) (slot : Int) : Path.Plain (netlistName mapped slot) := by
  cases mapped
  · exact plain_preMapName slot
  · exact plain_mappedName slot

theorem netlistName_inj {m₁ m₂ : Bool} {s₁ s₂ : Int} (h : netlistName m₁ s₁ = netlistName m₂ s₂) :
    m₁ = m₂ ∧ s₁ = s₂ := by
  have hint : toString s₁ = toString s₂ → s₁ = s₂ := fun h => Int.repr_injective h
  -- the mapped name ends in a digit and `.v`; the other ends in `pre.v`
  have hmixed : ∀ a b : Int, toString a ++ ".v" ≠ toString b ++ "pre.v" := by
    intro a b hab
    have hl := congrArg String.toList hab
    simp only [String.toList_append, show "pre.v".toList = ['p', 'r', 'e'] ++ ['.', 'v'] from rfl,
      show ".v".toList = ['.', 'v'] from rfl, ← List.append_assoc, List.append_cancel_right_eq] at hl
    obtain ⟨c, hc, hdigit⟩ := toString_int_getLast? a
    rw [hl, List.getLast?_append] at hc
    cases hc
    exact absurd hdigit (by decide)
  cases m₁ <;> cases m₂ <;> simp only [netlistName, mappedName, preMapName, Bool.false_eq_true,
    if_false, if_true, String.append_left_inj] at h
  · exact ⟨rfl, hint h⟩
  · exact absurd h.symm (hmixed _ _)
  · exact absurd h (hmixed _ _)
  · exact ⟨rfl, hint h⟩

/-! ### Free slots -/

/-- A slot is free on a disk when neither of its netlists is there: the test of `nextSlot`. -/
def slotFree (d : Disk) (dir : String) (slot : Int) : Bool :=
  !d.present (Path.join [dir, mappedName slot]) && !d.present (Path.join [dir, preMapName slot])

theorem netlist_absolute_inj {d : Disk} {dir : String} {m₁ m₂ : Bool} {s₁ s₂ : Int}
    (h : d.absolute (Path.join [dir, netlistName m₁ s₁]) = d.absolute (Path.join [dir, netlistName m₂ s₂])) :
    m₁ = m₂ ∧ s₁ = s₂ := by
  have h₁ := Path.final_absolute_join d dir (plain_netlistName m₁ s₁)
  rw [h, Path.final_absolute_join d dir (plain_netlistName m₂ s₂)] at h₁
  exact netlistName_inj (Option.some.inj h₁).symm

theorem netlist_mem_nodes {d : Disk} {dir : String} {m : Bool} {s : Int}
    (h : d.present (Path.join [dir, netlistName m s]) = true) :
    d.absolute (Path.join [dir, netlistName m s]) ∈ d.nodes.map (·.1) := by
  refine (Disk.absolute_mem_nodes h).resolve_left fun hroot => ?_
  have hfinal := Path.final_absolute_join d dir (plain_netlistName m s)
  rw [hroot, Path.final_root] at hfinal
  exact (plain_netlistName m s).ne_empty (Option.some.inj hfinal).symm

/-- Pigeonhole: a slot taken has a netlist on disk, the netlists of distinct slots are distinct
nodes, so `n + 1` consecutive slots cannot all be taken on a disk of `n` nodes. -/
theorem exists_free_slot (d : Disk) (dir : String) (start : Int) :
    ∃ i < d.nodes.length + 1, slotFree d dir (start + i) = true := by
  by_contra hall
  simp only [not_exists, not_and, Bool.not_eq_true] at hall
  -- a taken slot shows the name of one netlist it has on disk
  let mapped (i : Nat) : Bool := d.present (Path.join [dir, mappedName (start + i)])
  let path (i : Nat) : String := d.absolute (Path.join [dir, netlistName (mapped i) (start + i)])
  have hpresent : ∀ i < d.nodes.length + 1,
      d.present (Path.join [dir, netlistName (mapped i) (start + i)]) = true := by
    intro i hi
    have hi' := hall i hi
    simp only [slotFree, Bool.and_eq_false_iff, Bool.not_eq_false'] at hi'
    cases hm : mapped i
    · simpa [netlistName, hm] using hi'.resolve_left (by simpa [mapped] using hm)
    · simpa [netlistName] using hm
  have hnodup : ((List.range (d.nodes.length + 1)).map path).Nodup := by
    refine (List.nodup_range).map_on fun i _ j _ hij => ?_
    have := (netlist_absolute_inj hij).2
    omega
  have hsub : (List.range (d.nodes.length + 1)).map path ⊆ d.nodes.map (·.1) := by
    intro p hp
    obtain ⟨i, hi, rfl⟩ := List.mem_map.mp hp
    exact netlist_mem_nodes (hpresent i (List.mem_range.mp hi))
  have hlen := hnodup.length_le_of_subset hsub
  simp at hlen

/-- The probe finds a free slot when one lies within its reach. -/
theorem probe_free {free : Int → Bool} :
    ∀ (fuel : Nat) (slot : Int), (∃ i < fuel, free (slot + i) = true) →
      free (nextSlot.probe free fuel slot) = true
  | 0, _, ⟨i, hi, _⟩ => absurd hi (Nat.not_lt_zero i)
  | fuel + 1, slot, ⟨i, hi, hfree⟩ => by
    unfold nextSlot.probe
    split_ifs with hslot
    · exact hslot
    · -- the slot tried first is taken, so the free one lies further on
      have hi₀ : i ≠ 0 := by
        rintro rfl
        simp_all
      refine probe_free fuel (slot + 1) ⟨i - 1, by omega, ?_⟩
      have : slot + 1 + ((i - 1 : Nat) : Int) = slot + i := by omega
      rwa [this]

theorem read_post {α : Type} (f : World → α) (w : World) :
    Stateful.Post (Act.read f) w fun r w' => r = .ok (f w) ∧ w' = w := by
  intro r w' hr
  cases hr
  exact ⟨rfl, rfl⟩

/-- The next slot is free on the disk it is taken from, and the counter moves past it. -/
theorem nextSlot_post (c : Cache) (w : World) :
    Stateful.Post nextSlot (c, w) fun r s => s.2 = w ∧
      ∃ slot, r = .ok slot ∧ s.1 = { c with counter := slot + 1 } ∧ slotFree w.disk c.dir slot = true := by
  unfold nextSlot
  refine On.Post.self_bind ?_
  refine On.Post.world_bind (read_post _ w) ?_ fun e w' h => by cases h.1
  rintro d w' ⟨hd, hw⟩
  rw [hw]
  cases hd
  refine On.Post.update_bind _ (Stateful.Post.pure _ ⟨rfl, _, rfl, rfl, ?_⟩)
  obtain ⟨i, hi, hfree⟩ := exists_free_slot w.disk c.dir c.counter
  exact probe_free _ _ ⟨i, hi, hfree⟩

end Cache

end BitSynth
