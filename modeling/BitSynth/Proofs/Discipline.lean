import Mathlib
import BitSynth.Proofs.Compiling

namespace BitSynth.Abc

/-- What the server asks of its tool. -/
inductive Ask where
  | openSession
  | runCommand
  | closeSession
  deriving DecidableEq, Repr

/-- A call of the server on its tool: what it asked, the session it concerns (by the name the tool
gave it when it opened it), and whether the tool did it. -/
structure ToolCall where
  ask : Ask
  session : String
  ok : Bool
  deriving DecidableEq, Repr

namespace ToolCall

/-- The environment entry that records a call. -/
def entry (c : ToolCall) : String × String :=
  let kind := match c.ask with
    | .openSession => "abc.open"
    | .runCommand => "abc.run"
    | .closeSession => "abc.close"
  (if c.ok then kind else kind ++ ".failed", c.session)

/-- One call under the discipline, from the session it finds live: a session is opened only when
none is live, and the session the tool opens becomes live; a command or a close concerns the live
session; a refused command drops it and a close ends it. `none` when the call breaks the
discipline. -/
def step : Option String → ToolCall → Option (Option String)
  | none, ⟨.openSession, t, ok⟩ => some (if ok then some t else none)
  | some t, ⟨.runCommand, t', ok⟩ => if t' = t then some (if ok then some t else none) else none
  | some t, ⟨.closeSession, t', _⟩ => if t' = t then some none else none
  | _, _ => none

/-- The call opened the session `t`. -/
def opens (t : String) (c : ToolCall) : Bool := c = ⟨.openSession, t, true⟩

/-- The call closed the session `t`, whatever the tool answered. -/
def closes (t : String) (c : ToolCall) : Bool := c.ask = .closeSession ∧ c.session = t

/-- The call ran a command in the session `t` that the tool refused. -/
def drops (t : String) (c : ToolCall) : Bool := c = ⟨.runCommand, t, false⟩

/-- One for the session `t`, zero for any other or for none. -/
def isLive (t : String) (live : Option String) : Nat := if live = some t then 1 else 0

/-- A call that keeps the discipline balances the sessions: one opened adds one to the opened
ones and makes it live; one closed or dropped takes it off the live ones. -/
theorem step_balance {live live' : Option String} {c : ToolCall} (t : String) (h : step live c = some live') :
    (if c.opens t then 1 else 0) + isLive t live =
      (if c.closes t then 1 else 0) + (if c.drops t then 1 else 0) + isLive t live' := by
  obtain ⟨ask, t', ok⟩ := c
  cases live with
  | none =>
    cases ask with
    | openSession =>
      -- an open from none: the session becomes live when the tool opened it
      simp only [step, Option.some.injEq] at h
      subst h
      rcases eq_or_ne t' t with rfl | ht
      · cases ok <;> simp [opens, closes, drops, isLive]
      · cases ok <;> simp [opens, closes, drops, isLive, ht]
    | runCommand => simp [step] at h
    | closeSession => simp [step] at h
  | some s =>
    cases ask with
    | openSession => simp [step] at h
    | runCommand =>
      -- a command in the live session keeps it, or drops it when refused
      by_cases hs : t' = s
      · subst hs
        simp only [step, ↓reduceIte, Option.some.injEq] at h
        subst h
        rcases eq_or_ne t' t with rfl | ht
        · cases ok <;> simp [opens, closes, drops, isLive]
        · cases ok <;> simp [opens, closes, drops, isLive, ht]
      · simp [step, hs] at h
    | closeSession =>
      by_cases hs : t' = s
      · subst hs
        simp only [step, ↓reduceIte, Option.some.injEq] at h
        subst h
        rcases eq_or_ne t' t with rfl | ht
        · simp [opens, closes, drops, isLive]
        · simp [opens, closes, drops, isLive, ht]
      · simp [step, hs] at h

end ToolCall

/-- Calls that keep the discipline from the live session `live`, leaving `live'` live. -/
def Disciplined (live : Option String) (calls : List ToolCall) (live' : Option String) : Prop :=
  calls.foldlM ToolCall.step live = some live'

section Disciplined

variable {live live' live'' : Option String} {c : ToolCall} {xs ys : List ToolCall}

theorem disciplined_nil : Disciplined live [] live' ↔ live = live' := by
  simp [Disciplined]

theorem disciplined_cons :
    Disciplined live (c :: xs) live'' ↔ ∃ live', ToolCall.step live c = some live' ∧ Disciplined live' xs live'' := by
  simp only [Disciplined, List.foldlM_cons]
  exact Option.bind_eq_some_iff

theorem disciplined_append :
    Disciplined live (xs ++ ys) live'' ↔ ∃ live', Disciplined live xs live' ∧ Disciplined live' ys live'' := by
  simp only [Disciplined, List.foldlM_append]
  exact Option.bind_eq_some_iff

/-- The balance of a whole run: every session opened was live at the start or ends closed,
dropped, or live at the end. -/
theorem Disciplined.balance (t : String) :
    Disciplined live xs live' →
      xs.countP (ToolCall.opens t) + ToolCall.isLive t live =
        xs.countP (ToolCall.closes t) + xs.countP (ToolCall.drops t) + ToolCall.isLive t live' := by
  induction xs generalizing live with
  | nil =>
    intro h
    rw [disciplined_nil.mp h]
    simp
  | cons c cs ih =>
    intro h
    obtain ⟨l, hstep, hrest⟩ := disciplined_cons.mp h
    have hc := ToolCall.step_balance t hstep
    have hcs := ih hrest
    simp only [List.countP_cons]
    omega

/-- The session `t` is the one opened last in the calls, with only commands the tool ran in it
since. -/
def LiveAfter (calls : List ToolCall) (t : String) : Prop :=
  ∃ before since, calls = before ++ ⟨.openSession, t, true⟩ :: since ∧
    ∀ c ∈ since, c = ⟨.runCommand, t, true⟩

/-- The live session of a run from none is the one opened last, with only commands run in it
since. -/
theorem Disciplined.liveAfter {t : String} : Disciplined none xs (some t) → LiveAfter xs t := by
  induction xs using List.reverseRecOn generalizing t with
  | nil =>
    intro h
    cases disciplined_nil.mp h
  | append_singleton cs d ih =>
    intro h
    obtain ⟨l, hcs, hd⟩ := disciplined_append.mp h
    obtain ⟨l', hstep, hnil⟩ := disciplined_cons.mp hd
    rw [disciplined_nil.mp hnil] at hstep
    obtain ⟨ask, t', ok⟩ := d
    cases l with
    | none =>
      -- only an open that the tool did makes a session live
      cases ask <;> simp only [ToolCall.step, Option.some.injEq, reduceCtorEq] at hstep
      cases ok <;> simp only [reduceIte, Option.some.injEq, reduceCtorEq] at hstep
      subst hstep
      exact ⟨cs, [], by simp, by simp⟩
    | some s =>
      -- a command the tool ran keeps the session live, and nothing else does
      have hts : t' = s := by
        by_contra hs
        cases ask <;> simp [ToolCall.step, hs] at hstep
      subst hts
      cases ask with
      | openSession => simp [ToolCall.step] at hstep
      | closeSession => simp [ToolCall.step] at hstep
      | runCommand =>
        cases ok <;> simp only [ToolCall.step, ↓reduceIte, Option.some.injEq, reduceCtorEq,
          Bool.false_eq_true] at hstep
        subst hstep
        obtain ⟨before, since, hcs', hsince⟩ := ih hcs
        refine ⟨before, since ++ [⟨.runCommand, t', true⟩], by simp [hcs'], fun c hc => ?_⟩
        rcases List.mem_append.mp hc with hc | hc
        · exact hsince c hc
        · simpa using hc

/-- In a run from none, every command and every close concerns the live session. -/
theorem Disciplined.concerns_live {before after : List ToolCall} {live' : Option String}
    (h : Disciplined none (before ++ c :: after) live') (hc : c.ask ≠ .openSession) :
    LiveAfter before c.session := by
  obtain ⟨l, hbefore, hrest⟩ := disciplined_append.mp h
  obtain ⟨l', hstep, -⟩ := disciplined_cons.mp hrest
  obtain ⟨ask, t, ok⟩ := c
  cases l with
  | none => cases ask <;> simp [ToolCall.step] at hstep hc
  | some s =>
    have hts : t = s := by
      by_contra hs
      cases ask <;> simp [ToolCall.step, hs] at hstep
    subst hts
    exact hbefore.liveAfter

end Disciplined

/-- Calls recorded on top of an environment of `n` entries, keeping the discipline from `live` to
`live'`, each session named after the position of the call that opened it. -/
structure Trace (n : Nat) (live : Option String) (calls : List ToolCall) (live' : Option String) : Prop where
  disciplined : Disciplined live calls live'
  named : ∀ k c, calls[k]? = some c → c.ask = .openSession → c.session = toString (n + k)

namespace Trace

variable {n : Nat} {live live' live'' : Option String} {xs ys : List ToolCall}

theorem nil (n : Nat) (live : Option String) : Trace n live [] live :=
  ⟨disciplined_nil.mpr rfl, fun _ _ h => by simp at h⟩

theorem single {c : ToolCall} (h : ToolCall.step live c = some live')
    (hname : c.ask = .openSession → c.session = toString n) : Trace n live [c] live' where
  disciplined := disciplined_cons.mpr ⟨live', h, disciplined_nil.mpr rfl⟩
  named k d hk hd := by
    cases k with
    | zero =>
      cases Option.some.inj hk
      simpa using hname hd
    | succ k => simp at hk

theorem append (hx : Trace n live xs live') (hy : Trace (n + xs.length) live' ys live'') :
    Trace n live (xs ++ ys) live'' where
  disciplined := disciplined_append.mpr ⟨live', hx.disciplined, hy.disciplined⟩
  named k c hk hc := by
    rcases Nat.lt_or_ge k xs.length with hlt | hge
    · rw [List.getElem?_append_left hlt] at hk
      exact hx.named k c hk hc
    · rw [List.getElem?_append_right hge] at hk
      rw [hy.named (k - xs.length) c hk hc]
      congr 1
      omega

theorem of_append (h : Trace n live (xs ++ ys) live'') :
    ∃ live', Trace n live xs live' ∧ Trace (n + xs.length) live' ys live'' := by
  obtain ⟨live', hx, hy⟩ := disciplined_append.mp h.disciplined
  refine ⟨live', ⟨hx, fun k c hk hc => ?_⟩, ⟨hy, fun k c hk hc => ?_⟩⟩
  · have hlt := (List.getElem?_eq_some_iff.mp hk).1
    exact h.named k c (by rw [List.getElem?_append_left hlt]; exact hk) hc
  · have hname := h.named (xs.length + k) c (by rw [List.getElem?_append_right (by omega)]; simpa using hk) hc
    rw [hname, Nat.add_assoc]

/-- Sessions are named apart: no two calls open a session of the same name. -/
theorem opens_nodup (h : Trace n live xs live') :
    ((xs.filter (·.ask = .openSession)).map (·.session)).Nodup := by
  induction xs using List.reverseRecOn generalizing live' with
  | nil => simp
  | append_singleton cs d ih =>
    obtain ⟨l, hcs, hd⟩ := h.of_append
    by_cases hopen : d.ask = .openSession
    · -- a new name: the position of the new call, past every earlier one
      have hname : d.session = toString (n + cs.length) := by simpa using hd.named 0 d rfl hopen
      rw [List.filter_append, List.map_append, List.nodup_append]
      refine ⟨ih hcs, by simp [hopen], fun x hx y hy hxy => ?_⟩
      simp only [List.filter_cons, List.filter_nil, hopen, decide_true, if_true, List.map_cons,
        List.map_nil, List.mem_singleton] at hy
      obtain ⟨c, hc, rfl⟩ := List.mem_map.mp hx
      obtain ⟨hcmem, hcopen⟩ := List.mem_filter.mp hc
      obtain ⟨k, hk, hkc⟩ := List.getElem_of_mem hcmem
      have hcname := hcs.named k c (by simp [← hkc, hk]) (by simpa using hcopen)
      rw [hcname, hy, hname] at hxy
      have := Verilog.toString_nat_injective hxy
      omega
    · simpa [List.filter_append, hopen] using ih hcs

theorem countP_opens_le_one (h : Trace n live xs live') (t : String) :
    xs.countP (ToolCall.opens t) ≤ 1 :=
  calc xs.countP (ToolCall.opens t)
      ≤ (xs.filter (·.ask = .openSession)).countP (fun c => c.session == t) := by
        rw [List.countP_filter]
        refine List.countP_mono_left fun c _ hc => ?_
        simp only [ToolCall.opens, decide_eq_true_eq] at hc
        simp [hc]
    _ = ((xs.filter (·.ask = .openSession)).map (·.session)).count t := by
        rw [List.count, List.countP_map]
        rfl
    _ ≤ 1 := List.nodup_iff_count_le_one.mp h.opens_nodup t

theorem closes_le_one (h : Trace n none xs none) (t : String) : xs.countP (ToolCall.closes t) ≤ 1 := by
  have hbal := h.disciplined.balance t
  have hopen := h.countP_opens_le_one t
  simp only [ToolCall.isLive, reduceCtorEq, if_false] at hbal
  omega

theorem closes_eq_one (h : Trace n none xs none) {t : String} (hopened : ⟨.openSession, t, true⟩ ∈ xs)
    (hkept : ⟨.runCommand, t, false⟩ ∉ xs) : xs.countP (ToolCall.closes t) = 1 := by
  have hbal := h.disciplined.balance t
  have hopen := h.countP_opens_le_one t
  have hpos : 0 < xs.countP (ToolCall.opens t) :=
    List.countP_pos_iff.mpr ⟨_, hopened, by simp [ToolCall.opens]⟩
  have hdrops : xs.countP (ToolCall.drops t) = 0 :=
    List.countP_eq_zero.mpr fun c hc hd => hkept (by simp only [ToolCall.drops, decide_eq_true_eq] at hd; exact hd ▸ hc)
  simp only [ToolCall.isLive, reduceCtorEq, if_false] at hbal
  omega

end Trace

end BitSynth.Abc
