import Mathlib
import BitSynth.Abc.Frame

namespace BitSynth.Abc

/-- A request a client can put on the wire: a known opcode, an argument free of the terminator,
and no argument on an opcode that takes none. -/
structure Frame.Sendable (f : Frame) : Prop where
  known : f.op = .newSession ∨ f.op = .command ∨ f.op = .endSession ∨ f.op = .bye
  clean : terminator ∉ f.arg
  bare : f.op.hasArg = false → f.arg = []

/-- The frame a reader builds from a request: the request, with the opcode bytes as received. -/
def Frame.received (f : Frame) : Frame := { f with raw := Text.bytesOf f.op.text }

/-- The wire bytes of a request: its opcode, then for `$new$` and `$cmd$` the argument and the
terminator. -/
def Frame.wire (f : Frame) : List UInt8 :=
  Text.bytesOf f.op.text ++ if f.op.hasArg then f.arg ++ [terminator] else []

namespace Frame

variable {f : Frame}

theorem Sendable.beq_unknown (h : f.Sendable) : (f.op == .unknown) = false := by
  rcases h.known with h | h | h | h <;> rw [h] <;> decide

theorem Sendable.opcode (h : f.Sendable) :
    (Text.bytesOf f.op.text).length = opcodeLength ∧ Op.ofWire (Text.bytesOf f.op.text) = f.op := by
  rcases h.known with h | h | h | h <;> rw [h] <;> decide +kernel

theorem encode_eq_wire (h : f.Sendable) : encode f.op f.arg = .ok f.wire := by
  unfold encode wire
  cases hk : f.op.hasArg <;> simp [h.beq_unknown, h.clean, hk, h.bare]

end Frame

theorem isEmpty_eq_false_of_le {input : List UInt8} (hlen : opcodeLength ≤ input.length) :
    input.isEmpty = false := by
  rw [List.isEmpty_eq_false_iff, ← List.length_pos_iff]
  exact Nat.lt_of_lt_of_le (by decide) hlen

theorem nextFrame_short {input : List UInt8} (h : input.length < opcodeLength) :
    nextFrame input = .error (if input.isEmpty then endOfInput else truncatedInput) := by
  by_cases hne : input.isEmpty <;> simp [nextFrame, hne, h]

theorem nextFrame_bare {input : List UInt8} (hlen : opcodeLength ≤ input.length)
    (hk : (Op.ofWire (input.take opcodeLength)).hasArg = false) :
    nextFrame input = .ok ({ op := Op.ofWire (input.take opcodeLength), raw := input.take opcodeLength },
      input.drop opcodeLength) := by
  simp [nextFrame, isEmpty_eq_false_of_le hlen, Nat.not_lt.mpr hlen, hk]

theorem nextFrame_arg {input arg after : List UInt8} (hlen : opcodeLength ≤ input.length)
    (hk : (Op.ofWire (input.take opcodeLength)).hasArg = true)
    (hu : untilTerminator (input.drop opcodeLength) = some (arg, after)) :
    nextFrame input =
      .ok ({ op := Op.ofWire (input.take opcodeLength), arg, raw := input.take opcodeLength }, after) := by
  simp [nextFrame, isEmpty_eq_false_of_le hlen, Nat.not_lt.mpr hlen, hk, hu]

theorem nextFrame_unterminated {input : List UInt8} (hlen : opcodeLength ≤ input.length)
    (hk : (Op.ofWire (input.take opcodeLength)).hasArg = true)
    (hu : untilTerminator (input.drop opcodeLength) = none) : nextFrame input = .error truncatedInput := by
  simp [nextFrame, isEmpty_eq_false_of_le hlen, Nat.not_lt.mpr hlen, hk, hu]

/-- What one read can give: the opcode bytes off the front, and for an opcode with an argument
the bytes up to the next terminator. -/
theorem nextFrame_cases {input rest : List UInt8} {f : Frame} (h : nextFrame input = .ok (f, rest)) :
    opcodeLength ≤ input.length ∧ f.raw = input.take opcodeLength ∧ f.op = Op.ofWire f.raw ∧
      (f.op.hasArg = false ∧ f.arg = [] ∧ rest = input.drop opcodeLength ∨
       f.op.hasArg = true ∧ untilTerminator (input.drop opcodeLength) = some (f.arg, rest)) := by
  rcases Nat.lt_or_ge input.length opcodeLength with hshort | hlen
  · rw [nextFrame_short hshort] at h
    cases h
  cases hk : (Op.ofWire (input.take opcodeLength)).hasArg
  · rw [nextFrame_bare hlen hk] at h
    obtain ⟨rfl, rfl⟩ := Prod.mk.inj (Except.ok.inj h)
    exact ⟨hlen, rfl, rfl, .inl ⟨hk, rfl, rfl⟩⟩
  · rcases hu : untilTerminator (input.drop opcodeLength) with _ | ⟨arg, after⟩
    · rw [nextFrame_unterminated hlen hk hu] at h
      cases h
    · rw [nextFrame_arg hlen hk hu] at h
      obtain ⟨rfl, rfl⟩ := Prod.mk.inj (Except.ok.inj h)
      exact ⟨hlen, rfl, rfl, .inr ⟨hk, rfl⟩⟩

/-- The only ways a read fails: the stream ends between frames or inside one. -/
theorem nextFrame_error {input : List UInt8} {e : Error} (h : nextFrame input = .error e) :
    e = endOfInput ∨ e = truncatedInput := by
  rcases Nat.lt_or_ge input.length opcodeLength with hshort | hlen
  · rw [nextFrame_short hshort] at h
    split at h <;> simp_all
  cases hk : (Op.ofWire (input.take opcodeLength)).hasArg
  · rw [nextFrame_bare hlen hk] at h
    cases h
  · rcases hu : untilTerminator (input.drop opcodeLength) with _ | ⟨arg, after⟩
    · rw [nextFrame_unterminated hlen hk hu] at h
      exact .inr (Except.error.inj h).symm
    · rw [nextFrame_arg hlen hk hu] at h
      cases h

/-- Reading up to a terminator splits the bytes at their first terminator. -/
theorem eq_of_untilTerminator {bs arg after : List UInt8} (h : untilTerminator bs = some (arg, after)) :
    bs = arg ++ terminator :: after ∧ terminator ∉ arg := by
  induction bs generalizing arg with
  | nil => simp [untilTerminator] at h
  | cons b bs ih =>
    simp only [untilTerminator] at h
    split_ifs at h with hb
    · obtain ⟨rfl, rfl⟩ := Prod.mk.inj (Option.some.inj h)
      simp [beq_iff_eq.mp hb]
    · obtain ⟨⟨a, r⟩, hr, he⟩ := Option.map_eq_some_iff.mp h
      obtain ⟨rfl, rfl⟩ := Prod.mk.inj he
      obtain ⟨rfl, ha⟩ := ih hr
      refine ⟨rfl, ?_⟩
      simp only [List.mem_cons, not_or]
      exact ⟨fun h' => hb (by simp [h']), ha⟩

theorem untilTerminator_append {arg : List UInt8} (h : terminator ∉ arg) (rest : List UInt8) :
    untilTerminator (arg ++ terminator :: rest) = some (arg, rest) := by
  induction arg with
  | nil => simp [untilTerminator]
  | cons b bs ih =>
    have hb : b ≠ terminator := fun hb => h (hb ▸ List.mem_cons_self)
    simp [untilTerminator, hb, ih (fun hm => h (List.mem_cons_of_mem b hm))]

/-- One request read off the front of a stream is the request sent, the stream after it
untouched. -/
theorem nextFrame_wire_append {f : Frame} (h : f.Sendable) (rest : List UInt8) :
    nextFrame (f.wire ++ rest) = .ok (f.received, rest) := by
  obtain ⟨hlen, hop⟩ := h.opcode
  have hle : opcodeLength ≤ (f.wire ++ rest).length := by simp [Frame.wire, hlen]
  have htake : (f.wire ++ rest).take opcodeLength = Text.bytesOf f.op.text := by
    simp [Frame.wire, hlen]
  have hdrop : (f.wire ++ rest).drop opcodeLength =
      (if f.op.hasArg then f.arg ++ [terminator] else []) ++ rest := by
    simp [Frame.wire, hlen]
  cases hk : f.op.hasArg
  · rw [nextFrame_bare hle (by rw [htake, hop, hk]), htake, hdrop, hop, hk]
    simp [Frame.received, h.bare hk]
  · have hu : untilTerminator ((f.wire ++ rest).drop opcodeLength) = some (f.arg, rest) := by
      rw [hdrop, hk, if_pos rfl, List.append_assoc, List.singleton_append]
      exact untilTerminator_append h.clean rest
    rw [nextFrame_arg hle (by rw [htake, hop, hk]) hu, htake, hop]
    rfl

/-- Requests written one after another are read back one by one, and the reader then goes on
with the bytes that follow exactly as it would on those bytes alone. -/
theorem readFrames_wire_append {fs : List Frame} (hfs : ∀ f ∈ fs, f.Sendable)
    (rest : List UInt8) (n : Nat) :
    readFrames (fs.length + n) ((fs.map Frame.wire).flatten ++ rest) =
      (fs.map Frame.received ++ (readFrames n rest).1, (readFrames n rest).2) := by
  induction fs with
  | nil => simp
  | cons f fs ih =>
    have hf := hfs f List.mem_cons_self
    have hrest := ih fun g hg => hfs g (List.mem_cons_of_mem f hg)
    rw [List.length_cons, Nat.add_right_comm, List.map_cons, List.flatten_cons, List.append_assoc,
      readFrames, nextFrame_wire_append hf]
    simp [hrest]

theorem nextFrame_consumes {input rest : List UInt8} {f : Frame}
    (h : nextFrame input = .ok (f, rest)) : rest.length + opcodeLength ≤ input.length := by
  obtain ⟨hlen, -, -, ⟨-, -, rfl⟩ | ⟨-, hu⟩⟩ := nextFrame_cases h
  · simp only [List.length_drop]
    omega
  · have hsplit := congrArg List.length (eq_of_untilTerminator hu).1
    simp only [List.length_drop, List.length_append, List.length_cons] at hsplit
    omega

/-- Reading frames from any finite stream stops, within a fifth of its length, at its end or at
a frame cut short. -/
theorem readFrames_ends (input : List UInt8) {n : Nat} (hn : input.length / opcodeLength < n) :
    ∃ fs e, readFrames n input = (fs, some e) ∧ fs.length ≤ input.length / opcodeLength ∧
      (e = endOfInput ∨ e = truncatedInput) := by
  induction n generalizing input with
  | zero => exact absurd hn (Nat.not_lt_zero _)
  | succ n ih =>
    rw [readFrames]
    split
    · rename_i e he
      exact ⟨[], e, rfl, Nat.zero_le _, nextFrame_error he⟩
    · rename_i f rest hf
      have hc := nextFrame_consumes hf
      have hdiv : rest.length / opcodeLength + 1 ≤ input.length / opcodeLength := by
        rw [← Nat.add_div_right _ (by decide : 0 < opcodeLength)]
        exact Nat.div_le_div_right hc
      obtain ⟨fs, e, hr, hlen, he⟩ := ih rest (by omega)
      exact ⟨f :: fs, e, by simp [hr], by simp; omega, he⟩

theorem nextFrame_unknown {input : List UInt8} (hlen : opcodeLength ≤ input.length)
    (hop : Op.ofWire (input.take opcodeLength) = .unknown) :
    nextFrame input = .ok ({ op := .unknown, raw := input.take opcodeLength },
      input.drop opcodeLength) := by
  rw [nextFrame_bare hlen (by rw [hop]; rfl), hop]

/-- The request stream is read back exactly. Requests with known opcodes and arguments free of
the terminator are encoded, and reading their concatenation followed by any bytes gives the
requests, each with its opcode bytes as received, followed by what reading those bytes alone gives.
On any finite stream reading stops, after at most a fifth of its length in frames, at its end or
at a frame cut short, and five bytes naming no opcode are one frame of the unknown opcode. -/
theorem frame_stream_codec :
    (∀ (fs : List Frame), (∀ f ∈ fs, f.Sendable) → ∀ (rest : List UInt8) (n : Nat),
      fs.mapM (fun f => Frame.encode f.op f.arg) = .ok (fs.map Frame.wire) ∧
      readFrames (fs.length + n) ((fs.map Frame.wire).flatten ++ rest) =
        (fs.map Frame.received ++ (readFrames n rest).1, (readFrames n rest).2)) ∧
    (∀ (input : List UInt8) (n : Nat), input.length / opcodeLength < n →
      ∃ fs e, readFrames n input = (fs, some e) ∧ fs.length ≤ input.length / opcodeLength ∧
        (e = endOfInput ∨ e = truncatedInput)) ∧
    (∀ input : List UInt8, opcodeLength ≤ input.length →
      Op.ofWire (input.take opcodeLength) = .unknown →
      nextFrame input = .ok ({ op := .unknown, raw := input.take opcodeLength },
        input.drop opcodeLength)) := by
  refine ⟨fun fs hfs rest n => ⟨?_, readFrames_wire_append hfs rest n⟩,
    fun input _ hn => readFrames_ends input hn, fun _ hlen hop => nextFrame_unknown hlen hop⟩
  induction fs with
  | nil => rfl
  | cons f fs ih =>
    rw [List.mapM_cons, Frame.encode_eq_wire (hfs f List.mem_cons_self),
      ih fun g hg => hfs g (List.mem_cons_of_mem f hg)]
    rfl

end BitSynth.Abc
