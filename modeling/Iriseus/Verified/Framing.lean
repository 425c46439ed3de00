import Iriseus.Verified.ByteStream

/-!
# Length-prefixed framing

A frame is a payload preceded by its length in four bytes, most significant
first; a reader admits payloads that are not empty and not longer than its
limit.  `frames` is what a stream contains: the payloads of the complete
admissible frames at its beginning, up to the first position at which there is
none.

## Main results

* `firstFrame_eq_some_iff` — the frame a stream begins with, exactly.
* `frames_encode_append` — encoded payloads come back, whatever follows them.
* `frames_spec`, `longest_frames` — the frames found are at the beginning of the
  stream, no further frame follows them, and every other sequence of frames at
  the beginning is a part of them.
* `Taken.flatten_eq`, `Taken.length_lt_of_stuck` — a reader that takes frames
  until it has a number of bytes finds the payloads that make up that number, if
  there are any.
-/

namespace Iriseus.Verified.Framing

open Iriseus.Verified.ByteStream

/-- A payload that a reader with the limit `max` admits. -/
structure Admissible (max : Nat) (payload : Bytes) : Prop where
  pos : 0 < payload.length
  le : payload.length ≤ max

/-- The frames of some payloads, one after the other. -/
def encode (payloads : List Bytes) : Bytes := payloads.flatMap frame

@[simp] theorem encode_nil : encode [] = [] := rfl

@[simp] theorem encode_cons (c : Bytes) (cs : List Bytes) :
    encode (c :: cs) = frame c ++ encode cs := rfl

@[simp] theorem encode_append (cs ds : List Bytes) :
    encode (cs ++ ds) = encode cs ++ encode ds := List.flatMap_append

theorem length_frame (c : Bytes) : (frame c).length = 4 + c.length := by
  rw [frame, List.length_append, length_encodeBe32]

/-! ## Four bytes and the number they denote -/

theorem encodeBe32_decodeBe32 {bs : Bytes} (hlen : bs.length = 4) :
    encodeBe32 (decodeBe32 bs) = bs := by
  match bs, hlen with
  | [a, b, c, d], _ =>
      have ha := a.toNat_lt
      have hb := b.toNat_lt
      have hc := c.toNat_lt
      have hd := d.toNat_lt
      have hdigits := decodeBe32_encodeBe32 (decodeBe32 [a, b, c, d]) (decodeBe32_lt _)
      generalize henc : encodeBe32 (decodeBe32 [a, b, c, d]) = es at hdigits
      match es, (congrArg List.length henc).symm.trans (length_encodeBe32 _) with
      | [a', b', c', d'], _ =>
          have ha' := a'.toNat_lt
          have hb' := b'.toNat_lt
          have hc' := c'.toNat_lt
          have hd' := d'.toNat_lt
          rw [decodeBe32_eq, decodeBe32_eq] at hdigits
          have heq : a'.toNat = a.toNat ∧ b'.toNat = b.toNat ∧ c'.toNat = c.toNat ∧
              d'.toNat = d.toNat := by omega
          simp only [UInt8.toNat_inj] at heq
          obtain ⟨rfl, rfl, rfl, rfl⟩ := heq
          rfl

/-! ## The frame a stream begins with -/

/-- The payload of the frame a stream begins with, and what follows it. -/
def firstFrame (max : Nat) (stream : Bytes) : Option (Bytes × Bytes) :=
  if 4 ≤ stream.length then
    let size := decodeBe32 (stream.take 4)
    if size = 0 ∨ max < size then none
    else if size ≤ (stream.drop 4).length then
      some ((stream.drop 4).take size, (stream.drop 4).drop size)
    else none
  else none

theorem firstFrame_frame_append {max : Nat} (hmax : max < 2 ^ 32) {c : Bytes}
    (hc : Admissible max c) (rest : Bytes) :
    firstFrame max (frame c ++ rest) = some (c, rest) := by
  have hpos := hc.pos
  have hle := hc.le
  have hsize : decodeBe32 ((frame c ++ rest).take 4) = c.length := by
    rw [frame, List.append_assoc, List.take_left' (length_encodeBe32 _)]
    exact decodeBe32_encodeBe32 _ (by omega)
  have hdrop : (frame c ++ rest).drop 4 = c ++ rest := by
    rw [frame, List.append_assoc, List.drop_left' (length_encodeBe32 _)]
  have hlen : 4 ≤ (frame c ++ rest).length := by
    rw [List.length_append, length_frame]
    omega
  have hadmits : ¬(c.length = 0 ∨ max < c.length) := by omega
  rw [firstFrame, if_pos hlen]
  simp only [hsize, hadmits, if_false, hdrop, List.length_append, Nat.le_add_right,
    if_true, List.take_left, List.drop_left]

/-- **The first frame.** -/
theorem firstFrame_eq_some_iff {max : Nat} (hmax : max < 2 ^ 32) {stream c rest : Bytes} :
    firstFrame max stream = some (c, rest) ↔
      Admissible max c ∧ stream = frame c ++ rest := by
  constructor
  · intro h
    simp only [firstFrame] at h
    split at h
    · rename_i hlen
      split at h
      · cases h
      · rename_i hadmits
        split at h
        · rename_i hsize
          simp only [Option.some.injEq, Prod.mk.injEq] at h
          obtain ⟨rfl, rfl⟩ := h
          have hclen : ((stream.drop 4).take (decodeBe32 (stream.take 4))).length =
              decodeBe32 (stream.take 4) := by
            rw [List.length_take]
            omega
          refine ⟨⟨by omega, by omega⟩, ?_⟩
          rw [frame, hclen, encodeBe32_decodeBe32 (by rw [List.length_take]; omega),
            List.append_assoc, List.take_append_drop, List.take_append_drop]
        · cases h
    · cases h
  · rintro ⟨hc, rfl⟩
    exact firstFrame_frame_append hmax hc rest

/-- A stream begins with no frame when its length field is incomplete, zero or
above the limit, or when it ends inside the payload. -/
def NoFrame (max : Nat) (stream : Bytes) : Prop :=
  stream.length < 4 ∨ decodeBe32 (stream.take 4) = 0 ∨ max < decodeBe32 (stream.take 4) ∨
    stream.length < 4 + decodeBe32 (stream.take 4)

theorem firstFrame_eq_none_iff {max : Nat} {stream : Bytes} :
    firstFrame max stream = none ↔ NoFrame max stream := by
  simp only [firstFrame, NoFrame, List.length_drop]
  (repeat' split) <;> simp only [reduceCtorEq, false_iff, true_iff] <;> omega

/-- What follows a frame is shorter. -/
theorem length_rest_lt {max : Nat} {stream c rest : Bytes}
    (h : firstFrame max stream = some (c, rest)) : rest.length < stream.length := by
  simp only [firstFrame] at h
  (repeat' split at h) <;> cases h
  simp only [List.length_drop]
  omega

/-! ## All the frames -/

/-- The payloads of the complete admissible frames at the beginning. -/
def frames (max : Nat) (stream : Bytes) : List Bytes :=
  match _hfirst : firstFrame max stream with
  | some (c, rest) => c :: frames max rest
  | none => []
termination_by stream.length
decreasing_by exact length_rest_lt _hfirst

theorem frames_of_some {max : Nat} {stream c rest : Bytes}
    (h : firstFrame max stream = some (c, rest)) :
    frames max stream = c :: frames max rest := by
  rw [frames]
  split
  · rename_i h'
    rw [h, Option.some.injEq, Prod.mk.injEq] at h'
    rw [h'.1, h'.2]
  · rename_i h'
    rw [h] at h'
    cases h'

theorem frames_of_none {max : Nat} {stream : Bytes} (h : firstFrame max stream = none) :
    frames max stream = [] := by
  rw [frames]
  split
  · rename_i h'
    rw [h] at h'
    cases h'
  · rfl

/-- **Round trip.**  Encoded payloads come back, whatever follows them. -/
theorem frames_encode_append {max : Nat} (hmax : max < 2 ^ 32) (cs : List Bytes)
    (hcs : ∀ c ∈ cs, Admissible max c) (rest : Bytes) :
    frames max (encode cs ++ rest) = cs ++ frames max rest := by
  induction cs with
  | nil => rfl
  | cons c cs ih =>
      rw [encode_cons, List.append_assoc,
        frames_of_some (firstFrame_frame_append hmax (hcs c List.mem_cons_self) _),
        ih fun d hd => hcs d (List.mem_cons_of_mem _ hd), List.cons_append]

/-- **Soundness.**  The frames found are admissible and at the beginning of the
stream, and no frame follows them. -/
theorem frames_spec {max : Nat} (hmax : max < 2 ^ 32) (stream : Bytes) :
    ∃ rest, stream = encode (frames max stream) ++ rest ∧ firstFrame max rest = none ∧
      ∀ c ∈ frames max stream, Admissible max c := by
  induction stream using frames.induct max with
  | case1 stream c rest h ih =>
      obtain ⟨rest', hrest, hnone, hadm⟩ := ih
      obtain ⟨hc, hstream⟩ := (firstFrame_eq_some_iff hmax).mp h
      rw [frames_of_some h]
      refine ⟨rest', ?_, hnone, ?_⟩
      · rw [encode_cons, List.append_assoc, ← hrest]
        exact hstream
      · intro d hd
        rcases List.mem_cons.mp hd with rfl | hd
        · exact hc
        · exact hadm d hd
  | case2 stream h =>
      rw [frames_of_none h]
      exact ⟨stream, rfl, h, by simp⟩

/-- `cs` are the payloads of the longest sequence of complete admissible frames
at the beginning of `stream`. -/
structure Longest (max : Nat) (stream : Bytes) (cs : List Bytes) : Prop where
  admissible : ∀ c ∈ cs, Admissible max c
  start : encode cs <+: stream
  longest : ∀ ds, (∀ d ∈ ds, Admissible max d) → encode ds <+: stream → ds <+: cs

/-- **Completeness.**  Frames at the beginning of a stream are among those
found, in the same order. -/
theorem prefix_frames {max : Nat} (hmax : max < 2 ^ 32) {cs : List Bytes} {stream : Bytes}
    (hcs : ∀ c ∈ cs, Admissible max c) (hstart : encode cs <+: stream) :
    cs <+: frames max stream := by
  obtain ⟨rest, rfl⟩ := hstart
  rw [frames_encode_append hmax cs hcs]
  exact List.prefix_append _ _

theorem longest_frames {max : Nat} (hmax : max < 2 ^ 32) (stream : Bytes) :
    Longest max stream (frames max stream) := by
  obtain ⟨rest, hstream, -, hadm⟩ := frames_spec hmax stream
  exact
    { admissible := hadm
      start := ⟨rest, hstream.symm⟩
      longest := fun _ hds hstart => prefix_frames hmax hds hstart }

/-! ## Reading a number of bytes -/

/-- A reader that needs `n` bytes of payload has taken the frames `cs`, and
`rest` is still to come: each of them was needed. -/
structure Taken (max n : Nat) (stream : Bytes) (cs : List Bytes) (rest : Bytes) : Prop where
  admissible : ∀ c ∈ cs, Admissible max c
  split : stream = encode cs ++ rest
  needed : ∀ ds d, cs = ds ++ [d] → ds.flatten.length < n

theorem Taken.start (max n : Nat) (stream : Bytes) : Taken max n stream [] stream where
  admissible := by simp
  split := rfl
  needed := by simp

/-- One more frame. -/
theorem Taken.snoc {max n : Nat} {stream rest left c : Bytes} {cs : List Bytes}
    (h : Taken max n stream cs rest) (hneeded : cs.flatten.length < n)
    (hc : Admissible max c) (hrest : rest = frame c ++ left) :
    Taken max n stream (cs ++ [c]) left where
  admissible := by
    intro d hd
    rcases List.mem_append.mp hd with hd | hd
    · exact h.admissible d hd
    · exact List.mem_singleton.mp hd ▸ hc
  split := by
    rw [h.split, hrest, encode_append, encode_cons, encode_nil, List.append_nil,
      List.append_assoc]
  needed := by
    intro ds d heq
    rw [← (List.append_inj' heq rfl).1]
    exact hneeded

/-- Less than a frame too much is taken. -/
theorem Taken.length_le {max n : Nat} {stream rest : Bytes} {cs : List Bytes}
    (h : Taken max n stream cs rest) : cs.flatten.length ≤ n + max := by
  rcases List.eq_nil_or_concat cs with rfl | ⟨ds, d, rfl⟩
  · exact Nat.zero_le _
  · rw [List.concat_eq_append] at h ⊢
    have hneeded := h.needed ds d rfl
    have hle := (h.admissible d (by simp)).le
    simp only [List.flatten_append, List.flatten_cons, List.flatten_nil, List.append_nil,
      List.length_append]
    omega

/-- Once there are enough bytes, payloads of exactly `n` bytes are those
taken. -/
theorem Taken.flatten_eq {max n : Nat} (hmax : max < 2 ^ 32) {stream rest : Bytes}
    {cs ds : List Bytes} (h : Taken max n stream cs rest) (henough : n ≤ cs.flatten.length)
    (hds : ∀ d ∈ ds, Admissible max d) (hstart : encode ds <+: stream)
    (hsize : ds.flatten.length = n) : ds.flatten = cs.flatten := by
  have hcs : cs <+: frames max stream := prefix_frames hmax h.admissible ⟨rest, h.split.symm⟩
  rcases List.prefix_or_prefix_of_prefix (prefix_frames hmax hds hstart) hcs with
    ⟨es, rfl⟩ | ⟨es, rfl⟩
  · rcases List.eq_nil_or_concat es with rfl | ⟨es, e, rfl⟩
    · rw [List.append_nil]
    · -- the last frame taken was not needed
      have hneeded := h.needed (ds ++ es) e (by
        rw [List.concat_eq_append, List.append_assoc])
      rw [List.flatten_append, List.length_append] at hneeded
      omega
  · rw [List.flatten_append] at hsize ⊢
    rw [List.length_append] at hsize
    have hmore : es.flatten = [] := List.eq_nil_of_length_eq_zero (by omega)
    rw [hmore, List.append_nil]

/-- If no frame follows, all payloads at the beginning are too short. -/
theorem Taken.length_lt_of_stuck {max n : Nat} (hmax : max < 2 ^ 32) {stream rest : Bytes}
    {cs ds : List Bytes} (h : Taken max n stream cs rest) (hneeded : cs.flatten.length < n)
    (hstuck : firstFrame max rest = none) (hds : ∀ d ∈ ds, Admissible max d)
    (hstart : encode ds <+: stream) : ds.flatten.length < n := by
  have hpart := prefix_frames hmax hds hstart
  rw [h.split, frames_encode_append hmax cs h.admissible, frames_of_none hstuck,
    List.append_nil] at hpart
  obtain ⟨es, rfl⟩ := hpart
  rw [List.flatten_append, List.length_append] at hneeded
  omega

example : frames 3 [0, 0, 0, 2, 7, 8, 0, 0, 0, 1, 9, 0, 0, 0, 4, 1, 1, 1, 1] = [[7, 8], [9]] := by
  simp [frames, firstFrame, decodeBe32]

end Iriseus.Verified.Framing
