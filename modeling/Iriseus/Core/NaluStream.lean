import Iriseus.Verified.Framing

/-!
# The video channel: `StreamReceiver::receiveLoop`

A NALU travels as a four-byte big-endian length and its bytes.  `receiveLoop`
reads such frames with `readExact` until one is not admissible or the stream
ends, and enqueues the payload of every complete frame.  `netStep` takes the
same loop apart, for the receiver's threads (`NaluQueue`).

## Main results

* `receiveLoop_eq_frames` — the loop enqueues the frames of the stream, however
  the transport splits it.
* `stream_framing_exact` — these are the longest sequence of complete frames,
  and encoded NALUs come back.
-/

namespace Iriseus.Core

open Iriseus.Verified
open Iriseus.Verified.ByteStream
open Iriseus.Verified.Framing

/-- The largest NALU the receiver admits. -/
def maxNaluSize : Nat := 4 * 1024 * 1024

/-- The NALUs the loop enqueues from what the socket still delivers, while the
receiver runs. -/
def receiveLoop (segs : List Bytes) : List Bytes :=
  match _hlen : readExact 4 segs with
  | none => []
  | some (lenBuf, segs₁) =>
      if decodeBe32 lenBuf = 0 ∨ maxNaluSize < decodeBe32 lenBuf then []
      else
        match _hbody : readExact (decodeBe32 lenBuf) segs₁ with
        | none => []
        | some (nalu, segs₂) => nalu :: receiveLoop segs₂
termination_by segs.flatten.length
decreasing_by
  have h₁ := readExact_some _ _hlen
  have h₂ := readExact_some _ _hbody
  rw [h₁.2, h₂.2]
  simp only [List.length_append, h₁.1]
  omega

/-! ## One round of the loop -/

section Round

variable {segs segs₁ segs₂ : List Bytes} {lenBuf nalu : Bytes}

theorem receiveLoop_end (hlen : readExact 4 segs = none) : receiveLoop segs = [] := by
  rw [receiveLoop]
  split
  · rfl
  · rename_i h
    rw [hlen] at h
    cases h

theorem receiveLoop_body (hlen : readExact 4 segs = some (lenBuf, segs₁)) :
    receiveLoop segs =
      if decodeBe32 lenBuf = 0 ∨ maxNaluSize < decodeBe32 lenBuf then []
      else
        match readExact (decodeBe32 lenBuf) segs₁ with
        | none => []
        | some (nalu, segs₂) => nalu :: receiveLoop segs₂ := by
  rw [receiveLoop]
  split
  · rename_i h
    rw [hlen] at h
    cases h
  · rename_i h
    rw [hlen, Option.some.injEq, Prod.mk.injEq] at h
    obtain ⟨rfl, rfl⟩ := h
    split
    · rfl
    · split <;> rename_i h <;> rw [h]

/-- The frame the stream begins with, once its length was read. -/
theorem firstFrame_of_read (hlen : readExact 4 segs = some (lenBuf, segs₁)) :
    firstFrame maxNaluSize segs.flatten =
      if decodeBe32 lenBuf = 0 ∨ maxNaluSize < decodeBe32 lenBuf then none
      else if decodeBe32 lenBuf ≤ segs₁.flatten.length then
        some (segs₁.flatten.take (decodeBe32 lenBuf),
          segs₁.flatten.drop (decodeBe32 lenBuf))
      else none := by
  obtain ⟨h4, hflat⟩ := readExact_some _ hlen
  have hlong : 4 ≤ segs.flatten.length := by
    rw [hflat, List.length_append, h4]
    exact Nat.le_add_right _ _
  rw [firstFrame, if_pos hlong, hflat, ← h4, List.take_left, List.drop_left]

end Round

/-- **The loop enqueues the frames of the stream.** -/
theorem receiveLoop_eq_frames (segs : List Bytes) (hd : Delivered segs) :
    receiveLoop segs = frames maxNaluSize segs.flatten := by
  induction segs using receiveLoop.induct with
  | case1 segs hlen =>
      -- fewer than four bytes are left
      have hshort := (readExact_eq_none_iff segs hd 4).mp hlen
      rw [receiveLoop_end hlen, frames_of_none]
      rw [firstFrame, if_neg (by omega)]
  | case2 segs lenBuf segs₁ hlen hbad =>
      rw [receiveLoop_body hlen, if_pos hbad, frames_of_none]
      rw [firstFrame_of_read hlen, if_pos hbad]
  | case3 segs lenBuf segs₁ hlen hgood hbody =>
      -- the stream ends inside the payload
      have hshort := (readExact_eq_none_iff segs₁ (hd.of_readExact hlen) _).mp hbody
      rw [receiveLoop_body hlen, if_neg hgood, hbody, frames_of_none]
      rw [firstFrame_of_read hlen, if_neg hgood, if_neg (by omega)]
  | case4 segs lenBuf segs₁ hlen hgood nalu segs₂ hbody ih =>
      have hd₁ := hd.of_readExact hlen
      obtain ⟨hsize, hflat⟩ := readExact_some _ hbody
      have hfirst : firstFrame maxNaluSize segs.flatten = some (nalu, segs₂.flatten) := by
        have hle : decodeBe32 lenBuf ≤ segs₁.flatten.length := by
          rw [hflat, List.length_append, hsize]
          exact Nat.le_add_right _ _
        rw [firstFrame_of_read hlen, if_neg hgood, if_pos hle, hflat, ← hsize,
          List.take_left, List.drop_left]
      rw [receiveLoop_body hlen, if_neg hgood, hbody, frames_of_some hfirst]
      exact congrArg (nalu :: ·) (ih (hd₁.of_readExact hbody))

/-- **Stream framing is exact.**  However the transport splits a stream, the
loop enqueues the payloads of the longest sequence of complete frames at its
beginning, each of 1 to 4194304 bytes.  A length that is zero or larger, and
the end of the stream inside a frame, end it with what came before; so NALUs of
such sizes come back from the concatenation of their frames. -/
theorem stream_framing_exact :
    (∀ segs, Delivered segs → Longest maxNaluSize segs.flatten (receiveLoop segs)) ∧
      (∀ nalus : List Bytes, (∀ nalu ∈ nalus, Admissible maxNaluSize nalu) →
        ∀ rest, NoFrame maxNaluSize rest → ∀ segs, Delivered segs →
          segs.flatten = encode nalus ++ rest → receiveLoop segs = nalus) ∧
      ∀ nalus : List Bytes, (∀ nalu ∈ nalus, Admissible maxNaluSize nalu) →
        ∀ segs, Delivered segs → segs.flatten = encode nalus → receiveLoop segs = nalus := by
  have hmax : maxNaluSize < 2 ^ 32 := by decide
  have hstops : ∀ nalus : List Bytes, (∀ nalu ∈ nalus, Admissible maxNaluSize nalu) →
      ∀ rest, NoFrame maxNaluSize rest → ∀ segs, Delivered segs →
        segs.flatten = encode nalus ++ rest → receiveLoop segs = nalus := by
    intro nalus hadm rest hrest segs hd hflat
    rw [receiveLoop_eq_frames segs hd, hflat, frames_encode_append hmax nalus hadm,
      frames_of_none (firstFrame_eq_none_iff.mpr hrest), List.append_nil]
  refine ⟨fun segs hd => ?_, hstops, fun nalus hadm segs hd hflat => ?_⟩
  · rw [receiveLoop_eq_frames segs hd]
    exact longest_frames hmax _
  · exact hstops nalus hadm [] (Or.inl (by simp)) segs hd (by simpa using hflat)

end Iriseus.Core
