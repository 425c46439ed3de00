import Iriseus.Core.StoredBytes
import Iriseus.Verified.Framing

/-!
# What the receiving loop accepts

A stream conveys a content to a session if it begins with admissible frames
whose payloads are the content, and the content has the announced size and
hash.  An upload that nobody disturbs, and whose file operations succeed, comes
to a success if its stream conveys a content, and then has stored it; otherwise
it comes to a failure.

The loop takes frames until it has the announced number of bytes.  What it has
taken at each point, and at which points the stream is known not to convey
anything, is said by `Upload.Parsed`.

## Main results

* `upload_accepts_format` — the outcome of an undisturbed upload, for every
  stream and every way it is delivered in segments.
-/

namespace Iriseus.Core

open Iriseus.Verified
open Iriseus.Verified.ByteStream
open Iriseus.Verified.Framing
open Iriseus.Verified.Machine
open UploadEvent

variable {κ : Type}

/-! ## The format -/

/-- The stream begins with frames whose payloads are `content`, which is of the
announced size and hash. -/
def Conveys (H : IncrementalHash) (s : ActiveTransferSession) (stream content : Bytes) :
    Prop :=
  ∃ cs, (∀ c ∈ cs, Admissible maxChunkSize c) ∧ encode cs <+: stream ∧
    cs.flatten = content ∧ content.length = s.expectedSize.toNat ∧ HashMatches H s content

/-- The frames `cs` have been taken of the stream, and `rest` is still to
come. -/
abbrev Took (s : ActiveTransferSession) (stream : Bytes) (cs : List Bytes) (rest : Bytes) :
    Prop :=
  Taken maxChunkSize s.expectedSize.toNat stream cs rest

theorem maxChunkSize_lt : maxChunkSize < 2 ^ 32 := by decide

section Format

variable {H : IncrementalHash} {s : ActiveTransferSession} {stream rest content : Bytes}
variable {cs : List Bytes}

/-- With enough bytes taken, these are the content if there is one. -/
theorem Conveys.eq_taken (h : Conveys H s stream content) (ht : Took s stream cs rest)
    (henough : s.expectedSize.toNat ≤ cs.flatten.length) : content = cs.flatten := by
  obtain ⟨ds, hds, hstart, rfl, hsize, -⟩ := h
  exact ht.flatten_eq maxChunkSize_lt henough hds hstart hsize

/-- What has been taken is the content if size and hash are right. -/
theorem conveys_of_taken (ht : Took s stream cs rest)
    (hsize : cs.flatten.length = s.expectedSize.toNat) (hhash : HashMatches H s cs.flatten) :
    Conveys H s stream cs.flatten :=
  ⟨cs, ht.admissible, ⟨rest, ht.split.symm⟩, rfl, hsize, hhash⟩

/-- Too much has been taken. -/
theorem not_conveys_of_excess (ht : Took s stream cs rest)
    (hexcess : s.expectedSize.toNat < cs.flatten.length) :
    ¬∃ content, Conveys H s stream content := by
  rintro ⟨content, h⟩
  have heq := h.eq_taken ht (Nat.le_of_lt hexcess)
  obtain ⟨-, -, -, -, hsize, -⟩ := h
  rw [heq] at hsize
  omega

/-- What has been taken does not have the announced hash. -/
theorem not_conveys_of_hash (ht : Took s stream cs rest)
    (henough : s.expectedSize.toNat ≤ cs.flatten.length) (hbad : ¬HashMatches H s cs.flatten) :
    ¬∃ content, Conveys H s stream content := by
  rintro ⟨content, h⟩
  have heq := h.eq_taken ht henough
  obtain ⟨-, -, -, -, -, hhash⟩ := h
  exact hbad (heq ▸ hhash)

/-- More is needed, and no frame follows. -/
theorem not_conveys_of_stuck (ht : Took s stream cs rest)
    (hneeded : cs.flatten.length < s.expectedSize.toNat)
    (hstuck : NoFrame maxChunkSize rest) : ¬∃ content, Conveys H s stream content := by
  rintro ⟨content, ds, hds, hstart, rfl, hsize, -⟩
  have hlt := ht.length_lt_of_stuck maxChunkSize_lt hneeded (firstFrame_eq_none_iff.mpr hstuck)
    hds hstart
  omega

/-- Bytes after the last frame needed do not matter. -/
theorem conveys_append_iff (ht : Took s stream cs rest)
    (henough : s.expectedSize.toNat ≤ cs.flatten.length) (rest' : Bytes) :
    Conveys H s (encode cs ++ rest') content ↔ Conveys H s stream content := by
  have ht' : Took s (encode cs ++ rest') cs rest' :=
    { admissible := ht.admissible, split := rfl, needed := ht.needed }
  constructor
  · intro h
    obtain rfl := h.eq_taken ht' henough
    obtain ⟨-, -, -, -, hsize, hhash⟩ := h
    exact conveys_of_taken ht hsize hhash
  · intro h
    obtain rfl := h.eq_taken ht henough
    obtain ⟨-, -, -, -, hsize, hhash⟩ := h
    exact conveys_of_taken ht' hsize hhash

end Format

/-! ## What the body has taken -/

/-- Nobody disturbs the upload, and its file operations succeed. -/
structure UploadLabel.Smooth (a : UploadLabel) : Prop where
  runs : a.stops = false
  live : a.cancels = false
  stays : a.cleans = false
  opens : a.opens = true
  moves : a.moves = true
  keeps : a.loses = false

/-- The file has been added under a path that the loop tries, and has the
content. -/
def StoredUnder (P : Platform κ) (s : ActiveTransferSession) (k : κ) (fs₀ fs : FileStore κ)
    (content : Bytes) : Prop :=
  ∃ n dst, P.qtKey (tryPath s.targetFilePath n) = some dst ∧ Added k fs₀ fs dst ∧
    fs.read? dst = some content

variable {P : Platform κ} {H : IncrementalHash} {s : ActiveTransferSession} {k : κ}
variable {fs₀ : FileStore κ} {stream : Bytes} {u : Upload κ H} {h : List (UploadEvent κ)}

/-- What is known at each point about the stream: the frames taken so far, or
that it conveys nothing. -/
def Upload.Parsed (P : Platform κ) (s : ActiveTransferSession) (k : κ) (fs₀ : FileStore κ)
    (stream : Bytes) (u : Upload κ H) (received : Bytes) (reports : List Bool) : Prop :=
  let left := u.segs.flatten
  let size := s.expectedSize.toNat
  match u.pc with
  | .dispatch _ => received = [] ∧ left = stream
  | .upload .openTemp => received = [] ∧ left = stream
  | .upload (.recvHead _) => ∃ cs, cs.flatten = received ∧ Took s stream cs left
  | .upload (.recvLen _) =>
      ∃ cs, cs.flatten = received ∧ Took s stream cs left ∧ cs.flatten.length < size
  | .upload (.recvChunk _ chunkSize) => ∃ cs, cs.flatten = received ∧
      Took s stream cs (encodeBe32 chunkSize ++ left) ∧ cs.flatten.length < size ∧
        0 < chunkSize ∧ chunkSize ≤ maxChunkSize
  | .upload (.recvWrite _ _) => ∃ cs, cs.flatten = received ∧ Took s stream cs left
  | .upload (.recvReport _) => ∃ cs, cs.flatten = received ∧ Took s stream cs left
  | .upload (.closeTemp _ false) =>
      ∃ cs, cs.flatten = received ∧ Took s stream cs left ∧ size ≤ cs.flatten.length
  | .upload (.recvCheck _ _ false) =>
      ∃ cs, cs.flatten = received ∧ Took s stream cs left ∧ size ≤ cs.flatten.length
  | .upload (.verify _) =>
      ∃ cs, cs.flatten = received ∧ Took s stream cs left ∧ size = cs.flatten.length
  | .upload (.resolve finalPath count) =>
      (∃ n, finalPath = tryPath s.targetFilePath n ∧ count = n + 1) ∧
        Conveys H s stream received
  | .upload (.rename finalPath) => (∃ n, finalPath = tryPath s.targetFilePath n) ∧
      qtExists P u.fs finalPath = false ∧ Conveys H s stream received
  | .upload (.saved _) =>
      Conveys H s stream received ∧ StoredUnder P s k fs₀ u.fs received
  | .done => (reports = [true] ∧ Conveys H s stream received ∧
        StoredUnder P s k fs₀ u.fs received) ∨
      (reports = [false] ∧ ¬∃ content, Conveys H s stream content)
  | .upload .dropUnsaved => False
  | _ => ¬∃ content, Conveys H s stream content

/-- As long as what has been received fits in a file, nothing has been lost and
the stream is good. -/
def Upload.Whole (u : Upload κ H) (h : List (UploadEvent κ)) : Prop :=
  (receivedBytes h).length ≤ FileStore.maxFileBytes →
    lostBytes h = [] ∧ ∀ pc o, u.pc = .upload pc → pc.out = some o → o.good = true

/-- From the close to the rename the temporary file is there. -/
def Upload.Present (k : κ) (u : Upload κ H) : Prop :=
  match u.pc with
  | .upload (.recvCheck _ _ _) => u.fs.names k ≠ none
  | .upload (.verify _) => u.fs.names k ≠ none
  | .upload (.resolve _ _) => u.fs.names k ≠ none
  | .upload (.rename _) => u.fs.names k ≠ none
  | _ => True

/-- An undisturbed upload of `stream`. -/
structure Advances [DecidableEq κ] (P : Platform κ) (s : ActiveTransferSession) (k : κ)
    (fs₀ : FileStore κ) (stream : Bytes) (u : Upload κ H) (h : List (UploadEvent κ)) :
    Prop where
  files : UploadInv k fs₀ u h
  ledger : u.Ledger P s k (receivedBytes h) (lostBytes h)
  whole : u.Whole h
  present : u.Present k
  delivered : Delivered u.segs
  running : u.running = true
  live : u.cancelled = false
  parsed : u.Parsed P s k fs₀ stream (receivedBytes h) (outcomes h)

section Reads

/-- A failed read of a length, or a length that is not admitted. -/
theorem noFrame_of_length {segs : List Bytes} (hd : Delivered segs) {left : List Bytes}
    (hbad : (readExact 4 segs = none ∧ left = []) ∨
      ∃ lenBuf, readExact 4 segs = some (lenBuf, left) ∧
        (decodeBe32 lenBuf = 0 ∨ maxChunkSize < decodeBe32 lenBuf)) :
    NoFrame maxChunkSize segs.flatten := by
  rcases hbad with ⟨hnone, -⟩ | ⟨lenBuf, hread, hsize⟩
  · exact Or.inl ((readExact_eq_none_iff segs hd 4).mp hnone)
  · obtain ⟨-, rfl⟩ := (readExact_eq_some_iff segs hd 4 lenBuf).mp ⟨left, hread⟩
    rcases hsize with hzero | hlarge
    · exact Or.inr (Or.inl hzero)
    · exact Or.inr (Or.inr (Or.inl hlarge))

/-- A failed read of a payload. -/
theorem noFrame_of_payload {segs : List Bytes} (hd : Delivered segs) {chunkSize : Nat}
    (hle : chunkSize ≤ maxChunkSize) (hnone : readExact chunkSize segs = none) :
    NoFrame maxChunkSize (encodeBe32 chunkSize ++ segs.flatten) := by
  have hshort := (readExact_eq_none_iff segs hd chunkSize).mp hnone
  have hdecode : decodeBe32 ((encodeBe32 chunkSize ++ segs.flatten).take 4) = chunkSize := by
    rw [List.take_left' (length_encodeBe32 _)]
    exact decodeBe32_encodeBe32 _ (lt_of_le_of_lt hle maxChunkSize_lt)
  refine Or.inr (Or.inr (Or.inr ?_))
  rw [hdecode, List.length_append, length_encodeBe32]
  omega

/-- The counter tells the bytes taken: it has not wrapped. -/
theorem toNat_total (hsize : s.expectedSize.toNat < 2 ^ 63) {cs : List Bytes} {rest : Bytes}
    (ht : Took s stream cs rest) :
    (UInt64.ofNat cs.flatten.length).toNat = cs.flatten.length := by
  have hle := ht.length_le
  refine UInt64.toNat_ofNat_of_lt' ?_
  simp only [maxChunkSize, UInt64.size] at hle ⊢
  omega

/-- The loop compares the bytes taken with the size. -/
theorem total_lt_iff (hsize : s.expectedSize.toNat < 2 ^ 63) {cs : List Bytes} {rest : Bytes}
    (ht : Took s stream cs rest) :
    UInt64.ofNat cs.flatten.length < s.expectedSize ↔
      cs.flatten.length < s.expectedSize.toNat := by
  rw [UInt64.lt_iff_toNat_lt, toNat_total hsize ht]

/-- The counter has come to another size. -/
theorem not_conveys_of_total (hsize : s.expectedSize.toNat < 2 ^ 63) {cs : List Bytes}
    {rest : Bytes} (ht : Took s stream cs rest)
    (henough : s.expectedSize.toNat ≤ cs.flatten.length)
    (hne : UInt64.ofNat cs.flatten.length ≠ s.expectedSize) :
    ¬∃ content, Conveys H s stream content := by
  refine not_conveys_of_excess ht (Nat.lt_of_le_of_ne henough fun heq => hne ?_)
  rw [← UInt64.toNat_inj, toNat_total hsize ht, heq]

end Reads

section Steps

variable [DecidableEq κ]

omit [DecidableEq κ] in
/-- A write that fits loses nothing. -/
theorem OutStream.write_fits {o out : OutStream} {chunk : Bytes} {a : UploadLabel}
    {op : FileOp κ} (hgood : o.good = true) (hkeeps : a.loses = false)
    (hfits : o.pos + (o.pending ++ chunk).length ≤ FileStore.maxFileBytes)
    (hwrite : o.write chunk (o.answer chunk a) = some (out, op)) :
    o.drops chunk a = [] ∧ out.good = true := by
  have hroom :
      ¬(a.loses = true ∨ FileStore.maxFileBytes < o.pos + (o.pending ++ chunk).length) := by
    simp only [hkeeps, Bool.false_eq_true, false_or]
    omega
  have hanswer : o.answer chunk a = .stored (min a.count (min (o.pending ++ chunk).length
      (FileStore.maxFileBytes - o.pos))) := by
    simp only [OutStream.answer, hgood, Bool.true_eq_false, if_false, hroom]
  have hle : min a.count (min (o.pending ++ chunk).length
      (FileStore.maxFileBytes - o.pos)) ≤ (o.pending ++ chunk).length := by omega
  refine ⟨by simp only [OutStream.drops, hanswer, hgood, if_true], ?_⟩
  simp only [hanswer, OutStream.write, hgood, if_true, hle, hfits, and_self,
    Option.some.injEq, Prod.mk.injEq] at hwrite
  rw [← hwrite.1]

/-- **Nothing is lost.** -/
theorem whole_move (hadv : Advances P s k fs₀ stream u h) {a : UploadLabel} (ha : a.Smooth)
    {fs : FileStore κ} {pc : Pc H} {segs : List Bytes} {es : List (UploadEvent κ)}
    (hmove : UploadMove P H s k a u u.pc fs pc segs es) :
    ({ u with fs := fs, pc := pc, segs := segs } : Upload κ H).Whole (h ++ es) := by
  have hwhole := hadv.whole
  have hledger := hadv.ledger
  clear hadv
  obtain ⟨fs₁, pc₁, segs₁, running, cancelled⟩ := u
  simp only at hmove
  intro hle
  rw [receivedBytes_append, List.length_append] at hle
  obtain ⟨hnone, hgood⟩ := hwhole (by omega)
  rw [lostBytes_append, hnone, List.nil_append]
  cases hmove with
  | writes hwrite =>
      rename_i r chunk out op
      obtain ⟨before, hreceived, hkeeps⟩ := hledger
      have hlength := hkeeps.balanced.length
      have hfits : r.out.pos + (r.out.pending ++ chunk).length ≤ FileStore.maxFileBytes := by
        rw [hreceived, List.length_append] at hle
        rw [Receiving.data, List.length_append] at hlength
        rw [hkeeps.pos, List.length_append]
        omega
      obtain ⟨hdrops, hgood'⟩ :=
        OutStream.write_fits (hgood _ _ rfl rfl) ha.keeps hfits hwrite
      refine ⟨by simp [lostBytes, hdrops], ?_⟩
      rintro pc o heq hout
      cases heq
      cases hout
      exact hgood'
  | closes hsplit hlost =>
      refine ⟨by simp [lostBytes, hlost ha.keeps], ?_⟩
      rintro pc o heq hout
      cases heq
      cases hout
  | opens hopens =>
      refine ⟨rfl, ?_⟩
      rintro pc o heq hout
      cases heq
      cases hout
      rfl
  | goesOn | leaves | length | badLength | chunk | badChunk | reports =>
      refine ⟨rfl, ?_⟩
      rintro pc o heq hout
      cases heq
      exact hgood _ o rfl hout
  | _ =>
      refine ⟨rfl, ?_⟩
      rintro pc o heq hout
      cases heq <;> cases hout

/-- **The temporary file stays.** -/
theorem present_move (hinv : UploadInv k fs₀ u h) (hpresent : u.Present k)
    {a : UploadLabel} {fs : FileStore κ} {pc : Pc H} {segs : List Bytes}
    {es : List (UploadEvent κ)} (hmove : UploadMove P H s k a u u.pc fs pc segs es) :
    ({ u with fs := fs, pc := pc, segs := segs } : Upload κ H).Present k := by
  obtain ⟨fs₁, pc₁, segs₁, running, cancelled⟩ := u
  simp only at hmove
  cases hmove with
  | closes hsplit hlost =>
      have hheld : HeldOnce k _ fs₁ := hinv.temp
      intro hnone
      have hname : fs₁.names k = none := hnone
      rw [hheld.name] at hname
      cases hname
  | complete | verifies | taken | free => exact hpresent
  | _ => trivial

/-- What the socket delivers stays delivered. -/
theorem delivered_move (hd : Delivered u.segs) {a : UploadLabel}
    {fs : FileStore κ} {pc : Pc H} {segs : List Bytes} {es : List (UploadEvent κ)}
    (hmove : UploadMove P H s k a u u.pc fs pc segs es) : Delivered segs := by
  generalize u.pc = pc₁ at hmove
  cases hmove with
  | length hread hsize => exact hd.of_readExact hread
  | badLength hbad =>
      rcases hbad with ⟨-, rfl⟩ | ⟨lenBuf, hread, -⟩
      · simp [Delivered]
      · exact hd.of_readExact hread
  | chunk hread => exact hd.of_readExact hread
  | badChunk hread => simp [Delivered]
  | _ => exact hd

/-- What the file at a free path holds after the rename. -/
theorem storedUnder_rename (hadv : Advances P s k fs₀ stream u h)
    (hsize : s.expectedSize.toNat < 2 ^ 63) (finalPath : String)
    (hpc : u.pc = .upload (.rename finalPath)) {dst : κ} (hdst : P.qtKey finalPath = some dst)
    (hmov : u.fs.movable k = true) (hfree : u.fs.exists? dst = false) :
    StoredUnder P s k fs₀ ((FileOp.rename k dst).apply u.fs) (receivedBytes h) := by
  have hwhole := hadv.whole
  have hledger := hadv.ledger
  have hparsed := hadv.parsed
  have hres := (result_working (by rw [hpc]; trivial)).mp hadv.files.result
  simp only [Upload.Ledger, Upload.Parsed, hpc] at hledger hparsed
  obtain ⟨-, hbalanced⟩ := hledger
  obtain ⟨⟨n, rfl⟩, -, -, -, -, -, hlength, -⟩ := hparsed
  obtain ⟨hadded, hread⟩ := added_rename hres.2 hadv.files.wf hmov hfree
  obtain ⟨data, hdata⟩ := FileStore.read?_of_movable hmov
  have hle : (receivedBytes h).length ≤ FileStore.maxFileBytes := by
    simp only [FileStore.maxFileBytes]
    omega
  have hsame := (hbalanced _ hdata).same (hwhole hle).1
  exact ⟨n, dst, hdst, hadded, by rw [hread, hdata, hsame]⟩

/-- **What is known of the stream, step by step.** -/
theorem parsed_move (hadv : Advances P s k fs₀ stream u h)
    (hsize : s.expectedSize.toNat < 2 ^ 63)
    (hpaths : ∀ n, (P.qtKey (tryPath s.targetFilePath n)).isSome = true) {a : UploadLabel}
    (ha : a.Smooth) {fs : FileStore κ} {pc : Pc H} {segs : List Bytes}
    {es : List (UploadEvent κ)} (hmove : UploadMove P H s k a u u.pc fs pc segs es) :
    ({ u with fs := fs, pc := pc, segs := segs } : Upload κ H).Parsed P s k fs₀ stream
      (receivedBytes (h ++ es)) (outcomes (h ++ es)) := by
  have hstored := storedUnder_rename hadv hsize
  obtain ⟨hinv, hledger, -, hpresent, hd, hrunning, hlive, hparsed⟩ := hadv
  obtain ⟨fs₁, pc₁, segs₁, running, cancelled⟩ := u
  simp only at hmove hrunning hlive hd hstored
  subst hrunning hlive
  rw [receivedBytes_append, outcomes_append]
  generalize receivedBytes h = received at hledger hparsed hstored ⊢
  cases hmove with
  | begins =>
      obtain ⟨rfl, hleft⟩ : received = [] ∧ segs₁.flatten = stream := hparsed
      exact ⟨rfl, hleft⟩
  | opens hopens =>
      obtain ⟨rfl, rfl⟩ : received = [] ∧ segs₁.flatten = stream := hparsed
      exact ⟨[], rfl, .start _ _ _⟩
  | opensNot hopens =>
      rw [ha.opens] at hopens
      cases hopens
  | goesOn hgo =>
      rename_i r
      obtain ⟨cs, rfl, ht⟩ := hparsed
      have hkeeps : Receiving.Keeps fs₁ r cs.flatten (lostBytes h) := hledger
      have hlt := hgo.2.2
      rw [hkeeps.total, total_lt_iff hsize ht] at hlt
      exact ⟨cs, (List.append_nil _).symm, ht, hlt⟩
  | leaves hleaves =>
      rename_i r
      obtain ⟨cs, rfl, ht⟩ := hparsed
      have hkeeps : Receiving.Keeps fs₁ r cs.flatten (lostBytes h) := hledger
      have hge : ¬r.totalReceived < s.expectedSize := fun hlt => hleaves ⟨rfl, rfl, hlt⟩
      rw [hkeeps.total, total_lt_iff hsize ht] at hge
      exact ⟨cs, (List.append_nil _).symm, ht, Nat.le_of_not_lt hge⟩
  | length hread hadmits =>
      rename_i r lenBuf
      obtain ⟨cs, rfl, ht, hneeded⟩ := hparsed
      obtain ⟨hlen, hflat⟩ := readExact_some segs₁ hread
      rw [hflat, ← encodeBe32_decodeBe32 hlen] at ht
      exact ⟨cs, (List.append_nil _).symm, ht, hneeded, by omega, by omega⟩
  | badLength hbad =>
      obtain ⟨cs, rfl, ht, hneeded⟩ := hparsed
      exact not_conveys_of_stuck ht hneeded (noFrame_of_length hd hbad)
  | chunk hread =>
      rename_i r chunkSize chunk
      obtain ⟨cs, rfl, ht, hneeded, hpos, hle⟩ := hparsed
      obtain ⟨rfl, hflat⟩ := readExact_some segs₁ hread
      refine ⟨cs ++ [chunk], by simp [receivedBytes], ht.snoc hneeded ⟨hpos, hle⟩ ?_⟩
      rw [hflat, frame, List.append_assoc]
  | badChunk hread =>
      rename_i r chunkSize
      obtain ⟨cs, rfl, ht, hneeded, hpos, hle⟩ := hparsed
      exact not_conveys_of_stuck ht hneeded (noFrame_of_payload hd hle hread)
  | writes | reports =>
      simpa [Upload.Parsed, receivedBytes] using hparsed
  | closes hsplit hlost =>
      rename_i r error data lost
      cases error <;> simpa [Upload.Parsed, receivedBytes] using hparsed
  | incomplete hbad =>
      rename_i shaState totalReceived error
      cases error with
      | true => exact hparsed
      | false =>
          obtain ⟨cs, rfl, ht, henough⟩ := hparsed
          obtain ⟨-, rfl, -⟩ : _ ∧ totalReceived = UInt64.ofNat cs.flatten.length ∧ _ :=
            hledger
          exact not_conveys_of_total hsize ht henough (by simpa using hbad)
  | complete hlive =>
      obtain ⟨cs, rfl, ht, henough⟩ := hparsed
      obtain ⟨-, htotal, -⟩ : _ ∧ s.expectedSize = UInt64.ofNat cs.flatten.length ∧ _ :=
        hledger
      refine ⟨cs, (List.append_nil _).symm, ht, ?_⟩
      rw [htotal, toNat_total hsize ht]
  | badHash hbad =>
      rename_i shaState
      obtain ⟨cs, rfl, ht, hexact⟩ := hparsed
      obtain ⟨habs, -⟩ : H.Absorbed shaState cs.flatten ∧ _ := hledger
      rw [habs.final] at hbad
      exact not_conveys_of_hash ht hexact.le hbad
  | verifies hgood =>
      rename_i shaState
      obtain ⟨cs, rfl, ht, hexact⟩ := hparsed
      obtain ⟨habs, -⟩ : H.Absorbed shaState cs.flatten ∧ _ := hledger
      rw [habs.final] at hgood
      refine ⟨⟨0, rfl, rfl⟩, ?_⟩
      simpa [receivedBytes] using conveys_of_taken ht hexact.symm hgood
  | dropsInterrupted | dropsBadHash | givesUp => exact hparsed
  | dropsUnsaved => exact hparsed.elim
  | taken hexists =>
      obtain ⟨⟨n, rfl, rfl⟩, hconveys⟩ := hparsed
      refine ⟨⟨n + 1, rfl, rfl⟩, ?_⟩
      simpa [receivedBytes] using hconveys
  | free hfree =>
      obtain ⟨⟨n, rfl, rfl⟩, hconveys⟩ := hparsed
      refine ⟨⟨n, rfl⟩, hfree, ?_⟩
      simpa [receivedBytes] using hconveys
  | moves hdst hmov hfree =>
      obtain ⟨-, -, hconveys⟩ := hparsed
      have hs := hstored _ rfl hdst hmov hfree
      refine ⟨?_, ?_⟩
      · simpa [receivedBytes] using hconveys
      · simpa [receivedBytes] using hs
  | movesNot hstays =>
      obtain ⟨⟨n, rfl⟩, hfree, -⟩ := hparsed
      obtain ⟨dst, hdst⟩ := Option.isSome_iff_exists.mp (hpaths n)
      have hclosed : NotOpen k fs₁ := hinv.temp
      have hmov : fs₁.movable k = true := movable_of_notOpen hclosed hpresent
      have hvacant : fs₁.exists? dst = false := by simpa [qtExists, hdst] using hfree
      exact (hstays ha.moves dst hdst ⟨hmov, hvacant⟩).elim
  | succeeds =>
      obtain ⟨hconveys, hs⟩ := hparsed
      have hres : outcomes h = [] ∧ _ := hinv.result
      refine Or.inl ⟨by rw [hres.1]; rfl, ?_, ?_⟩
      · simpa [receivedBytes] using hconveys
      · simpa [receivedBytes] using hs
  | fails =>
      have hres : outcomes h = [] ∧ _ := hinv.result
      exact Or.inr ⟨by rw [hres.1]; rfl, hparsed⟩

/-! ## The outcome -/

omit [DecidableEq κ] in
/-- A smooth step starts where the body is. -/
theorem before_smooth [DecidableEq κ] {a : UploadLabel} (ha : a.Smooth) (u : Upload κ H) :
    u.before P s a = u := by
  simp [Upload.before, ha.runs, ha.live, ha.stays]

/-- **One smooth step.** -/
theorem advances_step (hstd : P.stdKey s.tempFilePath = some k)
    (hqt : P.qtKey s.tempFilePath = some k) (hsize : s.expectedSize.toNat < 2 ^ 63)
    (hpaths : ∀ n, (P.qtKey (tryPath s.targetFilePath n)).isSome = true) {u' : Upload κ H}
    {a : UploadLabel} {es : List (UploadEvent κ)} (hadv : Advances P s k fs₀ stream u h)
    (ha : a.Smooth) (hs : (uploadMachine P H s).step u a = some (u', es)) :
    Advances P s k fs₀ stream u' (h ++ es) := by
  obtain ⟨fs, pc, segs, rfl, hmove⟩ := hadv.files.step_cases hstd hqt hs
  rw [before_smooth ha] at hmove ⊢
  exact
    { files := hadv.files.move hmove
      ledger := by
        rw [receivedBytes_append, lostBytes_append]
        exact hadv.ledger.move hadv.files hmove
      whole := whole_move hadv ha hmove
      present := present_move hadv.files hadv.present hmove
      delivered := delivered_move hadv.delivered hmove
      running := hadv.running
      live := hadv.live
      parsed := parsed_move hadv hsize hpaths ha hmove }

/-- The upload has ended: with a success and the content stored if the stream
conveys one, otherwise with a failure. -/
def Settled (P : Platform κ) (s : ActiveTransferSession) (k : κ) (fs₀ : FileStore κ)
    (stream : Bytes) (u : Upload κ H) (h : List (UploadEvent κ)) : Prop :=
  u.pc = .done ∧
    ((∃ content, Conveys H s stream content ∧ outcomes h = [true] ∧
        StoredUnder P s k fs₀ u.fs content) ∨
      ((¬∃ content, Conveys H s stream content) ∧ outcomes h = [false]))

omit [DecidableEq κ] in
/-- The start of an upload. -/
theorem advances_start [DecidableEq κ] {fs : FileStore κ} (hwf : fs.WF)
    (hclosed : NotOpen k fs) {segs : List Bytes} (hd : Delivered segs) :
    Advances P s k fs segs.flatten
      { fs := fs, pc := startUpload H, segs := segs, running := true
        cancelled := false } [] where
  files := uploadInv_start hwf hclosed segs true false
  ledger := ⟨rfl, rfl⟩
  whole := fun _ => ⟨rfl, fun _ _ heq => by cases heq⟩
  present := trivial
  delivered := hd
  running := rfl
  live := rfl
  parsed := ⟨rfl, rfl⟩

/-- **The upload loop accepts its format.**  For every stream, however it is
delivered, an undisturbed upload whose file operations succeed comes to a success
exactly if the stream conveys a content, which it then has stored; and what
follows the last frame needed does not matter. -/
theorem upload_accepts_format (hstd : P.stdKey s.tempFilePath = some k)
    (hqt : P.qtKey s.tempFilePath = some k) (hsize : s.expectedSize.toNat < 2 ^ 63)
    (hpaths : ∀ n, (P.qtKey (tryPath s.targetFilePath n)).isSome = true)
    (hspell : FiniteSpellings P s.targetFilePath) {fs : FileStore κ} (hwf : fs.WF)
    (hfinite : {k | (fs.names k).isSome}.Finite) (hclosed : NotOpen k fs)
    {segs : List Bytes} (hd : Delivered segs) :
    (∃ n, (uploadMachine P H s).Ensures UploadLabel.Smooth (Settled P s k fs segs.flatten) n
      { fs := fs, pc := startUpload H, segs := segs, running := true
        cancelled := false } []) ∧
    ∀ cs rest, Took s segs.flatten cs rest → s.expectedSize.toNat ≤ cs.flatten.length →
      ∀ rest' content, Conveys H s (encode cs ++ rest') content ↔
        Conveys H s segs.flatten content := by
  obtain ⟨M, hM⟩ := exists_freeTry hspell hfinite k
  have hends := upload_ends (H := H) hstd hqt hM
    (uploadInv_start hwf hclosed segs true false) (by simp [Upload.Searches, startUpload])
  have hsmooth : (uploadMachine P H s).Ensures UploadLabel.Smooth _ _ _ _ :=
    hends.restrict fun _ _ => trivial
  have hboth := hsmooth.and_invariant (Advances P s k fs segs.flatten)
    (fun u h a u' es hadv ha hs => advances_step hstd hqt hsize hpaths hadv ha hs)
    (advances_start hwf hclosed hd)
  refine ⟨⟨_, hboth.imp ?_⟩, fun cs rest ht henough rest' content =>
    conveys_append_iff ht henough rest'⟩
  rintro u h ⟨⟨hdone, -, -⟩, hadv⟩
  have hparsed := hadv.parsed
  simp only [Upload.Parsed, hdone] at hparsed
  refine ⟨hdone, ?_⟩
  rcases hparsed with ⟨hout, hconveys, hstored⟩ | ⟨hout, hnone⟩
  · exact Or.inl ⟨_, hconveys, hout, hstored⟩
  · exact Or.inr ⟨hnone, hout⟩

end Steps

/-- The sample content in two frames, which come in three segments and are
followed by one more byte; a file of that name is already there. -/
theorem upload_accepts_format_sample :
    ∃ n, (uploadMachine samplePlatform sha256
      (sampleSession "D/a" .mobileUploadToPc)).Ensures UploadLabel.Smooth
        (Settled samplePlatform (sampleSession "D/a" .mobileUploadToPc) "D/a.part"
          (filesAt ["D/a"]) [0, 0, 0, 2, 1, 2, 0, 0, 0, 1, 3, 9]) n
        { fs := filesAt ["D/a"], pc := startUpload sha256
          segs := [[0, 0, 0, 2, 1], [2, 0, 0], [0, 1, 3, 9]], running := true
          cancelled := false } [] := by
  have hd : Delivered [[0, 0, 0, 2, 1], [2, 0, 0], [0, 1, 3, 9]] := by simp [Delivered]
  have hsize : (sampleSession "D/a" .mobileUploadToPc).expectedSize.toNat < 2 ^ 63 := by decide
  have hclosed : NotOpen "D/a.part" (filesAt ["D/a"]) := fun _ _ => by
    simp [filesAt, worldWith]
  exact (upload_accepts_format (P := samplePlatform) (H := sha256) rfl rfl hsize
    (fun _ => rfl) (finiteSpellings_sample _) (filesAt_wf _) (filesAt_finite _) hclosed hd).1

end Iriseus.Core
