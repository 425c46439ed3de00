import Iriseus.Core.ReceivedFiles

/-!
# Sending and receiving agree

Three loops handle the content of a file in blocks: `sendFiles` hashes it in
64 KiB blocks, mode 1 sends it in length-prefixed chunks of at most 256 KiB,
and mode 0 accepts chunks of up to 1 MiB.  For an unchanged file and an
undisturbed transfer they fit together: the stream that mode 1 writes for the
announced size is, for mode 0 with the announced size and hash, exactly one
complete file.

Both bodies run alone, for every answer that a stream may give: the sender for
every view in which its file is unchanged, the receiver for every segmentation
of the stream and every choice of what its output stream buffers.

## Main results

* `hashFile_eq` — the hash announced is that of the content.
* `send_frames` — mode 1 sends the content as chunks and reports success.
* `receive_frames` — mode 0 accepts such chunks, reads nothing after them and
  stores their content.
* `send_receive_agree` — the two together.
-/

namespace Iriseus.Core

open Iriseus.Verified
open Iriseus.Verified.ByteStream
open Iriseus.Verified.Machine

variable {κ : Type} {P : Platform κ} {H : IncrementalHash}

/-! ## The announced hash -/

/-- The hashing loop absorbs the whole content. -/
theorem hashLoop_absorbed (fuel : Nat) :
    ∀ (content : Bytes) {st : H.State} {before : Bytes}, content.length < fuel →
      H.Absorbed st before →
      H.Absorbed (FileTransferManager.hashLoop H fuel st content) (before ++ content) := by
  induction fuel with
  | zero =>
      intro content st before hlt
      omega
  | succ fuel ih =>
      intro content st before hlt habs
      by_cases hempty : content = []
      · simpa [FileTransferManager.hashLoop, hempty] using habs
      · have hpos : 0 < content.length := List.length_pos_iff.mpr hempty
        have hdrop : (content.drop FileTransferManager.hashBlockSize).length < fuel := by
          rw [List.length_drop, FileTransferManager.hashBlockSize]
          omega
        have hrest := ih _ hdrop
          (habs.update (content.take FileTransferManager.hashBlockSize))
        rw [List.append_assoc, List.take_append_drop] at hrest
        simpa only [FileTransferManager.hashLoop, hempty, if_false] using hrest

/-- `sendFiles` announces the hash of the content. -/
theorem hashFile_eq (content : Bytes) :
    FileTransferManager.hashFile H content = toHex (H.digest content) := by
  have habs := hashLoop_absorbed (content.length + 1) content (Nat.lt_succ_self _)
    H.absorbed_init
  rw [List.nil_append] at habs
  rw [FileTransferManager.hashFile, habs.final]

/-! ## Counters -/

/-- Lengths of files fit in the counters. -/
private theorem toNat_ofNat_of_le {n : Nat} (hn : n ≤ FileStore.maxFileBytes) :
    (UInt64.ofNat n).toNat = n :=
  (length_of_total rfl hn).symm

private theorem toNat_min (a b : UInt64) : (min a b).toNat = min a.toNat b.toNat := by
  have hmin : min a b = if a ≤ b then a else b := rfl
  rw [hmin]
  split
  · rename_i hle
    exact (Nat.min_eq_left (UInt64.le_iff_toNat_le.mp hle)).symm
  · rename_i hle
    have hlt : b.toNat < a.toNat := by
      rwa [UInt64.le_iff_toNat_le, Nat.not_le] at hle
    exact (Nat.min_eq_right (Nat.le_of_lt hlt)).symm

/-- What is still to be sent, cut to one chunk. -/
private theorem toNat_toRead {sent rest : Bytes}
    (hmax : (sent ++ rest).length ≤ FileStore.maxFileBytes) :
    (min (UInt64.ofNat kChunkPlaintextSize)
      (UInt64.ofNat (sent ++ rest).length - UInt64.ofNat sent.length)).toNat =
        min kChunkPlaintextSize rest.length := by
  have hsent : sent.length ≤ FileStore.maxFileBytes := by
    rw [List.length_append] at hmax
    omega
  have hle : UInt64.ofNat sent.length ≤ UInt64.ofNat (sent ++ rest).length := by
    rw [UInt64.le_iff_toNat_le, toNat_ofNat_of_le hsent, toNat_ofNat_of_le hmax,
      List.length_append]
    omega
  rw [toNat_min, UInt64.toNat_sub_of_le _ _ hle, toNat_ofNat_of_le hsent,
    toNat_ofNat_of_le hmax, List.length_append, Nat.add_sub_cancel_left,
    toNat_ofNat_of_le (by decide)]

/-! ## Sending -/

section Send

variable (P H)

/-- The body of a connection as a machine of its own: a label is what it sees
and what the call it makes answers. -/
def bodyMachine (s : ActiveTransferSession) :
    Machine (Pc H) (View κ × Input) (Effect κ) where
  Init pc := pc = .upload .openTemp ∨ pc = .download .openSource
  step pc a := (serve P H a.1 s pc a.2).map fun r => (r.1, [r.2])

/-- Calls succeed, nothing stops the transfer, and the source path leads to
the file `i`, whose content does not change. -/
structure Undisturbed (s : ActiveTransferSession) (i : Nat) (content : Bytes)
    (a : View κ × Input) : Prop where
  answer : a.2 = .go
  running : a.1.running = true
  live : a.1.cancelled = false
  source : (P.stdKey s.targetFilePath).bind a.1.fs.names = some i
  content : a.1.fs.bytes i = content

/-- The bytes written to the socket. -/
def sentBytes (es : List (Effect κ)) : Bytes :=
  es.flatMap fun e => match e with
    | .send bs => bs
    | _ => []

/-- The loop variables after `sent` has been sent from file `i`. -/
def sendingAt (i : Nat) (sent : Bytes) : Sending where
  source := { file := i, pos := sent.length, good := true }
  totalSent := UInt64.ofNat sent.length

/-- The body has ended with a report of success and has sent `stream`. -/
def SentAll (stream : Bytes) (pc : Pc H) (es : List (Effect κ)) : Prop :=
  pc = .done ∧ sentBytes es = stream ∧ .finished true "" ∈ es

variable {P H} {s : ActiveTransferSession} {i : Nat} {content : Bytes}

@[simp] theorem sentBytes_append (es es' : List (Effect κ)) :
    sentBytes (es ++ es') = sentBytes es ++ sentBytes es' :=
  List.flatMap_append

/-- The end of the loop: the file is closed and success is reported. -/
theorem send_end (hsize : s.expectedSize = UInt64.ofNat content.length)
    (es : List (Effect κ)) :
    (bodyMachine P H s).Ensures (Undisturbed P s i content)
      (SentAll H (sentBytes es)) 4 (.download (.sendHead (sendingAt i content))) es := by
  refine .next fun ⟨v, inp⟩ ⟨hgo, hrun, hlive, _, _⟩ => ?_
  subst hgo
  refine ⟨.download (.closeSource (sendingAt i content) false), [.silent], ?_, ?_⟩
  · simp [bodyMachine, serve, serveDownload, sendingAt, hsize]
  refine .next fun ⟨v, inp⟩ ⟨hgo, _, _, _, _⟩ => ?_
  subst hgo
  refine ⟨.download (.sendCheck (UInt64.ofNat content.length) false),
    [.file (.close i 0 [])], rfl, ?_⟩
  refine .next fun ⟨v, inp⟩ ⟨hgo, _, hlive, _, _⟩ => ?_
  subst hgo
  refine ⟨.download .sentAll, [.silent], ?_, ?_⟩
  · simp only at hlive
    simp [bodyMachine, serve, serveDownload, hsize, hlive]
  refine .next fun ⟨v, inp⟩ ⟨hgo, _, _, _, _⟩ => ?_
  subst hgo
  refine ⟨.done, [.finished true ""], rfl, .here ⟨rfl, ?_, by simp⟩⟩
  simp [sentBytes]

/-- A read of what is left, or of one chunk of it, is not short. -/
theorem read_chunk {fs : FileStore κ} {sent rest : Bytes}
    (hbytes : fs.bytes i = sent ++ rest) :
    let chunk := rest.take kChunkPlaintextSize
    (sendingAt i sent).source.read fs (min kChunkPlaintextSize rest.length) .go =
      some (chunk, (sendingAt i (sent ++ chunk)).source) := by
  intro chunk
  have hlen : chunk.length = min kChunkPlaintextSize rest.length := List.length_take
  have hgot : ((fs.bytes i).drop sent.length).take (min kChunkPlaintextSize rest.length) =
      chunk := by
    rw [hbytes, List.drop_left]
    exact List.take_eq_take_min.symm
  simp only [InStream.read, sendingAt, if_true, hgot, hlen, decide_true,
    List.length_append]

/-- One round of the loop sends the next chunk, preceded by its length. -/
theorem send_chunk {sent rest : Bytes} (hcontent : content = sent ++ rest)
    (hsize : s.expectedSize = UInt64.ofNat content.length)
    (hmax : content.length ≤ FileStore.maxFileBytes) (hrest : rest ≠ [])
    (es : List (Effect κ)) :
    let chunk := rest.take kChunkPlaintextSize
    (bodyMachine P H s).Ensures (Undisturbed P s i content)
      (fun pc es' => pc = .download (.sendHead (sendingAt i (sent ++ chunk))) ∧
        sentBytes es' = sentBytes es ++ frame chunk)
      5 (.download (.sendHead (sendingAt i sent))) es := by
  intro chunk
  have hpos : 0 < rest.length := List.length_pos_iff.mpr hrest
  have hchunk : chunk ≠ [] := by
    simp [chunk, hrest, kChunkPlaintextSize]
  have hsent : sent.length ≤ FileStore.maxFileBytes := by
    rw [hcontent, List.length_append] at hmax
    omega
  have hlt : UInt64.ofNat sent.length < s.expectedSize := by
    rw [hsize, UInt64.lt_iff_toNat_lt, toNat_ofNat_of_le hsent, toNat_ofNat_of_le hmax,
      hcontent, List.length_append]
    omega
  have htoRead : (min (UInt64.ofNat kChunkPlaintextSize)
      (s.expectedSize - UInt64.ofNat sent.length)).toNat =
        min kChunkPlaintextSize rest.length := by
    rw [hsize, hcontent]
    exact toNat_toRead (hcontent ▸ hmax)
  let t : Sending := { sendingAt i sent with source := (sendingAt i (sent ++ chunk)).source }
  -- the loop condition, the read, the length, the chunk and the report
  refine .next fun ⟨v, inp⟩ ⟨hgo, hrun, hlive, _, _⟩ => ?_
  subst hgo
  refine ⟨.download (.sendRead (sendingAt i sent)), [.silent], ?_, ?_⟩
  · simp only at hrun hlive
    simp [bodyMachine, serve, serveDownload, sendingAt, hrun, hlive, hlt]
  refine .next fun ⟨v, inp⟩ ⟨hgo, _, _, _, hbytes⟩ => ?_
  subst hgo
  refine ⟨.download (.sendLen t chunk), [.read chunk], ?_, ?_⟩
  · have hread : (sendingAt i sent).source.read v.fs
        (min kChunkPlaintextSize rest.length) .go =
          some (chunk, (sendingAt i (sent ++ chunk)).source) :=
      read_chunk (hcontent ▸ hbytes)
    have htotal : (sendingAt i sent).totalSent = UInt64.ofNat sent.length := rfl
    simp only [bodyMachine, serve, serveDownload, htotal, htoRead, hread, hchunk, if_false,
      Option.map_some]
    rfl
  refine .next fun ⟨v, inp⟩ ⟨hgo, _, _, _, _⟩ => ?_
  subst hgo
  refine ⟨.download (.sendBody t chunk), [.send (encodeBe32 chunk.length)], rfl, ?_⟩
  refine .next fun ⟨v, inp⟩ ⟨hgo, _, _, _, _⟩ => ?_
  subst hgo
  refine ⟨.download (.sendReport t chunk), [.send chunk], rfl, ?_⟩
  refine .next fun ⟨v, inp⟩ ⟨hgo, _, _, _, _⟩ => ?_
  subst hgo
  refine ⟨.download (.sendHead (sendingAt i (sent ++ chunk))),
    [.progress (UInt64.ofNat (sent ++ chunk).length)], ?_, .here ⟨rfl, ?_⟩⟩
  · simp [bodyMachine, serve, serveDownload, sendingAt, t, UInt64.ofNat_add]
  · simp [sentBytes, frame]

/-- The chunks in which the rest of a file is sent: none is empty or larger
than the receiver admits. -/
structure Chunks (cs : List Bytes) (rest : Bytes) : Prop where
  flatten : cs.flatten = rest
  ne_nil : ∀ c ∈ cs, c ≠ []
  length_le : ∀ c ∈ cs, c.length ≤ maxChunkSize

/-- **The sending loop.** -/
theorem send_loop (hsize : s.expectedSize = UInt64.ofNat content.length)
    (hmax : content.length ≤ FileStore.maxFileBytes) (n : Nat) :
    ∀ (sent rest : Bytes), rest.length ≤ n → content = sent ++ rest →
      ∃ cs, Chunks cs rest ∧ ∀ es : List (Effect κ),
        (bodyMachine P H s).Ensures (Undisturbed P s i content)
          (SentAll H (sentBytes es ++ cs.flatMap frame)) (5 * n + 4)
          (.download (.sendHead (sendingAt i sent))) es := by
  induction n with
  | zero =>
      intro sent rest hlen hcontent
      have hnil : rest = [] := List.length_eq_zero_iff.mp (Nat.le_zero.mp hlen)
      subst hnil
      rw [List.append_nil] at hcontent
      refine ⟨[], ⟨rfl, by simp, by simp⟩, fun es => ?_⟩
      have hend := send_end (P := P) (H := H) (i := i) hsize es
      simpa [hcontent] using hend
  | succ n ih =>
      intro sent rest hlen hcontent
      by_cases hrest : rest = []
      · obtain ⟨cs, hcs, hend⟩ := ih sent rest (by simp [hrest]) hcontent
        refine ⟨cs, hcs, fun es => ?_⟩
        rw [show 5 * (n + 1) + 4 = 5 + (5 * n + 4) by omega]
        exact (hend es).more 5
      · have hpos : 0 < rest.length := List.length_pos_iff.mpr hrest
        obtain ⟨cs, hcs, hloop⟩ := ih (sent ++ rest.take kChunkPlaintextSize)
          (rest.drop kChunkPlaintextSize)
          (by rw [List.length_drop, kChunkPlaintextSize]; omega)
          (by rw [List.append_assoc, List.take_append_drop]; exact hcontent)
        refine ⟨rest.take kChunkPlaintextSize :: cs, ⟨?_, ?_, ?_⟩, fun es => ?_⟩
        · rw [List.flatten_cons, hcs.flatten, List.take_append_drop]
        · intro c hc
          rcases List.mem_cons.mp hc with rfl | hc
          · simp [hrest, kChunkPlaintextSize]
          · exact hcs.ne_nil c hc
        · intro c hc
          rcases List.mem_cons.mp hc with rfl | hc
          · rw [List.length_take, kChunkPlaintextSize, maxChunkSize]
            omega
          · exact hcs.length_le c hc
        · rw [show 5 * (n + 1) + 4 = 5 + (5 * n + 4) by omega]
          refine Ensures.seq ?_ (send_chunk hcontent hsize hmax hrest es)
          rintro pc es' ⟨rfl, hsent⟩
          have hgo := hloop es'
          rwa [hsent, List.append_assoc, ← List.flatMap_cons] at hgo

/-- **Sending.**  The stream is the content in chunks, each preceded by its
length, and success is reported. -/
theorem send_frames (hsize : s.expectedSize = UInt64.ofNat content.length)
    (hmax : content.length ≤ FileStore.maxFileBytes) :
    ∃ cs, Chunks cs content ∧
      (bodyMachine P H s).Ensures (Undisturbed P s i content)
        (SentAll H (cs.flatMap frame)) (1 + (5 * content.length + 4))
        (.download .openSource) [] := by
  obtain ⟨cs, hcs, hloop⟩ := send_loop (P := P) (H := H) (i := i) hsize hmax
    content.length [] content (Nat.le_refl _) rfl
  refine ⟨cs, hcs, ?_⟩
  rw [Nat.add_comm]
  refine .next fun ⟨v, inp⟩ ⟨hgo, _, _, hsource, _⟩ => ?_
  subst hgo
  refine ⟨.download (.sendHead (sendingAt i [])), [.file (.openRead i)], ?_, ?_⟩
  · simp only at hsource
    simp [bodyMachine, serve, serveDownload, sendingAt, hsource]
  · exact hloop _

end Send

/-! ## Receiving -/

/-- A receiving body alone with its socket: the files, the body and what the
socket still delivers. -/
structure Reception (κ : Type) (H : IncrementalHash) where
  fs : FileStore κ
  pc : Pc H
  segs : List Bytes

/-- What the next call returns: exact reads take their bytes from the socket,
a write leaves all but `flush` bytes buffered, other calls succeed. -/
def Reception.answer (r : Reception κ H) (flush : Nat) : Input × List Bytes :=
  match r.pc with
  | .upload (.recvLen _) =>
      match readExact 4 r.segs with
      | some (lenBuf, left) => (.bytes lenBuf, left)
      | none => (.fail, [])
  | .upload (.recvChunk _ chunkSize) =>
      match readExact chunkSize r.segs with
      | some (chunk, left) => (.bytes chunk, left)
      | none => (.fail, [])
  | .upload (.recvWrite v chunk) =>
      (.stored (min flush (v.out.pending ++ chunk).length), r.segs)
  | _ => (.go, r.segs)

section Receive

variable [DecidableEq κ]

variable (P H) in
/-- An undisturbed reception; a label says how much of a write is flushed. -/
def receptionMachine (s : ActiveTransferSession) :
    Machine (Reception κ H) Nat (Effect κ) where
  Init r := r.fs.WF ∧ r.pc = .upload .openTemp
  step r flush :=
    (serve P H { fs := r.fs, running := true, cancelled := false } s r.pc
      (r.answer flush).1).map fun x =>
        ({ fs := x.2.after r.fs, pc := x.1, segs := (r.answer flush).2 }, [x.2])

/-- The file has been accepted: size and hash are checked, the stream has been
read up to `rest`, and the temporary file holds the content. -/
def Accepted (s : ActiveTransferSession) (k : κ) (content rest : Bytes)
    (r : Reception κ H) (es : List (Effect κ)) : Prop :=
  r.pc = .upload (.resolve s.targetFilePath 1) ∧ .verified ∈ es ∧
    r.segs.flatten = rest ∧ r.fs.read? k = some content

variable {s : ActiveTransferSession} {k : κ} {content : Bytes}

/-- The end of the loop: the file is closed and checked. -/
theorem receive_end (hsize : s.expectedSize = UInt64.ofNat content.length)
    (hsha : s.expectedSha256 = toHex (H.digest content)) {fs : FileStore κ}
    {r : Receiving H} (ht : r.Tracks fs k) (hdata : r.data fs = content)
    (segs : List Bytes) (es : List (Effect κ)) :
    (receptionMachine P H s).Ensures (fun _ => True) (Accepted s k content segs.flatten) 4
      { fs := fs, pc := .upload (.recvHead r), segs := segs } es := by
  have htotal : r.totalReceived = s.expectedSize := by rw [ht.total, hdata, hsize]
  have hhash : toHex (H.final r.shaState) = s.expectedSha256 := by
    rw [ht.hashed.final, hdata, hsha]
  refine .next fun flush _ =>
    ⟨{ fs := fs, pc := .upload (.closeTemp r false), segs := segs }, [.silent], ?_, ?_⟩
  · simp [receptionMachine, serve, serveUpload, Reception.answer, htotal, Effect.after]
  let fs' := (FileOp.close r.out.file r.out.pos r.out.pending).apply fs
  refine .next fun flush _ =>
    ⟨{ fs := fs', pc := .upload (.recvCheck r.shaState r.totalReceived false),
       segs := segs }, [.file (.close r.out.file r.out.pos r.out.pending)], rfl, ?_⟩
  refine .next fun flush _ =>
    ⟨{ fs := fs', pc := .upload (.verify r.shaState), segs := segs }, [.silent], ?_, ?_⟩
  · simp [receptionMachine, serve, serveUpload, Reception.answer, htotal, Effect.after]
  refine .next fun flush _ =>
    ⟨{ fs := fs', pc := .upload (.resolve s.targetFilePath 1), segs := segs },
      [.verified], ?_, ?_⟩
  · simp [receptionMachine, serve, serveUpload, Reception.answer, hhash, Effect.after]
  exact .here ⟨rfl, by simp, rfl, (read?_close ht).trans (congrArg some hdata)⟩

/-- One round of the loop receives one chunk, appends it to what is stored and
buffered, and reads nothing after it. -/
theorem receive_chunk {fs : FileStore κ} {r : Receiving H} (ht : r.Tracks fs k)
    {chunk more rest : Bytes} (hchunk : chunk ≠ []) (hle : chunk.length ≤ maxChunkSize)
    (hcontent : content = r.data fs ++ chunk ++ more)
    (hsize : s.expectedSize = UInt64.ofNat content.length)
    (hmax : content.length ≤ FileStore.maxFileBytes) {segs : List Bytes}
    (hd : Delivered segs) (hsegs : segs.flatten = frame chunk ++ rest)
    (es : List (Effect κ)) :
    (receptionMachine P H s).Ensures (fun _ => True)
      (fun q _ => ∃ (fs' : FileStore κ) (r' : Receiving H) (left : List Bytes),
        q = { fs := fs', pc := .upload (.recvHead r'), segs := left } ∧ r'.Tracks fs' k ∧
          r'.data fs' = r.data fs ++ chunk ∧ Delivered left ∧ left.flatten = rest)
      5 { fs := fs, pc := .upload (.recvHead r), segs := segs } es := by
  have hpos : 0 < chunk.length := List.length_pos_iff.mpr hchunk
  have hroom : (r.data fs).length + chunk.length ≤ FileStore.maxFileBytes := by
    rw [hcontent, List.length_append, List.length_append] at hmax
    omega
  have hlt : r.totalReceived < s.expectedSize := by
    rw [ht.total, hsize, UInt64.lt_iff_toNat_lt, toNat_ofNat_of_le ht.bound,
      toNat_ofNat_of_le hmax, hcontent, List.length_append, List.length_append]
    omega
  have hdecode : decodeBe32 (encodeBe32 chunk.length) = chunk.length := by
    refine decodeBe32_encodeBe32 _ (lt_of_le_of_lt hle ?_)
    decide
  -- the loop condition
  refine .next fun flush _ =>
    ⟨{ fs := fs, pc := .upload (.recvLen r), segs := segs }, [.silent], ?_, ?_⟩
  · simp [receptionMachine, serve, serveUpload, Reception.answer, hlt, Effect.after]
  -- the length
  obtain ⟨segs₁, hread₁, hleft₁, hd₁⟩ :=
    readExact_prefix hd (hsegs.trans (List.append_assoc _ _ _))
  rw [length_encodeBe32] at hread₁
  refine .next fun flush _ =>
    ⟨{ fs := fs, pc := .upload (.recvChunk r chunk.length), segs := segs₁ }, [.silent],
      ?_, ?_⟩
  · have hvalid : ¬(chunk.length = 0 ∨ maxChunkSize < chunk.length) := by omega
    simp only [receptionMachine, Reception.answer, hread₁, serve, serveUpload,
      length_encodeBe32, if_true, hdecode, hvalid, if_false, Option.map_some, Effect.after]
  -- the chunk
  obtain ⟨segs₂, hread₂, hleft₂, hd₂⟩ := readExact_prefix hd₁ hleft₁
  refine .next fun flush _ =>
    ⟨{ fs := fs, pc := .upload (.recvWrite r chunk), segs := segs₂ }, [.silent], ?_, ?_⟩
  · simp only [receptionMachine, Reception.answer, hread₂, serve, serveUpload, if_true,
      Option.map_some, Effect.after]
  -- the write, however much of it is flushed
  refine .next fun flush _ => ?_
  let n := min flush (r.out.pending ++ chunk).length
  let out : OutStream :=
    { file := r.out.file, pos := r.out.pos + n, pending := (r.out.pending ++ chunk).drop n
      good := true }
  let op : FileOp κ := .write r.out.file r.out.pos ((r.out.pending ++ chunk).take n)
  have hwrite : r.out.write chunk (.stored n) = some (out, op) := by
    have hfit : n ≤ (r.out.pending ++ chunk).length ∧
        r.out.pos + (r.out.pending ++ chunk).length ≤ FileStore.maxFileBytes := by
      refine ⟨Nat.min_le_right _ _, ?_⟩
      rw [Receiving.data, List.length_append] at hroom
      rw [ht.pos, List.length_append]
      omega
    simp only [OutStream.write, ht.good, if_true]
    rw [if_pos hfit]
  let r' : Receiving H :=
    { out := out, shaState := H.update r.shaState chunk
      totalReceived := r.totalReceived + UInt64.ofNat chunk.length }
  refine ⟨{ fs := op.apply fs, pc := .upload (.recvReport r'), segs := segs₂ },
    [.file op], ?_, ?_⟩
  · simp only [receptionMachine, Reception.answer, serve, serveUpload]
    rw [hwrite]
    rfl
  -- the report
  refine .next fun flush _ =>
    ⟨{ fs := op.apply fs, pc := .upload (.recvHead r'), segs := segs₂ },
      [.progress r'.totalReceived], rfl, .here ?_⟩
  exact ⟨_, r', segs₂, rfl, tracks_write ht hwrite, write_data ht chunk n, hd₂, hleft₂⟩

/-- **The receiving loop.** -/
theorem receive_loop (hsize : s.expectedSize = UInt64.ofNat content.length)
    (hsha : s.expectedSha256 = toHex (H.digest content))
    (hmax : content.length ≤ FileStore.maxFileBytes) (rest : Bytes) (cs : List Bytes) :
    ∀ {more : Bytes} {fs : FileStore κ} {r : Receiving H} {segs : List Bytes}
      (es : List (Effect κ)), Chunks cs more → r.Tracks fs k →
      content = r.data fs ++ more → Delivered segs →
      segs.flatten = cs.flatMap frame ++ rest →
      (receptionMachine P H s).Ensures (fun _ => True) (Accepted s k content rest)
        (5 * cs.length + 4) { fs := fs, pc := .upload (.recvHead r), segs := segs } es := by
  induction cs with
  | nil =>
      intro more fs r segs es hcs ht hcontent hd hsegs
      have hmore : more = [] := hcs.flatten.symm
      have hdata : r.data fs = content := by rw [hcontent, hmore, List.append_nil]
      have hrest : segs.flatten = rest := by simpa using hsegs
      rw [← hrest]
      exact receive_end hsize hsha ht hdata segs es
  | cons chunk cs ih =>
      intro more fs r segs es hcs ht hcontent hd hsegs
      have hflatten : more = chunk ++ cs.flatten := by
        rw [← hcs.flatten, List.flatten_cons]
      rw [hflatten, ← List.append_assoc] at hcontent
      rw [List.flatMap_cons, List.append_assoc] at hsegs
      rw [show 5 * (chunk :: cs).length + 4 = 5 + (5 * cs.length + 4) by
        rw [List.length_cons]; omega]
      refine Ensures.seq ?_ (receive_chunk ht (hcs.ne_nil chunk List.mem_cons_self)
        (hcs.length_le chunk List.mem_cons_self) hcontent hsize hmax hd hsegs es)
      rintro q es' ⟨fs', r', left, rfl, ht', hdata', hd', hleft⟩
      refine ih es' ⟨rfl, fun c hc => hcs.ne_nil c (List.mem_cons_of_mem _ hc),
        fun c hc => hcs.length_le c (List.mem_cons_of_mem _ hc)⟩ ht' ?_ hd' hleft
      rw [hdata', hcontent]

/-- **Receiving.**  Chunks of the announced content are accepted, nothing after
them is read, and the temporary file holds the content. -/
theorem receive_frames (hsize : s.expectedSize = UInt64.ofNat content.length)
    (hsha : s.expectedSha256 = toHex (H.digest content))
    (hmax : content.length ≤ FileStore.maxFileBytes) {cs : List Bytes}
    (hcs : Chunks cs content) (hk : P.stdKey s.tempFilePath = some k) (fs : FileStore κ)
    {segs : List Bytes} {rest : Bytes} (hd : Delivered segs)
    (hsegs : segs.flatten = cs.flatMap frame ++ rest) :
    (receptionMachine P H s).Ensures (fun _ => True) (Accepted s k content rest)
      (1 + (5 * cs.length + 4)) { fs := fs, pc := .upload .openTemp, segs := segs } [] := by
  rw [Nat.add_comm]
  let r : Receiving H :=
    { out := { file := fs.slot k, pos := 0, pending := [], good := true }
      shaState := H.init, totalReceived := 0 }
  have hempty : r.data ((FileOp.openTrunc k).apply fs) = [] := by
    simp [r, Receiving.data, FileOp.apply]
  refine .next fun flush _ =>
    ⟨{ fs := (FileOp.openTrunc k).apply fs, pc := .upload (.recvHead r), segs := segs },
      [.file (.openTrunc k)], ?_, ?_⟩
  · simp [receptionMachine, serve, serveUpload, Reception.answer, hk, Effect.after, r]
  · refine receive_loop hsize hsha hmax rest cs _ hcs (tracks_open fs k) ?_ hd hsegs
    rw [hempty, List.nil_append]

/-- **Sending and receiving agree.**  Let the sender's session have the size
and the receiver's session the size and the hash that are announced for a
content.  Then there is one stream that an undisturbed sender writes before it
reports success, and from any delivery of it, followed by anything, the
receiver accepts the file, consumes that stream only and stores the content. -/
theorem send_receive_agree (content : Bytes)
    (hmax : content.length ≤ FileStore.maxFileBytes) (path : String)
    (draw : FileTransferManager.SendDraw) (sent received : ActiveTransferSession) (i : Nat)
    (hsent : sent.expectedSize =
      (FileTransferManager.makeOffer H path draw content content.length).size)
    (hsize : received.expectedSize =
      (FileTransferManager.makeOffer H path draw content content.length).size)
    (hsha : received.expectedSha256 =
      (FileTransferManager.makeOffer H path draw content content.length).sha256)
    (hk : P.stdKey received.tempFilePath = some k) :
    ∃ stream n n',
      (bodyMachine P H sent).Ensures (Undisturbed P sent i content) (SentAll H stream) n
        (.download .openSource) [] ∧
      ∀ (fs : FileStore κ) (segs : List Bytes) (rest : Bytes), Delivered segs →
        segs.flatten = stream ++ rest →
        (receptionMachine P H received).Ensures (fun _ => True)
          (Accepted received k content rest) n'
          { fs := fs, pc := .upload .openTemp, segs := segs } [] := by
  obtain ⟨cs, hcs, hsends⟩ := send_frames (P := P) (H := H) (i := i) hsent hmax
  refine ⟨cs.flatMap frame, _, 1 + (5 * cs.length + 4), hsends, ?_⟩
  intro fs segs rest hd hsegs
  exact receive_frames hsize (hsha.trans (hashFile_eq content)) hmax hcs hk fs hd hsegs

end Receive

/-! ## A concrete transfer -/

/-- A session for the sample content. -/
def sampleSession (target : String) (direction : TransferDirection) :
    ActiveTransferSession where
  ref := 0
  transferId := formatUuid (sampleUuid 1).bytes
  tokenBase64 := ""
  tokenBytes := (sampleToken 7).bytes
  targetFilePath := target
  expectedSize := 3
  expectedSha256 := toHex (sha256.digest [1, 2, 3])
  direction := direction

/-- The sample content is sent from a file in the folder and received, with one
byte after it on the socket. -/
theorem send_receive_agree_sample :
    ∃ stream n n',
      (∃ v, Undisturbed samplePlatform (sampleSession "a" .desktopDownloadToMobile) 0
        [1, 2, 3] (v, .go)) ∧
      (bodyMachine samplePlatform sha256
        (sampleSession "a" .desktopDownloadToMobile)).Ensures
          (Undisturbed samplePlatform (sampleSession "a" .desktopDownloadToMobile) 0
            [1, 2, 3])
          (SentAll sha256 stream) n (.download .openSource) [] ∧
      (receptionMachine samplePlatform sha256
        (sampleSession "b" .mobileUploadToPc)).Ensures (fun _ => True)
          (Accepted (sampleSession "b" .mobileUploadToPc) "b.part" [1, 2, 3] [9]) n'
          { fs := (worldWith []).fs, pc := .upload .openTemp, segs := [stream ++ [9]] }
          [] := by
  have hhash : (sampleSession "b" .mobileUploadToPc).expectedSha256 =
      FileTransferManager.hashFile sha256 [1, 2, 3] :=
    (hashFile_eq (H := sha256) [1, 2, 3]).symm
  obtain ⟨stream, n, n', hsends, hreceives⟩ := send_receive_agree (P := samplePlatform)
    (H := sha256) (k := "b.part") [1, 2, 3] (by decide) "a"
    { uuid := sampleUuid 1, token := sampleToken 7, opens := true, readLimit := none }
    (sampleSession "a" .desktopDownloadToMobile) (sampleSession "b" .mobileUploadToPc) 0
    rfl rfl hhash rfl
  refine ⟨stream, n, n', ?_, hsends, hreceives _ _ [9] (by simp [Delivered]) (by simp)⟩
  exact ⟨{ fs := (worldWith [("a", [1, 2, 3])]).fs, running := true, cancelled := false },
    ⟨rfl, rfl, rfl, by decide +kernel, by decide +kernel⟩⟩

end Iriseus.Core
