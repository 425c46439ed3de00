import Iriseus.Core.ConnectionRuns
import Iriseus.Verified.Framing

/-!
# What a connection writes to its socket

In mode 1 the server reads its file in chunks and writes each as a frame.  The
file may change or end early, the peer may close, the transfer may be cancelled
and the server stopped between any two calls, and other connections may serve the
same session.  What the peer has received is then still a sequence of whole
frames, with chunks as they were read, and at most the beginning of one more.

`Pc.SentOk` says this for every point of a body; it is kept by every step of a
connection alone and so holds of each connection in every run of the system.

## Main results

* `wire_exact` — what a connection has sent, and what its report says about it.
* `download_ends` — a sending connection comes to its report.
-/

namespace Iriseus.Core

open Iriseus.Verified
open Iriseus.Verified.ByteStream
open Iriseus.Verified.Framing
open Iriseus.Verified.Machine

variable {κ : Type}

/-! ## What a history says -/

/-- The bytes written to the socket. -/
def sentOf (h : List (SessionEffect κ)) : Bytes :=
  h.flatMap fun e => match e.2 with
    | .send bs => bs
    | _ => []

/-- The bytes read from the file. -/
def readOf (h : List (SessionEffect κ)) : Bytes :=
  h.flatMap fun e => match e.2 with
    | .read bs => bs
    | _ => []

/-- The reports of `m_onFinished`. -/
def reportsOf (h : List (SessionEffect κ)) : List Bool :=
  h.filterMap fun e => match e.2 with
    | .finished ok _ => some ok
    | _ => none

section Histories

variable (h es : List (SessionEffect κ))

@[simp] theorem sentOf_append : sentOf (h ++ es) = sentOf h ++ sentOf es :=
  List.flatMap_append

@[simp] theorem readOf_append : readOf (h ++ es) = readOf h ++ readOf es :=
  List.flatMap_append

@[simp] theorem reportsOf_append : reportsOf (h ++ es) = reportsOf h ++ reportsOf es :=
  List.filterMap_append

end Histories

/-- The history says nothing about socket, file and outcome. -/
structure Unsent (h : List (SessionEffect κ)) : Prop where
  sent : sentOf h = []
  read : readOf h = []
  reports : reportsOf h = []

/-! ## Chunks on the wire -/

/-- The chunks `cs` have been sent as frames, then the bytes `rest` of one more;
of what was read, `ahead` is not in `cs`. -/
structure OnWire (s : ActiveTransferSession) (h : List (SessionEffect κ)) (cs : List Bytes)
    (rest ahead : Bytes) : Prop where
  sent : sentOf h = encode cs ++ rest
  read : readOf h = cs.flatten ++ ahead
  admissible : ∀ c ∈ cs, Admissible kChunkPlaintextSize c
  bound : cs.flatten.length ≤ s.expectedSize.toNat

/-- A chunk that may be sent after `cs`. -/
structure Next (s : ActiveTransferSession) (cs : List Bytes) (chunk : Bytes) : Prop
    extends Admissible kChunkPlaintextSize chunk where
  room : cs.flatten.length + chunk.length ≤ s.expectedSize.toNat

/-- After `cs` comes nothing, or a beginning of the frame of the chunk read last. -/
def Cut (s : ActiveTransferSession) (cs : List Bytes) (rest ahead : Bytes) : Prop :=
  rest = [] ∨ Next s cs ahead ∧ rest <+: frame ahead

/-- The loop's counter is the length of the chunks. -/
def Sending.Counts (t : Sending) (cs : List Bytes) : Prop :=
  t.totalSent.toNat = cs.flatten.length

/-- What mode 1 has sent, at each of its points. -/
def DownloadPc.SentOk (s : ActiveTransferSession) (h : List (SessionEffect κ)) :
    DownloadPc → Prop
  | .openSource => OnWire s h [] [] []
  | .sendHead t => ∃ cs, OnWire s h cs [] [] ∧ t.Counts cs
  | .sendRead t => ∃ cs, OnWire s h cs [] [] ∧ t.Counts cs ∧ t.totalSent < s.expectedSize
  | .sendLen t chunk => ∃ cs, OnWire s h cs [] chunk ∧ t.Counts cs ∧ Next s cs chunk
  | .sendBody t chunk =>
      ∃ cs, OnWire s h cs (encodeBe32 chunk.length) chunk ∧ t.Counts cs ∧ Next s cs chunk
  | .sendReport t chunk =>
      ∃ cs, OnWire s h (cs ++ [chunk]) [] [] ∧ t.Counts cs ∧ Next s cs chunk
  | .closeSource t error => ∃ cs rest ahead, OnWire s h cs rest ahead ∧ t.Counts cs ∧
      Cut s cs rest ahead ∧ (error = false → rest = [])
  | .sendCheck totalSent error => ∃ cs rest ahead, OnWire s h cs rest ahead ∧
      totalSent.toNat = cs.flatten.length ∧ Cut s cs rest ahead ∧ (error = false → rest = [])
  | .sentAll => ∃ cs ahead, OnWire s h cs [] ahead ∧
      cs.flatten.length = s.expectedSize.toNat

/-- The direction byte asks for mode 1. -/
def FileTransferHandshake.downloads (hs : FileTransferHandshake) : Prop :=
  hs.direction = TransferDirection.desktopDownloadToMobile.toByte

/-- What a connection leaves on the wire, however it ends: nothing unless it was in
mode 1. -/
structure WireLeft (hs : FileTransferHandshake) (s : ActiveTransferSession)
    (h : List (SessionEffect κ)) : Prop where
  other : ¬hs.downloads → sentOf h = []
  cut : ∃ cs rest ahead, OnWire s h cs rest ahead ∧ Cut s cs rest ahead

/-- Everything announced has been sent, and nothing else. -/
def SentWhole (s : ActiveTransferSession) (h : List (SessionEffect κ)) : Prop :=
  ∃ cs, sentOf h = encode cs ∧ (∀ c ∈ cs, Admissible kChunkPlaintextSize c) ∧
    cs.flatten <+: readOf h ∧ cs.flatten.length = s.expectedSize.toNat

/-- What a body has sent and reported. -/
def Pc.SentOk {H : IncrementalHash} (hs : FileTransferHandshake) (s : ActiveTransferSession)
    (h : List (SessionEffect κ)) : Pc H → Prop
  | .dispatch b => Unsent h ∧ b = hs.direction
  | .upload _ => Unsent h ∧ ¬hs.downloads
  | .download pc => pc.SentOk s h ∧ hs.downloads ∧ reportsOf h = []
  | .failed _ => WireLeft hs s h ∧ reportsOf h = []
  | .done => WireLeft hs s h ∧ (reportsOf h = [] ∧ ¬hs.downloads ∨ reportsOf h = [false] ∨
      reportsOf h = [true] ∧ (hs.downloads → SentWhole s h))

/-- What a connection has sent and reported. -/
def Connection.SentOk {H : IncrementalHash} (h : List (SessionEffect κ)) :
    Connection H → Prop
  | .serving hs s pc => pc.SentOk hs s h
  | _ => Unsent h

/-! ## One step -/

section Steps

variable {P : Platform κ} {H : IncrementalHash} {v : View κ}
variable {hs : FileTransferHandshake} {s : ActiveTransferSession}
variable {h : List (SessionEffect κ)} {e : Effect κ}

theorem Sending.toRead_le (t : Sending) : t.toRead s ≤ kChunkPlaintextSize ∧
    (t.totalSent < s.expectedSize →
      t.totalSent.toNat + t.toRead s ≤ s.expectedSize.toNat) := by
  have hchunk : (UInt64.ofNat kChunkPlaintextSize).toNat = kChunkPlaintextSize := by decide
  have hmin : min (UInt64.ofNat kChunkPlaintextSize) (s.expectedSize - t.totalSent) =
      if UInt64.ofNat kChunkPlaintextSize ≤ s.expectedSize - t.totalSent then
        UInt64.ofNat kChunkPlaintextSize else s.expectedSize - t.totalSent := rfl
  unfold Sending.toRead
  rw [hmin]
  constructor
  · split
    · exact hchunk.le
    · rename_i hgt
      rw [UInt64.le_iff_toNat_le, hchunk, Nat.not_le] at hgt
      exact hgt.le
  · intro hlt
    rw [UInt64.lt_iff_toNat_lt] at hlt
    have hsub : (s.expectedSize - t.totalSent).toNat =
        s.expectedSize.toNat - t.totalSent.toNat :=
      UInt64.toNat_sub_of_le _ _ (UInt64.le_iff_toNat_le.mpr hlt.le)
    split
    · rename_i hle
      rw [UInt64.le_iff_toNat_le, hsub] at hle
      omega
    · rw [hsub]
      omega

/-- The counter after a chunk that may be sent. -/
theorem Sending.counts_advance {t : Sending} {cs : List Bytes} {chunk : Bytes}
    (hcount : t.Counts cs) (hnext : Next s cs chunk) :
    (t.advance chunk).Counts (cs ++ [chunk]) := by
  have hroom := hnext.room
  have hlt := s.expectedSize.toNat_lt
  have hchunk : (UInt64.ofNat chunk.length).toNat = chunk.length :=
    UInt64.toNat_ofNat_of_lt' (lt_of_le_of_lt (by omega) hlt)
  unfold Sending.Counts at hcount ⊢
  rw [Sending.advance, UInt64.toNat_add, hchunk, hcount, List.flatten_append]
  simp only [List.flatten_cons, List.flatten_nil, List.append_nil, List.length_append]
  exact Nat.mod_eq_of_lt (by omega)

theorem OnWire.same {cs : List Bytes} {rest ahead : Bytes} (hw : OnWire s h cs rest ahead)
    (hsent : sentOf [(s, e)] = []) (hread : readOf [(s, e)] = []) :
    OnWire s (h ++ [(s, e)]) cs rest ahead where
  sent := by rw [sentOf_append, hsent, List.append_nil, hw.sent]
  read := by rw [readOf_append, hread, List.append_nil, hw.read]
  admissible := hw.admissible
  bound := hw.bound

theorem OnWire.reads {cs : List Bytes} {rest : Bytes} (hw : OnWire s h cs rest [])
    (got : Bytes) : OnWire s (h ++ [(s, .read got)]) cs rest got where
  sent := by
    rw [sentOf_append, hw.sent]
    exact List.append_nil _
  read := by
    have hgot : readOf [(s, (.read got : Effect κ))] = got := List.append_nil got
    rw [readOf_append, hw.read, List.append_nil, hgot]
  admissible := hw.admissible
  bound := hw.bound

theorem OnWire.sends {cs : List Bytes} {rest ahead : Bytes} (hw : OnWire s h cs rest ahead)
    (bs : Bytes) : OnWire s (h ++ [(s, .send bs)]) cs (rest ++ bs) ahead where
  sent := by
    have hbs : sentOf [(s, (.send bs : Effect κ))] = bs := List.append_nil bs
    rw [sentOf_append, hw.sent, hbs, List.append_assoc]
  read := by
    rw [readOf_append, hw.read]
    exact List.append_nil _
  admissible := hw.admissible
  bound := hw.bound

/-- The frame of a chunk is complete. -/
theorem OnWire.complete {cs : List Bytes} {chunk : Bytes}
    (hw : OnWire s h cs (frame chunk) chunk)
    (hnext : Next s cs chunk) : OnWire s h (cs ++ [chunk]) [] [] where
  sent := by simp [hw.sent]
  read := by simp [hw.read]
  admissible := by
    intro c hc
    rcases List.mem_append.mp hc with hc | hc
    · exact hw.admissible c hc
    · exact List.mem_singleton.mp hc ▸ hnext.toAdmissible
  bound := by
    have hroom := hnext.room
    simpa using hroom

/-- A body in mode 1 moves, whatever it sees. -/
theorem sentOk_download {pc : DownloadPc} {pc' : Pc H} (hI : pc.SentOk s h)
    (hdown : hs.downloads) (hquiet : reportsOf h = []) (hm : DownloadMove H v s pc pc' e) :
    pc'.SentOk hs s (h ++ [(s, e)]) := by
  have hleft : ∀ {cs rest ahead}, OnWire s (h ++ [(s, e)]) cs rest ahead →
      Cut s cs rest ahead → WireLeft hs s (h ++ [(s, e)]) :=
    fun hw hcut => ⟨fun hnot => absurd hdown hnot, _, _, _, hw, hcut⟩
  cases hm with
  | opens =>
      have hw : OnWire s h [] [] [] := hI
      exact ⟨⟨[], hw.same rfl rfl, rfl⟩, hdown, by rw [reportsOf_append, hquiet]; rfl⟩
  | opensNot =>
      have hw : OnWire s h [] [] [] := hI
      exact ⟨hleft (hw.same rfl rfl) (Or.inl rfl), by rw [reportsOf_append, hquiet]; rfl⟩
  | goesOn hlt =>
      obtain ⟨cs, hw, hcount⟩ := hI
      exact ⟨⟨cs, hw.same rfl rfl, hcount, hlt⟩, hdown, by rw [reportsOf_append, hquiet]; rfl⟩
  | leaves =>
      obtain ⟨cs, hw, hcount⟩ := hI
      exact ⟨⟨cs, [], [], hw.same rfl rfl, hcount, Or.inl rfl, fun _ => rfl⟩, hdown,
        by rw [reportsOf_append, hquiet]; rfl⟩
  | @reads t got source hsome hle =>
      obtain ⟨cs, hw, hcount, hlt⟩ := hI
      obtain ⟨hchunk, hroom⟩ := t.toRead_le (s := s)
      have hfits := hroom hlt
      rw [hcount] at hfits
      refine ⟨⟨cs, hw.reads got, hcount, ⟨⟨List.length_pos_iff.mpr hsome, hle.trans hchunk⟩, ?_⟩⟩,
        hdown, by rw [reportsOf_append, hquiet]; rfl⟩
      omega
  | readsNothing =>
      obtain ⟨cs, hw, hcount, -⟩ := hI
      exact ⟨⟨cs, [], [], hw.reads [], hcount, Or.inl rfl, fun _ => rfl⟩, hdown,
        by rw [reportsOf_append, hquiet]; rfl⟩
  | sendsLen =>
      obtain ⟨cs, hw, hcount, hnext⟩ := hI
      exact ⟨⟨cs, hw.sends _, hcount, hnext⟩, hdown, by rw [reportsOf_append, hquiet]; rfl⟩
  | cutsLen n =>
      obtain ⟨cs, hw, hcount, hnext⟩ := hI
      refine ⟨⟨cs, _, _, hw.sends _, hcount, Or.inr ⟨hnext, ?_⟩, by simp⟩, hdown,
        by rw [reportsOf_append, hquiet]; rfl⟩
      exact (List.take_prefix _ _).trans (List.prefix_append _ _)
  | sendsBody =>
      obtain ⟨cs, hw, hcount, hnext⟩ := hI
      exact ⟨⟨cs, (hw.sends _).complete hnext, hcount, hnext⟩, hdown,
        by rw [reportsOf_append, hquiet]; rfl⟩
  | cutsBody n =>
      obtain ⟨cs, hw, hcount, hnext⟩ := hI
      refine ⟨⟨cs, _, _, hw.sends _, hcount, Or.inr ⟨hnext, ?_⟩, by simp⟩, hdown,
        by rw [reportsOf_append, hquiet]; rfl⟩
      exact List.prefix_append_right_inj _ |>.mpr (List.take_prefix _ _)
  | reports =>
      obtain ⟨cs, hw, hcount, hnext⟩ := hI
      exact ⟨⟨_, hw.same rfl rfl, Sending.counts_advance hcount hnext⟩, hdown,
        by rw [reportsOf_append, hquiet]; rfl⟩
  | closes =>
      obtain ⟨cs, rest, ahead, hw, hcount, hcut, hrest⟩ := hI
      exact ⟨⟨cs, rest, ahead, hw.same rfl rfl, hcount, hcut, hrest⟩, hdown,
        by rw [reportsOf_append, hquiet]; rfl⟩
  | fails =>
      obtain ⟨cs, rest, ahead, hw, -, hcut, -⟩ := hI
      exact ⟨hleft (hw.same rfl rfl) hcut, by rw [reportsOf_append, hquiet]; rfl⟩
  | completes =>
      obtain ⟨cs, rest, ahead, hw, hcount, -, hrest⟩ := hI
      rw [hrest rfl] at hw
      exact ⟨⟨cs, ahead, hw.same rfl rfl, hcount.symm⟩, hdown,
        by rw [reportsOf_append, hquiet]; rfl⟩
  | finishes =>
      obtain ⟨cs, ahead, hw, hsize⟩ := hI
      have hw' := hw.same (e := (.finished true "" : Effect κ)) rfl rfl
      refine ⟨hleft hw' (Or.inl rfl), Or.inr (Or.inr ⟨?_, fun _ => ⟨cs, ?_, hw'.admissible, ?_,
        hsize⟩⟩)⟩
      · rw [reportsOf_append, hquiet]
        rfl
      · rw [hw'.sent, List.append_nil]
      · rw [hw'.read]
        exact List.prefix_append _ _

/-- An effect that neither reads, sends nor reports. -/
theorem Unsent.frame (hI : Unsent h) (hreads : e.readsFile = false)
    (hreport : ∀ ok error, e ≠ .finished ok error) : Unsent (h ++ [(s, e)]) := by
  cases e with
  | read bs => simp [Effect.readsFile] at hreads
  | send bs => simp [Effect.readsFile] at hreads
  | finished ok error => exact absurd rfl (hreport ok error)
  | _ =>
      exact
        { sent := by rw [sentOf_append, hI.sent]; rfl
          read := by rw [readOf_append, hI.read]; rfl
          reports := by rw [reportsOf_append, hI.reports]; rfl }

theorem Unsent.onWire (hI : Unsent h) : OnWire s h [] [] [] where
  sent := hI.sent
  read := hI.read
  admissible := by simp
  bound := Nat.zero_le _

theorem Unsent.wireLeft (hI : Unsent h) : WireLeft hs s h where
  other _ := hI.sent
  cut := ⟨[], [], [], hI.onWire, Or.inl rfl⟩

/-- A report leaves the wire as it is. -/
theorem WireLeft.reports (hw : WireLeft hs s h) (ok : Bool) (error : String) :
    WireLeft hs s (h ++ [(s, (.finished ok error : Effect κ))]) where
  other hnot := by
    rw [sentOf_append, hw.other hnot]
    rfl
  cut := by
    obtain ⟨cs, rest, ahead, hwire, hcut⟩ := hw.cut
    exact ⟨cs, rest, ahead, hwire.same rfl rfl, hcut⟩

/-- Mode 0 is done with a report of success. -/
theorem serveUpload_done {u : UploadPc H} {inp : Input}
    (hm : serveUpload P H v s u inp = some (.done, e)) : e = .finished true "" := by
  cases u with
  | saved finalPath =>
      simp only [serveUpload] at hm
      split at hm <;> cases hm
      rfl
  | recvWrite r chunk | closeTemp r error =>
      simp only [serveUpload] at hm
      (repeat' split at hm) <;> cases hm
  | openTemp | recvHead | recvLen | recvChunk | recvReport | recvCheck | dropInterrupted
  | interrupted | verify | dropBadHash | resolve | rename | dropUnsaved =>
      simp only [serveUpload] at hm
      (repeat' split at hm) <;> cases hm

/-- A body in mode 0 moves. -/
theorem sentOk_upload {u : UploadPc H} {inp : Input} {pc' : Pc H} (hI : Unsent h)
    (hup : ¬hs.downloads) (hm : serveUpload P H v s u inp = some (pc', e)) :
    pc'.SentOk hs s (h ++ [(s, e)]) := by
  obtain ⟨hnext, hreads, -⟩ := serveUpload_mode hm
  have hserve : serve P H v s (.upload u) inp = some (pc', e) := hm
  have hframe (hnot : pc' ≠ .done) : Unsent (h ++ [(s, e)]) := by
    refine hI.frame hreads fun ok error he => hnot ?_
    subst he
    exact (serve_finished hserve).1
  rcases hnext with ⟨u', rfl⟩ | ⟨error, rfl⟩ | rfl
  · exact ⟨hframe (by simp), hup⟩
  · have hunsent := hframe (by simp)
    exact ⟨hunsent.wireLeft, hunsent.reports⟩
  · rw [serveUpload_done hm]
    refine ⟨hI.wireLeft.reports _ _, Or.inr (Or.inr ⟨?_, fun hdown => absurd hdown hup⟩)⟩
    rw [reportsOf_append, hI.reports]
    rfl

/-- **One step** of a body. -/
theorem sentOk_serve {pc pc' : Pc H} {inp : Input} (hI : pc.SentOk hs s h)
    (hm : serve P H v s pc inp = some (pc', e)) : pc'.SentOk hs s (h ++ [(s, e)]) := by
  cases pc with
  | dispatch b =>
      obtain ⟨hunsent, rfl⟩ := hI
      have hframe : Unsent (h ++ [(s, (.silent : Effect κ))]) :=
        hunsent.frame rfl (by simp)
      simp only [serve] at hm
      split at hm
      · split at hm
        · rename_i hmobile
          cases hm
          refine ⟨hframe, fun hdown => ?_⟩
          rw [FileTransferHandshake.downloads, hmobile] at hdown
          exact absurd hdown (by decide)
        · split at hm <;> cases hm
          · rename_i hdown
            exact ⟨hframe.onWire, hdown, hframe.reports⟩
          · rename_i hdown
            exact ⟨hframe.wireLeft, Or.inl ⟨hframe.reports, hdown⟩⟩
      · cases hm
  | upload u => exact sentOk_upload hI.1 hI.2 hm
  | download d => exact sentOk_download hI.1 hI.2.1 hI.2.2 (serveDownload_cases hm)
  | failed error =>
      simp only [serve] at hm
      split at hm <;> cases hm
      refine ⟨hI.1.reports _ _, Or.inr (Or.inl ?_)⟩
      rw [reportsOf_append, hI.2]
      rfl
  | done => simp [serve] at hm

/-- **One step** of a connection. -/
theorem sentOk_connection {srv : FileTransferServer} {fs : FileStore κ}
    {conn conn' : Connection H} {inp : Input} {eff : Option (SessionEffect κ)}
    (hI : conn.SentOk h) (hm : conn.step P H srv fs inp = some (conn', eff)) :
    conn'.SentOk (h ++ eff.toList) := by
  cases Connection.step_cases hm with
  | greeted =>
      rw [Option.toList_none, List.append_nil]
      exact hI
  | found _ _ => exact Unsent.frame hI rfl (by simp)
  | authenticated _ => exact ⟨Unsent.frame hI rfl (by simp), rfl⟩
  | serves hserve => exact sentOk_serve hI hserve
  | ends hpre =>
      rw [Option.toList_none, List.append_nil]
      cases conn with
      | serving hs s pc => cases hpre
      | _ => exact hI

/-- The connection alone has sent what it should, in every run. -/
theorem sentOk_reach {conn : Connection H}
    (hr : (connectionMachine P H).Reach anyStep conn h) : conn.SentOk h := by
  refine hr.invariant (fun conn h => conn.SentOk h) ?_ ?_
  · rintro conn rfl
    exact ⟨rfl, rfl, rfl⟩
  · intro conn h a conn' es hI _ hs
    simp only [connectionMachine, Option.map_eq_some_iff] at hs
    obtain ⟨⟨conn₁, eff⟩, hm, heq⟩ := hs
    cases heq
    exact sentOk_connection hI hm

end Steps

/-! ## What the peer has received -/

/-- The chunks the peer finds in the bytes it has received. -/
def chunksOf (h : List (SessionEffect κ)) : List Bytes :=
  frames kChunkPlaintextSize (sentOf h)

/-- What a connection has sent and reported, as the peer sees it. -/
structure WireExact (hs : FileTransferHandshake) (s : ActiveTransferSession)
    (h : List (SessionEffect κ)) : Prop where
  other : ¬hs.downloads → sentOf h = []
  content : (chunksOf h).flatten <+: readOf h
  bound : (chunksOf h).flatten.length ≤ s.expectedSize.toNat
  rest : ∃ rest c, sentOf h = encode (chunksOf h) ++ rest ∧
    (rest = [] ∨ Admissible kChunkPlaintextSize c ∧ rest <+: frame c)
  once : (reportsOf h).length ≤ 1
  success : true ∈ reportsOf h → hs.downloads → sentOf h = encode (chunksOf h) ∧
    (chunksOf h).flatten.length = s.expectedSize.toNat

section Received

variable {s : ActiveTransferSession} {h : List (SessionEffect κ)} {hs : FileTransferHandshake}

private theorem chunkSize_lt : kChunkPlaintextSize < 2 ^ 32 := by decide

/-- A beginning of a frame holds no frame but that one. -/
theorem frames_of_prefix {rest c : Bytes} (hc : Admissible kChunkPlaintextSize c)
    (hrest : rest <+: frame c) :
    frames kChunkPlaintextSize rest = [] ∨
      frames kChunkPlaintextSize rest = [c] ∧ rest = frame c := by
  obtain ⟨tail, htail⟩ := hrest
  cases hfirst : firstFrame kChunkPlaintextSize rest with
  | none => exact Or.inl (frames_of_none hfirst)
  | some r =>
      obtain ⟨d, left⟩ := r
      obtain ⟨hd, rfl⟩ := (firstFrame_eq_some_iff chunkSize_lt).mp hfirst
      have hwhole := firstFrame_frame_append chunkSize_lt hc []
      rw [List.append_nil, ← htail, List.append_assoc,
        firstFrame_frame_append chunkSize_lt hd, Option.some.injEq, Prod.mk.injEq] at hwhole
      obtain ⟨rfl, hnothing⟩ := hwhole
      obtain ⟨rfl, -⟩ := List.append_eq_nil_iff.mp hnothing
      have hnil : frames kChunkPlaintextSize [] = [] := frames_of_none rfl
      refine Or.inr ⟨?_, List.append_nil _⟩
      rw [frames_of_some hfirst, hnil]

/-- The peer finds what has been sent whole, and perhaps the chunk that was cut
after its last byte. -/
theorem OnWire.parsed {cs : List Bytes} {rest ahead : Bytes} (hw : OnWire s h cs rest ahead)
    (hcut : Cut s cs rest ahead) :
    (chunksOf h = cs ∧ (rest = [] ∨ Next s cs ahead ∧ rest <+: frame ahead)) ∨
      (chunksOf h = cs ++ [ahead] ∧ Next s cs ahead ∧ rest = frame ahead) := by
  have hframes : chunksOf h = cs ++ frames kChunkPlaintextSize rest := by
    rw [chunksOf, hw.sent, frames_encode_append chunkSize_lt cs hw.admissible]
  rcases hcut with rfl | ⟨hnext, hprefix⟩
  · refine Or.inl ⟨?_, Or.inl rfl⟩
    rw [hframes, frames_of_none rfl, List.append_nil]
  · rcases frames_of_prefix hnext.toAdmissible hprefix with hnone | ⟨hone, hrest⟩
    · exact Or.inl ⟨by rw [hframes, hnone, List.append_nil], Or.inr ⟨hnext, hprefix⟩⟩
    · exact Or.inr ⟨by rw [hframes, hone], hnext, hrest⟩

/-- What is left on the wire, in the peer's terms. -/
theorem WireLeft.exact (hw : WireLeft hs s h) (honce : (reportsOf h).length ≤ 1)
    (hsuccess : true ∈ reportsOf h → hs.downloads → SentWhole s h) : WireExact hs s h := by
  obtain ⟨cs, rest, ahead, hwire, hcut⟩ := hw.cut
  have hparsed := hwire.parsed hcut
  refine ⟨hw.other, ?_, ?_, ?_, honce, fun htrue hdown => ?_⟩
  · rcases hparsed with ⟨hcs, -⟩ | ⟨hcs, -, -⟩ <;> rw [hcs, hwire.read]
    · exact List.prefix_append _ _
    · simp
  · rcases hparsed with ⟨hcs, -⟩ | ⟨hcs, hnext, -⟩ <;> rw [hcs]
    · exact hwire.bound
    · simpa using hnext.room
  · rcases hparsed with ⟨hcs, hrest⟩ | ⟨hcs, -, hrest⟩
    · exact ⟨rest, ahead, by rw [hcs, hwire.sent], hrest.imp_right fun hcut =>
        ⟨hcut.1.toAdmissible, hcut.2⟩⟩
    · exact ⟨[], [], by simp [hcs, hwire.sent, hrest], Or.inl rfl⟩
  · obtain ⟨ds, hsent, hadm, -, hsize⟩ := hsuccess htrue hdown
    have hds : chunksOf h = ds := by
      have hnil : frames kChunkPlaintextSize [] = [] := frames_of_none rfl
      have hall := frames_encode_append chunkSize_lt ds hadm []
      rwa [List.append_nil, hnil, List.append_nil, ← hsent] at hall
    exact ⟨by rw [hds, hsent], by rw [hds, hsize]⟩

theorem DownloadPc.SentOk.cut {pc : DownloadPc} (hI : pc.SentOk s h) :
    ∃ cs rest ahead, OnWire s h cs rest ahead ∧ Cut s cs rest ahead := by
  cases pc with
  | openSource => exact ⟨[], [], [], hI, Or.inl rfl⟩
  | sendHead t =>
      obtain ⟨cs, hw, -⟩ := hI
      exact ⟨cs, [], [], hw, Or.inl rfl⟩
  | sendRead t =>
      obtain ⟨cs, hw, -⟩ := hI
      exact ⟨cs, [], [], hw, Or.inl rfl⟩
  | sendLen t chunk =>
      obtain ⟨cs, hw, -⟩ := hI
      exact ⟨cs, [], chunk, hw, Or.inl rfl⟩
  | sendBody t chunk =>
      obtain ⟨cs, hw, -, hnext⟩ := hI
      exact ⟨cs, _, chunk, hw, Or.inr ⟨hnext, List.prefix_append _ _⟩⟩
  | sendReport t chunk =>
      obtain ⟨cs, hw, -⟩ := hI
      exact ⟨cs ++ [chunk], [], [], hw, Or.inl rfl⟩
  | closeSource t error =>
      obtain ⟨cs, rest, ahead, hw, -, hcut, -⟩ := hI
      exact ⟨cs, rest, ahead, hw, hcut⟩
  | sendCheck totalSent error =>
      obtain ⟨cs, rest, ahead, hw, -, hcut, -⟩ := hI
      exact ⟨cs, rest, ahead, hw, hcut⟩
  | sentAll =>
      obtain ⟨cs, ahead, hw, -⟩ := hI
      exact ⟨cs, [], ahead, hw, Or.inl rfl⟩

theorem Pc.SentOk.exact {H : IncrementalHash} {pc : Pc H} (hI : pc.SentOk hs s h) :
    WireExact hs s h := by
  have hsilent : ∀ {l : List Bool}, l = [] → l.length ≤ 1 ∧ true ∉ l := by
    rintro l rfl
    exact ⟨Nat.zero_le _, List.not_mem_nil⟩
  cases pc with
  | dispatch b =>
      obtain ⟨honce, hnot⟩ := hsilent hI.1.reports
      exact hI.1.wireLeft.exact honce fun htrue => absurd htrue hnot
  | upload u =>
      obtain ⟨honce, hnot⟩ := hsilent hI.1.reports
      exact hI.1.wireLeft.exact honce fun htrue => absurd htrue hnot
  | download d =>
      obtain ⟨honce, hnot⟩ := hsilent hI.2.2
      have hleft : WireLeft hs s h := ⟨fun hup => absurd hI.2.1 hup, hI.1.cut⟩
      exact hleft.exact honce fun htrue => absurd htrue hnot
  | failed error =>
      obtain ⟨honce, hnot⟩ := hsilent hI.2
      exact hI.1.exact honce fun htrue => absurd htrue hnot
  | done =>
      obtain ⟨hleft, ⟨hnone, -⟩ | hfalse | ⟨htrue, hwhole⟩⟩ := hI
      · obtain ⟨honce, hnot⟩ := hsilent hnone
        exact hleft.exact honce fun htrue => absurd htrue hnot
      · exact hleft.exact (by rw [hfalse]; rfl) fun htrue => by simp [hfalse] at htrue
      · exact hleft.exact (by rw [htrue]; rfl) fun _ => hwhole

end Received

section Wire

variable {P : Platform κ} {H : IncrementalHash} [DecidableEq κ]

/-- **What is on the wire.**  Whatever happens around a connection, it sends nothing
while it is not served a session, or if it is refused one; and then it sends only in
mode 1, and the peer has received whole frames and the beginning of one more: chunks
as they were read, never more than announced.  It reports at most once, and reports
success of a download only when everything announced has been sent. -/
theorem wire_exact {ok : StepCond (World κ H) (TransferAction κ) (TransferEvent κ)}
    {w : World κ H} {h : List (TransferEvent κ)} (hr : (transferMachine P H).Reach ok w h)
    {c : Nat} {conn : Connection H} (hc : w.conns[c]? = some conn) :
    (conn.served? = none → Unsent (effectsOf c h)) ∧
      ∀ hs s, conn.served? = some (hs, s) → WireExact hs s (effectsOf c h) := by
  have hI : conn.SentOk (effectsOf c h) := sentOk_reach (connection_reach hr hc)
  cases conn with
  | serving hs s pc =>
      refine ⟨fun hnone => (Option.some_ne_none _ hnone).elim, fun hs' s' hserved => ?_⟩
      cases hserved
      exact Pc.SentOk.exact hI
  | handshake | lookup | validate | closed =>
      exact ⟨fun _ => hI, fun _ _ hserved => by cases hserved⟩

/-- A file of three bytes is offered to session 1 and asked for on connection 0, which
is cut off after the first two of its content. -/
def cutDownload : List (TransferAction String) :=
  [ .control (.start true)
  , .control (.sendFiles 1 ["a"])
  , .control (.sendNext
      { uuid := sampleUuid 1, token := sampleToken 7, opens := true, readLimit := none }) ] ++
  connectActions 0 1 7 1 ++
  -- open, loop head, read, length, part of the chunk, close, check, report
  List.replicate 4 (.conn 0 .go) ++ [.conn 0 (.cut 2)] ++ List.replicate 3 (.conn 0 .go)

end Wire

private theorem cutDownload_reach :
    ∃ (w : World String sha256) (h : List (TransferEvent String))
      (hs : FileTransferHandshake) (s : ActiveTransferSession) (pc : Pc sha256),
      (transferMachine samplePlatform sha256).Reach anyStep w h ∧
        w.conns[0]? = some (.serving hs s pc) ∧ hs.downloads ∧
          sentOf (effectsOf 0 h) = [0, 0, 0, 3, 97, 98] := by
  obtain ⟨w, h, hr, hh⟩ := exists_reach_of_exec
    (transferMachine samplePlatform sha256) anyStep
    (s := worldWith [("a", [97, 98, 99])]) (worldWith_init _) cutDownload
    (fun (w : World String sha256) h => (w.conns[0]?.bind Connection.served?).any fun r =>
      decide (r.1.direction = TransferDirection.desktopDownloadToMobile.toByte) &&
        decide (sentOf (effectsOf 0 h) = [0, 0, 0, 3, 97, 98]))
    (by decide +kernel)
  obtain ⟨r, hserved, hh⟩ := (Option.any_eq_true _ _).mp hh
  obtain ⟨conn, hc, hserved⟩ := Option.bind_eq_some_iff.mp hserved
  obtain ⟨pc, rfl⟩ := Connection.served_eq_some hserved
  simp only [Bool.and_eq_true, decide_eq_true_eq] at hh
  exact ⟨w, h, r.1, r.2, pc, hr, hc, hh.1, hh.2⟩

theorem wire_exact_sample :
    ∃ (h : List (TransferEvent String)) (hs : FileTransferHandshake)
      (s : ActiveTransferSession), sentOf (effectsOf 0 h) = [0, 0, 0, 3, 97, 98] ∧
        WireExact hs s (effectsOf 0 h) := by
  obtain ⟨w, h, hs, s, pc, hr, hc, -, hsent⟩ := cutDownload_reach
  exact ⟨h, hs, s, hsent, (wire_exact hr hc).2 hs s rfl⟩

/-! ## A download comes to its report -/

section Ends

variable {P : Platform κ} {H : IncrementalHash}
variable {hs : FileTransferHandshake} {s : ActiveTransferSession}
variable {h : List (SessionEffect κ)} {e : Effect κ} {v : View κ}

/-- What is left to send. -/
def Sending.left (s : ActiveTransferSession) (t : Sending) : Nat :=
  s.expectedSize.toNat - t.totalSent.toNat

/-- A bound on the steps mode 1 still takes. -/
def DownloadPc.rank (s : ActiveTransferSession) : DownloadPc → Nat
  | .openSource => 5 * s.expectedSize.toNat + 5
  | .sendHead t => 5 * t.left s + 4
  | .sendRead t => 5 * t.left s + 3
  | .sendLen t _ => 5 * t.left s + 2
  | .sendBody t _ => 5 * t.left s + 1
  | .sendReport t _ => 5 * t.left s
  | .closeSource _ _ => 3
  | .sendCheck _ _ => 2
  | .sentAll => 1

/-- A bound on the steps a body that sends still takes. -/
def Pc.rank {H : IncrementalHash} (s : ActiveTransferSession) : Pc H → Nat
  | .dispatch _ => 5 * s.expectedSize.toNat + 6
  | .upload _ => 0
  | .download pc => pc.rank s
  | .failed _ => 1
  | .done => 0

/-- A chunk that may be sent is part of what is left. -/
theorem Next.le_left {cs : List Bytes} {chunk : Bytes} {t : Sending} (hnext : Next s cs chunk)
    (hcount : t.Counts cs) : 0 < chunk.length ∧ chunk.length ≤ t.left s := by
  have hroom := hnext.room
  unfold Sending.Counts at hcount
  unfold Sending.left
  exact ⟨hnext.pos, by omega⟩

/-- Sending a chunk lowers what is left by its length. -/
theorem Sending.left_advance {cs : List Bytes} {chunk : Bytes} {t : Sending}
    (hnext : Next s cs chunk) (hcount : t.Counts cs) :
    (t.advance chunk).left s + chunk.length = t.left s := by
  have hcount' := Sending.counts_advance hcount hnext
  have hroom := hnext.room
  unfold Sending.Counts at hcount hcount'
  unfold Sending.left
  rw [hcount', hcount]
  simp only [List.flatten_append, List.flatten_cons, List.flatten_nil, List.append_nil,
    List.length_append]
  omega

theorem rank_download {pc : DownloadPc} {pc' : Pc H} (hI : pc.SentOk s h)
    (hm : DownloadMove H v s pc pc' e) : pc'.rank s < pc.rank s := by
  cases hm with
  | opens | opensNot | goesOn | leaves | reads | closes | fails | completes | finishes =>
      simp only [Pc.rank, DownloadPc.rank, Sending.left, UInt64.toNat_zero]
      omega
  | readsNothing =>
      obtain ⟨cs, -, -, hlt⟩ := hI
      rw [UInt64.lt_iff_toNat_lt] at hlt
      simp only [Pc.rank, DownloadPc.rank, Sending.left]
      omega
  | sendsLen | cutsLen | sendsBody | cutsBody =>
      obtain ⟨cs, hw, hcount, hnext⟩ := hI
      have hleft := hnext.le_left hcount
      simp only [Pc.rank, DownloadPc.rank]
      omega
  | reports =>
      obtain ⟨cs, hw, hcount, hnext⟩ := hI
      have hpos := hnext.pos
      have hleft := Sending.left_advance hnext hcount
      simp only [Pc.rank, DownloadPc.rank]
      omega

/-- Every step of a sending body lowers its rank. -/
theorem rank_serve {pc pc' : Pc H} {inp : Input} (hI : pc.SentOk hs s h)
    (hdown : hs.downloads) (hm : serve P H v s pc inp = some (pc', e)) :
    pc'.rank s < pc.rank s := by
  cases pc with
  | dispatch b =>
      obtain ⟨-, rfl⟩ := hI
      have hbyte : hs.direction = TransferDirection.desktopDownloadToMobile.toByte := hdown
      have hnot : TransferDirection.desktopDownloadToMobile.toByte ≠
          TransferDirection.mobileUploadToPc.toByte := by decide
      simp only [serve, hbyte, hnot, if_false, if_true] at hm
      split at hm <;> cases hm
      exact Nat.lt_succ_self _
  | upload u => exact absurd hdown hI.2
  | download d => exact rank_download hI.1 (serveDownload_cases hm)
  | failed error =>
      simp only [serve] at hm
      split at hm <;> cases hm
      exact Nat.one_pos
  | done => simp [serve] at hm

/-- The steps a connection has made, and those it still makes if it sends. -/
def Connection.Spends (h : List (SessionEffect κ)) : Connection H → Prop
  | .serving hs s pc => hs.downloads → h.length + pc.rank s ≤ 5 * s.expectedSize.toNat + 8
  | .validate _ _ => h.length ≤ 1
  | .handshake => h = []
  | .lookup _ => h = []
  | .closed => True

theorem spends_connection {srv : FileTransferServer} {fs : FileStore κ}
    {conn conn' : Connection H} {inp : Input} {eff : Option (SessionEffect κ)}
    (hsent : conn.SentOk h) (hI : conn.Spends h)
    (hm : conn.step P H srv fs inp = some (conn', eff)) : conn'.Spends (h ++ eff.toList) := by
  cases Connection.step_cases hm with
  | greeted =>
      rw [Option.toList_none, List.append_nil]
      exact hI
  | found _ _ =>
      have hnil : h = [] := hI
      simp [Connection.Spends, hnil]
  | authenticated _ =>
      have hone : h.length ≤ 1 := hI
      intro _
      simp only [List.length_append, Option.toList_some, List.length_singleton, Pc.rank]
      omega
  | serves hserve =>
      intro hdown
      have hspent := hI hdown
      have hlt := rank_serve hsent hdown hserve
      simp only [List.length_append, Option.toList_some, List.length_singleton]
      omega
  | ends _ => trivial

theorem spends_reach {conn : Connection H}
    (hr : (connectionMachine P H).Reach anyStep conn h) : conn.Spends h := by
  refine hr.invariant_along (fun conn h => conn.Spends h) ?_ ?_
  · rintro conn rfl
    rfl
  · intro conn h a conn' es hreach hI _ hs
    simp only [connectionMachine, Option.map_eq_some_iff] at hs
    obtain ⟨⟨conn₁, eff⟩, hm, heq⟩ := hs
    cases heq
    exact spends_connection (sentOk_reach hreach) hI hm

theorem InStream.read_go (t : InStream) (fs : FileStore κ) (toRead : Nat) :
    ∃ got t', t.read fs toRead .go = some (got, t') := by
  simp only [InStream.read]
  split
  · exact ⟨_, _, rfl⟩
  · exact ⟨_, _, rfl⟩

/-- A sending body that is not done can go on, whatever it sees. -/
theorem serve_goes_on {pc : Pc H} (hI : pc.SentOk hs s h) (hdown : hs.downloads)
    (hgo : pc ≠ .done) : (serve P H v s pc .go).isSome = true := by
  cases pc with
  | dispatch b =>
      simp only [serve]
      (repeat' split) <;> rfl
  | upload u => exact absurd hdown hI.2
  | download d =>
      cases d with
      | sendRead t =>
          obtain ⟨got, source, hread⟩ := t.source.read_go v.fs (t.toRead s)
          simp only [Sending.toRead] at hread
          simp only [serve, serveDownload, hread]
          split <;> rfl
      | openSource | sendHead | sendLen | sendBody | sendReport | closeSource | sendCheck
      | sentAll =>
          simp only [serve, serveDownload]
          (repeat' split) <;> rfl
  | failed error => rfl
  | done => exact absurd rfl hgo

variable [DecidableEq κ]

/-- **A download comes to its report.**  In no run does a sending connection have more
than `5 * expectedSize + 8` effects, one for each of its steps but the reading of the
handshake; until it is done it can make its next one, whatever the rest of the system
has done or holds; and when it is done it has reported exactly once. -/
theorem download_ends {ok : StepCond (World κ H) (TransferAction κ) (TransferEvent κ)}
    {w : World κ H} {h : List (TransferEvent κ)} (hr : (transferMachine P H).Reach ok w h)
    {c : Nat} {hs : FileTransferHandshake} {s : ActiveTransferSession} {pc : Pc H}
    (hc : w.conns[c]? = some (.serving hs s pc)) (hdown : hs.downloads) :
    (effectsOf c h).length ≤ 5 * s.expectedSize.toNat + 8 ∧
      (pc ≠ .done → reportsOf (effectsOf c h) = [] ∧
        ∃ w' es, (transferMachine P H).step w (.conn c .go) = some (w', es)) ∧
      (pc = .done → ∃ ok, reportsOf (effectsOf c h) = [ok]) := by
  have hreach := connection_reach hr hc
  have hsent : pc.SentOk hs s (effectsOf c h) := sentOk_reach hreach
  have hspent : (effectsOf c h).length + pc.rank s ≤ 5 * s.expectedSize.toNat + 8 :=
    spends_reach hreach hdown
  refine ⟨by omega, fun hgo => ⟨?_, ?_⟩, ?_⟩
  · cases pc with
    | dispatch b => exact hsent.1.reports
    | upload u => exact hsent.1.reports
    | download d => exact hsent.2.2
    | failed error => exact hsent.2
    | done => exact absurd rfl hgo
  · obtain ⟨⟨pc', e⟩, hserve⟩ := Option.isSome_iff_exists.mp
      (serve_goes_on (P := P)
        (v := { fs := w.fs, running := w.manager.server.running
                cancelled := w.manager.server.cancelled s.ref }) hsent hdown hgo)
    simp only [transferMachine, transferStep, hc, Connection.step, hserve]
    exact ⟨_, _, rfl⟩
  · rintro rfl
    obtain ⟨-, ⟨-, hup⟩ | hfalse | ⟨htrue, -⟩⟩ := hsent
    · exact absurd hdown hup
    · exact ⟨_, hfalse⟩
    · exact ⟨_, htrue⟩

end Ends

theorem download_ends_sample :
    ∃ (h : List (TransferEvent String)) (s : ActiveTransferSession),
      sentOf (effectsOf 0 h) = [0, 0, 0, 3, 97, 98] ∧
        (effectsOf 0 h).length ≤ 5 * s.expectedSize.toNat + 8 := by
  obtain ⟨w, h, hs, s, pc, hr, hc, hdown, hsent⟩ := cutDownload_reach
  exact ⟨h, s, hsent, (download_ends hr hc hdown).1⟩

end Iriseus.Core
