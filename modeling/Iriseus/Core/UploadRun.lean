import Iriseus.Core.CollisionNames

/-!
# One upload alone

A receiving body with its socket, from its handshake to its report, while
nobody else uses its temporary file.  What can go wrong is in the label of a
step: before it the server may be stopped, the session cancelled and the
temporary file removed by `cancelTransfer` or `stop`; opening, renaming, and
the writes and the close of the stream may fail.  What the peer sends, and
where it stops, is the list of segments the socket still delivers.

`UploadMove` lists everything a step of the body can do.  By a variant every
run comes to the report (`upload_ends`); on the way there no name but that of
the temporary file changes what is read at it.

## Main results

* `upload_ends` — every run comes to an end.
* `upload_all_or_nothing` — one report; after a failure the files are as before,
  after a success one file has been added.
-/

namespace Iriseus.Core

open Iriseus.Verified
open Iriseus.Verified.ByteStream
open Iriseus.Verified.Machine

variable {κ : Type}

/-! ## The machine -/

/-- A receiving body, the files, what its socket still delivers, `m_running`
and the session's flag. -/
structure Upload (κ : Type) (H : IncrementalHash) where
  fs : FileStore κ
  pc : Pc H
  segs : List Bytes
  running : Bool
  cancelled : Bool

/-- What others do before a step of the body, and how the body's next call
ends: whether the file opens, whether it is renamed, whether a write or the
close loses bytes, and how many bytes reach the file. -/
structure UploadLabel where
  stops : Bool
  cancels : Bool
  cleans : Bool
  opens : Bool
  moves : Bool
  loses : Bool
  count : Nat
  deriving DecidableEq, Repr

/-- What can be observed of an upload: the effects of its body, the chunks that
come from the socket, and the bytes its stream drops. -/
inductive UploadEvent (κ : Type) where
  | effect (e : Effect κ)
  | received (chunk : Bytes)
  | lost (bs : Bytes)
  deriving DecidableEq, Repr

namespace UploadEvent

/-- The reports of `m_onFinished`. -/
def outcomes (h : List (UploadEvent κ)) : List Bool :=
  h.filterMap fun e => match e with
    | .effect (.finished ok _) => some ok
    | _ => none

/-- All bytes received in complete chunks. -/
def receivedBytes (h : List (UploadEvent κ)) : Bytes :=
  h.flatMap fun e => match e with
    | .received chunk => chunk
    | _ => []

/-- All bytes the stream has dropped. -/
def lostBytes (h : List (UploadEvent κ)) : Bytes :=
  h.flatMap fun e => match e with
    | .lost bs => bs
    | _ => []

@[simp] theorem outcomes_append (h es : List (UploadEvent κ)) :
    outcomes (h ++ es) = outcomes h ++ outcomes es := List.filterMap_append

@[simp] theorem receivedBytes_append (h es : List (UploadEvent κ)) :
    receivedBytes (h ++ es) = receivedBytes h ++ receivedBytes es := List.flatMap_append

@[simp] theorem lostBytes_append (h es : List (UploadEvent κ)) :
    lostBytes (h ++ es) = lostBytes h ++ lostBytes es := List.flatMap_append

end UploadEvent

open UploadEvent

/-- How `out.write(chunk)` ends: a stream in a failed state ignores it, and a
file does not grow beyond the largest offset. -/
def OutStream.answer (o : OutStream) (chunk : Bytes) (a : UploadLabel) : Input :=
  let data := o.pending ++ chunk
  let n := min a.count (min data.length (FileStore.maxFileBytes - o.pos))
  if o.good = false then .stored 0
  else if a.loses = true ∨ FileStore.maxFileBytes < o.pos + data.length then .cut n
  else .stored n

/-- The bytes of a write that will not reach the file. -/
def OutStream.drops (o : OutStream) (chunk : Bytes) (a : UploadLabel) : Bytes :=
  match o.answer chunk a with
  | .cut n => (o.pending ++ chunk).drop n
  | _ => if o.good then [] else chunk

namespace Upload

variable {H : IncrementalHash} (P : Platform κ) (s : ActiveTransferSession)

/-- What happens before the step: `m_running = false`, `cancelled = true`, and
the removal of the temporary file, which follows the flag. -/
def before [DecidableEq κ] (u : Upload κ H) (a : UploadLabel) : Upload κ H where
  fs := if a.cleans && (u.cancelled || a.cancels) then
      Effect.after u.fs (qtRemove P s.tempFilePath)
    else u.fs
  pc := u.pc
  segs := u.segs
  running := u.running && !a.stops
  cancelled := u.cancelled || a.cancels

/-- How the next call of the body ends, and what the socket delivers after
it. -/
def answer (u : Upload κ H) (a : UploadLabel) : Input × List Bytes :=
  match u.pc with
  | .upload .openTemp => (if a.opens then .go else .fail, u.segs)
  | .upload (.recvLen _) =>
      match readExact 4 u.segs with
      | some (lenBuf, left) => (.bytes lenBuf, left)
      | none => (.fail, [])
  | .upload (.recvChunk _ chunkSize) =>
      match readExact chunkSize u.segs with
      | some (chunk, left) => (.bytes chunk, left)
      | none => (.fail, [])
  | .upload (.recvWrite r chunk) => (r.out.answer chunk a, u.segs)
  | .upload (.closeTemp _ _) => (if a.loses then .cut a.count else .go, u.segs)
  | .upload (.rename _) => (if a.moves then .go else .fail, u.segs)
  | _ => (.go, u.segs)

/-- The bytes that come in and those that are lost. -/
def flow (u : Upload κ H) (a : UploadLabel) : List (UploadEvent κ) :=
  match u.pc with
  | .upload (.recvChunk _ chunkSize) =>
      match readExact chunkSize u.segs with
      | some (chunk, _) => [.received chunk]
      | none => []
  | .upload (.recvWrite r chunk) => [.lost (r.out.drops chunk a)]
  | .upload (.closeTemp r _) =>
      [.lost (if a.loses then r.out.pending.drop a.count else [])]
  | _ => []

end Upload

/-- One step of the body, after what others did. -/
def uploadStep [DecidableEq κ] (P : Platform κ) (H : IncrementalHash)
    (s : ActiveTransferSession) (u : Upload κ H) (a : UploadLabel) :
    Option (Upload κ H × List (UploadEvent κ)) :=
  let u := u.before P s a
  (serve P H { fs := u.fs, running := u.running, cancelled := u.cancelled } s u.pc
    (u.answer a).1).map fun r =>
      ({ u with fs := r.2.after u.fs, pc := r.1, segs := (u.answer a).2 },
        .effect r.2 :: u.flow a)

/-- The body after a handshake that asks for mode 0. -/
def startUpload (H : IncrementalHash) : Pc H :=
  .dispatch TransferDirection.mobileUploadToPc.toByte

/-- Nobody else has the file called `k` open. -/
def NotOpen (k : κ) (fs : FileStore κ) : Prop := ∀ i, fs.names k = some i → i ∉ fs.handles

/-- One upload alone: nobody else has its temporary file open. -/
def uploadMachine [DecidableEq κ] (P : Platform κ) (H : IncrementalHash)
    (s : ActiveTransferSession) :
    Machine (Upload κ H) UploadLabel (UploadEvent κ) where
  Init u := u.fs.WF ∧ u.pc = startUpload H ∧
    ∀ k, P.stdKey s.tempFilePath = some k → NotOpen k u.fs
  step := uploadStep P H s

/-! ## What a step can do -/

/-- The variables with which the loop starts. -/
def Receiving.fresh (H : IncrementalHash) (fs : FileStore κ) (k : κ) : Receiving H where
  out := { file := fs.slot k, pos := 0, pending := [], good := true }
  shaState := H.init
  totalReceived := 0

/-- The variables after a chunk. -/
def Receiving.absorb {H : IncrementalHash} (r : Receiving H) (out : OutStream)
    (chunk : Bytes) : Receiving H where
  out := out
  shaState := H.update r.shaState chunk
  totalReceived := r.totalReceived + UInt64.ofNat chunk.length

/-- The loop goes on. -/
def Upload.goesOn {H : IncrementalHash} (s : ActiveTransferSession) (u : Upload κ H)
    (r : Receiving H) : Prop :=
  u.running = true ∧ u.cancelled = false ∧ r.totalReceived < s.expectedSize

/-- All the ways in which a body moves whose temporary path is the name `k` for
both libraries; `u` is the state in which the step itself starts. -/
inductive UploadMove [DecidableEq κ] (P : Platform κ) (H : IncrementalHash)
    (s : ActiveTransferSession) (k : κ) (a : UploadLabel) (u : Upload κ H) :
    Pc H → FileStore κ → Pc H → List Bytes → List (UploadEvent κ) → Prop
  | begins : UploadMove P H s k a u (startUpload H) u.fs (.upload .openTemp) u.segs
      [.effect .silent]
  | opens (hopens : a.opens = true) :
      UploadMove P H s k a u (.upload .openTemp) ((FileOp.openTrunc k).apply u.fs)
        (.upload (.recvHead (.fresh H u.fs k))) u.segs [.effect (.file (.openTrunc k))]
  | opensNot {error : String} (hopens : a.opens = false) :
      UploadMove P H s k a u (.upload .openTemp) u.fs (.failed error) u.segs
        [.effect .silent]
  | goesOn {r : Receiving H} (hgo : u.goesOn s r) :
      UploadMove P H s k a u (.upload (.recvHead r)) u.fs (.upload (.recvLen r)) u.segs
        [.effect .silent]
  | leaves {r : Receiving H} (hleaves : ¬u.goesOn s r) :
      UploadMove P H s k a u (.upload (.recvHead r)) u.fs (.upload (.closeTemp r false))
        u.segs [.effect .silent]
  | length {r : Receiving H} {lenBuf : Bytes} {left : List Bytes}
      (hread : readExact 4 u.segs = some (lenBuf, left))
      (hsize : ¬(decodeBe32 lenBuf = 0 ∨ maxChunkSize < decodeBe32 lenBuf)) :
      UploadMove P H s k a u (.upload (.recvLen r)) u.fs
        (.upload (.recvChunk r (decodeBe32 lenBuf))) left [.effect .silent]
  | badLength {r : Receiving H} {left : List Bytes}
      (hbad : (readExact 4 u.segs = none ∧ left = []) ∨
        ∃ lenBuf, readExact 4 u.segs = some (lenBuf, left) ∧
          (decodeBe32 lenBuf = 0 ∨ maxChunkSize < decodeBe32 lenBuf)) :
      UploadMove P H s k a u (.upload (.recvLen r)) u.fs (.upload (.closeTemp r true)) left
        [.effect .silent]
  | chunk {r : Receiving H} {chunkSize : Nat} {chunk : Bytes} {left : List Bytes}
      (hread : readExact chunkSize u.segs = some (chunk, left)) :
      UploadMove P H s k a u (.upload (.recvChunk r chunkSize)) u.fs
        (.upload (.recvWrite r chunk)) left [.effect .silent, .received chunk]
  | badChunk {r : Receiving H} {chunkSize : Nat}
      (hread : readExact chunkSize u.segs = none) :
      UploadMove P H s k a u (.upload (.recvChunk r chunkSize)) u.fs
        (.upload (.closeTemp r true)) [] [.effect .silent]
  | writes {r : Receiving H} {chunk : Bytes} {out : OutStream} {op : FileOp κ}
      (hwrite : r.out.write chunk (r.out.answer chunk a) = some (out, op)) :
      UploadMove P H s k a u (.upload (.recvWrite r chunk)) (op.apply u.fs)
        (.upload (.recvReport (r.absorb out chunk))) u.segs
        [.effect (.file op), .lost (r.out.drops chunk a)]
  | reports {r : Receiving H} :
      UploadMove P H s k a u (.upload (.recvReport r)) u.fs (.upload (.recvHead r)) u.segs
        [.effect (.progress r.totalReceived)]
  | closes {r : Receiving H} {error : Bool} {data lost : Bytes}
      (hsplit : data ++ lost = r.out.pending) (hlost : a.loses = false → lost = []) :
      UploadMove P H s k a u (.upload (.closeTemp r error))
        ((FileOp.close r.out.file r.out.pos data).apply u.fs)
        (.upload (.recvCheck r.shaState r.totalReceived error)) u.segs
        [.effect (.file (.close r.out.file r.out.pos data)), .lost lost]
  | incomplete {shaState : H.State} {totalReceived : UInt64} {error : Bool}
      (hbad : error = true ∨ u.cancelled = true ∨ totalReceived ≠ s.expectedSize) :
      UploadMove P H s k a u (.upload (.recvCheck shaState totalReceived error)) u.fs
        (.upload .dropInterrupted) u.segs [.effect .silent]
  | complete {shaState : H.State} (hlive : u.cancelled = false) :
      UploadMove P H s k a u (.upload (.recvCheck shaState s.expectedSize false)) u.fs
        (.upload (.verify shaState)) u.segs [.effect .silent]
  | badHash {shaState : H.State}
      (hbad : ¬(s.expectedSha256 = "" ∨ toHex (H.final shaState) = s.expectedSha256)) :
      UploadMove P H s k a u (.upload (.verify shaState)) u.fs (.upload .dropBadHash) u.segs
        [.effect .silent]
  | verifies {shaState : H.State}
      (hgood : s.expectedSha256 = "" ∨ toHex (H.final shaState) = s.expectedSha256) :
      UploadMove P H s k a u (.upload (.verify shaState)) u.fs
        (.upload (.resolve (tryPath s.targetFilePath 0) 1)) u.segs [.effect .verified]
  | dropsInterrupted :
      UploadMove P H s k a u (.upload .dropInterrupted) ((FileOp.remove k).apply u.fs)
        (.upload .interrupted) u.segs [.effect (.file (.remove k))]
  | dropsBadHash {error : String} :
      UploadMove P H s k a u (.upload .dropBadHash) ((FileOp.remove k).apply u.fs)
        (.failed error) u.segs [.effect (.file (.remove k))]
  | dropsUnsaved {error : String} :
      UploadMove P H s k a u (.upload .dropUnsaved) ((FileOp.remove k).apply u.fs)
        (.failed error) u.segs [.effect (.file (.remove k))]
  | givesUp {error : String} :
      UploadMove P H s k a u (.upload .interrupted) u.fs (.failed error) u.segs
        [.effect .silent]
  | taken {finalPath : String} {count : Nat} (hexists : qtExists P u.fs finalPath = true) :
      UploadMove P H s k a u (.upload (.resolve finalPath count)) u.fs
        (.upload (.resolve (String.ofList (collisionPath s.targetFilePath.toList count))
          (count + 1))) u.segs [.effect .silent]
  | free {finalPath : String} {count : Nat} (hfree : qtExists P u.fs finalPath = false) :
      UploadMove P H s k a u (.upload (.resolve finalPath count)) u.fs
        (.upload (.rename finalPath)) u.segs [.effect .silent]
  | moves {finalPath : String} {dst : κ} (hdst : P.qtKey finalPath = some dst)
      (hmov : u.fs.movable k = true) (hfree : u.fs.exists? dst = false) :
      UploadMove P H s k a u (.upload (.rename finalPath)) ((FileOp.rename k dst).apply u.fs)
        (.upload (.saved finalPath)) u.segs [.effect (.file (.rename k dst))]
  | movesNot {finalPath : String}
      (hstays : a.moves = true → ∀ dst, P.qtKey finalPath = some dst →
        ¬(u.fs.movable k = true ∧ u.fs.exists? dst = false)) :
      UploadMove P H s k a u (.upload (.rename finalPath)) u.fs (.upload .dropUnsaved) u.segs
        [.effect .silent]
  | succeeds {finalPath : String} :
      UploadMove P H s k a u (.upload (.saved finalPath)) u.fs .done u.segs
        [.effect (.finished true "")]
  | fails {error : String} :
      UploadMove P H s k a u (.failed error) u.fs .done u.segs
        [.effect (.finished false error)]

/-- The body is on its way through mode 0. -/
def Pc.uploading {H : IncrementalHash} : Pc H → Prop
  | .dispatch directionByte => directionByte = TransferDirection.mobileUploadToPc.toByte
  | .upload _ => True
  | .failed _ => True
  | _ => False

section Steps

variable [DecidableEq κ] {P : Platform κ} {H : IncrementalHash} {s : ActiveTransferSession}
variable {k : κ}

omit [DecidableEq κ] in
/-- A write never gets stuck. -/
theorem OutStream.write_answer (o : OutStream) (chunk : Bytes) (a : UploadLabel) :
    ∃ out op, o.write (κ := κ) chunk (o.answer chunk a) = some (out, op) := by
  unfold OutStream.answer
  simp only
  split
  · rename_i hbad
    simp [OutStream.write, hbad]
  · rename_i hgood
    rw [Bool.not_eq_false] at hgood
    have hn : min a.count (min (o.pending ++ chunk).length (FileStore.maxFileBytes - o.pos)) ≤
        (o.pending ++ chunk).length := by omega
    split
    · simp only [OutStream.write, hgood]
      rw [if_pos ⟨trivial, hn⟩]
      exact ⟨_, _, rfl⟩
    · rename_i hfits
      have hroom : o.pos + (o.pending ++ chunk).length ≤ FileStore.maxFileBytes := by
        simp only [not_or, Nat.not_lt] at hfits
        exact hfits.2
      simp only [OutStream.write, hgood, if_true]
      rw [if_pos ⟨hn, hroom⟩]
      exact ⟨_, _, rfl⟩

/-- The body's next step is a move. -/
private def Moves (P : Platform κ) (H : IncrementalHash) (s : ActiveTransferSession) (k : κ)
    (a : UploadLabel) (u : Upload κ H) : Prop :=
  ∃ pc e segs es,
    serve P H { fs := u.fs, running := u.running, cancelled := u.cancelled } s u.pc
      (u.answer a).1 = some (pc, e) ∧
    (u.answer a).2 = segs ∧ u.flow a = es ∧
    UploadMove P H s k a u u.pc (e.after u.fs) pc segs (.effect e :: es)

variable {fs : FileStore κ} {segs : List Bytes} {running cancelled : Bool} {a : UploadLabel}

private theorem moves_openTemp (hstd : P.stdKey s.tempFilePath = some k) :
    Moves P H s k a { fs := fs, pc := .upload .openTemp, segs := segs, running := running
                      cancelled := cancelled } := by
  cases hopens : a.opens with
  | true =>
      refine ⟨_, .file (.openTrunc k), _, _, ?_, rfl, rfl, .opens hopens⟩
      simp [serve, serveUpload, Upload.answer, hopens, hstd, Receiving.fresh]
  | false =>
      refine ⟨.failed "Falha ao criar arquivo local", .silent, _, _, ?_, rfl, rfl,
        .opensNot hopens⟩
      simp only [serve, serveUpload, Upload.answer, hopens]
      rfl

private theorem moves_recvHead (r : Receiving H) :
    Moves P H s k a { fs := fs, pc := .upload (.recvHead r), segs := segs, running := running
                      cancelled := cancelled } := by
  by_cases hgo : Upload.goesOn s
      { fs := fs, pc := .upload (.recvHead r), segs := segs, running := running
        cancelled := cancelled } r
  · refine ⟨_, .silent, _, _, ?_, rfl, rfl, .goesOn hgo⟩
    obtain ⟨hrun, hlive, hlt⟩ := hgo
    simp only at hrun hlive
    simp [serve, serveUpload, Upload.answer, hrun, hlive, hlt]
  · refine ⟨_, .silent, _, _, ?_, rfl, rfl, .leaves hgo⟩
    simp only [serve, serveUpload, Upload.answer]
    rw [if_neg]
    simpa [Upload.goesOn] using hgo

private theorem moves_recvLen (r : Receiving H) :
    Moves P H s k a { fs := fs, pc := .upload (.recvLen r), segs := segs, running := running
                      cancelled := cancelled } := by
  cases hread : readExact 4 segs with
  | none =>
      refine ⟨_, .silent, [], _, ?_, ?_, rfl, .badLength (.inl ⟨hread, rfl⟩)⟩
      · simp [serve, serveUpload, Upload.answer, hread]
      · simp [Upload.answer, hread]
  | some x =>
      obtain ⟨lenBuf, left⟩ := x
      have hlen : lenBuf.length = 4 := (readExact_some segs hread).1
      by_cases hsize : decodeBe32 lenBuf = 0 ∨ maxChunkSize < decodeBe32 lenBuf
      · refine ⟨_, .silent, left, _, ?_, ?_, rfl, .badLength (.inr ⟨lenBuf, hread, hsize⟩)⟩
        · simp [serve, serveUpload, Upload.answer, hread, hlen, hsize]
        · simp [Upload.answer, hread]
      · refine ⟨_, .silent, left, _, ?_, ?_, rfl, .length hread hsize⟩
        · simp [serve, serveUpload, Upload.answer, hread, hlen, hsize]
        · simp [Upload.answer, hread]

private theorem moves_recvChunk (r : Receiving H) (chunkSize : Nat) :
    Moves P H s k a { fs := fs, pc := .upload (.recvChunk r chunkSize), segs := segs
                      running := running, cancelled := cancelled } := by
  cases hread : readExact chunkSize segs with
  | none =>
      refine ⟨_, .silent, [], _, ?_, ?_, ?_, .badChunk hread⟩
      · simp [serve, serveUpload, Upload.answer, hread]
      · simp [Upload.answer, hread]
      · simp [Upload.flow, hread]
  | some x =>
      obtain ⟨chunk, left⟩ := x
      have hlen : chunk.length = chunkSize := (readExact_some segs hread).1
      refine ⟨_, .silent, left, _, ?_, ?_, ?_, .chunk hread⟩
      · simp [serve, serveUpload, Upload.answer, hread, hlen]
      · simp [Upload.answer, hread]
      · simp [Upload.flow, hread]

private theorem moves_closeTemp (r : Receiving H) (error : Bool) :
    Moves P H s k a { fs := fs, pc := .upload (.closeTemp r error), segs := segs
                      running := running, cancelled := cancelled } := by
  cases hloses : a.loses with
  | true =>
      refine ⟨_, .file (.close r.out.file r.out.pos (r.out.pending.take a.count)), _,
        [.lost (r.out.pending.drop a.count)], ?_, rfl, ?_,
        .closes (List.take_append_drop _ _) (by simp [hloses])⟩
      · simp [serve, serveUpload, Upload.answer, hloses, OutStream.close]
      · simp [Upload.flow, hloses]
  | false =>
      refine ⟨_, .file (.close r.out.file r.out.pos r.out.pending), _, [.lost []], ?_, rfl, ?_,
        .closes (List.append_nil _) (fun _ => rfl)⟩
      · simp [serve, serveUpload, Upload.answer, hloses, OutStream.close]
      · simp [Upload.flow, hloses]

private theorem moves_recvCheck (shaState : H.State) (totalReceived : UInt64) (error : Bool) :
    Moves P H s k a { fs := fs, pc := .upload (.recvCheck shaState totalReceived error)
                      segs := segs, running := running, cancelled := cancelled } := by
  by_cases hbad : error = true ∨ cancelled = true ∨ totalReceived ≠ s.expectedSize
  · refine ⟨_, .silent, _, _, ?_, rfl, rfl, .incomplete hbad⟩
    simp only [serve, serveUpload, Upload.answer]
    rw [if_pos]
    simpa [or_assoc] using hbad
  · simp only [not_or, Bool.not_eq_true, not_not] at hbad
    obtain ⟨rfl, hlive, rfl⟩ := hbad
    refine ⟨_, .silent, _, _, ?_, rfl, rfl, .complete hlive⟩
    simp [serve, serveUpload, Upload.answer, hlive]

private theorem moves_verify (shaState : H.State) :
    Moves P H s k a { fs := fs, pc := .upload (.verify shaState), segs := segs
                      running := running, cancelled := cancelled } := by
  by_cases hgood : s.expectedSha256 = "" ∨ toHex (H.final shaState) = s.expectedSha256
  · refine ⟨_, .verified, _, _, ?_, rfl, rfl, .verifies hgood⟩
    simp only [serve, serveUpload, Upload.answer]
    rw [if_neg (fun hbad => hgood.elim hbad.1 hbad.2)]
    rfl
  · refine ⟨_, .silent, _, _, ?_, rfl, rfl, .badHash hgood⟩
    simp only [serve, serveUpload, Upload.answer]
    rw [if_pos (not_or.mp hgood)]

private theorem moves_resolve (finalPath : String) (count : Nat) :
    Moves P H s k a { fs := fs, pc := .upload (.resolve finalPath count), segs := segs
                      running := running, cancelled := cancelled } := by
  cases hexists : qtExists P fs finalPath with
  | true =>
      refine ⟨_, .silent, _, _, ?_, rfl, rfl, .taken hexists⟩
      simp [serve, serveUpload, Upload.answer, hexists]
  | false =>
      refine ⟨_, .silent, _, _, ?_, rfl, rfl, .free hexists⟩
      simp [serve, serveUpload, Upload.answer, hexists]

private theorem moves_rename (hqt : P.qtKey s.tempFilePath = some k) (finalPath : String) :
    Moves P H s k a { fs := fs, pc := .upload (.rename finalPath), segs := segs
                      running := running, cancelled := cancelled } := by
  by_cases hmoves : a.moves = true ∧ ∃ dst, P.qtKey finalPath = some dst ∧
      fs.movable k = true ∧ fs.exists? dst = false
  · obtain ⟨hgo, dst, hdst, hmov, hfree⟩ := hmoves
    refine ⟨_, .file (.rename k dst), _, _, ?_, rfl, rfl, .moves hdst hmov hfree⟩
    simp [serve, serveUpload, Upload.answer, hgo, hqt, hdst, hmov, hfree]
  · refine ⟨_, .silent, _, _, ?_, rfl, rfl,
      .movesNot fun hgo dst hdst hcan => hmoves ⟨hgo, dst, hdst, hcan⟩⟩
    simp only [serve, serveUpload, Upload.answer, hqt]
    cases hgo : a.moves with
    | false => rfl
    | true =>
        cases hdst : P.qtKey finalPath with
        | none => simp
        | some dst =>
            have hstays : ¬(fs.movable k = true ∧ fs.exists? dst = false) :=
              fun hcan => hmoves ⟨hgo, dst, hdst, hcan⟩
            simp only [if_true, hstays, if_false]

/-- A step of the body is a move. -/
private theorem serve_move (hstd : P.stdKey s.tempFilePath = some k)
    (hqt : P.qtKey s.tempFilePath = some k) {u : Upload κ H} (a : UploadLabel)
    (hpc : u.pc.uploading) : Moves P H s k a u := by
  have hremove : qtRemove P s.tempFilePath = .file (.remove k) := by simp [qtRemove, hqt]
  obtain ⟨fs, pc, segs, running, cancelled⟩ := u
  cases pc with
  | done => exact hpc.elim
  | download pc => exact hpc.elim
  | dispatch b =>
      obtain rfl : b = TransferDirection.mobileUploadToPc.toByte := hpc
      exact ⟨_, .silent, _, _, rfl, rfl, rfl, .begins⟩
  | failed error => exact ⟨_, .finished false error, _, _, rfl, rfl, rfl, .fails⟩
  | upload pc =>
      cases pc with
      | openTemp => exact moves_openTemp hstd
      | recvHead r => exact moves_recvHead r
      | recvLen r => exact moves_recvLen r
      | recvChunk r chunkSize => exact moves_recvChunk r chunkSize
      | recvWrite r chunk =>
          obtain ⟨out, op, hwrite⟩ := OutStream.write_answer (κ := κ) r.out chunk a
          refine ⟨_, .file op, _, _, ?_, rfl, rfl, .writes hwrite⟩
          simp only [serve, serveUpload, Upload.answer, hwrite, Receiving.absorb]
      | recvReport r => exact ⟨_, .progress r.totalReceived, _, _, rfl, rfl, rfl, .reports⟩
      | closeTemp r error => exact moves_closeTemp r error
      | recvCheck shaState totalReceived error =>
          exact moves_recvCheck shaState totalReceived error
      | dropInterrupted =>
          refine ⟨_, .file (.remove k), _, _, ?_, rfl, rfl, .dropsInterrupted⟩
          simp [serve, serveUpload, Upload.answer, hremove]
      | interrupted => exact ⟨_, .silent, _, _, rfl, rfl, rfl, .givesUp⟩
      | verify shaState => exact moves_verify shaState
      | dropBadHash =>
          refine ⟨.failed "Hash SHA-256 incorreto", .file (.remove k), _, _, ?_, rfl, rfl,
            .dropsBadHash⟩
          simp [serve, serveUpload, Upload.answer, hremove]
      | resolve finalPath count => exact moves_resolve finalPath count
      | rename finalPath => exact moves_rename hqt finalPath
      | dropUnsaved =>
          refine ⟨.failed "Falha ao salvar arquivo final", .file (.remove k), _, _, ?_, rfl,
            rfl, .dropsUnsaved⟩
          simp [serve, serveUpload, Upload.answer, hremove]
      | saved finalPath => exact ⟨_, .finished true "", _, _, rfl, rfl, rfl, .succeeds⟩

/-- **A step is a move**, and no label is stuck before the end. -/
theorem uploadStep_move (hstd : P.stdKey s.tempFilePath = some k)
    (hqt : P.qtKey s.tempFilePath = some k) {u : Upload κ H} (a : UploadLabel)
    (hpc : u.pc.uploading) :
    ∃ fs pc segs es, uploadStep P H s u a =
        some ({ u.before P s a with fs := fs, pc := pc, segs := segs }, es) ∧
      UploadMove P H s k a (u.before P s a) u.pc fs pc segs es := by
  obtain ⟨pc, e, segs, es, hserve, rfl, rfl, hmove⟩ :=
    serve_move hstd hqt (u := u.before P s a) a hpc
  refine ⟨_, pc, _, _, ?_, hmove⟩
  simp only [uploadStep, hserve, Option.map_some]

end Steps

/-! ## The files around an upload -/

/-- The file called `k` is file `i`, and it is open once. -/
structure HeldOnce (k : κ) (i : Nat) (fs : FileStore κ) : Prop where
  name : fs.names k = some i
  held : i ∈ fs.handles
  once : i ∉ fs.handles.erase i

/-- The temporary file is open exactly while the body writes it. -/
def TempState {H : IncrementalHash} (k : κ) (fs : FileStore κ) (pc : Pc H) : Prop :=
  match pc.openFile with
  | some i => HeldOnce k i fs
  | none => NotOpen k fs

/-- At all names but `k` the same is read as at first. -/
def Outside (k : κ) (fs₀ fs : FileStore κ) : Prop :=
  ∀ k', k' ≠ k → fs.read? k' = fs₀.read? k'

/-- The file called `k` has become the file at the name `dst`, which was free;
at all other names the same is read as at first. -/
structure Added (k : κ) (fs₀ fs : FileStore κ) (dst : κ) : Prop where
  ne : dst ≠ k
  free : fs₀.read? dst = none
  stored : (fs.read? dst).isSome = true
  gone : fs.names k = none
  others : ∀ k', k' ≠ k → k' ≠ dst → fs.read? k' = fs₀.read? k'

/-- No temporary file has been made yet, or it has been removed. -/
def Pc.vacant {H : IncrementalHash} : Pc H → Prop
  | .dispatch _ => True
  | .upload .openTemp => True
  | .upload .interrupted => True
  | .failed _ => True
  | _ => False

/-- The body has neither saved its file nor ended. -/
def Pc.working {H : IncrementalHash} : Pc H → Prop
  | .upload (.saved _) => False
  | .done => False
  | _ => True

section Files

variable [DecidableEq κ] {k : κ} {fs fs₀ : FileStore κ}

theorem remove_of_not_movable (h : fs.movable k = false) :
    (FileOp.remove k).apply fs = fs := by
  simp [FileOp.apply, h]

omit [DecidableEq κ] in
/-- A file that nobody has open can be removed and renamed. -/
theorem movable_of_notOpen (h : NotOpen k fs) (hthere : fs.names k ≠ none) :
    fs.movable k = true := by
  obtain ⟨i, hi⟩ := Option.ne_none_iff_exists'.mp hthere
  exact FileStore.movable_iff.mpr ⟨i, hi, h i hi⟩

theorem names_remove (h : NotOpen k fs) : ((FileOp.remove k).apply fs).names k = none := by
  cases hmov : fs.movable k with
  | true => simp [FileOp.apply, hmov]
  | false =>
      rw [remove_of_not_movable hmov]
      by_contra hthere
      rw [movable_of_notOpen h hthere] at hmov
      cases hmov

omit [DecidableEq κ] in
theorem notOpen_of_vacant (h : fs.names k = none) : NotOpen k fs := by
  intro i hi
  rw [h] at hi
  cases hi

omit [DecidableEq κ] in
theorem HeldOnce.not_movable {i : Nat} (h : HeldOnce k i fs) : fs.movable k = false := by
  rw [← Bool.not_eq_true, FileStore.movable_iff]
  rintro ⟨j, hj, hfree⟩
  cases h.name.symm.trans hj
  exact hfree h.held

omit [DecidableEq κ] in
theorem movable_of_vacant (h : fs.names k = none) : fs.movable k = false := by
  simp [FileStore.movable, h]

/-- Operations on the file called `k` are not seen elsewhere. -/
theorem Outside.apply (ho : Outside k fs₀ fs) (hwf : fs.WF) {op : FileOp κ}
    (hputs : ∀ k', op.puts = some k' → k' = k) (htakes : ∀ k', op.takes = some k' → k' = k)
    (hwrites : ∀ i, op.writesTo = some i → fs.names k = some i) :
    Outside k fs₀ (op.apply fs) := by
  intro k' hne
  rw [← ho k' hne]
  refine FileOp.read?_frame hwf (fun h => hne (hputs k' h)) (fun h => hne (htakes k' h)) ?_
  intro i hi hw
  exact hne (hwf.inj k' k i hi (hwrites i hw))

theorem Outside.remove (ho : Outside k fs₀ fs) (hwf : fs.WF) :
    Outside k fs₀ ((FileOp.remove k).apply fs) :=
  ho.apply hwf (by simp [FileOp.puts]) (by simp [FileOp.takes]) (by simp [FileOp.writesTo])

/-- Opening makes the file the body's own. -/
theorem heldOnce_open (h : NotOpen k fs) (hwf : fs.WF) :
    HeldOnce k (fs.slot k) ((FileOp.openTrunc k).apply fs) where
  name := by simp [FileOp.apply]
  held := by simp [FileOp.apply]
  once := by
    simp only [FileOp.apply, List.erase_cons_head]
    rcases FileStore.slot_lt_or_fresh hwf k with ⟨i, hi, hslot, -⟩ | ⟨-, hslot⟩
    · rw [hslot]
      exact h i hi
    · rw [hslot]
      exact fun hmem => Nat.lt_irrefl _ (hwf.handleLt _ hmem)

/-- Renaming moves the file and nothing else. -/
theorem added_rename (ho : Outside k fs₀ fs) (hwf : fs.WF) {dst : κ}
    (hmov : fs.movable k = true) (hfree : fs.exists? dst = false) :
    Added k fs₀ ((FileOp.rename k dst).apply fs) dst ∧
      ((FileOp.rename k dst).apply fs).read? dst = fs.read? k := by
  obtain ⟨i, hi, -⟩ := FileStore.movable_iff.mp hmov
  have hnone : fs.names dst = none := by simpa [FileStore.exists?] using hfree
  have hne : dst ≠ k := by
    rintro rfl
    rw [hi] at hnone
    cases hnone
  have hread := FileOp.read?_rename hmov hfree
  refine ⟨{ ne := hne, free := ?_, stored := ?_, gone := ?_, others := ?_ }, hread⟩
  · rw [← ho dst hne, FileStore.read?, hnone, Option.map_none]
  · rw [hread, FileStore.read?, hi]
    rfl
  · simp [FileOp.apply, hmov, hfree, Function.update_of_ne hne.symm]
  · intro k' hk hdst
    rw [← ho k' hk]
    refine FileOp.read?_frame hwf ?_ ?_ (by simp [FileOp.writesTo])
    · simpa [FileOp.puts] using Ne.symm hdst
    · simpa [FileOp.takes] using Ne.symm hk

/-- Writing through the open stream. -/
theorem HeldOnce.write {i pos : Nat} {data : Bytes} (h : HeldOnce k i fs) :
    HeldOnce k i ((FileOp.write i pos data).apply fs) where
  name := h.name
  held := h.held
  once := h.once

/-- After closing it the file is open no more. -/
theorem HeldOnce.close {i pos : Nat} {data : Bytes} (h : HeldOnce k i fs) :
    NotOpen k ((FileOp.close i pos data).apply fs) := by
  intro j hj
  cases h.name.symm.trans hj
  exact h.once

end Files

/-! ## The invariant -/

section Invariant

variable [DecidableEq κ] {P : Platform κ} {H : IncrementalHash} {s : ActiveTransferSession}
variable {k : κ} {fs₀ : FileStore κ} {M : Nat} {u : Upload κ H} {h : List (UploadEvent κ)}

/-- What is reported and what has become of the files. -/
def Upload.Result (k : κ) (fs₀ : FileStore κ) (u : Upload κ H) (h : List (UploadEvent κ)) :
    Prop :=
  match u.pc with
  | .upload (.saved _) => outcomes h = [] ∧ ∃ dst, Added k fs₀ u.fs dst
  | .done =>
      (outcomes h = [false] ∧ Outside k fs₀ u.fs ∧
        (fs₀.names k = none → u.fs.names k = none)) ∨
      (outcomes h = [true] ∧ ∃ dst, Added k fs₀ u.fs dst)
  | _ => outcomes h = [] ∧ Outside k fs₀ u.fs

/-- An upload that started with the files `fs₀`. -/
structure UploadInv (k : κ) (fs₀ : FileStore κ) (u : Upload κ H) (h : List (UploadEvent κ)) :
    Prop where
  wf : u.fs.WF
  uploading : u.pc ≠ .done → u.pc.uploading
  temp : TempState k u.fs u.pc
  result : u.Result k fs₀ h
  vacant : fs₀.names k = none → u.pc.vacant → u.fs.names k = none

omit [DecidableEq κ] in
/-- While the body works nothing is reported and nothing is seen outside. -/
theorem result_working {u : Upload κ H} (hpc : u.pc.working) :
    u.Result k fs₀ h ↔ outcomes h = [] ∧ Outside k fs₀ u.fs := by
  obtain ⟨fs, pc, segs, running, cancelled⟩ := u
  cases pc with
  | upload pc =>
      cases pc with
      | saved finalPath => exact hpc.elim
      | _ => exact Iff.rfl
  | done => exact hpc.elim
  | _ => exact Iff.rfl

/-- What others do before a step can only remove the temporary file, and only
while nobody has it open. -/
theorem before_files (hqt : P.qtKey s.tempFilePath = some k) (u : Upload κ H)
    (a : UploadLabel) :
    (u.before P s a).fs = u.fs ∨
      (u.fs.movable k = true ∧ (u.before P s a).fs = (FileOp.remove k).apply u.fs) := by
  cases hmov : u.fs.movable k with
  | false =>
      refine Or.inl ?_
      simp only [Upload.before, qtRemove, hqt, Effect.after, remove_of_not_movable hmov,
        ite_self]
  | true =>
      simp only [Upload.before, qtRemove, hqt, Effect.after]
      split
      · exact Or.inr ⟨trivial, rfl⟩
      · exact Or.inl rfl

/-- **Every step of an upload is a move**: one whose body has ended takes none. -/
theorem UploadInv.step_cases (hinv : UploadInv k fs₀ u h)
    (hstd : P.stdKey s.tempFilePath = some k) (hqt : P.qtKey s.tempFilePath = some k)
    {u' : Upload κ H} {a : UploadLabel} {es : List (UploadEvent κ)}
    (hs : uploadStep P H s u a = some (u', es)) :
    ∃ fs pc segs, u' = { u.before P s a with fs := fs, pc := pc, segs := segs } ∧
      UploadMove P H s k a (u.before P s a) u.pc fs pc segs es := by
  have hne : u.pc ≠ .done := by
    intro hdone
    simp [uploadStep, Upload.before, serve, hdone] at hs
  obtain ⟨fs, pc, segs, es', hstep, hmove⟩ := uploadStep_move hstd hqt a (hinv.uploading hne)
  obtain ⟨rfl, rfl⟩ := Prod.mk.inj (Option.some.inj (hs.symm.trans hstep))
  exact ⟨fs, pc, segs, rfl, hmove⟩

omit [DecidableEq κ] in
/-- A file that can be removed is not open. -/
theorem UploadInv.closed (hinv : UploadInv k fs₀ u h) (hmov : u.fs.movable k = true) :
    u.pc.openFile = none ∧ NotOpen k u.fs := by
  have htemp := hinv.temp
  unfold TempState at htemp
  cases hopen : u.pc.openFile with
  | none => exact ⟨rfl, by simpa only [hopen] using htemp⟩
  | some i =>
      simp only [hopen] at htemp
      rw [htemp.not_movable] at hmov
      cases hmov

/-- What others do before the step. -/
theorem UploadInv.before (hinv : UploadInv k fs₀ u h)
    (hqt : P.qtKey s.tempFilePath = some k) (a : UploadLabel) :
    UploadInv k fs₀ (u.before P s a) h := by
  have hcases := before_files (s := s) hqt u a
  have hpc : (u.before P s a).pc = u.pc := rfl
  generalize u.before P s a = v at hcases hpc
  obtain ⟨fs, pc₀, segs, running, cancelled⟩ := u
  obtain ⟨fs', pc, segs', running', cancelled'⟩ := v
  simp only at hcases hpc hinv
  subst hpc
  rcases hcases with rfl | ⟨hmov, rfl⟩
  · exact ⟨hinv.wf, hinv.uploading, hinv.temp, hinv.result, hinv.vacant⟩
  · obtain ⟨hclosed, hfree⟩ := hinv.closed hmov
    have hgone := names_remove hfree
    have hadded : ¬∃ dst, Added k fs₀ fs dst := by
      rintro ⟨dst, hadded⟩
      rw [movable_of_vacant hadded.gone] at hmov
      cases hmov
    refine
      { wf := FileOp.apply_wf hinv.wf (.remove k) trivial
        uploading := hinv.uploading
        temp := ?_
        result := ?_
        vacant := fun _ _ => hgone }
    · simp only [TempState, hclosed]
      exact notOpen_of_vacant hgone
    · have hres := hinv.result
      by_cases hwork : pc.working
      · rw [result_working hwork] at hres ⊢
        exact ⟨hres.1, hres.2.remove hinv.wf⟩
      · cases pc with
        | done =>
            rcases hres with ⟨hout, houtside, -⟩ | ⟨-, hex⟩
            · exact Or.inl ⟨hout, houtside.remove hinv.wf, fun _ => hgone⟩
            · exact absurd hex hadded
        | upload pc =>
            cases pc with
            | saved finalPath => exact absurd hres.2 hadded
            | _ => exact absurd trivial hwork
        | _ => exact absurd trivial hwork

omit [DecidableEq κ] in
/-- A move that leaves the files alone, between two points with the same stream
open. -/
theorem UploadInv.quiet (hinv : UploadInv k fs₀ u h) {pc : Pc H} {segs : List Bytes}
    {es : List (UploadEvent κ)} (hwork : u.pc.working) (hwork' : pc.working)
    (hopen : pc.openFile = u.pc.openFile) (hup : pc.uploading) (hquiet : outcomes es = [])
    (hvacant : pc.vacant → u.pc.vacant) :
    UploadInv k fs₀ { u with pc := pc, segs := segs } (h ++ es) := by
  have hres := (result_working hwork).mp hinv.result
  refine
    { wf := hinv.wf
      uploading := fun _ => hup
      temp := ?_
      result := ?_
      vacant := fun hnone hpc => hinv.vacant hnone (hvacant hpc) }
  · have htemp := hinv.temp
    unfold TempState at htemp ⊢
    rwa [hopen]
  · refine (result_working hwork').mpr ⟨?_, hres.2⟩
    rw [outcomes_append, hres.1, hquiet]
    rfl

/-- A move that changes the temporary file only. -/
theorem UploadInv.change (hinv : UploadInv k fs₀ u h) {op : FileOp κ} {pc : Pc H}
    {segs : List Bytes} {es : List (UploadEvent κ)} (hwork : u.pc.working)
    (hwork' : pc.working) (hsane : op.Sane u.fs)
    (hputs : ∀ k', op.puts = some k' → k' = k) (htakes : ∀ k', op.takes = some k' → k' = k)
    (hwrites : ∀ i, op.writesTo = some i → u.fs.names k = some i)
    (htemp : TempState k (op.apply u.fs) pc) (hup : pc.uploading) (hquiet : outcomes es = [])
    (hvacant : pc.vacant → (op.apply u.fs).names k = none) :
    UploadInv k fs₀ { u with fs := op.apply u.fs, pc := pc, segs := segs }
      (h ++ es) := by
  have hres := (result_working hwork).mp hinv.result
  refine
    { wf := FileOp.apply_wf hinv.wf op hsane
      uploading := fun _ => hup
      temp := htemp
      result := ?_
      vacant := fun _ => hvacant }
  refine (result_working hwork').mpr ⟨?_, hres.2.apply hinv.wf hputs htakes hwrites⟩
  rw [outcomes_append, hres.1, hquiet]
  rfl

/-- The path tried as number `M` names no file at first, and is not the temporary
one. -/
def FreeTry (P : Platform κ) (s : ActiveTransferSession) (k : κ) (fs₀ : FileStore κ)
    (M : Nat) : Prop :=
  ∀ key, P.qtKey (tryPath s.targetFilePath M) = some key → key ≠ k ∧ fs₀.read? key = none

omit [DecidableEq κ] in
/-- It stays free while the body works. -/
theorem FreeTry.not_exists {fs : FileStore κ} (hM : FreeTry P s k fs₀ M)
    (ho : Outside k fs₀ fs) : qtExists P fs (tryPath s.targetFilePath M) = false := by
  unfold qtExists
  split
  · rename_i key hkey
    obtain ⟨hne, hnone⟩ := hM key hkey
    rw [← ho key hne] at hnone
    cases hname : fs.names key with
    | none => simp [FileStore.exists?, hname]
    | some i => simp [FileStore.read?, hname] at hnone
  · rfl

/-- **One move.** -/
theorem UploadInv.move (hinv : UploadInv k fs₀ u h)
    {a : UploadLabel} {fs : FileStore κ} {pc : Pc H} {segs : List Bytes}
    {es : List (UploadEvent κ)} (hmove : UploadMove P H s k a u u.pc fs pc segs es) :
    UploadInv k fs₀ { u with fs := fs, pc := pc, segs := segs } (h ++ es) := by
  obtain ⟨fs₁, pc₁, segs₁, running, cancelled⟩ := u
  simp only at hmove
  cases hmove with
  | begins | opensNot | givesUp =>
      exact hinv.quiet trivial trivial rfl trivial rfl fun _ => trivial
  | goesOn | leaves | length | badLength | chunk | badChunk | reports | incomplete | complete
  | badHash | verifies | taken | free | movesNot =>
      exact hinv.quiet trivial trivial rfl trivial rfl False.elim
  | opens hopens =>
      have hclosed : NotOpen k fs₁ := hinv.temp
      exact hinv.change trivial trivial trivial (by simp [FileOp.puts])
        (by simp [FileOp.takes]) (by simp [FileOp.writesTo]) (heldOnce_open hclosed hinv.wf)
        trivial rfl False.elim
  | writes hwrite =>
      rename_i r chunk out op
      have hheld : HeldOnce k r.out.file fs₁ := hinv.temp
      have hfile : out.file = r.out.file := OutStream.write_file hwrite
      obtain ⟨pos, data, rfl⟩ := OutStream.write_op hwrite
      refine hinv.change trivial trivial trivial (by simp [FileOp.puts])
        (by simp [FileOp.takes]) ?_ ?_ trivial rfl False.elim
      · intro i hi
        simp only [FileOp.writesTo, Option.ite_none_left_eq_some, Option.some.injEq] at hi
        exact hi.2 ▸ hheld.name
      · have hheld' : HeldOnce k out.file ((FileOp.write r.out.file pos data).apply fs₁) :=
          hfile ▸ hheld.write
        exact hheld'
  | closes hsplit hlost =>
      rename_i r error data lost
      have hheld : HeldOnce k r.out.file fs₁ := hinv.temp
      refine hinv.change trivial trivial trivial (by simp [FileOp.puts])
        (by simp [FileOp.takes]) ?_ hheld.close trivial rfl False.elim
      intro i hi
      simp only [FileOp.writesTo, Option.ite_none_left_eq_some, Option.some.injEq] at hi
      exact hi.2 ▸ hheld.name
  | dropsInterrupted | dropsBadHash | dropsUnsaved =>
      have hclosed : NotOpen k fs₁ := hinv.temp
      have hgone := names_remove hclosed
      exact hinv.change trivial trivial trivial (by simp [FileOp.puts])
        (by simp [FileOp.takes]) (by simp [FileOp.writesTo]) (notOpen_of_vacant hgone)
        trivial rfl fun _ => hgone
  | moves hdst hmov hfree =>
      rename_i finalPath dst
      have hres : outcomes h = [] ∧ Outside k fs₀ fs₁ := hinv.result
      have hadded := (added_rename hres.2 hinv.wf hmov hfree).1
      refine
        { wf := FileOp.apply_wf hinv.wf (.rename k dst) trivial
          uploading := fun _ => trivial
          temp := notOpen_of_vacant hadded.gone
          result := ⟨?_, dst, hadded⟩
          vacant := fun _ => False.elim }
      rw [outcomes_append, hres.1]
      rfl
  | succeeds =>
      have hres : outcomes h = [] ∧ ∃ dst, Added k fs₀ fs₁ dst := hinv.result
      refine
        { wf := hinv.wf
          uploading := fun hne => absurd rfl hne
          temp := hinv.temp
          result := Or.inr ⟨?_, hres.2⟩
          vacant := fun _ => False.elim }
      rw [outcomes_append, hres.1]
      rfl
  | fails =>
      have hres : outcomes h = [] ∧ Outside k fs₀ fs₁ := hinv.result
      refine
        { wf := hinv.wf
          uploading := fun hne => absurd rfl hne
          temp := hinv.temp
          result := Or.inl ⟨?_, hres.2, fun hnone => hinv.vacant hnone trivial⟩
          vacant := fun _ => False.elim }
      rw [outcomes_append, hres.1]
      rfl

/-- The loop for a free path tries the paths in order, and not beyond `M`. -/
def Upload.Searches (s : ActiveTransferSession) (M : Nat) (u : Upload κ H) : Prop :=
  ∀ finalPath count, u.pc = .upload (.resolve finalPath count) →
    ∃ n ≤ M, finalPath = tryPath s.targetFilePath n ∧ count = n + 1

theorem searches_move (hM : FreeTry P s k fs₀ M) (hinv : UploadInv k fs₀ u h)
    (hsearch : u.Searches s M) {a : UploadLabel} {fs : FileStore κ} {pc : Pc H}
    {segs : List Bytes} {es : List (UploadEvent κ)}
    (hmove : UploadMove P H s k a u u.pc fs pc segs es) :
    ({ u with fs := fs, pc := pc, segs := segs } : Upload κ H).Searches s M := by
  obtain ⟨fs₁, pc₁, segs₁, running, cancelled⟩ := u
  simp only at hmove
  cases hmove with
  | verifies =>
      rintro finalPath count heq
      cases heq
      exact ⟨0, Nat.zero_le M, rfl, rfl⟩
  | taken hexists =>
      obtain ⟨n, hn, rfl, rfl⟩ := hsearch _ _ rfl
      have hres : outcomes h = [] ∧ Outside k fs₀ fs₁ := hinv.result
      have hne : n ≠ M := by
        rintro rfl
        rw [hM.not_exists hres.2] at hexists
        cases hexists
      rintro finalPath count heq
      cases heq
      exact ⟨n + 1, by omega, rfl, rfl⟩
  | _ => simp [Upload.Searches]

/-! ## The variant -/

/-- The bytes the socket still delivers. -/
def Upload.left (u : Upload κ H) : Nat := u.segs.flatten.length

/-- A bound for the steps to the report: six for each byte still to come, then
the paths up to number `M`. -/
def Upload.rank (M : Nat) (u : Upload κ H) : Nat :=
  match u.pc with
  | .dispatch _ => M + 8 + 6 * u.left + 4
  | .upload .openTemp => M + 8 + 6 * u.left + 3
  | .upload (.recvHead _) => M + 8 + 6 * u.left + 2
  | .upload (.recvLen _) => M + 8 + 6 * u.left + 1
  | .upload (.recvChunk _ _) => M + 8 + 6 * u.left + 6
  | .upload (.recvWrite _ _) => M + 8 + 6 * u.left + 4
  | .upload (.recvReport _) => M + 8 + 6 * u.left + 3
  | .upload (.closeTemp _ _) => M + 7
  | .upload (.recvCheck _ _ _) => M + 6
  | .upload (.verify _) => M + 5
  | .upload (.resolve _ count) => M + 5 - count
  | .upload (.rename _) => 3
  | .upload .dropInterrupted => 3
  | .upload .interrupted => 2
  | .upload .dropBadHash => 2
  | .upload .dropUnsaved => 2
  | .upload (.saved _) => 1
  | .failed _ => 1
  | _ => 0

theorem readExact_left {n : Nat} {segs left : List Bytes} {bs : Bytes}
    (h : readExact n segs = some (bs, left)) :
    left.flatten.length + n = segs.flatten.length := by
  obtain ⟨hlen, hflat⟩ := readExact_some segs h
  rw [hflat, List.length_append, hlen, Nat.add_comm]

/-- Every move lowers the rank. -/
theorem rank_lt (hsearch : u.Searches s M) {a : UploadLabel} {fs : FileStore κ}
    {pc : Pc H} {segs : List Bytes} {es : List (UploadEvent κ)}
    (hmove : UploadMove P H s k a u u.pc fs pc segs es) :
    ({ u with fs := fs, pc := pc, segs := segs } : Upload κ H).rank M < u.rank M := by
  obtain ⟨fs₁, pc₁, segs₁, running, cancelled⟩ := u
  simp only at hmove
  cases hmove with
  | length hread hsize | chunk hread =>
      have hleft : _ = segs₁.flatten.length := readExact_left hread
      simp only [Upload.rank, Upload.left]
      omega
  | taken hexists =>
      obtain ⟨n, hn, -, rfl⟩ := hsearch _ _ rfl
      simp only [Upload.rank]
      omega
  | free hfree =>
      obtain ⟨n, hn, -, rfl⟩ := hsearch _ _ rfl
      simp only [Upload.rank]
      omega
  | _ =>
      simp only [Upload.rank, Upload.left, startUpload]
      omega

/-! ## Every upload comes to an end -/

/-- **Every upload comes to an end**, whatever happens meanwhile. -/
theorem upload_ends (hstd : P.stdKey s.tempFilePath = some k)
    (hqt : P.qtKey s.tempFilePath = some k) (hM : FreeTry P s k fs₀ M)
    (hinv : UploadInv k fs₀ u h) (hsearch : u.Searches s M) :
    (uploadMachine P H s).Ensures (fun _ => True)
      (fun u h => u.pc = .done ∧ UploadInv k fs₀ u h ∧ u.Searches s M) (u.rank M) u h := by
  refine Ensures.of_rank (fun u h => UploadInv k fs₀ u h ∧ u.Searches s M) (Upload.rank M)
    ?_ ?_ _ ⟨hinv, hsearch⟩ (Nat.le_refl _)
  · rintro u h ⟨hinv, hsearch⟩ hzero
    by_contra hne
    have hup := hinv.uploading hne
    obtain ⟨fs, pc, segs, running, cancelled⟩ := u
    cases pc with
    | done => exact hne rfl
    | download pc => exact hup
    | dispatch b => simp [Upload.rank] at hzero
    | failed error => simp [Upload.rank] at hzero
    | upload pc =>
        cases pc with
        | resolve finalPath count =>
            obtain ⟨n, hn, -, rfl⟩ := hsearch _ _ rfl
            simp only [Upload.rank] at hzero
            omega
        | _ => simp [Upload.rank] at hzero
  · rintro u h ⟨hinv, hsearch⟩ hne a -
    obtain ⟨fs, pc, segs, es, hstep, hmove⟩ :=
      uploadStep_move hstd hqt a (hinv.uploading hne)
    have hbefore := hinv.before hqt a
    have hsearch' : (u.before P s a).Searches s M := hsearch
    exact ⟨_, es, hstep, ⟨hbefore.move hmove, searches_move hM hbefore hsearch' hmove⟩,
      rank_lt hsearch' hmove⟩

omit [DecidableEq κ] in
/-- The start of an upload. -/
theorem uploadInv_start {fs : FileStore κ} (hwf : fs.WF) (hclosed : NotOpen k fs)
    (segs : List Bytes) (running cancelled : Bool) :
    UploadInv k fs
      { fs := fs, pc := startUpload H, segs := segs, running := running,
        cancelled := cancelled } [] where
  wf := hwf
  uploading := fun _ => rfl
  temp := hclosed
  result := ⟨rfl, fun _ _ => rfl⟩
  vacant := fun hnone _ => hnone

omit [DecidableEq κ] in
/-- Some path is free throughout. -/
theorem exists_freeTry (hspell : FiniteSpellings P s.targetFilePath)
    (hfinite : {k | (fs₀.names k).isSome}.Finite) (k : κ) : ∃ M, FreeTry P s k fs₀ M := by
  obtain ⟨M, hM⟩ := exists_free hspell (hfinite.insert k)
  refine ⟨M, fun key hkey => ?_⟩
  have hfree := hM key hkey
  simp only [Set.mem_insert_iff, Set.mem_ofPred_eq, not_or, Option.not_isSome_iff_eq_none]
    at hfree
  exact ⟨hfree.1, by rw [FileStore.read?, hfree.2, Option.map_none]⟩

/-- The upload has reported once: a failure, and all files are as they were, or
a success, and one file has been added at a free name and none is left at the
temporary one. -/
def AllOrNothing (k : κ) (fs₀ : FileStore κ) (u : Upload κ H) (h : List (UploadEvent κ)) :
    Prop :=
  u.pc = .done ∧
    ((outcomes h = [false] ∧ ∀ k', u.fs.read? k' = fs₀.read? k') ∨
      (outcomes h = [true] ∧ u.fs.read? k = none ∧ ∃ dst, fs₀.read? dst = none ∧
        (u.fs.read? dst).isSome = true ∧ ∀ k', k' ≠ dst → u.fs.read? k' = fs₀.read? k'))

/-- **All or nothing.**  Whatever the peer sends, wherever it stops, whenever
the server stops or the transfer is cancelled, and whether or not the file
opens, the writes succeed and the rename succeeds: the upload ends with one
report that tells what has become of the files. -/
theorem upload_all_or_nothing (hstd : P.stdKey s.tempFilePath = some k)
    (hqt : P.qtKey s.tempFilePath = some k)
    (hspell : FiniteSpellings P s.targetFilePath) {fs : FileStore κ} (hwf : fs.WF)
    (hfinite : {k | (fs.names k).isSome}.Finite) (hnone : fs.read? k = none)
    (segs : List Bytes) (running cancelled : Bool) :
    ∃ n, (uploadMachine P H s).Ensures (fun _ => True) (AllOrNothing k fs) n
      { fs := fs, pc := startUpload H, segs := segs, running := running,
        cancelled := cancelled } [] := by
  obtain ⟨M, hM⟩ := exists_freeTry hspell hfinite k
  have hname : fs.names k = none := by simpa [FileStore.read?] using hnone
  refine ⟨_, (upload_ends hstd hqt hM
    (uploadInv_start hwf (notOpen_of_vacant hname) segs running cancelled)
    (by simp [Upload.Searches, startUpload])).imp ?_⟩
  rintro u h ⟨hdone, hinv, -⟩
  obtain ⟨fs', pc, segs', running', cancelled'⟩ := u
  obtain rfl : pc = .done := hdone
  refine ⟨rfl, ?_⟩
  rcases hinv.result with ⟨hout, ho, hvacant⟩ | ⟨hout, dst, hadded⟩
  · refine Or.inl ⟨hout, fun k' => ?_⟩
    by_cases hk : k' = k
    · subst hk
      rw [hnone, FileStore.read?, hvacant hname, Option.map_none]
    · exact ho k' hk
  · have hgone : fs'.read? k = none := by rw [FileStore.read?, hadded.gone, Option.map_none]
    refine Or.inr ⟨hout, hgone, dst, hadded.free, hadded.stored, fun k' hdst => ?_⟩
    by_cases hk : k' = k
    · subst hk
      exact hgone.trans hnone.symm
    · exact hadded.others k' hk hdst

end Invariant

/-- An upload of `a` next to an existing file of that name, with one chunk and a
peer that stops in the next. -/
theorem upload_all_or_nothing_sample :
    ∃ n, (uploadMachine samplePlatform sha256
      (sampleSession "D/a" .mobileUploadToPc)).Ensures (fun _ => True)
        (AllOrNothing "D/a.part" (filesAt ["D/a"])) n
        { fs := filesAt ["D/a"], pc := startUpload sha256
          segs := [[0, 0, 0, 2, 7], [8, 0, 0], [0, 1]], running := true
          cancelled := false } [] :=
  upload_all_or_nothing (k := "D/a.part") rfl rfl (finiteSpellings_sample _) (filesAt_wf _)
    (filesAt_finite _) (by decide +kernel) _ true false

end Iriseus.Core
