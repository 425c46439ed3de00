import Mathlib.Data.List.AList
import Iriseus.Core.FileNames
import Iriseus.Core.Messages
import Iriseus.Verified.FileStore
import Iriseus.Verified.IncrementalHash

/-!
# The data channel: `FileTransferServer`

Port of `FileTransferServer.cpp`.  The server keeps the table `m_sessions` of
registered transfers; every data connection is a thread that reads a 49-byte
handshake, finds its session, checks the token and then receives or sends one
file.

A connection is a program counter with its local variables.  `serve` is one
step of the body of `handleConnection` between two points where another thread
can act, as a function of what the thread sees (`View`) and of what the call
it makes returns (`Input`).  It does not change anything itself: it names one
`Effect`, so that every fact about files is a fact about effects.

`std::ofstream` and `std::ifstream` read a path in the narrow code page, Qt
reads it as Unicode: the two readings are the two functions of `Platform`, and
`none` is a text that names no file.
-/

namespace Iriseus.Core

open Iriseus.Verified
open Iriseus.Verified.ByteStream

/-! ## Sessions -/

/-- File names as the standard library and as Qt read them, and the two
folders Qt reports. -/
structure Platform (κ : Type) where
  stdKey : String → Option κ
  qtKey : String → Option κ
  downloadLocation : String
  homePath : String

/-- A registered transfer.  The record is shared between the table and the
connections that found it; `ref` identifies it, and its two atomic members are
kept by the server under `ref`. -/
structure ActiveTransferSession where
  ref : Nat
  transferId : String
  tokenBase64 : String
  tokenBytes : Bytes
  targetFilePath : String
  expectedSize : UInt64
  expectedSha256 : String
  direction : TransferDirection
  deriving DecidableEq, Repr

/-- The file a receiving connection writes before it is complete. -/
def ActiveTransferSession.tempFilePath (s : ActiveTransferSession) : String :=
  s.targetFilePath ++ ".part"

/-- The holder of the table's lock while it removes temporary files:
`cancelTransfer` removes one, `stop` those of the sessions still to do. -/
inductive Cleaning where
  | idle
  | cancel (session : ActiveTransferSession)
  | stop (todo : List ActiveTransferSession)
  deriving DecidableEq, Repr

abbrev SessionTable := AList (fun _ : String => ActiveTransferSession)

/-- The server's members.  `accepting` is the accept thread and `stopping` a
`stop` that has not returned; `cleaning` is the lock, idle unless its holder
removes files; `cancelled` and `bytesTransferred` are the atomic members of
the sessions. -/
structure FileTransferServer where
  running : Bool := false
  accepting : Bool := false
  stopping : Bool := false
  sessions : SessionTable := ∅
  cleaning : Cleaning := .idle
  nextRef : Nat := 0
  cancelled : Nat → Bool := fun _ => false
  bytesTransferred : Nat → UInt64 := fun _ => 0

namespace FileTransferServer

/-- `start`: `binds` says whether the port could be opened, which fails while
the server still accepts. -/
def start (srv : FileTransferServer) (binds : Bool) : FileTransferServer :=
  if binds && !srv.accepting then { srv with running := true, accepting := true }
  else srv

/-- The session a registration creates. -/
def newSession (srv : FileTransferServer) (transferId tokenBase64 : String)
    (tokenBytes : Bytes) (targetPath : String) (expectedSize : UInt64)
    (expectedSha256 : String) (direction : TransferDirection) :
    ActiveTransferSession where
  ref := srv.nextRef
  transferId := transferId
  tokenBase64 := tokenBase64
  tokenBytes := tokenBytes
  targetFilePath := targetPath
  expectedSize := expectedSize
  expectedSha256 := expectedSha256
  direction := direction

/-- `m_sessions[transferId] = session`, for the session `newSession` gives. -/
def registerTransfer (srv : FileTransferServer) (s : ActiveTransferSession) :
    FileTransferServer :=
  { srv with
    sessions := srv.sessions.insert s.transferId s
    nextRef := srv.nextRef + 1 }

/-- `session->cancelled = true`. -/
def setCancelled (srv : FileTransferServer) (s : ActiveTransferSession) :
    FileTransferServer :=
  { srv with cancelled := Function.update srv.cancelled s.ref true }

/-- `session->bytesTransferred = n`. -/
def setBytes (srv : FileTransferServer) (s : ActiveTransferSession) (n : UInt64) :
    FileTransferServer :=
  { srv with bytesTransferred := Function.update srv.bytesTransferred s.ref n }

/-- `cancelTransfer` up to the removal of the temporary file; the path is never
empty.  Without an entry there is nothing to do. -/
def cancelTransfer (srv : FileTransferServer) (transferId : String) :
    FileTransferServer :=
  match srv.sessions.lookup transferId with
  | some s => { srv.setCancelled s with cleaning := .cancel s }
  | none => srv

/-- `stop` up to the point where it waits for the accept thread. -/
def stop (srv : FileTransferServer) : FileTransferServer :=
  if srv.running then { srv with running := false, stopping := true } else srv

/-- The next session `stop` deals with is cancelled before its file is
removed. -/
def stopNext (srv : FileTransferServer) (todo : List ActiveTransferSession) :
    FileTransferServer :=
  match todo with
  | s :: _ => { srv.setCancelled s with cleaning := .stop todo }
  | [] => { srv with cleaning := .stop [] }

/-- `stop` takes the lock; `order` is the order in which it meets the
entries. -/
def stopLock (srv : FileTransferServer) (order : List ActiveTransferSession) :
    FileTransferServer :=
  { srv with accepting := false }.stopNext order

end FileTransferServer

/-! ## The handshake -/

/-- The 49 bytes a peer sends first. -/
structure FileTransferHandshake where
  transferId : ByteBlock kUuidBinarySize
  token : ByteBlock kTokenSize
  direction : UInt8
  deriving DecidableEq, Repr

/-- Split the 49 bytes. -/
def FileTransferHandshake.ofBytes (buf : Bytes) : Option FileTransferHandshake :=
  if h : buf.length = kUuidBinarySize + kTokenSize + 1 then
    some
      { transferId := ⟨buf.take kUuidBinarySize, by
          simp only [List.length_take, h]; decide⟩
        token := ⟨(buf.drop kUuidBinarySize).take kTokenSize, by
          simp only [List.length_take, List.length_drop, h]; decide⟩
        direction := buf.getD (kUuidBinarySize + kTokenSize) 0 }
  else none

/-- The identifier text the presented bytes are looked up by. -/
def FileTransferHandshake.candidate (hs : FileTransferHandshake) : String :=
  formatUuid hs.transferId.bytes

/-- The token is compared only when the session's has 32 bytes. -/
def tokenAccepted (s : ActiveTransferSession) (token : ByteBlock kTokenSize) : Bool :=
  if s.tokenBytes.length = kTokenSize then token.bytes = s.tokenBytes else true

/-! ## Streams -/

/-- An open `std::ofstream`: the file behind it, the position of the next byte
to be stored, the bytes it still buffers, and whether no write has failed. -/
structure OutStream where
  file : Nat
  pos : Nat
  pending : Bytes
  good : Bool
  deriving DecidableEq, Repr

/-- An open `std::ifstream`; it is no longer good after a short read. -/
structure InStream where
  file : Nat
  pos : Nat
  good : Bool
  deriving DecidableEq, Repr

/-- What the environment answers to one step of a connection. -/
inductive Input where
  /-- The call succeeds; a step without a call just runs. -/
  | go
  /-- The call fails. -/
  | fail
  /-- The bytes an exact read returns. -/
  | bytes (b : Bytes)
  /-- `n` of the bytes handed to a stream reach the file, the others stay
  buffered. -/
  | stored (n : Nat)
  /-- The call stops with an error after `n` bytes. -/
  | cut (n : Nat)
  /-- The scan of the table meets this identifier first. -/
  | pick (transferId : String)
  deriving DecidableEq, Repr

/-- What one step of a connection does to the outside; `verified` only marks
that the size and the hash of a received file have been checked. -/
inductive Effect (κ : Type) where
  | silent
  | found (hs : FileTransferHandshake)
  | authenticated (hs : FileTransferHandshake)
  | file (op : FileOp κ)
  | verified
  | read (bs : Bytes)
  | send (bs : Bytes)
  | progress (bytes : UInt64)
  | finished (ok : Bool) (error : String)
  deriving DecidableEq, Repr

namespace OutStream

variable {κ : Type}

/-- `out.write(chunk)`.  A stream in a failed state ignores the call. -/
def write (o : OutStream) (chunk : Bytes) : Input → Option (OutStream × FileOp κ)
  | .stored n =>
      if o.good then
        let data := o.pending ++ chunk
        if n ≤ data.length ∧ o.pos + data.length ≤ FileStore.maxFileBytes then
          some ({ o with pos := o.pos + n, pending := data.drop n },
            .write o.file o.pos (data.take n))
        else none
      else some (o, .write o.file o.pos [])
  | .cut n =>
      let data := o.pending ++ chunk
      if o.good ∧ n ≤ data.length then
        some ({ o with pos := o.pos + n, pending := [], good := false },
          .write o.file o.pos (data.take n))
      else none
  | _ => none

/-- `out.close()`: the buffered bytes are stored, or only `n` of them. -/
def close (o : OutStream) : Input → Option (FileOp κ)
  | .go => some (.close o.file o.pos o.pending)
  | .cut n => some (.close o.file o.pos (o.pending.take n))
  | _ => none

end OutStream

/-- `in.read(buffer, toRead)` and `in.gcount()`: the bytes obtained and the
stream after it.  A short read leaves the stream in a failed state. -/
def InStream.read {κ : Type} (t : InStream) (fs : FileStore κ) (toRead : Nat) :
    Input → Option (Bytes × InStream)
  | .go =>
      if t.good then
        let got := ((fs.bytes t.file).drop t.pos).take toRead
        some (got, { t with pos := t.pos + got.length, good := got.length = toRead })
      else some ([], t)
  | .cut n =>
      let got := (((fs.bytes t.file).drop t.pos).take toRead).take n
      if t.good ∧ got.length < toRead then
        some (got, { t with pos := t.pos + got.length, good := false })
      else none
  | _ => none

/-! ## The body of `handleConnection` -/

/-- The receiving loop's variables. -/
structure Receiving (H : IncrementalHash) where
  out : OutStream
  shaState : H.State
  totalReceived : UInt64

/-- The sending loop's variables. -/
structure Sending where
  source : InStream
  totalSent : UInt64

/-- Mode 0, receiving: the points between two calls.  The `count` of `resolve`
is an `int` in the source; it is one more than the number of names found to exist
so far, so it does not overflow while there are fewer than 2^31 - 1 of these. -/
inductive UploadPc (H : IncrementalHash) where
  | openTemp
  | recvHead (r : Receiving H)
  | recvLen (r : Receiving H)
  | recvChunk (r : Receiving H) (chunkSize : Nat)
  | recvWrite (r : Receiving H) (chunk : Bytes)
  | recvReport (r : Receiving H)
  | closeTemp (r : Receiving H) (error : Bool)
  | recvCheck (shaState : H.State) (totalReceived : UInt64) (error : Bool)
  | dropInterrupted
  | interrupted
  | verify (shaState : H.State)
  | dropBadHash
  | resolve (finalPath : String) (count : Nat)
  | rename (finalPath : String)
  | dropUnsaved
  | saved (finalPath : String)

/-- Mode 1, sending. -/
inductive DownloadPc where
  | openSource
  | sendHead (t : Sending)
  | sendRead (t : Sending)
  | sendLen (t : Sending) (chunk : Bytes)
  | sendBody (t : Sending) (chunk : Bytes)
  | sendReport (t : Sending) (chunk : Bytes)
  | closeSource (t : Sending) (error : Bool)
  | sendCheck (totalSent : UInt64) (error : Bool)
  | sentAll

/-- Where a connection stands after its handshake; `failed` is the call of
`m_onFinished` that reports a failure. -/
inductive Pc (H : IncrementalHash) where
  | dispatch (directionByte : UInt8)
  | upload (pc : UploadPc H)
  | download (pc : DownloadPc)
  | failed (error : String)
  | done

/-- What a connection thread reads of the shared state in one step. -/
structure View (κ : Type) where
  fs : FileStore κ
  running : Bool
  cancelled : Bool

/-- The largest chunk a peer may send. -/
def maxChunkSize : Nat := 1024 * 1024

section Serve

variable {κ : Type} (P : Platform κ) (H : IncrementalHash) (v : View κ)
variable (s : ActiveTransferSession)

/-- `QFile::exists`. -/
def qtExists (fs : FileStore κ) (path : String) : Bool :=
  match P.qtKey path with
  | some k => fs.exists? k
  | none => false

/-- `QFile::remove`, as the operation a successful call performs. -/
def qtRemove (path : String) : Effect κ :=
  match P.qtKey path with
  | some k => .file (.remove k)
  | none => .silent

/-- One step of mode 0. -/
def serveUpload (pc : UploadPc H) (inp : Input) : Option (Pc H × Effect κ) :=
  match pc with
  | .openTemp =>
      match inp with
      | .go =>
          match P.stdKey s.tempFilePath with
          | some k =>
              some (.upload (.recvHead
                { out := { file := v.fs.slot k, pos := 0, pending := [], good := true }
                  shaState := H.init, totalReceived := 0 }), .file (.openTrunc k))
          | none => some (.failed "Falha ao criar arquivo local", .silent)
      | .fail => some (.failed "Falha ao criar arquivo local", .silent)
      | _ => none
  | .recvHead r =>
      match inp with
      | .go =>
          if v.running && !v.cancelled && decide (r.totalReceived < s.expectedSize) then
            some (.upload (.recvLen r), .silent)
          else some (.upload (.closeTemp r false), .silent)
      | _ => none
  | .recvLen r =>
      match inp with
      | .bytes lenBuf =>
          if lenBuf.length = 4 then
            let chunkSize := decodeBe32 lenBuf
            if chunkSize = 0 ∨ maxChunkSize < chunkSize then
              some (.upload (.closeTemp r true), .silent)
            else some (.upload (.recvChunk r chunkSize), .silent)
          else none
      | .fail => some (.upload (.closeTemp r true), .silent)
      | _ => none
  | .recvChunk r chunkSize =>
      match inp with
      | .bytes chunk =>
          if chunk.length = chunkSize then some (.upload (.recvWrite r chunk), .silent)
          else none
      | .fail => some (.upload (.closeTemp r true), .silent)
      | _ => none
  | .recvWrite r chunk =>
      match r.out.write chunk inp with
      | some (out, op) =>
          some (.upload (.recvReport
            { out := out, shaState := H.update r.shaState chunk
              totalReceived := r.totalReceived + UInt64.ofNat chunk.length }), .file op)
      | none => none
  | .recvReport r =>
      match inp with
      | .go => some (.upload (.recvHead r), .progress r.totalReceived)
      | _ => none
  | .closeTemp r error =>
      match r.out.close inp with
      | some op => some (.upload (.recvCheck r.shaState r.totalReceived error), .file op)
      | none => none
  | .recvCheck shaState totalReceived error =>
      match inp with
      | .go =>
          if error || v.cancelled || decide (totalReceived ≠ s.expectedSize) then
            some (.upload .dropInterrupted, .silent)
          else some (.upload (.verify shaState), .silent)
      | _ => none
  | .dropInterrupted =>
      match inp with
      | .go => some (.upload .interrupted, qtRemove P s.tempFilePath)
      | .fail => some (.upload .interrupted, .silent)
      | _ => none
  | .interrupted =>
      match inp with
      | .go =>
          some (.failed (if v.cancelled then "Cancelado" else "Conexão interrompida"), .silent)
      | _ => none
  | .verify shaState =>
      match inp with
      | .go =>
          if s.expectedSha256 ≠ "" ∧ toHex (H.final shaState) ≠ s.expectedSha256 then
            some (.upload .dropBadHash, .silent)
          else some (.upload (.resolve s.targetFilePath 1), .verified)
      | _ => none
  | .dropBadHash =>
      match inp with
      | .go => some (.failed "Hash SHA-256 incorreto", qtRemove P s.tempFilePath)
      | .fail => some (.failed "Hash SHA-256 incorreto", .silent)
      | _ => none
  | .resolve finalPath count =>
      match inp with
      | .go =>
          if qtExists P v.fs finalPath then
            some (.upload (.resolve
              (String.ofList (collisionPath s.targetFilePath.toList count)) (count + 1)),
              .silent)
          else some (.upload (.rename finalPath), .silent)
      | _ => none
  | .rename finalPath =>
      match inp with
      | .go =>
          match P.qtKey s.tempFilePath, P.qtKey finalPath with
          | some src, some dst =>
              if v.fs.movable src ∧ v.fs.exists? dst = false then
                some (.upload (.saved finalPath), .file (.rename src dst))
              else some (.upload .dropUnsaved, .silent)
          | _, _ => some (.upload .dropUnsaved, .silent)
      | .fail => some (.upload .dropUnsaved, .silent)
      | _ => none
  | .dropUnsaved =>
      match inp with
      | .go => some (.failed "Falha ao salvar arquivo final", qtRemove P s.tempFilePath)
      | .fail => some (.failed "Falha ao salvar arquivo final", .silent)
      | _ => none
  | .saved _ =>
      match inp with
      | .go => some (.done, .finished true "")
      | _ => none

/-- One step of mode 1. -/
def serveDownload (pc : DownloadPc) (inp : Input) : Option (Pc H × Effect κ) :=
  match pc with
  | .openSource =>
      match inp with
      | .go =>
          match (P.stdKey s.targetFilePath).bind v.fs.names with
          | some i =>
              some (.download (.sendHead
                { source := { file := i, pos := 0, good := true }, totalSent := 0 }),
                .file (.openRead i))
          | none => some (.failed "Arquivo local inacessível", .silent)
      | .fail => some (.failed "Arquivo local inacessível", .silent)
      | _ => none
  | .sendHead t =>
      match inp with
      | .go =>
          if v.running && !v.cancelled && decide (t.totalSent < s.expectedSize) then
            some (.download (.sendRead t), .silent)
          else some (.download (.closeSource t false), .silent)
      | _ => none
  | .sendRead t =>
      let toRead := (min (UInt64.ofNat kChunkPlaintextSize)
        (s.expectedSize - t.totalSent)).toNat
      match t.source.read v.fs toRead inp with
      | some (got, source) =>
          if got = [] then
            some (.download (.closeSource { t with source := source } false), .read got)
          else some (.download (.sendLen { t with source := source } got), .read got)
      | none => none
  | .sendLen t chunk =>
      match inp with
      | .go => some (.download (.sendBody t chunk), .send (encodeBe32 chunk.length))
      | .cut n =>
          some (.download (.closeSource t true), .send ((encodeBe32 chunk.length).take n))
      | _ => none
  | .sendBody t chunk =>
      match inp with
      | .go => some (.download (.sendReport t chunk), .send chunk)
      | .cut n => some (.download (.closeSource t true), .send (chunk.take n))
      | _ => none
  | .sendReport t chunk =>
      match inp with
      | .go =>
          let totalSent := t.totalSent + UInt64.ofNat chunk.length
          some (.download (.sendHead { t with totalSent := totalSent }), .progress totalSent)
      | _ => none
  | .closeSource t error =>
      match inp with
      | .go =>
          some (.download (.sendCheck t.totalSent error), .file (.close t.source.file 0 []))
      | _ => none
  | .sendCheck totalSent error =>
      match inp with
      | .go =>
          if error || v.cancelled || decide (totalSent ≠ s.expectedSize) then
            some (.failed "Envio interrompido", .silent)
          else some (.download .sentAll, .silent)
      | _ => none
  | .sentAll =>
      match inp with
      | .go => some (.done, .finished true "")
      | _ => none

/-- One step of the body: the direction byte picks the mode, any other byte
ends the connection without a report. -/
def serve (pc : Pc H) (inp : Input) : Option (Pc H × Effect κ) :=
  match pc with
  | .dispatch directionByte =>
      match inp with
      | .go =>
          if directionByte = TransferDirection.mobileUploadToPc.toByte then
            some (.upload .openTemp, .silent)
          else if directionByte = TransferDirection.desktopDownloadToMobile.toByte then
            some (.download .openSource, .silent)
          else some (.done, .silent)
      | _ => none
  | .upload pc => serveUpload P H v s pc inp
  | .download pc => serveDownload P H v s pc inp
  | .failed error =>
      match inp with
      | .go => some (.done, .finished false error)
      | _ => none
  | .done => none

end Serve

/-! ## A data connection -/

/-- The thread of one connection. -/
inductive Connection (H : IncrementalHash) where
  | handshake
  | lookup (hs : FileTransferHandshake)
  | validate (hs : FileTransferHandshake) (session : ActiveTransferSession)
  | serving (hs : FileTransferHandshake) (session : ActiveTransferSession) (pc : Pc H)
  | closed

/-- The session found for an identifier: the entry of that text, or the first
entry met whose text is the same without dashes.  The outer `none` is an input
that does not fit the table. -/
def findSession (sessions : SessionTable) (candidate : String) (inp : Input) :
    Option (Option ActiveTransferSession) :=
  match sessions.lookup candidate with
  | some s => if inp = .go then some (some s) else none
  | none =>
      match inp with
      | .go =>
          if sessions.keys.any fun id => noDash id = noDash candidate then none
          else some none
      | .pick transferId =>
          if noDash transferId = noDash candidate then
            (sessions.lookup transferId).map some
          else none
      | _ => none

/-- One step of a connection thread, with its effect and the session the
effect is about. -/
def Connection.step {κ : Type} (P : Platform κ) (H : IncrementalHash)
    (srv : FileTransferServer) (fs : FileStore κ) (conn : Connection H) (inp : Input) :
    Option (Connection H × Option (ActiveTransferSession × Effect κ)) :=
  match conn with
  | .handshake =>
      match inp with
      | .bytes buf => (FileTransferHandshake.ofBytes buf).map fun hs => (.lookup hs, none)
      | .fail => some (.closed, none)
      | _ => none
  | .lookup hs =>
      -- the table is locked while temporary files are removed
      if srv.cleaning = .idle then
        match findSession srv.sessions hs.candidate inp with
        | some (some s) => some (.validate hs s, some (s, .found hs))
        | some none => some (.closed, none)
        | none => none
      else none
  | .validate hs s =>
      match inp with
      | .go =>
          if tokenAccepted s hs.token then
            some (.serving hs s (.dispatch hs.direction), some (s, .authenticated hs))
          else some (.closed, none)
      | _ => none
  | .serving hs s pc =>
      let v : View κ :=
        { fs := fs, running := srv.running, cancelled := srv.cancelled s.ref }
      match serve P H v s pc inp with
      | some (pc', e) => some (.serving hs s pc', some (s, e))
      | none => none
  | .closed => none

/-! ## What a step of a connection can do -/

/-- The mode a connection has entered or is about to enter. -/
def Pc.mode {H : IncrementalHash} : Pc H → Option TransferDirection
  | .dispatch directionByte =>
      if directionByte = TransferDirection.mobileUploadToPc.toByte then
        some .mobileUploadToPc
      else if directionByte = TransferDirection.desktopDownloadToMobile.toByte then
        some .desktopDownloadToMobile
      else none
  | .upload _ => some .mobileUploadToPc
  | .download _ => some .desktopDownloadToMobile
  | .failed _ => none
  | .done => none

namespace Effect

variable {κ : Type}

/-- The effect creates, writes, renames or deletes a file. -/
def changesFile : Effect κ → Bool
  | .file (.openTrunc _) => true
  | .file (.write _ _ _) => true
  | .file (.close _ _ data) => decide (data ≠ [])
  | .file (.remove _) => true
  | .file (.rename _ _) => true
  | _ => false

/-- The effect opens a file for reading, reads it or sends bytes. -/
def readsFile : Effect κ → Bool
  | .file (.openRead _) => true
  | .read _ => true
  | .send _ => true
  | _ => false

/-- The effect is one of the handshake's. -/
def ofHandshake : Effect κ → Bool
  | .found _ => true
  | .authenticated _ => true
  | _ => false

end Effect

section Steps

variable {κ : Type} {P : Platform κ} {H : IncrementalHash}

private theorem qtRemove_reads (path : String) :
    (qtRemove P path).readsFile = false ∧ (qtRemove P path).ofHandshake = false := by
  unfold qtRemove
  split <;> exact ⟨rfl, rfl⟩

theorem OutStream.write_op {o o' : OutStream} {chunk : Bytes} {inp : Input}
    {op : FileOp κ} (h : o.write chunk inp = some (o', op)) :
    ∃ pos data, op = .write o.file pos data := by
  unfold OutStream.write at h
  split at h
  · split at h
    · simp only at h
      split at h
      · cases h
        exact ⟨_, _, rfl⟩
      · cases h
    · cases h
      exact ⟨_, _, rfl⟩
  · simp only at h
    split at h
    · cases h
      exact ⟨_, _, rfl⟩
    · cases h
  · cases h

theorem OutStream.close_op {o : OutStream} {inp : Input} {op : FileOp κ}
    (h : o.close inp = some op) : ∃ data, op = .close o.file o.pos data := by
  unfold OutStream.close at h
  split at h
  · cases h
    exact ⟨_, rfl⟩
  · cases h
    exact ⟨_, rfl⟩
  · cases h

/-- Mode 0 stays in mode 0 or ends, and reads no file. -/
theorem serveUpload_mode {v : View κ} {s : ActiveTransferSession} {pc : UploadPc H}
    {inp : Input} {pc' : Pc H} {e : Effect κ}
    (h : serveUpload P H v s pc inp = some (pc', e)) :
    ((∃ u, pc' = .upload u) ∨ (∃ error, pc' = .failed error) ∨ pc' = .done) ∧
      e.readsFile = false ∧ e.ofHandshake = false := by
  have hqt := qtRemove_reads (P := P) s.tempFilePath
  cases pc with
  | recvWrite r chunk =>
      simp only [serveUpload] at h
      split at h
      · rename_i out op hop
        cases h
        obtain ⟨pos, data, rfl⟩ := OutStream.write_op hop
        exact ⟨Or.inl ⟨_, rfl⟩, rfl, rfl⟩
      · cases h
  | closeTemp r error =>
      simp only [serveUpload] at h
      split at h
      · rename_i op hop
        cases h
        obtain ⟨data, rfl⟩ := OutStream.close_op hop
        exact ⟨Or.inl ⟨_, rfl⟩, rfl, rfl⟩
      · cases h
  | dropInterrupted | dropBadHash | dropUnsaved =>
      cases inp <;> simp only [serveUpload, Option.some.injEq, Prod.mk.injEq, reduceCtorEq] at h
      · obtain ⟨rfl, rfl⟩ := h
        exact ⟨by simp, hqt⟩
      · obtain ⟨rfl, rfl⟩ := h
        exact ⟨by simp, rfl, rfl⟩
  | openTemp | recvHead | recvLen | recvChunk | recvReport | recvCheck | interrupted
  | verify | resolve | rename | saved =>
      simp only [serveUpload] at h
      (repeat' split at h) <;> cases h <;> simp [Effect.readsFile, Effect.ofHandshake]

/-- Mode 1 stays in mode 1 or ends, and changes no file. -/
theorem serveDownload_mode {v : View κ} {s : ActiveTransferSession} {pc : DownloadPc}
    {inp : Input} {pc' : Pc H} {e : Effect κ}
    (h : serveDownload P H v s pc inp = some (pc', e)) :
    ((∃ d, pc' = .download d) ∨ (∃ error, pc' = .failed error) ∨ pc' = .done) ∧
      e.changesFile = false ∧ e.ofHandshake = false := by
  cases pc <;> simp only [serveDownload] at h <;> (repeat' split at h) <;> cases h <;>
    simp [Effect.changesFile, Effect.ofHandshake]

/-- One step of the body: the mode stays until the body ends, files are
changed in mode 0 only and read in mode 1 only. -/
theorem serve_mode {v : View κ} {s : ActiveTransferSession} {pc : Pc H} {inp : Input}
    {pc' : Pc H} {e : Effect κ} (h : serve P H v s pc inp = some (pc', e)) :
    (pc'.mode = none ∨ pc'.mode = pc.mode) ∧
      (e.changesFile = true → ∃ u, pc = .upload u) ∧
      (e.readsFile = true → ∃ d, pc = .download d) ∧
      e.ofHandshake = false := by
  cases pc with
  | dispatch b =>
      simp only [serve] at h
      (repeat' split at h) <;> cases h <;>
        simp_all [Pc.mode, Effect.changesFile, Effect.readsFile, Effect.ofHandshake]
  | upload pc =>
      obtain ⟨hnext, hreads, hhs⟩ := serveUpload_mode h
      refine ⟨?_, fun _ => ⟨pc, rfl⟩, fun hr => by simp [hreads] at hr, hhs⟩
      rcases hnext with ⟨u, rfl⟩ | ⟨error, rfl⟩ | rfl
      · exact Or.inr rfl
      · exact Or.inl rfl
      · exact Or.inl rfl
  | download pc =>
      obtain ⟨hnext, hchanges, hhs⟩ := serveDownload_mode h
      refine ⟨?_, fun hr => by simp [hchanges] at hr, fun _ => ⟨pc, rfl⟩, hhs⟩
      rcases hnext with ⟨d, rfl⟩ | ⟨error, rfl⟩ | rfl
      · exact Or.inr rfl
      · exact Or.inl rfl
      · exact Or.inl rfl
  | failed error =>
      simp only [serve] at h
      split at h
      · cases h
        exact ⟨Or.inl rfl, by simp [Effect.changesFile], by simp [Effect.readsFile], rfl⟩
      · cases h
  | done => simp [serve] at h

/-- The body reports at its end: a failure, a saved file or a sent file. -/
theorem serve_finished {v : View κ} {s : ActiveTransferSession} {pc : Pc H}
    {inp : Input} {pc' : Pc H} {ok : Bool} {error : String}
    (h : serve P H v s pc inp = some (pc', (.finished ok error : Effect κ))) :
    pc' = .done ∧
      ((ok = false ∧ pc = .failed error) ∨
        (ok = true ∧ error = "" ∧
          ((∃ finalPath, pc = .upload (.saved finalPath)) ∨ pc = .download .sentAll))) := by
  cases pc with
  | dispatch b =>
      simp only [serve] at h
      (repeat' split at h) <;> cases h
  | upload pc =>
      simp only [serve] at h
      cases pc with
      | saved finalPath =>
          simp only [serveUpload] at h
          split at h
          · cases h
            exact ⟨rfl, Or.inr ⟨rfl, rfl, Or.inl ⟨finalPath, rfl⟩⟩⟩
          · cases h
      | recvWrite r chunk =>
          simp only [serveUpload] at h
          (repeat' split at h) <;> cases h
      | closeTemp r error =>
          simp only [serveUpload] at h
          (repeat' split at h) <;> cases h
      | dropInterrupted | dropBadHash | dropUnsaved =>
          simp only [serveUpload, qtRemove] at h
          (repeat' split at h) <;> simp at h
      | openTemp | recvHead | recvLen | recvChunk | recvReport | recvCheck | interrupted
      | verify | resolve | rename =>
          simp only [serveUpload] at h
          (repeat' split at h) <;> cases h
  | download pc =>
      simp only [serve] at h
      cases pc with
      | sentAll =>
          simp only [serveDownload] at h
          split at h
          · cases h
            exact ⟨rfl, Or.inr ⟨rfl, rfl, Or.inr rfl⟩⟩
          · cases h
      | openSource | sendHead | sendRead | sendLen | sendBody | sendReport | closeSource
      | sendCheck =>
          simp only [serveDownload] at h
          (repeat' split at h) <;> cases h
  | failed error' =>
      simp only [serve] at h
      split at h
      · cases h
        exact ⟨rfl, Or.inl ⟨rfl, rfl⟩⟩
      · cases h
  | done => simp [serve] at h

/-- The body is about to remove its temporary file after a failure. -/
def UploadPc.drops : UploadPc H → Bool
  | .dropInterrupted => true
  | .dropBadHash => true
  | .dropUnsaved => true
  | _ => false

/-- The paths the operations of mode 0 name: the temporary file is opened as
the standard library reads its path, and removed and renamed as Qt does. -/
theorem serveUpload_paths {v : View κ} {s : ActiveTransferSession} {pc : UploadPc H}
    {inp : Input} {pc' : Pc H} {op : FileOp κ}
    (h : serveUpload P H v s pc inp = some (pc', .file op)) :
    (∀ k, op = .openTrunc k → pc = .openTemp ∧ P.stdKey s.tempFilePath = some k) ∧
      (∀ k, op = .remove k → pc.drops = true ∧ P.qtKey s.tempFilePath = some k) ∧
      (∀ src dst, op = .rename src dst → P.qtKey s.tempFilePath = some src ∧
        v.fs.movable src = true ∧ v.fs.exists? dst = false ∧
        ∃ finalPath, pc = .rename finalPath ∧ pc' = .upload (.saved finalPath) ∧
          P.qtKey finalPath = some dst) := by
  cases pc with
  | recvWrite r chunk =>
      simp only [serveUpload] at h
      split at h
      · rename_i out op' hop
        cases h
        obtain ⟨pos, data, rfl⟩ := OutStream.write_op hop
        exact ⟨by simp, by simp, by simp⟩
      · cases h
  | closeTemp r error =>
      simp only [serveUpload] at h
      split at h
      · rename_i op' hop
        cases h
        obtain ⟨data, rfl⟩ := OutStream.close_op hop
        exact ⟨by simp, by simp, by simp⟩
      · cases h
  | dropInterrupted | dropBadHash | dropUnsaved =>
      simp only [serveUpload, qtRemove] at h
      split at h
      · split at h
        · rename_i k hk
          simp only [Option.some.injEq, Prod.mk.injEq, Effect.file.injEq] at h
          obtain ⟨-, rfl⟩ := h
          exact ⟨by simp, fun k' hk' => by cases hk'; exact ⟨rfl, hk⟩, by simp⟩
        · simp at h
      · cases h
      · cases h
  | openTemp =>
      simp only [serveUpload] at h
      (repeat' split at h) <;> cases h
      rename_i hk
      exact ⟨fun k' hk' => by cases hk'; exact ⟨rfl, hk⟩, by simp, by simp⟩
  | rename finalPath =>
      simp only [serveUpload] at h
      (repeat' split at h) <;> cases h
      rename_i src dst hsrc hdst hmov
      refine ⟨by simp, by simp, ?_⟩
      rintro src' dst' heq
      cases heq
      exact ⟨hsrc, hmov.1, hmov.2, finalPath, rfl, rfl, hdst⟩
  | recvHead | recvLen | recvChunk | recvReport | recvCheck | interrupted | verify
  | resolve | saved =>
      simp only [serveUpload] at h
      (repeat' split at h) <;> cases h

/-- The lookup finds an entry whose identifier is the presented one up to
dashes. -/
theorem findSession_some {sessions : SessionTable} {candidate : String} {inp : Input}
    {s : ActiveTransferSession} (h : findSession sessions candidate inp = some (some s)) :
    ∃ id, sessions.lookup id = some s ∧ noDash id = noDash candidate := by
  unfold findSession at h
  split at h
  · rename_i s' hs'
    split at h
    · cases h
      exact ⟨candidate, hs', rfl⟩
    · cases h
  · split at h
    · split at h <;> cases h
    · rename_i id
      split at h
      · rename_i hdash
        cases hl : sessions.lookup id with
        | none => simp [hl] at h
        | some s' =>
            simp only [hl, Option.map_some, Option.some.injEq] at h
            exact ⟨id, h ▸ hl, hdash⟩
      · cases h
    · cases h

/-- The body has not begun. -/
def Connection.handshaking : Connection H → Bool
  | .handshake => true
  | .lookup _ => true
  | .validate _ _ => true
  | _ => false

/-- All the ways in which a connection moves, with the effect of each. -/
inductive ConnectionStep (P : Platform κ) (srv : FileTransferServer)
    (fs : FileStore κ) : Connection H → Input → Connection H →
    Option (ActiveTransferSession × Effect κ) → Prop
  | greeted {inp : Input} {hs : FileTransferHandshake} :
      ConnectionStep P srv fs .handshake inp (.lookup hs) none
  | found {inp : Input} {hs : FileTransferHandshake} {s : ActiveTransferSession}
      (hidle : srv.cleaning = .idle)
      (hfind : findSession srv.sessions hs.candidate inp = some (some s)) :
      ConnectionStep P srv fs (.lookup hs) inp (.validate hs s) (some (s, .found hs))
  | authenticated {inp : Input} {hs : FileTransferHandshake} {s : ActiveTransferSession}
      (htoken : tokenAccepted s hs.token = true) :
      ConnectionStep P srv fs (.validate hs s) inp
        (.serving hs s (.dispatch hs.direction)) (some (s, .authenticated hs))
  | serves {inp : Input} {hs : FileTransferHandshake} {s : ActiveTransferSession}
      {pc pc' : Pc H} {e : Effect κ}
      (hserve : serve P H
        { fs := fs, running := srv.running, cancelled := srv.cancelled s.ref } s pc inp =
          some (pc', e)) :
      ConnectionStep P srv fs (.serving hs s pc) inp (.serving hs s pc') (some (s, e))
  | ends {conn : Connection H} {inp : Input} (hpre : conn.handshaking = true) :
      ConnectionStep P srv fs conn inp .closed none

theorem Connection.step_cases {srv : FileTransferServer} {fs : FileStore κ}
    {conn conn' : Connection H} {inp : Input}
    {eff : Option (ActiveTransferSession × Effect κ)}
    (h : conn.step P H srv fs inp = some (conn', eff)) :
    ConnectionStep P srv fs conn inp conn' eff := by
  cases conn with
  | handshake =>
      simp only [Connection.step] at h
      split at h
      · simp only [Option.map_eq_some_iff, Prod.mk.injEq] at h
        obtain ⟨hs, -, rfl, rfl⟩ := h
        exact .greeted
      · cases h
        exact .ends rfl
      · cases h
  | lookup hs =>
      simp only [Connection.step] at h
      split at h
      · rename_i hidle
        split at h
        · rename_i s hfind
          cases h
          exact .found hidle hfind
        · cases h
          exact .ends rfl
        · cases h
      · cases h
  | validate hs s =>
      simp only [Connection.step] at h
      split at h
      · split at h
        · rename_i htoken
          cases h
          exact .authenticated htoken
        · cases h
          exact .ends rfl
      · cases h
  | serving hs s pc =>
      simp only [Connection.step] at h
      split at h
      · rename_i pc' e hserve
        cases h
        exact .serves hserve
      · cases h
  | closed => simp [Connection.step] at h

end Steps

end Iriseus.Core
