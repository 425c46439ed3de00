import Iriseus.Core.FileTransferServer
import Iriseus.Core.PairingCrypto

/-!
# Transfers: `FileTransferManager`

Port of `FileTransferManager.cpp`: the handlers of the control messages, the
loop of `sendFiles` and the callback the data server calls at the end of a
transfer.  They share the table `m_activeOffers` and own the data server.

A handler returns the manager after it and the events it causes, or the JSON
exception it throws.  `handleFileOffer` catches every exception; the others
do not.

`m_activeOffers` has no lock.  A handler runs on the io thread and goes to the
table for one identifier, once or with an iterator that it keeps, and to
`m_sessions` under its lock, so it is one step; an iteration of the loop of
`sendFiles` is one step too.  The callback runs on the thread of the data
connection that has ended and goes to the table twice, with a message and a
signal in between: it goes on in four steps (`CallbackStage`), between which
anything else can happen.  What two threads do to the hash table at the very
same time, or one to an entry that another one's iterator is at, is undefined
in C++ and is not modelled.
-/

namespace Iriseus.Core

open Iriseus.Verified
open Iriseus.Verified.ByteStream

structure TransferMeta where
  sessionId : UInt64
  offer : FileOffer
  filePath : String
  deriving DecidableEq, Repr

/-- What the callback of `setOnFinished` does next: look the offer up, tell the
sender, emit the signal, erase the offer; with what it has read so far. -/
inductive CallbackStage where
  | find
  | reply (sessionId : UInt64) (fileName : String)
  | signal (fileName : String)
  | erase
  deriving DecidableEq, Repr

/-- A call of `m_onFinished` that has not returned. -/
structure FinishedCallback where
  transferId : String
  success : Bool
  error : String
  stage : CallbackStage
  deriving DecidableEq, Repr

/-- The manager's members.  `sending` is the state of a running `sendFiles`:
the session and the paths still to be offered; `callbacks` are the running
calls of `m_onFinished`, by the number of the connection that makes them. -/
structure FileTransferManager where
  activeOffers : AList (fun _ : String => TransferMeta) := ∅
  currentSessionId : UInt64 := 0
  server : FileTransferServer := {}
  sending : UInt64 × List String := (0, [])
  callbacks : AList (fun _ : Nat => FinishedCallback) := ∅

/-- What can be observed of a run. -/
inductive TransferEvent (κ : Type) where
  /-- A JSON message is handed to `WsServer::sendTo`. -/
  | sendTo (sessionId : UInt64) (msg : Outgoing)
  /-- The signal `transferProgress`. -/
  | transferProgress (transferId : String) (bytes total : UInt64)
  /-- The signal `transferFinished`, with the texts before `fromStdString`. -/
  | transferFinished (transferId fileName : String) (success : Bool) (error : String)
  /-- `m_activeOffers[transferId] = meta` begins a transfer. -/
  | offered (direction : TransferDirection) (info : TransferMeta)
  /-- `m_sessions[transferId] = session`. -/
  | registered (session : ActiveTransferSession)
  /-- The callback of `setOnFinished` erases an identifier from
  `m_activeOffers`. -/
  | withdrawn (transferId : String)
  /-- The entry of an identifier leaves `m_sessions`. -/
  | erased (transferId : String)
  /-- `m_sessions.clear()`. -/
  | cleared
  /-- `handleFileComplete` finds the identifier and reports its outcome. -/
  | fileComplete (sessionId : UInt64) (transferId : String) (ok : Bool)
  /-- Connection `c` has an effect on behalf of `session`. -/
  | connection (c : Nat) (session : ActiveTransferSession) (effect : Effect κ)
  /-- The server performs `op` on behalf of `session`; it destroys data of the
  file `hit` and creates the file `made`. -/
  | fileOp (session : ActiveTransferSession) (op : FileOp κ) (hit made : Option Nat)
  /-- Another program puts a file. -/
  | created (k : κ)
  deriving DecidableEq

namespace FileTransferManager

variable {κ : Type} (P : Platform κ) (H : IncrementalHash)

def defaultDownloadDir : String :=
  (if P.downloadLocation = "" then P.homePath ++ "/Downloads" else P.downloadLocation)
    ++ "/Iriseus"

/-- `generateToken`: the random bytes are `token`. -/
def generateToken (token : ByteBlock kTokenSize) : String :=
  PairingCrypto.toBase64 token.bytes

/-- `m_server->registerTransfer`: the manager after it and the event. -/
def register (m : FileTransferManager) (transferId : String)
    (token : ByteBlock kTokenSize) (targetPath : String) (expectedSize : UInt64)
    (expectedSha256 : String) (direction : TransferDirection) :
    FileTransferManager × TransferEvent κ :=
  let s := m.server.newSession transferId (generateToken token) token.bytes targetPath
    expectedSize expectedSha256 direction
  ({ m with server := m.server.registerTransfer s }, .registered s)

/-- `m_activeOffers[transferId] = meta`. -/
def addOffer (m : FileTransferManager) (info : TransferMeta) : FileTransferManager :=
  { m with activeOffers := m.activeOffers.insert info.offer.transferId info }

/-! ## Messages of the peer -/

/-- The body of `handleFileOffer` once the offer has been read. -/
def acceptOffer (m : FileTransferManager) (sessionId : UInt64) (offer : FileOffer)
    (token : ByteBlock kTokenSize) : FileTransferManager × List (TransferEvent κ) :=
  let cleanName := sanitizeFileName (fromStdString offer.name)
  let fullPath := defaultDownloadDir P ++ "/" ++ cleanName
  let info : TransferMeta := { sessionId := sessionId, offer := offer, filePath := "" }
  let r := (m.addOffer info).register offer.transferId token fullPath offer.size
    offer.sha256 .mobileUploadToPc
  (r.1,
    [ .sendTo sessionId (.fileAccept offer.transferId)
    , .offered .mobileUploadToPc info
    , r.2
    , .sendTo sessionId
        (.fileReady offer.transferId kFileTransferPort (generateToken token)) ])

def handleFileOffer (m : FileTransferManager) (sessionId : UInt64) (payload : Json)
    (token : ByteBlock kTokenSize) : FileTransferManager × List (TransferEvent κ) :=
  match FileOffer.from_json payload with
  | .ok offer => m.acceptOffer P sessionId offer token
  | .error _ => (m, [])

def handleFileAccept (m : FileTransferManager) (sessionId : UInt64) (payload : Json)
    (token : ByteBlock kTokenSize) :
    Except JsonError (FileTransferManager × List (TransferEvent κ)) := do
  let transferId ← payload.stringValue "transferId" ""
  if transferId = "" then return (m, [])
  match m.activeOffers.lookup transferId with
  | some info =>
      let r := m.register transferId token info.filePath info.offer.size
        info.offer.sha256 .desktopDownloadToMobile
      return (r.1,
        [ r.2
        , .sendTo sessionId
            (.fileReady transferId kFileTransferPort (generateToken token)) ])
  | none => return (m, [])

/-- `m_server->cancelTransfer` and the erasure of the offer.  With an entry in
the table the erasures wait for the removal of the temporary file
(`finishCancel`). -/
def cancel (m : FileTransferManager) (transferId : String) :
    FileTransferManager × List (TransferEvent κ) :=
  match m.server.sessions.lookup transferId with
  | some _ => ({ m with server := m.server.cancelTransfer transferId }, [])
  | none => ({ m with activeOffers := m.activeOffers.erase transferId }, [])

/-- What follows the removal of the temporary file in `cancel`. -/
def finishCancel (m : FileTransferManager) (transferId : String) :
    FileTransferManager × List (TransferEvent κ) :=
  ({ m with
      server :=
        { m.server with
          sessions := m.server.sessions.erase transferId, cleaning := .idle }
      activeOffers := m.activeOffers.erase transferId },
    [.erased transferId])

/-- `handleFileReject` and `handleFileCancel` have the same body. -/
def handleFileReject (m : FileTransferManager) (payload : Json) :
    Except JsonError (FileTransferManager × List (TransferEvent κ)) := do
  let transferId ← payload.stringValue "transferId" ""
  if transferId = "" then return (m, [])
  return m.cancel transferId

def handleFileCancel (m : FileTransferManager) (payload : Json) :
    Except JsonError (FileTransferManager × List (TransferEvent κ)) :=
  m.handleFileReject payload

def handleFileComplete (m : FileTransferManager) (sessionId : UInt64) (payload : Json) :
    Except JsonError (FileTransferManager × List (TransferEvent κ)) := do
  let transferId ← payload.stringValue "transferId" ""
  let ok ← payload.boolValue "ok" false
  let error ← payload.stringValue "error" ""
  match m.activeOffers.lookup transferId with
  | some info =>
      return ({ m with activeOffers := m.activeOffers.erase transferId },
        [ .fileComplete sessionId transferId ok
        , .transferFinished transferId info.offer.name ok error ])
  | none => return (m, [])

/-! ## The end of a transfer -/

/-- Connection `c` calls `m_onFinished`. -/
def callOnFinished (m : FileTransferManager) (c : Nat) (transferId : String)
    (success : Bool) (error : String) : FileTransferManager :=
  { m with
    callbacks := m.callbacks.insert c
      { transferId := transferId, success := success, error := error, stage := .find } }

/-- The callback of connection `c` goes on with `stage`. -/
def goOn (m : FileTransferManager) (c : Nat) (cb : FinishedCallback)
    (stage : CallbackStage) : FileTransferManager :=
  { m with callbacks := m.callbacks.insert c { cb with stage := stage } }

/-- The callback of `setOnFinished`, one step. -/
def onFinished (m : FileTransferManager) (c : Nat) (cb : FinishedCallback) :
    FileTransferManager × List (TransferEvent κ) :=
  match cb.stage with
  | .find =>
      let sessionId := ((m.activeOffers.lookup cb.transferId).map (·.sessionId)).getD 0
      let fileName := ((m.activeOffers.lookup cb.transferId).map (·.offer.name)).getD ""
      (m.goOn c cb (.reply sessionId fileName), [])
  | .reply sessionId fileName =>
      (m.goOn c cb (.signal fileName),
        if sessionId ≠ 0 then
          [.sendTo sessionId (.fileComplete cb.transferId cb.success
            (if !cb.success && decide (cb.error ≠ "") then some cb.error else none))]
        else [])
  | .signal fileName =>
      (m.goOn c cb .erase, [.transferFinished cb.transferId fileName cb.success cb.error])
  | .erase =>
      ({ m with
          activeOffers := m.activeOffers.erase cb.transferId
          callbacks := m.callbacks.erase c },
        [.withdrawn cb.transferId])

/-! ## Sending files -/

/-- The block size of the hashing loop. -/
def hashBlockSize : Nat := 65536

/-- The loop `while (read(buf) || gcount() > 0)`: every block read, also a
short last one, is absorbed. -/
def hashLoop (fuel : Nat) (st : H.State) (content : Bytes) : H.State :=
  match fuel with
  | 0 => st
  | fuel + 1 =>
      if content = [] then st
      else hashLoop fuel (H.update st (content.take hashBlockSize))
        (content.drop hashBlockSize)

/-- The hexadecimal SHA-256 `sendFiles` announces for a content. -/
def hashFile (content : Bytes) : String :=
  toHex (H.final (hashLoop H (content.length + 1) H.init content))

/-- What the system answers while one path is offered: the random identifier
and token, whether the file opens, and after how many bytes reading it fails,
if it does. -/
structure SendDraw where
  uuid : ByteBlock kUuidBinarySize
  token : ByteBlock kTokenSize
  opens : Bool
  readLimit : Option Nat
  deriving DecidableEq, Repr

def sendFiles (m : FileTransferManager) (sessionId : UInt64) (paths : List String) :
    FileTransferManager :=
  let target := if sessionId = 0 ∧ m.currentSessionId ≠ 0 then m.currentSessionId
    else sessionId
  if target = 0 then m else { m with sending := (target, paths) }

/-- The offer of one path: hash, size and name of the file. -/
def makeOffer (path : String) (draw : SendDraw) (hashed : Bytes) (size : Nat) :
    FileOffer where
  transferId := formatUuid draw.uuid.bytes
  name := String.ofList (fileName path.toList)
  size := UInt64.ofNat size
  mime := "application/octet-stream"
  sha256 := hashFile H hashed

/-- One iteration of the loop over the paths. -/
def sendNext (m : FileTransferManager) (fs : FileStore κ) (draw : SendDraw) :
    Option (FileTransferManager × List (TransferEvent κ)) :=
  match m.sending with
  | (_, []) => none
  | (sessionId, path :: rest) =>
      let m : FileTransferManager := { m with sending := (sessionId, rest) }
      -- `QFileInfo` and `QFileInfo::size` read the path as Qt does, the hashing
      -- stream as the standard library does
      match (P.qtKey path).bind fs.read?, (P.stdKey path).bind fs.read? with
      | some sized, some content =>
          if draw.opens then
            let hashed := match draw.readLimit with
              | some n => content.take n
              | none => content
            let offer := makeOffer H path draw hashed sized.length
            let info : TransferMeta :=
              { sessionId := sessionId, offer := offer, filePath := path }
            let r := (m.addOffer info).register offer.transferId draw.token path offer.size
              offer.sha256 .desktopDownloadToMobile
            some (r.1,
              [ .offered .desktopDownloadToMobile info
              , r.2
              , .sendTo sessionId (.fileOffer offer) ])
          else some (m, [])
      | _, _ => some (m, [])

/-! ## What the handlers can do -/

/-- The callback does not touch the data server. -/
theorem onFinished_server {m m' : FileTransferManager} {c : Nat} {cb : FinishedCallback}
    {es : List (TransferEvent κ)} (h : m.onFinished c cb = (m', es)) :
    m'.server = m.server := by
  unfold onFinished at h
  split at h <;> cases h <;> rfl

/-- `handleFileAccept` registers the offered identifier again for sending, or
does nothing. -/
theorem handleFileAccept_cases {m m' : FileTransferManager} {sessionId : UInt64}
    {payload : Json} {token : ByteBlock kTokenSize} {es : List (TransferEvent κ)}
    (h : m.handleFileAccept sessionId payload token = .ok (m', es)) :
    (m' = m ∧ es = []) ∨
      ∃ transferId info, payload.stringValue "transferId" "" = .ok transferId ∧
        m.activeOffers.lookup transferId = some info ∧
        let r := m.register transferId token info.filePath info.offer.size
          info.offer.sha256 .desktopDownloadToMobile
        m' = r.1 ∧ es =
          [ r.2
          , .sendTo sessionId
              (.fileReady transferId kFileTransferPort (generateToken token)) ] := by
  unfold handleFileAccept at h
  cases hid : payload.stringValue "transferId" "" with
  | error e => simp [hid, bind, Except.bind] at h
  | ok transferId =>
      simp only [hid, bind, Except.bind] at h
      by_cases hempty : transferId = ""
      · simp only [hempty, if_true, pure, Except.pure, Except.ok.injEq, Prod.mk.injEq] at h
        exact Or.inl ⟨h.1.symm, h.2.symm⟩
      · simp only [hempty, if_false] at h
        cases hoffer : m.activeOffers.lookup transferId with
        | none =>
            simp only [hoffer, pure, Except.pure, Except.ok.injEq, Prod.mk.injEq] at h
            exact Or.inl ⟨h.1.symm, h.2.symm⟩
        | some info =>
            simp only [hoffer, pure, Except.pure, Except.ok.injEq, Prod.mk.injEq] at h
            exact Or.inr ⟨transferId, info, rfl, hoffer, h.1.symm, h.2.symm⟩

theorem cancel_events (m : FileTransferManager) (transferId : String) :
    (m.cancel (κ := κ) transferId).2 = [] := by
  unfold cancel
  split <;> rfl

/-- `handleFileReject` cancels an identifier, or does nothing. -/
theorem handleFileReject_cases {m m' : FileTransferManager} {payload : Json}
    {es : List (TransferEvent κ)} (h : m.handleFileReject payload = .ok (m', es)) :
    (m' = m ∧ es = []) ∨
      ∃ transferId, payload.stringValue "transferId" "" = .ok transferId ∧
        m.cancel transferId = (m', es) := by
  unfold handleFileReject at h
  cases hid : payload.stringValue "transferId" "" with
  | error e => simp [hid, bind, Except.bind] at h
  | ok transferId =>
      simp only [hid, bind, Except.bind] at h
      by_cases hempty : transferId = ""
      · simp only [hempty, if_true, pure, Except.pure, Except.ok.injEq, Prod.mk.injEq] at h
        exact Or.inl ⟨h.1.symm, h.2.symm⟩
      · simp only [hempty, if_false, pure, Except.pure, Except.ok.injEq] at h
        exact Or.inr ⟨transferId, rfl, h⟩

/-- `handleFileComplete` reports the outcome the peer states for an offered
identifier, or does nothing. -/
theorem handleFileComplete_cases {m m' : FileTransferManager} {sessionId : UInt64}
    {payload : Json} {es : List (TransferEvent κ)}
    (h : m.handleFileComplete sessionId payload = .ok (m', es)) :
    (m' = m ∧ es = [] ∧ ∃ transferId, payload.stringValue "transferId" "" = .ok transferId ∧
        m.activeOffers.lookup transferId = none) ∨
      ∃ transferId ok error info, payload.stringValue "transferId" "" = .ok transferId ∧
        payload.boolValue "ok" false = .ok ok ∧
        m.activeOffers.lookup transferId = some info ∧
        m' = { m with activeOffers := m.activeOffers.erase transferId } ∧
        es =
          [ .fileComplete sessionId transferId ok
          , .transferFinished transferId info.offer.name ok error ] := by
  unfold handleFileComplete at h
  cases hid : payload.stringValue "transferId" "" with
  | error e => simp [hid, bind, Except.bind] at h
  | ok transferId =>
      cases hok : payload.boolValue "ok" false with
      | error e => simp [hid, hok, bind, Except.bind] at h
      | ok ok =>
          cases herr : payload.stringValue "error" "" with
          | error e => simp [hid, hok, herr, bind, Except.bind] at h
          | ok error =>
              simp only [hid, hok, herr, bind, Except.bind] at h
              cases hoffer : m.activeOffers.lookup transferId with
              | none =>
                  simp only [hoffer, pure, Except.pure, Except.ok.injEq, Prod.mk.injEq] at h
                  exact Or.inl ⟨h.1.symm, h.2.symm, transferId, rfl, hoffer⟩
              | some info =>
                  simp only [hoffer, pure, Except.pure, Except.ok.injEq, Prod.mk.injEq] at h
                  exact Or.inr ⟨transferId, ok, error, info, rfl, rfl, hoffer, h.1.symm,
                    h.2.symm⟩

/-- One iteration of `sendFiles` offers and registers a file that exists, or
only moves on to the next path. -/
theorem sendNext_cases {m m' : FileTransferManager} {fs : FileStore κ}
    {draw : SendDraw} {es : List (TransferEvent κ)}
    (h : m.sendNext P H fs draw = some (m', es)) :
    ∃ sessionId path rest, m.sending = (sessionId, path :: rest) ∧
      ((m' = { m with sending := (sessionId, rest) } ∧ es = []) ∨
        ∃ hashed size,
          let offer := makeOffer H path draw hashed size
          let info : TransferMeta :=
            { sessionId := sessionId, offer := offer, filePath := path }
          let m₀ : FileTransferManager := { m with sending := (sessionId, rest) }
          let r := (m₀.addOffer info).register offer.transferId draw.token path offer.size
            offer.sha256 .desktopDownloadToMobile
          m' = r.1 ∧ es =
            [ .offered .desktopDownloadToMobile info
            , r.2
            , .sendTo sessionId (.fileOffer offer) ]) := by
  unfold sendNext at h
  split at h
  · cases h
  · rename_i sessionId path rest heq
    refine ⟨sessionId, path, rest, heq, ?_⟩
    simp only at h
    split at h
    · rename_i sized content hsized hcontent
      by_cases hopens : draw.opens = true
      · simp only [hopens, if_true, Option.some.injEq, Prod.mk.injEq] at h
        exact Or.inr ⟨_, _, h.1.symm, h.2.symm⟩
      · simp only [hopens] at h
        cases h
        exact Or.inl ⟨rfl, rfl⟩
    · cases h
      exact Or.inl ⟨rfl, rfl⟩

end FileTransferManager

end Iriseus.Core
