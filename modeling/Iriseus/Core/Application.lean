import Iriseus.Core.PairingRuns
import Iriseus.Core.TransferMachine
import Iriseus.Core.WsServer

/-!
# The desktop program: `Application`, `WsServer` and `WsSession`

Port of `WsSession::handleMessage` with the callbacks `Application` installs,
and of the order in which `Application::init` builds the components.  The io thread runs from
`WsServer::start` on, so a message can arrive between any two steps of `init`;
a component that is not built yet is `none`.

A handler that throws, or that uses a component that is not built, ends the
program: nothing above `handleMessage` catches.  `appMachine` interleaves the
io thread, the steps of `init`, the user interface and the file transfers.

## Main results

* `appStep_effects` — what one step of the program does to its components.
* `server_reach`, `transfers_reach`, `pairing_reach` — a run of the program is
  a run of the server, of the file-transfer system and of the pairing manager.
-/

namespace Iriseus.Core

open Iriseus.Verified
open Iriseus.Verified.ByteStream

/-! ## Components -/

/-- What ends the program while a message is handled. -/
inductive Fault where
  | json (e : JsonError)
  | crypto (e : CryptoError)
  /-- `m_pairing` is dereferenced before it is set. -/
  | nullPairing
  deriving DecidableEq, Repr

/-- The mirror flags of `StreamReceiver`: its own and, once `start` has made
the decoder, the decoder's. -/
structure StreamReceiver where
  flip : Bool := true
  decoder : Option Bool := none
  deriving DecidableEq, Repr

namespace StreamReceiver

def setFlipHorizontal (r : StreamReceiver) (flip : Bool) : StreamReceiver where
  flip := flip
  decoder := r.decoder.map fun _ => flip

def flipHorizontal (r : StreamReceiver) : Bool := r.decoder.getD r.flip

/-- `start` makes the decoder, whose own flag is set by default. -/
def makeDecoder (r : StreamReceiver) : StreamReceiver :=
  { r with decoder := some true }

/-- `start` hands the decoder the flag, unless the decoder's `init` fails. -/
def initDecoder (r : StreamReceiver) (succeeds : Bool) : StreamReceiver :=
  if succeeds then { r with decoder := some r.flip } else r

end StreamReceiver

/-- The persistent settings. -/
structure Settings where
  pairedDeviceId : String
  pairedDeviceName : String
  flipHorizontal : Bool
  deriving DecidableEq, Repr

/-- What `Application::init` does next; `flip` is its local variable. -/
inductive InitStage where
  | constructPairing
  | setOnPaired
  | restoreDevice
  | constructStream (flip : Bool)
  | setStreamFlip (flip : Bool)
  /-- `StreamReceiver::start` makes the decoder. -/
  | makeDecoder (flip : Bool)
  /-- `StreamReceiver::start` initialises the decoder and hands it the flag. -/
  | initDecoder (flip : Bool)
  | constructFileManager (flip : Bool)
  | startFileManager (flip : Bool)
  | showTray (flip : Bool)
  | ready
  deriving DecidableEq, Repr

/-- `m_onPaired` is installed. -/
def InitStage.onPairedSet : InitStage → Bool
  | .constructPairing => false
  | .setOnPaired => false
  | _ => true

/-- A lambda queued for the Qt thread. -/
inductive UiTask where
  | updateStreamMode (isScreen : Bool)
  | setFlip (flip : Bool)
  deriving DecidableEq, Repr

/-- The whole program. -/
structure Application (κ : Type) (H : IncrementalHash) where
  server : WsServer := {}
  stage : InitStage := .constructPairing
  settings : Settings
  pairing : Option PairingManager := none
  stream : Option StreamReceiver := none
  fileManager : Option FileTransferManager := none
  /-- The check mark of the tray menu, once there is a tray. -/
  tray : Option Bool := none
  tasks : List UiTask := []
  fs : FileStore κ
  conns : List (Connection H) := []
  ended : Option Fault := none

/-- What can be observed of a run of the program. -/
inductive AppEvent (κ : Type) where
  /-- `handleMessage` is called on session `n`. -/
  | received (n : Nat) (sessionId : UInt64) (msg : ControlMessage)
  /-- An event of the server that delivers no message. -/
  | server (e : ServerEvent)
  /-- A session sends a message that no file transfer sends. -/
  | send (sessionId : UInt64) (msg : Outgoing)
  | broadcast (msg : Outgoing)
  | pairing (e : PairingEvent)
  /-- `m_devices[deviceId]` is assigned by a pairing request. -/
  | paired (deviceId : String)
  /-- An event of the file transfers; `cause` is the message being handled. -/
  | transfer (cause : Option (UInt64 × MsgType)) (e : TransferEvent κ)
  | streamMode (isScreen : Bool)
  /-- An exception leaves `handleMessage`. -/
  | ended (f : Fault)

/-- What a handler leaves, unless it ends the program. -/
abbrev Handled (κ : Type) (H : IncrementalHash) :=
  Except Fault (Application κ H × List (AppEvent κ))

namespace Application

variable {κ : Type} {H : IncrementalHash}

/-- The file-transfer system inside the program. -/
def world (app : Application κ H) : World κ H where
  fs := app.fs
  manager := app.fileManager.getD {}
  conns := app.conns

def setWorld (app : Application κ H) (w : World κ H) : Application κ H :=
  { app with fs := w.fs, fileManager := some w.manager, conns := w.conns }

/-! ## Callbacks -/

def onDeviceConnected (app : Application κ H) (sessionId : UInt64) : Application κ H :=
  { app with
    fileManager := app.fileManager.map fun m => { m with currentSessionId := sessionId } }

def onDeviceDisconnected (app : Application κ H) (sessionId : UInt64) :
    Application κ H :=
  { app with
    fileManager := app.fileManager.map fun m =>
      if m.currentSessionId = sessionId then { m with currentSessionId := 0 } else m }

/-- `QMetaObject::invokeMethod` with a queued connection. -/
def post (app : Application κ H) (task : UiTask) : Application κ H :=
  { app with tasks := app.tasks ++ [task] }

def getPcPublicKey (app : Application κ H) : String :=
  match app.pairing with
  | none => ""
  | some p => p.currentOffer.pubKeyB64

def getFlipHorizontal (app : Application κ H) : Bool :=
  match app.stream with
  | some r => r.flipHorizontal
  | none => true

/-- The device is written to the settings. -/
def saveDevice (app : Application κ H) (device : PairedDevice) : Application κ H :=
  { app with settings :=
      { app.settings with
        pairedDeviceId := fromStdString device.deviceId
        pairedDeviceName := fromStdString device.deviceName } }

/-- The calls of `m_onPaired`, once it is installed. -/
def onPaired (app : Application κ H) (devices : List PairedDevice) : Application κ H :=
  if app.stage.onPairedSet then devices.foldl saveDevice app else app

def onPairRequest (kx : KxServer) (app : Application κ H) (sessionId : UInt64)
    (payload : Json) : Handled κ H := do
  let pin ← (payload.stringValue "pin" "").mapError .json
  let peerPubB64 ← (payload.stringValue "pk" "").mapError .json
  let deviceId ← (payload.stringValue "deviceId" "").mapError .json
  let deviceName ← (payload.stringValue "deviceName" "").mapError .json
  match app.pairing with
  | none => .error .nullPairing
  | some p =>
      let out := p.handlePairRequest kx pin peerPubB64 deviceId deviceName
      let ok ← out.result.mapError .crypto
      return ({ app.onPaired out.onPaired with pairing := some out.state },
        .pairing (requestEvent pin (.ok ok)) ::
          (out.onPaired.map fun device => .paired device.deviceId) ++
          [.send sessionId (if ok then .pairAccepted else .pairRejected)])

/-- The callbacks of the file messages: `if (m_fileManager)`, the handler. -/
def onFileMessage (app : Application κ H) (sessionId : UInt64) (type : MsgType)
    (handler : FileTransferManager →
      Except JsonError (FileTransferManager × List (TransferEvent κ))) : Handled κ H :=
  match app.fileManager with
  | none => .ok (app, [])
  | some m => do
      let (m', es) ← (handler m).mapError .json
      return ({ app with fileManager := some m' },
        es.map fun e => .transfer (some (sessionId, type)) e)

/-! ## `WsSession::handleMessage` -/

section Handle

variable (parse : Bytes → Option Json) (kx : KxServer) (P : Platform κ)

/-- `handleMessage`; `token` is what the random generator returns if a token
is drawn. -/
def handleMessage (app : Application κ H) (sessionId : UInt64) (raw : Bytes)
    (token : ByteBlock kTokenSize) : Handled κ H :=
  let msg := parseMessage parse raw
  match msg.type with
  | .hello => do
      let _ ← (msg.payload.stringValue "deviceName" "Unknown").mapError .json
      let app := app.onDeviceConnected sessionId
      return (app,
        [.send sessionId (.welcome app.getPcPublicKey app.getFlipHorizontal)])
  | .startCamera => .ok (app.post (.updateStreamMode false), [])
  | .stopCamera => .ok (app, [])
  | .startScreen => .ok (app.post (.updateStreamMode true), [])
  | .stopScreen => .ok (app.post (.updateStreamMode false), [])
  | .setFlip => do
      let flip ← (msg.payload.boolValue "flip" true).mapError .json
      return (app.post (.setFlip flip), [])
  | .ping => .ok (app, [.send sessionId .pong])
  | .pairRequest => app.onPairRequest kx sessionId msg.payload
  | .fileOffer => app.onFileMessage sessionId .fileOffer fun m =>
      .ok (m.handleFileOffer P sessionId msg.payload token)
  | .fileAccept => app.onFileMessage sessionId .fileAccept fun m =>
      m.handleFileAccept sessionId msg.payload token
  | .fileReject => app.onFileMessage sessionId .fileReject fun m =>
      m.handleFileReject msg.payload
  | .fileComplete => app.onFileMessage sessionId .fileComplete fun m =>
      m.handleFileComplete sessionId msg.payload
  | .fileCancel => app.onFileMessage sessionId .fileCancel fun m =>
      m.handleFileCancel msg.payload
  | _ => .ok (app, [])

end Handle

/-! ## Steps of the program -/

section Step

variable [DecidableEq κ] (P : Platform κ)

/-- A step of the file transfers. -/
def transferMove (app : Application κ H) (a : TransferAction κ) :
    Option (Application κ H × List (AppEvent κ)) :=
  match app.fileManager with
  | none => none
  | some _ =>
      match transferStep P H app.world a with
      | none => none
      | some (w, es) => some (app.setWorld w, es.map fun e => .transfer none e)

/-- The next step of `Application::init`, which is called once.  `kp` is the
key pair generated, `ok` how the call of this step ends. -/
def initStep (app : Application κ H) (kp : KeyPair) (ok : Bool) :
    Option (Application κ H × List (AppEvent κ)) :=
  match app.stage with
  | .constructPairing =>
      some ({ app with
        pairing := some (PairingManager.construct 45678 kp), stage := .setOnPaired }, [])
  | .setOnPaired => some ({ app with stage := .restoreDevice }, [])
  | .restoreDevice =>
      let app := { app with stage := .constructStream app.settings.flipHorizontal }
      match app.pairing with
      | none => some (app, [])
      | some p =>
          let savedId := app.settings.pairedDeviceId
          if savedId = "" then some (app, [])
          else
            some ({ app with
                pairing := some (p.restoreDevice savedId app.settings.pairedDeviceName) },
              [.pairing (.restored savedId)])
  | .constructStream flip =>
      some ({ app with stream := some {}, stage := .setStreamFlip flip }, [])
  | .setStreamFlip flip =>
      some ({ app with
        stream := app.stream.map (·.setFlipHorizontal flip), stage := .makeDecoder flip }, [])
  | .makeDecoder flip =>
      some ({ app with
        stream := app.stream.map (·.makeDecoder), stage := .initDecoder flip }, [])
  | .initDecoder flip =>
      some ({ app with
        stream := app.stream.map (·.initDecoder ok), stage := .constructFileManager flip }, [])
  | .constructFileManager flip =>
      some ({ app with fileManager := some {}, stage := .startFileManager flip }, [])
  | .startFileManager flip =>
      ({ app with stage := .showTray flip } : Application κ H).transferMove P
        (.control (.start ok))
  | .showTray flip => some ({ app with tray := some flip, stage := .ready }, [])
  | .ready => none

/-- What the user, the threads of the data server and other programs can do
now.  The calls that belong to messages and to `init` are not among them. -/
def canAct (app : Application κ H) : TransferAction κ → Bool
  | .control (.sendFiles sessionId _) => app.stage = .ready ∧ sessionId = 0
  | .control (.sendNext _) => true
  | .control .stop => app.stage = .ready
  | .control (.stopLock _) => true
  | .control _ => false
  | _ => true

/-- The server's events as the callbacks see them. -/
def onServerEvent (app : Application κ H) : ServerEvent → Application κ H
  | .disconnected _ sessionId => app.onDeviceDisconnected sessionId
  | _ => app

/-- The io thread can turn to another handler: it is not inside `cancelTransfer`. -/
def ioFree (app : Application κ H) : Bool :=
  match app.world.manager.server.cleaning with
  | .cancel _ => false
  | _ => true

/-- A completion handler of the server that delivers no message. -/
def networkStep (app : Application κ H) (a : ServerAction) :
    Option (Application κ H × List (AppEvent κ)) :=
  if app.ioFree then
    match serverStep app.server a with
    | some (server, es) =>
        some (es.foldl onServerEvent { app with server := server },
          es.map fun e => .server e)
    | none => none
  else none

/-- A file message waits for the lock of the session table. -/
def canHandle (app : Application κ H) (type : MsgType) : Bool :=
  match app.world.manager.server.cleaning with
  | .idle => true
  | .cancel _ => false
  | .stop _ =>
      decide (type ∉ [.fileOffer, .fileAccept, .fileReject, .fileComplete, .fileCancel])

/-- The handler of the tray's flip action and the queued lambda of `set_flip`:
the stream, the settings and the sessions learn the flag. -/
def applyFlip (app : Application κ H) (flip : Bool) :
    Application κ H × List (AppEvent κ) :=
  ({ app with
      stream := app.stream.map (·.setFlipHorizontal flip)
      settings := { app.settings with flipHorizontal := flip } },
    [.broadcast (.flipStatus flip)])

def runTask (app : Application κ H) : UiTask → Application κ H × List (AppEvent κ)
  | .updateStreamMode isScreen => (app, [.streamMode isScreen])
  | .setFlip flip =>
      ({ app with tray := app.tray.map fun _ => flip } : Application κ H).applyFlip flip

end Step

end Application

/-- One label: a step of `init`, a network event, an action of the user, a
queued lambda, or a step of the file transfers. -/
inductive AppAction (κ : Type) where
  | init (kp : KeyPair) (ok : Bool)
  | connect
  | handshake (n : Nat) (ok : Bool)
  | disconnect (n : Nat)
  | message (n : Nat) (raw : Bytes) (token : ByteBlock kTokenSize)
  | createOffer (pcIp : String) (drawn : Fin 1000000)
  | toggleFlip (flip : Bool)
  | runTask
  | transfers (a : TransferAction κ)

section Machine

variable {κ : Type} [DecidableEq κ]
variable (parse : Bytes → Option Json) (kx : KxServer) (P : Platform κ)

open Application in
/-- One step of the program while it runs. -/
def appStep {H : IncrementalHash} (app : Application κ H) :
    AppAction κ → Option (Application κ H × List (AppEvent κ))
  | .init kp ok => app.initStep P kp ok
  | .connect => app.networkStep .accept
  | .handshake n ok => app.networkStep (.handshake n ok)
  | .disconnect n => app.networkStep (.read n false)
  | .message n raw token =>
      let msg := parseMessage parse raw
      match app.server.accepted[n]? with
      | some (sessionId, .reading) =>
          if app.canHandle msg.type then
            match app.handleMessage parse kx P sessionId raw token with
            | .ok (app', es) => some (app', .received n sessionId msg :: es)
            | .error f =>
                some ({ app with ended := some f }, [.received n sessionId msg, .ended f])
          else none
      | _ => none
  | .createOffer pcIp drawn =>
      match app.stage, app.pairing with
      | .ready, some p =>
          some ({ app with pairing := some (p.createOffer pcIp drawn) },
            [.pairing (.offered (PairingManager.generatePin drawn))])
      | _, _ => none
  | .toggleFlip flip =>
      if app.stage = .ready then
        some (({ app with tray := app.tray.map fun _ => flip } :
          Application κ H).applyFlip flip)
      else none
  | .runTask =>
      match app.stage, app.tasks with
      | .ready, task :: rest =>
          some (({ app with tasks := rest } : Application κ H).runTask task)
      | _, _ => none
  | .transfers a => if app.canAct a then app.transferMove P a else none

/-- `WsServer::start` has just returned true: nothing else is built, and the
settings and the files are arbitrary. -/
def AppInit {H : IncrementalHash} (app : Application κ H) : Prop :=
  app.fs.WF ∧ app.fs.handles = [] ∧
    ∃ settings fs, app = { settings := settings, fs := fs }

/-- The program takes no step once an exception has ended it. -/
def appMachine (H : IncrementalHash) :
    Machine (Application κ H) (AppAction κ) (AppEvent κ) where
  Init := AppInit
  step app a := if app.ended.isSome then none else appStep parse kx P app a

end Machine

/-! ## The parts of a history -/

section Parts

variable {κ : Type}

def transferOf : AppEvent κ → Option (TransferEvent κ)
  | .transfer _ e => some e
  | _ => none

def pairingOf : AppEvent κ → Option PairingEvent
  | .pairing e => some e
  | _ => none

def serverOf : AppEvent κ → Option ServerEvent
  | .received n _ _ => some (.delivered n)
  | .server e => some e
  | _ => none

/-- The device an event pairs. -/
def pairedOf : AppEvent κ → Option String
  | .paired deviceId => some deviceId
  | .pairing (.restored deviceId) => some deviceId
  | _ => none

/-- The run of the file transfers inside a run of the program. -/
def transfersOf (h : List (AppEvent κ)) : List (TransferEvent κ) := h.filterMap transferOf

/-- The run of the pairing manager inside a run of the program. -/
def pairingsOf (h : List (AppEvent κ)) : List PairingEvent := h.filterMap pairingOf

/-- The run of the server inside a run of the program. -/
def serversOf (h : List (AppEvent κ)) : List ServerEvent := h.filterMap serverOf

/-- The devices paired or restored so far. -/
def pairedDevices (h : List (AppEvent κ)) : List String := h.filterMap pairedOf

/-- Neither the server nor the file transfers nor the pairing manager take part
in the event. -/
def AppEvent.isQuiet : AppEvent κ → Bool
  | .received _ _ _ => false
  | .server _ => false
  | .transfer _ _ => false
  | .pairing _ => false
  | .paired _ => false
  | _ => true

@[simp] theorem transfersOf_append (h h' : List (AppEvent κ)) :
    transfersOf (h ++ h') = transfersOf h ++ transfersOf h' :=
  List.filterMap_append

@[simp] theorem pairingsOf_append (h h' : List (AppEvent κ)) :
    pairingsOf (h ++ h') = pairingsOf h ++ pairingsOf h' :=
  List.filterMap_append

@[simp] theorem serversOf_append (h h' : List (AppEvent κ)) :
    serversOf (h ++ h') = serversOf h ++ serversOf h' :=
  List.filterMap_append

@[simp] theorem pairedDevices_append (h h' : List (AppEvent κ)) :
    pairedDevices (h ++ h') = pairedDevices h ++ pairedDevices h' :=
  List.filterMap_append

@[simp] theorem transfersOf_map (cause : Option (UInt64 × MsgType))
    (es : List (TransferEvent κ)) :
    transfersOf (es.map fun e => .transfer cause e) = es := by
  simp [transfersOf, List.filterMap_map, Function.comp_def, transferOf]

@[simp] theorem pairingsOf_map (cause : Option (UInt64 × MsgType))
    (es : List (TransferEvent κ)) :
    pairingsOf (es.map fun e => .transfer cause e) = [] := by
  simp [pairingsOf, pairingOf]

@[simp] theorem serversOf_map (cause : Option (UInt64 × MsgType))
    (es : List (TransferEvent κ)) :
    serversOf (es.map fun e => .transfer cause e) = [] := by
  simp [serversOf, serverOf]

@[simp] theorem pairedDevices_map (cause : Option (UInt64 × MsgType))
    (es : List (TransferEvent κ)) :
    pairedDevices (es.map fun e => .transfer cause e) = [] := by
  simp [pairedDevices, pairedOf]

@[simp] theorem pairedOf_requestEvent (pin : String) (r : Except CryptoError Bool) :
    pairedOf (κ := κ) (.pairing (requestEvent pin r)) = none := by
  rcases r with e | ok
  · rfl
  · cases ok <;> rfl

@[simp] theorem pairedOf_paired (deviceId : String) :
    pairedOf (κ := κ) (.paired deviceId) = some deviceId := rfl

@[simp] theorem pairedOf_send (sessionId : UInt64) (msg : Outgoing) :
    pairedOf (κ := κ) (.send sessionId msg) = none := rfl

theorem serversOf_quiet {es : List (AppEvent κ)} (hes : ∀ e ∈ es, e.isQuiet = true) :
    serversOf es = [] := by
  refine List.filterMap_eq_nil_iff.mpr fun e he => ?_
  have hquiet := hes e he
  cases e <;> first | rfl | cases hquiet

theorem parts_quiet {es : List (AppEvent κ)} (hes : ∀ e ∈ es, e.isQuiet = true) :
    transfersOf es = [] ∧ pairingsOf es = [] ∧ pairedDevices es = [] := by
  have hof : ∀ e : AppEvent κ, e.isQuiet = true →
      transferOf e = none ∧ pairingOf e = none ∧ pairedOf e = none := by
    intro e he
    cases e <;> first | exact ⟨rfl, rfl, rfl⟩ | cases he
  simp only [transfersOf, pairingsOf, pairedDevices, List.filterMap_eq_nil_iff]
  exact ⟨fun e he => (hof e (hes e he)).1, fun e he => (hof e (hes e he)).2.1,
    fun e he => (hof e (hes e he)).2.2⟩

end Parts

/-! ## What a step of the program does to its components -/

section Effects

variable {κ : Type} [DecidableEq κ] {H : IncrementalHash}
variable (kx : KxServer) (P : Platform κ)

/-- `init` has not assigned `m_fileManager` yet. -/
def InitStage.beforeFileManager : InitStage → Bool
  | .startFileManager _ => false
  | .showTray _ => false
  | .ready => false
  | _ => true

/-- What `init` has not built yet is null. -/
structure InitInv (app : Application κ H) : Prop where
  pairing : app.stage = .constructPairing → app.pairing = none
  fileManager : app.stage.beforeFileManager = true → app.fileManager = none

/-- What a step does to the pairing manager: nothing, its construction, or one
step of its own. -/
inductive PairingMove (app app' : Application κ H) (es : List (AppEvent κ)) : Prop
  | same (hsame : app'.pairing = app.pairing) (hes : pairingsOf es = [])
      (hdev : pairedDevices es = [])
  | construct {kp : KeyPair} (hnone : app.pairing = none)
      (hnew : app'.pairing = some (PairingManager.construct 45678 kp))
      (hes : pairingsOf es = []) (hdev : pairedDevices es = [])
  | move {p p' : PairingManager} {a : PairingAction} (hold : app.pairing = some p)
      (hnew : app'.pairing = some p')
      (hmove : pairingStep kx p a = some (p', pairingsOf es))
      (hdev : ∀ d, p'.isPaired d = true ↔ p.isPaired d = true ∨ d ∈ pairedDevices es)

/-- What a step does to the file transfers: nothing, or one step of theirs. -/
inductive TransferMove (app app' : Application κ H) (es : List (AppEvent κ)) : Prop
  | same (hsame : app'.world = app.world) (hes : transfersOf es = [])
  | move (a : TransferAction κ)
      (hmove : transferStep P H app.world a = some (app'.world, transfersOf es))

/-- What a step does to the server: nothing, or one step of its own. -/
inductive ServerMove (app app' : Application κ H) (es : List (AppEvent κ)) : Prop
  | same (hsame : app'.server = app.server) (hes : serversOf es = [])
  | move (a : ServerAction)
      (hmove : serverStep app.server a = some (app'.server, serversOf es))

/-- What a handler does to the components; none changes the server. -/
structure Effects (cause : Option (UInt64 × MsgType)) (app app' : Application κ H)
    (es : List (AppEvent κ)) : Prop where
  inv : InitInv app'
  sameServer : app'.server = app.server
  noServer : serversOf es = []
  pairing : PairingMove kx app app' es
  transfers : TransferMove P app app' es
  caused : ∀ c e, .transfer (some c) e ∈ es → cause = some c

/-- What a step of the program does to the components. -/
structure StepEffects (cause : Option (UInt64 × MsgType)) (app app' : Application κ H)
    (es : List (AppEvent κ)) : Prop where
  inv : InitInv app'
  server : ServerMove app app' es
  pairing : PairingMove kx app app' es
  transfers : TransferMove P app app' es
  caused : ∀ c e, .transfer (some c) e ∈ es → cause = some c

variable {kx P}

omit [DecidableEq κ] in
theorem InitInv.frame {app app' : Application κ H} (hI : InitInv app)
    (hstage : app'.stage = app.stage) (hpairing : app.pairing = none → app'.pairing = none)
    (hmanager : app.fileManager = none → app'.fileManager = none) : InitInv app' where
  pairing := fun h => hpairing (hI.pairing (hstage ▸ h))
  fileManager := fun h => hmanager (hI.fileManager (hstage ▸ h))

/-- A handler that touches neither the pairing manager nor the file transfers. -/
theorem Effects.quiet {cause : Option (UInt64 × MsgType)} {app app' : Application κ H}
    {es : List (AppEvent κ)} (hI : InitInv app') (hserver : app'.server = app.server)
    (hpairing : app'.pairing = app.pairing) (hworld : app'.world = app.world)
    (hes : ∀ e ∈ es, e.isQuiet = true) : Effects kx P cause app app' es where
  inv := hI
  sameServer := hserver
  noServer := serversOf_quiet hes
  pairing := .same hpairing (parts_quiet hes).2.1 (parts_quiet hes).2.2
  transfers := .same hworld (parts_quiet hes).1
  caused := fun c e he => by cases hes _ he

/-- A step of the file transfers alone. -/
theorem Effects.transfer {cause : Option (UInt64 × MsgType)}
    {app app' : Application κ H} {a : TransferAction κ} {tes : List (TransferEvent κ)}
    (hI : InitInv app') (hserver : app'.server = app.server)
    (hpairing : app'.pairing = app.pairing)
    (hmove : transferStep P H app.world a = some (app'.world, tes)) :
    Effects kx P cause app app' (tes.map fun e => .transfer cause e) where
  inv := hI
  sameServer := hserver
  noServer := by simp
  pairing := .same hpairing (by simp) (by simp)
  transfers := .move a (by simpa using hmove)
  caused := fun c e he => by
    obtain ⟨e', -, heq⟩ := List.mem_map.mp he
    cases heq
    rfl

/-- A step of the pairing manager alone. -/
theorem Effects.pair {cause : Option (UInt64 × MsgType)} {app app' : Application κ H}
    {es : List (AppEvent κ)} (hI : InitInv app') (hserver : app'.server = app.server)
    (hmove : PairingMove kx app app' es) (hworld : app'.world = app.world)
    (hes : ∀ e ∈ es, transferOf e = none ∧ serverOf e = none) :
    Effects kx P cause app app' es where
  inv := hI
  sameServer := hserver
  noServer := List.filterMap_eq_nil_iff.mpr fun e he => (hes e he).2
  pairing := hmove
  transfers := .same hworld (List.filterMap_eq_nil_iff.mpr fun e he => (hes e he).1)
  caused := fun c e he => by cases (hes _ he).1

/-- A handler that handles no message. -/
theorem Effects.step {cause : Option (UInt64 × MsgType)} {app app' : Application κ H}
    {es : List (AppEvent κ)} (he : Effects kx P cause app app' es) :
    StepEffects kx P cause app app' es where
  inv := he.inv
  server := .same he.sameServer he.noServer
  pairing := he.pairing
  transfers := he.transfers
  caused := he.caused

/-- The handler of a message: its read is a step of the server. -/
theorem Effects.received {cause : Option (UInt64 × MsgType)} {app app' : Application κ H}
    {es : List (AppEvent κ)} (he : Effects kx P cause app app' es) {n : Nat}
    {sessionId : UInt64} (hn : app.server.accepted[n]? = some (sessionId, .reading))
    (msg : ControlMessage) :
    StepEffects kx P cause app app' (.received n sessionId msg :: es) where
  inv := he.inv
  server := by
    refine .move (.read n true) ?_
    have hevents : serversOf (.received n sessionId msg :: es) = [.delivered n] := by
      simpa [serversOf, List.filterMap_cons, serverOf] using
        List.filterMap_eq_nil_iff.mp he.noServer
    rw [hevents, he.sameServer]
    simp [serverStep, hn]
  pairing := by
    cases he.pairing with
    | same hsame hes hdev => exact .same hsame hes hdev
    | construct hnone hnew hes hdev => exact .construct hnone hnew hes hdev
    | move hold hnew hmove hdev => exact .move hold hnew hmove hdev
  transfers := by
    cases he.transfers with
    | same hsame hes => exact .same hsame hes
    | move a hmove => exact .move a hmove
  caused := fun c e hmem => he.caused c e (by simpa using hmem)

/-! ### Messages -/

namespace Application

variable {parse : Bytes → Option Json}

omit [DecidableEq κ] in
theorem canHandle_idle {app : Application κ H} {type : MsgType}
    (hfile : type ∈
      [MsgType.fileOffer, .fileAccept, .fileReject, .fileComplete, .fileCancel])
    (h : app.canHandle type = true) : app.world.manager.server.cleaning = .idle := by
  unfold canHandle at h
  split at h
  · rename_i hidle
    exact hidle
  · cases h
  · simp only [decide_eq_true_eq] at h
    exact absurd hfile h

/-- What handling a message to its end can do. -/
inductive MessageStep (kx : KxServer) (P : Platform κ) (app : Application κ H)
    (sessionId : UInt64) (msg : ControlMessage) : Application κ H → List (AppEvent κ) → Prop
  | hello (htype : msg.type = .hello) :
      MessageStep kx P app sessionId msg (app.onDeviceConnected sessionId)
        [.send sessionId (.welcome (app.onDeviceConnected sessionId).getPcPublicKey
          (app.onDeviceConnected sessionId).getFlipHorizontal)]
  | pairRequest {app' : Application κ H} {es : List (AppEvent κ)}
      (htype : msg.type = .pairRequest)
      (hpair : app.onPairRequest kx sessionId msg.payload = .ok (app', es)) :
      MessageStep kx P app sessionId msg app' es
  | file {a : Control} {m : FileTransferManager}
      {r : FileTransferManager × List (TransferEvent κ)} (htype : msg.type ≠ .hello)
      (ha : ∀ sessionId, a ≠ .setCurrentSession sessionId) (hm : app.fileManager = some m)
      (hcall : control P H m app.fs a = some r) :
      MessageStep kx P app sessionId msg { app with fileManager := some r.1 }
        (r.2.map fun e => .transfer (some (sessionId, msg.type)) e)
  | post {task : UiTask} (htype : msg.type ≠ .hello) :
      MessageStep kx P app sessionId msg (app.post task) []
  | quiet {es : List (AppEvent κ)} (htype : msg.type ≠ .hello)
      (hes : es = [] ∨ es = [.send sessionId .pong]) :
      MessageStep kx P app sessionId msg app es

omit [DecidableEq κ] in
/-- A file message is a call on the manager, if there is one. -/
theorem onFileMessage_cases {app app' : Application κ H} {es : List (AppEvent κ)}
    {sessionId : UInt64} {msg : ControlMessage} {a : Control}
    {handler : FileTransferManager →
      Except JsonError (FileTransferManager × List (TransferEvent κ))}
    (htype : msg.type ≠ .hello) (ha : ∀ sessionId, a ≠ .setCurrentSession sessionId)
    (hcontrol : ∀ m r, app.fileManager = some m → handler m = .ok r →
      control P H m app.fs a = some r)
    (h : app.onFileMessage sessionId msg.type handler = .ok (app', es)) :
    MessageStep kx P app sessionId msg app' es := by
  unfold onFileMessage at h
  cases hm : app.fileManager with
  | none =>
      simp only [hm, Except.ok.injEq, Prod.mk.injEq] at h
      obtain ⟨rfl, rfl⟩ := h
      exact .quiet htype (Or.inl rfl)
  | some m =>
      simp only [hm, bind_eq_ok, mapError_eq_ok, pure, Except.pure, Except.ok.injEq,
        Prod.mk.injEq] at h
      obtain ⟨r, hr, rfl, rfl⟩ := h
      exact .file htype ha hm (hcontrol m r hm hr)

omit [DecidableEq κ] in
/-- **Inversion.**  A message that is handled to its end. -/
theorem handleMessage_cases {app app' : Application κ H} {es : List (AppEvent κ)}
    {sessionId : UInt64} {raw : Bytes} {token : ByteBlock kTokenSize}
    (hcan : app.canHandle (parseMessage parse raw).type = true)
    (h : app.handleMessage parse kx P sessionId raw token = .ok (app', es)) :
    MessageStep kx P app sessionId (parseMessage parse raw) app' es := by
  have hidle : _ → _ → _ := @canHandle_idle κ H app (parseMessage parse raw).type
  unfold handleMessage at h
  simp only at h
  generalize parseMessage parse raw = msg at h hcan hidle
  obtain ⟨type, payload⟩ := msg
  have hcleaning : type ∈ [MsgType.fileOffer, .fileAccept, .fileReject, .fileComplete,
      .fileCancel] → ∀ m, app.fileManager = some m → m.server.cleaning = .idle := by
    intro hfile m hm
    simpa [world, hm] using hidle hfile hcan
  cases type with
  | hello =>
      simp only [bind_eq_ok, mapError_eq_ok, pure, Except.pure, Except.ok.injEq,
        Prod.mk.injEq] at h
      obtain ⟨name, -, rfl, rfl⟩ := h
      exact .hello rfl
  | setFlip =>
      simp only [bind_eq_ok, mapError_eq_ok, pure, Except.pure, Except.ok.injEq,
        Prod.mk.injEq] at h
      obtain ⟨flip, -, rfl, rfl⟩ := h
      exact .post (by simp)
  | pairRequest => exact .pairRequest rfl h
  | fileOffer =>
      refine onFileMessage_cases (a := .handleFileOffer sessionId payload token)
        (by simp) (by simp) ?_ h
      intro m r hm hr
      simp only [Except.ok.injEq] at hr
      simp [control, hcleaning (by simp) m hm, hr]
  | fileAccept =>
      refine onFileMessage_cases (a := .handleFileAccept sessionId payload token)
        (by simp) (by simp) ?_ h
      intro m r hm hr
      simp [control, hcleaning (by simp) m hm, hr, Except.toOption]
  | fileReject =>
      refine onFileMessage_cases (a := .handleFileReject payload) (by simp) (by simp) ?_ h
      intro m r hm hr
      simp [control, hcleaning (by simp) m hm, hr, Except.toOption]
  | fileComplete =>
      refine onFileMessage_cases (a := .handleFileComplete sessionId payload)
        (by simp) (by simp) ?_ h
      intro m r hm hr
      simp [control, hcleaning (by simp) m hm, hr, Except.toOption]
  | fileCancel =>
      refine onFileMessage_cases (a := .handleFileCancel payload) (by simp) (by simp) ?_ h
      intro m r hm hr
      simp [control, hcleaning (by simp) m hm, hr, Except.toOption]
  | startCamera | startScreen | stopScreen =>
      simp only [Except.ok.injEq, Prod.mk.injEq] at h
      obtain ⟨rfl, rfl⟩ := h
      exact .post (by simp)
  | ping =>
      simp only [Except.ok.injEq, Prod.mk.injEq] at h
      obtain ⟨rfl, rfl⟩ := h
      exact .quiet (by simp) (Or.inr rfl)
  | _ =>
      simp only [Except.ok.injEq, Prod.mk.injEq] at h
      obtain ⟨rfl, rfl⟩ := h
      exact .quiet (by simp) (Or.inl rfl)

omit [DecidableEq κ] in
/-- The callback changes the saved device only. -/
theorem onPaired_eq (app : Application κ H) (devices : List PairedDevice) :
    ∃ settings, app.onPaired devices = { app with settings := settings } ∧
      settings.flipHorizontal = app.settings.flipHorizontal := by
  unfold onPaired
  split
  · induction devices generalizing app with
    | nil => exact ⟨app.settings, rfl, rfl⟩
    | cons device rest ih =>
        rw [List.foldl_cons]
        exact ih _ ‹_›
  · exact ⟨app.settings, rfl, rfl⟩

omit [DecidableEq κ] in
/-- What a pairing request changes, with events of no other component. -/
theorem onPairRequest_frame {app app' : Application κ H} {es : List (AppEvent κ)}
    {sessionId : UInt64} {payload : Json}
    (h : app.onPairRequest kx sessionId payload = .ok (app', es)) :
    (∃ settings pairing, app' = { app with settings := settings, pairing := pairing } ∧
      settings.flipHorizontal = app.settings.flipHorizontal) ∧
    ∀ e ∈ es, transferOf e = none ∧ serverOf e = none := by
  simp only [onPairRequest, bind_eq_ok, mapError_eq_ok] at h
  obtain ⟨pin, -, pk, -, deviceId, -, deviceName, -, h⟩ := h
  cases hp : app.pairing with
  | none => simp [hp] at h
  | some p =>
      simp only [hp, bind_eq_ok, mapError_eq_ok, pure, Except.pure, Except.ok.injEq,
        Prod.mk.injEq] at h
      obtain ⟨ok, -, rfl, rfl⟩ := h
      obtain ⟨settings, hset, hflip⟩ :=
        app.onPaired_eq (p.handlePairRequest kx pin pk deviceId deviceName).onPaired
      refine ⟨⟨settings, _, by rw [hset], hflip⟩, ?_⟩
      intro e he
      simp only [List.cons_append, List.mem_cons, List.mem_append, List.mem_map,
        List.not_mem_nil, or_false] at he
      rcases he with rfl | ⟨device, -, rfl⟩ | rfl <;> exact ⟨rfl, rfl⟩

/-- A pairing request that does not throw is one step of the pairing manager. -/
theorem onPairRequest_effects {app app' : Application κ H} {es : List (AppEvent κ)}
    {sessionId : UInt64} {cause : Option (UInt64 × MsgType)} {payload : Json}
    (hI : InitInv app) (h : app.onPairRequest kx sessionId payload = .ok (app', es)) :
    Effects kx P cause app app' es := by
  have hquiet := (onPairRequest_frame h).2
  simp only [onPairRequest, bind_eq_ok, mapError_eq_ok] at h
  obtain ⟨pin, -, pk, -, deviceId, -, deviceName, -, h⟩ := h
  cases hp : app.pairing with
  | none => simp [hp] at h
  | some p =>
      simp only [hp, bind_eq_ok, mapError_eq_ok, pure, Except.pure, Except.ok.injEq,
        Prod.mk.injEq] at h
      obtain ⟨ok, hok, rfl, rfl⟩ := h
      obtain ⟨settings, hset, -⟩ :=
        app.onPaired_eq (p.handlePairRequest kx pin pk deviceId deviceName).onPaired
      rw [hset]
      have hmove : pairingStep kx p (.handlePairRequest pin pk deviceId deviceName) =
          some ((p.handlePairRequest kx pin pk deviceId deviceName).state,
            [requestEvent pin (.ok ok)]) := by
        simp [pairingStep, hok]
      refine .pair (hI.frame rfl (by simp [hp]) id) rfl
        (.move (a := .handlePairRequest pin pk deviceId deviceName) hp rfl ?_ ?_) rfl hquiet
      · rw [hmove]
        simp [pairingsOf, pairingOf, List.filterMap_map, Function.comp_def]
      · intro d
        rcases PairingManager.handlePairRequest_cases kx p pin pk deviceId deviceName with
          ⟨-, -, device, hid, -, heq⟩ | ⟨-, r, -, heq⟩
        · rw [heq]
          have hdev := PairingManager.isPaired_insert p device deviceId "" d
          simpa [pairedDevices, hid, List.filterMap_cons, -List.mem_filterMap] using hdev
        · rw [heq]
          simp [pairedDevices]

/-- `hello` sets the current session, if there is a manager. -/
theorem onDeviceConnected_effects {app : Application κ H} {es : List (AppEvent κ)}
    {cause : Option (UInt64 × MsgType)} (hI : InitInv app) (sessionId : UInt64)
    (hes : ∀ e ∈ es, e.isQuiet = true) :
    Effects kx P cause app (app.onDeviceConnected sessionId) es where
  inv := hI.frame rfl id (by simp +contextual [onDeviceConnected])
  sameServer := rfl
  noServer := serversOf_quiet hes
  pairing := .same rfl (parts_quiet hes).2.1 (parts_quiet hes).2.2
  transfers := by
    have ht := (parts_quiet hes).1
    cases hm : app.fileManager with
    | none => exact .same (by simp [world, onDeviceConnected, hm]) ht
    | some m =>
        refine .move (.control (.setCurrentSession sessionId)) ?_
        simp [transferStep, control, world, onDeviceConnected, hm, ht]
  caused := fun c e he => by cases hes _ he

/-- A message that is handled to its end: the pairing manager and the file
transfers take at most one step of their own, and only a file message moves the
latter. -/
theorem messageStep_effects {app app' : Application κ H} {es : List (AppEvent κ)}
    {sessionId : UInt64} {msg : ControlMessage} (hI : InitInv app)
    (h : MessageStep kx P app sessionId msg app' es) :
    Effects kx P (some (sessionId, msg.type)) app app' es := by
  cases h with
  | hello => exact onDeviceConnected_effects hI sessionId (by simp [AppEvent.isQuiet])
  | pairRequest _ hpair => exact onPairRequest_effects hI hpair
  | @file a m r _ _ hm hcall =>
      have hinv : InitInv { app with fileManager := some r.1 } :=
        hI.frame rfl id (by simp [hm])
      refine .transfer (a := .control a) hinv rfl rfl ?_
      simp [transferStep, world, hm, hcall]
  | post => exact .quiet (hI.frame rfl id id) rfl rfl rfl (by simp)
  | quiet _ hes =>
      refine .quiet hI rfl rfl rfl ?_
      rcases hes with rfl | rfl <;> simp [AppEvent.isQuiet]

end Application

/-! ### All steps -/

/-- The session and the type of the message a label handles. -/
def AppAction.cause {κ : Type} {H : IncrementalHash} (parse : Bytes → Option Json)
    (app : Application κ H) : AppAction κ → Option (UInt64 × MsgType)
  | .message n raw _ =>
      app.server.accepted[n]?.map fun session =>
        (session.1, (parseMessage parse raw).type)
  | _ => none

namespace Application

theorem transferMove_cases {app app' : Application κ H} {a : TransferAction κ}
    {es : List (AppEvent κ)} (h : app.transferMove P a = some (app', es)) :
    ∃ m w tes, app.fileManager = some m ∧ transferStep P H app.world a = some (w, tes) ∧
      app' = app.setWorld w ∧ es = tes.map fun e => .transfer none e := by
  unfold transferMove at h
  split at h
  · cases h
  · rename_i m hm
    split at h
    · cases h
    · rename_i w tes hstep
      cases h
      exact ⟨m, w, tes, hm, hstep, rfl, rfl⟩

/-- The steps of `init` neither call the server nor throw. -/
theorem initStep_frame {app app' : Application κ H} {kp : KeyPair} {ok : Bool}
    {es : List (AppEvent κ)} (h : app.initStep P kp ok = some (app', es)) :
    app'.server = app.server ∧ app'.ended = app.ended ∧ ∀ e ∈ es, serverOf e = none := by
  simp only [initStep] at h
  (repeat' split at h) <;> try cases h <;> exact ⟨rfl, rfl, by simp [serverOf]⟩
  · obtain ⟨m, w, tes, hm, hstep, rfl, rfl⟩ := transferMove_cases h
    exact ⟨rfl, rfl, by simp [serverOf]⟩

/-- All the ways in which the program moves. -/
inductive AppStep (parse : Bytes → Option Json) (kx : KxServer) (P : Platform κ)
    (app : Application κ H) :
    AppAction κ → Application κ H → List (AppEvent κ) → Prop
  | init {kp : KeyPair} {ok : Bool} {app' : Application κ H} {es : List (AppEvent κ)}
      (hinit : app.initStep P kp ok = some (app', es)) :
      AppStep parse kx P app (.init kp ok) app' es
  | connect (hfree : app.ioFree = true) :
      AppStep parse kx P app .connect { app with server := app.server.accept } []
  | handshake {n : Nat} {ok : Bool} {sessionId : UInt64} (hfree : app.ioFree = true)
      (hn : app.server.accepted[n]? = some (sessionId, .handshake)) :
      AppStep parse kx P app (.handshake n ok)
        { app with
          server := app.server.setLink n sessionId (if ok then .reading else .refused) } []
  | disconnect {n : Nat} {sessionId : UInt64} (hfree : app.ioFree = true)
      (hn : app.server.accepted[n]? = some (sessionId, .reading)) :
      AppStep parse kx P app (.disconnect n)
        (onDeviceDisconnected
          { app with
            server := (app.server.setLink n sessionId .ended).removeSession sessionId }
          sessionId)
        [.server (.disconnected n sessionId)]
  | message {n : Nat} {raw : Bytes} {token : ByteBlock kTokenSize} {sessionId : UInt64}
      {app' : Application κ H} {es : List (AppEvent κ)}
      (hn : app.server.accepted[n]? = some (sessionId, .reading))
      (hmove : MessageStep kx P app sessionId (parseMessage parse raw) app' es) :
      AppStep parse kx P app (.message n raw token) app'
        (.received n sessionId (parseMessage parse raw) :: es)
  | throws {n : Nat} {raw : Bytes} {token : ByteBlock kTokenSize} {sessionId : UInt64}
      {f : Fault} (hn : app.server.accepted[n]? = some (sessionId, .reading))
      (hmsg : app.handleMessage parse kx P sessionId raw token = .error f) :
      AppStep parse kx P app (.message n raw token) { app with ended := some f }
        [.received n sessionId (parseMessage parse raw), .ended f]
  | createOffer {pcIp : String} {drawn : Fin 1000000} {p : PairingManager}
      (hready : app.stage = .ready) (hp : app.pairing = some p) :
      AppStep parse kx P app (.createOffer pcIp drawn)
        { app with pairing := some (p.createOffer pcIp drawn) }
        [.pairing (.offered (PairingManager.generatePin drawn))]
  | toggleFlip {flip : Bool} (hready : app.stage = .ready) :
      AppStep parse kx P app (.toggleFlip flip)
        (applyFlip { app with tray := app.tray.map fun _ => flip } flip).1
        (applyFlip { app with tray := app.tray.map fun _ => flip } flip).2
  | runTask {task : UiTask} {rest : List UiTask} (hready : app.stage = .ready)
      (htasks : app.tasks = task :: rest) :
      AppStep parse kx P app .runTask (Application.runTask { app with tasks := rest } task).1
        (Application.runTask { app with tasks := rest } task).2
  | transfers {a : TransferAction κ} {m : FileTransferManager} {w : World κ H}
      {tes : List (TransferEvent κ)} (hcan : app.canAct a = true)
      (hm : app.fileManager = some m)
      (hstep : transferStep P H app.world a = some (w, tes)) :
      AppStep parse kx P app (.transfers a) (app.setWorld w)
        (tes.map fun e => .transfer none e)

/-- **Inversion.**  Every step of the program is one of these. -/
theorem appStep_cases {parse : Bytes → Option Json} {app app' : Application κ H}
    {a : AppAction κ} {es : List (AppEvent κ)}
    (h : appStep parse kx P app a = some (app', es)) : AppStep parse kx P app a app' es := by
  cases a with
  | init kp ok => exact .init h
  | connect =>
      simp only [appStep, networkStep, serverStep] at h
      split at h <;> cases h
      exact .connect ‹_›
  | handshake n ok =>
      simp only [appStep, networkStep, serverStep] at h
      split at h
      · split at h
        · rename_i hserver
          split at hserver <;> cases hserver
          cases h
          exact .handshake ‹_› ‹_›
        · cases h
      · cases h
  | disconnect n =>
      simp only [appStep, networkStep, serverStep] at h
      split at h
      · split at h
        · rename_i hserver
          split at hserver <;> cases hserver
          cases h
          exact .disconnect ‹_› ‹_›
        · cases h
      · cases h
  | message n raw token =>
      simp only [appStep] at h
      split at h
      · rename_i sessionId hn
        split at h
        · rename_i hcan
          split at h
          · rename_i hmsg
            cases h
            exact .message hn (handleMessage_cases hcan hmsg)
          · rename_i hmsg
            cases h
            exact .throws hn hmsg
        · cases h
      · cases h
  | createOffer pcIp drawn =>
      simp only [appStep] at h
      split at h <;> cases h
      exact .createOffer ‹_› ‹_›
  | toggleFlip flip =>
      simp only [appStep] at h
      split at h <;> cases h
      exact .toggleFlip ‹_›
  | runTask =>
      simp only [appStep] at h
      split at h
      · rename_i task rest hready htasks
        cases task <;> cases h <;> exact .runTask hready htasks
      · cases h
  | transfers a =>
      simp only [appStep] at h
      split at h
      · obtain ⟨m, w, tes, hm, hstep, rfl, rfl⟩ := transferMove_cases h
        exact .transfers ‹_› hm hstep
      · cases h

/-- What the callback of a disconnection does to the file transfers. -/
theorem onDeviceDisconnected_transfers (app : Application κ H) (sessionId : UInt64) :
    TransferMove P app (app.onDeviceDisconnected sessionId) [] := by
  cases hm : app.fileManager with
  | none => exact .same (by simp [world, onDeviceDisconnected, hm]) rfl
  | some m =>
      by_cases hcur : m.currentSessionId = sessionId
      · refine .move (.control (.setCurrentSession 0)) ?_
        simp [transferStep, control, world, onDeviceDisconnected, hm, hcur, transfersOf]
      · exact .same (by simp [world, onDeviceDisconnected, hm, hcur]) rfl

theorem initStep_effects {app app' : Application κ H} {kp : KeyPair} {ok : Bool}
    {es : List (AppEvent κ)} (hI : InitInv app)
    (h : app.initStep P kp ok = some (app', es)) : Effects kx P none app app' es := by
  unfold initStep at h
  split at h
  · -- the pairing manager is constructed
    rename_i hstage
    cases h
    refine .pair { pairing := by simp, fileManager := fun _ => ?_ } rfl
      (.construct (hI.pairing hstage) rfl rfl rfl) rfl (by simp)
    exact hI.fileManager (by simp [hstage, InitStage.beforeFileManager])
  · rename_i hstage
    cases h
    refine .quiet { pairing := by simp, fileManager := fun _ => ?_ } rfl rfl rfl (by simp)
    exact hI.fileManager (by simp [hstage, InitStage.beforeFileManager])
  · rename_i hstage
    have hnone := hI.fileManager (by simp [hstage, InitStage.beforeFileManager])
    simp only at h
    split at h
    · cases h
      exact .quiet { pairing := by simp, fileManager := fun _ => hnone } rfl rfl rfl (by simp)
    · rename_i p hp
      split at h
      · cases h
        exact .quiet { pairing := by simp, fileManager := fun _ => hnone } rfl rfl rfl (by simp)
      · -- the saved device is restored
        cases h
        refine .pair { pairing := by simp, fileManager := fun _ => hnone } rfl
          (.move (a := .restoreDevice app.settings.pairedDeviceId
            app.settings.pairedDeviceName) hp rfl rfl ?_) rfl (by simp [transferOf, serverOf])
        intro d
        have hdev := PairingManager.isPaired_insert p
          { deviceId := app.settings.pairedDeviceId
            deviceName := app.settings.pairedDeviceName
            peerPubKey := none, sharedSecret := none }
          app.settings.pairedDeviceId p.activePin d
        simpa [pairedDevices, pairedOf, PairingManager.restoreDevice, List.filterMap_cons,
          -List.mem_filterMap] using hdev
  · rename_i flip hstage
    cases h
    refine .quiet { pairing := by simp, fileManager := fun _ => ?_ } rfl rfl rfl (by simp)
    exact hI.fileManager (by simp [hstage, InitStage.beforeFileManager])
  · rename_i flip hstage
    cases h
    refine .quiet { pairing := by simp, fileManager := fun _ => ?_ } rfl rfl rfl (by simp)
    exact hI.fileManager (by simp [hstage, InitStage.beforeFileManager])
  · rename_i flip hstage
    cases h
    refine .quiet { pairing := by simp, fileManager := fun _ => ?_ } rfl rfl rfl (by simp)
    exact hI.fileManager (by simp [hstage, InitStage.beforeFileManager])
  · rename_i flip hstage
    cases h
    refine .quiet { pairing := by simp, fileManager := fun _ => ?_ } rfl rfl rfl (by simp)
    exact hI.fileManager (by simp [hstage, InitStage.beforeFileManager])
  · -- an empty file manager: the file transfers start here
    rename_i flip hstage
    have hnone := hI.fileManager (by simp [hstage, InitStage.beforeFileManager])
    cases h
    exact .quiet { pairing := by simp, fileManager := by simp [InitStage.beforeFileManager] }
      rfl rfl (by simp [world, hnone]) (by simp)
  · rename_i flip hstage
    obtain ⟨m, w, tes, hm, hstep, rfl, rfl⟩ := transferMove_cases h
    refine .transfer (a := .control (.start ok)) ?_ rfl rfl hstep
    exact { pairing := by simp [setWorld]
            fileManager := by simp [setWorld, InitStage.beforeFileManager] }
  · rename_i flip hstage
    cases h
    exact .quiet { pairing := by simp, fileManager := by simp [InitStage.beforeFileManager] }
      rfl rfl rfl (by simp)
  · cases h

end Application

open Application in
/-- **One step.**  Every step of the program keeps what `init` has not built
null, and moves the pairing manager and the file transfers by at most one step
of their own. -/
theorem appStep_effects {parse : Bytes → Option Json} {app app' : Application κ H}
    {a : AppAction κ} {es : List (AppEvent κ)} (hI : InitInv app)
    (h : appStep parse kx P app a = some (app', es)) :
    StepEffects kx P (a.cause parse app) app app' es := by
  -- a handler of the server that tells nothing
  have hserver : ∀ (b : ServerAction) (srv : WsServer),
      serverStep app.server b = some (srv, []) →
        StepEffects kx P none app { app with server := srv } [] := fun b srv hb =>
    { inv := hI.frame rfl id id
      server := .move b hb
      pairing := .same rfl rfl rfl
      transfers := .same rfl rfl
      caused := by simp }
  cases appStep_cases h with
  | init hinit => exact (initStep_effects hI hinit).step
  | connect => exact hserver .accept _ rfl
  | @handshake n ok sessionId _ hn =>
      exact hserver (.handshake n ok) _ (by simp [serverStep, hn])
  | @disconnect n sessionId _ hn =>
      refine
        { inv := hI.frame rfl id (by simp +contextual [onDeviceDisconnected])
          server := .move (.read n false) (by
            simp [serverStep, hn, serversOf, serverOf, onDeviceDisconnected])
          pairing := .same rfl rfl rfl
          transfers := ?_
          caused := by simp }
      have hmove := onDeviceDisconnected_transfers (P := P)
        { app with
          server := (app.server.setLink n sessionId .ended).removeSession sessionId }
        sessionId
      cases hmove with
      | same hsame _ => exact .same hsame rfl
      | move b hmove => exact .move b hmove
  | @message n raw token sessionId _ _ hn hmove =>
      simp only [AppAction.cause, hn, Option.map_some]
      exact (messageStep_effects hI hmove).received hn _
  | @throws n raw token sessionId f hn =>
      refine Effects.received ?_ hn _
      exact .quiet (hI.frame rfl id id) rfl rfl rfl (by simp [AppEvent.isQuiet])
  | createOffer _ hp =>
      refine Effects.step (.pair (hI.frame rfl (by simp [hp]) id) rfl
        (.move (a := .createOffer _ _) hp rfl rfl ?_) rfl (by simp [transferOf, serverOf]))
      intro d
      simp [pairedDevices, pairedOf, PairingManager.isPaired, PairingManager.createOffer]
  | toggleFlip =>
      refine Effects.step ?_
      exact .quiet (hI.frame rfl id id) rfl rfl rfl (by simp [applyFlip, AppEvent.isQuiet])
  | @runTask task =>
      refine Effects.step ?_
      cases task <;>
        exact .quiet (hI.frame rfl id id) rfl rfl rfl
          (by simp [Application.runTask, applyFlip, AppEvent.isQuiet])
  | transfers _ hm hstep =>
      refine Effects.step ?_
      exact .transfer (hI.frame rfl id (by simp [hm])) rfl rfl hstep

/-! ## Runs -/

section Runs

variable {parse : Bytes → Option Json}

omit [DecidableEq κ] in
theorem initInv_init {app : Application κ H} (h : AppInit app) : InitInv app := by
  obtain ⟨-, -, settings, fs, rfl⟩ := h
  exact { pairing := fun _ => rfl, fileManager := fun _ => rfl }

/-- A step of the program is a step of one that still runs. -/
theorem appMachine_step {app app' : Application κ H} {a : AppAction κ}
    {es : List (AppEvent κ)}
    (h : (appMachine parse kx P H).step app a = some (app', es)) :
    app.ended = none ∧ appStep parse kx P app a = some (app', es) := by
  simp only [appMachine] at h
  split at h
  · cases h
  · rename_i hrun
    exact ⟨by simpa using hrun, h⟩

theorem initInv_reach {ok : Machine.StepCond (Application κ H) (AppAction κ) (AppEvent κ)}
    {app : Application κ H} {h : List (AppEvent κ)}
    (hr : (appMachine parse kx P H).Reach ok app h) : InitInv app := by
  refine Machine.Reach.invariant (fun app _ => InitInv app) ?_ ?_ hr
  · intro app hinit
    exact initInv_init hinit
  · intro app h a app' es hI _ hstep
    exact (appStep_effects hI (appMachine_step hstep).2).inv

/-- The file transfers of a run of the program are a run of their own. -/
theorem transfers_reach {ok : Machine.StepCond (Application κ H) (AppAction κ) (AppEvent κ)}
    {app : Application κ H} {h : List (AppEvent κ)}
    (hr : (appMachine parse kx P H).Reach ok app h) :
    (transferMachine P H).Reach Machine.anyStep app.world (transfersOf h) := by
  refine hr.invariant_along
    (fun app h => (transferMachine P H).Reach Machine.anyStep app.world (transfersOf h)) ?_ ?_
  · rintro app ⟨hwf, hhandles, settings, fs, rfl⟩
    exact .init ⟨hwf, hhandles, rfl, rfl⟩
  · intro app h a app' es hr hreach _ hstep
    have he := appStep_effects (initInv_reach hr) (appMachine_step hstep).2
    rw [transfersOf_append]
    cases he.transfers with
    | same hsame hes => rwa [hsame, hes, List.append_nil]
    | move b hmove => exact .step hreach trivial hmove

/-- The connections of a run of the program are a run of the server. -/
theorem server_reach {ok : Machine.StepCond (Application κ H) (AppAction κ) (AppEvent κ)}
    {app : Application κ H} {h : List (AppEvent κ)}
    (hr : (appMachine parse kx P H).Reach ok app h) :
    serverMachine.Reach Machine.anyStep app.server (serversOf h) := by
  refine hr.invariant_along
    (fun app h => serverMachine.Reach Machine.anyStep app.server (serversOf h)) ?_ ?_
  · rintro app ⟨-, -, settings, fs, rfl⟩
    exact .init rfl
  · intro app h a app' es hr hreach _ hstep
    have he := appStep_effects (initInv_reach hr) (appMachine_step hstep).2
    rw [serversOf_append]
    cases he.server with
    | same hsame hes => rwa [hsame, hes, List.append_nil]
    | move b hmove => exact .step hreach trivial hmove

/-- What a run of the program says about its pairing manager: it is in a run
of its own, and its devices are those the history pairs. -/
structure PairingInv (kx : KxServer) (app : Application κ H) (h : List (AppEvent κ)) :
    Prop where
  none : app.pairing = none → pairingsOf h = [] ∧ pairedDevices h = []
  reach : ∀ p, app.pairing = some p →
    (pairingMachine kx).Reach Machine.anyStep p (pairingsOf h)
  paired : ∀ p, app.pairing = some p → ∀ d, p.isPaired d = true ↔ d ∈ pairedDevices h

omit [DecidableEq κ] in
theorem PairingMove.inv {app app' : Application κ H} {h es : List (AppEvent κ)}
    (hmove : PairingMove kx app app' es) (hI : PairingInv kx app h) :
    PairingInv kx app' (h ++ es) := by
  cases hmove with
  | same hsame hes hdev =>
      refine { none := fun hn => ?_, reach := fun p hp => ?_, paired := fun p hp d => ?_ }
      · simpa [hes, hdev] using hI.none (hsame ▸ hn)
      · simpa [hes] using hI.reach p (hsame ▸ hp)
      · simpa [hdev] using hI.paired p (hsame ▸ hp) d
  | @construct kp hnone hnew hes hdev =>
      obtain ⟨hpairings, hdevices⟩ := hI.none hnone
      refine { none := fun hn => ?_, reach := fun p hp => ?_, paired := fun p hp d => ?_ }
      · simp [hnew] at hn
      · rw [hnew, Option.some.injEq] at hp
        subst hp
        rw [pairingsOf_append, hpairings, hes]
        exact .init ⟨_, _, rfl⟩
      · rw [hnew, Option.some.injEq] at hp
        subst hp
        simp [hdevices, hdev]
  | @move p p' a hold hnew hmove hdev =>
      refine { none := fun hn => ?_, reach := fun q hq => ?_, paired := fun q hq d => ?_ }
      · simp [hnew] at hn
      · rw [hnew, Option.some.injEq] at hq
        subst hq
        rw [pairingsOf_append]
        exact .step (hI.reach p hold) trivial hmove
      · rw [hnew, Option.some.injEq] at hq
        subst hq
        rw [hdev d, hI.paired p hold d, pairedDevices_append, List.mem_append]

/-- The pairings of a run of the program are a run of the pairing manager, and
the devices paired are those of its history. -/
theorem pairing_reach {ok : Machine.StepCond (Application κ H) (AppAction κ) (AppEvent κ)}
    {app : Application κ H} {h : List (AppEvent κ)}
    (hr : (appMachine parse kx P H).Reach ok app h) : PairingInv kx app h := by
  refine hr.invariant_along (fun app h => PairingInv kx app h) ?_ ?_
  · rintro app ⟨-, -, settings, fs, rfl⟩
    exact { none := fun _ => ⟨rfl, rfl⟩, reach := by simp, paired := by simp }
  · intro app h a app' es hr hpair _ hstep
    have he := appStep_effects (initInv_reach hr) (appMachine_step hstep).2
    exact he.pairing.inv hpair

end Runs

end Effects

/-! ## A sample program -/

/-- The bytes of an ASCII text. -/
def ascii (s : String) : Bytes := s.toList.map fun c => UInt8.ofNat c.toNat

/-- A parser that knows the given texts. -/
def parseTable (table : List (String × Json)) (raw : Bytes) : Option Json :=
  (table.find? fun entry => ascii entry.1 = raw).map (·.2)

/-- The program when its server has just started, with no device saved and no
file. -/
def sampleProgram : Application String sha256 where
  settings := { pairedDeviceId := "", pairedDeviceName := "", flipHorizontal := true }
  fs := (worldWith []).fs

theorem sampleProgram_init : AppInit sampleProgram :=
  ⟨(worldWith_init []).1, rfl, _, _, rfl⟩

/-- All steps of `Application::init`. -/
def initActions : List (AppAction String) := List.replicate 10 (.init sampleKeyPair true)

end Iriseus.Core
