import Iriseus.Core.Replies
import Iriseus.Verified.Secrecy

/-!
# The PIN stays secret

The PIN of an offer is drawn at random and shown in a dialog.  A pairing request is
told whether it has guessed it.  The program keeps the PIN in `m_activePin` and in
`m_currentOffer`; nothing else that it does may depend on it: not the other messages
on any session, not the settings, not the files, not what it does next.  (The debug log
prints the PIN; it is not part of the model.)

## Main results

* `pin_stays_secret` — two runs in which other PINs are drawn and the same verdicts are
  given do the same.
-/

namespace Iriseus.Core

open Iriseus.Verified
open Iriseus.Verified.ByteStream
open Iriseus.Verified.Machine

variable {κ : Type} {H : IncrementalHash}

/-! ## What is not secret -/

def PairingManager.hidePin (p : PairingManager) : PairingManager :=
  { p with activePin := "", currentOffer := { p.currentOffer with pin := "" } }

/-- The program without its PINs. -/
def Application.hidePin (app : Application κ H) : Application κ H :=
  { app with pairing := app.pairing.map (·.hidePin) }

/-- An event without the PIN that the dialog shows. -/
def AppEvent.hidePin : AppEvent κ → AppEvent κ
  | .pairing (.offered _) => .pairing (.offered "")
  | e => e

/-- The same steps, except that other PINs may be drawn. -/
inductive SameButPin : AppAction κ → AppAction κ → Prop
  | same (a : AppAction κ) : SameButPin a a
  | createOffer (pcIp : String) (drawn drawn' : Fin 1000000) :
      SameButPin (.createOffer pcIp drawn) (.createOffer pcIp drawn')

variable (κ H) in
/-- Somebody who sees all but the PINs, and is told the verdicts. -/
def pinObserver : Observer (Application κ H) (AppAction κ) (AppEvent κ) (Application κ H)
    (AppEvent κ) Bool where
  view := Application.hidePin
  see := AppEvent.hidePin
  tell := verdictOf
  same := SameButPin

/-! ## A pairing request -/

namespace PairingManager

variable {p q : PairingManager}

theorem hidePin_eq_iff : p.hidePin = q.hidePin ↔ p.wsPort = q.wsPort ∧ p.devices = q.devices ∧
    p.activeKeyPair = q.activeKeyPair ∧
      { p.currentOffer with pin := "" } = { q.currentOffer with pin := "" } := by
  simp [hidePin]

/-- One that has guessed the PIN in both runs ends in the same way. -/
theorem handlePairRequest_hidePin (kx : KxServer) (hview : p.hidePin = q.hidePin)
    {pin : String} (hp : pin = p.activePin) (hq : pin = q.activePin)
    (pk deviceId deviceName : String) :
    (p.handlePairRequest kx pin pk deviceId deviceName).state.hidePin =
        (q.handlePairRequest kx pin pk deviceId deviceName).state.hidePin ∧
      (p.handlePairRequest kx pin pk deviceId deviceName).result =
        (q.handlePairRequest kx pin pk deviceId deviceName).result ∧
      (p.handlePairRequest kx pin pk deviceId deviceName).onPaired =
        (q.handlePairRequest kx pin pk deviceId deviceName).onPaired := by
  obtain ⟨hport, hdevices, hkey, hoffer⟩ := hidePin_eq_iff.mp hview
  unfold handlePairRequest
  simp only [← hp, ← hq, ne_eq, not_true_eq_false, if_false, ← hkey]
  cases PairingCrypto.fromBase64 pk with
  | error e => exact ⟨hview, rfl, rfl⟩
  | ok peerPubVec =>
      dsimp only
      split
      · cases PairingCrypto.deriveShared kx p.activeKeyPair ⟨peerPubVec, ‹_›⟩ with
        | error e => exact ⟨hview, rfl, rfl⟩
        | ok secret =>
            refine ⟨?_, rfl, rfl⟩
            rw [hidePin_eq_iff]
            exact ⟨hport, by rw [hdevices], rfl, hoffer⟩
      · exact ⟨hview, rfl, rfl⟩

/-- A wrong guess is refused and changes nothing. -/
theorem handlePairRequest_wrong (kx : KxServer) {pin : String} (hp : ¬pin = p.activePin)
    (pk deviceId deviceName : String) :
    p.handlePairRequest kx pin pk deviceId deviceName = ⟨p, .ok false, []⟩ := by
  simp [handlePairRequest, hp]

/-- A request is refused in the same way as a wrong guess, or it is told. -/
theorem handlePairRequest_told (kx : KxServer) (p : PairingManager)
    (pin pk deviceId deviceName : String) :
    p.handlePairRequest kx pin pk deviceId deviceName = ⟨p, .ok false, []⟩ ∨
      (p.handlePairRequest kx pin pk deviceId deviceName).result.toOption.toList ≠ [false] := by
  rcases handlePairRequest_cases kx p pin pk deviceId deviceName with
    ⟨-, -, device, -, -, heq⟩ | ⟨-, r, -, heq⟩
  · rw [heq]
    exact Or.inr (by simp [Except.toOption])
  · rw [heq]
    cases r with
    | error e => exact Or.inr (by simp [Except.toOption])
    | ok ok =>
        cases ok with
        | false => exact Or.inl rfl
        | true => exact Or.inr (by simp [Except.toOption])

end PairingManager

/-! ## Handlers -/

namespace Application

/-- What a handler leaves, without the PINs. -/
def hideHandled (r : Handled κ H) : Handled κ H := r.map fun r => (r.1.hidePin, r.2)

variable (app : Application κ H)

@[simp] theorem hidePin_hidePin : app.hidePin.hidePin = app.hidePin := by
  simp only [hidePin, Option.map_map]
  rfl

@[simp] theorem getPcPublicKey_hidePin : app.hidePin.getPcPublicKey = app.getPcPublicKey := by
  unfold getPcPublicKey hidePin
  cases app.pairing <;> rfl

theorem onFileMessage_hidePin (sessionId : UInt64) (type : MsgType)
    (handler : FileTransferManager →
      Except JsonError (FileTransferManager × List (TransferEvent κ))) :
    app.hidePin.onFileMessage sessionId type handler =
      hideHandled (app.onFileMessage sessionId type handler) := by
  unfold onFileMessage
  have hsame : app.hidePin.fileManager = app.fileManager := rfl
  rw [hsame]
  cases app.fileManager with
  | none => rfl
  | some m =>
      dsimp only
      cases handler m with
      | error e => rfl
      | ok r => rfl

theorem onPaired_hidePin (devices : List PairedDevice) :
    app.hidePin.onPaired devices = (app.onPaired devices).hidePin := by
  have hfold : ∀ (devices : List PairedDevice) (app : Application κ H),
      devices.foldl saveDevice app.hidePin = (devices.foldl saveDevice app).hidePin := by
    intro devices
    induction devices with
    | nil => exact fun _ => rfl
    | cons device devices ih => exact fun app => ih (app.saveDevice device)
  unfold onPaired
  have hstage : app.hidePin.stage = app.stage := rfl
  rw [hstage]
  split
  · exact hfold devices app
  · rfl

/-- What is done with the outcome of a pairing request. -/
def answerPair (sessionId : UInt64) (pin : String) (out : PairingManager.PairRequestOutcome) :
    Handled κ H := do
  let ok ← out.result.mapError .crypto
  return ({ app.onPaired out.onPaired with pairing := some out.state },
    .pairing (requestEvent pin (.ok ok)) ::
      (out.onPaired.map fun device => .paired device.deviceId) ++
      [.send sessionId (if ok then .pairAccepted else .pairRejected)])

/-- The verdicts among the events of a handler. -/
def toldBy : Handled κ H → List Bool
  | .ok r => verdictsOf r.2
  | .error _ => []

theorem toldBy_answerPair (sessionId : UInt64) (pin : String)
    (out : PairingManager.PairRequestOutcome) :
    toldBy (app.answerPair sessionId pin out) = out.result.toOption.toList := by
  cases hresult : out.result with
  | error e => simp [answerPair, hresult, toldBy, bind, Except.bind, Except.mapError,
      Except.toOption]
  | ok ok =>
      simp only [answerPair, hresult, toldBy, bind, Except.bind, Except.mapError,
        Except.toOption, pure, Except.pure, verdictsOf]
      rw [filterMap_paired verdictOf fun _ => rfl]
      cases ok <;> rfl

variable {app} in
theorem hideHandled_answerPair {app' : Application κ H} (hview : app.hidePin = app'.hidePin)
    (sessionId : UInt64) (pin : String) {out out' : PairingManager.PairRequestOutcome}
    (hstate : out.state.hidePin = out'.state.hidePin) (hresult : out.result = out'.result)
    (hpaired : out.onPaired = out'.onPaired) :
    hideHandled (app.answerPair sessionId pin out) =
      hideHandled (app'.answerPair sessionId pin out') := by
  unfold answerPair
  rw [hresult, hpaired]
  cases out'.result with
  | error e => rfl
  | ok ok =>
      have happ : (app.onPaired out'.onPaired).hidePin = (app'.onPaired out'.onPaired).hidePin := by
        rw [← onPaired_hidePin, hview, onPaired_hidePin]
      have hboth := congrArg₂ (fun (app : Application κ H) (p : PairingManager) =>
        { app with pairing := some p }) happ hstate
      exact congrArg (fun app => Except.ok (app, _)) hboth

/-- A guess that is wrong in one run only tells the verdicts apart, unless the request
is refused all the same. -/
theorem answerPair_hidePin {app app' : Application κ H} (hview : app.hidePin = app'.hidePin)
    {p q : PairingManager} (hpq : p.hidePin = q.hidePin) (kx : KxServer) (sessionId : UInt64)
    (pin pk deviceId deviceName : String) :
    hideHandled (app.answerPair sessionId pin
        (p.handlePairRequest kx pin pk deviceId deviceName)) =
        hideHandled (app'.answerPair sessionId pin
          (q.handlePairRequest kx pin pk deviceId deviceName)) ∨
      toldBy (app.answerPair sessionId pin
          (p.handlePairRequest kx pin pk deviceId deviceName)) ≠
        toldBy (app'.answerPair sessionId pin
          (q.handlePairRequest kx pin pk deviceId deviceName)) := by
  rw [toldBy_answerPair, toldBy_answerPair]
  by_cases hp : pin = p.activePin <;> by_cases hq : pin = q.activePin
  · obtain ⟨hstate, hresult, hpaired⟩ :=
      PairingManager.handlePairRequest_hidePin kx hpq hp hq pk deviceId deviceName
    exact Or.inl (hideHandled_answerPair hview sessionId pin hstate hresult hpaired)
  · rw [PairingManager.handlePairRequest_wrong kx hq]
    rcases PairingManager.handlePairRequest_told kx p pin pk deviceId deviceName with
      heq | htold
    · rw [heq]
      exact Or.inl (hideHandled_answerPair hview sessionId pin hpq rfl rfl)
    · exact Or.inr htold
  · rw [PairingManager.handlePairRequest_wrong kx hp]
    rcases PairingManager.handlePairRequest_told kx q pin pk deviceId deviceName with
      heq | htold
    · rw [heq]
      exact Or.inl (hideHandled_answerPair hview sessionId pin hpq rfl rfl)
    · exact Or.inr (Ne.symm htold)
  · rw [PairingManager.handlePairRequest_wrong kx hp, PairingManager.handlePairRequest_wrong kx hq]
    exact Or.inl (hideHandled_answerPair hview sessionId pin hpq rfl rfl)

/-- What two runs make of the same request: the same, or they tell different verdicts. -/
theorem onPairRequest_hidePin {app app' : Application κ H} (hview : app.hidePin = app'.hidePin)
    (kx : KxServer) (sessionId : UInt64) (payload : Json) :
    hideHandled (app.onPairRequest kx sessionId payload) =
        hideHandled (app'.onPairRequest kx sessionId payload) ∨
      toldBy (app.onPairRequest kx sessionId payload) ≠
        toldBy (app'.onPairRequest kx sessionId payload) := by
  unfold onPairRequest
  cases payload.stringValue "pin" "" with
  | error e => exact Or.inl rfl
  | ok pin =>
  cases payload.stringValue "pk" "" with
  | error e => exact Or.inl rfl
  | ok pk =>
  cases payload.stringValue "deviceId" "" with
  | error e => exact Or.inl rfl
  | ok deviceId =>
  cases payload.stringValue "deviceName" "" with
  | error e => exact Or.inl rfl
  | ok deviceName =>
  have hpairing : app.pairing.map (·.hidePin) = app'.pairing.map (·.hidePin) :=
    congrArg Application.pairing hview
  cases hp : app.pairing with
  | none =>
      cases hq : app'.pairing with
      | none => exact Or.inl rfl
      | some q => simp [hp, hq] at hpairing
  | some p =>
      cases hq : app'.pairing with
      | none => simp [hp, hq] at hpairing
      | some q =>
          have hpq : p.hidePin = q.hidePin := by simpa [hp, hq] using hpairing
          exact answerPair_hidePin hview hpq kx sessionId pin pk deviceId deviceName

/-- A handler that does not throw tells one verdict. -/
theorem toldBy_ok {app app' : Application κ H} {es : List (AppEvent κ)} {kx : KxServer}
    {sessionId : UInt64} {payload : Json}
    (h : app.onPairRequest kx sessionId payload = .ok (app', es)) :
    ∃ accepted, verdictsOf es = [accepted] := by
  simp only [onPairRequest, bind_eq_ok, mapError_eq_ok] at h
  obtain ⟨pin, -, pk, -, deviceId, -, deviceName, -, h⟩ := h
  cases hp : app.pairing with
  | none => simp [hp] at h
  | some p =>
      simp only [hp, bind_eq_ok, mapError_eq_ok, pure, Except.pure, Except.ok.injEq,
        Prod.mk.injEq] at h
      obtain ⟨ok, -, -, rfl⟩ := h
      refine ⟨ok, ?_⟩
      rw [verdictsOf, filterMap_paired verdictOf fun _ => rfl]
      cases ok <;> rfl

/-- Only a pairing request looks at the PIN. -/
theorem handleMessage_hidePin (parse : Bytes → Option Json) (kx : KxServer)
    (P : Platform κ) (sessionId : UInt64) (raw : Bytes) (token : ByteBlock kTokenSize)
    (hpair : (parseMessage parse raw).type ≠ .pairRequest) :
    app.hidePin.handleMessage parse kx P sessionId raw token =
      hideHandled (app.handleMessage parse kx P sessionId raw token) := by
  unfold handleMessage
  dsimp only
  split
  case h_1 =>
    cases (parseMessage parse raw).payload.stringValue "deviceName" "Unknown" with
    | error e => rfl
    | ok name =>
        have hkey := getPcPublicKey_hidePin (app.onDeviceConnected sessionId)
        exact congrArg (fun pk => Except.ok (_, [AppEvent.send sessionId
          (.welcome pk (app.onDeviceConnected sessionId).getFlipHorizontal)])) hkey
  case h_6 =>
    cases (parseMessage parse raw).payload.boolValue "flip" true <;> rfl
  case h_8 htype => exact absurd htype hpair
  case h_9 | h_10 | h_11 | h_12 | h_13 => exact onFileMessage_hidePin app _ _ _
  all_goals rfl

section Steps

variable [DecidableEq κ] (P : Platform κ)

theorem transferMove_hidePin (a : TransferAction κ) :
    app.hidePin.transferMove P a =
      (app.transferMove P a).map fun r => (r.1.hidePin, r.2) := by
  unfold transferMove
  have hsame : app.hidePin.fileManager = app.fileManager := rfl
  have hworld : app.hidePin.world = app.world := rfl
  rw [hsame, hworld]
  cases app.fileManager with
  | none => rfl
  | some m => cases transferStep P H app.world a <;> rfl

theorem initStep_hidePin (kp : KeyPair) (ok : Bool) :
    app.hidePin.initStep P kp ok =
      (app.initStep P kp ok).map fun r => (r.1.hidePin, r.2) := by
  unfold initStep
  have hsame : app.hidePin.stage = app.stage := rfl
  rw [hsame]
  cases hstage : app.stage with
  | restoreDevice =>
      cases hpairing : app.pairing with
      | none => simp [hidePin, hpairing]
      | some p =>
          simp only [hidePin, hpairing, Option.map_some]
          split <;> rfl
  | startFileManager flip =>
      exact transferMove_hidePin { app with stage := .showTray flip } P (.control (.start ok))
  | _ => rfl

omit [DecidableEq κ] in
theorem foldl_onServerEvent_hidePin (es : List ServerEvent) :
    ∀ app : Application κ H,
      es.foldl onServerEvent app.hidePin = (es.foldl onServerEvent app).hidePin := by
  induction es with
  | nil => exact fun _ => rfl
  | cons e es ih =>
      intro app
      have hone : onServerEvent app.hidePin e = (onServerEvent app e).hidePin := by
        cases e <;> rfl
      rw [List.foldl_cons, List.foldl_cons, hone, ih]

omit [DecidableEq κ] in
theorem networkStep_hidePin (a : ServerAction) :
    app.hidePin.networkStep a =
      (app.networkStep a).map fun r => (r.1.hidePin, r.2) := by
  unfold networkStep
  have hfree : app.hidePin.ioFree = app.ioFree := rfl
  have hserver : app.hidePin.server = app.server := rfl
  rw [hfree, hserver]
  split
  · cases serverStep app.server a with
    | none => rfl
    | some r =>
        have hfold := foldl_onServerEvent_hidePin r.2 { app with server := r.1 }
        exact congrArg (fun app => some (app, r.2.map AppEvent.server)) hfold
  · rfl

end Steps

end Application

section Steps

variable [DecidableEq κ] {parse : Bytes → Option Json} {kx : KxServer} {P : Platform κ}
  {app app' s t : Application κ H} {es fs : List (AppEvent κ)}

/-- The step may depend on a PIN, or draw one. -/
def AppAction.asksPin (parse : Bytes → Option Json) : AppAction κ → Prop
  | .message _ raw _ => (parseMessage parse raw).type = .pairRequest
  | .createOffer _ _ => True
  | _ => False

/-- A step that does not ask for a PIN does the same whatever it is. -/
theorem appStep_hidePin (kx : KxServer) (P : Platform κ) (app : Application κ H)
    {a : AppAction κ} (ha : ¬a.asksPin parse) :
    appStep parse kx P app.hidePin a =
      (appStep parse kx P app a).map fun r => (r.1.hidePin, r.2) := by
  cases a with
  | init kp ok => exact app.initStep_hidePin P kp ok
  | connect => exact app.networkStep_hidePin .accept
  | handshake n ok => exact app.networkStep_hidePin (.handshake n ok)
  | disconnect n => exact app.networkStep_hidePin (.read n false)
  | createOffer pcIp drawn => exact absurd trivial ha
  | toggleFlip flip =>
      have hstage : app.hidePin.stage = app.stage := rfl
      simp only [appStep, hstage]
      split <;> rfl
  | runTask =>
      have hstage : app.hidePin.stage = app.stage := rfl
      have htasks : app.hidePin.tasks = app.tasks := rfl
      simp only [appStep, hstage, htasks]
      split
      · rename_i task rest _ _
        cases task <;> rfl
      · rfl
  | transfers a =>
      have hact : app.hidePin.canAct a = app.canAct a := rfl
      simp only [appStep, hact]
      split
      · exact app.transferMove_hidePin P a
      · rfl
  | message n raw token =>
      have hserver : app.hidePin.server = app.server := rfl
      have hcan : app.hidePin.canHandle = app.canHandle := rfl
      simp only [appStep, hserver, hcan]
      split
      · split
        · rename_i sessionId _ _
          rw [app.handleMessage_hidePin parse kx P sessionId raw token ha]
          cases app.handleMessage parse kx P sessionId raw token <;> rfl
        · rfl
      · rfl

/-! ## One step of both runs -/

/-- What a step leaves, without the PINs. -/
def hideStep (r : Application κ H × List (AppEvent κ)) :
    Application κ H × List (AppEvent κ) := (r.1.hidePin, r.2.map AppEvent.hidePin)

omit [DecidableEq κ] in
/-- Hiding the PIN hides no verdict. -/
theorem told_pinObserver (es : List (AppEvent κ)) :
    (pinObserver κ H).told es = verdictsOf es := by
  rw [Observer.told, verdictsOf, List.filterMap_map]
  congr 1
  funext e
  cases e with
  | pairing e' => cases e' <;> rfl
  | _ => rfl

/-- A program that an exception has ended tells nothing any more. -/
theorem told_ended {f : Fault} (hended : app.ended = some f) {as : List (AppAction κ)}
    (hrun : (appMachine parse kx P H).Run app as app' es) : es = [] := by
  cases hrun with
  | nil => rfl
  | cons hstep _ => exact absurd (appMachine_step hstep).1 (by simp [hended])

theorem toldApart_verdicts {a b : Bool} (hab : a ≠ b) (hes : verdictsOf es = [a])
    (hfs : verdictsOf fs = [b]) :
    (appMachine parse kx P H).ToldApart (pinObserver κ H) s t es fs := by
  intro _ _ _ _ es' fs' _ _ htold
  rw [told_pinObserver, told_pinObserver, verdictsOf_append, verdictsOf_append, hes, hfs] at htold
  exact hab (Option.some.inj htold)

/-- One run is told a verdict, in the other the handler has thrown. -/
theorem toldApart_ended {a : Bool} {f : Fault} (hes : verdictsOf es = [a])
    (hfs : verdictsOf fs = []) (hended : t.ended = some f) :
    (appMachine parse kx P H).ToldApart (pinObserver κ H) s t es fs := by
  intro _ _ _ _ es' fs' _ ht htold
  rw [told_ended hended ht, told_pinObserver, told_pinObserver, verdictsOf_append,
    List.append_nil, hes, hfs] at htold
  cases htold

theorem message_cases {n : Nat} {raw : Bytes} {token : ByteBlock kTokenSize}
    (hpair : (parseMessage parse raw).type = .pairRequest)
    (h : appStep parse kx P app (.message n raw token) = some (app', es)) :
    ∃ sessionId, app.server.accepted[n]? = some (sessionId, .reading) ∧
      ((∃ fs, app.onPairRequest kx sessionId (parseMessage parse raw).payload = .ok (app', fs) ∧
          es = .received n sessionId (parseMessage parse raw) :: fs) ∨
        ∃ f, app.onPairRequest kx sessionId (parseMessage parse raw).payload = .error f ∧
          app' = { app with ended := some f } ∧
          es = [.received n sessionId (parseMessage parse raw), .ended f]) := by
  have hhandle : ∀ sessionId, app.handleMessage parse kx P sessionId raw token =
      app.onPairRequest kx sessionId (parseMessage parse raw).payload := by
    intro sessionId
    simp only [Application.handleMessage, hpair]
  simp only [appStep, hhandle] at h
  split at h
  · rename_i sessionId hn
    split at h
    · split at h
      · rename_i hok
        cases h
        exact ⟨sessionId, hn, Or.inl ⟨_, hok, rfl⟩⟩
      · rename_i f herror
        cases h
        exact ⟨sessionId, hn, Or.inr ⟨f, herror, rfl, rfl⟩⟩
    · cases h
  · cases h

/-- A pairing request in both runs. -/
theorem message_hidePin (hview : app.hidePin = app'.hidePin) {n : Nat} {raw : Bytes}
    {token : ByteBlock kTokenSize} (hpair : (parseMessage parse raw).type = .pairRequest)
    (hs : appStep parse kx P app (.message n raw token) = some (s, es))
    (ht : appStep parse kx P app' (.message n raw token) = some (t, fs)) :
    hideStep (s, es) = hideStep (t, fs) ∨
      (appMachine parse kx P H).ToldApart (pinObserver κ H) s t es fs := by
  obtain ⟨sessionId, hn, hleft⟩ := message_cases hpair hs
  obtain ⟨sessionId', hn', hright⟩ := message_cases hpair ht
  have hserver : app.hidePin.server = app'.hidePin.server := by rw [hview]
  obtain rfl : sessionId' = sessionId := by
    have hsame := hn'.symm.trans (hserver ▸ hn)
    cases hsame
    rfl
  have hboth := Application.onPairRequest_hidePin hview kx sessionId'
    (parseMessage parse raw).payload
  rcases hleft with ⟨es₀, hleft, rfl⟩ | ⟨f, hleft, rfl, rfl⟩ <;>
    rcases hright with ⟨fs₀, hright, rfl⟩ | ⟨g, hright, rfl, rfl⟩ <;>
    rw [hleft, hright] at hboth
  · rcases hboth with hsame | htold
    · obtain ⟨hend, rfl⟩ := Prod.mk.inj (Except.ok.inj hsame)
      exact Or.inl (Prod.ext hend rfl)
    · obtain ⟨a, ha⟩ := Application.toldBy_ok hleft
      obtain ⟨b, hb⟩ := Application.toldBy_ok hright
      refine Or.inr (toldApart_verdicts (fun hab => htold ?_) ha hb)
      rw [Application.toldBy, Application.toldBy, ha, hb, hab]
  · obtain ⟨a, ha⟩ := Application.toldBy_ok hleft
    exact Or.inr (toldApart_ended ha rfl rfl)
  · obtain ⟨b, hb⟩ := Application.toldBy_ok hright
    exact Or.inr (toldApart_ended hb rfl rfl).symm
  · rcases hboth with hsame | htold
    · obtain rfl : f = g := Except.error.inj hsame
      have hend := congrArg (fun app : Application κ H => { app with ended := some f }) hview
      exact Or.inl (Prod.ext hend rfl)
    · exact absurd rfl htold

/-- An offer in both runs. -/
theorem createOffer_hidePin (hview : app.hidePin = app'.hidePin) {pcIp : String}
    {drawn drawn' : Fin 1000000}
    (hs : appStep parse kx P app (.createOffer pcIp drawn) = some (s, es))
    (ht : appStep parse kx P app' (.createOffer pcIp drawn') = some (t, fs)) :
    hideStep (s, es) = hideStep (t, fs) := by
  have hpairing : app.hidePin.pairing = app'.hidePin.pairing := by rw [hview]
  cases Application.appStep_cases hs with
  | createOffer hready hp =>
  cases Application.appStep_cases ht with
  | createOffer hready' hq =>
      rename_i p q
      have hpq : p.hidePin = q.hidePin := by
        simpa [Application.hidePin, hp, hq] using hpairing
      obtain ⟨hport, hdevices, hkey, -⟩ := PairingManager.hidePin_eq_iff.mp hpq
      have hoffer : (p.createOffer pcIp drawn).hidePin = (q.createOffer pcIp drawn').hidePin := by
        simp [PairingManager.createOffer, PairingManager.hidePin, hport, hdevices, hkey]
      have hend := congrArg₂ (fun (app : Application κ H) (p : PairingManager) =>
        { app with pairing := some p }) hview hoffer
      exact Prod.ext hend rfl

/-- Drawing another PIN makes no difference, but for the verdicts. -/
theorem appMachine_unwinds : (appMachine parse kx P H).Unwinds (pinObserver κ H) where
  step := by
    intro app app' a b s t es fs hview hsame hs ht
    obtain ⟨-, hs⟩ := appMachine_step hs
    obtain ⟨-, ht⟩ := appMachine_step ht
    have hleft : hideStep (s, es) = hideStep (t, fs) →
        s.hidePin = t.hidePin ∧ es.map AppEvent.hidePin = fs.map AppEvent.hidePin :=
      Prod.mk.inj
    cases hsame with
    | createOffer pcIp drawn drawn' => exact Or.inl (hleft (createOffer_hidePin hview hs ht))
    | same =>
        by_cases ha : a.asksPin parse
        · cases a with
          | message n raw token => exact (message_hidePin hview ha hs ht).imp_left hleft
          | createOffer pcIp drawn => exact Or.inl (hleft (createOffer_hidePin hview hs ht))
          | _ => exact absurd ha id
        · have hsame := (appStep_hidePin kx P app ha).symm.trans
            ((congrArg (fun app => appStep parse kx P app a) hview).trans
              (appStep_hidePin kx P app' ha))
          rw [hs, ht] at hsame
          obtain ⟨hend, rfl⟩ := Prod.mk.inj (Option.some.inj hsame)
          exact Or.inl ⟨hend, rfl⟩

/-- **The PIN stays secret.**  In two runs in which the same happens, except that other
PINs are drawn, the program does the same as long as the verdicts are the same: what it
sends, stores, pairs and moves does not depend on the PIN in any other way. -/
theorem pin_stays_secret {as bs : List (AppAction κ)} (hsame : List.Forall₂ SameButPin as bs)
    (h₁ : (appMachine parse kx P H).Run app as s es)
    (h₂ : (appMachine parse kx P H).Run app bs t fs)
    (hverdicts : verdictsOf es = verdictsOf fs) :
    s.hidePin = t.hidePin ∧ es.map AppEvent.hidePin = fs.map AppEvent.hidePin :=
  appMachine_unwinds.run hsame rfl h₁ h₂
    (by rw [told_pinObserver, told_pinObserver, hverdicts])

end Steps

/-! ## A wrong guess -/

/-- The dialog shows the PIN drawn, and a phone guesses another one. -/
def guessActions (drawn : Fin 1000000) : List (AppAction String) :=
  [.connect, .handshake 0 true] ++ initActions ++
    [.createOffer "192.168.0.2" drawn, talk 0 2, talk 0 1]

/-- Two PINs are offered and the same wrong guess is made. -/
theorem pin_stays_secret_sample :
    ∃ (s t : Application String sha256) (es fs : List (AppEvent String)),
      pairingsOf es = [.offered "000008", .refused] ∧
        pairingsOf fs = [.offered "123456", .refused] ∧
        s.hidePin = t.hidePin ∧ es.map AppEvent.hidePin = fs.map AppEvent.hidePin := by
  obtain ⟨s, es, h₁, hes⟩ := exists_run_of_exec
    (appMachine (parseTable talkMessages) sampleKx samplePlatform sha256) sampleProgram
    (guessActions 8)
    (fun _ es => decide (pairingsOf es = [.offered "000008", .refused] ∧
      verdictsOf es = [false]))
    (by decide +kernel)
  obtain ⟨t, fs, h₂, hfs⟩ := exists_run_of_exec
    (appMachine (parseTable talkMessages) sampleKx samplePlatform sha256) sampleProgram
    (guessActions 123456)
    (fun _ es => decide (pairingsOf es = [.offered "123456", .refused] ∧
      verdictsOf es = [false]))
    (by decide +kernel)
  obtain ⟨hoffered, hverdicts⟩ := of_decide_eq_true hes
  obtain ⟨hoffered', hverdicts'⟩ := of_decide_eq_true hfs
  have hsame : List.Forall₂ SameButPin (guessActions 8) (guessActions 123456) :=
    List.rel_append (List.forall₂_same.mpr fun a _ => .same a)
      (.cons (.createOffer _ _ _) (List.forall₂_same.mpr fun a _ => .same a))
  exact ⟨s, t, es, fs, hoffered, hoffered',
    pin_stays_secret hsame h₁ h₂ (hverdicts.trans hverdicts'.symm)⟩

end Iriseus.Core
