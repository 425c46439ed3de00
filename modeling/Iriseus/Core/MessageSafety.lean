import Iriseus.Core.Application

/-!
# Which messages the program survives

`handleMessage` runs on the io thread with nothing above it that catches.
`parseMessage` and `handleFileOffer` catch what they throw; the other handlers
read members of the message with `value`, decode a public key and derive keys
from it, and use `m_pairing` without asking whether it is set.

`Survivable` says of a message and the state in which it arrives that none of
this goes wrong.  `messages_survived` says that it is exactly the condition
under which `handleMessage` returns, and that a run of survivable messages
never ends the program.
-/

namespace Iriseus.Core

open Iriseus.Verified
open Iriseus.Verified.ByteStream

section Survivable

variable {κ : Type} {H : IncrementalHash}

/-- The pairing manager exists, and the request's key can be read if the
manager gets as far as reading it. -/
def PairRequestSurvivable (kx : KxServer) (app : Application κ H) (payload : Json) :
    Prop :=
  payload.Readable Json.getString "pin" ∧ payload.Readable Json.getString "pk" ∧
    payload.Readable Json.getString "deviceId" ∧
    payload.Readable Json.getString "deviceName" ∧
    ∃ p ∈ app.pairing, payload.text "pin" = p.activePin →
      PairingManager.keyReadable kx p.activeKeyPair (payload.text "pk") = true

/-- Every member the handler of a message of type `type` reads is absent or of
the type it is read as, and what a handler uses is there. -/
def MessageSurvivable (kx : KxServer) (app : Application κ H) (payload : Json) :
    MsgType → Prop
  | .hello => payload.Readable Json.getString "deviceName"
  | .setFlip => payload.Readable Json.getBool "flip"
  | .pairRequest => PairRequestSurvivable kx app payload
  | .fileAccept => app.fileManager = none ∨ payload.Readable Json.getString "transferId"
  | .fileReject => app.fileManager = none ∨ payload.Readable Json.getString "transferId"
  | .fileCancel => app.fileManager = none ∨ payload.Readable Json.getString "transferId"
  | .fileComplete =>
      app.fileManager = none ∨
        payload.Readable Json.getString "transferId" ∧
          payload.Readable Json.getBool "ok" ∧ payload.Readable Json.getString "error"
  | _ => True

/-- The message `raw` does not end the program. -/
def Survivable (parse : Bytes → Option Json) (kx : KxServer) (app : Application κ H)
    (raw : Bytes) : Prop :=
  MessageSurvivable kx app (parseMessage parse raw).payload (parseMessage parse raw).type

/-- Every message of the run is survivable when it arrives. -/
def SurvivableMessages (parse : Bytes → Option Json) (kx : KxServer) :
    Machine.StepCond (Application κ H) (AppAction κ) (AppEvent κ) :=
  fun app _ a =>
    match a with
    | .message _ raw _ => Survivable parse kx app raw
    | _ => True

instance (kx : KxServer) (app : Application κ H) (payload : Json) :
    Decidable (PairRequestSurvivable kx app payload) :=
  inferInstanceAs (Decidable (_ ∧ _ ∧ _ ∧ _ ∧ _))

instance (kx : KxServer) (app : Application κ H) (payload : Json) :
    ∀ type, Decidable (MessageSurvivable kx app payload type) := by
  have hnull : Decidable (app.fileManager = none) :=
    decidable_of_iff (app.fileManager.isNone = true) (by simp)
  intro type
  cases type <;> unfold MessageSurvivable <;> infer_instance

instance (parse : Bytes → Option Json) (kx : KxServer) :
    ∀ (app : Application κ H) h a, Decidable (SurvivableMessages parse kx app h a)
  | _, _, .message _ _ _ => inferInstanceAs (Decidable (MessageSurvivable _ _ _ _))
  | _, _, .init _ _ | _, _, .connect | _, _, .handshake _ _ | _, _, .disconnect _
  | _, _, .createOffer _ _ | _, _, .toggleFlip _ | _, _, .runTask | _, _, .transfers _ =>
      instDecidableTrue

end Survivable

/-! ## When each handler returns -/

section Returns

/-- A reading followed by what never throws. -/
theorem reading_isOk {α β ε : Type} (get : Json → Except JsonError α)
    (fields : List (String × Json)) (key : String) (dflt : α) (error : JsonError → ε)
    {f : α → Except ε β} (hf : ∀ a, (f a).isOk = true) :
    ((Json.value get (.object fields) key dflt).mapError error >>= f).isOk = true ↔
      Json.Readable get (.object fields) key := by
  rw [isOk_bind, ← Json.value_isOk_iff get fields key dflt, isOk_iff]
  simp only [mapError_eq_ok]
  constructor
  · rintro ⟨a, ha, -⟩
    exact ⟨a, ha⟩
  · rintro ⟨a, ha⟩
    exact ⟨a, ha, hf a⟩

variable {κ : Type} {H : IncrementalHash} (m : FileTransferManager)

theorem handleFileAccept_isOk_iff (sessionId : UInt64) (fields : List (String × Json))
    (token : ByteBlock kTokenSize) :
    (m.handleFileAccept (κ := κ) sessionId (.object fields) token).isOk = true ↔
      Json.Readable Json.getString (.object fields) "transferId" := by
  unfold FileTransferManager.handleFileAccept
  rw [isOk_bind, ← Json.value_isOk_iff Json.getString fields "transferId" "", isOk_iff]
  constructor
  · rintro ⟨id, hid, -⟩
    exact ⟨id, hid⟩
  · rintro ⟨id, hid⟩
    refine ⟨id, hid, ?_⟩
    split
    · rfl
    · split <;> rfl

theorem handleFileReject_isOk_iff (fields : List (String × Json)) :
    (m.handleFileReject (κ := κ) (.object fields)).isOk = true ↔
      Json.Readable Json.getString (.object fields) "transferId" := by
  unfold FileTransferManager.handleFileReject
  rw [isOk_bind, ← Json.value_isOk_iff Json.getString fields "transferId" "", isOk_iff]
  constructor
  · rintro ⟨id, hid, -⟩
    exact ⟨id, hid⟩
  · rintro ⟨id, hid⟩
    refine ⟨id, hid, ?_⟩
    split <;> rfl

theorem handleFileComplete_isOk_iff (sessionId : UInt64) (fields : List (String × Json)) :
    (m.handleFileComplete (κ := κ) sessionId (.object fields)).isOk = true ↔
      Json.Readable Json.getString (.object fields) "transferId" ∧
        Json.Readable Json.getBool (.object fields) "ok" ∧
        Json.Readable Json.getString (.object fields) "error" := by
  unfold FileTransferManager.handleFileComplete
  rw [← Json.value_isOk_iff Json.getString fields "transferId" "",
    ← Json.value_isOk_iff Json.getBool fields "ok" false,
    ← Json.value_isOk_iff Json.getString fields "error" "", isOk_bind]
  simp only [isOk_iff, bind_eq_ok]
  constructor
  · rintro ⟨id, hid, r, ok, hok, error, herror, -⟩
    exact ⟨⟨id, hid⟩, ⟨ok, hok⟩, ⟨error, herror⟩⟩
  · rintro ⟨⟨id, hid⟩, ⟨ok, hok⟩, ⟨error, herror⟩⟩
    refine ⟨id, hid, ?_⟩
    cases m.activeOffers.lookup id with
    | none => exact ⟨_, ok, hok, error, herror, rfl⟩
    | some info => exact ⟨_, ok, hok, error, herror, rfl⟩

variable (app : Application κ H)

theorem onFileMessage_isOk_iff (sessionId : UInt64) (type : MsgType)
    {handler : FileTransferManager →
      Except JsonError (FileTransferManager × List (TransferEvent κ))} {readable : Prop}
    (hhandler : ∀ m, (handler m).isOk = true ↔ readable) :
    (app.onFileMessage sessionId type handler).isOk = true ↔
      app.fileManager = none ∨ readable := by
  unfold Application.onFileMessage
  cases hm : app.fileManager with
  | none => simp [Except.isOk, Except.toBool]
  | some m =>
      simp only [reduceCtorEq, false_or, isOk_bind, mapError_eq_ok]
      rw [← hhandler m, isOk_iff]
      constructor
      · rintro ⟨r, hr, -⟩
        exact ⟨r, hr⟩
      · rintro ⟨r, hr⟩
        exact ⟨r, hr, rfl⟩

theorem onPairRequest_isOk_iff (kx : KxServer) (sessionId : UInt64)
    (fields : List (String × Json)) :
    (app.onPairRequest kx sessionId (.object fields)).isOk = true ↔
      PairRequestSurvivable kx app (.object fields) := by
  unfold Application.onPairRequest PairRequestSurvivable
  rw [← Json.value_isOk_iff Json.getString fields "pin" "",
    ← Json.value_isOk_iff Json.getString fields "pk" "",
    ← Json.value_isOk_iff Json.getString fields "deviceId" "",
    ← Json.value_isOk_iff Json.getString fields "deviceName" ""]
  simp only [isOk_bind, mapError_eq_ok]
  constructor
  · rintro ⟨pin, hpin, pk, hpk, deviceId, hid, deviceName, hname, hrest⟩
    refine ⟨(isOk_iff _).mpr ⟨pin, hpin⟩, (isOk_iff _).mpr ⟨pk, hpk⟩,
      (isOk_iff _).mpr ⟨deviceId, hid⟩, (isOk_iff _).mpr ⟨deviceName, hname⟩, ?_⟩
    cases hp : app.pairing with
    | none => simp [hp, Except.isOk, Except.toBool] at hrest
    | some p =>
        simp only [hp, isOk_bind, mapError_eq_ok] at hrest
        obtain ⟨ok, hok, -⟩ := hrest
        have hkey := (PairingManager.handlePairRequest_isOk_iff kx p pin pk deviceId
          deviceName).mp ((isOk_iff _).mpr ⟨ok, hok⟩)
        refine ⟨p, rfl, ?_⟩
        rwa [Json.text_eq hpin, Json.text_eq hpk]
  · rintro ⟨hpin, hpk, hid, hname, p, hp, hkey⟩
    obtain ⟨pin, hpin⟩ := (isOk_iff _).mp hpin
    obtain ⟨pk, hpk⟩ := (isOk_iff _).mp hpk
    obtain ⟨deviceId, hid⟩ := (isOk_iff _).mp hid
    obtain ⟨deviceName, hname⟩ := (isOk_iff _).mp hname
    rw [Json.text_eq hpin, Json.text_eq hpk] at hkey
    refine ⟨pin, hpin, pk, hpk, deviceId, hid, deviceName, hname, ?_⟩
    rw [Option.mem_def] at hp
    have hok := (PairingManager.handlePairRequest_isOk_iff kx p pin pk deviceId
      deviceName).mpr hkey
    obtain ⟨ok, hok⟩ := (isOk_iff _).mp hok
    simp only [hp, isOk_bind, mapError_eq_ok]
    exact ⟨ok, hok, rfl⟩

end Returns

/-! ## The whole of `handleMessage` -/

section Runs

variable {κ : Type} [DecidableEq κ] {H : IncrementalHash}
variable {parse : Bytes → Option Json} {kx : KxServer} {P : Platform κ}

omit [DecidableEq κ] in
/-- `handleMessage` returns exactly on survivable messages. -/
theorem handleMessage_isOk_iff (app : Application κ H) (sessionId : UInt64) (raw : Bytes)
    (token : ByteBlock kTokenSize) :
    (app.handleMessage parse kx P sessionId raw token).isOk = true ↔
      Survivable parse kx app raw := by
  have hobject := parseMessage_object parse raw
  unfold Application.handleMessage Survivable
  generalize parseMessage parse raw = msg at hobject
  obtain ⟨type, payload⟩ := msg
  simp only at hobject ⊢
  by_cases hunknown : type = .unknown
  · subst hunknown
    exact ⟨fun _ => trivial, fun _ => rfl⟩
  obtain ⟨fields, rfl⟩ := hobject hunknown
  cases type with
  | hello =>
      exact reading_isOk Json.getString fields "deviceName" "Unknown" Fault.json
        fun _ => rfl
  | setFlip => exact reading_isOk Json.getBool fields "flip" true Fault.json fun _ => rfl
  | pairRequest => exact onPairRequest_isOk_iff app kx sessionId fields
  | fileOffer =>
      -- the handler catches everything
      have hcatch : ∀ m : FileTransferManager,
          (Except.ok (ε := JsonError)
            (m.handleFileOffer P sessionId (.object fields) token)).isOk = true ↔ True :=
        fun m => by simp [Except.isOk, Except.toBool]
      simpa [MessageSurvivable] using onFileMessage_isOk_iff app sessionId .fileOffer hcatch
  | fileAccept =>
      exact onFileMessage_isOk_iff app sessionId .fileAccept fun m =>
        handleFileAccept_isOk_iff m sessionId fields token
  | fileReject =>
      exact onFileMessage_isOk_iff app sessionId .fileReject fun m =>
        handleFileReject_isOk_iff m fields
  | fileComplete =>
      exact onFileMessage_isOk_iff app sessionId .fileComplete fun m =>
        handleFileComplete_isOk_iff m sessionId fields
  | fileCancel =>
      exact onFileMessage_isOk_iff app sessionId .fileCancel fun m =>
        handleFileReject_isOk_iff m fields
  | _ => exact ⟨fun _ => trivial, fun _ => rfl⟩

omit [DecidableEq κ] in
theorem onPairRequest_ended {app app' : Application κ H} {es : List (AppEvent κ)}
    {sessionId : UInt64} {payload : Json}
    (h : app.onPairRequest kx sessionId payload = .ok (app', es)) :
    app'.ended = app.ended := by
  obtain ⟨⟨settings, pairing, rfl, -⟩, -⟩ := Application.onPairRequest_frame h
  rfl

omit [DecidableEq κ] in
/-- A handler that returns does not end the program. -/
theorem messageStep_ended {app app' : Application κ H} {es : List (AppEvent κ)}
    {sessionId : UInt64} {msg : ControlMessage}
    (h : Application.MessageStep kx P app sessionId msg app' es) : app'.ended = app.ended := by
  cases h with
  | pairRequest _ hpair => exact onPairRequest_ended hpair
  | _ => rfl

/-- **One step.**  Only a message that is not survivable ends the program. -/
theorem ended_step {app app' : Application κ H} {h es : List (AppEvent κ)}
    {a : AppAction κ} (hrun : app.ended = none)
    (hok : SurvivableMessages parse kx app h a)
    (hstep : appStep parse kx P app a = some (app', es)) : app'.ended = none := by
  cases Application.appStep_cases hstep with
  | init hinit => exact (Application.initStep_frame hinit).2.1.trans hrun
  | message _ hmove => exact (messageStep_ended hmove).trans hrun
  | @throws n raw token sessionId f hn hmsg =>
      have hreturns := (handleMessage_isOk_iff (P := P) app sessionId raw token).mpr hok
      rw [hmsg] at hreturns
      cases hreturns
  | @runTask task => cases task <;> exact hrun
  | _ => exact hrun

/-- **Survival, message by message.**  A run whose messages are all survivable
when they arrive has not ended, and `handleMessage` returns on the next
message, whatever its session and bytes, if and only if it is survivable. -/
theorem messages_survived {app : Application κ H} {h : List (AppEvent κ)}
    (hr : (appMachine parse kx P H).Reach (SurvivableMessages parse kx) app h) :
    app.ended = none ∧ ∀ sessionId raw token,
      (app.handleMessage parse kx P sessionId raw token).isOk = true ↔
        Survivable parse kx app raw := by
  refine ⟨?_, fun sessionId raw token => handleMessage_isOk_iff app sessionId raw token⟩
  refine Machine.Reach.invariant (fun app _ => app.ended = none) ?_ ?_ hr
  · rintro app ⟨-, -, settings, fs, rfl⟩
    rfl
  · intro app h a app' es hrun hok hstep
    exact ended_step hrun hok (appMachine_step hstep).2

end Runs

/-! ## Two messages -/

/-- Messages of a phone, and a greeting whose name is a number. -/
def sampleMessages : List (String × Json) :=
  [ ("\x7b\"type\":\"hello\",\"deviceName\":\"Phone\"\x7d",
      .object [("type", .string "hello"), ("deviceName", .string "Phone")])
  , ("\x7b\"type\":\"file_offer\",\"size\":\"big\"\x7d",
      .object [("type", .string "file_offer"), ("size", .string "big")])
  , ("\x7b\"type\":\"hello\",\"deviceName\":1\x7d",
      .object [("type", .string "hello"), ("deviceName", .unsigned 1)]) ]

/-- The first session sends one of the sample messages. -/
def sendSample (n : Nat) : AppAction String :=
  .message 0 (ascii ((sampleMessages.map Prod.fst).getD n "")) (sampleToken 7)

/-- A greeting and a malformed offer, while `init` has not built anything, and
then the greeting again once all is built. -/
theorem messages_survived_sample :
    ∃ (app : Application String sha256) (h : List (AppEvent String)),
      (appMachine (parseTable sampleMessages) sampleKx samplePlatform sha256).Reach
        (SurvivableMessages (parseTable sampleMessages) sampleKx) app h ∧
      decide (app.stage = .ready ∧ h.length = 5) = true ∧
      app.ended = none ∧ ∀ sessionId raw token,
        (app.handleMessage (parseTable sampleMessages) sampleKx samplePlatform sessionId raw
          token).isOk = true ↔ Survivable (parseTable sampleMessages) sampleKx app raw := by
  obtain ⟨app, h, hr, hh⟩ := Machine.exists_reach_of_exec
    (appMachine (parseTable sampleMessages) sampleKx samplePlatform sha256)
    (SurvivableMessages (parseTable sampleMessages) sampleKx)
    (s := sampleProgram) sampleProgram_init
    ([.connect, .handshake 0 true, sendSample 0, sendSample 1] ++ initActions ++
      [sendSample 0])
    (fun app h => decide (app.stage = .ready ∧ h.length = 5))
    (by decide +kernel)
  have hsafe := messages_survived hr
  exact ⟨app, h, hr, hh, hsafe⟩

/-- The greeting whose name is a number ends the program. -/
theorem hello_ends_program :
    ¬∀ (app : Application String sha256) (h : List (AppEvent String)),
      (appMachine (parseTable sampleMessages) sampleKx samplePlatform sha256).Reach
        Machine.anyStep app h → app.ended = none := by
  intro hall
  obtain ⟨app, h, hr, hh⟩ := Machine.exists_reach_of_exec
    (appMachine (parseTable sampleMessages) sampleKx samplePlatform sha256)
    Machine.anyStep (s := sampleProgram) sampleProgram_init
    ([.connect, .handshake 0 true] ++ initActions ++ [sendSample 2])
    (fun (app : Application String sha256) _ =>
      decide (app.ended = some (.json .wrongType)))
    (by decide +kernel)
  rw [decide_eq_true_iff, hall app h hr] at hh
  cases hh

end Iriseus.Core
