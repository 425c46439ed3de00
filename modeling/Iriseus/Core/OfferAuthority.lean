import Iriseus.Core.Application

/-!
# Whose file offers are accepted

A closed decision of the plan is that offers of paired devices are accepted
and others refused.  `handleFileOffer` accepts every well-formed offer: it
never asks the pairing manager it was constructed with.

A session's device is the one it last named in a greeting or a pairing request
(`deviceOf`); it is paired when the pairing manager has it.  `OfferFromPaired`
says of a run that offers come from sessions of paired devices, or come to
nothing anyway; `offers_from_paired` says that it is exactly what a step must
meet to keep every accepted offer one of a paired device.
-/

namespace Iriseus.Core

open Iriseus.Verified
open Iriseus.Verified.ByteStream

section Devices

variable {κ : Type} {H : IncrementalHash}

/-- The device a message names as its sender's. -/
def statedDevice (msg : ControlMessage) : Option String :=
  if msg.type = .hello ∨ msg.type = .pairRequest then
    match msg.payload.member "deviceId" with
    | some (.string deviceId) => some deviceId
    | _ => none
  else none

/-- What an event says about the device of a session. -/
def deviceStated (sessionId : UInt64) (device : Option String) : AppEvent κ → Option String
  | .received _ sid msg => if sid = sessionId then (statedDevice msg).or device else device
  | _ => device

/-- The device of a session: the last one it named. -/
def deviceOf (h : List (AppEvent κ)) (sessionId : UInt64) : Option String :=
  h.foldl (deviceStated sessionId) none

/-- The session's device is paired now. -/
def SessionPaired (app : Application κ H) (h : List (AppEvent κ)) (sessionId : UInt64) :
    Prop :=
  ∃ deviceId ∈ deviceOf h sessionId, ∃ p ∈ app.pairing, p.isPaired deviceId = true

/-- Whatever `handleFileOffer` did for a session, the session's device was
paired. -/
def OffersAuthorized (h : List (AppEvent κ)) : Prop :=
  ∀ h₁ sessionId e h₂, h = h₁ ++ .transfer (some (sessionId, .fileOffer)) e :: h₂ →
    ∃ deviceId ∈ deviceOf h₁ sessionId, deviceId ∈ pairedDevices h₁

/-- An accepted offer: `file_accept` or `file_ready` is sent, or a transfer is
registered. -/
def AppEvent.accepts : AppEvent κ → Bool
  | .transfer _ (.sendTo _ (.fileAccept _)) => true
  | .transfer _ (.sendTo _ (.fileReady _ _ _)) => true
  | .transfer _ (.registered _) => true
  | _ => false

/-- The two tables a refused offer leaves alone: `m_activeOffers` and
`m_sessions`. -/
def SameTables (app app' : Application κ H) : Prop :=
  app'.world.manager.activeOffers = app.world.manager.activeOffers ∧
    app'.world.manager.server.sessions = app.world.manager.server.sessions

/-- An offer handled from `app` to `app'` comes from a paired device, or is
refused. -/
def OfferGuarded (app : Application κ H) (h : List (AppEvent κ)) (sessionId : UInt64)
    (app' : Application κ H) (es : List (AppEvent κ)) : Prop :=
  SessionPaired app h sessionId ∨
    (∀ e ∈ es, e.accepts = false) ∧ SameTables app app'

/-- An offer comes from a session whose device is paired, or its payload is not
an offer, or there is no file manager yet. -/
def OfferFromPaired (parse : Bytes → Option Json) :
    Machine.StepCond (Application κ H) (AppAction κ) (AppEvent κ) :=
  fun app h a =>
    match a with
    | .message n raw _ =>
        (parseMessage parse raw).type = .fileOffer →
          (∃ session ∈ app.server.accepted[n]?, SessionPaired app h session.1) ∨
            (FileOffer.from_json (parseMessage parse raw).payload).isOk = false ∨
            app.fileManager.isNone = true
    | _ => True

instance (app : Application κ H) (h : List (AppEvent κ)) (sessionId : UInt64) :
    Decidable (SessionPaired app h sessionId) :=
  inferInstanceAs (Decidable
    (∃ deviceId ∈ deviceOf h sessionId, ∃ p ∈ app.pairing, p.isPaired deviceId = true))

instance (parse : Bytes → Option Json) :
    ∀ (app : Application κ H) h a, Decidable (OfferFromPaired parse app h a)
  | _, _, .message _ _ _ => inferInstanceAs (Decidable (_ → _))
  | _, _, .init _ _ | _, _, .connect | _, _, .handshake _ _ | _, _, .disconnect _
  | _, _, .createOffer _ _ | _, _, .toggleFlip _ | _, _, .runTask | _, _, .transfers _ =>
      instDecidableTrue

end Devices

section Runs

variable {κ : Type} [DecidableEq κ] {H : IncrementalHash}
variable {parse : Bytes → Option Json} {kx : KxServer} {P : Platform κ}

/-! ## What handling an offer does -/

/-- The events of an offer, and the state it leaves: those of
`handleFileOffer`, if there is a manager. -/
theorem offer_step {app app' : Application κ H} {es : List (AppEvent κ)}
    {n : Nat} {sessionId : UInt64} {link : LinkState} {raw : Bytes}
    {token : ByteBlock kTokenSize}
    (hn : app.server.accepted[n]? = some (sessionId, link))
    (htype : (parseMessage parse raw).type = .fileOffer)
    (hstep : appStep parse kx P app (.message n raw token) = some (app', es)) :
    ∃ tes : List (TransferEvent κ),
      es = .received n sessionId (parseMessage parse raw) ::
        (tes.map fun e => .transfer (some (sessionId, .fileOffer)) e) ∧
      (app.fileManager = none ∧ tes = [] ∧ app' = app ∨
        ∃ m m', app.fileManager = some m ∧
          m.handleFileOffer P sessionId (parseMessage parse raw).payload token = (m', tes) ∧
          app' = { app with fileManager := some m' }) := by
  simp only [appStep] at hstep
  split at hstep
  · rename_i sid hread
    obtain ⟨rfl, rfl⟩ : sessionId = sid ∧ link = .reading := by
      simpa using hn.symm.trans hread
    split at hstep
    · unfold Application.handleMessage at hstep
      simp only [htype, Application.onFileMessage] at hstep
      cases hm : app.fileManager with
      | none =>
          simp only [hm, Option.some.injEq, Prod.mk.injEq] at hstep
          obtain ⟨rfl, rfl⟩ := hstep
          exact ⟨[], rfl, Or.inl ⟨rfl, rfl, rfl⟩⟩
      | some m =>
          simp only [hm, mapError_ok, bind, Except.bind, pure, Except.pure,
            Option.some.injEq, Prod.mk.injEq] at hstep
          obtain ⟨rfl, rfl⟩ := hstep
          exact ⟨_, rfl, Or.inr ⟨m, _, rfl, rfl, rfl⟩⟩
    · cases hstep
  · cases hstep

/-- An offer that does not come from a paired device but is well formed and
meets a manager is accepted all the same. -/
theorem offer_accepted {app app' : Application κ H} {es : List (AppEvent κ)}
    {n : Nat} {sessionId : UInt64} {link : LinkState} {raw : Bytes}
    {token : ByteBlock kTokenSize}
    (hn : app.server.accepted[n]? = some (sessionId, link))
    (htype : (parseMessage parse raw).type = .fileOffer)
    (hstep : appStep parse kx P app (.message n raw token) = some (app', es))
    (hread : (FileOffer.from_json (parseMessage parse raw).payload).isOk = true)
    (hmanager : app.fileManager.isNone = false) : ∃ e ∈ es, e.accepts = true := by
  obtain ⟨tes, rfl, ⟨hnone, -, -⟩ | ⟨m, m', hm, hoffer, -⟩⟩ := offer_step hn htype hstep
  · rw [hnone] at hmanager
    cases hmanager
  · obtain ⟨offer, hoffer'⟩ := (isOk_iff _).mp hread
    simp only [FileTransferManager.handleFileOffer, hoffer',
      FileTransferManager.acceptOffer, Prod.mk.injEq] at hoffer
    obtain ⟨-, rfl⟩ := hoffer
    exact ⟨.transfer (some (sessionId, .fileOffer))
      (.sendTo sessionId (.fileAccept offer.transferId)), by simp, rfl⟩

/-- An offer that cannot be read, or that meets no manager, does nothing. -/
theorem offer_ignored {app app' : Application κ H} {es : List (AppEvent κ)}
    {n : Nat} {sessionId : UInt64} {link : LinkState} {raw : Bytes}
    {token : ByteBlock kTokenSize}
    (hn : app.server.accepted[n]? = some (sessionId, link))
    (htype : (parseMessage parse raw).type = .fileOffer)
    (hstep : appStep parse kx P app (.message n raw token) = some (app', es))
    (hbad : (FileOffer.from_json (parseMessage parse raw).payload).isOk = false ∨
      app.fileManager.isNone = true) :
    es = [.received n sessionId (parseMessage parse raw)] ∧ SameTables app app' := by
  obtain ⟨tes, rfl, ⟨-, rfl, rfl⟩ | ⟨m, m', hm, hoffer, rfl⟩⟩ := offer_step hn htype hstep
  · exact ⟨rfl, rfl, rfl⟩
  · have hread : (FileOffer.from_json (parseMessage parse raw).payload).isOk = false := by
      simpa [hm] using hbad
    unfold FileTransferManager.handleFileOffer at hoffer
    split at hoffer
    · rename_i offer heq
      rw [heq] at hread
      cases hread
    · simp only [Prod.mk.injEq] at hoffer
      obtain ⟨rfl, rfl⟩ := hoffer
      exact ⟨rfl, by simp [SameTables, Application.world, hm]⟩

/-! ## Devices and offers along a run -/

omit [DecidableEq κ] in
/-- Handling an offer does not change whose device is whose. -/
theorem deviceOf_offer (h : List (AppEvent κ)) (n : Nat) (sessionId : UInt64)
    {msg : ControlMessage} (htype : msg.type = .fileOffer) {es₁ es₂ : List (AppEvent κ)}
    {tes : List (TransferEvent κ)} {cause : Option (UInt64 × MsgType)}
    (hes : .received n sessionId msg :: (tes.map fun e => .transfer cause e) = es₁ ++ es₂) :
    deviceOf (h ++ es₁) sessionId = deviceOf h sessionId := by
  have hkeep : ∀ e ∈ es₁, ∀ device, deviceStated sessionId device e = device := by
    intro e he device
    have hmem : e ∈ AppEvent.received n sessionId msg ::
        (tes.map fun e => .transfer cause e) := by
      rw [hes]
      exact List.mem_append_left _ he
    rcases List.mem_cons.mp hmem with rfl | hmem
    · simp [deviceStated, statedDevice, htype]
    · obtain ⟨e', -, rfl⟩ := List.mem_map.mp hmem
      rfl
  unfold deviceOf
  rw [List.foldl_append]
  generalize List.foldl (deviceStated sessionId) none h = device
  clear hes
  induction es₁ with
  | nil => rfl
  | cons e es₁ ih =>
      rw [List.foldl_cons, hkeep e (by simp) device]
      exact ih fun e' he' => hkeep e' (by simp [he'])

omit [DecidableEq κ] in
theorem SessionPaired.history {app : Application κ H} {h : List (AppEvent κ)}
    {sessionId : UInt64} (hp : SessionPaired app h sessionId)
    (hinv : PairingInv kx app h) :
    ∃ deviceId ∈ deviceOf h sessionId, deviceId ∈ pairedDevices h := by
  obtain ⟨deviceId, hdevice, p, hpairing, hpaired⟩ := hp
  exact ⟨deviceId, hdevice, (hinv.paired p hpairing deviceId).mp hpaired⟩

/-- **One step.**  A step that meets `OfferFromPaired` keeps every accepted
offer one of a paired device. -/
theorem offersAuthorized_step {app app' : Application κ H} {h es : List (AppEvent κ)}
    {a : AppAction κ} (hI : OffersAuthorized h) (hinit : InitInv app)
    (hpair : PairingInv kx app h) (hok : OfferFromPaired parse app h a)
    (hstep : appStep parse kx P app a = some (app', es)) : OffersAuthorized (h ++ es) := by
  intro h₁ sessionId e h₂ heq
  rcases Machine.append_eq_append_cons heq with ⟨h₂', hold, -⟩ | ⟨es₁, rfl, hes⟩
  · exact hI h₁ sessionId e h₂' hold
  · -- the event is new, so this step handles an offer of the session
    have hcause := (appStep_effects hinit hstep).caused (sessionId, .fileOffer) e
      (by simp [hes])
    cases a with
    | message n raw token =>
        simp only [AppAction.cause, Option.map_eq_some_iff, Prod.mk.injEq] at hcause
        obtain ⟨⟨sid, link⟩, hn, rfl, htype⟩ := hcause
        rcases hok htype with ⟨session, hsession, hpaired⟩ | hbad
        · obtain rfl : session = (sid, link) := Option.some.inj (hsession.symm.trans hn)
          obtain ⟨deviceId, hdevice, hdevices⟩ := hpaired.history hpair
          obtain ⟨tes, hshape, -⟩ := offer_step hn htype hstep
          refine ⟨deviceId, ?_, by simp [hdevices]⟩
          rwa [deviceOf_offer h n sid htype (hshape.symm.trans hes)]
        · obtain ⟨hnothing, -⟩ := offer_ignored hn htype hstep hbad
          have hmem : AppEvent.transfer (some (sid, .fileOffer)) e ∈
              [AppEvent.received n sid (parseMessage parse raw)] := by
            rw [← hnothing, hes]
            simp
          simp at hmem
    | _ => cases hcause

/-- **Offers of paired devices, exactly under `OfferFromPaired`.**  After any
run whose steps all meet the condition, every accepted offer was one of a
paired device; and the next offer is guarded if and only if it meets the
condition. -/
theorem offers_from_paired {app : Application κ H} {h : List (AppEvent κ)}
    (hr : (appMachine parse kx P H).Reach (OfferFromPaired parse) app h) :
    OffersAuthorized h ∧ ∀ n sessionId link raw token app' es,
      app.server.accepted[n]? = some (sessionId, link) →
      (parseMessage parse raw).type = .fileOffer →
      (appMachine parse kx P H).step app (.message n raw token) = some (app', es) →
      (OfferGuarded app h sessionId app' es ↔
        OfferFromPaired parse app h (.message n raw token)) := by
  constructor
  · refine hr.invariant_along (fun _ h => OffersAuthorized h) ?_ ?_
    · intro app _
      simp [OffersAuthorized]
    · intro app h a app' es hr hI hok hstep
      exact offersAuthorized_step hI (initInv_reach hr) (pairing_reach hr) hok
        (appMachine_step hstep).2
  · intro n sessionId link raw token app' es hn htype hstep
    have hstep := (appMachine_step hstep).2
    constructor
    · rintro (hpaired | ⟨hrefused, -⟩) -
      · exact Or.inl ⟨_, hn, hpaired⟩
      · -- nothing was accepted: otherwise the offer would have been
        refine Or.inr ?_
        by_contra hgood
        simp only [not_or, Bool.not_eq_false, Bool.not_eq_true] at hgood
        obtain ⟨e, he, haccepts⟩ := offer_accepted hn htype hstep hgood.1 hgood.2
        rw [hrefused e he] at haccepts
        cases haccepts
    · intro hok
      rcases hok htype with ⟨session, hsession, hpaired⟩ | hbad
      · obtain rfl : session = (sessionId, link) := Option.some.inj (hsession.symm.trans hn)
        exact Or.inl hpaired
      · obtain ⟨rfl, hsame⟩ := offer_ignored hn htype hstep hbad
        exact Or.inr ⟨by simp [AppEvent.accepts], hsame⟩

end Runs

/-! ## An offer of a paired phone and one of nobody -/

def offerMessages : List (String × Json) :=
  [ ("\x7b\"type\":\"pair_request\",\"pin\":\"000007\",\"pk\":\"" ++ sampleKey ++
        "\",\"deviceId\":\"phone\"\x7d",
      .object [("type", .string "pair_request"), ("pin", .string "000007"),
        ("pk", .string sampleKey), ("deviceId", .string "phone")])
  , ("\x7b\"type\":\"file_offer\",\"transferId\":\"t\",\"name\":\"a\"\x7d",
      .object [("type", .string "file_offer"), ("transferId", .string "t"),
        ("name", .string "a")]) ]

/-- The first session sends one of these messages. -/
def sendOfferMessage (n : Nat) : AppAction String :=
  .message 0 (ascii ((offerMessages.map Prod.fst).getD n "")) (sampleToken 7)

/-- The phone pairs and then offers a file, which is accepted. -/
theorem offers_from_paired_sample :
    ∃ (app : Application String sha256) (h : List (AppEvent String)),
      (appMachine (parseTable offerMessages) sampleKx samplePlatform sha256).Reach
        (OfferFromPaired (parseTable offerMessages)) app h ∧
      decide (h.countP AppEvent.accepts = 3 ∧ pairedDevices h = ["phone"]) = true ∧
      OffersAuthorized h := by
  obtain ⟨app, h, hr, hh⟩ := Machine.exists_reach_of_exec
    (appMachine (parseTable offerMessages) sampleKx samplePlatform sha256)
    (OfferFromPaired (parseTable offerMessages)) (s := sampleProgram) sampleProgram_init
    (initActions ++ [.createOffer "192.168.0.2" 7, .connect, .handshake 0 true,
      sendOfferMessage 0, sendOfferMessage 1])
    (fun _ h => decide (h.countP AppEvent.accepts = 3 ∧ pairedDevices h = ["phone"]))
    (by decide +kernel)
  exact ⟨app, h, hr, hh, (offers_from_paired hr).1⟩

/-- The offer of session 1 is accepted. -/
def acceptsFirst : AppEvent String → Bool
  | .transfer (some (1, .fileOffer)) (.sendTo 1 (.fileAccept _)) => true
  | _ => false

/-- A session that has said nothing else offers a file while nobody is paired:
it is accepted. -/
theorem unpaired_offer_accepted :
    ¬∀ (app : Application String sha256) (h : List (AppEvent String)),
      (appMachine (parseTable offerMessages) sampleKx samplePlatform sha256).Reach
        Machine.anyStep app h → OffersAuthorized h := by
  intro hall
  obtain ⟨app, h, hr, hh⟩ := Machine.exists_reach_of_exec
    (appMachine (parseTable offerMessages) sampleKx samplePlatform sha256)
    Machine.anyStep (s := sampleProgram) sampleProgram_init
    (initActions ++ [.connect, .handshake 0 true, sendOfferMessage 1])
    (fun (_ : Application String sha256) h =>
      pairedDevices h = [] ∧ h.any acceptsFirst)
    (by decide +kernel)
  rw [decide_eq_true_iff, List.any_eq_true] at hh
  obtain ⟨hnobody, e, he, haccept⟩ := hh
  unfold acceptsFirst at haccept
  split at haccept
  · obtain ⟨h₁, h₂, hsplit⟩ := List.append_of_mem he
    obtain ⟨deviceId, -, hdevice⟩ := hall app h hr h₁ 1 _ h₂ hsplit
    rw [hsplit, pairedDevices_append, List.append_eq_nil_iff] at hnobody
    rw [hnobody.1] at hdevice
    cases hdevice
  · cases haccept

end Iriseus.Core
