import Mathlib.Data.Fintype.Card
import Iriseus.Core.PinSecrecy
import Iriseus.Verified.Guessing

/-!
# Guessing the PIN

An offer draws one of a million PINs.  A phone that does not know it can only guess, and
whatever it, the other phones, the user and the network do in the meantime, it learns of
a guess only whether it was right.  Nothing limits the guesses: none is ignored, however
many were wrong before.

## Main results

* `pin_guesses_bounded` — `k` guesses are right for at most `k` of the PINs.
* `every_guess_is_judged` — the guesses of a phone are refused up to the right one.
-/

namespace Iriseus.Core

open Iriseus.Verified
open Iriseus.Verified.ByteStream
open Iriseus.Verified.Machine

variable {κ : Type} {H : IncrementalHash}

namespace PairingManager

/-- Each PIN has one number. -/
theorem generatePin_injective : Function.Injective generatePin := by
  intro c d h
  have hvalue : ∀ d : Fin 1000000,
      Nat.ofDigitChars 10 (generatePin d).toList 0 = d := by
    intro d
    rw [generatePin, String.toList_ofList, List.leftpad, Nat.ofDigitChars_append,
      Nat.ofDigitChars_replicate_zero, Nat.mul_zero, Nat.ofDigitChars_ten_toDigits]
  have hsame : (c : Nat) = d := by
    rw [← hvalue c, ← hvalue d, h]
  exact Fin.ext hsame

/-- A request with a usable key is answered, by whether it presents the PIN. -/
theorem handlePairRequest_usable {kx : KxServer} {p : PairingManager} {pk : String}
    (pin deviceId deviceName : String) (husable : keyUsable kx p.activeKeyPair pk = true) :
    ∃ state devices, p.handlePairRequest kx pin pk deviceId deviceName =
        ⟨state, .ok (decide (pin = p.activePin)), devices⟩ ∧
      state.activeKeyPair = p.activeKeyPair ∧
      state.activePin = if pin = p.activePin then "" else p.activePin := by
  by_cases hright : pin = p.activePin
  · rcases handlePairRequest_cases kx p pin pk deviceId deviceName with
      ⟨-, -, device, -, -, heq⟩ | ⟨hnot, -⟩
    · refine ⟨{ p with devices := p.devices.insert deviceId device, activePin := "" },
        [device], ?_, rfl, (if_pos hright).symm⟩
      rw [heq, decide_eq_true hright]
    · exact absurd ⟨hright, husable⟩ hnot
  · exact ⟨p, [], by rw [handlePairRequest_wrong kx hright, decide_eq_false hright], rfl,
      by rw [if_neg hright]⟩

end PairingManager

open PairingManager in
/-- The PIN of an offer can still be guessed, or the program has ended. -/
def Offered (drawn : Fin 1000000) (app : Application κ H) : Prop :=
  app.ended.isSome = true ∨
    app.stage = .ready ∧ ∃ p, app.pairing = some p ∧ p.activePin = generatePin drawn

/-- The step draws no PIN. -/
def AppAction.drawsNone : AppAction κ → Bool
  | .createOffer _ _ => false
  | _ => true

section Steps

variable [DecidableEq κ] {parse : Bytes → Option Json} {kx : KxServer} {P : Platform κ}
  {app app' s t : Application κ H} {es fs : List (AppEvent κ)}

omit [DecidableEq κ] in
/-- An accepted pairing request has presented the PIN; a refused one changes nothing. -/
theorem onPairRequest_pin {sessionId : UInt64} {payload : Json}
    (h : app.onPairRequest kx sessionId payload = .ok (app', es)) :
    ∃ pin p, payload.stringValue "pin" "" = .ok pin ∧ app.pairing = some p ∧
      (verdictsOf es = [true] ∧ pin = p.activePin ∨
        verdictsOf es = [false] ∧ app'.stage = app.stage ∧ app'.pairing = app.pairing) := by
  simp only [Application.onPairRequest, bind_eq_ok, mapError_eq_ok] at h
  obtain ⟨pin, hpin, pk, -, deviceId, -, deviceName, -, h⟩ := h
  cases hp : app.pairing with
  | none => simp [hp] at h
  | some p =>
      simp only [hp, bind_eq_ok, mapError_eq_ok, pure, Except.pure, Except.ok.injEq,
        Prod.mk.injEq] at h
      obtain ⟨ok, hok, happ, rfl⟩ := h
      refine ⟨pin, p, hpin, rfl, ?_⟩
      rw [verdictsOf, filterMap_paired verdictOf fun _ => rfl]
      rcases PairingManager.handlePairRequest_cases kx p pin pk deviceId deviceName with
        ⟨hright, -, device, -, -, heq⟩ | ⟨-, r, hr, heq⟩
      · rw [heq] at hok
        cases hok
        exact Or.inl ⟨rfl, hright⟩
      · rw [heq] at hok happ
        cases hok
        cases ok with
        | true => exact absurd rfl hr
        | false =>
            refine Or.inr ⟨rfl, ?_⟩
            rw [← happ]
            obtain ⟨settings, hset, -⟩ := app.onPaired_eq []
            rw [hset]
            exact ⟨rfl, rfl⟩

omit [DecidableEq κ] in
/-- What tells a verdict answers a pairing request. -/
theorem answers_verdict {sessionId : UInt64} {k : Option Request}
    (ha : Answers sessionId k es) (htold : true ∈ verdictsOf es) : k = some .pair := by
  obtain ⟨e, he, hverdict⟩ := List.mem_filterMap.mp htold
  cases e with
  | send id msg =>
      cases msg <;> cases hverdict
      have hreply : Reply.verdict true ∈ repliesOn id es :=
        List.mem_filterMap.mpr ⟨_, he, by simp [replyOf, Outgoing.reply?]⟩
      have hrequest := List.mem_map_of_mem (f := Reply.request) hreply
      rw [ha.replies id] at hrequest
      split at hrequest
      · exact Option.mem_toList.mp hrequest
      · exact absurd hrequest List.not_mem_nil
  | _ => cases hverdict

/-- Only the message of a pairing request is told a verdict. -/
theorem told_verdict {a : AppAction κ} (hs : appStep parse kx P app a = some (app', es))
    (htold : true ∈ verdictsOf es) :
    ∃ n raw token sessionId fs, a = .message n raw token ∧
      app.onPairRequest kx sessionId (parseMessage parse raw).payload = .ok (app', fs) ∧
      true ∈ verdictsOf fs := by
  cases a with
  | message n raw token =>
      by_cases hpair : (parseMessage parse raw).type = .pairRequest
      · obtain ⟨sessionId, -, ⟨fs, hok, rfl⟩ | ⟨f, -, -, rfl⟩⟩ := message_cases hpair hs
        · exact ⟨n, raw, token, sessionId, fs, rfl, hok, htold⟩
        · exact absurd htold (by simp [verdictsOf, verdictOf])
      · exfalso
        simp only [appStep] at hs
        (repeat' split at hs) <;> cases hs
        · rename_i hmsg
          have hrequest := answers_verdict (answers_message hmsg) htold
          cases htype : (parseMessage parse raw).type <;> simp_all [MsgType.request?]
        · exact absurd htold (by simp [verdictsOf, verdictOf])
  | init kp ok | connect | handshake n ok | disconnect n | createOffer pcIp drawn
  | toggleFlip flip | runTask | transfers a =>
      exact absurd (answers_verdict (answers_step (by simp) hs).1 htold) (by simp)

theorem offered_step {drawn : Fin 1000000} {a : AppAction κ} (hoffered : Offered drawn app)
    (ha : a.drawsNone = true)
    (h : (appMachine parse kx P H).step app a = some (app', es))
    (hmiss : true ∉ verdictsOf es) : Offered drawn app' := by
  obtain ⟨hrun, hs⟩ := appMachine_step h
  obtain ⟨hready, p, hp, hpin⟩ : app.stage = .ready ∧ ∃ p, app.pairing = some p ∧
      p.activePin = PairingManager.generatePin drawn := by
    simpa [Offered, hrun] using hoffered
  have hkept : app'.stage = app.stage → app'.pairing = app.pairing → Offered drawn app' :=
    fun hstage hpairing => Or.inr ⟨hstage.trans hready, p, hpairing.trans hp, hpin⟩
  cases Application.appStep_cases hs with
  | init hinit => simp [Application.initStep, hready] at hinit
  | connect | handshake | disconnect | toggleFlip | transfers => exact hkept rfl rfl
  | createOffer => cases ha
  | throws => exact Or.inl rfl
  | @runTask task => cases task <;> exact hkept rfl rfl
  | message hn hmove =>
      cases hmove with
      | pairRequest _ hpair =>
          obtain ⟨pin, q, -, -, htold | ⟨-, hstage, hpairing⟩⟩ := onPairRequest_pin hpair
          · refine absurd ?_ hmiss
            rw [verdictsOf, List.filterMap_cons_none rfl, ← verdictsOf, htold.1]
            exact List.mem_singleton_self true
          · exact hkept hstage hpairing
      | _ => exact hkept rfl rfl

/-- A step that hits has presented the PIN. -/
theorem offered_hit {drawn : Fin 1000000} {a : AppAction κ} (hoffered : Offered drawn app)
    (h : (appMachine parse kx P H).step app a = some (app', es))
    (htold : true ∈ verdictsOf es) :
    ∃ n raw token, a = .message n raw token ∧
      (parseMessage parse raw).payload.stringValue "pin" "" =
        .ok (PairingManager.generatePin drawn) := by
  obtain ⟨hrun, hs⟩ := appMachine_step h
  obtain ⟨-, p, hp, hpin⟩ : app.stage = .ready ∧ ∃ p, app.pairing = some p ∧
      p.activePin = PairingManager.generatePin drawn := by
    simpa [Offered, hrun] using hoffered
  obtain ⟨n, raw, token, sessionId, fs, rfl, hpair, hfs⟩ := told_verdict hs htold
  obtain ⟨pin, q, hread, hq, ⟨-, rfl⟩ | ⟨hrefused, -⟩⟩ := onPairRequest_pin hpair
  · obtain rfl : p = q := Option.some.inj (hp.symm.trans hq)
    exact ⟨n, raw, token, rfl, hread.trans (congrArg Except.ok hpin)⟩
  · rw [hrefused] at hfs
    simp at hfs

/-- What can be done does not depend on the PIN. -/
theorem isSome_hidePin (app : Application κ H) {a : AppAction κ} (ha : a.drawsNone = true) :
    ((appMachine parse kx P H).step app.hidePin a).isSome =
      ((appMachine parse kx P H).step app a).isSome := by
  have hended : app.hidePin.ended = app.ended := rfl
  simp only [appMachine, hended]
  split
  · rfl
  · by_cases hasks : a.asksPin parse
    · cases a with
      | message n raw token =>
          have hserver : app.hidePin.server = app.server := rfl
          have hcan : app.hidePin.canHandle = app.canHandle := rfl
          simp only [appStep, hserver, hcan]
          split
          · split
            · rename_i sessionId _ _
              cases app.hidePin.handleMessage parse kx P sessionId raw token <;>
                cases app.handleMessage parse kx P sessionId raw token <;> rfl
            · rfl
          · rfl
      | createOffer pcIp drawn => cases ha
      | _ => exact absurd hasks id
    · rw [appStep_hidePin kx P app hasks, Option.isSome_map]

theorem appMachine_guessable : (appMachine parse kx P H).Guessable (pinObserver κ H)
    (fun a => a.drawsNone = true) Offered where
  unwinds := appMachine_unwinds
  same := .same
  enabled := fun {s t a} hview ha h => by
    have hsame : s.hidePin = t.hidePin := hview
    rw [← Option.isNone_iff_eq_none, ← Option.not_isSome, Bool.not_eq_true'] at h ⊢
    rw [← isSome_hidePin t ha, ← hsame, isSome_hidePin s ha, h]
  keeps := fun hoffered ha h hmiss =>
    offered_step hoffered ha h (by rwa [told_pinObserver] at hmiss)
  unique := fun hc hd hs ht hhit hhit' => by
    rw [told_pinObserver] at hhit hhit'
    obtain ⟨n, raw, token, rfl, hread⟩ := offered_hit hc hs hhit
    obtain ⟨_, _, _, heq, hread'⟩ := offered_hit hd ht hhit'
    cases heq
    exact PairingManager.generatePin_injective (Except.ok.inj (hread.symm.trans hread'))

theorem offer_cases {pcIp : String} {drawn : Fin 1000000}
    (h : (appMachine parse kx P H).step app (.createOffer pcIp drawn) = some (s, es)) :
    ∃ p, app.stage = .ready ∧ app.pairing = some p ∧
      s = { app with pairing := some (p.createOffer pcIp drawn) } := by
  cases Application.appStep_cases (appMachine_step h).2 with
  | createOffer hready hp => exact ⟨_, hready, hp, rfl⟩

/-- **Guessing the PIN.**  Once an offer has been made, let anybody who sees all but the
PIN choose everything that happens from what has happened so far, up to the next offer:
for at most `k` of the million PINs that may have been drawn is one of the first `k`
pairing requests accepted. -/
theorem pin_guesses_bounded {pcIp : String} {start : Fin 1000000 → Application κ H}
    {shown : Fin 1000000 → List (AppEvent κ)}
    (hoffer : ∀ drawn, (appMachine parse kx P H).step app (.createOffer pcIp drawn) =
      some (start drawn, shown drawn))
    {plan : List (AppEvent κ) → Option (AppAction κ)}
    (hplan : ∀ seen a, plan seen = some a → a.drawsNone = true) (n k : Nat)
    (seen : List (AppEvent κ)) :
    (Finset.univ.filter fun drawn =>
      ((verdictsOf ((appMachine parse kx P H).play (pinObserver κ H) plan n seen
        (start drawn))).take k).any id = true).card ≤ k := by
  have hview : ∀ c d, (start c).hidePin = (start d).hidePin := by
    intro c d
    obtain ⟨p, -, hp, hc⟩ := offer_cases (hoffer c)
    obtain ⟨q, -, hq, hd⟩ := offer_cases (hoffer d)
    obtain rfl : p = q := Option.some.inj (hp.symm.trans hq)
    rw [hc, hd]
    rfl
  simp only [← told_pinObserver (H := H)]
  exact appMachine_guessable.card_le hplan
    (fun drawn => by
      obtain ⟨p, hready, -, hs⟩ := offer_cases (hoffer drawn)
      rw [hs]
      exact Or.inr ⟨hready, _, rfl, rfl⟩)
    hview n k seen

/-! ## Every guess is judged -/

/-- Session `n` can send a pairing request, and `active` is the PIN it has to present. -/
structure Listens (app : Application κ H) (n : Nat) (kp : KeyPair) (active : String) :
    Prop where
  running : app.ended = none
  reading : ∃ sessionId, app.server.accepted[n]? = some (sessionId, .reading)
  free : app.canHandle .pairRequest = true
  pairing : ∃ p, app.pairing = some p ∧ p.activeKeyPair = kp ∧ p.activePin = active

/-- The message is a pairing request with this PIN and a key that can be used. -/
structure PresentsPin (parse : Bytes → Option Json) (kx : KxServer) (kp : KeyPair) (raw : Bytes)
    (pin : String) : Prop where
  type : (parseMessage parse raw).type = .pairRequest
  pin : (parseMessage parse raw).payload.stringValue "pin" "" = .ok pin
  key : ∃ pk, (parseMessage parse raw).payload.stringValue "pk" "" = .ok pk ∧
    PairingManager.keyUsable kx kp pk = true
  deviceId : ∃ id, (parseMessage parse raw).payload.stringValue "deviceId" "" = .ok id
  deviceName : ∃ name, (parseMessage parse raw).payload.stringValue "deviceName" "" = .ok name

/-- One guess. -/
theorem judge_step {n : Nat} {kp : KeyPair} {active pin : String} {raw : Bytes}
    (hl : Listens app n kp active) (hpin : PresentsPin parse kx kp raw pin)
    (token : ByteBlock kTokenSize) :
    ∃ app' es, (appMachine parse kx P H).step app (.message n raw token) = some (app', es) ∧
      verdictsOf es = [decide (pin = active)] ∧
      Listens app' n kp (if pin = active then "" else active) := by
  obtain ⟨sessionId, hn⟩ := hl.reading
  obtain ⟨p, hp, rfl, rfl⟩ := hl.pairing
  obtain ⟨pk, hpk, husable⟩ := hpin.key
  obtain ⟨deviceId, hid⟩ := hpin.deviceId
  obtain ⟨deviceName, hname⟩ := hpin.deviceName
  obtain ⟨state, devices, hout, hkey, hactive⟩ :=
    PairingManager.handlePairRequest_usable pin deviceId deviceName husable
  obtain ⟨es, hhandle, htold⟩ : ∃ es, app.handleMessage parse kx P sessionId raw token =
      .ok ({ app.onPaired devices with pairing := some state }, es) ∧
        verdictsOf es = [decide (pin = p.activePin)] := by
    simp only [Application.handleMessage, hpin.type, Application.onPairRequest, hpin.pin, hpk,
      hid, hname, hp, Except.mapError, bind, Except.bind, hout, pure, Except.pure]
    refine ⟨_, rfl, ?_⟩
    rw [verdictsOf, filterMap_paired verdictOf fun _ => rfl]
    cases decide (pin = p.activePin) <;> rfl
  obtain ⟨settings, hset, -⟩ := app.onPaired_eq devices
  refine ⟨{ app.onPaired devices with pairing := some state },
    .received n sessionId (parseMessage parse raw) :: es, ?_, htold, ?_⟩
  · simp only [appMachine, hl.running, Option.isSome_none, Bool.false_eq_true, if_false, appStep,
      hn, hpin.type, hl.free, if_true, hhandle]
  · rw [hset]
    exact ⟨hl.running, ⟨sessionId, hn⟩, hl.free, state, rfl, hkey, hactive⟩

/-- **Every guess is judged.**  However many guesses were wrong before, the next one is told
whether it is right: of any list of different PINs that a phone presents one after another,
the active one is accepted and the others are refused. -/
theorem every_guess_is_judged {n : Nat} {kp : KeyPair} {active : String}
    (hl : Listens app n kp active) {raws : List Bytes} {pins : List String}
    (hpins : List.Forall₂ (PresentsPin parse kx kp) raws pins) (hdiff : pins.Nodup)
    (hempty : "" ∉ pins) (token : ByteBlock kTokenSize) :
    ∃ app' es, (appMachine parse kx P H).Run app (raws.map (.message n · token)) app' es ∧
      verdictsOf es = pins.map fun pin => decide (pin = active) := by
  induction hpins generalizing app active with
  | nil => exact ⟨app, [], .nil, rfl⟩
  | @cons raw pin raws pins hpin _ ih =>
      obtain ⟨app₁, es, hstep, htold, hl₁⟩ := judge_step (P := P) hl hpin token
      obtain ⟨hnew, hdiff⟩ := List.nodup_cons.mp hdiff
      obtain ⟨app', fs, hrun, hrest⟩ := ih hl₁ hdiff (List.not_mem_of_not_mem_cons hempty)
      refine ⟨app', es ++ fs, .cons hstep hrun, ?_⟩
      rw [verdictsOf_append, htold, hrest, List.map_cons, List.singleton_append]
      congr 1
      refine List.map_congr_left fun other hother => ?_
      by_cases hright : pin = active
      · -- the PIN has been used, and is not presented again
        have hother' : other ≠ active := fun heq => hnew (hright ▸ heq ▸ hother)
        have hnonempty : other ≠ "" := fun heq => hempty (heq ▸ List.mem_cons_of_mem _ hother)
        simp [hright, hother', hnonempty]
      · rw [if_neg hright]

end Steps

/-! ## Some guesses -/

def guessJson (pin : String) : Json :=
  .object [("type", .string "pair_request"), ("pin", .string pin), ("pk", .string sampleKey)]

def guessMessages : List (String × Json) :=
  ["000006", "000007"].map fun pin =>
    ("\x7b\"type\":\"pair_request\",\"pin\":\"" ++ pin ++ "\",\"pk\":\"" ++ sampleKey ++ "\"\x7d",
      guessJson pin)

def guessMachine : Machine (Application String sha256) (AppAction String) (AppEvent String) :=
  appMachine (parseTable guessMessages) sampleKx samplePlatform sha256

/-- The bytes of one of the messages. -/
def guessBytes (i : Nat) : Bytes := ascii ((guessMessages.map Prod.fst).getD i "")

/-- Guess one PIN after the other until one is right. -/
def guessPlan (seen : List (AppEvent String)) : Option (AppAction String) :=
  if true ∈ verdictsOf seen then none
  else some (.message 0 (guessBytes (verdictsOf seen).length) (sampleToken 7))

/-- The program after an offer. -/
def afterOffer (app : Application String sha256) (drawn : Fin 1000000) :
    Application String sha256 :=
  ((guessMachine.step app (.createOffer "192.168.0.2" drawn)).map Prod.fst).getD app

/-- The verdicts of the plan when this PIN has been drawn. -/
def guessed (app : Application String sha256) (drawn : Fin 1000000) : List Bool :=
  verdictsOf (guessMachine.play (pinObserver String sha256) guessPlan 2 [] (afterOffer app drawn))

/-- Two guesses, of which the second is right for one of the PINs. -/
theorem pin_guesses_bounded_sample :
    ∃ app : Application String sha256, guessed app 7 = [false, true] ∧
      (Finset.univ.filter fun drawn => ((guessed app drawn).take 2).any id = true).card ≤ 2 := by
  obtain ⟨app, h, hr, hh⟩ := exists_reach_of_exec guessMachine anyStep
    (s := sampleProgram) sampleProgram_init
    ([.connect, .handshake 0 true] ++ initActions)
    (fun app _ => decide (app.ended = none ∧ app.stage = .ready) && app.pairing.isSome &&
      decide (guessed app 7 = [false, true]))
    (by decide +kernel)
  simp only [Bool.and_eq_true, decide_eq_true_eq] at hh
  obtain ⟨⟨⟨hended, hready⟩, hpairing⟩, hseven⟩ := hh
  obtain ⟨p, hp⟩ := Option.isSome_iff_exists.mp hpairing
  refine ⟨app, hseven, ?_⟩
  have hoffer : ∀ drawn, guessMachine.step app (.createOffer "192.168.0.2" drawn) =
      some (afterOffer app drawn, [.pairing (.offered (PairingManager.generatePin drawn))]) := by
    intro drawn
    simp [afterOffer, guessMachine, appMachine, hended, appStep, hready, hp]
  refine pin_guesses_bounded hoffer (fun seen a ha => ?_) 2 2 []
  unfold guessPlan at ha
  split at ha <;> cases ha
  rfl

theorem guess_presentsPin {parse : Bytes → Option Json} {raw : Bytes} {pin : String}
    (h : parse raw = some (guessJson pin)) : PresentsPin parse sampleKx sampleKeyPair raw pin := by
  have hmsg : parseMessage parse raw = ⟨.pairRequest, guessJson pin⟩ := by
    simp only [parseMessage, h]
    rfl
  have husable : PairingManager.keyUsable sampleKx sampleKeyPair sampleKey = true := by
    decide +kernel
  exact
    { type := by rw [hmsg]
      pin := by rw [hmsg]; rfl
      key := by rw [hmsg]; exact ⟨sampleKey, rfl, husable⟩
      deviceId := by rw [hmsg]; exact ⟨"", rfl⟩
      deviceName := by rw [hmsg]; exact ⟨"", rfl⟩ }

/-- The second of two guesses is right. -/
theorem every_guess_is_judged_sample :
    ∃ (app app' : Application String sha256) (es : List (AppEvent String)),
      guessMachine.Run app
        ((List.range 2).map fun i => .message 0 (guessBytes i) (sampleToken 7)) app' es ∧
        verdictsOf es = [false, true] := by
  obtain ⟨app, h, hr, hh⟩ := exists_reach_of_exec guessMachine anyStep
    (s := sampleProgram) sampleProgram_init
    ([.connect, .handshake 0 true] ++ initActions ++ [.createOffer "192.168.0.2" 7])
    (fun app _ => decide (app.ended = none ∧
      app.server.accepted[0]? = some ((1 : UInt64), LinkState.reading)) &&
      app.canHandle .pairRequest &&
      decide ((app.pairing.map fun p => (p.activeKeyPair, p.activePin)) =
        some (sampleKeyPair, "000007")))
    (by decide +kernel)
  simp only [Bool.and_eq_true, decide_eq_true_eq, Option.map_eq_some_iff, Prod.mk.injEq] at hh
  obtain ⟨⟨⟨hended, hreading⟩, hfree⟩, p, hp, hkey, hpin⟩ := hh
  have hpins : List.Forall₂ (PresentsPin (parseTable guessMessages) sampleKx sampleKeyPair)
      ((List.range 2).map guessBytes) ["000006", "000007"] :=
    .cons (guess_presentsPin rfl) (.cons (guess_presentsPin rfl) .nil)
  obtain ⟨app', es, hrun, hverdicts⟩ := every_guess_is_judged (P := samplePlatform)
    ⟨hended, ⟨1, hreading⟩, hfree, p, hp, hkey, hpin⟩ hpins (by decide) (by decide)
    (sampleToken 7)
  exact ⟨app, app', es, hrun, hverdicts⟩

end Iriseus.Core
