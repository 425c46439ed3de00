import Iriseus.Core.Replies

/-!
# The desktop and the phone hold the same secret

The desktop keeps one key pair from the construction of its `PairingManager` on,
sends its public half in every `welcome`, and derives the secret of a device
when a pairing request succeeds.  The phone derives its secret from the `welcome`
it happens to hold, which may be older or newer than the pairing and may come
from another session, with other offers and pairings in between.

The key exchange is libsodium's, on both sides; `KxAgree` is what its
documentation promises: what one side receives with, the other sends with.

## Main results

* `secrets_agree` — whatever `welcome` the phone uses, its secret is the one the
  desktop has stored.
-/

namespace Iriseus.Core

open Iriseus.Verified
open Iriseus.Verified.ByteStream
open Iriseus.Verified.Machine

/-! ## The two sides -/

/-- The session keys of the two sides of an exchange between key pairs with `Own` are
the same, with the directions exchanged. -/
structure KxAgree (kx kxClient : KxServer) (Own : KeyPair → Prop) : Prop where
  crossed : ∀ {server client : KeyPair} {rx tx : ByteBlock 32}, Own server → Own client →
    kx server.pub server.priv client.pub = some (rx, tx) →
      kxClient client.pub client.priv server.pub = some (tx, rx)

/-- The secret of a phone that is told the public key `pk`, as `guia_flutter.md`
251-255 has it: the phone is the client of the key exchange, and rx and tx are
combined by XOR. -/
def phoneSecret (kxClient : KxServer) (phone : KeyPair) (pk : String) : Option SharedSecret :=
  match PairingCrypto.fromBase64 pk with
  | .error _ => none
  | .ok bin =>
      if hsize : bin.length = 32 then
        (kxClient phone.pub phone.priv ⟨bin, hsize⟩).map fun keys =>
          { key := PairingCrypto.xorBlock keys.1 keys.2 }
      else none

theorem xorBlock_comm (rx tx : ByteBlock 32) :
    PairingCrypto.xorBlock rx tx = PairingCrypto.xorBlock tx rx := by
  simp only [PairingCrypto.xorBlock, ByteBlock.mk.injEq]
  exact List.zipWith_comm_of_comm UInt8.xor_comm

/-- A phone that is told the desktop's public key derives the desktop's secret. -/
theorem phoneSecret_eq {kx kxClient : KxServer} {Own : KeyPair → Prop}
    (hkx : KxAgree kx kxClient Own) {server phone : KeyPair} (hserver : Own server)
    (hphone : Own phone) {secret : SharedSecret}
    (hsecret : PairingCrypto.deriveShared kx server phone.pub = .ok secret) :
    phoneSecret kxClient phone (PairingCrypto.toBase64 server.pub.bytes) = some secret := by
  unfold PairingCrypto.deriveShared at hsecret
  split at hsecret
  · cases hsecret
  · rename_i rx tx hkeys
    cases hsecret
    have hclient := hkx.crossed hserver hphone hkeys
    simp only [phoneSecret, PairingCrypto.fromBase64_toBase64, server.pub.size, dite_true,
      hclient, Option.map_some, xorBlock_comm tx rx]

/-! ## The key pair of the manager -/

/-- The record holds no keys, or a key of the peer and the secret derived from it. -/
def PairedDevice.Derived (kx : KxServer) (kp : KeyPair) (d : PairedDevice) : Prop :=
  d.peerPubKey = none ∧ d.sharedSecret = none ∨
    ∃ pub secret, d.peerPubKey = some pub ∧ d.sharedSecret = some secret ∧
      PairingCrypto.deriveShared kx kp pub = .ok secret

/-- The manager tells its own public key and has derived every secret with its own
private one. -/
structure PairingManager.Keyed (kx : KxServer) (m : PairingManager) : Prop where
  told : m.currentOffer.pubKeyB64 = PairingCrypto.toBase64 m.activeKeyPair.pub.bytes
  derived : ∀ id d, m.getDevice id = some d → d.Derived kx m.activeKeyPair

namespace PairingManager

variable {kx : KxServer}

theorem keyed_construct (wsPort : Nat) (kp : KeyPair) : (construct wsPort kp).Keyed kx where
  told := rfl
  derived := fun id d hd => by simp [getDevice, construct] at hd

/-- Storing a record that is derived. -/
theorem Keyed.insert {m : PairingManager} (hm : m.Keyed kx) {device : PairedDevice}
    (hdevice : device.Derived kx m.activeKeyPair) (id pin : String) :
    Keyed kx { m with devices := m.devices.insert id device, activePin := pin } where
  told := hm.told
  derived := fun id' d hd => by
    by_cases hid : id' = id
    · subst hid
      rw [getDevice, AList.lookup_insert, Option.some.injEq] at hd
      exact hd ▸ hdevice
    · rw [getDevice, AList.lookup_insert_ne hid] at hd
      exact hm.derived id' d hd

/-- **One step** of the manager keeps its key pair and what it has told. -/
theorem keyed_step {m m' : PairingManager} {a : PairingAction} {es : List PairingEvent}
    (hm : m.Keyed kx) (hs : pairingStep kx m a = some (m', es)) :
    m'.Keyed kx ∧ m'.activeKeyPair = m.activeKeyPair := by
  cases a with
  | createOffer pcIp drawn =>
      cases hs
      exact ⟨⟨rfl, hm.derived⟩, rfl⟩
  | restoreDevice deviceId deviceName =>
      cases hs
      exact ⟨hm.insert (Or.inl ⟨rfl, rfl⟩) deviceId m.activePin, rfl⟩
  | handlePairRequest pin pk deviceId deviceName =>
      cases hs
      rcases handlePairRequest_spec kx m pin pk deviceId deviceName with
        ⟨-, -, peerPub, secret, -, hsecret, heq⟩ | ⟨-, r, -, heq⟩
      · rw [heq]
        exact ⟨hm.insert (Or.inr ⟨peerPub, secret, rfl, rfl, hsecret⟩) deviceId "", rfl⟩
      · rw [heq]
        exact ⟨hm, rfl⟩

end PairingManager

/-! ## The program -/

variable {κ : Type} [DecidableEq κ] {H : IncrementalHash} {parse : Bytes → Option Json}
variable {kx kxClient : KxServer} {P : Platform κ} {Own : KeyPair → Prop}

/-- The key pair that a step of `init` may draw. -/
def AppAction.keyPair? : AppAction κ → Option KeyPair
  | .init kp _ => some kp
  | _ => none

/-- It is one of libsodium's. -/
def KeysGenerated (Own : KeyPair → Prop) :
    StepCond (Application κ H) (AppAction κ) (AppEvent κ) :=
  fun _ _ a => ∀ kp ∈ a.keyPair?, Own kp

instance [DecidablePred Own] (app : Application κ H) (h : List (AppEvent κ))
    (a : AppAction κ) : Decidable (KeysGenerated Own app h a) :=
  inferInstanceAs (Decidable (∀ kp ∈ a.keyPair?, Own kp))

/-- The manager has one generated key pair, and every `welcome` has told its public
half, or nothing before there was a manager. -/
structure KeyInv (kx : KxServer) (Own : KeyPair → Prop) (app : Application κ H)
    (h : List (AppEvent κ)) : Prop where
  manager : ∀ p, app.pairing = some p → Own p.activeKeyPair ∧ p.Keyed kx
  welcomed : ∀ id pk flip, .send id (.welcome pk flip) ∈ h → pk = "" ∨
    ∃ p, app.pairing = some p ∧ pk = PairingCrypto.toBase64 p.activeKeyPair.pub.bytes

open Application

omit [DecidableEq κ] in
/-- Only a greeting is answered with a `welcome`. -/
theorem Answers.welcome {sessionId id : UInt64} {k : Option Request} {es : List (AppEvent κ)}
    (ha : Answers sessionId k es) {pk : String} {flip : Bool}
    (hmem : .send id (.welcome pk flip) ∈ es) : k = some .hello := by
  have hreply : Reply.welcome ∈ repliesOn id es :=
    List.mem_filterMap.mpr ⟨_, hmem, by simp [replyOf, Outgoing.reply?]⟩
  have hrequest : Request.hello ∈ (repliesOn id es).map Reply.request :=
    List.mem_map.mpr ⟨_, hreply, rfl⟩
  rw [ha.replies id] at hrequest
  split at hrequest
  · simpa using hrequest
  · cases hrequest

/-- A `welcome` tells the public key of the manager there is. -/
theorem welcome_step {app app' : Application κ H} {a : AppAction κ} {es : List (AppEvent κ)}
    (hs : appStep parse kx P app a = some (app', es)) {id : UInt64} {pk : String} {flip : Bool}
    (hmem : .send id (.welcome pk flip) ∈ es) :
    pk = app.getPcPublicKey ∧ app'.pairing = app.pairing := by
  cases a with
  | message n raw token =>
      simp only [appStep] at hs
      split at hs
      · rename_i sessionId hn
        split at hs
        · split at hs
          · rename_i app₁ es₁ hmsg
            cases hs
            have hmem₁ : .send id (.welcome pk flip) ∈ es₁ := by simpa using hmem
            have hhello := (answers_message hmsg).welcome hmem₁
            unfold handleMessage at hmsg
            simp only at hmsg
            generalize parseMessage parse raw = msg at hmsg hhello
            obtain ⟨type, payload⟩ := msg
            cases type <;> cases hhello
            simp only [bind_eq_ok, mapError_eq_ok, pure, Except.pure, Except.ok.injEq,
              Prod.mk.injEq] at hmsg
            obtain ⟨name, -, rfl, rfl⟩ := hmsg
            cases List.mem_singleton.mp hmem₁
            exact ⟨rfl, rfl⟩
          · cases hs
            simp at hmem
        · cases hs
      · cases hs
  | init kp ok | connect | handshake n ok | disconnect n | createOffer pcIp drawn
  | toggleFlip flip | runTask | transfers a =>
      cases (answers_step (by simp) hs).1.welcome hmem

/-- Only `init` makes a manager, with the key pair drawn for it. -/
theorem construct_step {app app' : Application κ H} {a : AppAction κ} {es : List (AppEvent κ)}
    (hs : appStep parse kx P app a = some (app', es)) (hnone : app.pairing = none)
    {p : PairingManager} (hp : app'.pairing = some p) :
    ∃ kp ok, a = .init kp ok ∧ p = PairingManager.construct 45678 kp := by
  have hsame : app'.pairing ≠ app.pairing := by simp [hnone, hp]
  cases appStep_cases hs with
  | @init kp ok _ _ hinit =>
      refine ⟨kp, ok, rfl, ?_⟩
      simp only [initStep, hnone] at hinit
      split at hinit
      case h_1 =>
        cases hinit
        simpa using hp.symm
      case h_9 =>
        obtain ⟨m, w, tes, hm, hstep, rfl, rfl⟩ := transferMove_cases hinit
        exact absurd hnone.symm hsame
      all_goals
        cases hinit <;> exact absurd (by first | rfl | exact hnone.symm) hsame
  | message hn hmove =>
      cases hmove with
      | pairRequest _ hpair =>
          simp only [onPairRequest, bind_eq_ok, mapError_eq_ok, hnone] at hpair
          obtain ⟨pin, -, pk, -, deviceId, -, deviceName, -, hpair⟩ := hpair
          cases hpair
      | hello | file | post | quiet => exact absurd rfl hsame
  | createOffer _ hold => simp [hnone] at hold
  | @runTask task => cases task <;> exact absurd rfl hsame
  | connect | handshake | disconnect | throws | toggleFlip | transfers =>
      exact absurd rfl hsame

omit [DecidableEq κ] in
/-- A manager keeps its key pair. -/
theorem key_kept {app app' : Application κ H} {es : List (AppEvent κ)}
    (hmove : PairingMove kx app app' es) {p : PairingManager} (hp : app.pairing = some p)
    (hkeyed : p.Keyed kx) :
    ∃ p', app'.pairing = some p' ∧ p'.Keyed kx ∧ p'.activeKeyPair = p.activeKeyPair := by
  cases hmove with
  | same hsame _ _ => exact ⟨p, hsame.trans hp, hkeyed, rfl⟩
  | construct hnone _ _ _ => simp [hnone] at hp
  | @move q q' a hold hnew hstep _ =>
      obtain rfl : q = p := Option.some.inj (hold.symm.trans hp)
      obtain ⟨hkeyed', hkey⟩ := PairingManager.keyed_step hkeyed hstep
      exact ⟨q', hnew, hkeyed', hkey⟩

theorem keyInv_step {app app' : Application κ H} {a : AppAction κ} {h es : List (AppEvent κ)}
    (hinit : InitInv app) (hI : KeyInv kx Own app h) (hok : KeysGenerated Own app h a)
    (hs : appStep parse kx P app a = some (app', es)) : KeyInv kx Own app' (h ++ es) := by
  have hmove := (appStep_effects hinit hs).pairing
  constructor
  · intro p hp
    cases hold : app.pairing with
    | none =>
        obtain ⟨kp, ok, rfl, rfl⟩ := construct_step hs hold hp
        exact ⟨hok kp rfl, PairingManager.keyed_construct _ _⟩
    | some q =>
        obtain ⟨hown, hkeyed⟩ := hI.manager q hold
        obtain ⟨p', hnew, hkeyed', hkey⟩ := key_kept hmove hold hkeyed
        obtain rfl : p' = p := Option.some.inj (hnew.symm.trans hp)
        exact ⟨hkey ▸ hown, hkeyed'⟩
  · intro id pk flip hmem
    -- what was told before is the key of the manager there was, and so there is
    have hkept : ∀ {pk : String}, (pk = "" ∨ ∃ p, app.pairing = some p ∧
        pk = PairingCrypto.toBase64 p.activeKeyPair.pub.bytes) → pk = "" ∨
          ∃ p, app'.pairing = some p ∧
            pk = PairingCrypto.toBase64 p.activeKeyPair.pub.bytes := by
      rintro pk (hnone | ⟨q, hold, hpk⟩)
      · exact Or.inl hnone
      · obtain ⟨p', hnew, -, hkey⟩ := key_kept hmove hold (hI.manager q hold).2
        exact Or.inr ⟨p', hnew, by rw [hkey, hpk]⟩
    rcases List.mem_append.mp hmem with hmem | hmem
    · exact hkept (hI.welcomed id pk flip hmem)
    · obtain ⟨hpk, -⟩ := welcome_step hs hmem
      refine hkept ?_
      rw [hpk, getPcPublicKey]
      cases hold : app.pairing with
      | none => exact Or.inl rfl
      | some q => exact Or.inr ⟨q, rfl, (hI.manager q hold).2.told⟩

theorem keyInv_reach {app : Application κ H} {h : List (AppEvent κ)}
    (hr : (appMachine parse kx P H).Reach (KeysGenerated Own) app h) : KeyInv kx Own app h := by
  refine hr.invariant_along (fun app h => KeyInv kx Own app h) ?_ ?_
  · rintro app ⟨-, -, settings, fs, rfl⟩
    exact ⟨by simp, by simp⟩
  · intro app h a app' es hr hI hok hstep
    exact keyInv_step (initInv_reach hr) hI hok (appMachine_step hstep).2

/-- **One secret.**  In every run of the program, whatever was offered, paired and
greeted, by whom and in which order: a phone whose public key is stored with a secret
derives that secret from every `welcome` with a key that was ever sent, on any
session, before or after it was paired. -/
theorem secrets_agree (hkx : KxAgree kx kxClient Own) {app : Application κ H}
    {h : List (AppEvent κ)} (hr : (appMachine parse kx P H).Reach (KeysGenerated Own) app h)
    {p : PairingManager} (hp : app.pairing = some p) {deviceId : String}
    {device : PairedDevice} (hdevice : p.getDevice deviceId = some device)
    {phone : KeyPair} (hphone : Own phone) (hpub : device.peerPubKey = some phone.pub)
    {secret : SharedSecret} (hsecret : device.sharedSecret = some secret)
    {sessionId : UInt64} {pk : String} {flip : Bool}
    (hwelcome : .send sessionId (.welcome pk flip) ∈ h) (hpk : pk ≠ "") :
    phoneSecret kxClient phone pk = some secret := by
  have hI := keyInv_reach hr
  obtain ⟨hown, hkeyed⟩ := hI.manager p hp
  rcases hI.welcomed sessionId pk flip hwelcome with hnone | ⟨q, hq, rfl⟩
  · exact absurd hnone hpk
  · obtain rfl : q = p := Option.some.inj (hq.symm.trans hp)
    rcases hkeyed.derived deviceId device hdevice with ⟨hno, -⟩ | ⟨pub, sec, hpub', hsec', hder⟩
    · rw [hno] at hpub
      cases hpub
    · obtain rfl : pub = phone.pub := Option.some.inj (hpub'.symm.trans hpub)
      obtain rfl : sec = secret := Option.some.inj (hsec'.symm.trans hsecret)
      exact phoneSecret_eq hkx hown hphone hder

/-! ## A phone -/

/-- A phone's key pair: the private key is the bytes `32, …, 63`. -/
def phoneKeyPair : KeyPair where
  pub := ⟨[53, 128, 114, 214, 54, 88, 128, 209, 174, 234, 50, 154, 223, 145, 33, 56, 56, 81,
    237, 33, 162, 142, 59, 117, 233, 101, 208, 210, 205, 22, 98, 84], rfl⟩
  priv := ⟨(List.range 32).map fun i => UInt8.ofNat (32 + i), rfl⟩

/-- The session keys of `sampleKeyPair` with the phone, as libsodium computes them. -/
def exchangeKeys : ByteBlock 32 × ByteBlock 32 :=
  (⟨[13, 181, 217, 142, 137, 218, 212, 154, 11, 41, 119, 217, 208, 18, 68, 15, 191, 176, 185,
    233, 15, 22, 134, 88, 214, 250, 17, 231, 44, 90, 165, 167], rfl⟩,
   ⟨[203, 97, 102, 42, 138, 229, 65, 253, 121, 192, 130, 199, 110, 201, 207, 98, 208, 158, 11,
    207, 70, 174, 6, 204, 88, 171, 25, 198, 87, 55, 100, 255], rfl⟩)

def exchangeKx : KxServer := fun pub _ peer =>
  if pub = sampleKeyPair.pub ∧ peer = phoneKeyPair.pub then some exchangeKeys else none

def exchangeKxClient : KxServer := fun pub _ peer =>
  if pub = phoneKeyPair.pub ∧ peer = sampleKeyPair.pub then
    some (exchangeKeys.2, exchangeKeys.1)
  else none

/-- The two key pairs of the exchange. -/
def OfExchange (kp : KeyPair) : Prop := kp = sampleKeyPair ∨ kp = phoneKeyPair

instance : DecidablePred OfExchange := fun _ => inferInstanceAs (Decidable (_ ∨ _))

theorem exchange_agrees : KxAgree exchangeKx exchangeKxClient OfExchange where
  crossed := by
    intro server client rx tx hserver hclient hkeys
    unfold exchangeKx at hkeys
    split at hkeys
    · rename_i hpair
      rw [Option.some.injEq] at hkeys
      simp [exchangeKxClient, hpair.1, hpair.2, hkeys]
    · cases hkeys

/-- The public keys in base64. -/
def desktopKey : String := "j0DFrbaPJWJK5bIU6nZ6bslNgp09e14a0bpvPiE4KF8"

def phoneKey : String := "NYBy1jZYgNGu6jKa35EhODhR7SGijjt16WXQ0s0WYlQ"

def exchangeMessages : List (String × Json) :=
  [ ("\x7b\"type\":\"hello\"\x7d", .object [("type", .string "hello")])
  , ("\x7b\"type\":\"pair_request\",\"pin\":\"000007\",\"pk\":\"" ++ phoneKey ++
        "\",\"deviceId\":\"phone\"\x7d",
      .object [("type", .string "pair_request"), ("pin", .string "000007"),
        ("pk", .string phoneKey), ("deviceId", .string "phone")]) ]

/-- The first session sends one of these messages. -/
def exchange (i : Nat) : AppAction String :=
  .message 0 (ascii ((exchangeMessages.map Prod.fst).getD i "")) (sampleToken 7)

/-- Session 1 is told this public key. -/
def tellsFirst (pk : String) : AppEvent String → Bool
  | .send 1 (.welcome pk' true) => pk' = pk
  | _ => false

/-- The phone greets, is paired with the second of two offers and derives the secret
stored for it. -/
theorem secrets_agree_sample :
    ∃ secret, phoneSecret exchangeKxClient phoneKeyPair desktopKey = some secret := by
  obtain ⟨app, h, hr, hh⟩ := exists_reach_of_exec
    (appMachine (parseTable exchangeMessages) exchangeKx samplePlatform sha256)
    (KeysGenerated OfExchange) (s := sampleProgram) sampleProgram_init
    ([.connect, .handshake 0 true] ++ initActions ++
      [exchange 0, .createOffer "192.168.0.2" 8, .createOffer "192.168.0.2" 7, exchange 1])
    (fun (app : Application String sha256) h =>
      match app.pairing.bind (·.getDevice "phone") with
      | some device => decide (device.peerPubKey = some phoneKeyPair.pub) &&
          device.sharedSecret.isSome &&
            h.any (tellsFirst desktopKey)
      | none => false)
    (by decide +kernel)
  split at hh
  · rename_i device hdevice
    simp only [Bool.and_eq_true, decide_eq_true_eq, List.any_eq_true] at hh
    obtain ⟨⟨hpub, hsome⟩, e, he, htells⟩ := hh
    obtain ⟨p, hp, hget⟩ := Option.bind_eq_some_iff.mp hdevice
    obtain ⟨secret, hsecret⟩ := Option.isSome_iff_exists.mp hsome
    unfold tellsFirst at htells
    split at htells
    · rw [decide_eq_true_iff] at htells
      subst htells
      exact ⟨secret, secrets_agree exchange_agrees hr hp hget (Or.inr rfl) hpub hsecret he
        (by decide)⟩
    · cases htells
  · cases hh

end Iriseus.Core
