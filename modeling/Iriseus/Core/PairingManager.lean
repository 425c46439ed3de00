import Mathlib.Data.List.AList
import Iriseus.Core.PairingCrypto

/-!
# Pairing by PIN: `PairingManager`

Port of `PairingManager.cpp`.  An offer puts a fresh six-digit PIN in force; a
pairing request is accepted when it presents that PIN and a usable public key,
and clears the PIN.  The state in which no PIN is in force is the empty string
in `activePin`, compared like any other PIN.

`handlePairRequest_cases` says all a request can do; nothing later unfolds it.
-/

namespace Iriseus.Core

open Iriseus.Verified.ByteStream

/-- A paired device.  A device restored from the settings has no keys: the
program leaves these fields uninitialised. -/
structure PairedDevice where
  deviceId : String
  deviceName : String
  peerPubKey : Option (ByteBlock 32)
  sharedSecret : Option SharedSecret
  deriving DecidableEq, Repr

structure PairingOffer where
  pcIp : String
  wsPort : Nat
  pin : String
  pubKeyB64 : String
  localKeyPair : Option KeyPair
  deriving DecidableEq, Repr

structure PairingManager where
  wsPort : Nat
  devices : AList (fun _ : String => PairedDevice)
  activePin : String
  activeKeyPair : KeyPair
  currentOffer : PairingOffer

namespace PairingManager

/-- The constructor: `kp` is the key pair it generates. -/
def construct (wsPort : Nat) (kp : KeyPair) : PairingManager where
  wsPort := wsPort
  devices := ∅
  activePin := ""
  activeKeyPair := kp
  currentOffer :=
    { pcIp := "", wsPort := 0, pin := ""
      pubKeyB64 := PairingCrypto.toBase64 kp.pub.bytes, localKeyPair := none }

/-- The decimal digits of the drawn number, filled with zeros to width six. -/
def generatePin (drawn : Fin 1000000) : String :=
  String.ofList (List.leftpad 6 '0' (Nat.toDigits 10 drawn))

/-- `createOffer`: `pcIp` is the local address found and `drawn` the random
number of the PIN. -/
def createOffer (m : PairingManager) (pcIp : String) (drawn : Fin 1000000) :
    PairingManager :=
  let pin := generatePin drawn
  { m with
    activePin := pin
    currentOffer :=
      { pcIp := pcIp, wsPort := m.wsPort, pin := pin
        pubKeyB64 := PairingCrypto.toBase64 m.activeKeyPair.pub.bytes
        localKeyPair := some m.activeKeyPair } }

/-- What a pairing request leaves: the state, its result or the exception it
throws, and the calls of `m_onPaired`. -/
structure PairRequestOutcome where
  state : PairingManager
  result : Except CryptoError Bool
  onPaired : List PairedDevice

def handlePairRequest (kx : KxServer) (m : PairingManager)
    (pin peerPubKeyB64 deviceId deviceName : String) : PairRequestOutcome :=
  if pin.utf8ByteSize ≠ m.activePin.utf8ByteSize then ⟨m, .ok false, []⟩
  else if pin ≠ m.activePin then ⟨m, .ok false, []⟩
  else
    match PairingCrypto.fromBase64 peerPubKeyB64 with
    | .error e => ⟨m, .error e, []⟩
    | .ok peerPubVec =>
        if hsize : peerPubVec.length = 32 then
          match PairingCrypto.deriveShared kx m.activeKeyPair ⟨peerPubVec, hsize⟩ with
          | .error e => ⟨m, .error e, []⟩
          | .ok secret =>
              let device : PairedDevice :=
                { deviceId := deviceId, deviceName := deviceName
                  peerPubKey := some ⟨peerPubVec, hsize⟩, sharedSecret := some secret }
              ⟨{ m with devices := m.devices.insert deviceId device, activePin := "" },
                .ok true, [device]⟩
        else ⟨m, .ok false, []⟩

def isPaired (m : PairingManager) (deviceId : String) : Bool :=
  (m.devices.lookup deviceId).isSome

def getDevice (m : PairingManager) (deviceId : String) : Option PairedDevice :=
  m.devices.lookup deviceId

def restoreDevice (m : PairingManager) (deviceId deviceName : String) :
    PairingManager :=
  { m with
    devices := m.devices.insert deviceId
      { deviceId := deviceId, deviceName := deviceName
        peerPubKey := none, sharedSecret := none } }

/-! ## PINs -/

/-- Six decimal digits. -/
def SixDigits (pin : String) : Prop :=
  pin.toList.length = 6 ∧ ∀ c ∈ pin.toList, c.isDigit

theorem generatePin_sixDigits (drawn : Fin 1000000) : SixDigits (generatePin drawn) := by
  have hlen : (Nat.toDigits 10 drawn).length ≤ 6 :=
    (Nat.length_toDigits_le_iff (by decide) (by decide)).mpr drawn.isLt
  refine ⟨?_, ?_⟩
  · simp only [generatePin, String.toList_ofList, List.leftpad, List.length_append,
      List.length_replicate]
    omega
  · intro c hc
    simp only [generatePin, String.toList_ofList, List.leftpad, List.mem_append,
      List.mem_replicate] at hc
    rcases hc with ⟨-, rfl⟩ | hc
    · decide
    · exact Nat.isDigit_of_mem_toDigits (by decide) (by decide) hc

theorem SixDigits.ne_empty {pin : String} (h : SixDigits pin) : pin ≠ "" := by
  rintro rfl
  simp [SixDigits] at h

/-! ## What a pairing request can do -/

/-- The public key a request carries is well-formed base64 of 32 bytes from
which the key exchange derives keys. -/
def keyUsable (kx : KxServer) (kp : KeyPair) (peerPubKeyB64 : String) : Bool :=
  match PairingCrypto.fromBase64 peerPubKeyB64 with
  | .error _ => false
  | .ok peerPubVec =>
      if hsize : peerPubVec.length = 32 then
        (kx kp.pub kp.priv ⟨peerPubVec, hsize⟩).isSome
      else false

/-- The record of a device with the given key and the secret derived from it. -/
def newDevice (deviceId deviceName : String) (peerPub : ByteBlock 32)
    (secret : SharedSecret) : PairedDevice where
  deviceId := deviceId
  deviceName := deviceName
  peerPubKey := some peerPub
  sharedSecret := some secret

/-- What a request does: with the active PIN and a usable key it stores the record
of the device, clears the PIN and reports the record once; otherwise it changes
nothing and reports nothing. -/
theorem handlePairRequest_spec (kx : KxServer) (m : PairingManager)
    (pin pk deviceId deviceName : String) :
    (pin = m.activePin ∧ keyUsable kx m.activeKeyPair pk = true ∧
      ∃ peerPub secret, PairingCrypto.fromBase64 pk = .ok peerPub.bytes ∧
        PairingCrypto.deriveShared kx m.activeKeyPair peerPub = .ok secret ∧
        m.handlePairRequest kx pin pk deviceId deviceName =
          ⟨{ m with
              devices := m.devices.insert deviceId
                (newDevice deviceId deviceName peerPub secret)
              activePin := "" },
            .ok true, [newDevice deviceId deviceName peerPub secret]⟩) ∨
    (¬(pin = m.activePin ∧ keyUsable kx m.activeKeyPair pk = true) ∧
      ∃ r, r ≠ .ok true ∧
        m.handlePairRequest kx pin pk deviceId deviceName = ⟨m, r, []⟩) := by
  unfold handlePairRequest keyUsable
  by_cases hpin : pin = m.activePin
  · subst hpin
    simp only [ne_eq, not_true_eq_false, if_false, true_and]
    cases hb : PairingCrypto.fromBase64 pk with
    | error e => exact Or.inr ⟨by simp, .error e, by simp, rfl⟩
    | ok peerPubVec =>
        by_cases hsize : peerPubVec.length = 32
        · simp only [hsize, dite_true, PairingCrypto.deriveShared]
          cases hk : kx m.activeKeyPair.pub m.activeKeyPair.priv ⟨peerPubVec, hsize⟩ with
          | none => exact Or.inr ⟨by simp, .error .keyDerivationFailed, by simp, rfl⟩
          | some keys =>
              refine Or.inl ⟨by simp, ⟨peerPubVec, hsize⟩,
                ⟨PairingCrypto.xorBlock keys.1 keys.2⟩, rfl, ?_, rfl⟩
              simp only [hk]
        · simp only [hsize, dite_false]
          exact Or.inr ⟨by simp, .ok false, by simp, rfl⟩
  · refine Or.inr ⟨fun h => hpin h.1, .ok false, by simp, ?_⟩
    simp only [hpin, ne_eq, not_false_eq_true, if_true, ite_self]

/-- A request either is accepted — its PIN is the active one and its key is
usable; then it adds the device, clears the PIN and reports the device once —
or it changes nothing and reports nothing. -/
theorem handlePairRequest_cases (kx : KxServer) (m : PairingManager)
    (pin pk deviceId deviceName : String) :
    (pin = m.activePin ∧ keyUsable kx m.activeKeyPair pk = true ∧
      ∃ device : PairedDevice, device.deviceId = deviceId ∧
        device.deviceName = deviceName ∧
        m.handlePairRequest kx pin pk deviceId deviceName =
          ⟨{ m with devices := m.devices.insert deviceId device, activePin := "" },
            .ok true, [device]⟩) ∨
    (¬(pin = m.activePin ∧ keyUsable kx m.activeKeyPair pk = true) ∧
      ∃ r, r ≠ .ok true ∧
        m.handlePairRequest kx pin pk deviceId deviceName = ⟨m, r, []⟩) := by
  rcases handlePairRequest_spec kx m pin pk deviceId deviceName with
    ⟨hpin, hkey, peerPub, secret, -, -, heq⟩ | hrejected
  · exact Or.inl ⟨hpin, hkey, _, rfl, rfl, heq⟩
  · exact Or.inr hrejected

/-- A request succeeds exactly with the active PIN and a usable key. -/
theorem handlePairRequest_ok_iff (kx : KxServer) (m : PairingManager)
    (pin pk deviceId deviceName : String) :
    (m.handlePairRequest kx pin pk deviceId deviceName).result = .ok true ↔
      pin = m.activePin ∧ keyUsable kx m.activeKeyPair pk = true := by
  rcases handlePairRequest_cases kx m pin pk deviceId deviceName with
    ⟨hpin, hkey, device, -, -, heq⟩ | ⟨hnot, r, hr, heq⟩
  · rw [heq]
    exact ⟨fun _ => ⟨hpin, hkey⟩, fun _ => rfl⟩
  · rw [heq]
    exact ⟨fun h => absurd h hr, fun h => absurd h hnot⟩

/-- Neither decoding the public key of a request nor deriving keys from it
throws. -/
def keyReadable (kx : KxServer) (kp : KeyPair) (peerPubKeyB64 : String) : Bool :=
  match PairingCrypto.fromBase64 peerPubKeyB64 with
  | .error _ => false
  | .ok peerPubVec =>
      if hsize : peerPubVec.length = 32 then
        (kx kp.pub kp.priv ⟨peerPubVec, hsize⟩).isSome
      else true

/-- A request throws exactly when it presents the active PIN and a key that
cannot be read. -/
theorem handlePairRequest_isOk_iff (kx : KxServer) (m : PairingManager)
    (pin pk deviceId deviceName : String) :
    (m.handlePairRequest kx pin pk deviceId deviceName).result.isOk = true ↔
      (pin = m.activePin → keyReadable kx m.activeKeyPair pk = true) := by
  unfold handlePairRequest keyReadable
  by_cases hpin : pin = m.activePin
  · subst hpin
    simp only [ne_eq, not_true_eq_false, if_false, true_implies]
    cases hb : PairingCrypto.fromBase64 pk with
    | error e => simp [Except.isOk, Except.toBool]
    | ok peerPubVec =>
        by_cases hsize : peerPubVec.length = 32
        · simp only [hsize, dite_true, PairingCrypto.deriveShared]
          cases hk : kx m.activeKeyPair.pub m.activeKeyPair.priv ⟨peerPubVec, hsize⟩ with
          | none => simp [Except.isOk, Except.toBool]
          | some keys => simp [Except.isOk, Except.toBool]
        · simp [hsize, Except.isOk, Except.toBool]
  · simp [hpin, Except.isOk, Except.toBool]

/-! ## All or nothing -/

/-- The request has paired `device`: its record is stored under its identifier
and reported once, the PIN is cleared, and nothing else has changed. -/
structure PairRequestOutcome.Pairs (r : PairRequestOutcome) (kx : KxServer)
    (m : PairingManager) (pk : String) (device : PairedDevice) : Prop where
  accepted : r.result = .ok true
  key : ∃ peerPub secret, PairingCrypto.fromBase64 pk = .ok peerPub.bytes ∧
    PairingCrypto.deriveShared kx m.activeKeyPair peerPub = .ok secret ∧
    device.peerPubKey = some peerPub ∧ device.sharedSecret = some secret
  stored : r.state.getDevice device.deviceId = some device
  others : ∀ id, id ≠ device.deviceId → r.state.getDevice id = m.getDevice id
  kept : r.state = { m with devices := r.state.devices, activePin := "" }
  reported : r.onPaired = [device]

/-- The request returns false or throws, and has left no trace: a device with the
active PIN and a usable key can still be paired. -/
structure PairRequestOutcome.Fails (r : PairRequestOutcome) (kx : KxServer)
    (m : PairingManager) : Prop where
  refused : r.result ≠ .ok true
  kept : r.state = m
  silent : r.onPaired = []
  retry : ∀ pk id name, keyUsable kx m.activeKeyPair pk = true →
    (r.state.handlePairRequest kx m.activePin pk id name).result = .ok true

/-- **A pairing attempt is all or nothing.** -/
theorem pair_request_all_or_nothing (kx : KxServer) (m : PairingManager)
    (pin pk deviceId deviceName : String) :
    (∃ device : PairedDevice, device.deviceId = deviceId ∧ device.deviceName = deviceName ∧
      (m.handlePairRequest kx pin pk deviceId deviceName).Pairs kx m pk device) ∨
    (m.handlePairRequest kx pin pk deviceId deviceName).Fails kx m := by
  rcases handlePairRequest_spec kx m pin pk deviceId deviceName with
    ⟨-, -, peerPub, secret, hbytes, hsecret, heq⟩ | ⟨-, r, hr, heq⟩
  · refine Or.inl ⟨newDevice deviceId deviceName peerPub secret, rfl, rfl, ?_⟩
    rw [heq]
    exact
      { accepted := rfl
        key := ⟨peerPub, secret, hbytes, hsecret, rfl, rfl⟩
        stored := AList.lookup_insert _
        others := fun _ hne => AList.lookup_insert_ne hne
        kept := rfl
        reported := rfl }
  · refine Or.inr ?_
    rw [heq]
    exact
      { refused := hr
        kept := rfl
        silent := rfl
        retry := fun pk' id name hkey =>
          (handlePairRequest_ok_iff kx m m.activePin pk' id name).mpr ⟨rfl, hkey⟩ }

/-! ## Who is paired -/

@[simp] theorem isPaired_construct (wsPort : Nat) (kp : KeyPair) (d : String) :
    (construct wsPort kp).isPaired d = false := rfl

/-- Storing a device pairs its identifier and no other. -/
theorem isPaired_insert (m : PairingManager) (device : PairedDevice) (id pin d : String) :
    isPaired { m with devices := m.devices.insert id device, activePin := pin } d = true ↔
      m.isPaired d = true ∨ d = id := by
  unfold isPaired
  by_cases hd : d = id
  · subst hd
    simp [AList.lookup_insert]
  · simp [AList.lookup_insert_ne hd, hd]

@[simp] theorem createOffer_activePin (m : PairingManager) (ip : String)
    (drawn : Fin 1000000) : (m.createOffer ip drawn).activePin = generatePin drawn := rfl

@[simp] theorem createOffer_activeKeyPair (m : PairingManager) (ip : String)
    (drawn : Fin 1000000) : (m.createOffer ip drawn).activeKeyPair = m.activeKeyPair := rfl

@[simp] theorem restoreDevice_activePin (m : PairingManager) (id name : String) :
    (m.restoreDevice id name).activePin = m.activePin := rfl

end PairingManager

end Iriseus.Core
