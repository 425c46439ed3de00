import Iriseus.Core.PairingManager
import Iriseus.Verified.Machine

/-!
# Runs of the pairing manager: when a PIN is live

A run of the pairing manager is any sequence of offers, restored devices and
pairing requests from the constructed state.  Its history says which PIN was
offered and which requests were accepted, so that "a PIN is outstanding" is a
function of the history (`liveOffer`), independent of the string the program
keeps.

The state follows the history: `activePin` is the outstanding PIN, and the
empty string when there is none (`pinInv_step`).  That string is compared like
any PIN, so a request without a PIN is accepted while no offer is outstanding.
`LivePinRequest` excludes exactly these requests, and `pinLive_iff` says that
it is exactly what a step must meet to keep every acceptance backed by a live
offer.
-/

namespace Iriseus.Core

open Iriseus.Verified
open Iriseus.Verified.ByteStream
open PairingManager

inductive PairingAction where
  | createOffer (pcIp : String) (drawn : Fin 1000000)
  | restoreDevice (deviceId deviceName : String)
  | handlePairRequest (pin peerPubKeyB64 deviceId deviceName : String)

inductive PairingEvent where
  | offered (pin : String)
  | restored (deviceId : String)
  | accepted (pin : String)
  | refused
  | threw (e : CryptoError)
  deriving DecidableEq, Repr

/-- The event a request ends with. -/
def requestEvent (pin : String) : Except CryptoError Bool → PairingEvent
  | .ok true => .accepted pin
  | .ok false => .refused
  | .error e => .threw e

def pairingStep (kx : KxServer) (m : PairingManager) :
    PairingAction → Option (PairingManager × List PairingEvent)
  | .createOffer pcIp drawn =>
      some (m.createOffer pcIp drawn, [.offered (generatePin drawn)])
  | .restoreDevice deviceId deviceName =>
      some (m.restoreDevice deviceId deviceName, [.restored deviceId])
  | .handlePairRequest pin pk deviceId deviceName =>
      let out := m.handlePairRequest kx pin pk deviceId deviceName
      some (out.state, [requestEvent pin out.result])

def pairingMachine (kx : KxServer) :
    Machine PairingManager PairingAction PairingEvent where
  Init m := ∃ wsPort kp, m = construct wsPort kp
  step := pairingStep kx

/-! ## Outstanding offers, read off the history -/

def afterEvent (live : Option String) : PairingEvent → Option String
  | .offered pin => some pin
  | .accepted _ => none
  | _ => live

/-- The PIN of the latest offer, unless a request was accepted since. -/
def liveOffer (h : List PairingEvent) : Option String := h.foldl afterEvent none

def isOffer : PairingEvent → Bool
  | .offered _ => true
  | _ => false

def isAccepted : PairingEvent → Bool
  | .accepted _ => true
  | _ => false

/-- Every accepted request presented the six-digit PIN of the latest offer,
made after the request accepted before it; so there are at most as many
acceptances as offers. -/
structure PinLive (h : List PairingEvent) : Prop where
  live : ∀ h₁ pin h₂, h = h₁ ++ .accepted pin :: h₂ →
    liveOffer h₁ = some pin ∧ SixDigits pin
  count : h.countP isAccepted ≤ h.countP isOffer

/-- A request is made with a non-empty PIN, or while a PIN is active, or with
a key that cannot be used. -/
def LivePinRequest (kx : KxServer) :
    Machine.StepCond PairingManager PairingAction PairingEvent :=
  fun m _ a =>
    match a with
    | .handlePairRequest pin pk _ _ =>
        pin ≠ "" ∨ m.activePin ≠ "" ∨ keyUsable kx m.activeKeyPair pk = false
    | _ => True

instance (kx : KxServer) : ∀ m h a, Decidable (LivePinRequest kx m h a) := by
  intro m h a
  cases a <;> unfold LivePinRequest <;> infer_instance

@[simp] theorem liveOffer_snoc (h : List PairingEvent) (e : PairingEvent) :
    liveOffer (h ++ [e]) = afterEvent (liveOffer h) e := by
  simp [liveOffer]

/-! ## The state follows the history -/

/-- The program's PIN is the outstanding one, empty when there is none; the
outstanding PIN has six digits; and an outstanding offer is one more offer
than acceptances. -/
structure PinInv (m : PairingManager) (h : List PairingEvent) : Prop where
  pin : m.activePin = (liveOffer h).getD ""
  digits : ∀ pin, liveOffer h = some pin → SixDigits pin
  count : h.countP isAccepted + (if (liveOffer h).isSome then 1 else 0) ≤
    h.countP isOffer
  live : PinLive h

theorem pinInv_construct (wsPort : Nat) (kp : KeyPair) :
    PinInv (construct wsPort kp) [] where
  pin := rfl
  digits := by simp [liveOffer]
  count := by simp [liveOffer]
  live := { live := by simp, count := by simp }

/-- Extending a history by one event that is not an acceptance, or by an
acceptance of the outstanding PIN, keeps every acceptance live. -/
theorem PinLive.snoc {h : List PairingEvent} {e : PairingEvent} (hl : PinLive h)
    (he : ∀ pin, e = .accepted pin → liveOffer h = some pin ∧ SixDigits pin)
    (hcount : (h ++ [e]).countP isAccepted ≤ (h ++ [e]).countP isOffer) :
    PinLive (h ++ [e]) where
  count := hcount
  live := by
    intro h₁ pin h₂ heq
    rcases Machine.append_eq_append_cons heq with ⟨h₂', hold, -⟩ | ⟨es₁, hh₁, hes⟩
    · exact hl.live h₁ pin h₂' hold
    · cases es₁ with
      | nil =>
          simp only [List.nil_append, List.cons.injEq] at hes
          rw [hh₁, List.append_nil]
          exact he pin hes.1
      | cons x xs => simp at hes

/-- The event of a request that was not accepted leaves offers and counts. -/
private theorem requestEvent_of_ne (pin : String) {r : Except CryptoError Bool}
    (hr : r ≠ .ok true) :
    (∀ live, afterEvent live (requestEvent pin r) = live) ∧
      isAccepted (requestEvent pin r) = false ∧
      isOffer (requestEvent pin r) = false ∧
      ∀ p, requestEvent pin r ≠ .accepted p := by
  match r with
  | .ok true => exact absurd rfl hr
  | .ok false => exact ⟨fun _ => rfl, rfl, rfl, by simp [requestEvent]⟩
  | .error e => exact ⟨fun _ => rfl, rfl, rfl, by simp [requestEvent]⟩

/-- An event that neither offers nor accepts keeps the invariant. -/
private theorem PinInv.snoc_neutral {m m' : PairingManager} {h : List PairingEvent}
    {e : PairingEvent} (hI : PinInv m h) (hpin : m'.activePin = m.activePin)
    (hafter : ∀ live, afterEvent live e = live) (hacc : isAccepted e = false)
    (hoff : isOffer e = false) (hne : ∀ p, e ≠ .accepted p) :
    PinInv m' (h ++ [e]) where
  pin := by rw [hpin, liveOffer_snoc, hafter, hI.pin]
  digits := by rw [liveOffer_snoc, hafter]; exact hI.digits
  count := by
    rw [liveOffer_snoc, hafter]
    simpa [List.countP_append, hacc, hoff] using hI.count
  live := by
    refine hI.live.snoc (fun p hp => absurd hp (hne p)) ?_
    simpa [List.countP_append, hacc, hoff] using hI.live.count

/-- **One step.**  A step that meets `LivePinRequest` keeps the invariant. -/
theorem pinInv_step (kx : KxServer) {m m' : PairingManager}
    {h es : List PairingEvent} {a : PairingAction} (hI : PinInv m h)
    (hok : LivePinRequest kx m h a) (hs : pairingStep kx m a = some (m', es)) :
    PinInv m' (h ++ es) := by
  cases a with
  | createOffer pcIp drawn =>
      simp only [pairingStep, Option.some.injEq, Prod.mk.injEq] at hs
      obtain ⟨rfl, rfl⟩ := hs
      refine { pin := by simp [afterEvent], digits := ?_, count := ?_, live := ?_ }
      · intro pin hp
        simp only [liveOffer_snoc, afterEvent, Option.some.injEq] at hp
        exact hp ▸ generatePin_sixDigits drawn
      · have hc := hI.live.count
        simp [List.countP_append, isAccepted, isOffer, afterEvent, hc]
      · refine hI.live.snoc (by simp) ?_
        have hc := hI.live.count
        simp only [List.countP_append, List.countP_singleton, isAccepted, isOffer]
        simp only [Bool.false_eq_true, if_false, if_true]
        omega
  | restoreDevice deviceId deviceName =>
      simp only [pairingStep, Option.some.injEq, Prod.mk.injEq] at hs
      obtain ⟨rfl, rfl⟩ := hs
      exact hI.snoc_neutral rfl (fun _ => rfl) rfl rfl (by simp)
  | handlePairRequest pin pk deviceId deviceName =>
      simp only [pairingStep, Option.some.injEq, Prod.mk.injEq] at hs
      obtain ⟨rfl, rfl⟩ := hs
      rcases handlePairRequest_cases kx m pin pk deviceId deviceName with
        ⟨hpin, hkey, device, -, -, heq⟩ | ⟨-, r, hr, heq⟩
      · -- accepted: the condition says the active PIN is not the empty string
        have hne : m.activePin ≠ "" := by
          rcases hok with hp | hp | hp
          · exact hpin ▸ hp
          · exact hp
          · rw [hkey] at hp
            cases hp
        have hlive : liveOffer h = some pin := by
          have hp := hI.pin
          cases hl : liveOffer h with
          | none => simp [hl] at hp; exact absurd hp hne
          | some p => simp [hl] at hp; rw [hpin, hp]
        have hc := hI.count
        rw [hlive, Option.isSome_some, if_pos rfl] at hc
        rw [heq]
        refine { pin := by simp [requestEvent, afterEvent], digits := ?_, count := ?_,
                 live := ?_ }
        · simp [requestEvent, afterEvent]
        · simpa [List.countP_append, requestEvent, afterEvent, isAccepted, isOffer] using hc
        · refine hI.live.snoc ?_ ?_
          · intro p hp
            simp only [requestEvent, PairingEvent.accepted.injEq] at hp
            exact hp ▸ ⟨hlive, hI.digits pin hlive⟩
          · simpa [List.countP_append, requestEvent, isAccepted, isOffer] using hc
      · rw [heq]
        obtain ⟨hafter, hacc, hoff, hne⟩ := requestEvent_of_ne pin hr
        exact hI.snoc_neutral rfl hafter hacc hoff hne

/-- The invariant holds after every run of conforming steps. -/
theorem pinInv_reach (kx : KxServer) {m : PairingManager} {h : List PairingEvent}
    (hr : (pairingMachine kx).Reach (LivePinRequest kx) m h) : PinInv m h := by
  refine Machine.Reach.invariant _ ?_ ?_ hr
  · rintro m ⟨wsPort, kp, rfl⟩
    exact pinInv_construct wsPort kp
  · intro m h a m' es hI hok hs
    exact pinInv_step kx hI hok hs

/-- A request that does not meet the condition is accepted with no offer
outstanding. -/
theorem not_pinLive_of_dead_request (kx : KxServer) {m m' : PairingManager}
    {h es : List PairingEvent} {a : PairingAction}
    (hbad : ¬LivePinRequest kx m h a) (hs : pairingStep kx m a = some (m', es)) :
    ¬PinLive (h ++ es) := by
  cases a with
  | createOffer pcIp drawn => exact absurd trivial hbad
  | restoreDevice deviceId deviceName => exact absurd trivial hbad
  | handlePairRequest pin pk deviceId deviceName =>
      simp only [LivePinRequest, not_or, ne_eq, Decidable.not_not,
        Bool.not_eq_false] at hbad
      obtain ⟨hpin, hactive, hkey⟩ := hbad
      simp only [pairingStep, Option.some.injEq, Prod.mk.injEq] at hs
      have hok := (handlePairRequest_ok_iff kx m pin pk deviceId deviceName).mpr
        ⟨by rw [hpin, hactive], hkey⟩
      rw [hok] at hs
      intro hl
      have hlive := hl.live h pin [] (by rw [← hs.2]; rfl)
      exact hlive.2.ne_empty hpin

/-- **A pairing needs a live PIN, exactly under `LivePinRequest`.**  After any
run whose steps all meet the condition, every acceptance was backed by a live
offer; and the next step keeps this if and only if it meets the condition. -/
theorem pinLive_iff (kx : KxServer) {m : PairingManager} {h : List PairingEvent}
    (hr : (pairingMachine kx).Reach (LivePinRequest kx) m h) :
    PinLive h ∧ ∀ a m' es, (pairingMachine kx).step m a = some (m', es) →
      (PinLive (h ++ es) ↔ LivePinRequest kx m h a) := by
  have hI := pinInv_reach kx hr
  refine ⟨hI.live, ?_⟩
  intro a m' es hs
  constructor
  · intro hl
    by_contra hbad
    exact not_pinLive_of_dead_request kx hbad hs hl
  · intro hok
    exact (pinInv_step kx hI hok hs).live

/-! ## A concrete pairing -/

/-- A server key pair: the private key is the bytes `0, …, 31`. -/
def sampleKeyPair : KeyPair where
  pub := ⟨[143, 64, 197, 173, 182, 143, 37, 98, 74, 229, 178, 20, 234, 118, 122, 110,
    201, 77, 130, 157, 61, 123, 94, 26, 209, 186, 111, 62, 33, 56, 40, 95], rfl⟩
  priv := ⟨[0, 1, 2, 3, 4, 5, 6, 7, 8, 9, 10, 11, 12, 13, 14, 15, 16, 17, 18, 19, 20,
    21, 22, 23, 24, 25, 26, 27, 28, 29, 30, 31], rfl⟩

/-- The key exchange of `sampleKeyPair` with the X25519 base point, as
libsodium computes it. -/
def sampleKx : KxServer := fun pub _ peer =>
  if pub = sampleKeyPair.pub ∧ peer.bytes = 9 :: List.replicate 31 0 then
    some
      (⟨[253, 72, 154, 143, 172, 202, 31, 245, 84, 185, 28, 77, 202, 80, 37, 37, 229,
        118, 29, 95, 177, 24, 166, 32, 214, 227, 144, 92, 23, 221, 39, 117], rfl⟩,
      ⟨[144, 239, 110, 116, 175, 122, 165, 227, 182, 146, 84, 200, 2, 4, 137, 229, 143,
        145, 208, 134, 16, 115, 63, 7, 233, 72, 88, 203, 167, 94, 68, 78], rfl⟩)
  else none

/-- The base point in base64. -/
def sampleKey : String := "CQAAAAAAAAAAAAAAAAAAAAAAAAAAAAAAAAAAAAAAAAA"

/-- An offer and a pairing with its PIN. -/
def offerAndPair : List PairingAction :=
  [ .createOffer "192.168.0.2" 7
  , .handlePairRequest "000007" sampleKey "phone" "Phone" ]

/-- A run that conforms: the offered PIN is used once. -/
theorem pinLive_offerAndPair :
    ∃ m h, (pairingMachine sampleKx).Reach (LivePinRequest sampleKx) m h ∧
      decide (h = [.offered "000007", .accepted "000007"]) = true ∧ PinLive h := by
  obtain ⟨m, h, hr, hh⟩ := Machine.exists_reach_of_exec
    (pairingMachine sampleKx) (LivePinRequest sampleKx)
    (s := construct 45678 sampleKeyPair) ⟨_, _, rfl⟩ offerAndPair
    (fun _ h => decide (h = [.offered "000007", .accepted "000007"]))
    (by decide +kernel)
  exact ⟨m, h, hr, hh, (pinLive_iff sampleKx hr).1⟩

/-- The PIN is not needed once it is used: the next request without a PIN is
accepted too, with no offer between the two. -/
theorem second_pairing_without_pin :
    ¬∀ m h, (pairingMachine sampleKx).Reach Machine.anyStep m h → PinLive h := by
  intro hall
  obtain ⟨m, h, hr, hh⟩ := Machine.exists_reach_of_exec
    (pairingMachine sampleKx) Machine.anyStep
    (s := construct 45678 sampleKeyPair) ⟨_, _, rfl⟩
    (offerAndPair ++ [.handlePairRequest "" sampleKey "other" "Other"])
    (fun _ h => decide
      (h = [.offered "000007", .accepted "000007", .accepted ""]))
    (by decide +kernel)
  rw [decide_eq_true_iff] at hh
  have hcount := (hall m h hr).count
  rw [hh] at hcount
  exact absurd hcount (by decide)

end Iriseus.Core
