import Iriseus.Core.OfferedNames
import Mathlib.Algebra.Order.Field.Rat
import Mathlib.Tactic.Positivity

/-!
# What a file offer registers

`handleFileOffer` reads all members of the offer before it does anything: an
offer of which a member has another type is dropped without a trace.  Any other
offer is accepted, its upload registered and announced as ready.  The size is
read as `uint64_t`, and a JSON number of any kind is converted to it: a negative
number wraps round, a fraction is cut off, and more than 64 bits do not fit.

## Main results

* `offer_registered_faithfully_iff` — an offer is refused, or registered with the
  size it names, exactly unless it is readable with a size that is no `uint64_t`.
-/

namespace Iriseus.Core

open Iriseus.Verified
open Iriseus.Verified.ByteStream
open FileTransferManager

/-! ## Numbers -/

namespace Json

/-- The value of a number. -/
def number? : Json → Option ℚ
  | .unsigned n => some n.toNat
  | .integer i => some i
  | .float mantissa exponent => some (mantissa * 2 ^ exponent)
  | _ => none

/-- A number that is a `uint64_t`. -/
def IsUInt64 (v : Json) : Prop := ∃ n : UInt64, v.number? = some (n.toNat : ℚ)

/-- A whole number is not changed by truncation. -/
theorem truncate_of_whole {mantissa exponent i : ℤ}
    (h : (mantissa * 2 ^ exponent : ℚ) = i) : truncate mantissa exponent = i := by
  unfold truncate
  split
  · rename_i hexp
    obtain ⟨k, rfl⟩ := Int.eq_ofNat_of_zero_le hexp
    rw [zpow_natCast] at h
    rw [Int.toNat_natCast]
    exact_mod_cast h
  · rename_i hexp
    obtain ⟨k, hk⟩ := Int.eq_ofNat_of_zero_le (a := -exponent) (by omega)
    have hmantissa : mantissa = i * 2 ^ k := by
      obtain rfl : exponent = -(k : ℤ) := by omega
      rw [zpow_neg, zpow_natCast, mul_inv_eq_iff_eq_mul₀ (pow_ne_zero k two_ne_zero)] at h
      exact_mod_cast h
    rw [hk, Int.toNat_natCast, hmantissa, Int.mul_tdiv_cancel _ (pow_ne_zero k two_ne_zero)]

theorem ofInt_toNat (n : UInt64) : UInt64.ofInt n.toNat = n := by
  have hlt := n.toNat_lt
  have hmod : ((n.toNat : ℤ) % 2 ^ 64).toNat = n.toNat := by omega
  rw [UInt64.ofInt, hmod, UInt64.ofNat_toNat]

/-- A `uint64_t` is read as itself. -/
theorem getUInt64_of_number {v : Json} {n : UInt64} (h : v.number? = some (n.toNat : ℚ)) :
    v.getUInt64 = .ok n := by
  cases v with
  | unsigned m =>
      have hm : (m.toNat : ℚ) = n.toNat := by simpa [number?] using h
      have hm' : m.toNat = n.toNat := by exact_mod_cast hm
      rw [getUInt64, UInt64.toNat_inj.mp hm']
  | integer i =>
      have hi : (i : ℚ) = n.toNat := by simpa [number?] using h
      have hi' : i = n.toNat := by exact_mod_cast hi
      rw [getUInt64, hi', ofInt_toNat]
  | float mantissa exponent =>
      have hf : (mantissa * 2 ^ exponent : ℚ) = (n.toNat : ℤ) := by
        simpa [number?] using h
      rw [getUInt64, truncate_of_whole hf, ofInt_toNat]
  | _ => simp [number?] at h

/-- **The conversion keeps a number** exactly if it is a `uint64_t`. -/
theorem getUInt64_keeps_iff {v : Json} {n : UInt64} (h : v.getUInt64 = .ok n) :
    v.number? = some (n.toNat : ℚ) ↔ v.IsUInt64 := by
  constructor
  · exact fun hn => ⟨n, hn⟩
  · rintro ⟨n', hn'⟩
    rw [getUInt64_of_number hn', Except.ok.injEq] at h
    rwa [← h]

end Json

/-! ## Offers -/

/-- The size an offer names: 0 if it names none. -/
def offeredSize (payload : Json) : Option ℚ :=
  match payload.member "size" with
  | some v => v.number?
  | none => some 0

/-- The size is absent, or a `uint64_t`. -/
def SizeIsUInt64 (payload : Json) : Prop := ∀ v ∈ payload.member "size", v.IsUInt64

/-- An object whose members, where present, are texts and a number for the size. -/
structure OfferReadable (payload : Json) : Prop where
  object : ∃ fields, payload = .object fields
  transferId : payload.Readable Json.getString "transferId"
  name : payload.Readable Json.getString "name"
  size : payload.Readable Json.getUInt64 "size"
  mime : payload.Readable Json.getString "mime"
  sha256 : payload.Readable Json.getString "sha256"

/-- What an offer is read as, member by member. -/
theorem from_json_eq_ok_iff {payload : Json} {offer : FileOffer} :
    FileOffer.from_json payload = .ok offer ↔
      payload.stringValue "transferId" "" = .ok offer.transferId ∧
        payload.stringValue "name" "" = .ok offer.name ∧
        payload.uint64Value "size" 0 = .ok offer.size ∧
        payload.stringValue "mime" "" = .ok offer.mime ∧
        payload.stringValue "sha256" "" = .ok offer.sha256 := by
  simp only [FileOffer.from_json, bind_eq_ok, pure, Except.pure, Except.ok.injEq]
  constructor
  · rintro ⟨id, hid, name, hname, size, hsize, mime, hmime, sha256, hsha256, rfl⟩
    exact ⟨hid, hname, hsize, hmime, hsha256⟩
  · rintro ⟨hid, hname, hsize, hmime, hsha256⟩
    exact ⟨_, hid, _, hname, _, hsize, _, hmime, _, hsha256, rfl⟩

/-- Reading succeeds exactly on a readable offer. -/
theorem exists_from_json_iff (payload : Json) :
    (∃ offer, FileOffer.from_json payload = .ok offer) ↔ OfferReadable payload := by
  constructor
  · rintro ⟨offer, hoffer⟩
    obtain ⟨hid, hname, hsize, hmime, hsha256⟩ := from_json_eq_ok_iff.mp hoffer
    cases payload with
    | object fields =>
        have hreadable : ∀ {α : Type} {get : Json → Except JsonError α} {key : String}
            {dflt a : α}, Json.value get (.object fields) key dflt = .ok a →
            Json.Readable get (.object fields) key :=
          fun h => (Json.value_isOk_iff _ fields _ _).mp ((isOk_iff _).mpr ⟨_, h⟩)
        exact
          { object := ⟨fields, rfl⟩
            transferId := hreadable hid
            name := hreadable hname
            size := hreadable hsize
            mime := hreadable hmime
            sha256 := hreadable hsha256 }
    | _ => simp [Json.value] at hid
  · rintro ⟨⟨fields, rfl⟩, hid, hname, hsize, hmime, hsha256⟩
    have hvalue : ∀ {α : Type} {get : Json → Except JsonError α} {key : String} (dflt : α),
        Json.Readable get (.object fields) key →
        ∃ a, Json.value get (.object fields) key dflt = .ok a :=
      fun dflt h => (isOk_iff _).mp ((Json.value_isOk_iff _ fields _ dflt).mpr h)
    obtain ⟨id, hid⟩ := hvalue "" hid
    obtain ⟨name, hname⟩ := hvalue "" hname
    obtain ⟨size, hsize⟩ := hvalue 0 hsize
    obtain ⟨mime, hmime⟩ := hvalue "" hmime
    obtain ⟨sha256, hsha256⟩ := hvalue "" hsha256
    exact ⟨⟨id, name, size, mime, sha256⟩,
      from_json_eq_ok_iff.mpr ⟨hid, hname, hsize, hmime, hsha256⟩⟩

/-- The size read is the size offered exactly if that is a `uint64_t`. -/
theorem offeredSize_eq_iff {payload : Json} {size : UInt64}
    (h : payload.uint64Value "size" 0 = .ok size) :
    offeredSize payload = some (size.toNat : ℚ) ↔ SizeIsUInt64 payload := by
  cases payload with
  | object fields =>
      simp only [Json.uint64Value, Json.value] at h
      simp only [offeredSize, SizeIsUInt64, Json.member]
      cases hsize : fields.lookup "size" with
      | none =>
          simp only [hsize, Except.ok.injEq] at h
          simp [← h]
      | some v =>
          simp only [hsize] at h
          simpa using Json.getUInt64_keeps_iff h
  | _ => simp [Json.value] at h

section Offers

variable {κ : Type} (P : Platform κ)

/-- The offer is dropped without a trace. -/
structure OfferRefused (m : FileTransferManager)
    (r : FileTransferManager × List (TransferEvent κ)) : Prop where
  kept : r.1 = m
  silent : r.2 = []

/-- The offer is accepted, its upload registered, and announced as ready: all
for the identifier it names, with the token of the registered session and, as
its size, the size offered. -/
structure OfferRegistered (m : FileTransferManager) (sessionId : UInt64) (payload : Json)
    (r : FileTransferManager × List (TransferEvent κ)) (info : TransferMeta)
    (s : ActiveTransferSession) : Prop where
  events : r.2 =
    [ .sendTo sessionId (.fileAccept (payload.text "transferId"))
    , .offered .mobileUploadToPc info
    , .registered s
    , .sendTo sessionId (.fileReady (payload.text "transferId") kFileTransferPort
        (PairingCrypto.toBase64 s.tokenBytes)) ]
  offers : r.1.activeOffers = m.activeOffers.insert (payload.text "transferId") info
  sessions : r.1.server.sessions = m.server.sessions.insert (payload.text "transferId") s
  offerId : info.offer.transferId = payload.text "transferId"
  transferId : s.transferId = payload.text "transferId"
  direction : s.direction = .mobileUploadToPc
  size : offeredSize payload = some (s.expectedSize.toNat : ℚ)

/-- Whoever sends the offer and whatever the state and the token: it is refused,
or registered faithfully. -/
def OfferFaithful (payload : Json) : Prop :=
  ∀ (m : FileTransferManager) (sessionId : UInt64) (token : ByteBlock kTokenSize),
    OfferRefused m (m.handleFileOffer P sessionId payload token) ∨
      ∃ info s, OfferRegistered m sessionId payload
        (m.handleFileOffer P sessionId payload token) info s

/-- **A file offer is registered faithfully or not at all** exactly if it cannot
be read or its size is a `uint64_t`; and what is written as an offer is read as
that offer. -/
theorem offer_registered_faithfully_iff (payload : Json) (written : FileOffer) :
    (OfferFaithful P payload ↔ ¬OfferReadable payload ∨ SizeIsUInt64 payload) ∧
      FileOffer.from_json (FileOffer.to_json written) = .ok written := by
  refine ⟨?_, from_json_to_json written⟩
  rw [← exists_from_json_iff]
  cases hread : FileOffer.from_json payload with
  | error e =>
      refine ⟨fun _ => Or.inl (by simp), fun _ m sessionId token => Or.inl ?_⟩
      simp only [handleFileOffer, hread]
      exact ⟨rfl, rfl⟩
  | ok offer =>
      obtain ⟨hid, -, hsize, -, -⟩ := from_json_eq_ok_iff.mp hread
      rw [← offeredSize_eq_iff hsize]
      constructor
      · intro hfaithful
        refine Or.inr ?_
        rcases hfaithful {} 0 (sampleToken 0) with hrefused | ⟨info, s, hregistered⟩
        · have hsilent := hrefused.silent
          simp [handleFileOffer, hread, acceptOffer] at hsilent
        · have hevents := hregistered.events
          simp only [handleFileOffer, hread, acceptOffer, register, List.cons.injEq,
            TransferEvent.registered.injEq] at hevents
          rw [hregistered.size, ← hevents.2.2.1]
          rfl
      · intro hkept m sessionId token
        have htext := Json.text_eq hid
        simp only [handleFileOffer, hread, acceptOffer]
        refine Or.inr ⟨{ sessionId := sessionId, offer := offer, filePath := "" },
          m.server.newSession offer.transferId (generateToken token) token.bytes
            (defaultDownloadDir P ++ "/" ++ sanitizeFileName (fromStdString offer.name)) offer.size
            offer.sha256 .mobileUploadToPc, ?_⟩
        exact
          { events := by rw [htext]; rfl
            offers := by rw [htext]; rfl
            sessions := by rw [htext]; rfl
            offerId := htext.symm
            transferId := htext.symm
            direction := rfl
            size := hkept.resolve_left (by simp) }

end Offers

/-- A negative size is registered as a size near 2 ^ 64. -/
theorem negative_size_registered : ¬∀ payload, OfferFaithful samplePlatform payload := by
  intro hall
  let payload : Json := .object [("transferId", .string "t"), ("size", .integer (-1))]
  rcases hall payload {} 0 (sampleToken 0) with hrefused | ⟨info, s, hregistered⟩
  · exact absurd hrefused.silent (by decide)
  · have hsize := hregistered.size
    have hoffered : offeredSize payload = some (-1) := rfl
    rw [hoffered, Option.some.injEq] at hsize
    have hnonneg : (0 : ℚ) ≤ (s.expectedSize.toNat : ℚ) := Nat.cast_nonneg _
    rw [← hsize] at hnonneg
    exact absurd hnonneg (by decide)

end Iriseus.Core
