import Iriseus.Verified.Base64

/-!
# Pairing keys: `PairingCrypto`

Port of `PairingCrypto.cpp`.  The key exchange itself is libsodium's
`crypto_kx_server_session_keys`, taken as a parameter that either fails or
returns the two session keys; the secret kept for a device is their XOR.
-/

namespace Iriseus.Core

open Iriseus.Verified
open Iriseus.Verified.ByteStream

structure KeyPair where
  pub : ByteBlock 32
  priv : ByteBlock 32
  deriving DecidableEq, Repr

structure SharedSecret where
  key : ByteBlock 32
  deriving DecidableEq, Repr

/-- What `PairingCrypto` throws. -/
inductive CryptoError where
  | base64DecodeFailed
  | keyDerivationFailed
  deriving DecidableEq, Repr

/-- `crypto_kx_server_session_keys`: local public and private key and the
peer's public key give the keys `rx` and `tx`, or a failure. -/
abbrev KxServer := ByteBlock 32 → ByteBlock 32 → ByteBlock 32 →
  Option (ByteBlock 32 × ByteBlock 32)

namespace PairingCrypto

/-- `rx[i] ^ tx[i]` for each of the 32 bytes. -/
def xorBlock (rx tx : ByteBlock 32) : ByteBlock 32 where
  bytes := List.zipWith (· ^^^ ·) rx.bytes tx.bytes
  size := by simp [rx.size, tx.size]

def deriveShared (kx : KxServer) (own : KeyPair) (peerPub : ByteBlock 32) :
    Except CryptoError SharedSecret :=
  match kx own.pub own.priv peerPub with
  | none => .error .keyDerivationFailed
  | some (rx, tx) => .ok { key := xorBlock rx tx }

/-- The encoder writes a terminating NUL, which is removed again. -/
def toBase64 (data : Bytes) : String :=
  let out := Base64.bin2base64 data ++ [Char.ofNat 0]
  if out.getLast? = some (Char.ofNat 0) then String.ofList out.dropLast
  else String.ofList out

/-- `fromBase64`.  The buffer is as long as the text, so decoding never runs
out of room; text after the last character read is not looked at. -/
def fromBase64 (b64 : String) : Except CryptoError Bytes :=
  match Base64.base642bin b64.toList with
  | none => .error .base64DecodeFailed
  | some (bin, _) => .ok bin

theorem toBase64_eq (data : Bytes) :
    toBase64 data = String.ofList (Base64.bin2base64 data) := by
  simp [toBase64]

/-- Encoded bytes are decoded again. -/
theorem fromBase64_toBase64 (data : Bytes) : fromBase64 (toBase64 data) = .ok data := by
  rw [toBase64_eq, fromBase64, String.toList_ofList, Base64.base642bin_bin2base64]

/-! ## Which texts are read back -/

/-- The text is refused, or is the text of the bytes it is decoded to. -/
def ReadExactly (b64 : String) : Prop :=
  ∀ bin, fromBase64 b64 = .ok bin → toBase64 bin = b64

/-- The part before the first character outside the alphabet. -/
def textRead (b64 : String) : List Char := b64.toList.takeWhile Base64.inAlphabet

/-- All characters are of the alphabet. -/
def AlphabetOnly (b64 : String) : Prop := ∀ c ∈ b64.toList, Base64.inAlphabet c = true

theorem textRead_eq_iff (b64 : String) : textRead b64 = b64.toList ↔ AlphabetOnly b64 :=
  List.takeWhile_eq_self_iff

/-- **Base64 is a bijection onto what is accepted, exactly without trailing
text.**  Encoded bytes are decoded again; and a text is refused or read exactly
if and only if all its characters are of the alphabet, or those before the first
other one are not the encoding of any bytes.  The decoder reports where it
stopped, and nobody looks. -/
theorem base64_read_exactly_iff (data : Bytes) (b64 : String) :
    fromBase64 (toBase64 data) = .ok data ∧
      (ReadExactly b64 ↔
        AlphabetOnly b64 ∨ Base64.Canonical (textRead b64) = false) := by
  refine ⟨fromBase64_toBase64 data, ?_⟩
  have hdecodes := Base64.base642bin_isSome_iff b64.toList
  cases hread : Base64.base642bin b64.toList with
  | none =>
      have hcanon : Base64.Canonical (textRead b64) = false := by
        simpa [hread, textRead] using hdecodes
      have hrefused : ReadExactly b64 := by
        intro bin hbin
        simp [fromBase64, hread] at hbin
      exact iff_of_true hrefused (Or.inr hcanon)
  | some decoded =>
      obtain ⟨bs, rest⟩ := decoded
      have hcanon : Base64.Canonical (textRead b64) = true := by
        simpa [hread, textRead] using hdecodes
      have hdecoded : ReadExactly b64 ↔ toBase64 bs = b64 := by
        simp [ReadExactly, fromBase64, hread]
      have hencoded : toBase64 bs = b64 ↔ textRead b64 = b64.toList := by
        rw [toBase64_eq, Base64.bin2base64_of_base642bin hread, ← String.toList_inj,
          String.toList_ofList, textRead]
      rw [hdecoded, hencoded, textRead_eq_iff]
      simp [hcanon]

/-- `AA!` is decoded as if it ended before the `!`. -/
theorem trailing_text_accepted : ¬∀ b64, ReadExactly b64 := by
  intro hall
  have hzero : fromBase64 "AA!" = .ok [0] := by decide
  exact absurd (hall "AA!" [0] hzero) (by decide)

end PairingCrypto

end Iriseus.Core
