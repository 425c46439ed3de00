import Iriseus.Core.Json
import Iriseus.Verified.ByteStream

/-!
# Control messages and the file-transfer protocol

Ports of `MessageDispatcher.h` and `FileTransferProtocol.h`: the message types
a peer can send, the parser that never throws, the constants of the data
channel and the `file_offer` record with its JSON form.  `Outgoing` lists the
messages the desktop sends, with what they carry.
-/

namespace Iriseus.Core

open Iriseus.Verified.ByteStream

/-! ## `FileTransferProtocol.h` -/

def kFileTransferPort : Nat := 45680

def kChunkPlaintextSize : Nat := 256 * 1024

def kTokenSize : Nat := 32

def kUuidBinarySize : Nat := 16

structure FileOffer where
  transferId : String
  name : String
  size : UInt64 := 0
  mime : String
  sha256 : String
  deriving DecidableEq, Repr

def FileOffer.to_json (p : FileOffer) : Json :=
  .object
    [ ("type", .string "file_offer")
    , ("transferId", .string p.transferId)
    , ("name", .string p.name)
    , ("size", .unsigned p.size)
    , ("mime", .string p.mime)
    , ("sha256", .string p.sha256) ]

def FileOffer.from_json (j : Json) : Except JsonError FileOffer := do
  let transferId ← j.stringValue "transferId" ""
  let name ← j.stringValue "name" ""
  let size ← j.uint64Value "size" 0
  let mime ← j.stringValue "mime" ""
  let sha256 ← j.stringValue "sha256" ""
  return { transferId, name, size, mime, sha256 }

inductive TransferDirection where
  | mobileUploadToPc
  | desktopDownloadToMobile
  deriving DecidableEq, Repr

/-- The byte of the handshake that asks for a direction. -/
def TransferDirection.toByte : TransferDirection → UInt8
  | .mobileUploadToPc => 0
  | .desktopDownloadToMobile => 1

/-! ## `MessageDispatcher.h` -/

inductive MsgType where
  | hello
  | startCamera
  | stopCamera
  | ping
  | welcome
  | pong
  | error
  | pairRequest
  | pairAccepted
  | pairRejected
  | fileOffer
  | fileAccept
  | fileReject
  | fileReady
  | fileComplete
  | fileCancel
  | startScreen
  | stopScreen
  | setFlip
  | flipStatus
  | unknown
  deriving DecidableEq, Repr

def msgTypeFromString (s : String) : MsgType :=
  if s = "hello" then .hello
  else if s = "start_camera" then .startCamera
  else if s = "stop_camera" then .stopCamera
  else if s = "start_screen" then .startScreen
  else if s = "stop_screen" then .stopScreen
  else if s = "set_flip" then .setFlip
  else if s = "flip_status" then .flipStatus
  else if s = "ping" then .ping
  else if s = "pair_request" then .pairRequest
  else if s = "pair_accepted" then .pairAccepted
  else if s = "pair_rejected" then .pairRejected
  else if s = "file_offer" then .fileOffer
  else if s = "file_accept" then .fileAccept
  else if s = "file_reject" then .fileReject
  else if s = "file_ready" then .fileReady
  else if s = "file_complete" then .fileComplete
  else if s = "file_cancel" then .fileCancel
  else if s = "welcome" then .welcome
  else if s = "pong" then .pong
  else if s = "error" then .error
  else .unknown

structure ControlMessage where
  type : MsgType
  payload : Json

/-- `parseMessage`.  `parse` is the JSON parser, `none` when it throws; every
exception, also that of `value("type", "")`, makes the message unknown. -/
def parseMessage (parse : Bytes → Option Json) (raw : Bytes) : ControlMessage :=
  match parse raw with
  | none => { type := .unknown, payload := .null }
  | some payload =>
      match payload.stringValue "type" "" with
      | .ok s => { type := msgTypeFromString s, payload := payload }
      | .error _ => { type := .unknown, payload := payload }

/-- A message of a known type is an object whose `type` member names it. -/
theorem parseMessage_object (parse : Bytes → Option Json) (raw : Bytes)
    (h : (parseMessage parse raw).type ≠ .unknown) :
    ∃ fields, (parseMessage parse raw).payload = .object fields := by
  unfold parseMessage at h ⊢
  cases hp : parse raw with
  | none => simp [hp] at h
  | some payload =>
      simp only [hp] at h ⊢
      cases payload with
      | object fields =>
          refine ⟨fields, ?_⟩
          split <;> rfl
      | _ => simp [Json.value] at h

/-! ## Messages of the desktop -/

/-- The JSON messages the desktop sends. -/
inductive Outgoing where
  | welcome (pk : String) (flip : Bool)
  | pong
  | pairAccepted
  | pairRejected
  | fileOffer (offer : FileOffer)
  | fileAccept (transferId : String)
  | fileReady (transferId : String) (port : Nat) (token : String)
  | fileComplete (transferId : String) (ok : Bool) (error : Option String)
  | flipStatus (flip : Bool)
  deriving DecidableEq, Repr

end Iriseus.Core
