import Iriseus.Core.SessionIdentity

/-!
# Whose transfers a session can touch

The five file messages name a transfer by an identifier of the peer's choice.
`m_activeOffers` records the session of each transfer, but no handler compares
it with the session a message came from: three of them discard that argument.

So a message touches exactly the transfer it names (`transfer_isolation`),
whichever session sends it: every other transfer keeps its offer and its
registration, nothing is signalled for it, and no token for it is sent.
-/

namespace Iriseus.Core

open Iriseus.Verified
open Iriseus.Verified.ByteStream
open FileTransferManager

/-- The messages about files. -/
inductive FileMessage where
  | fileOffer
  | fileAccept
  | fileReject
  | fileComplete
  | fileCancel
  deriving DecidableEq, Repr

/-- The handler of each message; `handleFileReject` and `handleFileCancel` do
not use their session. -/
def FileMessage.control (msg : FileMessage) (sessionId : UInt64) (payload : Json)
    (token : ByteBlock kTokenSize) : Control :=
  match msg with
  | .fileOffer => .handleFileOffer sessionId payload token
  | .fileAccept => .handleFileAccept sessionId payload token
  | .fileReject => .handleFileReject payload
  | .fileComplete => .handleFileComplete sessionId payload
  | .fileCancel => .handleFileCancel payload

/-- The message names the transfer: an offer that can be read offers it; the
others have its identifier, which must not be empty except in `file_complete`,
as their `transferId`. -/
def FileMessage.Names (msg : FileMessage) (payload : Json) (id : String) : Prop :=
  match msg with
  | .fileOffer => ∃ offer, FileOffer.from_json payload = .ok offer ∧ offer.transferId = id
  | .fileComplete => payload.stringValue "transferId" "" = .ok id
  | _ => payload.stringValue "transferId" "" = .ok id ∧ id ≠ ""

section Handling

variable {κ : Type} [DecidableEq κ] {P : Platform κ} {H : IncrementalHash}

/-- A handler to its end: the call, and the removal of a temporary file inside
`cancelTransfer`, which goes as `inp` says. -/
def handleToEnd (P : Platform κ) (w : World κ H) (a : Control) (inp : Input) :
    Option (World κ H × List (TransferEvent κ)) :=
  match transferStep P H w (.control a) with
  | none => none
  | some (w', es) =>
      if w'.manager.server.cleaning = .idle then some (w', es)
      else
        match transferStep P H w' (.clean inp) with
        | some (w'', es') => some (w'', es ++ es')
        | none => none

/-- The event is a signal about the transfer. -/
def TransferEvent.signals (id : String) : TransferEvent κ → Bool
  | .transferProgress id' _ _ => id' = id
  | .transferFinished id' _ _ _ => id' = id
  | _ => false

/-- A message of session `sender`, handled from `w` to `w'` with the events
`es`, leaves the transfer `id` alone. -/
structure Untouched (id : String) (sender : UInt64) (w w' : World κ H)
    (es : List (TransferEvent κ)) : Prop where
  offer : w'.manager.activeOffers.lookup id = w.manager.activeOffers.lookup id
  registration : w'.manager.server.sessions.lookup id = w.manager.server.sessions.lookup id
  notCancelled : ∀ s, w.manager.server.sessions.lookup id = some s →
    w'.manager.server.cancelled s.ref = w.manager.server.cancelled s.ref
  silent : ∀ e ∈ es, e.signals id = false
  noToken : ∀ port token, .sendTo sender (.fileReady id port token) ∉ es

omit [DecidableEq κ] in
theorem Untouched.refl (id : String) (sender : UInt64) (w : World κ H) :
    Untouched id sender w w [] where
  offer := rfl
  registration := rfl
  notCancelled := fun _ _ => rfl
  silent := by simp
  noToken := by simp

/-! ## The handlers -/

/-- A call after which nobody holds the lock. -/
theorem handleToEnd_idle {w w' : World κ H} {a : Control} {inp : Input}
    {es : List (TransferEvent κ)} {m : FileTransferManager} {tes : List (TransferEvent κ)}
    (hcall : control P H w.manager w.fs a = some (m, tes)) (hidle : m.server.cleaning = .idle)
    (h : handleToEnd P w a inp = some (w', es)) : w' = { w with manager := m } ∧ es = tes := by
  simp only [handleToEnd, transferStep, hcall, hidle, if_true, Option.some.injEq,
    Prod.mk.injEq] at h
  exact ⟨h.1.symm, h.2.symm⟩

/-- The step in which `cancelTransfer` and the handler end. -/
theorem clean_cancel {w w' : World κ H} {s : ActiveTransferSession} {inp : Input}
    {es : List (TransferEvent κ)} (hclean : w.manager.server.cleaning = .cancel s)
    (h : transferStep P H w (.clean inp) = some (w', es)) :
    w'.manager = (finishCancel (κ := κ) w.manager s.transferId).1 ∧
      (es = [.erased s.transferId] ∨
        ∃ op hit made, es = [.fileOp s op hit made, .erased s.transferId]) := by
  simp only [transferStep, clean, hclean, reduceCtorEq, if_false, Cleaning.target,
    cleanNext, World.perform] at h
  cases inp with
  | go =>
      simp only at h
      split at h
      · cases h
        exact ⟨rfl, Or.inr ⟨_, _, _, rfl⟩⟩
      · cases h
        exact ⟨rfl, Or.inl rfl⟩
  | fail =>
      cases h
      exact ⟨rfl, Or.inl rfl⟩
  | _ => cases h

/-- Cancelling `id` erases its offer and touches no other transfer. -/
theorem handleToEnd_cancel {w w' : World κ H} {h es : List (TransferEvent κ)} {a : Control}
    {inp : Input} {id : String} (hT : TokenInv w h) (hR : RegisteredInv w h)
    (hidle : w.manager.server.cleaning = .idle)
    (hcall : control P H w.manager w.fs a = some (w.manager.cancel id))
    (hend : handleToEnd P w a inp = some (w', es)) :
    w'.manager.activeOffers.lookup id = none ∧
      ∀ id' ≠ id, ∀ sender, Untouched id' sender w w' es := by
  cases hentry : w.manager.server.sessions.lookup id with
  | none =>
      have hcancel : w.manager.cancel (κ := κ) id =
          ({ w.manager with activeOffers := w.manager.activeOffers.erase id }, []) := by
        simp [cancel, hentry]
      rw [hcancel] at hcall
      obtain ⟨rfl, rfl⟩ := handleToEnd_idle hcall hidle hend
      refine ⟨by simp, fun id' hne sender => ?_⟩
      exact
        { offer := AList.lookup_erase_ne hne
          registration := rfl
          notCancelled := fun _ _ => rfl
          silent := by simp
          noToken := by simp }
  | some s =>
      obtain ⟨hkey, -⟩ := hT.key id s hentry
      have hcancel : w.manager.cancel (κ := κ) id =
          ({ w.manager with server :=
              { w.manager.server.setCancelled s with cleaning := .cancel s } }, []) := by
        simp [cancel, FileTransferServer.cancelTransfer, hentry]
      rw [hcancel] at hcall
      simp only [handleToEnd, transferStep, hcall, reduceCtorEq, if_false] at hend
      split at hend
      · rename_i w'' es' hclean
        cases hend
        obtain ⟨hmanager, hes⟩ := clean_cancel rfl hclean
        rw [hkey] at hmanager
        refine ⟨by simp [hmanager, finishCancel], fun id' hne sender => ?_⟩
        refine
          { offer := ?_, registration := ?_, notCancelled := ?_, silent := ?_, noToken := ?_ }
        · rw [hmanager]
          exact AList.lookup_erase_ne hne
        · rw [hmanager]
          exact AList.lookup_erase_ne hne
        · -- another entry has another reference
          intro s' hl
          have href : s'.ref ≠ s.ref := fun href => hne (table_ref hT hR hl hentry href).1
          rw [hmanager]
          exact Function.update_of_ne href _ _
        · rcases hes with rfl | ⟨op, hit, made, rfl⟩ <;> simp [TransferEvent.signals]
        · rcases hes with rfl | ⟨op, hit, made, rfl⟩ <;> simp
      · cases hend

omit [DecidableEq κ] in
/-- A registration under another identifier. -/
theorem register_untouched {w : World κ H} {m : FileTransferManager} {id id' : String}
    {token : ByteBlock kTokenSize} {path sha : String} {size : UInt64}
    {dir : TransferDirection} {sender : UInt64} {es : List (TransferEvent κ)}
    (hne : id' ≠ id) (hserver : m.server = w.manager.server)
    (hoffers : m.activeOffers.lookup id' = w.manager.activeOffers.lookup id')
    (hsilent : ∀ e ∈ es, e.signals id' = false)
    (htoken : ∀ port token, .sendTo sender (.fileReady id' port token) ∉ es) :
    Untouched id' sender w
      { w with manager := (m.register (κ := κ) id token path size sha dir).1 } es where
  offer := hoffers
  registration := by
    simp only [register, FileTransferServer.registerTransfer, hserver]
    exact AList.lookup_insert_ne hne
  notCancelled := fun s _ => by
    simp [register, FileTransferServer.registerTransfer, hserver]
  silent := hsilent
  noToken := htoken

/-- The handlers run while nobody holds the lock. -/
theorem handleToEnd_call {w w' : World κ H} {msg : FileMessage} {sender : UInt64}
    {payload : Json} {token : ByteBlock kTokenSize} {inp : Input}
    {es : List (TransferEvent κ)}
    (hend : handleToEnd P w (msg.control sender payload token) inp = some (w', es)) :
    w.manager.server.cleaning = .idle ∧
      ∃ m tes, control P H w.manager w.fs (msg.control sender payload token) =
        some (m, tes) := by
  have hcall : ∃ m tes, control P H w.manager w.fs (msg.control sender payload token) =
      some (m, tes) := by
    cases hcall : control P H w.manager w.fs (msg.control sender payload token) with
    | none => simp [handleToEnd, transferStep, hcall] at hend
    | some r => exact ⟨r.1, r.2, rfl⟩
  refine ⟨?_, hcall⟩
  obtain ⟨m, tes, hcall⟩ := hcall
  by_contra hbusy
  cases msg <;> simp [FileMessage.control, control, hbusy] at hcall

/-- `file_offer` registers the identifier it offers and sends its token. -/
theorem fileOffer_isolation {w w' : World κ H} {sender : UInt64} {payload : Json}
    {token : ByteBlock kTokenSize} {inp : Input} {es : List (TransferEvent κ)}
    (hidle : w.manager.server.cleaning = .idle)
    (hend : handleToEnd P w (.handleFileOffer sender payload token) inp = some (w', es))
    (id : String) : Untouched id sender w w' es ↔ ¬FileMessage.fileOffer.Names payload id := by
  cases hread : FileOffer.from_json payload with
  | error e =>
      have hcall : control P H w.manager w.fs (.handleFileOffer sender payload token) =
          some (w.manager, []) := by
        simp [control, hidle, handleFileOffer, hread]
      obtain ⟨rfl, rfl⟩ := handleToEnd_idle hcall hidle hend
      exact ⟨fun _ => by simp [FileMessage.Names, hread], fun _ => .refl id sender w⟩
  | ok offer =>
      have hcall : control P H w.manager w.fs (.handleFileOffer sender payload token) =
          some (acceptOffer P w.manager sender offer token) := by
        simp [control, hidle, handleFileOffer, hread]
      obtain ⟨rfl, rfl⟩ := handleToEnd_idle hcall hidle hend
      have hnames : FileMessage.fileOffer.Names payload id ↔ offer.transferId = id := by
        simp [FileMessage.Names, hread]
      rw [hnames]
      constructor
      · rintro hkeep rfl
        exact hkeep.noToken kFileTransferPort (generateToken token) (by simp)
      · intro hne
        refine register_untouched (Ne.symm hne) rfl (AList.lookup_insert_ne (Ne.symm hne))
          ?_ ?_
        · simp [register, TransferEvent.signals]
        · simp [register, Ne.symm hne]

omit [DecidableEq κ] in
/-- The identifier a message names, where it has one. -/
theorem names_iff {msg : FileMessage} {payload : Json} {id id' : String}
    (hmsg : msg = .fileAccept ∨ msg = .fileReject ∨ msg = .fileCancel)
    (hread : payload.stringValue "transferId" "" = .ok id') :
    msg.Names payload id ↔ id' = id ∧ id ≠ "" := by
  rcases hmsg with rfl | rfl | rfl <;> simp [FileMessage.Names, hread]

/-- `file_accept` registers the identifier it accepts and sends its token. -/
theorem fileAccept_isolation {w w' : World κ H} {sender : UInt64} {payload : Json}
    {token : ByteBlock kTokenSize} {inp : Input} {es : List (TransferEvent κ)}
    {m : FileTransferManager} {tes : List (TransferEvent κ)}
    (hidle : w.manager.server.cleaning = .idle)
    (hcall : control P H w.manager w.fs (.handleFileAccept sender payload token) =
      some (m, tes))
    (hend : handleToEnd P w (.handleFileAccept sender payload token) inp = some (w', es))
    {id : String} {info : TransferMeta}
    (hoffer : w.manager.activeOffers.lookup id = some info) :
    Untouched id sender w w' es ↔ ¬FileMessage.fileAccept.Names payload id := by
  have hbody : w.manager.handleFileAccept (κ := κ) sender payload token = .ok (m, tes) :=
    toOption_eq_some (by simpa [control, hidle] using hcall)
  obtain ⟨id', hread, hrest⟩ := (bind_eq_ok _ _ _).mp hbody
  rw [names_iff (Or.inl rfl) hread]
  by_cases hempty : id' = ""
  · -- the handler returns at once
    simp only [hempty, if_true, pure, Except.pure, Except.ok.injEq, Prod.mk.injEq] at hrest
    obtain ⟨rfl, rfl⟩ := hrest
    obtain ⟨rfl, rfl⟩ := handleToEnd_idle hcall hidle hend
    exact ⟨fun _ hnamed => hnamed.2 (hnamed.1.symm.trans hempty), fun _ => .refl id sender w⟩
  · cases hoffer' : w.manager.activeOffers.lookup id' with
    | none =>
        simp only [hempty, if_false, hoffer', pure, Except.pure, Except.ok.injEq,
          Prod.mk.injEq] at hrest
        obtain ⟨rfl, rfl⟩ := hrest
        obtain ⟨rfl, rfl⟩ := handleToEnd_idle hcall hidle hend
        refine ⟨?_, fun _ => .refl id sender w⟩
        rintro - ⟨rfl, -⟩
        rw [hoffer] at hoffer'
        cases hoffer'
    | some info' =>
        simp only [hempty, if_false, hoffer', pure, Except.pure, Except.ok.injEq,
          Prod.mk.injEq] at hrest
        obtain ⟨rfl, rfl⟩ := hrest
        obtain ⟨rfl, rfl⟩ := handleToEnd_idle hcall hidle hend
        constructor
        · rintro hkeep ⟨rfl, -⟩
          exact hkeep.noToken kFileTransferPort (generateToken token) (by simp)
        · intro hnot
          have hne : id ≠ id' := fun heq => hnot ⟨heq.symm, heq ▸ hempty⟩
          refine register_untouched hne rfl rfl ?_ ?_
          · simp [register, TransferEvent.signals]
          · simp [register, hne]

/-- `file_reject` and `file_cancel` cancel the identifier they name. -/
theorem fileReject_isolation {w w' : World κ H} {h : List (TransferEvent κ)}
    {sender : UInt64} {payload : Json} {inp : Input} {es : List (TransferEvent κ)}
    {a : Control} {m : FileTransferManager} {tes : List (TransferEvent κ)}
    (hT : TokenInv w h) (hR : RegisteredInv w h) (hidle : w.manager.server.cleaning = .idle)
    (hbody : w.manager.handleFileReject (κ := κ) payload = .ok (m, tes))
    (hcall : control P H w.manager w.fs a = some (m, tes))
    (hend : handleToEnd P w a inp = some (w', es)) {id : String} {info : TransferMeta}
    (hoffer : w.manager.activeOffers.lookup id = some info) {msg : FileMessage}
    (hmsg : msg = .fileAccept ∨ msg = .fileReject ∨ msg = .fileCancel) :
    Untouched id sender w w' es ↔ ¬msg.Names payload id := by
  obtain ⟨id', hread, hrest⟩ := (bind_eq_ok _ _ _).mp hbody
  rw [names_iff hmsg hread]
  by_cases hempty : id' = ""
  · simp only [hempty, if_true, pure, Except.pure, Except.ok.injEq, Prod.mk.injEq] at hrest
    obtain ⟨rfl, rfl⟩ := hrest
    obtain ⟨rfl, rfl⟩ := handleToEnd_idle hcall hidle hend
    exact ⟨fun _ hnamed => hnamed.2 (hnamed.1.symm.trans hempty), fun _ => .refl id sender w⟩
  · simp only [hempty, if_false, pure, Except.pure, Except.ok.injEq] at hrest
    rw [← hrest] at hcall
    obtain ⟨hgone, hothers⟩ := handleToEnd_cancel hT hR hidle hcall hend
    constructor
    · rintro hkeep ⟨rfl, -⟩
      rw [hkeep.offer, hoffer] at hgone
      cases hgone
    · intro hnot
      exact hothers id (fun heq => hnot ⟨heq.symm, heq ▸ hempty⟩) sender

/-- `file_complete` closes the offer it names and signals its outcome. -/
theorem fileComplete_isolation {w w' : World κ H} {sender : UInt64} {payload : Json}
    {inp : Input} {es : List (TransferEvent κ)} {m : FileTransferManager}
    {tes : List (TransferEvent κ)} (hidle : w.manager.server.cleaning = .idle)
    (hcall : control P H w.manager w.fs (.handleFileComplete sender payload) =
      some (m, tes))
    (hend : handleToEnd P w (.handleFileComplete sender payload) inp = some (w', es))
    {id : String} {info : TransferMeta}
    (hoffer : w.manager.activeOffers.lookup id = some info) :
    Untouched id sender w w' es ↔ ¬FileMessage.fileComplete.Names payload id := by
  have hbody : w.manager.handleFileComplete (κ := κ) sender payload = .ok (m, tes) :=
    toOption_eq_some (by simpa [control, hidle] using hcall)
  rcases handleFileComplete_cases hbody with
    ⟨rfl, rfl, id', hread, hnone⟩ | ⟨id', ok, error, info', hread, -, -, rfl, rfl⟩
  · obtain ⟨rfl, rfl⟩ := handleToEnd_idle hcall hidle hend
    refine ⟨fun _ hnamed => ?_, fun _ => .refl id sender w⟩
    have heq : id' = id := by simpa [FileMessage.Names, hread] using hnamed
    rw [heq, hoffer] at hnone
    cases hnone
  · obtain ⟨rfl, rfl⟩ := handleToEnd_idle hcall hidle hend
    have hnames : FileMessage.fileComplete.Names payload id ↔ id' = id := by
      simp [FileMessage.Names, hread]
    rw [hnames]
    constructor
    · rintro hkeep rfl
      have hsilent := hkeep.silent (.transferFinished id' info'.offer.name ok error) (by simp)
      simp [TransferEvent.signals] at hsilent
    · intro hne
      exact
        { offer := AList.lookup_erase_ne (Ne.symm hne)
          registration := rfl
          notCancelled := fun _ _ => rfl
          silent := by simp [TransferEvent.signals, hne]
          noToken := by simp }

/-! ## Isolation -/

/-- **A message touches the transfer it names, and no other.**  In every
reachable state, for every offered transfer and every file message of any
session: handling the message leaves the transfer's offer and registration
unchanged, signals nothing for it and sends the session no token for it, if and
only if the message does not name the transfer. -/
theorem transfer_isolation {w w' : World κ H} {h es : List (TransferEvent κ)}
    (hr : (transferMachine P H).Reach Machine.anyStep w h) {msg : FileMessage}
    {sender : UInt64} {payload : Json} {token : ByteBlock kTokenSize} {inp : Input}
    (hend : handleToEnd P w (msg.control sender payload token) inp = some (w', es))
    {id : String} {info : TransferMeta}
    (hoffer : w.manager.activeOffers.lookup id = some info) :
    Untouched id sender w w' es ↔ ¬msg.Names payload id := by
  obtain ⟨hidle, m, tes, hcall⟩ := handleToEnd_call hend
  have hreject : ∀ {a : Control},
      a = .handleFileReject payload ∨ a = .handleFileCancel payload →
      control P H w.manager w.fs a = some (m, tes) →
      w.manager.handleFileReject (κ := κ) payload = .ok (m, tes) := by
    rintro a (rfl | rfl) hcall <;>
      exact toOption_eq_some (by simpa [control, hidle, handleFileCancel] using hcall)
  cases msg with
  | fileOffer => exact fileOffer_isolation hidle hend id
  | fileAccept => exact fileAccept_isolation hidle hcall hend hoffer
  | fileComplete => exact fileComplete_isolation hidle hcall hend hoffer
  | fileReject =>
      exact fileReject_isolation (tokenInv_reach hr) (registeredInv_reach hr).1 hidle
        (hreject (Or.inl rfl) hcall) hcall hend hoffer (by simp)
  | fileCancel =>
      exact fileReject_isolation (tokenInv_reach hr) (registeredInv_reach hr).1 hidle
        (hreject (Or.inr rfl) hcall) hcall hend hoffer (by simp)

end Handling

/-! ## Another session's message -/

/-- The payload that names a sample transfer. -/
def namePayload (id : UInt8) : Json :=
  .object [("transferId", .string (formatUuid (sampleUuid id).bytes))]

/-- Session 1 offers two files. -/
def twoOffers : List (TransferAction String) :=
  [offerAction 1 "a" 0 "" 7, offerAction 2 "b" 0 "" 8]

/-- Session 2 rejects the second transfer of session 1; the first is left
alone. -/
theorem transfer_isolation_sample :
    ∃ (w : World String sha256) (h : List (TransferEvent String)) (w' : World String sha256)
      (es : List (TransferEvent String)),
      (transferMachine samplePlatform sha256).Reach Machine.anyStep w h ∧
      handleToEnd samplePlatform w
        (FileMessage.fileReject.control 2 (namePayload 2) (sampleToken 9)) .fail =
          some (w', es) ∧
      Untouched (formatUuid (sampleUuid 1).bytes) 2 w w' es := by
  obtain ⟨w, h, hr, hh⟩ := Machine.exists_reach_of_exec
    (transferMachine samplePlatform sha256) Machine.anyStep (worldWith_init []) twoOffers
    (fun w _ => (w.manager.activeOffers.lookup (formatUuid (sampleUuid 1).bytes)).isSome &&
      (handleToEnd samplePlatform w
        (FileMessage.fileReject.control 2 (namePayload 2) (sampleToken 9)) .fail).isSome)
    (by decide +kernel)
  simp only [Bool.and_eq_true, Option.isSome_iff_exists] at hh
  obtain ⟨⟨info, hoffer⟩, ⟨w', es⟩, hend⟩ := hh
  have hother : ¬FileMessage.fileReject.Names (namePayload 2)
      (formatUuid (sampleUuid 1).bytes) := by
    have hread : (namePayload 2).stringValue "transferId" "" =
        .ok (formatUuid (sampleUuid 2).bytes) := rfl
    rw [names_iff (Or.inr (Or.inl rfl)) hread]
    decide +kernel
  exact ⟨w, h, w', es, hr, hend, (transfer_isolation hr hend hoffer).mpr hother⟩

/-- Session 2 rejects the first transfer of session 1, which loses its offer
and its registration. -/
theorem foreign_reject_cancels :
    ¬∀ (w : World String sha256) (h : List (TransferEvent String)) (id : String)
      (info : TransferMeta) (msg : FileMessage) (sender : UInt64) (payload : Json)
      (token : ByteBlock kTokenSize) (inp : Input) (w' : World String sha256)
      (es : List (TransferEvent String)),
      (transferMachine samplePlatform sha256).Reach Machine.anyStep w h →
      w.manager.activeOffers.lookup id = some info → sender ≠ info.sessionId →
      handleToEnd samplePlatform w (msg.control sender payload token) inp = some (w', es) →
      Untouched id sender w w' es := by
  intro hall
  obtain ⟨w, h, hr, hh⟩ := Machine.exists_reach_of_exec
    (transferMachine samplePlatform sha256) Machine.anyStep (worldWith_init []) twoOffers
    (fun w _ => (w.manager.activeOffers.lookup (formatUuid (sampleUuid 1).bytes)).any
        (fun info : TransferMeta => decide (info.sessionId = 1)) &&
      (handleToEnd samplePlatform w
        (FileMessage.fileReject.control 2 (namePayload 1) (sampleToken 9)) .go).any
          fun r => (r.1.manager.activeOffers.lookup
            (formatUuid (sampleUuid 1).bytes)).isNone)
    (by decide +kernel)
  simp only [Bool.and_eq_true, Option.any_eq_true, decide_eq_true_eq] at hh
  obtain ⟨⟨info, hoffer, hone⟩, ⟨w', es⟩, hend, hgone⟩ := hh
  have hother : (2 : UInt64) ≠ info.sessionId := by rw [hone]; decide
  have hkeep := hall w h _ info .fileReject 2 (namePayload 1) (sampleToken 9) .go w' es hr
    hoffer hother hend
  rw [hkeep.offer, hoffer] at hgone
  cases hgone

end Iriseus.Core
