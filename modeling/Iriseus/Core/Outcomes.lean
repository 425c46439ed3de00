import Iriseus.Core.ConnectionRuns
import Iriseus.Core.Registrations

/-!
# The outcome of a transfer

A transfer begins when it is offered and ends with the signal
`transferFinished`.  Two sources emit that signal for the same entry of
`m_activeOffers`: the callback of the data server and the peer's
`file_complete`.  Each takes what it is told for the outcome, and the callback
signals, and erases the entry, some time after it has looked the entry up.

`Truthful` says what the signal should mean: it ends a transfer that is open,
under the name that was offered; an upload succeeds when the server verified
and saved its file, a download when the session it was offered to completed
it.  `TruthfulReport` excludes the reports that need not mean this: a callback
that finds no entry or the entry of a later transfer, its success for anything
but an upload, a success stated by another peer than the receiver of a
download, and a report or a new offer that overtakes a callback.

## Main results

* `outcomes_truthful` — in runs without such reports every signal is truthful.
* `sent_download_reported` — the end of sending is reported as success.
-/

namespace Iriseus.Core

open Iriseus.Verified
open Iriseus.Verified.ByteStream
open Iriseus.Verified.Machine
open FileTransferManager

variable {κ : Type}

/-! ## Open transfers, read off the history -/

def afterOfferEvent (open' : String → Option (TransferDirection × TransferMeta)) :
    TransferEvent κ → String → Option (TransferDirection × TransferMeta)
  | .offered dir info => Function.update open' info.offer.transferId (some (dir, info))
  | .transferFinished id _ _ _ => Function.update open' id none
  | _ => open'

/-- The offer of an identifier whose outcome has not been signalled. -/
def openOffer (h : List (TransferEvent κ)) :
    String → Option (TransferDirection × TransferMeta) :=
  h.foldl afterOfferEvent fun _ => none

def isOfferOf (id : String) : TransferEvent κ → Bool
  | .offered _ info => info.offer.transferId = id
  | _ => false

/-- What happened since the latest offer of an identifier. -/
def sinceOffer (h : List (TransferEvent κ)) (id : String) : List (TransferEvent κ) :=
  sinceLast (isOfferOf id) h

/-- A session of the transfer was verified and its file renamed to its final
name; the body renames only after its checks. -/
def SavedFor (h : List (TransferEvent κ)) (id : String) : Prop :=
  ∃ c s src dst, s.transferId = id ∧ .registered s ∈ sinceOffer h id ∧
    .connection c s .verified ∈ sinceOffer h id ∧
    .connection c s (.file (.rename src dst)) ∈ sinceOffer h id

/-- The signal `transferFinished id name ok` after the history `h` is the
outcome of an open transfer. -/
def Truthful (h : List (TransferEvent κ)) (id name : String) (ok : Bool) : Prop :=
  ∃ dir info, openOffer h id = some (dir, info) ∧ name = info.offer.name ∧
    (ok = true →
      match dir with
      | .mobileUploadToPc => SavedFor h id
      | .desktopDownloadToMobile =>
          .fileComplete info.sessionId id true ∈ sinceOffer h id)

/-- Every signal is truthful; in particular a transfer is signalled at most
once. -/
def OneTruthfulOutcome (h : List (TransferEvent κ)) : Prop :=
  ∀ h₁ id name ok error h₂, h = h₁ ++ .transferFinished id name ok error :: h₂ →
    Truthful h₁ id name ok

/-- The name a callback has found and will signal. -/
def CallbackStage.unsignalled : CallbackStage → Option String
  | .reply _ fileName => some fileName
  | .signal fileName => some fileName
  | _ => none

/-- A callback of `id` is past its look-up. -/
def FileTransferManager.LookedUp (m : FileTransferManager) (id : String) : Prop :=
  ∃ x ∈ m.callbacks.entries, x.2.transferId = id ∧ x.2.stage ≠ .find

/-- A callback of `id` is between its look-up and its signal. -/
def FileTransferManager.Unsignalled (m : FileTransferManager) (id : String) : Prop :=
  ∃ x ∈ m.callbacks.entries, x.2.transferId = id ∧ x.2.stage.unsignalled.isSome = true

instance (m : FileTransferManager) (id : String) : Decidable (m.LookedUp id) :=
  inferInstanceAs (Decidable (∃ x ∈ m.callbacks.entries, _))

instance (m : FileTransferManager) (id : String) : Decidable (m.Unsignalled id) :=
  inferInstanceAs (Decidable (∃ x ∈ m.callbacks.entries, _))

/-- A callback finds the offer its session was registered for, before another
callback has looked it up, and reports success only for an upload whose peer
asked to upload. -/
def FindsItsOffer {H : IncrementalHash} (w : World κ H) (h : List (TransferEvent κ))
    (cb : FinishedCallback) (hs : FileTransferHandshake) (s : ActiveTransferSession) : Prop :=
  cb.transferId ∈ w.manager.activeOffers ∧
  ¬w.manager.LookedUp cb.transferId ∧
  .registered s ∈ sinceOffer h cb.transferId ∧
  (cb.success = true → hs.direction = TransferDirection.mobileUploadToPc.toByte ∧
    (openOffer h cb.transferId).map (·.1) = some .mobileUploadToPc)

instance [DecidableEq κ] {H : IncrementalHash} (w : World κ H) (h : List (TransferEvent κ))
    (cb : FinishedCallback) (hs : FileTransferHandshake) (s : ActiveTransferSession) :
    Decidable (FindsItsOffer w h cb hs s) :=
  inferInstanceAs (Decidable (_ ∧ _ ∧ _ ∧ _))

/-- A callback finds its own offer; a peer completes an open offer only before
a callback has looked it up, with success only if it is a download offered to
it; and an identifier is not offered again while a callback is about to signal
it. -/
def TruthfulReport {H : IncrementalHash} :
    StepCond (World κ H) (TransferAction κ) (TransferEvent κ) :=
  fun w h a =>
    match a with
    | .callback c =>
        ∀ cb ∈ w.manager.callbacks.lookup c, ∀ p ∈ (w.conns[c]?).bind (·.served?),
          cb.stage = .find → FindsItsOffer w h cb p.1 p.2
    | .control (.handleFileComplete sessionId payload) =>
        ∀ id ∈ (payload.stringValue "transferId" "").toOption, id ∈ w.manager.activeOffers →
          ¬w.manager.LookedUp id ∧
          ((payload.boolValue "ok" false).toOption = some true →
            (openOffer h id).map (fun o => (o.1, o.2.sessionId)) =
              some (.desktopDownloadToMobile, sessionId))
    | .control (.handleFileOffer _ payload _) =>
        ∀ offer ∈ (FileOffer.from_json payload).toOption,
          ¬w.manager.Unsignalled offer.transferId
    | .control (.sendNext draw) => ¬w.manager.Unsignalled (formatUuid draw.uuid.bytes)
    | _ => True

instance [DecidableEq κ] {H : IncrementalHash} :
    ∀ w h a, Decidable (TruthfulReport (κ := κ) (H := H) w h a)
  | w, h, .callback c => inferInstanceAs (Decidable
      (∀ cb ∈ w.manager.callbacks.lookup c, ∀ p ∈ (w.conns[c]?).bind (·.served?),
        cb.stage = .find → FindsItsOffer w h cb p.1 p.2))
  | w, h, .control a => by
      dsimp only [TruthfulReport]
      split <;> infer_instance
  | _, _, .conn _ _ | _, _, .clean _ | _, _, .accept | _, _, .create _ _ =>
      instDecidableTrue

/-! ## Events that leave open transfers alone -/

/-- The event begins or ends the transfer `id`. -/
def TransferEvent.delimits (id : String) : TransferEvent κ → Bool
  | .offered _ info => info.offer.transferId = id
  | .transferFinished i _ _ _ => i = id
  | _ => false

theorem TransferEvent.minor_delimits {e : TransferEvent κ} (he : e.minor = true)
    (id : String) : e.delimits id = false := by
  cases e <;> first | rfl | cases he

theorem openOffer_append {es : List (TransferEvent κ)} {id : String}
    (hes : ∀ e ∈ es, e.delimits id = false) (h : List (TransferEvent κ)) :
    openOffer (h ++ es) id = openOffer h id := by
  induction es generalizing h with
  | nil => simp
  | cons e es ih =>
      have he : ∀ o, afterOfferEvent o e id = o id := by
        have hd := hes e (by simp)
        intro o
        cases e <;> first
          | rfl
          | (simp only [TransferEvent.delimits, decide_eq_false_iff_not] at hd
             exact Function.update_of_ne (Ne.symm hd) _ _)
      rw [show h ++ e :: es = (h ++ [e]) ++ es by simp,
        ih (fun x hx => hes x (by simp [hx]))]
      simp [openOffer, he]

/-- An open transfer was offered. -/
theorem offered_of_openOffer {h : List (TransferEvent κ)} {id : String}
    {dir : TransferDirection} {info : TransferMeta}
    (ho : openOffer h id = some (dir, info)) : .offered dir info ∈ h := by
  induction h using List.reverseRecOn with
  | nil => cases ho
  | append_singleton h e ih =>
      simp only [openOffer, List.foldl_append, List.foldl_cons, List.foldl_nil] at ho
      cases e with
      | offered dir' info' =>
          simp only [afterOfferEvent] at ho
          by_cases hid : id = info'.offer.transferId
          · subst hid
            simp only [Function.update_self, Option.some.injEq, Prod.mk.injEq] at ho
            obtain ⟨rfl, rfl⟩ := ho
            simp
          · rw [Function.update_of_ne hid] at ho
            exact List.mem_append_left _ (ih ho)
      | transferFinished id' name ok error =>
          simp only [afterOfferEvent] at ho
          by_cases hid : id = id'
          · subst hid
            simp at ho
          · rw [Function.update_of_ne hid] at ho
            exact List.mem_append_left _ (ih ho)
      | _ => exact List.mem_append_left _ (ih ho)

theorem sinceOffer_append {es : List (TransferEvent κ)} {id : String}
    (hes : ∀ e ∈ es, e.delimits id = false) (h : List (TransferEvent κ)) :
    sinceOffer (h ++ es) id = sinceOffer h id ++ es := by
  refine sinceLast_append ?_ h
  intro e he
  have hd := hes e he
  cases e <;> first | rfl | exact hd

theorem SavedFor.append {h : List (TransferEvent κ)} {id : String} (hsaved : SavedFor h id)
    {es : List (TransferEvent κ)} (hes : ∀ e ∈ es, e.delimits id = false) :
    SavedFor (h ++ es) id := by
  obtain ⟨c, s, src, dst, hid, hreg, hverified, hrenamed⟩ := hsaved
  refine ⟨c, s, src, dst, hid, ?_⟩
  rw [sinceOffer_append hes]
  exact ⟨List.mem_append_left _ hreg, List.mem_append_left _ hverified,
    List.mem_append_left _ hrenamed⟩

/-! ## Sessions are registered once -/

/-- The session a connection has found. -/
def Connection.session? {H : IncrementalHash} : Connection H → Option ActiveTransferSession
  | .validate _ s => some s
  | .serving _ s _ => some s
  | _ => none

/-- Sessions in use have references that were handed out. -/
structure RefInv {H : IncrementalHash} (w : World κ H) : Prop where
  table : ∀ id s, w.manager.server.sessions.lookup id = some s →
    s.ref < w.manager.server.nextRef
  conns : ∀ (c : Nat) (conn : Connection H) (s : ActiveTransferSession),
    w.conns[c]? = some conn → conn.session? = some s → s.ref < w.manager.server.nextRef

section Tables

variable {t t' : Tables} {es : List (TransferEvent κ)}

theorem TableStep.nextRef_le (ht : TableStep t t' es) : t.nextRef ≤ t'.nextRef := by
  cases ht <;> simp

theorem TableStep.registered_fresh (ht : TableStep t t' es) {s : ActiveTransferSession}
    (hs : .registered s ∈ es) : s.ref = t.nextRef := by
  cases ht with
  | offer _ _ href _ _ hpre hpost =>
      simp only [List.mem_append, List.mem_cons, not_registered_of_minor hpre,
        not_registered_of_minor hpost, reduceCtorEq, TransferEvent.registered.injEq,
        false_or, or_false] at hs
      exact hs ▸ href
  | reoffer _ _ href _ _ hpost =>
      simp only [List.mem_cons, not_registered_of_minor hpost,
        TransferEvent.registered.injEq, or_false] at hs
      exact hs ▸ href
  | told hes => exact absurd hs (not_registered_of_minor hes s)
  | _ => simp at hs

theorem TableStep.table_fresh (ht : TableStep t t' es)
    (hfresh : ∀ id s, t.sessions.lookup id = some s → s.ref < t.nextRef) :
    ∀ id s, t'.sessions.lookup id = some s → s.ref < t'.nextRef := by
  have hinsert : ∀ s : ActiveTransferSession, s.ref = t.nextRef →
      ∀ id s', (t.sessions.insert s.transferId s).lookup id = some s' →
        s'.ref < t.nextRef + 1 := by
    intro s href id s' hl
    by_cases hid : id = s.transferId
    · subst hid
      rw [AList.lookup_insert, Option.some.injEq] at hl
      subst hl
      omega
    · rw [AList.lookup_insert_ne hid] at hl
      have := hfresh id s' hl
      omega
  cases ht with
  | quiet | cancelBegin | cancelNone | stopBegin | stopNext | complete | told | signal
  | withdraw => exact hfresh
  | offer _ _ href => exact hinsert _ href
  | reoffer _ _ href => exact hinsert _ href
  | @cancelEnd s =>
      intro id s' hl
      by_cases hid : id = s.transferId
      · subst hid
        simp at hl
      · rw [AList.lookup_erase_ne hid] at hl
        exact hfresh id s' hl
  | stopEnd => simp

end Tables

section Steps

variable {P : Platform κ} {H : IncrementalHash}

/-! ## The end of an upload -/

/-- The checks of the received file are done. -/
def Pc.afterVerify : Pc H → Bool
  | .upload (.resolve _ _) => true
  | .upload (.rename _) => true
  | .upload (.saved _) => true
  | _ => false

/-- The connection is about to report a saved file. -/
def Pc.hasSaved : Pc H → Bool
  | .upload (.saved _) => true
  | _ => false

/-- The body gets past its checks by passing them. -/
theorem serve_afterVerify {v : View κ} {s : ActiveTransferSession} {pc pc' : Pc H}
    {inp : Input} {e : Effect κ} (h : serve P H v s pc inp = some (pc', e))
    (hpc : pc'.afterVerify = true) : e = .verified ∨ pc.afterVerify = true := by
  cases pc with
  | dispatch b =>
      simp only [serve] at h
      (repeat' split at h) <;> cases h <;> cases hpc
  | upload pc =>
      simp only [serve] at h
      cases pc with
      | resolve | rename | saved => exact Or.inr rfl
      | verify =>
          simp only [serveUpload] at h
          (repeat' split at h) <;> cases h
          · cases hpc
          · exact Or.inl rfl
      | openTemp | recvHead | recvLen | recvChunk | recvWrite | recvReport | closeTemp
      | recvCheck | dropInterrupted | interrupted | dropBadHash | dropUnsaved =>
          simp only [serveUpload] at h
          (repeat' split at h) <;> cases h <;> cases hpc
  | download pc =>
      rcases (serveDownload_mode h).1 with ⟨d, rfl⟩ | ⟨error, rfl⟩ | rfl <;> cases hpc
  | failed error =>
      simp only [serve] at h
      split at h <;> cases h
      cases hpc
  | done => simp [serve] at h

/-- The body gets to a saved file by renaming, after its checks. -/
theorem serve_hasSaved {v : View κ} {s : ActiveTransferSession} {pc pc' : Pc H}
    {inp : Input} {e : Effect κ} (h : serve P H v s pc inp = some (pc', e))
    (hpc : pc'.hasSaved = true) : ∃ src dst, e = .file (.rename src dst) := by
  cases pc with
  | dispatch b =>
      simp only [serve] at h
      (repeat' split at h) <;> cases h <;> cases hpc
  | upload pc =>
      simp only [serve] at h
      cases pc with
      | rename =>
          simp only [serveUpload] at h
          (repeat' split at h) <;> cases h
          · exact ⟨_, _, rfl⟩
          all_goals cases hpc
      | openTemp | recvHead | recvLen | recvChunk | recvWrite | recvReport | closeTemp
      | recvCheck | dropInterrupted | interrupted | verify | resolve | dropBadHash
      | dropUnsaved | saved =>
          simp only [serveUpload] at h
          (repeat' split at h) <;> cases h <;> cases hpc
  | download pc =>
      rcases (serveDownload_mode h).1 with ⟨d, rfl⟩ | ⟨error, rfl⟩ | rfl <;> cases hpc
  | failed error =>
      simp only [serve] at h
      split at h <;> cases h
      cases hpc
  | done => simp [serve] at h

/-! ## Entries and open offers -/

theorem lookedUp_of_lookup {m : FileTransferManager} {c : Nat} {cb : FinishedCallback}
    (hcb : m.callbacks.lookup c = some cb) (hstage : cb.stage ≠ .find) :
    m.LookedUp cb.transferId :=
  ⟨⟨c, cb⟩, AList.mem_lookup_iff.mp hcb, rfl, hstage⟩

theorem unsignalled_of_lookup {m : FileTransferManager} {c : Nat} {cb : FinishedCallback}
    {name : String} (hcb : m.callbacks.lookup c = some cb)
    (hstage : cb.stage.unsignalled = some name) : m.Unsignalled cb.transferId :=
  ⟨⟨c, cb⟩, AList.mem_lookup_iff.mp hcb, rfl, by simp [hstage]⟩

theorem CallbackStage.unsignalled_ne_find {stage : CallbackStage} {name : String}
    (h : stage.unsignalled = some name) : stage ≠ .find := by
  rintro rfl
  cases h

/-- Callbacks that others leave alone are still past their look-up. -/
theorem FileTransferManager.LookedUp.mono {m m' : FileTransferManager} {id : String}
    (hl : m.LookedUp id)
    (hkeep : ∀ (c : Nat) (cb : FinishedCallback), m.callbacks.lookup c = some cb →
      cb.transferId = id → cb.stage ≠ .find → m'.LookedUp id) : m'.LookedUp id := by
  obtain ⟨⟨c, cb⟩, hmem, hid, hstage⟩ := hl
  exact hkeep c cb (AList.mem_lookup_iff.mpr hmem) hid hstage

/-- Every entry is an open offer, or a callback has looked it up. -/
def EntriesOpen (offers : AList (fun _ : String => TransferMeta)) (lookedUp : String → Prop)
    (h : List (TransferEvent κ)) : Prop :=
  ∀ id info, offers.lookup id = some info →
    (∃ dir, openOffer h id = some (dir, info)) ∨ lookedUp id

/-- What does not delimit a transfer keeps its entry and its offer together. -/
theorem EntriesOpen.append {offers : AList (fun _ : String => TransferMeta)}
    {lookedUp : String → Prop} {h es : List (TransferEvent κ)}
    (hopen : EntriesOpen offers lookedUp h) (hes : ∀ id, ∀ e ∈ es, e.delimits id = false) :
    EntriesOpen offers lookedUp (h ++ es) := by
  intro id info hl
  rw [openOffer_append (hes id)]
  exact hopen id info hl

/-- Entries may go. -/
theorem EntriesOpen.erase {offers : AList (fun _ : String => TransferMeta)}
    {lookedUp : String → Prop} {h : List (TransferEvent κ)}
    (hopen : EntriesOpen offers lookedUp h) (id : String) :
    EntriesOpen (offers.erase id) lookedUp h :=
  fun i info hl => hopen i info (lookup_of_erase hl).2

/-- A change of the tables keeps entries and open offers together, if a signal
comes from a callback that is past its look-up. -/
theorem TableStep.entriesOpen {t t' : Tables} {es : List (TransferEvent κ)}
    (ht : TableStep t t' es) {h : List (TransferEvent κ)} {lookedUp : String → Prop}
    (hopen : EntriesOpen t.offers lookedUp h)
    (hsignal : ∀ id name ok error, es = [.transferFinished id name ok error] → lookedUp id) :
    EntriesOpen t'.offers lookedUp (h ++ es) := by
  have hminor : ∀ l : List (TransferEvent κ), (∀ x ∈ l, x.minor = true) →
      ∀ id, ∀ x ∈ l, x.delimits id = false :=
    fun l hl id x hx => TransferEvent.minor_delimits (hl x hx) id
  cases ht with
  | quiet | cancelBegin | stopBegin | stopNext => simpa using hopen
  | told hes => exact hopen.append (hminor _ hes)
  | reoffer _ _ _ _ _ hpost =>
      refine hopen.append fun id x hx => ?_
      rcases List.mem_cons.mp hx with rfl | hx
      · rfl
      · exact hminor _ hpost id x hx
  | cancelNone =>
      rw [List.append_nil]
      exact hopen.erase _
  | cancelEnd => exact (hopen.erase _).append (by simp [TransferEvent.delimits])
  | withdraw => exact (hopen.erase _).append (by simp [TransferEvent.delimits])
  | stopEnd => exact hopen.append (by simp [TransferEvent.delimits])
  | @signal i name error ok =>
      intro id info hl
      by_cases hid : id = i
      · exact Or.inr (hid ▸ hsignal i name ok error rfl)
      · rw [openOffer_append (by simpa [TransferEvent.delimits] using Ne.symm hid)]
        exact hopen id info hl
  | @offer dir info' s pre post _ hid _ _ _ hpre hpost =>
      intro id info hl
      have hpost' : ∀ i, ∀ x ∈ (.registered s :: post : List (TransferEvent κ)),
          x.delimits i = false := by
        intro i x hx
        rcases List.mem_cons.mp hx with rfl | hx
        · rfl
        · exact hminor _ hpost i x hx
      rw [show h ++ (pre ++ .offered dir info' :: .registered s :: post) =
        ((h ++ pre) ++ [.offered dir info']) ++ .registered s :: post by simp,
        openOffer_append (hpost' id)]
      by_cases hne : id = s.transferId
      · subst hne
        rw [AList.lookup_insert, Option.some.injEq] at hl
        exact Or.inl ⟨dir, by simp [openOffer, afterOfferEvent, hid, hl]⟩
      · rw [AList.lookup_insert_ne hne] at hl
        rw [openOffer_append, openOffer_append (hminor _ hpre id)]
        · exact hopen id info hl
        · simpa [TransferEvent.delimits, ← hid] using Ne.symm hne
  | @complete sessionId i error info' ok =>
      intro id info hl
      obtain ⟨hne, hl⟩ := lookup_of_erase hl
      rw [openOffer_append (by simpa [TransferEvent.delimits] using Ne.symm hne)]
      exact hopen id info hl

variable [DecidableEq κ]

/-! ## One step -/

theorem refInv_step {w w' : World κ H} {a : TransferAction κ}
    {es : List (TransferEvent κ)} (hI : RefInv w) (ht : Transition P w a w' es) :
    RefInv w' ∧ w.manager.server.nextRef ≤ w'.manager.server.nextRef ∧
      ∀ s, .registered s ∈ es → s.ref = w.manager.server.nextRef := by
  have hle : w.manager.server.nextRef ≤ w'.manager.server.nextRef := by
    cases ht with
    | control _ ht => exact ht.nextRef_le
    | clean _ ht => exact ht.nextRef_le
    | cleanFile _ _ ht => exact ht.nextRef_le
    | callback _ _ ht => exact ht.nextRef_le
    | accept | connQuiet | connFile | create => exact Nat.le_refl _
    | connEffect _ _ _ htables => exact (congrArg Tables.nextRef htables).ge
  refine ⟨{ table := ?_, conns := ?_ }, hle, ?_⟩
  · cases ht with
    | control _ ht => exact ht.table_fresh hI.table
    | clean _ ht => exact ht.table_fresh hI.table
    | cleanFile _ _ ht => exact ht.table_fresh hI.table
    | callback _ _ ht => exact ht.table_fresh hI.table
    | accept | connQuiet | connFile | create => exact hI.table
    | connEffect _ _ _ htables =>
        intro id s hl
        have hs := congrArg Tables.sessions htables
        have href := congrArg Tables.nextRef htables
        simp only [FileTransferManager.tables] at hs href
        rw [href]
        exact hI.table id s (hs ▸ hl)
  · intro c conn s hc hsession
    rcases step_conn ht hc with ⟨-, hold⟩ | rfl | ⟨inp, conn₀, eff, -, hold, hmove, -⟩
    · exact lt_of_lt_of_le (hI.conns c conn s hold hsession) hle
    · cases hsession
    · cases hmove with
      | found hidle hfind =>
          obtain ⟨id, hl, -⟩ := findSession_some hfind
          cases hsession
          exact lt_of_lt_of_le (hI.table id _ hl) hle
      | authenticated => exact lt_of_lt_of_le (hI.conns c _ s hold hsession) hle
      | serves => exact lt_of_lt_of_le (hI.conns c _ s hold hsession) hle
      | greeted | ends => cases hsession
  · intro s hs
    cases ht with
    | control _ ht => exact ht.registered_fresh hs
    | clean _ ht => exact ht.registered_fresh hs
    | callback _ _ ht => exact ht.registered_fresh hs
    | cleanFile _ _ ht =>
        rcases List.mem_cons.mp hs with h | h
        · cases h
        · exact ht.registered_fresh h
    | accept | connQuiet | connFile | create => simp at hs
    | connEffect _ _ _ _ hminor =>
        simp only [List.mem_cons, reduceCtorEq, false_or] at hs
        exact absurd hs (not_registered_of_minor hminor s)

/-- What is known of the connection that makes a call of `m_onFinished`: its body
has ended, and if it was asked to upload and succeeded, its file was verified
and renamed since its session was registered. -/
def CallerKnown (w : World κ H) (h : List (TransferEvent κ)) (c : Nat)
    (cb : FinishedCallback) : Prop :=
  ∃ hs s, w.conns[c]? = some (.serving hs s .done) ∧ s.transferId = cb.transferId ∧
    (cb.success = true → hs.direction = TransferDirection.mobileUploadToPc.toByte →
      .connection c s .verified ∈ sinceLast (· = .registered s) h ∧
      ∃ src dst, .connection c s (.file (.rename src dst)) ∈
        sinceLast (· = .registered s) h)

/-- What a callback between its look-up and its signal will say is true. -/
def FoundTrue (h : List (TransferEvent κ)) (cb : FinishedCallback) (name : String) : Prop :=
  ∃ dir info, openOffer h cb.transferId = some (dir, info) ∧ name = info.offer.name ∧
    (cb.success = true → dir = .mobileUploadToPc ∧ SavedFor h cb.transferId)

omit [DecidableEq κ] in
theorem FoundTrue.append {h : List (TransferEvent κ)} {cb : FinishedCallback} {name : String}
    (hfound : FoundTrue h cb name) {es : List (TransferEvent κ)}
    (hes : ∀ e ∈ es, e.delimits cb.transferId = false) : FoundTrue (h ++ es) cb name := by
  obtain ⟨dir, info, hopen, hname, hsaved⟩ := hfound
  refine ⟨dir, info, by rw [openOffer_append hes, hopen], hname, fun hsucc => ?_⟩
  exact ⟨(hsaved hsucc).1, (hsaved hsucc).2.append hes⟩

/-- Every entry is an open offer or looked up; a connection past its checks was
verified since its session was registered, and one that has saved has renamed;
a callback belongs to an ended connection, at most one of an identifier is past
its look-up, and what it found is still true; and every signal was truthful. -/
structure OutcomeInv (w : World κ H) (h : List (TransferEvent κ)) : Prop where
  ref : RefInv w
  entries : EntriesOpen w.manager.activeOffers w.manager.LookedUp h
  presented : ∀ (c : Nat) (hs : FileTransferHandshake) (s : ActiveTransferSession)
    (pc : Pc H), w.conns[c]? = some (.serving hs s pc) →
    ∀ dir, pc.mode = some dir → hs.direction = dir.toByte
  verified : ∀ (c : Nat) (hs : FileTransferHandshake) (s : ActiveTransferSession)
    (pc : Pc H), w.conns[c]? = some (.serving hs s pc) → pc.afterVerify = true →
    .connection c s .verified ∈ sinceLast (· = .registered s) h
  renamed : ∀ (c : Nat) (hs : FileTransferHandshake) (s : ActiveTransferSession)
    (pc : Pc H), w.conns[c]? = some (.serving hs s pc) → pc.hasSaved = true →
    ∃ src dst, .connection c s (.file (.rename src dst)) ∈ sinceLast (· = .registered s) h
  callers : ∀ (c : Nat) (cb : FinishedCallback), w.manager.callbacks.lookup c = some cb →
    CallerKnown w h c cb
  alone : ∀ (c c' : Nat) (cb cb' : FinishedCallback),
    w.manager.callbacks.lookup c = some cb → w.manager.callbacks.lookup c' = some cb' →
    cb.stage ≠ .find → cb'.stage ≠ .find → cb.transferId = cb'.transferId → c = c'
  found : ∀ (c : Nat) (cb : FinishedCallback) (name : String),
    w.manager.callbacks.lookup c = some cb → cb.stage.unsignalled = some name →
    FoundTrue h cb name
  outcome : OneTruthfulOutcome h

/-! ### Events that delimit a transfer -/

omit [DecidableEq κ] in
/-- A call that meets the condition does not delimit a transfer that a callback
is about to signal. -/
theorem control_delimits {w : World κ H} {h es : List (TransferEvent κ)} {a : Control}
    {m : FileTransferManager} (hcall : control P H w.manager w.fs a = some (m, es))
    (hok : TruthfulReport w h (.control a)) {id : String} (hid : w.manager.Unsignalled id) :
    ∀ e ∈ es, e.delimits id = false := by
  cases control_cases P H hcall with
  | start | stop | stopLock | setCurrentSession | sendFiles | skip | ignored => simp
  | cancel =>
      rw [cancel_events]
      simp
  | accept => simp [TransferEvent.delimits, register]
  | @offer _ _ _ offer hidle hread =>
      have hne := hok offer (by simp [hread, Except.toOption])
      simp only [acceptOffer, register, List.mem_cons, List.not_mem_nil, or_false,
        forall_eq_or_imp, forall_eq, TransferEvent.delimits, decide_eq_false_iff_not,
        true_and, and_true]
      rintro rfl
      exact hne hid
  | @complete sessionId payload i error ok info hidle hread _ hoffer =>
      have hne := (hok i (by simp [hread, Except.toOption])
        (AList.lookup_isSome.mp (by simp [hoffer]))).1
      simp only [List.mem_cons, List.not_mem_nil, or_false, forall_eq_or_imp, forall_eq,
        TransferEvent.delimits, decide_eq_false_iff_not, true_and]
      rintro rfl
      refine hne ?_
      obtain ⟨x, hx, hxid, hstage⟩ := hid
      obtain ⟨name, hname⟩ := Option.isSome_iff_exists.mp hstage
      exact ⟨x, hx, hxid, CallbackStage.unsignalled_ne_find hname⟩
  | send _ _ hinfo hr =>
      subst hinfo hr
      simp only [register, List.mem_cons, List.not_mem_nil, or_false, forall_eq_or_imp,
        forall_eq, TransferEvent.delimits, decide_eq_false_iff_not, and_true]
      rintro rfl
      exact hok hid

/-- Only calls and callbacks delimit transfers. -/
theorem step_delimits {w w' : World κ H} {h es : List (TransferEvent κ)}
    {a : TransferAction κ} (hs : transferStep P H w a = some (w', es))
    (hok : TruthfulReport w h a) (hcb : ∀ c, a ≠ .callback c) {id : String}
    (hid : w.manager.Unsignalled id) : ∀ e ∈ es, e.delimits id = false := by
  cases managerStep_cases hs with
  | call hcall => exact control_delimits hcall hok hid
  | next _ hremoved =>
      intro e he
      rcases List.mem_append.mp he with he | he
      · obtain ⟨s, op, hit, made, rfl⟩ := hremoved e he
        rfl
      · unfold cleanNext at he
        split at he <;> simp [finishCancel] at he <;> subst he <;> rfl
  | @effect _ _ _ s eff =>
      cases eff <;> simp [World.effect, World.perform, TransferEvent.delimits]
  | callback => exact absurd rfl (hcb _)
  | same _ hes =>
      intro e he
      obtain ⟨k, rfl⟩ := hes e he
      rfl

/-- A signal comes from `handleFileComplete`, for an entry, or from a callback. -/
theorem step_signals {w w' : World κ H} {es : List (TransferEvent κ)} {a : TransferAction κ}
    (hs : transferStep P H w a = some (w', es)) {id name error : String} {ok : Bool}
    (he : .transferFinished id name ok error ∈ es) :
    (∃ sessionId payload info, a = .control (.handleFileComplete sessionId payload) ∧
      payload.stringValue "transferId" "" = .ok id ∧ payload.boolValue "ok" false = .ok ok ∧
      w.manager.activeOffers.lookup id = some info ∧ name = info.offer.name ∧
      es = [.fileComplete sessionId id ok, .transferFinished id name ok error]) ∨
    ∃ c cb, a = .callback c ∧ w.manager.callbacks.lookup c = some cb ∧
      cb.stage = .signal name ∧ cb.transferId = id ∧ cb.success = ok ∧
      es = [.transferFinished id name ok error] := by
  cases managerStep_cases hs with
  | call hcall =>
      left
      generalize w'.manager = m' at hcall
      cases control_cases P H hcall with
      | start | stop | stopLock | setCurrentSession | sendFiles | skip | ignored => cases he
      | cancel =>
          rw [cancel_events] at he
          cases he
      | offer | accept => simp [acceptOffer, register] at he
      | send _ _ _ hr => simp [hr, register] at he
      | @complete sessionId payload i error' ok' info _ hid hok hoffer =>
          simp only [List.mem_cons, reduceCtorEq, TransferEvent.transferFinished.injEq,
            List.not_mem_nil, or_false, false_or] at he
          obtain ⟨rfl, rfl, rfl, rfl⟩ := he
          exact ⟨sessionId, payload, info, rfl, hid, hok, hoffer, rfl, rfl⟩
  | @callback c cb _ hcb hstep =>
      right
      generalize w'.manager = m' at hstep
      cases onFinished_cases hstep with
      | find => cases he
      | reply _ hes => exact absurd he (notMem_of_minor rfl hes)
      | signal hstage =>
          simp only [List.mem_singleton, TransferEvent.transferFinished.injEq] at he
          obtain ⟨rfl, rfl, rfl, rfl⟩ := he
          exact ⟨c, cb, rfl, hcb, hstage, rfl, rfl, rfl⟩
      | erase => simp at he
  | next _ hremoved =>
      rcases List.mem_append.mp he with he | he
      · obtain ⟨s, op, hit, made, heq⟩ := hremoved _ he
        cases heq
      · unfold cleanNext at he
        split at he <;> simp [finishCancel] at he
  | @effect _ _ _ s eff => cases eff <;> simp [World.effect, World.perform] at he
  | same _ hes =>
      obtain ⟨k, heq⟩ := hes _ he
      cases heq

/-! ### The callbacks in one step -/

omit [DecidableEq κ] in
/-- A callback that goes on past its look-up leaves the identifier looked up. -/
theorem lookedUp_goOn {m : FileTransferManager} {c : Nat} {cb : FinishedCallback}
    (hcb : m.callbacks.lookup c = some cb) {stage : CallbackStage} (hstage : stage ≠ .find)
    {id : String} (hl : m.LookedUp id ∨ id = cb.transferId) :
    (m.goOn c cb stage).LookedUp id := by
  have hself : (m.goOn c cb stage).LookedUp cb.transferId :=
    ⟨⟨c, { cb with stage := stage }⟩, AList.mem_lookup_iff.mp (AList.lookup_insert _), rfl,
      hstage⟩
  rcases hl with hl | rfl
  · refine hl.mono fun c' cb' hcb' hid hstage' => ?_
    by_cases hcc : c' = c
    · subst hcc
      obtain rfl : cb = cb' := Option.some.inj (hcb.symm.trans hcb')
      exact hid ▸ hself
    · refine hid ▸ lookedUp_of_lookup (c := c') ?_ hstage'
      simpa [goOn, AList.lookup_insert_ne hcc] using hcb'
  · exact hself

section Callbacks

variable {w w' : World κ H} {h es : List (TransferEvent κ)} {a : TransferAction κ}

/-- The session of a connection is not registered again. -/
theorem OutcomeInv.since (hI : OutcomeInv w h) (hs : transferStep P H w a = some (w', es))
    {c : Nat} {conn : Connection H} {s : ActiveTransferSession}
    (hc : w.conns[c]? = some conn) (hsession : conn.session? = some s) :
    sinceLast (· = .registered s) (h ++ es) = sinceLast (· = .registered s) h ++ es := by
  refine sinceLast_append ?_ h
  intro e he
  simp only [decide_eq_false_iff_not]
  rintro rfl
  have hfresh := (refInv_step hI.ref (step_cases hs)).2.2 s he
  exact absurd hfresh (Nat.ne_of_lt (hI.ref.conns c conn s hc hsession))

/-- What is known of a caller stays known. -/
theorem CallerKnown.step {c : Nat} {cb : FinishedCallback} (hcaller : CallerKnown w h c cb)
    (hI : OutcomeInv w h) (hs : transferStep P H w a = some (w', es)) :
    CallerKnown w' (h ++ es) c cb := by
  obtain ⟨hs', s, hc, hid, hsaved⟩ := hcaller
  refine ⟨hs', s, ended_stays hs hc rfl, hid, fun hsucc hdir => ?_⟩
  obtain ⟨hverified, src, dst, hrenamed⟩ := hsaved hsucc hdir
  rw [hI.since hs hc rfl]
  exact ⟨List.mem_append_left _ hverified, src, dst, List.mem_append_left _ hrenamed⟩

/-- The connection that calls `m_onFinished` is known. -/
theorem OutcomeInv.caller (hI : OutcomeInv w h) (hs : transferStep P H w a = some (w', es))
    {c : Nat} {inp : Input} {hs' : FileTransferHandshake} {s : ActiveTransferSession}
    {pc : Pc H} {v : View κ} {ok : Bool} {error : String}
    (hc : w.conns[c]? = some (.serving hs' s pc))
    (hserve : serve P H v s pc inp = some (.done, (.finished ok error : Effect κ)))
    (hdone : w'.conns[c]? = some (.serving hs' s .done)) :
    CallerKnown w' (h ++ es) c
      { transferId := s.transferId, success := ok, error := error, stage := .find } := by
  refine ⟨hs', s, hdone, rfl, ?_⟩
  rintro rfl hdir
  rw [hI.since hs hc rfl]
  rcases (serve_finished hserve).2 with ⟨hfalse, -⟩ | ⟨-, -, ⟨f, rfl⟩ | rfl⟩
  · cases hfalse
  · obtain ⟨src, dst, hrenamed⟩ := hI.renamed c hs' s _ hc rfl
    exact ⟨List.mem_append_left _ (hI.verified c hs' s _ hc rfl), src, dst,
      List.mem_append_left _ hrenamed⟩
  · -- a connection that sends was asked to send
    have hbyte := hI.presented c hs' s _ hc .desktopDownloadToMobile rfl
    rw [hbyte] at hdir
    cases hdir

/-- The look-up of a callback that meets the condition finds a true name. -/
theorem OutcomeInv.finds (hI : OutcomeInv w h) {c : Nat} {cb : FinishedCallback}
    (hcb : w.manager.callbacks.lookup c = some cb) (hstage : cb.stage = .find)
    (hok : TruthfulReport w h (.callback c)) :
    ¬w.manager.LookedUp cb.transferId ∧
      FoundTrue h cb
        (((w.manager.activeOffers.lookup cb.transferId).map (·.offer.name)).getD "") := by
  obtain ⟨hs, s, hc, hid, hsaved⟩ := hI.callers c cb hcb
  obtain ⟨hmem, halone, hreg, hsucc⟩ :=
    hok cb hcb (hs, s) (by simp [hc, Connection.served?]) hstage
  obtain ⟨info, hl⟩ := Option.isSome_iff_exists.mp (AList.lookup_isSome.mpr hmem)
  obtain ⟨dir, hopen⟩ := (hI.entries cb.transferId info hl).resolve_right halone
  refine ⟨halone, dir, info, hopen, by simp [hl], fun htrue => ?_⟩
  obtain ⟨hdir, hupload⟩ := hsucc htrue
  obtain ⟨hverified, src, dst, hrenamed⟩ := hsaved htrue hdir
  refine ⟨by simpa [hopen] using hupload, c, s, src, dst, hid, hreg, ?_, ?_⟩
  · exact mem_sinceLast_trans hreg hverified
  · exact mem_sinceLast_trans hreg hrenamed

/-- A step of anything but a callback. -/
theorem Transition.entriesOpen (ht : Transition P w a w' es) (hother : ∀ c, a ≠ .callback c)
    (hsignal : ∀ id name ok error, .transferFinished id name ok error ∈ es →
      ∃ sessionId, es = [.fileComplete sessionId id ok, .transferFinished id name ok error])
    {lookedUp : String → Prop} (hopen : EntriesOpen w.manager.activeOffers lookedUp h) :
    EntriesOpen w'.manager.activeOffers lookedUp (h ++ es) := by
  have hnone : ∀ id name ok error, es = [.transferFinished id name ok error] →
      lookedUp id := by
    intro id name ok error heq
    obtain ⟨sessionId, htwo⟩ := hsignal id name ok error (by simp [heq])
    simp [heq] at htwo
  cases ht with
  | control _ ht => exact ht.entriesOpen hopen hnone
  | clean _ ht => exact ht.entriesOpen hopen hnone
  | callback => exact absurd rfl (hother _)
  | cleanFile _ _ ht =>
      rw [List.append_cons]
      refine ht.entriesOpen (hopen.append ?_) fun id name ok error heq => ?_
      · simp [TransferEvent.delimits]
      · obtain ⟨sessionId, htwo⟩ := hsignal id name ok error (by simp [heq])
        simp at htwo
  | accept | connQuiet => simpa using hopen
  | connFile | create => exact hopen.append (by simp [TransferEvent.delimits])
  | connEffect _ _ _ htables hminor =>
      have hoffers := congrArg Tables.offers htables
      simp only [FileTransferManager.tables] at hoffers
      rw [hoffers]
      refine hopen.append fun id e he => ?_
      rcases List.mem_cons.mp he with rfl | he
      · rfl
      · exact TransferEvent.minor_delimits (hminor e he) id

omit [DecidableEq κ] in
/-- A step of a callback. -/
theorem CallbackStep.entriesOpen {m m' : FileTransferManager} {c : Nat}
    {cb : FinishedCallback} (hcb : m.callbacks.lookup c = some cb)
    (hstep : CallbackStep m c cb m' es) (hopen : EntriesOpen m.activeOffers m.LookedUp h) :
    EntriesOpen m'.activeOffers m'.LookedUp (h ++ es) := by
  cases hstep with
  | find hstage =>
      rw [List.append_nil]
      exact fun id info hl => (hopen id info hl).imp_right fun hlooked =>
        lookedUp_goOn hcb (by simp) (Or.inl hlooked)
  | reply hstage hes =>
      refine EntriesOpen.append ?_ fun id e he => TransferEvent.minor_delimits (hes e he) id
      exact fun id info hl => (hopen id info hl).imp_right fun hlooked =>
        lookedUp_goOn hcb (by simp) (Or.inl hlooked)
  | signal hstage =>
      intro id info hl
      by_cases hid : id = cb.transferId
      · exact Or.inr (lookedUp_goOn hcb (by simp) (Or.inr hid))
      · rw [openOffer_append (by simpa [TransferEvent.delimits] using Ne.symm hid)]
        exact (hopen id info hl).imp_right fun hlooked =>
          lookedUp_goOn hcb (by simp) (Or.inl hlooked)
  | erase hstage =>
      intro id info hl
      obtain ⟨hne, hl⟩ := lookup_of_erase hl
      rw [openOffer_append (by simp [TransferEvent.delimits])]
      refine (hopen id info hl).imp_right fun hlooked => hlooked.mono ?_
      intro c' cb' hcb' hid hstage'
      have hcc : c' ≠ c := by
        rintro rfl
        obtain rfl : cb = cb' := Option.some.inj (hcb.symm.trans hcb')
        exact hne hid.symm
      exact hid ▸ lookedUp_of_lookup (c := c')
        (by simpa [AList.lookup_erase_ne hcc] using hcb') hstage'

/-- Entries and open offers stay together. -/
theorem entriesOpen_step (hI : OutcomeInv w h) (hs : transferStep P H w a = some (w', es)) :
    EntriesOpen w'.manager.activeOffers w'.manager.LookedUp (h ++ es) := by
  have hother : (∀ c, a ≠ .callback c) → ∀ {lookedUp : String → Prop},
      EntriesOpen w.manager.activeOffers lookedUp h →
        EntriesOpen w'.manager.activeOffers lookedUp (h ++ es) := by
    intro hne lookedUp hopen
    refine (step_cases hs).entriesOpen hne (fun id name ok error he => ?_) hopen
    rcases step_signals hs he with ⟨sessionId, _, _, -, -, -, -, -, heq⟩ | ⟨c, _, heq, -⟩
    · exact ⟨sessionId, heq⟩
    · exact absurd heq (hne c)
  cases callbackMove_cases hs with
  | goes hcb _ hstep => exact hstep.entriesOpen hcb hI.entries
  | @called c inp hs' s pc ok error es v hc hserve hdone hcall =>
      refine hother (by simp) fun id info hl => (hI.entries id info hl).imp_right ?_
      -- the connection made no call before
      intro hlooked
      refine hlooked.mono fun c' cb' hcb' hid hstage => ?_
      have hcc : c' ≠ c := by
        rintro rfl
        obtain ⟨_, _, hc', -⟩ := hI.callers c' cb' hcb'
        rw [hc] at hc'
        cases hc'
        simp [serve] at hserve
      refine hid ▸ lookedUp_of_lookup (c := c') ?_ hstage
      rw [hcall]
      simpa [callOnFinished, AList.lookup_insert_ne hcc] using hcb'
  | rests hne hsame =>
      refine hother hne fun id info hl => (hI.entries id info hl).imp_right ?_
      intro hlooked
      exact hlooked.mono fun c' cb' hcb' hid hstage =>
        hid ▸ lookedUp_of_lookup (c := c') (hsame ▸ hcb') hstage

/-- At most one callback of an identifier is past its look-up. -/
theorem alone_step (hI : OutcomeInv w h) (hok : TruthfulReport w h a)
    (hs : transferStep P H w a = some (w', es)) {c c' : Nat} {cb cb' : FinishedCallback}
    (hc : w'.manager.callbacks.lookup c = some cb)
    (hc' : w'.manager.callbacks.lookup c' = some cb') (hstage : cb.stage ≠ .find)
    (hstage' : cb'.stage ≠ .find) (hid : cb.transferId = cb'.transferId) : c = c' := by
  cases callbackMove_cases hs with
  | rests _ hsame =>
      rw [hsame] at hc hc'
      exact hI.alone c c' cb cb' hc hc' hstage hstage' hid
  | @called c₀ _ _ s _ ok error _ _ _ _ _ hcall =>
      -- the new callback is not past its look-up
      have hold : ∀ {i x}, w'.manager.callbacks.lookup i = some x → x.stage ≠ .find →
          w.manager.callbacks.lookup i = some x := by
        intro i x hl hx
        rw [hcall] at hl
        by_cases hi : i = c₀
        · subst hi
          simp only [callOnFinished, AList.lookup_insert, Option.some.injEq] at hl
          subst hl
          exact absurd rfl hx
        · simpa [callOnFinished, AList.lookup_insert_ne hi] using hl
      exact hI.alone c c' cb cb' (hold hc hstage) (hold hc' hstage') hstage hstage' hid
  | @goes c₀ cb₀ es hcb₀ _ hstep =>
      -- a callback that moves against one that rests
      have hmoves : ∀ {i x}, cb₀.transferId = x.transferId →
          w.manager.callbacks.lookup i = some x → x.stage ≠ .find → c₀ = i := by
        intro i x hsame hl hx
        by_cases hfind : cb₀.stage = .find
        · have hnot := (hI.finds hcb₀ hfind hok).1
          exact absurd (hsame ▸ lookedUp_of_lookup hl hx) hnot
        · exact hI.alone c₀ i cb₀ x hcb₀ hl hfind hx hsame
      rcases hstep.lookup hc with ⟨hne, hl⟩ | ⟨rfl, -, stage, -, rfl⟩
      · rcases hstep.lookup hc' with ⟨hne', hl'⟩ | ⟨rfl, -, stage, -, rfl⟩
        · exact hI.alone c c' cb cb' hl hl' hstage hstage' hid
        · exact absurd (hmoves hid.symm hl hstage).symm hne
      · rcases hstep.lookup hc' with ⟨hne', hl'⟩ | ⟨rfl, -, stage', -, rfl⟩
        · exact hmoves hid hl' hstage'
        · rfl

/-- What a callback has found stays true until it signals. -/
theorem found_step (hI : OutcomeInv w h) (hok : TruthfulReport w h a)
    (hs : transferStep P H w a = some (w', es)) {c : Nat} {cb : FinishedCallback}
    {name : String} (hc : w'.manager.callbacks.lookup c = some cb)
    (hstage : cb.stage.unsignalled = some name) : FoundTrue (h ++ es) cb name := by
  -- a callback that has not moved, in a step of anything but a callback
  have hrests : (∀ i, a ≠ .callback i) → w.manager.callbacks.lookup c = some cb →
      FoundTrue (h ++ es) cb name := fun hne hl =>
    (hI.found c cb name hl hstage).append
      (step_delimits hs hok hne (unsignalled_of_lookup hl hstage))
  cases callbackMove_cases hs with
  | rests hne hsame => exact hrests hne (hsame ▸ hc)
  | @called c₀ _ _ s _ ok error _ _ _ _ _ hcall =>
      refine hrests (by simp) ?_
      rw [hcall] at hc
      by_cases hi : c = c₀
      · subst hi
        simp only [callOnFinished, AList.lookup_insert, Option.some.injEq] at hc
        subst hc
        cases hstage
      · simpa [callOnFinished, AList.lookup_insert_ne hi] using hc
  | @goes c₀ cb₀ es hcb₀ _ hstep =>
      obtain ⟨fs', m', conns'⟩ := w'
      change m'.callbacks.lookup c = some cb at hc
      change CallbackStep w.manager c₀ cb₀ m' es at hstep
      rcases hstep.lookup hc with ⟨hne, hl⟩ | ⟨rfl, -, stage, -, rfl⟩
      · -- the callback that moves is another, of another identifier if it signals
        refine (hI.found c cb name hl hstage).append fun e he => ?_
        cases hstep with
        | find => cases he
        | reply _ hes => exact TransferEvent.minor_delimits (hes e he) _
        | signal hsignal =>
            rw [List.mem_singleton] at he
            subst he
            simp only [TransferEvent.delimits, decide_eq_false_iff_not]
            exact fun hsame => hne (hI.alone c c₀ cb cb₀ hl hcb₀
              (CallbackStage.unsignalled_ne_find hstage) (by simp [hsignal]) hsame.symm)
        | erase =>
            rw [List.mem_singleton] at he
            subst he
            rfl
      · cases hstep with
        | find hfind hname =>
            simp only [goOn, AList.lookup_insert, Option.some.injEq,
              FinishedCallback.mk.injEq, true_and] at hc
            subst hc
            cases hstage
            rw [List.append_nil, hname]
            exact (hI.finds hcb₀ hfind hok).2
        | @reply _ fileName es hreply hes =>
            simp only [goOn, AList.lookup_insert, Option.some.injEq,
              FinishedCallback.mk.injEq, true_and] at hc
            subst hc
            cases hstage
            have hfound := hI.found c cb₀ name hcb₀ (by simp [hreply, CallbackStage.unsignalled])
            exact hfound.append fun e he => TransferEvent.minor_delimits (hes e he) _
        | signal =>
            simp only [goOn, AList.lookup_insert, Option.some.injEq,
              FinishedCallback.mk.injEq, true_and] at hc
            subst hc
            cases hstage
        | erase => simp at hc

/-- Every signal of the step is truthful. -/
theorem outcome_step (hI : OutcomeInv w h) (hok : TruthfulReport w h a)
    (hs : transferStep P H w a = some (w', es)) : OneTruthfulOutcome (h ++ es) := by
  intro h₁ id name ok error h₂ heq
  rcases append_eq_append_cons heq with ⟨h₂', hold, -⟩ | ⟨es₁, rfl, hes⟩
  · exact hI.outcome h₁ id name ok error h₂' hold
  · rcases step_signals hs (show .transferFinished id name ok error ∈ es by simp [hes]) with
      ⟨sessionId, payload, info, rfl, hid, htrue, hoffer, rfl, htwo⟩ |
      ⟨c, cb, rfl, hcb, hstage, rfl, rfl, hone⟩
    · -- the peer's word
      obtain ⟨halone, hsucc⟩ := hok id (by simp [hid, Except.toOption])
        (AList.lookup_isSome.mp (by simp [hoffer]))
      obtain ⟨dir, hopen⟩ := (hI.entries id info hoffer).resolve_right halone
      obtain rfl : es₁ = [.fileComplete sessionId id ok] := by
        rw [htwo] at hes
        cases es₁ with
        | nil => simp at hes
        | cons x xs =>
            cases xs with
            | nil => simp_all
            | cons y ys => simp at hes
      have hkeep : ∀ e ∈ ([.fileComplete sessionId id ok] : List (TransferEvent κ)),
          e.delimits id = false := by simp [TransferEvent.delimits]
      refine ⟨dir, info, by rw [openOffer_append hkeep, hopen], rfl, ?_⟩
      rintro rfl
      have hdir := hsucc (by simp [htrue, Except.toOption])
      simp only [hopen, Option.map_some, Option.some.injEq, Prod.mk.injEq] at hdir
      obtain ⟨rfl, rfl⟩ := hdir
      simp [sinceOffer_append hkeep]
    · -- the callback's
      obtain rfl : es₁ = [] := by
        rw [hone] at hes
        cases es₁ with
        | nil => rfl
        | cons x xs => simp at hes
      obtain ⟨dir, info, hopen, hname, hsucc⟩ :=
        hI.found c cb name hcb (by simp [hstage, CallbackStage.unsignalled])
      rw [List.append_nil]
      refine ⟨dir, info, hopen, hname, fun htrue => ?_⟩
      obtain ⟨rfl, hsaved⟩ := hsucc htrue
      exact hsaved

/-- **One step.** -/
theorem outcomeInv_step (hI : OutcomeInv w h) (hok : TruthfulReport w h a)
    (hs : transferStep P H w a = some (w', es)) : OutcomeInv w' (h ++ es) := by
  have ht := step_cases hs
  refine
    { ref := (refInv_step hI.ref ht).1
      entries := entriesOpen_step hI hs
      presented := ?_, verified := ?_, renamed := ?_, callers := ?_
      alone := fun c c' cb cb' hc hc' => alone_step hI hok hs hc hc'
      found := fun c cb name hc => found_step hI hok hs hc
      outcome := outcome_step hI hok hs }
  · intro c hs' s pc hc dir hmode
    rcases step_conn ht hc with ⟨-, hold⟩ | hnew | ⟨inp, conn, eff, -, hold, hmove, -⟩
    · exact hI.presented c hs' s pc hold dir hmode
    · cases hnew
    · cases hmove with
      | authenticated =>
          simp only [Pc.mode] at hmode
          split at hmode
          · cases hmode
            assumption
          · split at hmode <;> cases hmode
            assumption
      | serves hserve =>
          rcases (serve_mode hserve).1 with hnone | hsame
          · rw [hnone] at hmode
            cases hmode
          · exact hI.presented c hs' s _ hold dir (hsame ▸ hmode)
  · intro c hs' s pc hc hpc
    rcases step_conn ht hc with ⟨-, hold⟩ | hnew | ⟨inp, conn, eff, -, hold, hmove, hfirst⟩
    · rw [hI.since hs hold rfl]
      exact List.mem_append_left _ (hI.verified c hs' s pc hold hpc)
    · cases hnew
    · cases hmove with
      | authenticated => cases hpc
      | serves hserve =>
          rw [hI.since hs hold rfl]
          rcases serve_afterVerify hserve hpc with rfl | hbefore
          · obtain ⟨es', rfl⟩ := hfirst _ _ rfl
            exact List.mem_append_right _ (by simp)
          · exact List.mem_append_left _ (hI.verified c hs' s _ hold hbefore)
  · intro c hs' s pc hc hpc
    rcases step_conn ht hc with ⟨-, hold⟩ | hnew | ⟨inp, conn, eff, -, hold, hmove, hfirst⟩
    · rw [hI.since hs hold rfl]
      obtain ⟨src, dst, hmem⟩ := hI.renamed c hs' s pc hold hpc
      exact ⟨src, dst, List.mem_append_left _ hmem⟩
    · cases hnew
    · cases hmove with
      | authenticated => cases hpc
      | serves hserve =>
          rw [hI.since hs hold rfl]
          obtain ⟨src, dst, rfl⟩ := serve_hasSaved hserve hpc
          obtain ⟨es', rfl⟩ := hfirst _ _ rfl
          exact ⟨src, dst, List.mem_append_right _ (by simp)⟩
  · intro c cb hc
    cases callbackMove_cases hs with
    | rests _ hsame => exact (hI.callers c cb (hsame ▸ hc)).step hI hs
    | @called c₀ _ _ s _ ok error _ _ hold hserve hdone hcall =>
        rw [hcall] at hc
        by_cases hi : c = c₀
        · subst hi
          simp only [callOnFinished, AList.lookup_insert, Option.some.injEq] at hc
          subst hc
          exact hI.caller hs hold hserve hdone
        · refine (hI.callers c cb ?_).step hI hs
          simpa [callOnFinished, AList.lookup_insert_ne hi] using hc
    | goes hcb₀ _ hstep =>
        rcases hstep.lookup hc with ⟨-, hl⟩ | ⟨rfl, -, stage, -, rfl⟩
        · exact (hI.callers c cb hl).step hI hs
        · exact (hI.callers c _ hcb₀).step hI hs

end Callbacks

theorem outcomeInv_reach {w : World κ H} {h : List (TransferEvent κ)}
    (hr : (transferMachine P H).Reach TruthfulReport w h) : OutcomeInv w h := by
  refine Reach.invariant _ ?_ ?_ hr
  · rintro w ⟨-, -, hm, hconns⟩
    exact
      { ref := { table := by simp [hm], conns := by simp [hconns] }
        entries := by simp [EntriesOpen, hm]
        presented := by simp [hconns]
        verified := by simp [hconns]
        renamed := by simp [hconns]
        callers := by simp [hm]
        alone := by simp [hm]
        found := by simp [hm]
        outcome := by simp [OneTruthfulOutcome] }
  · intro w h a w' es hI hok hs
    exact outcomeInv_step hI hok hs

end Steps

/-! ## Concrete runs -/

/-- Offering the empty file `a` to session 1, and sending it on connection 0:
the sender reports success when it has written its last byte. -/
def sendEmpty : List (TransferAction String) :=
  [ .control (.start true)
  , .control (.sendFiles 1 ["a"])
  , .control (.sendNext
      { uuid := sampleUuid 1, token := sampleToken 7, opens := true, readLimit := none }) ] ++
  connectActions 0 1 7 1 ++
  -- open, loop head, close, check, report
  List.replicate 5 (.conn 0 .go) ++ finishActions 0

end Iriseus.Core
