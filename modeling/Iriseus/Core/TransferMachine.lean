import Iriseus.Core.FileTransferManager
import Iriseus.Verified.Machine

/-!
# The file-transfer system as a machine

`World` puts together the file store, the manager with its data server and
the threads of all data connections; `transferMachine` is their interleaving.
One label is one handler of a control message, one call of the user interface,
one step of one connection thread, one step of the callback with which a
connection ends, one removal of a temporary file by `cancel` or `stop`, or a
file that another program puts.  Every label is arbitrary: the peer's messages
and bytes, random draws, failures of calls and the choice of the thread that
moves.

Only two kinds of labels touch files, and both through `World.perform`, so
that facts about files need one lemma for each kind (`step_cases`).

## Main results

* `step_cases` — what one step can do to files, connections and the manager.
* `wf_step` — the file store stays well formed.
-/

namespace Iriseus.Core

open Iriseus.Verified
open Iriseus.Verified.ByteStream

/-- The whole system. -/
structure World (κ : Type) (H : IncrementalHash) where
  fs : FileStore κ
  manager : FileTransferManager
  conns : List (Connection H)

/-- The calls made on the manager. -/
inductive Control where
  | start (binds : Bool)
  | stop
  | stopLock (order : List ActiveTransferSession)
  | setCurrentSession (sessionId : UInt64)
  | handleFileOffer (sessionId : UInt64) (payload : Json) (token : ByteBlock kTokenSize)
  | handleFileAccept (sessionId : UInt64) (payload : Json) (token : ByteBlock kTokenSize)
  | handleFileReject (payload : Json)
  | handleFileComplete (sessionId : UInt64) (payload : Json)
  | handleFileCancel (payload : Json)
  | sendFiles (sessionId : UInt64) (paths : List String)
  | sendNext (draw : FileTransferManager.SendDraw)

inductive TransferAction (κ : Type) where
  | control (a : Control)
  | clean (inp : Input)
  | accept
  | conn (c : Nat) (inp : Input)
  | callback (c : Nat)
  | create (k : κ) (data : Bytes)

section Step

variable {κ : Type} [DecidableEq κ] (P : Platform κ) (H : IncrementalHash)

/-- Perform a file operation for a session. -/
def World.perform {H : IncrementalHash} (w : World κ H) (s : ActiveTransferSession)
    (op : FileOp κ) : World κ H × List (TransferEvent κ) :=
  ({ w with fs := op.apply w.fs }, [.fileOp s op (op.hits w.fs) (op.makes w.fs)])

/-- The calls made on the manager.  `none` is a call that is not possible now,
or one whose exception ends the program.  A handler does not run while another
one holds the lock of the session table. -/
def control (m : FileTransferManager) (fs : FileStore κ) :
    Control → Option (FileTransferManager × List (TransferEvent κ))
  | .start binds =>
      if m.server.stopping then none
      else some ({ m with server := m.server.start binds }, [])
  | .stop => some ({ m with server := m.server.stop }, [])
  | .stopLock order =>
      if m.server.stopping ∧ m.server.cleaning = .idle ∧
          order.Perm (m.server.sessions.entries.map Sigma.snd) then
        some ({ m with server := m.server.stopLock order }, [])
      else none
  | .setCurrentSession sessionId => some ({ m with currentSessionId := sessionId }, [])
  | .sendFiles sessionId paths =>
      if m.sending.2 = [] then some (m.sendFiles sessionId paths, []) else none
  | .handleFileOffer sessionId payload token =>
      if m.server.cleaning = .idle then some (m.handleFileOffer P sessionId payload token)
      else none
  | .handleFileAccept sessionId payload token =>
      if m.server.cleaning = .idle then
        (m.handleFileAccept sessionId payload token).toOption
      else none
  | .handleFileReject payload =>
      if m.server.cleaning = .idle then (m.handleFileReject payload).toOption else none
  | .handleFileComplete sessionId payload =>
      if m.server.cleaning = .idle then
        (m.handleFileComplete sessionId payload).toOption
      else none
  | .handleFileCancel payload =>
      if m.server.cleaning = .idle then (m.handleFileCancel payload).toOption else none
  | .sendNext draw =>
      if m.server.cleaning = .idle then m.sendNext P H fs draw else none

/-- The session whose temporary file the holder of the lock removes next. -/
def Cleaning.target : Cleaning → Option ActiveTransferSession
  | .cancel s => some s
  | .stop (s :: _) => some s
  | _ => none

/-- What the holder of the lock does after that removal. -/
def FileTransferManager.cleanNext (m : FileTransferManager) :
    FileTransferManager × List (TransferEvent κ) :=
  match m.server.cleaning with
  | .idle => (m, [])
  | .cancel s => m.finishCancel s.transferId
  | .stop [] =>
      ({ m with server :=
          { m.server with sessions := ∅, cleaning := .idle, stopping := false } }, [.cleared])
  | .stop (_ :: todo) => ({ m with server := m.server.stopNext todo }, [])

/-- One removal by the holder of the lock; it may fail. -/
def clean {H : IncrementalHash} (w : World κ H) (inp : Input) :
    Option (World κ H × List (TransferEvent κ)) :=
  if w.manager.server.cleaning = .idle then none
  else
    let next := w.manager.cleanNext (κ := κ)
    match w.manager.server.cleaning.target, inp with
    | some s, .go =>
        match P.qtKey s.tempFilePath with
        | some k =>
            let r := w.perform s (.remove k)
            some ({ r.1 with manager := next.1 }, r.2 ++ next.2)
        | none => some ({ w with manager := next.1 }, next.2)
    | _, .fail => some ({ w with manager := next.1 }, next.2)
    | none, .go => some ({ w with manager := next.1 }, next.2)
    | _, _ => none

/-- The effect of a step of connection `c`. -/
def World.effect {H : IncrementalHash} (w : World κ H) (c : Nat)
    (s : ActiveTransferSession) : Effect κ → World κ H × List (TransferEvent κ)
  | .file op => w.perform s op
  | .progress bytes =>
      ({ w with manager :=
          { w.manager with server := w.manager.server.setBytes s bytes } },
        [.transferProgress s.transferId bytes s.expectedSize])
  | .finished ok error =>
      ({ w with manager := w.manager.callOnFinished c s.transferId ok error }, [])
  | _ => (w, [])

/-- One step of the system. -/
def transferStep (w : World κ H) :
    TransferAction κ → Option (World κ H × List (TransferEvent κ))
  | .control a =>
      match control P H w.manager w.fs a with
      | some (m, es) => some ({ w with manager := m }, es)
      | none => none
  | .clean inp => clean P w inp
  | .accept =>
      if w.manager.server.accepting then
        some ({ w with conns := w.conns ++ [.handshake] }, [])
      else none
  | .conn c inp =>
      match w.conns[c]? with
      | none => none
      | some conn =>
          match conn.step P H w.manager.server w.fs inp with
          | none => none
          | some (conn', none) => some ({ w with conns := w.conns.set c conn' }, [])
          | some (conn', some (s, e)) =>
              let r := World.effect { w with conns := w.conns.set c conn' } c s e
              some (r.1, .connection c s e :: r.2)
  | .callback c =>
      match w.manager.callbacks.lookup c with
      | some cb =>
          let r := w.manager.onFinished (κ := κ) c cb
          some ({ w with manager := r.1 }, r.2)
      | none => none
  | .create k data =>
      if w.fs.exists? k then none
      else some ({ w with fs := (FileOp.create k data).apply w.fs }, [.created k])

/-- The system starts with any files, none of them open, and nothing
registered. -/
def transferMachine : Machine (World κ H) (TransferAction κ) (TransferEvent κ) where
  Init w := w.fs.WF ∧ w.fs.handles = [] ∧ w.manager = {} ∧ w.conns = []
  step := transferStep P H

end Step

/-! ## What a step does to the two tables -/

/-- The part of the manager on which registrations and outcomes depend. -/
structure Tables where
  sessions : SessionTable
  offers : AList (fun _ : String => TransferMeta)
  cleaning : Cleaning
  nextRef : Nat

def FileTransferManager.tables (m : FileTransferManager) : Tables where
  sessions := m.server.sessions
  offers := m.activeOffers
  cleaning := m.server.cleaning
  nextRef := m.server.nextRef

/-- Messages, progress reports and other programs' files: no claim about the
tables depends on them. -/
def TransferEvent.minor {κ : Type} : TransferEvent κ → Bool
  | .sendTo _ _ => true
  | .transferProgress _ _ _ => true
  | .created _ => true
  | _ => false

theorem notMem_of_minor {κ : Type} {e : TransferEvent κ} (he : e.minor = false)
    {es : List (TransferEvent κ)} (hes : ∀ x ∈ es, x.minor = true) : e ∉ es := by
  intro hmem
  rw [hes e hmem] at he
  cases he

/-- All the ways in which the tables change, with the events that go with
each. -/
inductive TableStep {κ : Type} (t : Tables) : Tables → List (TransferEvent κ) → Prop
  | quiet : TableStep t t []
  | offer {dir : TransferDirection} {info : TransferMeta} {s : ActiveTransferSession}
      {pre post : List (TransferEvent κ)} (hidle : t.cleaning = .idle)
      (hid : s.transferId = info.offer.transferId) (href : s.ref = t.nextRef)
      (htoken : s.tokenBytes.length = kTokenSize) (hdir : s.direction = dir)
      (hpre : ∀ e ∈ pre, e.minor = true) (hpost : ∀ e ∈ post, e.minor = true) :
      TableStep t
        { t with
          sessions := t.sessions.insert s.transferId s
          offers := t.offers.insert s.transferId info
          nextRef := t.nextRef + 1 }
        (pre ++ .offered dir info :: .registered s :: post)
  | reoffer {info : TransferMeta} {s : ActiveTransferSession}
      {post : List (TransferEvent κ)} (hidle : t.cleaning = .idle)
      (hoffer : t.offers.lookup s.transferId = some info) (href : s.ref = t.nextRef)
      (htoken : s.tokenBytes.length = kTokenSize)
      (hdir : s.direction = .desktopDownloadToMobile)
      (hpost : ∀ e ∈ post, e.minor = true) :
      TableStep t
        { t with
          sessions := t.sessions.insert s.transferId s
          nextRef := t.nextRef + 1 }
        (.registered s :: post)
  | cancelBegin {id : String} {s : ActiveTransferSession} (hidle : t.cleaning = .idle)
      (hentry : t.sessions.lookup id = some s) :
      TableStep t { t with cleaning := .cancel s } []
  | cancelNone {id : String} (hidle : t.cleaning = .idle)
      (hentry : t.sessions.lookup id = none) :
      TableStep t { t with offers := t.offers.erase id } []
  | cancelEnd {s : ActiveTransferSession} (hclean : t.cleaning = .cancel s) :
      TableStep t
        { t with
          sessions := t.sessions.erase s.transferId
          offers := t.offers.erase s.transferId
          cleaning := .idle }
        [.erased s.transferId]
  | stopBegin {order : List ActiveTransferSession} (hidle : t.cleaning = .idle)
      (horder : order.Perm (t.sessions.entries.map Sigma.snd)) :
      TableStep t { t with cleaning := .stop order } []
  | stopNext {s : ActiveTransferSession} {todo : List ActiveTransferSession}
      (hclean : t.cleaning = .stop (s :: todo)) :
      TableStep t { t with cleaning := .stop todo } []
  | stopEnd (hclean : t.cleaning = .stop []) :
      TableStep t { t with sessions := ∅, cleaning := .idle } [.cleared]
  | complete {sessionId : UInt64} {id error : String} {info : TransferMeta} {ok : Bool}
      (hidle : t.cleaning = .idle) (hoffer : t.offers.lookup id = some info) :
      TableStep t { t with offers := t.offers.erase id }
        [.fileComplete sessionId id ok, .transferFinished id info.offer.name ok error]
  | told {es : List (TransferEvent κ)} (hes : ∀ e ∈ es, e.minor = true) : TableStep t t es
  | signal {id name error : String} {ok : Bool} :
      TableStep t t [.transferFinished id name ok error]
  | withdraw {id : String} :
      TableStep t { t with offers := t.offers.erase id } [.withdrawn id]

theorem lookup_of_erase {β : Type} {t : AList (fun _ : String => β)} {i id : String} {x : β}
    (hl : (t.erase i).lookup id = some x) : id ≠ i ∧ t.lookup id = some x := by
  by_cases hid : id = i
  · subst hid
    simp at hl
  · exact ⟨hid, by rwa [AList.lookup_erase_ne hid] at hl⟩

theorem toOption_eq_some {ε α : Type} {x : Except ε α} {a : α}
    (h : x.toOption = some a) : x = .ok a := by
  cases x with
  | error e => cases h
  | ok b => simpa [Except.toOption] using h

section Tables

variable {κ : Type} (P : Platform κ) (H : IncrementalHash)

open FileTransferManager

/-- All that a call on the manager can do. -/
inductive ControlStep (m : FileTransferManager) :
    Control → FileTransferManager → List (TransferEvent κ) → Prop
  | start {binds : Bool} (hstopped : m.server.stopping = false) :
      ControlStep m (.start binds) { m with server := m.server.start binds } []
  | stop : ControlStep m .stop { m with server := m.server.stop } []
  | stopLock {order : List ActiveTransferSession} (hstopping : m.server.stopping = true)
      (hidle : m.server.cleaning = .idle)
      (horder : order.Perm (m.server.sessions.entries.map Sigma.snd)) :
      ControlStep m (.stopLock order) { m with server := m.server.stopLock order } []
  | setCurrentSession {sessionId : UInt64} :
      ControlStep m (.setCurrentSession sessionId) { m with currentSessionId := sessionId } []
  | sendFiles {sessionId : UInt64} {paths : List String} :
      ControlStep m (.sendFiles sessionId paths) (m.sendFiles sessionId paths) []
  | offer {sessionId : UInt64} {payload : Json} {token : ByteBlock kTokenSize}
      {offer : FileOffer} (hidle : m.server.cleaning = .idle)
      (hread : FileOffer.from_json payload = .ok offer) :
      ControlStep m (.handleFileOffer sessionId payload token)
        (m.acceptOffer P sessionId offer token).1 (m.acceptOffer P sessionId offer token).2
  | accept {sessionId : UInt64} {payload : Json} {token : ByteBlock kTokenSize} {id : String}
      {info : TransferMeta} (hidle : m.server.cleaning = .idle)
      (hid : payload.stringValue "transferId" "" = .ok id)
      (hoffer : m.activeOffers.lookup id = some info) :
      ControlStep m (.handleFileAccept sessionId payload token)
        (m.register (κ := κ) id token info.filePath info.offer.size info.offer.sha256
          .desktopDownloadToMobile).1
        [ (m.register id token info.filePath info.offer.size info.offer.sha256
            .desktopDownloadToMobile).2
        , .sendTo sessionId (.fileReady id kFileTransferPort (generateToken token)) ]
  | cancel {a : Control} {payload : Json} {id : String}
      (ha : a = .handleFileReject payload ∨ a = .handleFileCancel payload)
      (hidle : m.server.cleaning = .idle)
      (hid : payload.stringValue "transferId" "" = .ok id) :
      ControlStep m a (m.cancel (κ := κ) id).1 (m.cancel id).2
  | complete {sessionId : UInt64} {payload : Json} {id error : String} {ok : Bool}
      {info : TransferMeta} (hidle : m.server.cleaning = .idle)
      (hid : payload.stringValue "transferId" "" = .ok id)
      (hok : payload.boolValue "ok" false = .ok ok)
      (hoffer : m.activeOffers.lookup id = some info) :
      ControlStep m (.handleFileComplete sessionId payload)
        { m with activeOffers := m.activeOffers.erase id }
        [.fileComplete sessionId id ok, .transferFinished id info.offer.name ok error]
  | send {draw : SendDraw} {sessionId : UInt64} {path : String} {rest : List String}
      {hashed : Bytes} {size : Nat} {info : TransferMeta}
      {r : FileTransferManager × TransferEvent κ} (hidle : m.server.cleaning = .idle)
      (hsending : m.sending = (sessionId, path :: rest))
      (hinfo : info =
        { sessionId := sessionId
          offer := makeOffer H path draw hashed size
          filePath := path })
      (hr : r = (addOffer { m with sending := (sessionId, rest) } info).register
        info.offer.transferId draw.token path info.offer.size info.offer.sha256
        .desktopDownloadToMobile) :
      ControlStep m (.sendNext draw) r.1
        [.offered .desktopDownloadToMobile info, r.2, .sendTo sessionId (.fileOffer info.offer)]
  | skip {draw : SendDraw} {sessionId : UInt64} {path : String} {rest : List String}
      (hsending : m.sending = (sessionId, path :: rest)) :
      ControlStep m (.sendNext draw) { m with sending := (sessionId, rest) } []
  | ignored {a : Control} : ControlStep m a m []

/-- **Inversion for the calls.** -/
theorem control_cases {m m' : FileTransferManager} {fs : FileStore κ} {a : Control}
    {es : List (TransferEvent κ)} (h : control P H m fs a = some (m', es)) :
    ControlStep P H m a m' es := by
  have hreject : ∀ payload,
      a = .handleFileReject payload ∨ a = .handleFileCancel payload →
        m.server.cleaning = .idle → m.handleFileReject payload = .ok (m', es) →
          ControlStep P H m a m' es := by
    intro payload ha hidle hr
    rcases handleFileReject_cases hr with ⟨rfl, rfl⟩ | ⟨id, hid, hcancel⟩
    · exact .ignored
    · obtain ⟨rfl, rfl⟩ : m' = (m.cancel (κ := κ) id).1 ∧ es = (m.cancel id).2 := by
        simp [hcancel]
      exact .cancel ha hidle hid
  cases a with
  | start binds =>
      simp only [control] at h
      split at h
      · cases h
      · rename_i hnot
        cases h
        exact .start (by simpa using hnot)
  | stop =>
      cases h
      exact .stop
  | stopLock order =>
      simp only [control] at h
      split at h
      · rename_i hok
        cases h
        exact .stopLock hok.1 hok.2.1 hok.2.2
      · cases h
  | setCurrentSession sessionId =>
      cases h
      exact .setCurrentSession
  | sendFiles sessionId paths =>
      simp only [control] at h
      split at h <;> cases h
      exact .sendFiles
  | handleFileOffer sessionId payload token =>
      simp only [control] at h
      split at h
      · rename_i hidle
        simp only [handleFileOffer, Option.some.injEq] at h
        split at h
        · rename_i offer hread
          cases h
          exact .offer hidle hread
        · cases h
          exact .ignored
      · cases h
  | handleFileAccept sessionId payload token =>
      simp only [control] at h
      split at h
      · rename_i hidle
        rcases handleFileAccept_cases (toOption_eq_some h) with
          ⟨rfl, rfl⟩ | ⟨id, info, hid, hoffer, rfl, rfl⟩
        · exact .ignored
        · exact .accept hidle hid hoffer
      · cases h
  | handleFileReject payload =>
      simp only [control] at h
      split at h
      · exact hreject payload (Or.inl rfl) ‹_› (toOption_eq_some h)
      · cases h
  | handleFileCancel payload =>
      simp only [control] at h
      split at h
      · exact hreject payload (Or.inr rfl) ‹_› (toOption_eq_some h)
      · cases h
  | handleFileComplete sessionId payload =>
      simp only [control] at h
      split at h
      · rename_i hidle
        rcases handleFileComplete_cases (toOption_eq_some h) with
          ⟨rfl, rfl, -⟩ | ⟨id, ok, error, info, hid, hok, hoffer, rfl, rfl⟩
        · exact .ignored
        · exact .complete hidle hid hok hoffer
      · cases h
  | sendNext draw =>
      simp only [control] at h
      split at h
      · rename_i hidle
        obtain ⟨sessionId, path, rest, hsending, ⟨rfl, rfl⟩ | ⟨hashed, size, rfl, rfl⟩⟩ :=
          sendNext_cases P H h
        · exact .skip hsending
        · exact .send hidle hsending rfl rfl
      · cases h

theorem acceptOffer_tables (m : FileTransferManager) (sessionId : UInt64)
    (offer : FileOffer) (token : ByteBlock kTokenSize)
    (hidle : m.server.cleaning = .idle) :
    TableStep m.tables (m.acceptOffer P sessionId offer token).1.tables
      (m.acceptOffer P sessionId offer token).2 := by
  let s := m.server.newSession offer.transferId (generateToken token) token.bytes
    (defaultDownloadDir P ++ "/" ++ sanitizeFileName (fromStdString offer.name)) offer.size
    offer.sha256 .mobileUploadToPc
  let info : TransferMeta := { sessionId := sessionId, offer := offer, filePath := "" }
  exact @TableStep.offer κ m.tables .mobileUploadToPc info s
    [.sendTo sessionId (.fileAccept offer.transferId)]
    [.sendTo sessionId
      (.fileReady offer.transferId kFileTransferPort (generateToken token))]
    hidle rfl rfl token.size rfl (by simp [TransferEvent.minor])
    (by simp [TransferEvent.minor])

theorem cancel_tables (m : FileTransferManager) (id : String)
    (hidle : m.server.cleaning = .idle) :
    TableStep (κ := κ) m.tables (m.cancel (κ := κ) id).1.tables (m.cancel id).2 := by
  unfold cancel
  cases hentry : m.server.sessions.lookup id with
  | some s =>
      simp only [FileTransferServer.cancelTransfer, hentry]
      exact TableStep.cancelBegin (t := m.tables) hidle hentry
  | none => exact TableStep.cancelNone (t := m.tables) hidle hentry

/-- All that one step of a callback can do. -/
inductive CallbackStep (m : FileTransferManager) (c : Nat) (cb : FinishedCallback) :
    FileTransferManager → List (TransferEvent κ) → Prop
  | find {sessionId : UInt64} {fileName : String} (hstage : cb.stage = .find)
      (hname : fileName =
        ((m.activeOffers.lookup cb.transferId).map (·.offer.name)).getD "") :
      CallbackStep m c cb (m.goOn c cb (.reply sessionId fileName)) []
  | reply {sessionId : UInt64} {fileName : String} {es : List (TransferEvent κ)}
      (hstage : cb.stage = .reply sessionId fileName) (hes : ∀ e ∈ es, e.minor = true) :
      CallbackStep m c cb (m.goOn c cb (.signal fileName)) es
  | signal {fileName : String} (hstage : cb.stage = .signal fileName) :
      CallbackStep m c cb (m.goOn c cb .erase)
        [.transferFinished cb.transferId fileName cb.success cb.error]
  | erase (hstage : cb.stage = .erase) :
      CallbackStep m c cb
        { m with
          activeOffers := m.activeOffers.erase cb.transferId
          callbacks := m.callbacks.erase c }
        [.withdrawn cb.transferId]

/-- **Inversion for the callback.** -/
theorem onFinished_cases {m m' : FileTransferManager} {c : Nat} {cb : FinishedCallback}
    {es : List (TransferEvent κ)} (h : m.onFinished c cb = (m', es)) :
    CallbackStep m c cb m' es := by
  unfold onFinished at h
  split at h <;> cases h
  · exact .find ‹_› rfl
  · refine .reply ‹_› ?_
    split <;> simp [TransferEvent.minor]
  · exact .signal ‹_›
  · exact .erase ‹_›

/-- What a step of a callback leaves of the callbacks. -/
theorem CallbackStep.lookup {m m' : FileTransferManager} {c : Nat} {cb : FinishedCallback}
    {es : List (TransferEvent κ)} (hstep : CallbackStep m c cb m' es) {c' : Nat}
    {cb' : FinishedCallback} (hl : m'.callbacks.lookup c' = some cb') :
    (c' ≠ c ∧ m.callbacks.lookup c' = some cb') ∨
      (c' = c ∧ cb.stage ≠ .erase ∧ ∃ stage, stage ≠ .find ∧ cb' = { cb with stage := stage }) := by
  have hgoOn : ∀ stage, stage ≠ .find → cb.stage ≠ .erase →
      (m.goOn c cb stage).callbacks.lookup c' = some cb' →
      (c' ≠ c ∧ m.callbacks.lookup c' = some cb') ∨
        (c' = c ∧ cb.stage ≠ .erase ∧
          ∃ stage, stage ≠ .find ∧ cb' = { cb with stage := stage }) := by
    intro stage hstage hold hl
    by_cases hcc : c' = c
    · subst hcc
      simp only [goOn, AList.lookup_insert, Option.some.injEq] at hl
      exact Or.inr ⟨rfl, hold, stage, hstage, hl.symm⟩
    · simp only [goOn, AList.lookup_insert_ne hcc] at hl
      exact Or.inl ⟨hcc, hl⟩
  cases hstep with
  | find hstage => exact hgoOn _ (by simp) (by simp [hstage]) hl
  | reply hstage => exact hgoOn _ (by simp) (by simp [hstage]) hl
  | signal hstage => exact hgoOn _ (by simp) (by simp [hstage]) hl
  | erase =>
      by_cases hcc : c' = c
      · subst hcc
        simp at hl
      · exact Or.inl ⟨hcc, by simpa [AList.lookup_erase_ne hcc] using hl⟩

/-- The callback tells the sender, signals and erases the offer. -/
theorem onFinished_tables {m m' : FileTransferManager} {c : Nat} {cb : FinishedCallback}
    {es : List (TransferEvent κ)} (h : m.onFinished c cb = (m', es)) :
    TableStep m.tables m'.tables es := by
  cases onFinished_cases h with
  | find => exact .quiet
  | reply _ hes => exact TableStep.told (t := m.tables) hes
  | signal => exact TableStep.signal (t := m.tables)
  | erase => exact TableStep.withdraw (t := m.tables)

theorem cleanNext_tables (m : FileTransferManager) :
    TableStep (κ := κ) m.tables (m.cleanNext (κ := κ)).1.tables (m.cleanNext).2 := by
  unfold cleanNext
  split
  · exact .quiet
  · rename_i s hclean
    exact TableStep.cancelEnd (t := m.tables) hclean
  · rename_i hclean
    exact TableStep.stopEnd (t := m.tables) hclean
  · rename_i s todo hclean
    have hnext : ({ m with server := m.server.stopNext todo } : FileTransferManager).tables =
        { m.tables with cleaning := .stop todo } := by
      cases todo <;> rfl
    rw [hnext]
    exact TableStep.stopNext (t := m.tables) hclean

/-- A call on the manager changes the tables in one of the listed ways. -/
theorem control_tables {m m' : FileTransferManager} {fs : FileStore κ} {a : Control}
    {es : List (TransferEvent κ)} (h : control P H m fs a = some (m', es)) :
    TableStep m.tables m'.tables es := by
  cases control_cases P H h with
  | @start binds =>
      have hstart : ({ m with server := m.server.start binds } :
          FileTransferManager).tables = m.tables := by
        simp only [FileTransferServer.start]
        split <;> rfl
      rw [hstart]
      exact .quiet
  | stop =>
      have hstop : ({ m with server := m.server.stop } : FileTransferManager).tables =
          m.tables := by
        simp only [FileTransferServer.stop]
        split <;> rfl
      rw [hstop]
      exact .quiet
  | @stopLock order _ hidle horder =>
      have hlock : ({ m with server := m.server.stopLock order } :
          FileTransferManager).tables = { m.tables with cleaning := .stop order } := by
        cases order <;> rfl
      rw [hlock]
      exact TableStep.stopBegin (t := m.tables) hidle horder
  | @sendFiles sessionId paths =>
      have hsend : (m.sendFiles sessionId paths).tables = m.tables := by
        simp only [sendFiles]
        split <;> split <;> rfl
      rw [hsend]
      exact .quiet
  | setCurrentSession | skip | ignored => exact .quiet
  | offer hidle => exact acceptOffer_tables P m _ _ _ hidle
  | @accept _ _ token _ _ hidle _ hoffer =>
      refine TableStep.reoffer (t := m.tables) hidle hoffer rfl token.size rfl ?_
      simp [TransferEvent.minor]
  | cancel _ hidle => exact cancel_tables m _ hidle
  | complete hidle _ _ hoffer => exact TableStep.complete (t := m.tables) hidle hoffer
  | @send draw _ _ _ _ _ info r hidle _ hinfo hr =>
      subst hinfo hr
      refine @TableStep.offer κ m.tables .desktopDownloadToMobile _ _ [] _ hidle rfl rfl
        draw.token.size rfl ?_ ?_
      · simp
      · simp [TransferEvent.minor]

/-- What a call on the manager does to its server: one call, or none. -/
inductive ServerCall (srv : FileTransferServer) : FileTransferServer → Prop
  | none : ServerCall srv srv
  | start {binds : Bool} (hstopped : srv.stopping = false) :
      ServerCall srv (srv.start binds)
  | stop : ServerCall srv srv.stop
  | stopLock {order : List ActiveTransferSession} (hstopping : srv.stopping = true) :
      ServerCall srv (srv.stopLock order)
  | register {s : ActiveTransferSession} (hidle : srv.cleaning = .idle) :
      ServerCall srv (srv.registerTransfer s)
  | cancel {id : String} (hidle : srv.cleaning = .idle) :
      ServerCall srv (srv.cancelTransfer id)

theorem control_server {m m' : FileTransferManager} {fs : FileStore κ} {a : Control}
    {es : List (TransferEvent κ)} (h : control P H m fs a = some (m', es)) :
    ServerCall m.server m'.server := by
  cases control_cases P H h with
  | start hstopped => exact .start hstopped
  | stop => exact .stop
  | stopLock hstopping => exact .stopLock hstopping
  | @sendFiles sessionId paths =>
      have hserver : (m.sendFiles sessionId paths).server = m.server := by
        simp only [sendFiles]
        split <;> split <;> rfl
      rw [hserver]
      exact .none
  | offer hidle | accept hidle => exact .register hidle
  | send hidle _ _ hr =>
      rw [hr]
      exact .register hidle
  | cancel _ hidle =>
      unfold cancel
      split
      · exact .cancel hidle
      · exact .none
  | setCurrentSession | complete | skip | ignored => exact .none

/-- The tables' events are not those of a connection. -/
theorem TableStep.not_connection {t t' : Tables} {es : List (TransferEvent κ)}
    (ht : TableStep t t' es) (c : Nat) (s : ActiveTransferSession) (e : Effect κ) :
    .connection c s e ∉ es := by
  have he : (TransferEvent.connection c s e).minor = false := rfl
  cases ht with
  | offer _ _ _ _ _ hpre hpost => simp [notMem_of_minor he hpre, notMem_of_minor he hpost]
  | reoffer _ _ _ _ _ hpost => simp [notMem_of_minor he hpost]
  | told hes => exact notMem_of_minor he hes
  | _ => simp

end Tables

/-! ## What a step does to files and connections -/

/-- All the ways in which the system moves. -/
inductive Transition {κ : Type} [DecidableEq κ] (P : Platform κ) {H : IncrementalHash}
    (w : World κ H) :
    TransferAction κ → World κ H → List (TransferEvent κ) → Prop
  | control {a : Control} {m : FileTransferManager} {es : List (TransferEvent κ)}
      (hcall : Iriseus.Core.control P H w.manager w.fs a = some (m, es))
      (ht : TableStep w.manager.tables m.tables es) :
      Transition P w (.control a) { w with manager := m } es
  | clean {inp : Input} {m : FileTransferManager} {es : List (TransferEvent κ)}
      (hbusy : w.manager.server.cleaning ≠ .idle)
      (ht : TableStep w.manager.tables m.tables es) :
      Transition P w (.clean inp) { w with manager := m } es
  | cleanFile {s : ActiveTransferSession} {k : κ} {m : FileTransferManager}
      {es : List (TransferEvent κ)} (htarget : w.manager.server.cleaning.target = some s)
      (hkey : P.qtKey s.tempFilePath = some k)
      (ht : TableStep w.manager.tables m.tables es) :
      Transition P w (.clean .go)
        { w with fs := (FileOp.remove k).apply w.fs, manager := m }
        (.fileOp s (.remove k) ((FileOp.remove k).hits w.fs)
          ((FileOp.remove k).makes w.fs) :: es)
  | accept : Transition P w .accept { w with conns := w.conns ++ [.handshake] } []
  | connQuiet {c : Nat} {inp : Input} {conn conn' : Connection H}
      (hc : w.conns[c]? = some conn)
      (hmove : conn.step P H w.manager.server w.fs inp = some (conn', none)) :
      Transition P w (.conn c inp) { w with conns := w.conns.set c conn' } []
  | connFile {c : Nat} {inp : Input} {conn conn' : Connection H}
      {s : ActiveTransferSession} {op : FileOp κ} (hc : w.conns[c]? = some conn)
      (hmove : conn.step P H w.manager.server w.fs inp = some (conn', some (s, .file op))) :
      Transition P w (.conn c inp)
        { w with fs := op.apply w.fs, conns := w.conns.set c conn' }
        [.connection c s (.file op), .fileOp s op (op.hits w.fs) (op.makes w.fs)]
  | connEffect {c : Nat} {inp : Input} {conn conn' : Connection H}
      {s : ActiveTransferSession} {e : Effect κ} {m : FileTransferManager}
      {es : List (TransferEvent κ)} (hc : w.conns[c]? = some conn)
      (hmove : conn.step P H w.manager.server w.fs inp = some (conn', some (s, e)))
      (hfile : ∀ op, e ≠ .file op) (htables : m.tables = w.manager.tables)
      (hminor : ∀ e ∈ es, e.minor = true) :
      Transition P w (.conn c inp) { w with manager := m, conns := w.conns.set c conn' }
        (.connection c s e :: es)
  | callback {c : Nat} {cb : FinishedCallback} {m : FileTransferManager}
      {es : List (TransferEvent κ)} (hcb : w.manager.callbacks.lookup c = some cb)
      (hstep : w.manager.onFinished c cb = (m, es))
      (ht : TableStep w.manager.tables m.tables es) :
      Transition P w (.callback c) { w with manager := m } es
  | create {k : κ} {data : Bytes} (hfree : w.fs.exists? k = false) :
      Transition P w (.create k data)
        { w with fs := (FileOp.create k data).apply w.fs } [.created k]

section Transition

variable {κ : Type} [DecidableEq κ] {P : Platform κ} {H : IncrementalHash}

private theorem clean_transition {w w' : World κ H} {inp : Input}
    {es : List (TransferEvent κ)} (h : clean P w inp = some (w', es)) :
    Transition P w (.clean inp) w' es := by
  unfold clean at h
  split at h
  · cases h
  · rename_i hbusy
    have ht := cleanNext_tables (κ := κ) w.manager
    simp only at h
    split at h
    · rename_i s htarget
      split at h
      · rename_i k hkey
        cases h
        exact .cleanFile htarget hkey ht
      · cases h
        exact .clean hbusy ht
    · cases h
      exact .clean hbusy ht
    · cases h
      exact .clean hbusy ht
    · cases h

private theorem conn_transition {w w' : World κ H} {c : Nat} {inp : Input}
    {es : List (TransferEvent κ)}
    (h : transferStep P H w (.conn c inp) = some (w', es)) :
    Transition P w (.conn c inp) w' es := by
  simp only [transferStep] at h
  split at h
  · cases h
  · rename_i conn hc
    split at h
    · cases h
    · rename_i conn' hmove
      cases h
      exact .connQuiet hc hmove
    · rename_i conn' s e hmove
      cases e with
      | file op =>
          cases h
          exact .connFile hc hmove
      | finished ok error =>
          cases h
          exact .connEffect (m := w.manager.callOnFinished c s.transferId ok error)
            hc hmove (by simp) rfl (by simp [World.effect])
      | progress bytes =>
          cases h
          refine .connEffect
            (m := { w.manager with server := w.manager.server.setBytes s bytes })
            hc hmove (by simp) rfl ?_
          simp [World.effect, TransferEvent.minor]
      | silent =>
          cases h
          exact .connEffect hc hmove (by simp) rfl (by simp [World.effect])
      | found hs =>
          cases h
          exact .connEffect hc hmove (by simp) rfl (by simp [World.effect])
      | authenticated hs =>
          cases h
          exact .connEffect hc hmove (by simp) rfl (by simp [World.effect])
      | verified =>
          cases h
          exact .connEffect hc hmove (by simp) rfl (by simp [World.effect])
      | read bs =>
          cases h
          exact .connEffect hc hmove (by simp) rfl (by simp [World.effect])
      | send bs =>
          cases h
          exact .connEffect hc hmove (by simp) rfl (by simp [World.effect])

/-- **Inversion.**  Every step of the system is one of the transitions. -/
theorem step_cases {w w' : World κ H} {a : TransferAction κ}
    {es : List (TransferEvent κ)} (h : transferStep P H w a = some (w', es)) :
    Transition P w a w' es := by
  cases a with
  | control a =>
      simp only [transferStep] at h
      split at h
      · rename_i m es' hcall
        cases h
        exact .control hcall (control_tables P H hcall)
      · cases h
  | clean inp => exact clean_transition h
  | accept =>
      simp only [transferStep] at h
      split at h
      · cases h
        exact .accept
      · cases h
  | conn c inp => exact conn_transition h
  | callback c =>
      simp only [transferStep] at h
      split at h
      · rename_i cb hcb
        cases h
        exact .callback hcb rfl (onFinished_tables rfl)
      · cases h
  | create k data =>
      simp only [transferStep] at h
      split at h
      · cases h
      · rename_i hfree
        cases h
        exact .create (by simpa using hfree)

end Transition

/-! ## What a step does to the manager -/

/-- All the ways in which a step changes the manager, with its events. -/
inductive ManagerStep {κ : Type} [DecidableEq κ] (P : Platform κ) {H : IncrementalHash}
    (w : World κ H) (m' : FileTransferManager) :
    TransferAction κ → List (TransferEvent κ) → Prop
  | call {a : Control} {es : List (TransferEvent κ)}
      (hcall : Iriseus.Core.control P H w.manager w.fs a = some (m', es)) :
      ManagerStep P w m' (.control a) es
  | next {inp : Input} {removed : List (TransferEvent κ)}
      (hm : m' = (w.manager.cleanNext (κ := κ)).1)
      (hremoved : ∀ e ∈ removed, ∃ s op hit made, e = .fileOp s op hit made) :
      ManagerStep P w m' (.clean inp) (removed ++ w.manager.cleanNext.2)
  | effect {c : Nat} {inp : Input} {conns : List (Connection H)}
      {s : ActiveTransferSession} {e : Effect κ}
      (hm : m' = (World.effect { w with conns := conns } c s e).1.manager) :
      ManagerStep P w m' (.conn c inp)
        (.connection c s e :: (World.effect { w with conns := conns } c s e).2)
  | callback {c : Nat} {cb : FinishedCallback} {es : List (TransferEvent κ)}
      (hcb : w.manager.callbacks.lookup c = some cb)
      (hstep : w.manager.onFinished c cb = (m', es)) : ManagerStep P w m' (.callback c) es
  | same {a : TransferAction κ} {es : List (TransferEvent κ)} (hm : m' = w.manager)
      (hes : ∀ e ∈ es, ∃ k, e = .created k) : ManagerStep P w m' a es

section Manager

variable {κ : Type} [DecidableEq κ] {P : Platform κ} {H : IncrementalHash}

private theorem clean_managerStep {w w' : World κ H} {inp : Input}
    {es : List (TransferEvent κ)} (h : clean P w inp = some (w', es)) :
    ManagerStep P w w'.manager (.clean inp) es := by
  have hnone : ManagerStep P w w.manager.cleanNext.1 (.clean inp)
      ([] ++ w.manager.cleanNext.2) := .next rfl (by simp)
  unfold clean at h
  split at h
  · cases h
  · simp only at h
    split at h
    · rename_i s _
      split at h
      · cases h
        refine .next rfl fun e he => ?_
        rw [World.perform, List.mem_singleton] at he
        exact ⟨s, _, _, _, he⟩
      · cases h
        exact hnone
    · cases h
      exact hnone
    · cases h
      exact hnone
    · cases h

/-- **Inversion for the manager.**  Every step calls it, goes on with a removal
or a callback, or lets a connection act on it. -/
theorem managerStep_cases {w w' : World κ H} {a : TransferAction κ}
    {es : List (TransferEvent κ)} (h : transferStep P H w a = some (w', es)) :
    ManagerStep P w w'.manager a es := by
  cases a with
  | control a =>
      simp only [transferStep] at h
      split at h
      · rename_i m es' hcall
        cases h
        exact .call hcall
      · cases h
  | clean inp => exact clean_managerStep h
  | accept =>
      simp only [transferStep] at h
      split at h <;> cases h
      exact .same rfl (by simp)
  | conn c inp =>
      simp only [transferStep] at h
      split at h
      · cases h
      · split at h <;> cases h
        · exact .same rfl (by simp)
        · exact .effect rfl
  | callback c =>
      simp only [transferStep] at h
      split at h
      · rename_i cb hcb
        cases h
        exact .callback hcb rfl
      · cases h
  | create k data =>
      simp only [transferStep] at h
      split at h <;> cases h
      exact .same rfl (by simp)

/-! ## What a step does to the callbacks -/

/-- All the ways in which a step changes the running callbacks. -/
inductive CallbackMove (P : Platform κ) (w w' : World κ H) :
    TransferAction κ → List (TransferEvent κ) → Prop
  | rests {a : TransferAction κ} {es : List (TransferEvent κ)}
      (hother : ∀ c, a ≠ .callback c)
      (hsame : w'.manager.callbacks = w.manager.callbacks) : CallbackMove P w w' a es
  | called {c : Nat} {inp : Input} {hs : FileTransferHandshake} {s : ActiveTransferSession}
      {pc : Pc H} {ok : Bool} {error : String} {es : List (TransferEvent κ)} {v : View κ}
      (hc : w.conns[c]? = some (.serving hs s pc))
      (hserve : serve P H v s pc inp = some (.done, .finished ok error))
      (hdone : w'.conns[c]? = some (.serving hs s .done))
      (hcall : w'.manager.callbacks =
        (w.manager.callOnFinished c s.transferId ok error).callbacks) :
      CallbackMove P w w' (.conn c inp) es
  | goes {c : Nat} {cb : FinishedCallback} {es : List (TransferEvent κ)}
      (hcb : w.manager.callbacks.lookup c = some cb) (hconns : w'.conns = w.conns)
      (hstep : CallbackStep w.manager c cb w'.manager es) :
      CallbackMove P w w' (.callback c) es

omit [DecidableEq κ] in
theorem control_callbacks {m m' : FileTransferManager} {fs : FileStore κ} {a : Control}
    {es : List (TransferEvent κ)} (h : control P H m fs a = some (m', es)) :
    m'.callbacks = m.callbacks := by
  cases control_cases P H h with
  | sendFiles =>
      simp only [FileTransferManager.sendFiles]
      split <;> split <;> rfl
  | cancel =>
      simp only [FileTransferManager.cancel]
      split <;> rfl
  | send _ _ _ hr =>
      rw [hr]
      rfl
  | _ => rfl

omit [DecidableEq κ] in
theorem cleanNext_callbacks (m : FileTransferManager) :
    (m.cleanNext (κ := κ)).1.callbacks = m.callbacks := by
  unfold FileTransferManager.cleanNext
  split <;> rfl

/-- **Inversion for the callbacks.**  A callback begins with the last step of a
connection's body and goes on by itself; nothing else touches it. -/
theorem callbackMove_cases {w w' : World κ H} {a : TransferAction κ}
    {es : List (TransferEvent κ)} (h : transferStep P H w a = some (w', es)) :
    CallbackMove P w w' a es := by
  cases a with
  | conn c inp =>
      simp only [transferStep] at h
      split at h
      · cases h
      · rename_i conn hc
        split at h <;> cases h
        · exact .rests (by simp) rfl
        · rename_i conn' s e hmove
          cases Connection.step_cases hmove with
          | found | authenticated => exact .rests (by simp) rfl
          | serves hserve =>
              cases e with
              | finished ok error =>
                  obtain ⟨rfl, -⟩ := serve_finished hserve
                  have hlt : c < w.conns.length := (List.getElem?_eq_some_iff.mp hc).1
                  exact .called hc hserve (by simp [World.effect, hlt]) rfl
              | _ => exact .rests (by simp) rfl
  | callback c =>
      simp only [transferStep] at h
      split at h
      · rename_i cb hcb
        cases h
        exact .goes hcb rfl (onFinished_cases rfl)
      · cases h
  | control a =>
      cases managerStep_cases h with
      | call hcall => exact .rests (by simp) (control_callbacks hcall)
      | same hm => exact .rests (by simp) (by rw [hm])
  | clean inp =>
      cases managerStep_cases h with
      | next hm => exact .rests (by simp) (by rw [hm, cleanNext_callbacks])
      | same hm => exact .rests (by simp) (by rw [hm])
  | accept | create =>
      cases managerStep_cases h with
      | same hm => exact .rests (by simp) (by rw [hm])

end Manager

section Transition

variable {κ : Type} [DecidableEq κ] {P : Platform κ} {H : IncrementalHash}

/-! ## Connections and their events in one step -/

private theorem getElem?_set_cases {α : Type} {l : List α} {c c' : Nat} {a b : α}
    (h : (l.set c a)[c']? = some b) : (c' = c ∧ b = a) ∨ (c' ≠ c ∧ l[c']? = some b) := by
  by_cases hcc : c' = c
  · subst hcc
    rw [List.getElem?_set] at h
    simp only [if_true] at h
    split at h
    · exact Or.inl ⟨rfl, by simpa using h.symm⟩
    · cases h
  · rw [List.getElem?_set_ne (Ne.symm hcc)] at h
    exact Or.inr ⟨hcc, h⟩

/-- A connection after a step is an old one that did not move, a new one, or
the one that moved; the step's first event is then its effect. -/
theorem step_conn {w w' : World κ H} {a : TransferAction κ} {es : List (TransferEvent κ)}
    (ht : Transition P w a w' es) {c : Nat} {conn' : Connection H}
    (hc : w'.conns[c]? = some conn') :
    ((∀ inp, a ≠ .conn c inp) ∧ w.conns[c]? = some conn') ∨ conn' = .handshake ∨
      ∃ inp conn eff, a = .conn c inp ∧ w.conns[c]? = some conn ∧
        ConnectionStep P w.manager.server w.fs conn inp conn' eff ∧
        ∀ s e, eff = some (s, e) → ∃ es', es = .connection c s e :: es' := by
  cases ht with
  | control | clean | cleanFile | callback | create => exact Or.inl ⟨by simp, hc⟩
  | accept =>
      rcases Nat.lt_or_ge c w.conns.length with hlt | hge
      · rw [List.getElem?_append_left hlt] at hc
        exact Or.inl ⟨by simp, hc⟩
      · rw [List.getElem?_append_right hge] at hc
        have hmem := List.mem_of_getElem? hc
        exact Or.inr (Or.inl (List.mem_singleton.mp hmem))
  | connQuiet hold hmove =>
      rcases getElem?_set_cases hc with ⟨rfl, rfl⟩ | ⟨hne, hc⟩
      · exact Or.inr (Or.inr ⟨_, _, _, rfl, hold, Connection.step_cases hmove, by simp⟩)
      · exact Or.inl ⟨by simpa using hne.symm, hc⟩
  | connFile hold hmove | connEffect hold hmove =>
      rcases getElem?_set_cases hc with ⟨rfl, rfl⟩ | ⟨hne, hc⟩
      · exact Or.inr (Or.inr ⟨_, _, _, rfl, hold, Connection.step_cases hmove,
          fun s e h => by cases h; exact ⟨_, rfl⟩⟩)
      · exact Or.inl ⟨by simpa using hne.symm, hc⟩

/-- A connection's event is the first of its step and comes with its move. -/
theorem step_connection_event {w w' : World κ H} {a : TransferAction κ}
    {es : List (TransferEvent κ)} (ht : Transition P w a w' es) {c : Nat}
    {s : ActiveTransferSession} {e : Effect κ} {es₁ es₂ : List (TransferEvent κ)}
    (hes : es = es₁ ++ .connection c s e :: es₂) :
    es₁ = [] ∧ ∃ inp conn conn', a = .conn c inp ∧ w.conns[c]? = some conn ∧
      w'.conns[c]? = some conn' ∧
      ConnectionStep P w.manager.server w.fs conn inp conn' (some (s, e)) := by
  have hmem : .connection c s e ∈ es := by simp [hes]
  -- the event is the head: nothing after the head is a connection's event
  have hhead : ∀ {x : TransferEvent κ} {tail : List (TransferEvent κ)},
      es = x :: tail → .connection c s e ∉ tail → es₁ = [] ∧ x = .connection c s e := by
    intro x tail heq hnot
    cases es₁ with
    | nil =>
        rw [hes] at heq
        simp only [List.nil_append, List.cons.injEq] at heq
        exact ⟨rfl, heq.1.symm⟩
    | cons y ys =>
        rw [hes] at heq
        simp only [List.cons_append, List.cons.injEq] at heq
        exact absurd (by simp [← heq.2]) hnot
  have hset : ∀ {c' : Nat} {conn conn' : Connection H}, w.conns[c']? = some conn →
      (w.conns.set c' conn')[c']? = some conn' := by
    intro c' conn conn' hold
    obtain ⟨hlt, -⟩ := List.getElem?_eq_some_iff.mp hold
    exact List.getElem?_set_self hlt
  cases ht with
  | control _ ht => exact absurd hmem (ht.not_connection c s e)
  | clean _ ht => exact absurd hmem (ht.not_connection c s e)
  | callback _ _ ht => exact absurd hmem (ht.not_connection c s e)
  | cleanFile _ _ ht =>
      simp only [List.mem_cons, reduceCtorEq, false_or] at hmem
      exact absurd hmem (ht.not_connection c s e)
  | accept => cases hmem
  | create => simp at hmem
  | connQuiet => cases hmem
  | connFile hold hmove =>
      obtain ⟨hnil, hx⟩ := hhead rfl (by simp)
      cases hx
      exact ⟨hnil, _, _, _, rfl, hold, hset hold, Connection.step_cases hmove⟩
  | connEffect hold hmove hfile htables hminor =>
      obtain ⟨hnil, hx⟩ := hhead rfl (fun h => by
        have := hminor _ h
        simp [TransferEvent.minor] at this)
      cases hx
      exact ⟨hnil, _, _, _, rfl, hold, hset hold, Connection.step_cases hmove⟩

/-! ## Connections that have ended -/

/-- The body of `handleConnection` has ended; the callback in which it may end
goes on by itself. -/
def Connection.ended {H : IncrementalHash} : Connection H → Bool
  | .serving _ _ .done => true
  | .closed => true
  | _ => false

omit [DecidableEq κ] in
theorem Connection.step_ended {srv : FileTransferServer} {fs : FileStore κ}
    {conn : Connection H} (hended : conn.ended = true) (inp : Input) :
    conn.step P H srv fs inp = none := by
  cases conn with
  | closed => rfl
  | serving hs s pc =>
      cases pc with
      | done => rfl
      | _ => cases hended
  | _ => cases hended

/-- **One step.**  A connection that has ended stays as it is. -/
theorem ended_stays {w w' : World κ H} {a : TransferAction κ} {es : List (TransferEvent κ)}
    (hs : transferStep P H w a = some (w', es)) {c : Nat} {conn : Connection H}
    (hc : w.conns[c]? = some conn) (hended : conn.ended = true) :
    w'.conns[c]? = some conn := by
  have hset : ∀ {c' inp conn₀ conn' r}, w.conns[c']? = some conn₀ →
      conn₀.step P H w.manager.server w.fs inp = some (conn', r) →
      (w.conns.set c' conn')[c]? = some conn := by
    intro c' inp conn₀ conn' r hc' hmove
    by_cases hsame : c' = c
    · subst hsame
      obtain rfl : conn₀ = conn := Option.some.inj (hc'.symm.trans hc)
      rw [Connection.step_ended hended inp] at hmove
      cases hmove
    · rwa [List.getElem?_set_ne hsame]
  cases step_cases hs with
  | control | clean | cleanFile | callback | create => exact hc
  | accept =>
      have hlt : c < w.conns.length := (List.getElem?_eq_some_iff.mp hc).1
      rwa [List.getElem?_append_left hlt]
  | connQuiet hc' hmove => exact hset hc' hmove
  | connFile hc' hmove => exact hset hc' hmove
  | connEffect hc' hmove => exact hset hc' hmove

end Transition

/-! ## A sample system -/

/-- A platform on which every text names a file and both readings agree. -/
def samplePlatform : Platform String where
  stdKey := some
  qtKey := some
  downloadLocation := "D"
  homePath := "H"

/-- The system before its first step, with the given files. -/
def worldWith (files : List (String × Bytes)) : World String sha256 where
  fs :=
    { names := fun k => (files.findIdx? (·.1 = k))
      bytes := fun i => ((files.map (·.2))[i]?).getD []
      next := files.length
      handles := [] }
  manager := {}
  conns := []

theorem worldWith_init (files : List (String × Bytes)) :
    (transferMachine samplePlatform sha256).Init (worldWith files) := by
  refine ⟨⟨?_, by simp [worldWith], ?_⟩, rfl, rfl, rfl⟩
  · intro k i hk
    exact (List.findIdx?_eq_some_iff_findIdx_eq.mp hk).1
  · intro k k' i hk hk'
    obtain ⟨_, hi, -⟩ := List.findIdx?_eq_some_iff_getElem.mp hk
    obtain ⟨_, hi', -⟩ := List.findIdx?_eq_some_iff_getElem.mp hk'
    simp only [decide_eq_true_eq] at hi hi'
    rw [← hi, ← hi']

/-- Identifiers and tokens with all bytes equal. -/
def sampleUuid (b : UInt8) : ByteBlock kUuidBinarySize where
  bytes := List.replicate kUuidBinarySize b
  size := by simp

def sampleToken (b : UInt8) : ByteBlock kTokenSize where
  bytes := List.replicate kTokenSize b
  size := by simp

/-- Session 1 offers a file under an identifier. -/
def offerAction (id : UInt8) (name : String) (size : UInt64) (sha : String)
    (token : UInt8) : TransferAction String :=
  .control (.handleFileOffer 1
    (FileOffer.to_json
      { transferId := formatUuid (sampleUuid id).bytes, name := name, size := size
        mime := "", sha256 := sha })
    (sampleToken token))

/-- Connection `c` is opened, presents an identifier, a token and a direction,
and enters its body. -/
def connectActions (c : Nat) (id token direction : UInt8) :
    List (TransferAction String) :=
  [ .accept
  , .conn c (.bytes ((sampleUuid id).bytes ++ (sampleToken token).bytes ++ [direction]))
  , .conn c .go
  , .conn c .go
  , .conn c .go ]

/-- The actions by which connection `c` receives an empty file. -/
def receiveEmpty (c : Nat) : List (TransferAction String) :=
  -- open, loop head, close, check, verify, resolve, rename, report
  List.replicate 8 (.conn c .go)

/-- The callback of connection `c`, from its look-up to its return. -/
def finishActions (c : Nat) : List (TransferAction String) :=
  List.replicate 4 (.callback c)

end Iriseus.Core
