import Iriseus.Core.DeletedFiles
import Iriseus.Core.Outcomes
import Iriseus.Core.ReceivedFiles

/-!
# What a cancelled transfer can still do

`cancelTransfer` sets the flag `cancelled` of the registered session, removes
its temporary file and erases the entry.  A connection tests the flag of the
session it serves before each chunk and once after its loop, and then removes
its temporary file itself.

`CancelSeen` excludes what gets past that: a connection that serves a session
which a later registration of the identifier has replaced in the table, so that
another flag is set; one that is past its last test; a removal that fails, or
that names another file than the one the connection wrote; and a file that
someone puts at the temporary path between the test and the rename.
`cancel_effective` says that then no connection of a cancelled transfer starts
another chunk, reports success or leaves a file it received.
-/

namespace Iriseus.Core

open Iriseus.Verified
open Iriseus.Verified.ByteStream
open FileTransferManager

variable {κ : Type} {P : Platform κ} {H : IncrementalHash}

/-! ## Cancelled transfers, read off the history -/

def afterCancel (cancelled : String → Bool) : TransferEvent κ → String → Bool
  | .registered s => Function.update cancelled s.transferId false
  | .erased id => Function.update cancelled id true
  | _ => cancelled

/-- `cancelTransfer` has returned for the registered identifier, which has not
been registered again since. -/
def cancelledIn (h : List (TransferEvent κ)) : String → Bool :=
  h.foldl afterCancel fun _ => false

theorem cancelledIn_snoc (h : List (TransferEvent κ)) (e : TransferEvent κ) :
    cancelledIn (h ++ [e]) = afterCancel (cancelledIn h) e := by
  simp [cancelledIn]

/-- A cancelled identifier has no entry. -/
theorem entryOf_cancelled {h : List (TransferEvent κ)} {id : String}
    (hc : cancelledIn h id = true) : entryOf h id = none := by
  induction h using List.reverseRecOn with
  | nil => rfl
  | append_singleton h e ih =>
      rw [cancelledIn_snoc] at hc
      rw [entryOf_snoc]
      cases e with
      | registered s =>
          by_cases hid : id = s.transferId
          · subst hid
            rw [afterCancel, Function.update_self] at hc
            cases hc
          · rw [afterCancel, Function.update_of_ne hid] at hc
            rw [afterTableEvent, Function.update_of_ne hid]
            exact ih hc
      | erased id' =>
          by_cases hid : id = id'
          · subst hid
            rw [afterTableEvent, Function.update_self]
          · rw [afterCancel, Function.update_of_ne hid] at hc
            rw [afterTableEvent, Function.update_of_ne hid]
            exact ih hc
      | cleared => rfl
      | _ => exact ih hc

/-! ## Which connections notice -/

/-- With the flag of its session as given, the body cannot come to start a
chunk or to report success: it will meet a test of the flag, or its outcome is
a failure anyway.  A file that has been checked is still to be renamed. -/
def Pc.heeds (cancelled : Bool) : Pc H → Bool
  | .dispatch b => cancelled || (Pc.dispatch b : Pc H).mode.isNone
  | .upload (.closeTemp _ error) => cancelled || error
  | .upload (.recvCheck _ _ error) => cancelled || error
  | .upload .dropInterrupted => true
  | .upload .interrupted => true
  | .upload (.verify _) => true
  | .upload .dropBadHash => true
  | .upload (.resolve _ _) => true
  | .upload (.rename _) => true
  | .upload .dropUnsaved => true
  | .upload (.saved _) => false
  | .upload _ => cancelled
  | .download (.closeSource _ error) => cancelled || error
  | .download (.sendCheck _ error) => cancelled || error
  | .download .sentAll => false
  | .download _ => cancelled
  | .failed _ => true
  | .done => true

/-- A connection that has not presented the token of its session ends. -/
def Connection.heeds (cancelled : Nat → Bool) : Connection H → Bool
  | .validate hs s => cancelled s.ref || !tokenAccepted s hs.token
  | .serving _ s pc => pc.heeds (cancelled s.ref)
  | _ => true

/-- The received file has been checked and is still to be renamed. -/
def UploadPc.awaitsRename : UploadPc H → Bool
  | .verify _ => true
  | .resolve _ _ => true
  | .rename _ => true
  | _ => false

/-- The session of a connection that is between the check and the rename. -/
def Connection.awaiting : Connection H → Option ActiveTransferSession
  | .serving _ s (.upload pc) => if pc.awaitsRename then some s else none
  | _ => none

/-- The body is past the removal of its temporary file, or never had one, and
reports a failure. -/
def Pc.settled : Pc H → Bool
  | .upload .interrupted => true
  | .failed _ => true
  | _ => false

def Connection.settled : Connection H → Bool
  | .serving _ _ pc => pc.settled
  | _ => false

section Conditions

variable [DecidableEq κ] (P : Platform κ)

/-- The file which `QFile::remove` of the temporary path of `s` deletes, when the
call ends as `inp` says. -/
def removedBy (fs : FileStore κ) (s : ActiveTransferSession) (inp : Input) : Option Nat :=
  if inp = .go then (P.qtKey s.tempFilePath).bind fun k => (FileOp.remove k).hits fs
  else none

/-- What connection `c` has received has been deleted, or is by the removal of
the temporary file of `s` that is due. -/
def Discards (w : World κ H) (h : List (TransferEvent κ)) (s : ActiveTransferSession)
    (inp : Input) (c : Nat) : Prop :=
  ∀ i ∈ receivedBy c h, deletedIn h i = true ∨ removedBy P w.fs s inp = some i

/-- The return of `cancelTransfer` for `s` catches connection `c` of the transfer:
its flag is set or it fails anyway; if it has passed its own removal, nothing it
received is left; and if it is about to rename, nothing is left at its temporary
path. -/
def Connection.Caught (w : World κ H) (h : List (TransferEvent κ))
    (s : ActiveTransferSession) (inp : Input) (c : Nat) (conn : Connection H) : Prop :=
  conn.heeds w.manager.server.cancelled = true ∧
    (conn.settled = true → Discards P w h s inp c) ∧
    ∀ s' ∈ conn.awaiting, ∀ k ∈ P.qtKey s'.tempFilePath, ∀ i ∈ w.fs.names k,
      removedBy P w.fs s inp = some i

/-- When `cancelTransfer` returns, it has caught every connection of the
transfer, and no callback is about to report its success. -/
def CaughtAtReturn : Machine.StepCond (World κ H) (TransferAction κ) (TransferEvent κ) :=
  fun w h a =>
    match a with
    | .clean inp =>
        match w.manager.server.cleaning with
        | .cancel s =>
            (∀ c < w.conns.length, ∀ conn ∈ w.conns[c]?, ∀ s' ∈ conn.session?,
              s'.transferId = s.transferId → conn.Caught P w h s inp c) ∧
            ∀ cb ∈ w.manager.callbacks.entries, cb.2.transferId = s.transferId →
              cb.2.success = true → cb.2.stage = .erase
        | _ => True
    | _ => True

/-- When a connection of a cancelled transfer removes its temporary file, that
is the file it received, or the file has been deleted before. -/
def RemovesReceived : Machine.StepCond (World κ H) (TransferAction κ) (TransferEvent κ) :=
  fun w h a =>
    match a with
    | .conn c inp =>
        ∀ r ∈ receivingOf w (.conn c inp), cancelledIn h r.1.transferId = true →
          r.2.1.drops = true → Discards P w h r.1 inp c
    | _ => True

/-- No file is put at the temporary path of a connection of a cancelled transfer
that is between its last test and its rename. -/
def TempLeftAlone : Machine.StepCond (World κ H) (TransferAction κ) (TransferEvent κ) :=
  fun w h a => ∀ conn ∈ w.conns, ∀ s ∈ conn.awaiting, cancelledIn h s.transferId = true →
    ∀ k ∈ P.qtKey s.tempFilePath, putsOf P w a ≠ some k

/-- The three together. -/
def CancelSeen : Machine.StepCond (World κ H) (TransferAction κ) (TransferEvent κ) :=
  fun w h a => CaughtAtReturn P w h a ∧ RemovesReceived P w h a ∧ TempLeftAlone P w h a

instance (w : World κ H) (h : List (TransferEvent κ)) (s : ActiveTransferSession)
    (inp : Input) (c : Nat) : Decidable (Discards P w h s inp c) :=
  inferInstanceAs (Decidable (∀ i ∈ receivedBy c h,
    deletedIn h i = true ∨ removedBy P w.fs s inp = some i))

instance (w : World κ H) (h : List (TransferEvent κ)) (s : ActiveTransferSession)
    (inp : Input) (c : Nat) (conn : Connection H) : Decidable (conn.Caught P w h s inp c) :=
  inferInstanceAs (Decidable (_ ∧ (_ → _) ∧ ∀ s' ∈ conn.awaiting,
    ∀ k ∈ P.qtKey s'.tempFilePath, ∀ i ∈ w.fs.names k, removedBy P w.fs s inp = some i))

instance : ∀ (w : World κ H) h a, Decidable (CaughtAtReturn P w h a)
  | w, _, .clean _ => by
      dsimp only [CaughtAtReturn]
      generalize w.manager.server.cleaning = cleaning
      rcases cleaning <;> exact inferInstance
  | _, _, .conn _ _ | _, _, .control _ | _, _, .accept | _, _, .callback _
  | _, _, .create _ _ => instDecidableTrue

instance : ∀ (w : World κ H) h a, Decidable (RemovesReceived P w h a)
  | w, h, .conn c inp => inferInstanceAs (Decidable (∀ r ∈ receivingOf w (.conn c inp),
      cancelledIn h r.1.transferId = true → r.2.1.drops = true → Discards P w h r.1 inp c))
  | _, _, .clean _ | _, _, .control _ | _, _, .accept | _, _, .callback _
  | _, _, .create _ _ => instDecidableTrue

instance (w : World κ H) (h : List (TransferEvent κ)) (a : TransferAction κ) :
    Decidable (TempLeftAlone P w h a) :=
  inferInstanceAs (Decidable (∀ conn ∈ w.conns, ∀ s ∈ conn.awaiting,
    cancelledIn h s.transferId = true → ∀ k ∈ P.qtKey s.tempFilePath, putsOf P w a ≠ some k))

instance (w : World κ H) (h : List (TransferEvent κ)) (a : TransferAction κ) :
    Decidable (CancelSeen P w h a) :=
  inferInstanceAs (Decidable (_ ∧ _ ∧ _))

end Conditions

/-- The loop goes round once more. -/
def Pc.startsChunk : Pc H → Pc H → Bool
  | .upload (.recvHead _), .upload (.recvLen _) => true
  | .download (.sendHead _), .download (.sendRead _) => true
  | _, _ => false

/-- A step of a body neither starts a chunk nor reports success nor renames. -/
structure Pc.Harmless (pc pc' : Pc H) (e : Effect κ) : Prop where
  chunk : pc.startsChunk pc' = false
  success : ∀ error, e ≠ .finished true error
  rename : ∀ src dst, e ≠ .file (.rename src dst)

/-! ## The body -/

/-- **One step of a body.**  A body that heeds its flag still does after the
step, which is harmless, unless it renames an existing file. -/
theorem serve_heeds {v : View κ} {s : ActiveTransferSession} {pc pc' : Pc H} {inp : Input}
    {e : Effect κ} (h : serve P H v s pc inp = some (pc', e))
    (hpc : pc.heeds v.cancelled = true)
    (hgone : ∀ finalPath, pc = .upload (.rename finalPath) →
      ∀ src ∈ P.qtKey s.tempFilePath, v.fs.movable src = false) :
    pc'.heeds v.cancelled = true ∧ pc.Harmless pc' e := by
  have hremove : ∀ path, (∀ error, qtRemove P path ≠ .finished true error) ∧
      ∀ src dst, qtRemove P path ≠ .file (.rename src dst) := by
    intro path
    unfold qtRemove
    split <;> simp
  cases pc with
  | dispatch b =>
      simp only [serve] at h
      (repeat' split at h) <;> cases h <;>
        exact ⟨by simp_all [Pc.heeds, Pc.mode],
          { chunk := rfl, success := by simp, rename := by simp }⟩
  | failed error =>
      simp only [serve] at h
      split at h <;> cases h
      exact ⟨rfl, { chunk := rfl, success := by simp, rename := by simp }⟩
  | done => simp [serve] at h
  | upload pc =>
      simp only [serve] at h
      cases pc with
      | saved finalPath => cases hpc
      | recvWrite r chunk =>
          simp only [serveUpload] at h
          split at h
          · rename_i out op hop
            cases h
            obtain ⟨pos, data, rfl⟩ := OutStream.write_op hop
            exact ⟨hpc, { chunk := rfl, success := by simp, rename := by simp }⟩
          · cases h
      | closeTemp r error =>
          simp only [serveUpload] at h
          split at h
          · rename_i op hop
            cases h
            obtain ⟨data, rfl⟩ := OutStream.close_op hop
            exact ⟨hpc, { chunk := rfl, success := by simp, rename := by simp }⟩
          · cases h
      | dropInterrupted | dropBadHash | dropUnsaved =>
          simp only [serveUpload] at h
          split at h <;> cases h
          · exact ⟨rfl, { chunk := rfl, success := (hremove _).1, rename := (hremove _).2 }⟩
          · exact ⟨rfl, { chunk := rfl, success := by simp, rename := by simp }⟩
      | rename finalPath =>
          simp only [serveUpload] at h
          split at h
          · split at h
            · rename_i src dst hsrc hdst
              have hstay := hgone finalPath rfl src hsrc
              simp only [hstay, Bool.false_eq_true, false_and, if_false] at h
              cases h
              exact ⟨rfl, { chunk := rfl, success := by simp, rename := by simp }⟩
            · cases h
              exact ⟨rfl, { chunk := rfl, success := by simp, rename := by simp }⟩
          · cases h
            exact ⟨rfl, { chunk := rfl, success := by simp, rename := by simp }⟩
          · cases h
      | openTemp | recvHead | recvLen | recvChunk | recvReport | recvCheck | interrupted
      | verify | resolve =>
          simp only [Pc.heeds] at hpc
          simp only [serveUpload] at h
          (repeat' split at h) <;> cases h <;>
            exact ⟨by simp_all [Pc.heeds],
              { chunk := by simp_all [Pc.startsChunk], success := by simp,
                rename := by simp }⟩
  | download pc =>
      simp only [serve] at h
      cases pc with
      | sentAll => cases hpc
      | openSource | sendHead | sendRead | sendLen | sendBody | sendReport | closeSource
      | sendCheck =>
          simp only [Pc.heeds] at hpc
          simp only [serveDownload] at h
          (repeat' split at h) <;> cases h <;>
            exact ⟨by simp_all [Pc.heeds],
              { chunk := by simp_all [Pc.startsChunk], success := by simp,
                rename := by simp }⟩

/-- A body that settles or ends without success was settled before, has not
opened its file, or has just made its removal. -/
theorem serve_settles {v : View κ} {s : ActiveTransferSession} {pc pc' : Pc H}
    {inp : Input} {e : Effect κ} (h : serve P H v s pc inp = some (pc', e))
    (hpc : pc.heeds v.cancelled = true) (hend : pc'.settled = true ∨ pc' = .done) :
    e.opensTrunc = false ∧ e.closes = none ∧
      (pc.unopened = true ∨ pc.settled = true ∨
        ∃ u, pc = .upload u ∧ u.drops = true ∧
          (inp = .go → e = qtRemove P s.tempFilePath)) := by
  have hremove : (qtRemove P s.tempFilePath).opensTrunc = false ∧
      (qtRemove P s.tempFilePath).closes = none := by
    unfold qtRemove
    split <;> exact ⟨rfl, rfl⟩
  cases pc with
  | dispatch b =>
      simp only [serve] at h
      (repeat' split at h) <;> cases h <;> exact ⟨rfl, rfl, Or.inl rfl⟩
  | failed error =>
      simp only [serve] at h
      split at h <;> cases h
      exact ⟨rfl, rfl, Or.inr (Or.inl rfl)⟩
  | done => simp [serve] at h
  | download pc =>
      simp only [serve] at h
      refine ⟨?_, ?_, Or.inl rfl⟩
      · have hchanges := (serveDownload_mode h).2.1
        unfold Effect.opensTrunc
        split
        · cases hchanges
        · rfl
      · cases serveDownload_cases h <;>
          first | rfl | exact absurd hend (by simp [Pc.settled])
  | upload pc =>
      simp only [serve] at h
      cases pc with
      | dropInterrupted | dropBadHash | dropUnsaved =>
          simp only [serveUpload] at h
          split at h <;> cases h
          · exact ⟨hremove.1, hremove.2, Or.inr (Or.inr ⟨_, rfl, rfl, fun _ => rfl⟩)⟩
          · exact ⟨rfl, rfl, Or.inr (Or.inr ⟨_, rfl, rfl, by simp⟩)⟩
      | saved finalPath => cases hpc
      | openTemp =>
          simp only [serveUpload] at h
          (repeat' split at h) <;> cases h <;>
            first
            | exact ⟨rfl, rfl, Or.inl rfl⟩
            | exact absurd hend (by simp [Pc.settled])
      | interrupted =>
          simp only [serveUpload] at h
          split at h <;> cases h
          exact ⟨rfl, rfl, Or.inr (Or.inl rfl)⟩
      | recvHead | recvLen | recvChunk | recvWrite | recvReport | closeTemp | recvCheck
      | verify | resolve | rename =>
          simp only [serveUpload] at h
          (repeat' split at h) <;> cases h <;> exact absurd hend (by simp [Pc.settled])

/-- A body that is between the check and the rename was there before, or has
passed the check with its flag not set. -/
theorem serve_awaits {v : View κ} {s : ActiveTransferSession} {pc : Pc H}
    {u' : UploadPc H} {inp : Input} {e : Effect κ}
    (h : serve P H v s pc inp = some (.upload u', e)) (hpc : pc.heeds v.cancelled = true)
    (hawaits : u'.awaitsRename = true) : ∃ u, pc = .upload u ∧ u.awaitsRename = true := by
  cases pc with
  | dispatch b =>
      simp only [serve] at h
      (repeat' split at h) <;> cases h
      cases hawaits
  | failed error =>
      simp only [serve] at h
      split at h <;> cases h
  | done => simp [serve] at h
  | download pc =>
      simp only [serve] at h
      rcases (serveDownload_mode h).1 with ⟨d, hd⟩ | ⟨error, hd⟩ | hd <;> cases hd
  | upload pc =>
      refine ⟨pc, rfl, ?_⟩
      simp only [serve] at h
      cases pc with
      | verify | resolve | rename => rfl
      | recvCheck shaState totalReceived error =>
          exfalso
          simp only [Pc.heeds, Bool.or_eq_true] at hpc
          simp only [serveUpload] at h
          split at h
          · split at h
            · cases h
              cases hawaits
            · rename_i hpass
              rcases hpc with hset | hset <;> simp [hset] at hpass
          · cases h
      | _ =>
          simp only [serveUpload] at h
          (repeat' split at h) <;> cases h <;> cases hawaits

/-! ## Flags are never taken back -/

theorem Pc.heeds_mono {b b' : Bool} (hle : b = true → b' = true) {pc : Pc H}
    (h : pc.heeds b = true) : pc.heeds b' = true := by
  cases b with
  | true =>
      rw [hle rfl]
      exact h
  | false =>
      cases b' with
      | false => exact h
      | true =>
          cases pc with
          | upload u => cases u <;> first | rfl | exact h
          | download d => cases d <;> first | rfl | exact h
          | dispatch b => simp [Pc.heeds]
          | _ => rfl

theorem Connection.heeds_mono {f f' : Nat → Bool} (hle : ∀ r, f r = true → f' r = true)
    {conn : Connection H} (h : conn.heeds f = true) : conn.heeds f' = true := by
  cases conn with
  | validate hs s =>
      simp only [Connection.heeds, Bool.or_eq_true] at h ⊢
      exact h.imp_left (hle s.ref)
  | serving hs s pc => exact Pc.heeds_mono (hle s.ref) h
  | _ => rfl

/-- The flags set in one state are set in the other. -/
def FlagsKept (srv srv' : FileTransferServer) : Prop :=
  ∀ r, srv.cancelled r = true → srv'.cancelled r = true

theorem flagsKept_setCancelled (srv : FileTransferServer) (s : ActiveTransferSession) :
    FlagsKept srv (srv.setCancelled s) := by
  intro r hr
  by_cases href : r = s.ref
  · simp [FileTransferServer.setCancelled, href]
  · simpa [FileTransferServer.setCancelled, Function.update_of_ne href] using hr

theorem ServerCall.flagsKept {srv srv' : FileTransferServer} (h : ServerCall srv srv') :
    FlagsKept srv srv' := by
  cases h with
  | none | register => exact fun _ hr => hr
  | start =>
      simp only [FileTransferServer.start]
      split <;> exact fun _ hr => hr
  | stop =>
      simp only [FileTransferServer.stop]
      split <;> exact fun _ hr => hr
  | @stopLock order =>
      cases order with
      | nil => exact fun _ hr => hr
      | cons s order => exact flagsKept_setCancelled _ s
  | @cancel id =>
      unfold FileTransferServer.cancelTransfer
      split
      · exact flagsKept_setCancelled _ _
      · exact fun _ hr => hr

theorem cleanNext_flagsKept (m : FileTransferManager) :
    FlagsKept m.server (m.cleanNext (κ := κ)).1.server := by
  unfold cleanNext
  split
  · exact fun _ hr => hr
  · exact fun _ hr => hr
  · exact fun _ hr => hr
  · rename_i s todo _
    cases todo with
    | nil => exact fun _ hr => hr
    | cons s' todo => exact flagsKept_setCancelled _ s'

/-- `cancelTransfer` keeps the lock until it has removed its file. -/
theorem ServerCall.busy {srv srv' : FileTransferServer} (h : ServerCall srv srv')
    {s : ActiveTransferSession} (hcancel : srv.cleaning = .cancel s) :
    srv'.cleaning ≠ .idle := by
  cases h with
  | none => simp [hcancel]
  | start =>
      simp only [FileTransferServer.start]
      split <;> simp [hcancel]
  | stop =>
      simp only [FileTransferServer.stop]
      split <;> simp [hcancel]
  | @stopLock order => cases order <;> simp [FileTransferServer.stopLock,
      FileTransferServer.stopNext]
  | register hidle => simp [hcancel] at hidle
  | cancel hidle => simp [hcancel] at hidle

/-! ## Where `cancelTransfer` returns -/

theorem TableStep.erased {t t' : Tables} {es : List (TransferEvent κ)}
    (ht : TableStep t t' es) {id : String} (hmem : .erased id ∈ es) :
    ∃ s, t.cleaning = .cancel s ∧ s.transferId = id ∧ t'.cleaning = .idle := by
  have he : (TransferEvent.erased id : TransferEvent κ).minor = false := rfl
  cases ht with
  | offer _ _ _ _ _ hpre hpost =>
      simp [notMem_of_minor he hpre, notMem_of_minor he hpost] at hmem
  | reoffer _ _ _ _ _ hpost => simp [notMem_of_minor he hpost] at hmem
  | told hes => exact absurd hmem (notMem_of_minor he hes)
  | @cancelEnd s hclean =>
      obtain rfl : id = s.transferId := by simpa using hmem
      exact ⟨s, hclean, rfl, rfl⟩
  | _ => simp at hmem

section Steps

variable [DecidableEq κ]

/-- Only the holder of the lock erases, as the last step of `cancelTransfer`. -/
theorem Transition.erased {w w' : World κ H} {a : TransferAction κ}
    {es : List (TransferEvent κ)} (ht : Transition P w a w' es) {id : String}
    (hmem : .erased id ∈ es) :
    (∃ inp, a = .clean inp) ∧ w'.conns = w.conns ∧
      ∃ s, w.manager.server.cleaning = .cancel s ∧ s.transferId = id := by
  have he : (TransferEvent.erased id : TransferEvent κ).minor = false := rfl
  cases ht with
  | control hcall ht =>
      obtain ⟨s, hclean, -, hidle⟩ := ht.erased hmem
      exact absurd hidle ((control_server P H hcall).busy hclean)
  | clean hbusy ht =>
      obtain ⟨s, hclean, hid, -⟩ := ht.erased hmem
      exact ⟨⟨_, rfl⟩, rfl, s, hclean, hid⟩
  | cleanFile htarget hkey ht =>
      obtain ⟨s, hclean, hid, -⟩ := ht.erased (by simpa using hmem)
      exact ⟨⟨_, rfl⟩, rfl, s, hclean, hid⟩
  | accept | connQuiet | connFile | create => simp at hmem
  | callback _ hstep ht =>
      obtain ⟨s, hclean, -, hidle⟩ := ht.erased hmem
      simp only [FileTransferManager.tables, onFinished_server hstep] at hclean hidle
      simp [hidle] at hclean
  | connEffect _ _ _ _ hminor => simp [notMem_of_minor he hminor] at hmem

theorem step_flagsKept {w w' : World κ H} {a : TransferAction κ}
    {es : List (TransferEvent κ)} (hs : transferStep P H w a = some (w', es)) :
    FlagsKept w.manager.server w'.manager.server := by
  have hm := managerStep_cases hs
  cases hm with
  | call hcall => exact (control_server P H hcall).flagsKept
  | next hm =>
      rw [hm]
      exact cleanNext_flagsKept w.manager
  | @effect _ _ _ s e hm =>
      rw [hm]
      cases e <;> exact fun _ hr => hr
  | callback _ hstep =>
      rw [onFinished_server hstep]
      exact fun _ hr => hr
  | same hm =>
      rw [hm]
      exact fun _ hr => hr

/-! ## What holds of a cancelled transfer -/

def HeedInv (w : World κ H) (h : List (TransferEvent κ)) : Prop :=
  ∀ (c : Nat) (conn : Connection H) (s : ActiveTransferSession), w.conns[c]? = some conn →
    conn.session? = some s → cancelledIn h s.transferId = true →
      conn.heeds w.manager.server.cancelled = true

/-- Every connection of a cancelled transfer heeds its flag; what those past
their removal have received has no name; those about to rename find nothing at
their temporary path; and no callback is about to report success. -/
structure CancelInv (P : Platform κ) (w : World κ H) (h : List (TransferEvent κ)) :
    Prop where
  heeds : HeedInv w h
  settled : ∀ (c : Nat) (conn : Connection H) (s : ActiveTransferSession),
    w.conns[c]? = some conn → conn.session? = some s → cancelledIn h s.transferId = true →
      conn.settled = true → ∀ i ∈ receivedBy c h, FileOp.Nameless w.fs i
  tempFree : ∀ (c : Nat) (conn : Connection H) (s : ActiveTransferSession),
    w.conns[c]? = some conn → conn.awaiting = some s → cancelledIn h s.transferId = true →
      ∀ k ∈ P.qtKey s.tempFilePath, w.fs.names k = none
  callbacks : ∀ (c : Nat) (cb : FinishedCallback), w.manager.callbacks.lookup c = some cb →
    cancelledIn h cb.transferId = true → cb.success = true → cb.stage = .erase

omit [DecidableEq κ] in
/-- A transfer is cancelled after a step if it was before, or if
`cancelTransfer` has just returned. -/
theorem cancelledIn_step {h es : List (TransferEvent κ)} {id : String}
    (hc : cancelledIn (h ++ es) id = true) : cancelledIn h id = true ∨ .erased id ∈ es := by
  induction es using List.reverseRecOn with
  | nil =>
      rw [List.append_nil] at hc
      exact Or.inl hc
  | append_singleton es e ih =>
      rw [← List.append_assoc, cancelledIn_snoc] at hc
      have hearlier : cancelledIn (h ++ es) id = true →
          cancelledIn h id = true ∨ .erased id ∈ es ++ [e] :=
        fun hold => (ih hold).imp_right (List.mem_append_left _)
      cases e with
      | registered s =>
          by_cases hid : id = s.transferId
          · subst hid
            rw [afterCancel, Function.update_self] at hc
            cases hc
          · rw [afterCancel, Function.update_of_ne hid] at hc
            exact hearlier hc
      | erased id' =>
          by_cases hid : id = id'
          · subst hid
            exact Or.inr (by simp)
          · rw [afterCancel, Function.update_of_ne hid] at hc
            exact hearlier hc
      | _ => exact hearlier hc

omit [DecidableEq κ] in
theorem Connection.awaiting_session {conn : Connection H} {s : ActiveTransferSession}
    (h : conn.awaiting = some s) :
    ∃ hs u, conn = .serving hs s (.upload u) ∧ u.awaitsRename = true := by
  unfold Connection.awaiting at h
  split at h
  · split at h <;> cases h
    exact ⟨_, _, rfl, ‹_›⟩
  · cases h

section Step

variable {w w' : World κ H} {h es : List (TransferEvent κ)} {a : TransferAction κ}

omit [DecidableEq κ] in
/-- A rename finds nothing at the temporary path. -/
theorem CancelInv.gone (hI : CancelInv P w h) {c : Nat} {hs : FileTransferHandshake}
    {s : ActiveTransferSession} {pc : Pc H} (hc : w.conns[c]? = some (.serving hs s pc))
    (hcancelled : cancelledIn h s.transferId = true) :
    ∀ finalPath, pc = .upload (.rename finalPath) →
      ∀ src ∈ P.qtKey s.tempFilePath, w.fs.movable src = false := by
  rintro finalPath rfl src hsrc
  have hnone := hI.tempFree c _ s hc rfl hcancelled src hsrc
  simp [FileStore.movable, hnone]

/-- What a connection that does not move has received stays the same. -/
theorem Transition.received_of_still (ht : Transition P w a w' es) {c : Nat}
    (hstill : ∀ inp, a ≠ .conn c inp) (h : List (TransferEvent κ)) :
    receivedBy c (h ++ es) = receivedBy c h := by
  refine receivedBy_append_of_quiet (List.filterMap_eq_nil_iff.mpr fun x hx => ?_)
  cases x with
  | connection c' s e =>
      simp only [effectOf]
      split
      · rename_i hc
        subst hc
        obtain ⟨es₁, es₂, rfl⟩ := List.append_of_mem hx
        obtain ⟨-, inp, -, -, rfl, -⟩ := step_connection_event ht rfl
        exact absurd rfl (hstill inp)
      · rfl
  | _ => rfl

/-- The removal that `cancelTransfer` makes deletes its file. -/
theorem clean_removes (hs : transferStep P H w (.clean inp) = some (w', es))
    {s : ActiveTransferSession} (hclean : w.manager.server.cleaning = .cancel s) {i : Nat}
    (hremoved : removedBy P w.fs s inp = some i) (hwf : w.fs.WF) :
    FileOp.Nameless w'.fs i := by
  unfold removedBy at hremoved
  split at hremoved
  · rename_i hgo
    subst hgo
    obtain ⟨k, hkey, hhit⟩ := Option.bind_eq_some_iff.mp hremoved
    simp only [transferStep, clean, hclean, Cleaning.target, hkey, World.perform] at hs
    cases hs
    exact FileOp.nameless_remove hwf hhit
  · cases hremoved

/-- A file is at a name where the step puts none only if it was there. -/
theorem Transition.names_of (ht : Transition P w a w' es) {k : κ} {i : Nat}
    (hputs : putsOf P w a ≠ some k) (hk : w'.fs.names k = some i) :
    w.fs.names k = some i := by
  cases ht with
  | control | clean | callback | accept | connQuiet | connEffect => exact hk
  | cleanFile => exact FileOp.names_of_apply (by simp [FileOp.puts]) hk
  | connFile hc hmove =>
      exact FileOp.names_of_apply
        (fun hop => hputs ((Connection.step_cases hmove).op_puts hc hop)) hk
  | @create k' data =>
      have hop : (FileOp.create k' data).puts ≠ some k := hputs
      exact FileOp.names_of_apply hop hk

theorem effect_conns (w : World κ H) (c : Nat) (s : ActiveTransferSession) (e : Effect κ) :
    (w.effect c s e).1.conns = w.conns := by
  cases e <;> rfl

/-- The return of `cancelTransfer` has caught every connection of the transfer. -/
theorem CaughtAtReturn.caught (hok : CaughtAtReturn P w h a) (ht : Transition P w a w' es)
    {c : Nat} {conn : Connection H} {s : ActiveTransferSession}
    (hc : w'.conns[c]? = some conn) (hsession : conn.session? = some s)
    (herased : .erased s.transferId ∈ es) :
    ∃ inp s', a = .clean inp ∧ w.manager.server.cleaning = .cancel s' ∧
      conn.Caught P w h s' inp c := by
  obtain ⟨⟨inp, rfl⟩, hconns, s', hclean, hid⟩ := ht.erased herased
  rw [hconns] at hc
  simp only [CaughtAtReturn, hclean] at hok
  have hlt : c < w.conns.length := (List.getElem?_eq_some_iff.mp hc).1
  exact ⟨inp, s', rfl, hclean, hok.1 c hlt conn hc s hsession hid.symm⟩

/-- **One step.**  A step that meets `CancelSeen` keeps every connection of a
cancelled transfer heeding its flag. -/
theorem CancelInv.heeds_step (hI : CancelInv P w h) (hT : TokenInv w h)
    (hok : CaughtAtReturn P w h a) (hs : transferStep P H w a = some (w', es)) :
    HeedInv w' (h ++ es) := by
  have ht := step_cases hs
  have hflags := step_flagsKept hs
  intro c conn s hc hsession hcancelled
  rcases cancelledIn_step hcancelled with hold | herased
  · rcases step_conn ht hc with ⟨-, hsame⟩ | rfl | ⟨inp, conn₀, eff, rfl, hc₀, hmove, -⟩
    · exact Connection.heeds_mono hflags (hI.heeds c conn s hsame hsession hold)
    · cases hsession
    · refine Connection.heeds_mono hflags ?_
      cases hmove with
      | greeted | ends => cases hsession
      | found hidle hfind =>
          -- a cancelled identifier is not found
          cases hsession
          obtain ⟨id, hl, -⟩ := findSession_some hfind
          obtain ⟨rfl, -⟩ := hT.key id s hl
          rw [hT.entries, entryOf_cancelled hold] at hl
          cases hl
      | authenticated htoken =>
          cases hsession
          have hheeds := hI.heeds c _ s hc₀ rfl hold
          simp only [Connection.heeds, htoken, Bool.not_true, Bool.or_false] at hheeds
          simp [Connection.heeds, Pc.heeds, hheeds]
      | serves hserve =>
          cases hsession
          exact (serve_heeds hserve (hI.heeds c _ s hc₀ rfl hold) (hI.gone hc₀ hold)).1
  · -- `cancelTransfer` returns
    obtain ⟨inp, s', -, -, hheeds, -⟩ := hok.caught ht hc hsession herased
    exact Connection.heeds_mono hflags hheeds

/-- **One step** of a connection of a cancelled transfer to its end, or past its
removal: nothing it received has a name. -/
theorem CancelInv.discards
    {ok : Machine.StepCond (World κ H) (TransferAction κ) (TransferEvent κ)}
    (hr : (transferMachine P H).Reach ok w h) (hI : CancelInv P w h) {c : Nat} {inp : Input}
    (hok : RemovesReceived P w h (.conn c inp)) {hs : FileTransferHandshake}
    {s : ActiveTransferSession} {pc pc' : Pc H} {e : Effect κ} {v : View κ}
    {es' : List (TransferEvent κ)} (hc : w.conns[c]? = some (.serving hs s pc))
    (hview : v.cancelled = w.manager.server.cancelled s.ref)
    (hserve : serve P H v s pc inp = some (pc', e))
    (ht : Transition P w (.conn c inp) w' (.connection c s e :: es'))
    (hcancelled : cancelledIn h s.transferId = true)
    (hend : pc'.settled = true ∨ pc' = .done) :
    ∀ i ∈ receivedBy c (h ++ .connection c s e :: es'), FileOp.Nameless w'.fs i := by
  have hF := fileFacts_reach hr
  obtain ⟨hopens, hcloses, hfrom⟩ :=
    serve_settles hserve (hview ▸ hI.heeds c _ s hc rfl hcancelled) hend
  have heffects : effectsOf c (.connection c s e :: es') = [(s, e)] := by
    have hrest : effectsOf c es' = [] := List.filterMap_eq_nil_iff.mpr fun x hx => by
      cases x with
      | connection c' s' e' =>
          -- a connection's event is the first of its step
          exfalso
          obtain ⟨es₁, es₂, rfl⟩ := List.append_of_mem hx
          have heq : (.connection c s e :: (es₁ ++ .connection c' s' e' :: es₂)) =
              (.connection c s e :: es₁) ++ .connection c' s' e' :: es₂ := rfl
          exact List.cons_ne_nil _ _ (step_connection_event ht heq).1
      | _ => rfl
    simpa [effectsOf, effectOf] using hrest
  rw [receivedBy_snoc heffects hopens hcloses]
  intro i hi
  rcases hfrom with hunopened | hsettled | ⟨u, rfl, hdrops, hremove⟩
  · rw [receivedBy_of_unopened hr hc hunopened] at hi
    cases hi
  · exact ht.nameless (hF.received hi) (hI.settled c _ s hc rfl hcancelled hsettled i hi)
  · rcases hok (s, u, inp) (by simp [receivingOf, hc]) hcancelled hdrops i hi with hdel | hrem
    · obtain ⟨hlt, hnameless⟩ := hF.deleted i hdel
      exact ht.nameless hlt hnameless
    · unfold removedBy at hrem
      split at hrem
      · rename_i hgo
        obtain ⟨k, hkey, hhit⟩ := Option.bind_eq_some_iff.mp hrem
        rw [ht.fs_after rfl, hremove hgo, qtRemove, hkey]
        exact FileOp.nameless_remove hF.store.wf hhit
      · cases hrem

/-- The first event of a connection's step is its effect. -/
theorem step_serving (hs : transferStep P H w a = some (w', es)) {c : Nat}
    {hsk : FileTransferHandshake} {s : ActiveTransferSession} {pc : Pc H} {inp : Input}
    (ha : a = .conn c inp) (hc : w.conns[c]? = some (.serving hsk s pc)) :
    ∃ v pc' e es', v.cancelled = w.manager.server.cancelled s.ref ∧ v.fs = w.fs ∧
      serve P H v s pc inp = some (pc', e) ∧ es = .connection c s e :: es' ∧
      w'.conns[c]? = some (.serving hsk s pc') := by
  subst ha
  have hlt : c < w.conns.length := (List.getElem?_eq_some_iff.mp hc).1
  simp only [transferStep, hc, Connection.step] at hs
  split at hs
  · cases hs
  · rename_i hnone
    split at hnone <;> cases hnone
  · rename_i conn' s' e hmove
    split at hmove
    · rename_i pc' e' hserve
      cases hmove
      cases hs
      refine ⟨_, pc', e, _, rfl, rfl, hserve, rfl, ?_⟩
      rw [effect_conns, List.getElem?_set_self hlt]
    · cases hmove

/-- **One step.** -/
theorem CancelInv.settled_step
    {ok : Machine.StepCond (World κ H) (TransferAction κ) (TransferEvent κ)}
    (hr : (transferMachine P H).Reach ok w h) (hI : CancelInv P w h)
    (hok : CancelSeen P w h a) (hs : transferStep P H w a = some (w', es)) {c : Nat}
    {conn : Connection H} {s : ActiveTransferSession} (hc : w'.conns[c]? = some conn)
    (hsession : conn.session? = some s) (hcancelled : cancelledIn (h ++ es) s.transferId = true)
    (hsettled : conn.settled = true) :
    ∀ i ∈ receivedBy c (h ++ es), FileOp.Nameless w'.fs i := by
  have ht := step_cases hs
  have hF := fileFacts_reach hr
  rcases cancelledIn_step hcancelled with hold | herased
  · rcases step_conn ht hc with ⟨hstill, hsame⟩ | rfl | ⟨inp, conn₀, eff, rfl, hc₀, hmove, -⟩
    · intro i hi
      rw [ht.received_of_still hstill] at hi
      exact ht.nameless (hF.received hi) (hI.settled c conn s hsame hsession hold hsettled i hi)
    · cases hsettled
    · cases hmove with
      | serves =>
          cases hsession
          obtain ⟨v, pc', e, es', hview, -, hserve, rfl, hc'⟩ := step_serving hs rfl hc₀
          cases hc.symm.trans hc'
          exact hI.discards hr hok.2.1 hc₀ hview hserve ht hold (Or.inl hsettled)
      | _ => cases hsettled
  · -- `cancelTransfer` returns
    obtain ⟨inp, s', rfl, hclean, -, hdiscards, -⟩ := hok.1.caught ht hc hsession herased
    intro i hi
    rw [ht.received_of_still (by simp)] at hi
    rcases hdiscards hsettled i hi with hdel | hrem
    · obtain ⟨hdone, hnameless⟩ := hF.deleted i hdel
      exact ht.nameless hdone hnameless
    · exact clean_removes hs hclean hrem hF.store.wf

/-- **One step.** -/
theorem CancelInv.tempFree_step
    {ok : Machine.StepCond (World κ H) (TransferAction κ) (TransferEvent κ)}
    (hr : (transferMachine P H).Reach ok w h) (hI : CancelInv P w h)
    (hok : CancelSeen P w h a) (hs : transferStep P H w a = some (w', es)) {c : Nat}
    {conn : Connection H} {s : ActiveTransferSession} (hc : w'.conns[c]? = some conn)
    (hawaits : conn.awaiting = some s) (hcancelled : cancelledIn (h ++ es) s.transferId = true) :
    ∀ k ∈ P.qtKey s.tempFilePath, w'.fs.names k = none := by
  have ht := step_cases hs
  obtain ⟨hsk, u', rfl, hu'⟩ := Connection.awaiting_session hawaits
  refine fun k hk => Option.eq_none_iff_forall_ne_some.mpr fun i hi => ?_
  rcases cancelledIn_step hcancelled with hold | herased
  · -- the connection was there before
    have hbefore : ∃ conn₀, w.conns[c]? = some conn₀ ∧ conn₀.awaiting = some s := by
      rcases step_conn ht hc with ⟨-, hsame⟩ | hnew | ⟨inp, conn₀, eff, rfl, hc₀, hmove, -⟩
      · exact ⟨_, hsame, hawaits⟩
      · cases hnew
      · cases hmove with
        | serves =>
            obtain ⟨v, pc', e, es', hview, -, hserve, rfl, hc'⟩ := step_serving hs rfl hc₀
            cases hc.symm.trans hc'
            obtain ⟨u, rfl, hu⟩ :=
              serve_awaits hserve (hview ▸ hI.heeds c _ s hc₀ rfl hold) hu'
            exact ⟨_, hc₀, by simp [Connection.awaiting, hu]⟩
    obtain ⟨conn₀, hc₀, hawaits₀⟩ := hbefore
    have hname := ht.names_of
      (hok.2.2 conn₀ (List.mem_of_getElem? hc₀) s hawaits₀ hold k hk) hi
    rw [hI.tempFree c conn₀ s hc₀ hawaits₀ hold k hk] at hname
    cases hname
  · -- `cancelTransfer` returns
    obtain ⟨inp, s', rfl, hclean, -, -, htemp⟩ := hok.1.caught ht hc rfl herased
    have hname := ht.names_of (by simp [putsOf, receivingOf]) hi
    exact clean_removes hs hclean (htemp s hawaits k hk i hname)
      (fileFacts_reach hr).store.wf k hi

/-- **One step.** -/
theorem CancelInv.callbacks_step (hI : CancelInv P w h) (hok : CaughtAtReturn P w h a)
    (hs : transferStep P H w a = some (w', es)) {c : Nat} {cb : FinishedCallback}
    (hcb : w'.manager.callbacks.lookup c = some cb)
    (hcancelled : cancelledIn (h ++ es) cb.transferId = true) (hsuccess : cb.success = true) :
    cb.stage = .erase := by
  rcases cancelledIn_step hcancelled with hold | herased
  · cases callbackMove_cases hs with
    | rests _ hsame => exact hI.callbacks c cb (hsame ▸ hcb) hold hsuccess
    | @called c' inp hsk s pc ok error _ v hc hserve _ hcall =>
        rw [hcall, callOnFinished] at hcb
        by_cases hcc : c = c'
        · -- a connection that heeds its flag does not report success
          subst hcc
          exfalso
          simp only [AList.lookup_insert, Option.some.injEq] at hcb
          subst hcb
          obtain rfl : ok = true := hsuccess
          have hheeds := hI.heeds c _ s hc rfl hold
          rcases (serve_finished hserve).2 with ⟨hfalse, -⟩ | ⟨-, -, ⟨path, rfl⟩ | rfl⟩
          · cases hfalse
          · cases hheeds
          · cases hheeds
        · rw [AList.lookup_insert_ne hcc] at hcb
          exact hI.callbacks c cb hcb hold hsuccess
    | @goes c' cb₀ _ hcb₀ _ hstep =>
        rcases hstep.lookup hcb with ⟨-, hsame⟩ | ⟨rfl, hstage, stage, -, rfl⟩
        · exact hI.callbacks c cb hsame hold hsuccess
        · exact absurd (hI.callbacks c cb₀ hcb₀ hold hsuccess) hstage
  · -- `cancelTransfer` returns
    obtain ⟨⟨inp, rfl⟩, -, s', hclean, hid⟩ := (step_cases hs).erased herased
    simp only [CaughtAtReturn, hclean] at hok
    cases callbackMove_cases hs with
    | rests _ hsame =>
        rw [hsame] at hcb
        exact hok.2 ⟨c, cb⟩ (AList.mem_lookup_iff.mp hcb) hid.symm hsuccess

theorem cancelInv_reach (hr : (transferMachine P H).Reach (CancelSeen P) w h) :
    CancelInv P w h := by
  refine hr.invariant_along (CancelInv P) ?_ ?_
  · rintro w ⟨-, -, hmanager, hconns⟩
    exact
      { heeds := fun c conn s hc => by simp [hconns] at hc
        settled := fun c conn s hc => by simp [hconns] at hc
        tempFree := fun c conn s hc => by simp [hconns] at hc
        callbacks := fun c cb hcb => by simp [hmanager] at hcb }
  · intro w h a w' es hr hI hok hs
    exact
      { heeds := hI.heeds_step (tokenInv_reach hr) hok.1 hs
        settled := fun c conn s => hI.settled_step hr hok hs
        tempFree := fun c conn s => hI.tempFree_step hr hok hs
        callbacks := fun c cb => hI.callbacks_step hok.1 hs }

end Step

/-! ## No step of a cancelled transfer goes on with it -/

omit [DecidableEq κ] in
/-- The event tells the peer or the user that a transfer has succeeded. -/
def TransferEvent.reportsSuccess : TransferEvent κ → Bool
  | .transferFinished _ _ ok _ => ok
  | .sendTo _ (.fileComplete _ ok _) => ok
  | _ => false

omit [DecidableEq κ] in
/-- The callback of a failed connection reports no success. -/
theorem onFinished_failure {m m' : FileTransferManager} {c : Nat} {cb : FinishedCallback}
    {es : List (TransferEvent κ)} (h : m.onFinished c cb = (m', es))
    (hquiet : cb.success = true → cb.stage = .erase) :
    ∀ e ∈ es, e.reportsSuccess = false := by
  unfold onFinished at h
  cases hstage : cb.stage with
  | find =>
      rw [hstage] at h
      cases h
      simp
  | erase =>
      rw [hstage] at h
      cases h
      simp [TransferEvent.reportsSuccess]
  | reply | signal =>
      have hfailed : cb.success = false := by
        cases hs : cb.success with
        | false => rfl
        | true => simp [hquiet hs] at hstage
      simp only [hstage, hfailed] at h
      cases h
      simp [TransferEvent.reportsSuccess]

/-- A step does nothing that the cancellation of a transfer should prevent: a
connection of a cancelled transfer starts no chunk, reports no success and
renames nothing, and when it ends no file it received has a name; and a callback
of a cancelled transfer passes on no success. -/
structure HarmlessStep (w w' : World κ H) (h es : List (TransferEvent κ))
    (a : TransferAction κ) : Prop where
  body : ∀ (c : Nat) (inp : Input) (hs : FileTransferHandshake) (s : ActiveTransferSession)
    (pc : Pc H), a = .conn c inp → w.conns[c]? = some (.serving hs s pc) →
      cancelledIn h s.transferId = true →
        ∃ pc' e es', w'.conns[c]? = some (.serving hs s pc') ∧
          es = .connection c s e :: es' ∧ pc.Harmless pc' e ∧
          (pc' = .done → ∀ i ∈ receivedBy c (h ++ es), FileOp.Nameless w'.fs i)
  callback : ∀ (c : Nat) (cb : FinishedCallback), a = .callback c →
    w.manager.callbacks.lookup c = some cb → cancelledIn h cb.transferId = true →
      ∀ e ∈ es, e.reportsSuccess = false

/-- **Cancel is effective under `CancelSeen`.**  In every run whose steps all
meet the condition, no step of a connection that serves a cancelled transfer
starts another chunk or reports success, and none that ends leaves a file it has
received. -/
theorem cancel_effective {w w' : World κ H} {h es : List (TransferEvent κ)}
    {a : TransferAction κ} (hr : (transferMachine P H).Reach (CancelSeen P) w h)
    (hok : CancelSeen P w h a)
    (hstep : (transferMachine P H).step w a = some (w', es)) :
    HarmlessStep w w' h es a := by
  have hI := cancelInv_reach hr
  have hs : transferStep P H w a = some (w', es) := hstep
  have ht := step_cases hs
  refine { body := ?_, callback := ?_ }
  · rintro c inp hsk s pc rfl hc hcancelled
    obtain ⟨v, pc', e, es', hview, hfs, hserve, rfl, hc'⟩ := step_serving hs rfl hc
    have hheeds : pc.heeds v.cancelled = true := hview ▸ hI.heeds c _ s hc rfl hcancelled
    have hgone := hI.gone hc hcancelled
    rw [← hfs] at hgone
    exact ⟨pc', e, es', hc', rfl, (serve_heeds hserve hheeds hgone).2, fun hdone =>
      hI.discards hr hok.2.1 hc hview hserve ht hcancelled (Or.inr hdone)⟩
  · rintro c cb rfl hcb hcancelled
    cases managerStep_cases hs with
    | callback hcb' hon =>
        cases hcb.symm.trans hcb'
        exact onFinished_failure hon fun hsuccess => hI.callbacks c cb hcb hcancelled hsuccess
    | same _ hes =>
        intro e he
        obtain ⟨k, rfl⟩ := hes e he
        rfl

end Steps

/-! ## A connection that notices and one that does not -/

/-- The `file_cancel` of a sample transfer, handled to its end. -/
def cancelActions (id : UInt8) : List (TransferAction String) :=
  [ .control (.handleFileCancel
      (.object [("transferId", .string (formatUuid (sampleUuid id).bytes))]))
  , .clean .fail ]

/-- The actions by which connection `c` receives two bytes and comes back to its
loop head. -/
def receiveTwo (c : Nat) : List (TransferAction String) :=
  [ .conn c .go, .conn c (.bytes [0, 0, 0, 2]), .conn c (.bytes [1, 2])
  , .conn c (.stored 2), .conn c .go ]

/-- What connection 0 has received for a cancelled transfer, and whether its last
step is still to come. -/
def cancelledWith (w : World String sha256) (h : List (TransferEvent String)) :
    Option (List Nat) :=
  match (w.conns[0]? : Option (Connection sha256)) with
  | some (.serving _ s (.failed _)) =>
      if cancelledIn h s.transferId then some (receivedBy 0 h) else none
  | _ => none

theorem cancelledWith_eq {w : World String sha256} {h : List (TransferEvent String)}
    {received : List Nat} (hserves : cancelledWith w h = some received) :
    (∃ hs s error, w.conns[0]? = some (.serving hs s (.failed error)) ∧
      cancelledIn h s.transferId = true) ∧ receivedBy 0 h = received := by
  unfold cancelledWith at hserves
  split at hserves
  · rename_i hs s error hc
    split at hserves <;> cases hserves
    exact ⟨⟨hs, s, error, hc, ‹_›⟩, rfl⟩
  · cases hserves

/-- The peer cancels between two chunks; the connection leaves its loop, removes
what it has received and is about to report that it failed. -/
theorem cancel_effective_sample :
    ∃ (w : World String sha256) (h : List (TransferEvent String)) (w' : World String sha256)
      (es : List (TransferEvent String)) (hs : FileTransferHandshake)
      (s : ActiveTransferSession) (error : String),
      (transferMachine samplePlatform sha256).Reach (CancelSeen samplePlatform) w h ∧
      (transferMachine samplePlatform sha256).step w (.conn 0 .go) = some (w', es) ∧
      w.conns[0]? = some (.serving hs s (.failed error)) ∧
      cancelledIn h s.transferId = true ∧ receivedBy 0 h = [0] ∧
      HarmlessStep w w' h es (.conn 0 .go) := by
  obtain ⟨w, h, hr, hh⟩ := Machine.exists_reach_of_exec
    (transferMachine samplePlatform sha256) (CancelSeen samplePlatform) (worldWith_init [])
    ([.control (.start true), offerAction 1 "a" 4 "" 7] ++ connectActions 0 1 7 0 ++
      [.conn 0 .go] ++ receiveTwo 0 ++ cancelActions 1 ++ List.replicate 5 (.conn 0 .go))
    (fun w h => decide (cancelledWith w h = some [0]) &&
      decide (CancelSeen samplePlatform w h (.conn 0 .go)) &&
      (transferStep samplePlatform sha256 w (.conn 0 .go)).isSome)
    (by decide +kernel)
  simp only [Bool.and_eq_true, decide_eq_true_eq, Option.isSome_iff_exists] at hh
  obtain ⟨⟨hserves, hok⟩, ⟨w', es⟩, hstep⟩ := hh
  obtain ⟨⟨hs, s, error, hc, hcancelled⟩, hreceived⟩ := cancelledWith_eq hserves
  exact ⟨w, h, w', es, hs, s, error, hr, hstep, hc, hcancelled, hreceived,
    cancel_effective hr hok hstep⟩

/-- Connection 0 serves a cancelled transfer, and goes round its loop in the step
to the second state. -/
def startsCancelledChunk (h : List (TransferEvent String)) :
    Option (Connection sha256) → Option (Connection sha256) → Bool
  | some (.serving _ s pc), some (.serving _ _ pc') =>
      cancelledIn h s.transferId && pc.startsChunk pc'
  | _, _ => false

/-- The transfer is offered again while connection 0 receives it, and then
cancelled: the connection goes on with its next chunk. -/
theorem replaced_session_continues :
    ¬∀ (w : World String sha256) (h : List (TransferEvent String))
      (a : TransferAction String) (w' : World String sha256)
      (es : List (TransferEvent String)),
      (transferMachine samplePlatform sha256).Reach Machine.anyStep w h →
      (transferMachine samplePlatform sha256).step w a = some (w', es) →
      HarmlessStep w w' h es a := by
  intro hall
  obtain ⟨w, h, hr, hh⟩ := Machine.exists_reach_of_exec
    (transferMachine samplePlatform sha256) Machine.anyStep (worldWith_init [])
    ([.control (.start true), offerAction 1 "a" 4 "" 7] ++ connectActions 0 1 7 0 ++
      [.conn 0 .go] ++ receiveTwo 0 ++ [offerAction 1 "a" 4 "" 8] ++ cancelActions 1)
    (fun w h => (transferStep samplePlatform sha256 w (.conn 0 .go)).any fun r =>
        startsCancelledChunk h w.conns[0]? r.1.conns[0]?)
    (by decide +kernel)
  rw [Option.any_eq_true] at hh
  obtain ⟨⟨w', es⟩, hstep, hchunk⟩ := hh
  have hharmless := (hall w h (.conn 0 .go) w' es hr hstep).body
  unfold startsCancelledChunk at hchunk
  split at hchunk
  · rename_i hs s pc hs' s' pc₁ hc hc₁
    simp only [Bool.and_eq_true] at hchunk
    obtain ⟨pc', e, es', hc', -, hquiet, -⟩ := hharmless 0 .go hs s pc rfl hc hchunk.1
    cases hc₁.symm.trans hc'
    rw [hquiet.chunk] at hchunk
    cases hchunk.2
  · cases hchunk

end Iriseus.Core
