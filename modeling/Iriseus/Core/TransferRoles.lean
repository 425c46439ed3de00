import Iriseus.Core.OfferedNames

/-!
# The role and the file of a transfer

A transfer is created by a `file_offer` of the peer, which the server is to
receive into the download folder, or by `sendFiles`, which offers a file the
user chose.  Both register it; and `handleFileAccept`, meant for the second
kind, registers it again with a new token.

The three registrations share one space of identifiers.  `handleFileAccept`
registers whatever is offered for sending, from the path of its entry, which is
empty for a transfer of the first kind; and an offer under an identifier in use
replaces the transfer.  The target of an upload whose name is sanitised to one
or two dots is not in the download folder.  `RoleRespected` says that none of
this happens to a live transfer, and `roles_kept` that it is exactly the
condition under which live transfers keep the direction and the path they were
created with, in the download folder for an upload.
-/

namespace Iriseus.Core

open Iriseus.Verified
open Iriseus.Verified.ByteStream
open FileTransferManager

variable {κ : Type}

/-! ## Live transfers, read off the history -/

/-- What is offered under a free identifier creates a transfer; the signal of
its outcome, its cancellation and `stop` end it. -/
def afterCreation (live : String → Option (TransferDirection × TransferMeta)) :
    TransferEvent κ → String → Option (TransferDirection × TransferMeta)
  | .offered dir info =>
      match live info.offer.transferId with
      | none => Function.update live info.offer.transferId (some (dir, info))
      | some _ => live
  | .transferFinished id _ _ _ => Function.update live id none
  | .erased id => Function.update live id none
  | .cleared => fun _ => none
  | _ => live

/-- The direction and the data with which a live transfer was created. -/
def createdAs (h : List (TransferEvent κ)) :
    String → Option (TransferDirection × TransferMeta) :=
  h.foldl afterCreation fun _ => none

/-- The target of an upload in the download folder. -/
def uploadPath (P : Platform κ) (name : String) : String :=
  defaultDownloadDir P ++ "/" ++ sanitizeFileName (fromStdString name)

/-- The file of a transfer: the target of an upload, and the path the user
chose for a download. -/
def rolePath (P : Platform κ) (created : TransferDirection × TransferMeta) : String :=
  match created.1 with
  | .mobileUploadToPc => uploadPath P created.2.offer.name
  | .desktopDownloadToMobile => created.2.filePath

/-- Every live transfer is registered with the direction and the path it was
created with, which is in the download folder for an upload. -/
def RolesKept (P : Platform κ) (sessions : SessionTable) (h : List (TransferEvent κ)) :
    Prop :=
  ∀ id created, createdAs h id = some created →
    ∃ s, sessions.lookup id = some s ∧ s.direction = created.1 ∧
      s.targetFilePath = rolePath P created ∧
      (created.1 = .mobileUploadToPc →
        DirectChild (defaultDownloadDir P) s.targetFilePath)

/-- The path `sendFiles` offers in this iteration, if its file can be read. -/
def offeredPath (P : Platform κ) (m : FileTransferManager) (fs : FileStore κ)
    (draw : SendDraw) : Option String :=
  match m.sending with
  | (_, []) => none
  | (_, path :: _) =>
      match (P.qtKey path).bind fs.read?, (P.stdKey path).bind fs.read? with
      | some _, some _ => if draw.opens then some path else none
      | _, _ => none

/-- A `file_offer` has a name of which more than one or two dots are left, and
names no live transfer but an upload to the same target; a `file_accept` that
finds an entry names no live upload; and the identifier `sendFiles` draws is
not that of a live transfer, unless of the same file. -/
def RoleRespected (P : Platform κ) {H : IncrementalHash} :
    Machine.StepCond (World κ H) (TransferAction κ) (TransferEvent κ) :=
  fun w h a =>
    match a with
    | .control (.handleFileOffer _ payload _) =>
        ∀ offer ∈ (FileOffer.from_json payload).toOption,
          sanitizeFileName (fromStdString offer.name) ∉ [".", ".."] ∧
          ∀ created ∈ createdAs h offer.transferId,
            created.1 = .mobileUploadToPc ∧
              uploadPath P created.2.offer.name = uploadPath P offer.name
    | .control (.handleFileAccept _ payload _) =>
        ∀ id ∈ (payload.stringValue "transferId" "").toOption,
          id ≠ "" ∧ id ∈ w.manager.activeOffers →
            ∀ created ∈ createdAs h id, created.1 = .desktopDownloadToMobile
    | .control (.sendNext draw) =>
        ∀ path ∈ offeredPath P w.manager w.fs draw,
          ∀ created ∈ createdAs h (formatUuid draw.uuid.bytes),
            created.1 = .desktopDownloadToMobile ∧ created.2.filePath = path
    | _ => True

instance (P : Platform κ) {H : IncrementalHash} :
    ∀ (w : World κ H) h a, Decidable (RoleRespected P w h a)
  | _, _, .control a => by
      unfold RoleRespected
      rcases a <;> exact inferInstance
  | _, _, .clean _ | _, _, .accept | _, _, .conn _ _ | _, _, .callback _
  | _, _, .create _ _ => instDecidableTrue

/-! ## Events and live transfers -/

/-- The event neither creates nor ends a transfer. -/
def TransferEvent.keepsLive : TransferEvent κ → Bool
  | .offered _ _ => false
  | .transferFinished _ _ _ _ => false
  | .erased _ => false
  | .cleared => false
  | _ => true

theorem TransferEvent.minor_keepsLive {e : TransferEvent κ} (he : e.minor = true) :
    e.keepsLive = true := by
  cases e <;> simp_all [TransferEvent.minor, TransferEvent.keepsLive]

theorem createdAs_append (h es : List (TransferEvent κ)) :
    createdAs (h ++ es) = es.foldl afterCreation (createdAs h) := by
  simp [createdAs]

theorem foldl_keepsLive {es : List (TransferEvent κ)}
    (hes : ∀ e ∈ es, e.keepsLive = true)
    (live : String → Option (TransferDirection × TransferMeta)) :
    es.foldl afterCreation live = live := by
  induction es with
  | nil => rfl
  | cons e es ih =>
      have he : afterCreation live e = live := by
        have hk := hes e (by simp)
        cases e <;> first | rfl | simp [TransferEvent.keepsLive] at hk
      rw [List.foldl_cons, he]
      exact ih fun x hx => hes x (by simp [hx])

theorem foldl_minor_live {es : List (TransferEvent κ)} (hes : ∀ e ∈ es, e.minor = true)
    (live : String → Option (TransferDirection × TransferMeta)) :
    es.foldl afterCreation live = live :=
  foldl_keepsLive (fun e he => TransferEvent.minor_keepsLive (hes e he)) live

/-! ## The invariant -/

/-- Live transfers keep their roles, and the entry of a live download, if there
still is one, has the path it was created with. -/
structure RoleInv (P : Platform κ) (t : Tables) (h : List (TransferEvent κ)) : Prop where
  kept : RolesKept P t.sessions h
  offers : ∀ id created info, createdAs h id = some created →
    t.offers.lookup id = some info → created.1 = .desktopDownloadToMobile →
      info.filePath = created.2.filePath

section Tables

variable {P : Platform κ} {t t' : Tables} {h es : List (TransferEvent κ)}

/-- A live transfer's registration is untouched by a step that ends others, and
its entry does not change. -/
theorem RoleInv.frame (hI : RoleInv P t h)
    (hlive : ∀ id created, createdAs (h ++ es) id = some created →
      createdAs h id = some created ∧ t'.sessions.lookup id = t.sessions.lookup id ∧
        ∀ info, t'.offers.lookup id = some info → t.offers.lookup id = some info) :
    RoleInv P t' (h ++ es) where
  kept := by
    intro id created hc
    obtain ⟨hold, hsessions, -⟩ := hlive id created hc
    rw [hsessions]
    exact hI.kept id created hold
  offers := by
    intro id created info hc hl
    obtain ⟨hold, -, hoffers⟩ := hlive id created hc
    exact hI.offers id created info hold (hoffers info hl)

/-- A change of the tables that registers nothing. -/
theorem TableStep.roleInv (ht : TableStep t t' es) (hI : RoleInv P t h)
    (hnone : ∀ s, .registered s ∉ es) : RoleInv P t' (h ++ es) := by
  cases ht with
  | quiet | cancelBegin | stopBegin | stopNext =>
      refine hI.frame fun id created hc => ?_
      rw [List.append_nil] at hc
      exact ⟨hc, rfl, fun _ hl => hl⟩
  | told hes =>
      refine hI.frame fun id created hc => ?_
      rw [createdAs_append, foldl_minor_live hes] at hc
      exact ⟨hc, rfl, fun _ hl => hl⟩
  | signal =>
      refine hI.frame fun id created hc => ?_
      rw [createdAs_append] at hc
      exact ⟨(of_update_none hc).2, rfl, fun _ hl => hl⟩
  | withdraw =>
      refine hI.frame fun id created hc => ?_
      rw [createdAs_append] at hc
      exact ⟨hc, rfl, fun _ hl => (lookup_of_erase hl).2⟩
  | @offer dir info s => exact absurd (by simp) (hnone s)
  | @reoffer info s => exact absurd (by simp) (hnone s)
  | @cancelNone id' hidle hentry =>
      refine hI.frame fun id created hc => ?_
      rw [List.append_nil] at hc
      exact ⟨hc, rfl, fun _ hl => (lookup_of_erase hl).2⟩
  | @cancelEnd s hclean =>
      refine hI.frame fun id created hc => ?_
      rw [createdAs_append] at hc
      obtain ⟨hne, hold⟩ := of_update_none hc
      exact ⟨hold, AList.lookup_erase_ne hne, fun _ hl => (lookup_of_erase hl).2⟩
  | stopEnd =>
      refine hI.frame fun id created hc => ?_
      rw [createdAs_append] at hc
      cases hc
  | @complete sessionId id' error info ok hidle hoffer =>
      refine hI.frame fun id created hc => ?_
      rw [createdAs_append] at hc
      exact ⟨(of_update_none hc).2, rfl, fun _ hl => (lookup_of_erase hl).2⟩

/-- What is offered is live afterwards, with the role it had before if it was live. -/
theorem createdAs_offered {dir : TransferDirection} {info : TransferMeta}
    {s : ActiveTransferSession} {pre post : List (TransferEvent κ)}
    (hpre : ∀ e ∈ pre, e.minor = true) (hpost : ∀ e ∈ post, e.minor = true) :
    createdAs (h ++ (pre ++ .offered dir info :: .registered s :: post)) =
      Function.update (createdAs h) info.offer.transferId
        (some ((createdAs h info.offer.transferId).getD (dir, info))) := by
  rw [createdAs_append, List.foldl_append, foldl_minor_live hpre, List.foldl_cons,
    List.foldl_cons, foldl_minor_live hpost]
  simp only [afterCreation]
  cases hc : createdAs h info.offer.transferId with
  | none => rfl
  | some created =>
      rw [Option.getD_some, ← hc, Function.update_eq_self]
      simp only [hc]

/-- The registration of an offer keeps the roles exactly if an upload goes into the
download folder, and the transfer is new or has the direction and the path of the
live one. -/
theorem RolesKept.offered_iff (hkept : RolesKept P t.sessions h) {es : List (TransferEvent κ)}
    {created : TransferDirection × TransferMeta} {s : ActiveTransferSession}
    (hes : createdAs (h ++ es) = Function.update (createdAs h) s.transferId
      (some ((createdAs h s.transferId).getD created)))
    (hdir : s.direction = created.1) (hpath : s.targetFilePath = rolePath P created) :
    RolesKept P (t.sessions.insert s.transferId s) (h ++ es) ↔
      (created.1 = .mobileUploadToPc →
        DirectChild (defaultDownloadDir P) (rolePath P created)) ∧
      ∀ live ∈ createdAs h s.transferId,
        live.1 = created.1 ∧ rolePath P live = rolePath P created := by
  have hself : createdAs (h ++ es) s.transferId =
      some ((createdAs h s.transferId).getD created) := by
    rw [hes, Function.update_self]
  constructor
  · intro hafter
    obtain ⟨s', hl, hd, hp, hchild⟩ := hafter s.transferId _ hself
    rw [AList.lookup_insert, Option.some.injEq] at hl
    subst hl
    refine ⟨fun hup => ?_, fun live hlive => ?_⟩
    · rw [← hpath]
      exact hchild (hd.symm.trans (hdir.trans hup))
    · rw [Option.mem_def] at hlive
      rw [hlive, Option.getD_some] at hd hp
      exact ⟨hd.symm.trans hdir, hp.symm.trans hpath⟩
  · rintro ⟨hchild, hsame⟩ id live hlive
    by_cases hne : id = s.transferId
    · subst hne
      rw [hself, Option.some.injEq] at hlive
      subst hlive
      have hrole : s.direction = ((createdAs h s.transferId).getD created).1 ∧
          s.targetFilePath = rolePath P ((createdAs h s.transferId).getD created) := by
        cases hold : createdAs h s.transferId with
        | none => exact ⟨hdir, hpath⟩
        | some live =>
            obtain ⟨hd, hp⟩ := hsame live hold
            exact ⟨hdir.trans hd.symm, hpath.trans hp.symm⟩
      refine ⟨s, AList.lookup_insert _, hrole.1, hrole.2, fun hup => ?_⟩
      rw [hpath]
      exact hchild (hdir.symm.trans (hrole.1.trans hup))
    · rw [hes, Function.update_of_ne hne] at hlive
      rw [AList.lookup_insert_ne hne]
      exact hkept id live hlive

/-- A transfer is offered and registered: the roles are kept exactly if an
upload goes into the download folder, and the transfer is new or has the
direction and the path of the live one. -/
theorem RoleInv.offer (hI : RoleInv P t h) {dir : TransferDirection} {info : TransferMeta}
    {s : ActiveTransferSession} {pre post : List (TransferEvent κ)}
    (hpre : ∀ e ∈ pre, e.minor = true) (hpost : ∀ e ∈ post, e.minor = true)
    (hid : s.transferId = info.offer.transferId) (hdir : s.direction = dir)
    (hpath : s.targetFilePath = rolePath P (dir, info))
    (hsessions : t'.sessions = t.sessions.insert s.transferId s)
    (hoffers : t'.offers = t.offers.insert s.transferId info) :
    (RolesKept P t'.sessions (h ++ (pre ++ .offered dir info :: .registered s :: post)) ↔
      (dir = .mobileUploadToPc →
        DirectChild (defaultDownloadDir P) (rolePath P (dir, info))) ∧
      ∀ created ∈ createdAs h s.transferId,
        created.1 = dir ∧ rolePath P created = rolePath P (dir, info)) ∧
    (RolesKept P t'.sessions (h ++ (pre ++ .offered dir info :: .registered s :: post)) →
      RoleInv P t' (h ++ (pre ++ .offered dir info :: .registered s :: post))) := by
  have hcreated :
      createdAs (h ++ (pre ++ .offered dir info :: .registered s :: post)) =
        Function.update (createdAs h) s.transferId
          (some ((createdAs h s.transferId).getD (dir, info))) := by
    rw [hid]
    exact createdAs_offered hpre hpost
  have hiff := hI.kept.offered_iff hcreated hdir hpath
  rw [hsessions]
  refine ⟨hiff, fun hkept => { kept := hsessions ▸ hkept, offers := ?_ }⟩
  intro id created info' hc hl' hdown
  by_cases hne : id = s.transferId
  · subst hne
    rw [hoffers, AList.lookup_insert, Option.some.injEq] at hl'
    subst hl'
    -- the roles are kept, so the path is the one created
    obtain ⟨s', hl, hd, hp, -⟩ := hkept s.transferId created hc
    rw [AList.lookup_insert, Option.some.injEq] at hl
    subst hl
    rw [hd, hdown] at hdir
    subst hdir
    simpa [rolePath, hdown] using hpath.symm.trans hp
  · rw [hcreated, Function.update_of_ne hne] at hc
    rw [hoffers, AList.lookup_insert_ne hne] at hl'
    exact hI.offers id created info' hc hl' hdown

/-- An entry is registered for sending: the roles are kept exactly if the
transfer is not a live upload. -/
theorem RoleInv.accept (hI : RoleInv P t h) {info : TransferMeta}
    {s : ActiveTransferSession} {post : List (TransferEvent κ)}
    (hpost : ∀ e ∈ post, e.minor = true) (hinfo : t.offers.lookup s.transferId = some info)
    (hdir : s.direction = .desktopDownloadToMobile) (hpath : s.targetFilePath = info.filePath)
    (hsessions : t'.sessions = t.sessions.insert s.transferId s)
    (hoffers : t'.offers = t.offers) :
    (RolesKept P t'.sessions (h ++ .registered s :: post) ↔
      ∀ created ∈ createdAs h s.transferId, created.1 = .desktopDownloadToMobile) ∧
    (RolesKept P t'.sessions (h ++ .registered s :: post) →
      RoleInv P t' (h ++ .registered s :: post)) := by
  have hcreated : createdAs (h ++ .registered s :: post) = createdAs h := by
    rw [createdAs_append, List.foldl_cons, foldl_minor_live hpost]
    rfl
  refine ⟨⟨?_, ?_⟩, fun hkept => { kept := hkept, offers := ?_ }⟩
  · intro hkept created hc
    obtain ⟨s', hl, hd, -⟩ := hkept s.transferId created (hcreated ▸ hc)
    rw [hsessions, AList.lookup_insert, Option.some.injEq] at hl
    subst hl
    exact hd.symm.trans hdir
  · intro hdown id created hc
    rw [hcreated] at hc
    by_cases hne : id = s.transferId
    · subst hne
      have hdir' := hdown created hc
      refine ⟨s, by rw [hsessions, AList.lookup_insert], hdir.trans hdir'.symm, ?_, ?_⟩
      · have hfile := hI.offers s.transferId created info hc hinfo hdir'
        simp [rolePath, hdir', hpath, hfile]
      · simp [hdir']
    · rw [hsessions, AList.lookup_insert_ne hne]
      exact hI.kept id created hc
  · intro id created info' hc hl
    rw [hcreated] at hc
    rw [hoffers] at hl
    exact hI.offers id created info' hc hl

end Tables

/-! ## One step -/

section Steps

variable {P : Platform κ} {H : IncrementalHash}

/-- What one iteration of `sendFiles` does, by the path it offers. -/
theorem sendNext_offeredPath {m m' : FileTransferManager} {fs : FileStore κ}
    {draw : SendDraw} {es : List (TransferEvent κ)}
    (h : m.sendNext P H fs draw = some (m', es)) :
    (offeredPath P m fs draw = none ∧ m'.tables = m.tables ∧ es = []) ∨
      ∃ path offer sessionId s, offeredPath P m fs draw = some path ∧
        offer.transferId = formatUuid draw.uuid.bytes ∧
        s.transferId = formatUuid draw.uuid.bytes ∧
        s.direction = .desktopDownloadToMobile ∧ s.targetFilePath = path ∧
        m'.tables.sessions = m.tables.sessions.insert s.transferId s ∧
        m'.tables.offers = m.tables.offers.insert s.transferId
          { sessionId := sessionId, offer := offer, filePath := path } ∧
        es =
          [ .offered .desktopDownloadToMobile
              { sessionId := sessionId, offer := offer, filePath := path }
          , .registered s
          , .sendTo sessionId (.fileOffer offer) ] := by
  unfold sendNext at h
  unfold offeredPath
  rcases hsending : m.sending with ⟨sessionId, _ | ⟨path, rest⟩⟩
  · simp only [hsending] at h
    cases h
  · simp only [hsending] at h ⊢
    cases hqt : (P.qtKey path).bind fs.read? with
    | none =>
        simp only [hqt, Option.some.injEq, Prod.mk.injEq] at h
        obtain ⟨rfl, rfl⟩ := h
        exact Or.inl ⟨rfl, rfl, rfl⟩
    | some sized =>
        cases hstd : (P.stdKey path).bind fs.read? with
        | none =>
            simp only [hqt, hstd, Option.some.injEq, Prod.mk.injEq] at h
            obtain ⟨rfl, rfl⟩ := h
            exact Or.inl ⟨rfl, rfl, rfl⟩
        | some content =>
            by_cases hopens : draw.opens = true
            · simp only [hqt, hstd, hopens, if_true, Option.some.injEq, Prod.mk.injEq] at h ⊢
              obtain ⟨rfl, rfl⟩ := h
              generalize hoffer : makeOffer H path draw _ _ = offer
              have hid : offer.transferId = formatUuid draw.uuid.bytes := by
                rw [← hoffer]
                rfl
              exact Or.inr ⟨path, offer, sessionId, _, rfl, hid, hid, rfl, rfl, rfl, rfl, rfl⟩
            · simp only [hqt, hstd, hopens] at h ⊢
              cases h
              exact Or.inl ⟨rfl, rfl, rfl⟩

/-- The tables change without a registration, in a step that meets its
condition. -/
theorem roleInv_quiet {t t' : Tables} {h es : List (TransferEvent κ)}
    (hI : RoleInv P t h) (ht : TableStep t t' es) (hnone : ∀ s, .registered s ∉ es)
    {cond : Prop} (hcond : cond) :
    (RolesKept P t'.sessions (h ++ es) ↔ cond) ∧
      (RolesKept P t'.sessions (h ++ es) → RoleInv P t' (h ++ es)) := by
  have hI' := ht.roleInv hI hnone
  exact ⟨⟨fun _ => hcond, fun _ => hI'.kept⟩, fun _ => hI'⟩

/-- A `file_offer` that can be read. -/
theorem offer_roles {w : World κ H} {h : List (TransferEvent κ)} {payload : Json}
    {offer : FileOffer} (hI : RoleInv P w.manager.tables h) (sessionId : UInt64)
    (hread : FileOffer.from_json payload = .ok offer) (token : ByteBlock kTokenSize) :
    (RolesKept P (acceptOffer P w.manager sessionId offer token).1.server.sessions
        (h ++ (acceptOffer P w.manager sessionId offer token).2) ↔
      RoleRespected P w h (.control (.handleFileOffer sessionId payload token))) ∧
    (RolesKept P (acceptOffer P w.manager sessionId offer token).1.server.sessions
        (h ++ (acceptOffer P w.manager sessionId offer token).2) →
      RoleInv P (acceptOffer P w.manager sessionId offer token).1.tables
        (h ++ (acceptOffer P w.manager sessionId offer token).2)) := by
  have hpre : ∀ e ∈ [TransferEvent.sendTo (κ := κ) sessionId (.fileAccept offer.transferId)],
      e.minor = true := by simp [TransferEvent.minor]
  have hpost : ∀ e ∈ [TransferEvent.sendTo (κ := κ) sessionId
      (.fileReady offer.transferId kFileTransferPort (generateToken token))],
      e.minor = true := by simp [TransferEvent.minor]
  let info : TransferMeta := { sessionId := sessionId, offer := offer, filePath := "" }
  let s := w.manager.server.newSession offer.transferId (generateToken token) token.bytes
    (uploadPath P offer.name) offer.size offer.sha256 .mobileUploadToPc
  have hfolder : DirectChild (defaultDownloadDir P) (uploadPath P offer.name) ↔
      sanitizeFileName (fromStdString offer.name) ∉ [".", ".."] :=
    (directChild_iff (fromStdString offer.name) (defaultDownloadDir P)).trans (by simp)
  have hkeeps := @RoleInv.offer κ P w.manager.tables
    (acceptOffer P w.manager sessionId offer token).1.tables h hI .mobileUploadToPc info s _ _
    hpre hpost rfl rfl rfl rfl rfl
  refine ⟨hkeeps.1.trans ?_, hkeeps.2⟩
  constructor
  · rintro ⟨hchild, hall⟩ offer' hoffer'
    obtain rfl : offer = offer' := by simpa [hread, Except.toOption] using hoffer'
    refine ⟨hfolder.mp (hchild rfl), fun created hc => ?_⟩
    obtain ⟨hdir, hpath⟩ := hall created hc
    exact ⟨hdir, by simpa [rolePath, hdir] using hpath⟩
  · intro hok
    obtain ⟨hname, hlive⟩ := hok offer (by simp [hread, Except.toOption])
    refine ⟨fun _ => hfolder.mpr hname, fun created hc => ?_⟩
    obtain ⟨hdir, hpath⟩ := hlive created hc
    exact ⟨hdir, by simpa [rolePath, hdir] using hpath⟩

theorem accept_roles {w : World κ H} {h es : List (TransferEvent κ)} {payload : Json}
    {sessionId : UInt64} {token : ByteBlock kTokenSize} {m : FileTransferManager}
    (hI : RoleInv P w.manager.tables h) (ht : TableStep w.manager.tables m.tables es)
    (hbody : w.manager.handleFileAccept sessionId payload token = .ok (m, es)) :
    (RolesKept P m.server.sessions (h ++ es) ↔
      RoleRespected P w h (.control (.handleFileAccept sessionId payload token))) ∧
    (RolesKept P m.server.sessions (h ++ es) → RoleInv P m.tables (h ++ es)) := by
  obtain ⟨id, hread, hrest⟩ := (bind_eq_ok _ _ _).mp hbody
  have hcond : RoleRespected P w h (.control (.handleFileAccept sessionId payload token)) ↔
      (id ≠ "" ∧ id ∈ w.manager.activeOffers →
        ∀ created ∈ createdAs h id, created.1 = .desktopDownloadToMobile) := by
    simp [RoleRespected, hread, Except.toOption]
  rw [hcond]
  by_cases hempty : id = ""
  · simp only [hempty, if_true, pure, Except.pure, Except.ok.injEq, Prod.mk.injEq] at hrest
    obtain ⟨rfl, rfl⟩ := hrest
    exact roleInv_quiet hI ht (by simp) fun hne => absurd hempty hne.1
  · cases hoffer : w.manager.activeOffers.lookup id with
    | none =>
        simp only [hempty, if_false, hoffer, pure, Except.pure, Except.ok.injEq,
          Prod.mk.injEq] at hrest
        obtain ⟨rfl, rfl⟩ := hrest
        exact roleInv_quiet hI ht (by simp) fun hentry =>
          absurd hentry.2 (AList.lookup_eq_none.mp hoffer)
    | some info =>
        simp only [hempty, if_false, hoffer, pure, Except.pure, Except.ok.injEq,
          Prod.mk.injEq] at hrest
        obtain ⟨rfl, rfl⟩ := hrest
        have hpost : ∀ e ∈ [TransferEvent.sendTo (κ := κ) sessionId
            (.fileReady id kFileTransferPort (generateToken token))], e.minor = true := by
          simp [TransferEvent.minor]
        let s := w.manager.server.newSession id (generateToken token) token.bytes
          info.filePath info.offer.size info.offer.sha256 .desktopDownloadToMobile
        have hkeeps := @RoleInv.accept κ P w.manager.tables
          { w.manager with server := w.manager.server.registerTransfer s }.tables h hI info s
          _ hpost hoffer rfl rfl rfl rfl
        refine ⟨hkeeps.1.trans ?_, hkeeps.2⟩
        have hentry : id ∈ w.manager.activeOffers :=
          AList.lookup_isSome.mp (by simp [hoffer])
        exact ⟨fun hall _ => hall, fun hall => hall ⟨hempty, hentry⟩⟩

theorem sendNext_roles {w : World κ H} {h es : List (TransferEvent κ)} {draw : SendDraw}
    {m : FileTransferManager} (hI : RoleInv P w.manager.tables h)
    (hcall : w.manager.sendNext P H w.fs draw = some (m, es)) :
    (RolesKept P m.server.sessions (h ++ es) ↔
      RoleRespected P w h (.control (.sendNext draw))) ∧
    (RolesKept P m.server.sessions (h ++ es) → RoleInv P m.tables (h ++ es)) := by
  rcases sendNext_offeredPath hcall with
    ⟨hnone, htables, rfl⟩ | ⟨path, offer, sessionId, s, hpath, hid, hsid, hdir, htarget,
      hsessions, hoffers, rfl⟩
  · have ht : TableStep w.manager.tables m.tables ([] : List (TransferEvent κ)) := by
      rw [htables]
      exact .quiet
    exact roleInv_quiet hI ht (by simp) (by simp [RoleRespected, hnone])
  · let info : TransferMeta := { sessionId := sessionId, offer := offer, filePath := path }
    have hpost : ∀ e ∈ [TransferEvent.sendTo (κ := κ) sessionId (.fileOffer offer)],
        e.minor = true := by simp [TransferEvent.minor]
    have hpre : ∀ e ∈ ([] : List (TransferEvent κ)), e.minor = true := by simp
    have hkeeps := @RoleInv.offer κ P w.manager.tables m.tables h hI .desktopDownloadToMobile
      info s _ _ hpre hpost (hsid.trans hid.symm) hdir htarget hsessions hoffers
    refine ⟨hkeeps.1.trans ?_, hkeeps.2⟩
    rw [hsid]
    constructor
    · rintro ⟨-, hall⟩ path' hpath' created hc
      obtain rfl : path = path' := Option.some.inj (hpath.symm.trans hpath')
      obtain ⟨hdir', hrole⟩ := hall created hc
      exact ⟨hdir', by simpa [rolePath, hdir'] using hrole⟩
    · refine fun hok => ⟨by simp, fun created hc => ?_⟩
      obtain ⟨hdir', hfile⟩ := hok path hpath created hc
      exact ⟨hdir', by simpa [rolePath, hdir'] using hfile⟩

/-- A call on the manager keeps the roles exactly if it respects them. -/
theorem control_roles {w : World κ H} {h : List (TransferEvent κ)} {a : Control}
    {m : FileTransferManager} {es : List (TransferEvent κ)}
    (hI : RoleInv P w.manager.tables h)
    (hcall : control P H w.manager w.fs a = some (m, es)) :
    (RolesKept P m.server.sessions (h ++ es) ↔ RoleRespected P w h (.control a)) ∧
      (RolesKept P m.server.sessions (h ++ es) → RoleInv P m.tables (h ++ es)) := by
  have ht := control_tables P H hcall
  have hquiet : (∀ s, .registered s ∉ es) → RoleRespected P w h (.control a) →
      (RolesKept P m.server.sessions (h ++ es) ↔ RoleRespected P w h (.control a)) ∧
        (RolesKept P m.server.sessions (h ++ es) → RoleInv P m.tables (h ++ es)) := by
    intro hnone hcond
    exact roleInv_quiet hI ht hnone hcond
  cases a with
  | start | stop | setCurrentSession | stopLock | sendFiles | handleFileReject
  | handleFileCancel =>
      refine hquiet (fun s hmem => ?_) trivial
      cases control_cases P H hcall with
      | cancel =>
          rw [cancel_events] at hmem
          cases hmem
      | _ => cases hmem
  | handleFileComplete sessionId payload =>
      refine hquiet (fun s hmem => ?_) trivial
      cases control_cases P H hcall with
      | cancel ha => simp at ha
      | complete => simp at hmem
      | ignored => cases hmem
  | handleFileOffer sessionId payload token =>
      simp only [control] at hcall
      split at hcall
      · cases hread : FileOffer.from_json payload with
        | error e =>
            simp only [handleFileOffer, hread, Option.some.injEq, Prod.mk.injEq] at hcall
            obtain ⟨rfl, rfl⟩ := hcall
            exact hquiet (by simp) (by simp [RoleRespected, hread, Except.toOption])
        | ok offer =>
            simp only [handleFileOffer, hread, Option.some.injEq] at hcall
            obtain ⟨rfl, rfl⟩ : m = (acceptOffer P w.manager sessionId offer token).1 ∧
                es = (acceptOffer P w.manager sessionId offer token).2 := by simp [hcall]
            exact offer_roles hI sessionId hread token
      · cases hcall
  | handleFileAccept sessionId payload token =>
      simp only [control] at hcall
      split at hcall
      · exact accept_roles hI ht (toOption_eq_some hcall)
      · cases hcall
  | sendNext draw =>
      simp only [control] at hcall
      split at hcall
      · exact sendNext_roles hI hcall
      · cases hcall

/-- While the lock is held nothing is registered. -/
theorem TableStep.busy_not_registered {t t' : Tables} {es : List (TransferEvent κ)}
    (ht : TableStep t t' es) (hbusy : t.cleaning ≠ .idle) (s : ActiveTransferSession) :
    .registered s ∉ es := by
  cases ht with
  | offer hidle => exact absurd hidle hbusy
  | reoffer hidle => exact absurd hidle hbusy
  | told hes => exact notMem_of_minor rfl hes
  | _ => simp

/-- A callback registers nothing. -/
theorem onFinished_not_registered {m m' : FileTransferManager} {c : Nat}
    {cb : FinishedCallback} {es : List (TransferEvent κ)}
    (h : m.onFinished c cb = (m', es)) (s : ActiveTransferSession) : .registered s ∉ es := by
  cases onFinished_cases h with
  | reply _ hes => exact notMem_of_minor rfl hes
  | _ => simp

variable [DecidableEq κ]

/-- **One step.**  A step keeps the roles if and only if it respects them. -/
theorem roles_step {w w' : World κ H} {h es : List (TransferEvent κ)}
    {a : TransferAction κ} (hI : RoleInv P w.manager.tables h)
    (hs : transferStep P H w a = some (w', es)) :
    (RolesKept P w'.manager.server.sessions (h ++ es) ↔ RoleRespected P w h a) ∧
      (RolesKept P w'.manager.server.sessions (h ++ es) →
        RoleInv P w'.manager.tables (h ++ es)) := by
  -- a step of another kind meets the condition and keeps the invariant
  have hkeeps : RoleInv P w'.manager.tables (h ++ es) → RoleRespected P w h a →
      (RolesKept P w'.manager.server.sessions (h ++ es) ↔ RoleRespected P w h a) ∧
        (RolesKept P w'.manager.server.sessions (h ++ es) →
          RoleInv P w'.manager.tables (h ++ es)) :=
    fun hI' hcond => ⟨⟨fun _ => hcond, fun _ => hI'.kept⟩, fun _ => hI'⟩
  have hsame : (∀ e ∈ es, e.keepsLive = true) →
      w'.manager.tables = w.manager.tables → RoleInv P w'.manager.tables (h ++ es) := by
    intro hes htables
    refine hI.frame fun id created hc => ?_
    rw [createdAs_append, foldl_keepsLive hes] at hc
    rw [htables]
    exact ⟨hc, rfl, fun _ hl => hl⟩
  cases step_cases hs with
  | control hcall => exact control_roles hI hcall
  | callback _ hstep ht =>
      exact hkeeps (ht.roleInv hI (onFinished_not_registered hstep)) trivial
  | clean hbusy ht => exact hkeeps (ht.roleInv hI (ht.busy_not_registered hbusy)) trivial
  | @cleanFile s k m es htarget hkey ht =>
      have hbusy : w.manager.tables.cleaning ≠ .idle := by
        intro hidle
        rw [show w.manager.server.cleaning = .idle from hidle] at htarget
        cases htarget
      have hI₁ : RoleInv P w.manager.tables (h ++ [.fileOp s (.remove k)
          ((FileOp.remove k).hits w.fs) ((FileOp.remove k).makes w.fs)]) := by
        refine hI.frame fun id created hc => ?_
        rw [createdAs_append] at hc
        exact ⟨hc, rfl, fun _ hl => hl⟩
      have hI' := ht.roleInv hI₁ (ht.busy_not_registered hbusy)
      refine hkeeps ?_ trivial
      simpa using hI'
  | accept => exact hkeeps (hsame (by simp) rfl) trivial
  | connQuiet => exact hkeeps (hsame (by simp) rfl) trivial
  | connFile => exact hkeeps (hsame (by simp [TransferEvent.keepsLive]) rfl) trivial
  | create => exact hkeeps (hsame (by simp [TransferEvent.keepsLive]) rfl) trivial
  | connEffect _ _ _ htables hminor =>
      refine hkeeps (hsame ?_ htables) trivial
      intro e he
      rcases List.mem_cons.mp he with rfl | he
      · rfl
      · exact TransferEvent.minor_keepsLive (hminor e he)

end Steps

/-! ## A download that is accepted and an upload that is -/

/-- The `file_accept` of a sample transfer by its session. -/
def acceptAction (id : UInt8) (token : UInt8) : TransferAction String :=
  .control (.handleFileAccept 1
    (.object [("transferId", .string (formatUuid (sampleUuid id).bytes))])
    (sampleToken token))

end Iriseus.Core
