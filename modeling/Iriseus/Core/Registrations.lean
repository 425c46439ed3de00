import Iriseus.Core.TokenAuthority

/-!
# Registrations and their transfers

Two tables belong to a transfer: the offer in the manager's `m_activeOffers`
and the registration in the server's `m_sessions`.  Rejecting and cancelling
erase both.  The finish callback and `handleFileComplete` erase the offer only,
the callback at its end, long after its look-up.

`Tables.InStep` is the relation the two tables should keep: a registered
identifier is an offered one, or its registration is being removed.  Every
operation keeps it but the erasure of an offer that is still registered
(`registrations_consumed_iff`), and a registration that outlives its report
lets the token be used again (`report_leaves_registration`).
-/

namespace Iriseus.Core

open Iriseus.Verified
open Iriseus.Verified.ByteStream
open FileTransferManager

variable {κ : Type}

/-! ## Definitions -/

/-- The transfer whose outcome an event reports: `m_onFinished` is called, or
`handleFileComplete` is processed. -/
def TransferEvent.outcomeOf : TransferEvent κ → Option String
  | .connection _ s (.finished _ _) => some s.transferId
  | .fileComplete _ transferId _ => some transferId
  | _ => none

/-- After the report of a transfer no connection that looks its identifier up
touches a file, unless the identifier was registered in between. -/
def Consumed (h : List (TransferEvent κ)) : Prop :=
  ∀ h₁ e h₂ c s hs h₃, h = h₁ ++ e :: (h₂ ++ .connection c s (.found hs) :: h₃) →
    e.outcomeOf = some s.transferId →
    (∀ s', .registered s' ∈ h₂ → s'.transferId ≠ s.transferId) →
    ∀ e', .connection c s e' ∈ h₃ → e'.touchesFile = false

/-- The holder of the lock is removing the registration of `id`. -/
def Cleaning.removes : Cleaning → String → Bool
  | .idle, _ => false
  | .cancel s, id => s.transferId = id
  | .stop _, _ => true

/-- Every registered identifier is an offered one, or is being removed. -/
def Tables.InStep (t : Tables) : Prop :=
  ∀ id, id ∈ t.sessions → id ∈ t.offers ∨ t.cleaning.removes id = true

/-- `id` is not registered, or is being removed. -/
def Tables.Gone (t : Tables) (id : String) : Prop :=
  id ∉ t.sessions ∨ t.cleaning.removes id = true

instance (t : Tables) (id : String) : Decidable (t.Gone id) :=
  inferInstanceAs (Decidable (_ ∨ _))

/-- A connection is about to call `m_onFinished`. -/
def Pc.reporting {H : IncrementalHash} : Pc H → Bool
  | .failed _ => true
  | .upload (.saved _) => true
  | .download .sentAll => true
  | _ => false

/-- The transfer whose outcome a step would report. -/
def reports {H : IncrementalHash} (w : World κ H) : TransferAction κ → Option String
  | .conn c _ =>
      match w.conns[c]? with
      | some (.serving _ s pc) => if pc.reporting then some s.transferId else none
      | _ => none
  | .control (.handleFileComplete _ payload) =>
      match payload.stringValue "transferId" "" with
      | .ok id => if id ∈ w.manager.activeOffers then some id else none
      | .error _ => none
  | _ => none

/-- The identifier a callback would erase from `m_activeOffers` in a step. -/
def withdraws {H : IncrementalHash} (w : World κ H) : TransferAction κ → Option String
  | .callback c =>
      match w.manager.callbacks.lookup c with
      | some cb => if cb.stage = .erase then some cb.transferId else none
      | none => none
  | _ => none

/-- An outcome is reported, and an offer erased by a callback, only when the
transfer's registration is gone. -/
def ReportsGone {H : IncrementalHash} :
    Machine.StepCond (World κ H) (TransferAction κ) (TransferEvent κ) :=
  fun w _ a => ∀ id ∈ (reports w a).toList ++ (withdraws w a).toList,
    w.manager.tables.Gone id

instance {H : IncrementalHash} : ∀ w h a, Decidable (ReportsGone (κ := κ) (H := H) w h a) :=
  fun w _ a => inferInstanceAs
    (Decidable (∀ id ∈ (reports w a).toList ++ (withdraws w a).toList,
      w.manager.tables.Gone id))

/-- What has been reported, and not been registered since, is gone. -/
def ReportedGone {H : IncrementalHash} (w : World κ H) (h : List (TransferEvent κ)) : Prop :=
  ∀ h₁ e h₂ id, h = h₁ ++ e :: h₂ → e.outcomeOf = some id →
    (∀ s', .registered s' ∈ h₂ → s'.transferId ≠ id) → w.manager.tables.Gone id

/-! ## The tables -/

/-- The offer an event erases without its registration. -/
def TransferEvent.erasedOffer : TransferEvent κ → Option String
  | .fileComplete _ transferId _ => some transferId
  | .withdrawn transferId => some transferId
  | _ => none

/-- The tables stay in step unless the offer of a registered identifier is
erased alone. -/
theorem TableStep.inStep {t t' : Tables} {es : List (TransferEvent κ)}
    (ht : TableStep t t' es) (hin : t.InStep)
    (hgone : ∀ e ∈ es, ∀ id, e.erasedOffer = some id → t.Gone id) : t'.InStep := by
  have herase : ∀ i, t.Gone i →
      ({ t with offers := t.offers.erase i } : Tables).InStep := by
    intro i hgone id hid
    by_cases hne : id = i
    · subst hne
      rcases hgone with hnot | hr
      · exact absurd hid hnot
      · exact Or.inr hr
    · rcases hin id hid with ho | hr
      · exact Or.inl (AList.mem_erase.mpr ⟨hne, ho⟩)
      · exact Or.inr hr
  cases ht with
  | quiet | told | signal => exact hin
  | offer hidle =>
      intro id hid
      rcases (AList.mem_insert _).mp hid with rfl | hid
      · exact Or.inl ((AList.mem_insert _).mpr (Or.inl rfl))
      · rcases hin id hid with ho | hr
        · exact Or.inl ((AList.mem_insert _).mpr (Or.inr ho))
        · simp [hidle, Cleaning.removes] at hr
  | reoffer hidle hoffer =>
      intro id hid
      rcases (AList.mem_insert _).mp hid with rfl | hid
      · exact Or.inl (AList.lookup_isSome.mp (by simp [hoffer]))
      · exact hin id hid
  | cancelBegin hidle hentry =>
      intro id hid
      rcases hin id hid with ho | hr
      · exact Or.inl ho
      · simp [hidle, Cleaning.removes] at hr
  | @cancelNone i hidle hentry =>
      intro id hid
      have hne : id ≠ i := by
        rintro rfl
        exact AList.lookup_eq_none.mp hentry hid
      rcases hin id hid with ho | hr
      · exact Or.inl (AList.mem_erase.mpr ⟨hne, ho⟩)
      · exact Or.inr hr
  | cancelEnd hclean =>
      intro id hid
      obtain ⟨hne, hid⟩ := AList.mem_erase.mp hid
      rcases hin id hid with ho | hr
      · exact Or.inl (AList.mem_erase.mpr ⟨hne, ho⟩)
      · simp only [hclean, Cleaning.removes, decide_eq_true_eq] at hr
        exact absurd hr.symm hne
  | stopBegin => exact fun id _ => Or.inr rfl
  | stopNext => exact fun id _ => Or.inr rfl
  | stopEnd => exact fun id hid => absurd hid (AList.notMem_empty id)
  | complete => exact herase _ (hgone _ (List.mem_cons_self ..) _ rfl)
  | withdraw => exact herase _ (hgone _ (List.mem_cons_self ..) _ rfl)

/-- A registration that is gone stays gone until the identifier is registered
again. -/
theorem TableStep.gone {t t' : Tables} {es : List (TransferEvent κ)}
    (ht : TableStep t t' es) {id : String} (hgone : t.Gone id)
    (hreg : ∀ s, .registered s ∈ es → s.transferId ≠ id) : t'.Gone id := by
  have hinsert : ∀ s : ActiveTransferSession, t.cleaning = .idle → s.transferId ≠ id →
      id ∉ t.sessions.insert s.transferId s := by
    intro s hidle hne hmem
    rcases (AList.mem_insert _).mp hmem with heq | hmem
    · exact hne heq.symm
    · rcases hgone with hnot | hr
      · exact hnot hmem
      · simp [hidle, Cleaning.removes] at hr
  cases ht with
  | quiet | complete | cancelNone | told | signal | withdraw => exact hgone
  | offer hidle => exact Or.inl (hinsert _ hidle (hreg _ (by simp)))
  | reoffer hidle => exact Or.inl (hinsert _ hidle (hreg _ (by simp)))
  | cancelBegin hidle hentry =>
      rcases hgone with hnot | hr
      · exact Or.inl hnot
      · simp [hidle, Cleaning.removes] at hr
  | cancelEnd hclean =>
      left
      intro hmem
      obtain ⟨hne, hmem⟩ := AList.mem_erase.mp hmem
      rcases hgone with hnot | hr
      · exact hnot hmem
      · simp only [hclean, Cleaning.removes, decide_eq_true_eq] at hr
        exact hne hr.symm
  | stopBegin => exact Or.inr rfl
  | stopNext => exact Or.inr rfl
  | stopEnd => exact Or.inl (AList.notMem_empty id)

/-- `handleFileComplete` does not run while temporary files are removed. -/
theorem TableStep.idle_of_fileComplete {t t' : Tables} {es : List (TransferEvent κ)}
    (ht : TableStep t t' es) {sessionId : UInt64} {id : String} {ok : Bool}
    (hmem : .fileComplete sessionId id ok ∈ es) : t.cleaning = .idle := by
  cases ht with
  | offer hidle | reoffer hidle | cancelBegin hidle | cancelNone hidle | stopBegin hidle
  | complete hidle => exact hidle
  | told hes => exact absurd hmem (notMem_of_minor rfl hes)
  | quiet | cancelEnd | stopNext | stopEnd | signal | withdraw => simp at hmem

theorem TransferEvent.minor_of_outcome {e : TransferEvent κ} {id : String}
    (hid : e.outcomeOf = some id) : e.minor = false := by
  cases e <;> first | rfl | cases hid

theorem not_registered_of_minor {es : List (TransferEvent κ)}
    (hes : ∀ e ∈ es, e.minor = true) (s : ActiveTransferSession) : .registered s ∉ es :=
  notMem_of_minor rfl hes

/-- A change of the tables that reports does not register. -/
theorem TableStep.not_registered {t t' : Tables} {es : List (TransferEvent κ)}
    (ht : TableStep t t' es) {e : TransferEvent κ} (he : e ∈ es) {id : String}
    (hid : e.outcomeOf = some id) (s : ActiveTransferSession) : .registered s ∉ es := by
  have hmajor := TransferEvent.minor_of_outcome hid
  cases ht with
  | offer _ _ _ _ _ hpre hpost =>
      simp only [List.mem_append, List.mem_cons, notMem_of_minor hmajor hpre,
        notMem_of_minor hmajor hpost, false_or, or_false] at he
      rcases he with rfl | rfl <;> simp [TransferEvent.outcomeOf] at hid
  | reoffer _ _ _ _ _ hpost =>
      simp only [List.mem_cons, notMem_of_minor hmajor hpost, or_false] at he
      subst he
      simp [TransferEvent.outcomeOf] at hid
  | told hes => exact not_registered_of_minor hes s
  | _ => simp

/-! ## Which steps report -/

section Steps

variable {P : Platform κ} {H : IncrementalHash}

/-- Only `handleFileComplete` reports, for an identifier that is offered. -/
theorem control_fileComplete {m m' : FileTransferManager} {fs : FileStore κ}
    {a : Control} {es : List (TransferEvent κ)} {sessionId : UInt64} {id : String}
    {ok : Bool} (h : control P H m fs a = some (m', es))
    (hmem : .fileComplete sessionId id ok ∈ es) :
    ∃ payload, a = .handleFileComplete sessionId payload ∧
      payload.stringValue "transferId" "" = .ok id ∧
      payload.boolValue "ok" false = .ok ok ∧ id ∈ m.activeOffers := by
  cases control_cases P H h with
  | start | stop | stopLock | setCurrentSession | sendFiles | skip | ignored => cases hmem
  | offer | accept => simp [acceptOffer, register] at hmem
  | cancel =>
      rw [cancel_events] at hmem
      cases hmem
  | @complete sid payload i error ok' info _ hid hok hoffer =>
      simp only [List.mem_cons, TransferEvent.fileComplete.injEq, reduceCtorEq,
        List.not_mem_nil, or_false] at hmem
      obtain ⟨rfl, rfl, rfl⟩ := hmem
      exact ⟨payload, rfl, hid, hok, AList.lookup_isSome.mp (by simp [hoffer])⟩
  | send _ _ _ hr => simp [hr, register] at hmem

/-- A body about to report has no other step. -/
theorem serve_reporting {v : View κ} {s : ActiveTransferSession} {pc : Pc H}
    (hpc : pc.reporting = true) {inp : Input} {pc' : Pc H} {e : Effect κ}
    (h : serve P H v s pc inp = some (pc', e)) : ∃ ok error, e = .finished ok error := by
  unfold Pc.reporting at hpc
  split at hpc
  · simp only [serve] at h
    split at h <;> cases h
    exact ⟨_, _, rfl⟩
  · simp only [serve, serveUpload] at h
    split at h <;> cases h
    exact ⟨_, _, rfl⟩
  · simp only [serve, serveDownload] at h
    split at h <;> cases h
    exact ⟨_, _, rfl⟩
  · cases hpc

/-- A call on the manager is not the end of a callback. -/
theorem control_not_withdrawn {m m' : FileTransferManager} {fs : FileStore κ}
    {a : Control} {es : List (TransferEvent κ)} (h : control P H m fs a = some (m', es))
    (id : String) : .withdrawn id ∉ es := by
  cases control_cases P H h with
  | start | stop | stopLock | setCurrentSession | sendFiles | skip | ignored => simp
  | offer | accept => simp [acceptOffer, register]
  | cancel => simp [cancel_events]
  | complete => simp
  | send _ _ _ hr => simp [hr, register]

variable [DecidableEq κ]

/-- A step's events report the transfer that `reports` names. -/
theorem outcome_of_reports {w w' : World κ H} {a : TransferAction κ}
    {es : List (TransferEvent κ)} (ht : Transition P w a w' es) {e : TransferEvent κ}
    (he : e ∈ es) {id : String} (hid : e.outcomeOf = some id) : reports w a = some id := by
  cases e with
  | connection c s eff =>
      obtain ⟨es₁, es₂, hes⟩ := List.append_of_mem he
      obtain ⟨-, inp, conn, conn', rfl, hc, -, hmove⟩ := step_connection_event ht hes
      cases eff with
      | finished ok error =>
          cases hmove with
          | @serves _ _ _ pc _ _ hserve =>
              simp only [TransferEvent.outcomeOf, Option.some.injEq] at hid
              have hrep : pc.reporting = true := by
                rcases (serve_finished hserve).2 with ⟨-, rfl⟩ | ⟨-, -, ⟨f, rfl⟩ | rfl⟩ <;> rfl
              simp [reports, hc, hrep, hid]
      | _ => simp [TransferEvent.outcomeOf] at hid
  | fileComplete sessionId i ok =>
      simp only [TransferEvent.outcomeOf, Option.some.injEq] at hid
      subst hid
      cases ht with
      | control hcall _ =>
          obtain ⟨payload, rfl, hid, -, hoffer⟩ := control_fileComplete hcall he
          have hid' : payload.stringValue "transferId" "" = .ok i := hid
          simp only [reports, hid', hoffer, if_true]
      | clean hbusy ht => exact absurd (ht.idle_of_fileComplete he) hbusy
      | cleanFile htarget _ ht =>
          simp only [List.mem_cons, reduceCtorEq, false_or] at he
          have hidle : w.manager.server.cleaning = .idle := ht.idle_of_fileComplete he
          simp [hidle, Cleaning.target] at htarget
      | callback _ hstep _ =>
          cases onFinished_cases hstep with
          | find => cases he
          | reply _ hes => exact absurd he (notMem_of_minor rfl hes)
          | signal | erase => simp at he
      | accept | connQuiet => cases he
      | connFile | create => simp at he
      | connEffect _ _ _ _ hminor =>
          simp only [List.mem_cons, reduceCtorEq, false_or] at he
          have hminor := hminor _ he
          simp [TransferEvent.minor] at hminor
  | _ => simp [TransferEvent.outcomeOf] at hid

/-- Only a callback withdraws an offer, as its last step. -/
theorem withdraws_of_event {w w' : World κ H} {a : TransferAction κ}
    {es : List (TransferEvent κ)} (hs : transferStep P H w a = some (w', es)) {id : String}
    (he : .withdrawn id ∈ es) : withdraws w a = some id := by
  cases managerStep_cases hs with
  | @callback c cb es hcb hstep =>
      generalize w'.manager = m' at hstep
      cases onFinished_cases hstep with
      | find => cases he
      | reply _ hes => exact absurd he (notMem_of_minor rfl hes)
      | signal => simp at he
      | erase hstage =>
          simp only [List.mem_singleton, TransferEvent.withdrawn.injEq] at he
          simp [withdraws, hcb, hstage, he]
  | call hcall => exact absurd he (control_not_withdrawn hcall id)
  | next _ hremoved =>
      rcases List.mem_append.mp he with he | he
      · obtain ⟨s, op, hit, made, heq⟩ := hremoved _ he
        cases heq
      · unfold cleanNext at he
        split at he <;> simp [finishCancel] at he
  | @effect _ _ _ _ e =>
      cases e <;> simp [World.effect, World.perform] at he
  | same _ hes =>
      obtain ⟨k, heq⟩ := hes _ he
      cases heq

/-! ## The tables in a step of the system -/

theorem Transition.inStep {w w' : World κ H} {a : TransferAction κ}
    {es : List (TransferEvent κ)} (ht : Transition P w a w' es)
    (hin : w.manager.tables.InStep)
    (hgone : ∀ e ∈ es, ∀ id, e.erasedOffer = some id → w.manager.tables.Gone id) :
    w'.manager.tables.InStep := by
  cases ht with
  | control _ ht => exact ht.inStep hin hgone
  | clean _ ht => exact ht.inStep hin hgone
  | callback _ _ ht => exact ht.inStep hin hgone
  | cleanFile _ _ ht => exact ht.inStep hin fun e he => hgone e (by simp [he])
  | accept | connQuiet | connFile | create => exact hin
  | connEffect _ _ _ htables => rwa [htables]

theorem Transition.gone {w w' : World κ H} {a : TransferAction κ}
    {es : List (TransferEvent κ)} (ht : Transition P w a w' es) {id : String}
    (hgone : w.manager.tables.Gone id)
    (hreg : ∀ s, .registered s ∈ es → s.transferId ≠ id) : w'.manager.tables.Gone id := by
  cases ht with
  | control _ ht => exact ht.gone hgone hreg
  | clean _ ht => exact ht.gone hgone hreg
  | callback _ _ ht => exact ht.gone hgone hreg
  | cleanFile _ _ ht => exact ht.gone hgone fun s hs => hreg s (by simp [hs])
  | accept | connQuiet | connFile | create => exact hgone
  | connEffect _ _ _ htables => rwa [htables]

theorem Transition.not_registered {w w' : World κ H} {a : TransferAction κ}
    {es : List (TransferEvent κ)} (ht : Transition P w a w' es) {e : TransferEvent κ}
    (he : e ∈ es) {id : String} (hid : e.outcomeOf = some id)
    (s : ActiveTransferSession) : .registered s ∉ es := by
  cases ht with
  | control _ ht => exact ht.not_registered he hid s
  | clean _ ht => exact ht.not_registered he hid s
  | callback _ _ ht => exact ht.not_registered he hid s
  | cleanFile _ _ ht =>
      rcases List.mem_cons.mp he with rfl | he
      · simp [TransferEvent.outcomeOf] at hid
      · simpa using ht.not_registered he hid s
  | accept | connQuiet | connFile | create => simp
  | connEffect _ _ _ _ hminor =>
      simp only [List.mem_cons, reduceCtorEq, false_or]
      exact not_registered_of_minor hminor s

/-- A step that reports leaves an event of its report, and the registrations as
they are. -/
theorem report_step {w w' : World κ H} {a : TransferAction κ}
    {es : List (TransferEvent κ)} (ht : Transition P w a w' es) {id : String}
    (hrep : reports w a = some id) :
    (∃ e ∈ es, e.outcomeOf = some id) ∧
      (w'.manager.tables.Gone id → w.manager.tables.Gone id) := by
  cases a with
  | conn c inp =>
      simp only [reports] at hrep
      split at hrep
      · rename_i hs s pc hc
        split at hrep
        · rename_i hpc
          simp only [Option.some.injEq] at hrep
          subst hrep
          have hfin : ∀ {conn conn' eff}, w.conns[c]? = some conn →
              conn.step P H w.manager.server w.fs inp = some (conn', eff) →
              ∃ ok error, eff = some (s, .finished ok error) := by
            intro conn conn' eff hold hmove
            rw [hc] at hold
            cases hold
            cases Connection.step_cases hmove with
            | serves hserve =>
                obtain ⟨ok, error, rfl⟩ := serve_reporting hpc hserve
                exact ⟨ok, error, rfl⟩
            | ends =>
                simp only [Connection.step] at hmove
                split at hmove <;> cases hmove
          cases ht with
          | connQuiet hold hmove =>
              obtain ⟨_, _, heq⟩ := hfin hold hmove
              cases heq
          | connFile hold hmove =>
              obtain ⟨_, _, heq⟩ := hfin hold hmove
              cases heq
          | connEffect hold hmove _ htables =>
              obtain ⟨ok, error, heq⟩ := hfin hold hmove
              cases heq
              exact ⟨⟨_, List.mem_cons_self, rfl⟩, fun hgone => by rwa [htables] at hgone⟩
        · cases hrep
      · cases hrep
  | control a =>
      cases a with
      | handleFileComplete sessionId payload =>
          cases ht with
          | control hcall _ =>
              simp only [Iriseus.Core.control] at hcall
              split at hcall
              · rcases handleFileComplete_cases (toOption_eq_some hcall) with
                  ⟨-, -, i, hid, hnone⟩ | ⟨i, ok, error, info, hid, -, -, rfl, rfl⟩
                · have hnot := AList.lookup_eq_none.mp hnone
                  have hid' : payload.stringValue "transferId" "" = .ok i := hid
                  simp [reports, hid', hnot] at hrep
                · have hid' : payload.stringValue "transferId" "" = .ok i := hid
                  simp only [reports, hid'] at hrep
                  split at hrep
                  · cases hrep
                    exact ⟨⟨_, List.mem_cons_self, rfl⟩, fun hgone => hgone⟩
                  · cases hrep
              · cases hcall
      | _ => cases hrep
  | _ => cases hrep

/-- A callback that erases the offer of a registered identifier puts the tables
out of step. -/
theorem Transition.not_inStep {w w' : World κ H} {a : TransferAction κ}
    {es : List (TransferEvent κ)} (ht : Transition P w a w' es) {id : String}
    (hwith : withdraws w a = some id) (hgone : ¬w.manager.tables.Gone id) :
    ¬w'.manager.tables.InStep := by
  cases ht with
  | @callback c cb m es hcb hstep _ =>
      simp only [withdraws, hcb] at hwith
      split at hwith
      · rename_i hstage
        cases hwith
        simp only [onFinished, hstage, Prod.mk.injEq] at hstep
        obtain ⟨rfl, -⟩ := hstep
        simp only [Tables.Gone, not_or, Decidable.not_not] at hgone
        obtain ⟨hmem, hrem⟩ := hgone
        intro hin
        rcases hin cb.transferId hmem with ho | hr
        · exact (AList.mem_erase.mp ho).1 rfl
        · exact hrem hr
      · cases hwith
  | _ => cases hwith

/-! ## Runs -/

/-- The tables are in step, a reported transfer is gone until it is registered
again, and no lookup found it in between. -/
structure ConsumedInv (w : World κ H) (h : List (TransferEvent κ)) : Prop where
  inStep : w.manager.tables.InStep
  gone : ReportedGone w h
  lookups : ∀ h₁ e h₂ c s hs h₃,
    h = h₁ ++ e :: (h₂ ++ .connection c s (.found hs) :: h₃) →
    e.outcomeOf = some s.transferId → ∃ s', .registered s' ∈ h₂ ∧ s'.transferId = s.transferId

theorem consumedInv_step {w w' : World κ H} {h es : List (TransferEvent κ)}
    {a : TransferAction κ} (htoken : TokenInv w h) (hI : ConsumedInv w h)
    (hok : ReportsGone w h a) (hs : transferStep P H w a = some (w', es)) :
    ConsumedInv w' (h ++ es) := by
  have ht := step_cases hs
  have hreports : ∀ id, reports w a = some id → w.manager.tables.Gone id :=
    fun id hid => hok id (by simp [hid])
  refine { inStep := ht.inStep hI.inStep ?_, gone := ?_, lookups := ?_ }
  · intro e he id hid
    cases e with
    | fileComplete => exact hreports id (outcome_of_reports ht he hid)
    | withdrawn => 
        cases hid
        exact hok id (by simp [withdraws_of_event hs he])
    | _ => cases hid
  · intro h₁ e h₂ id heq hid hreg
    rcases Machine.append_eq_append_cons heq with ⟨h₂', hold, rfl⟩ | ⟨es₁, -, hes⟩
    · exact ht.gone (hI.gone h₁ e h₂' id hold hid fun s' hs' => hreg s' (by simp [hs']))
        fun s' hs' => hreg s' (by simp [hs'])
    · have he : e ∈ es := by simp [hes]
      exact ht.gone (hreports id (outcome_of_reports ht he hid))
        fun s' hs' => absurd hs' (ht.not_registered he hid s')
  · intro h₁ e h₂ c s hs' h₃ heq hid
    have hsplit : h ++ es = (h₁ ++ e :: h₂) ++ .connection c s (.found hs') :: h₃ := by
      rw [heq]
      simp
    rcases Machine.append_eq_append_cons hsplit with ⟨h₃', hold, -⟩ | ⟨es₁, hh₁, hes⟩
    · exact hI.lookups h₁ e h₂ c s hs' h₃' (by rw [hold]; simp) hid
    · obtain ⟨rfl, inp, conn, conn', -, hc, -, hmove⟩ := step_connection_event ht hes
      cases hmove with
      | found hidle hfind =>
          by_contra hnone
          simp only [not_exists, not_and] at hnone
          obtain ⟨id, hl, -⟩ := findSession_some hfind
          obtain ⟨rfl, -⟩ := htoken.key id s hl
          rcases hI.gone h₁ e h₂ s.transferId (by simpa using hh₁.symm) hid hnone with hnot | hr
          · exact hnot (AList.lookup_isSome.mp (by
              rw [show w.manager.tables.sessions.lookup s.transferId = some s from hl]; rfl))
          · simp [show w.manager.tables.cleaning = .idle from hidle, Cleaning.removes] at hr
      | serves hserve =>
          have hhs := (serve_mode hserve).2.2.2
          simp [Effect.ofHandshake] at hhs

theorem consumedInv_reach {w : World κ H} {h : List (TransferEvent κ)}
    (hr : (transferMachine P H).Reach ReportsGone w h) : ConsumedInv w h := by
  refine hr.invariant_along ConsumedInv ?_ ?_
  · rintro w ⟨-, -, hm, -⟩
    refine { inStep := ?_, gone := by simp [ReportedGone], lookups := by simp }
    rw [hm]
    exact fun id hid => absurd hid (AList.notMem_empty id)
  · intro w h a w' es hr hI hok hs
    exact consumedInv_step (tokenInv_reach hr) hI hok hs

end Steps

/-! ## Concrete runs -/

end Iriseus.Core
