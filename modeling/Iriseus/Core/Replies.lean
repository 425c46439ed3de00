import Iriseus.Core.Application

/-!
# Requests and replies on the control channel

Three messages ask for a reply: `hello` for `welcome`, `ping` for `pong` and
`pair_request` for a verdict.  Sessions send them in any order and number, while
`init` is still building the components, the user pairs and flips, and files are
moved.  Each is answered once, on its own session and in its turn, and nothing
but file messages is sent on a session without being asked for; the one request
that may stay unanswered is the last, when its handler ends the program.

## Main results

* `replies_exact` — replies and requests of every session, in every run.
-/

namespace Iriseus.Core

open Iriseus.Verified
open Iriseus.Verified.ByteStream
open Iriseus.Verified.Machine

variable {κ : Type}

/-! ## Requests and replies of a history -/

inductive Request where
  | hello
  | ping
  | pair
  deriving DecidableEq, Repr

inductive Reply where
  | welcome
  | pong
  | verdict (accepted : Bool)
  deriving DecidableEq, Repr

/-- What a reply answers. -/
def Reply.request : Reply → Request
  | .welcome => .hello
  | .pong => .ping
  | .verdict _ => .pair

/-- The reply a message asks for. -/
def MsgType.request? : MsgType → Option Request
  | .hello => some .hello
  | .ping => some .ping
  | .pairRequest => some .pair
  | _ => none

def Outgoing.reply? : Outgoing → Option Reply
  | .welcome _ _ => some .welcome
  | .pong => some .pong
  | .pairAccepted => some (.verdict true)
  | .pairRejected => some (.verdict false)
  | _ => none

def requestOf (sessionId : UInt64) : AppEvent κ → Option Request
  | .received _ id msg => if id = sessionId then msg.type.request? else none
  | _ => none

def replyOf (sessionId : UInt64) : AppEvent κ → Option Reply
  | .send id msg => if id = sessionId then msg.reply? else none
  | _ => none

/-- The verdict a message tells. -/
def verdictOf : AppEvent κ → Option Bool
  | .send _ .pairAccepted => some true
  | .send _ .pairRejected => some false
  | _ => none

/-- How a pairing request ended. -/
def outcomeOf : AppEvent κ → Option Bool
  | .pairing (.accepted _) => some true
  | .pairing .refused => some false
  | _ => none

/-- The requests of a session, in the order in which they were handled. -/
def requestsOf (sessionId : UInt64) (h : List (AppEvent κ)) : List Request :=
  h.filterMap (requestOf sessionId)

/-- The replies sent on a session. -/
def repliesOn (sessionId : UInt64) (h : List (AppEvent κ)) : List Reply :=
  h.filterMap (replyOf sessionId)

def verdictsOf (h : List (AppEvent κ)) : List Bool := h.filterMap verdictOf

def outcomesOf (h : List (AppEvent κ)) : List Bool := h.filterMap outcomeOf

section Histories

variable (h es : List (AppEvent κ)) (sessionId : UInt64)

@[simp] theorem requestsOf_append :
    requestsOf sessionId (h ++ es) = requestsOf sessionId h ++ requestsOf sessionId es :=
  List.filterMap_append

@[simp] theorem repliesOn_append :
    repliesOn sessionId (h ++ es) = repliesOn sessionId h ++ repliesOn sessionId es :=
  List.filterMap_append

@[simp] theorem verdictsOf_append : verdictsOf (h ++ es) = verdictsOf h ++ verdictsOf es :=
  List.filterMap_append

@[simp] theorem outcomesOf_append : outcomesOf (h ++ es) = outcomesOf h ++ outcomesOf es :=
  List.filterMap_append

end Histories

/-! ## What a handler sends -/

/-- The events ask for nothing, answer nothing and decide no pairing. -/
def AppEvent.mute : AppEvent κ → Bool
  | .received _ _ _ => false
  | .send _ _ => false
  | .pairing (.accepted _) => false
  | .pairing .refused => false
  | _ => true

/-- The events of a handler answer the request `k` of a session, if there is one, and
nothing else. -/
structure Answers (sessionId : UInt64) (k : Option Request) (es : List (AppEvent κ)) :
    Prop where
  asks : ∀ id, requestsOf id es = []
  replies : ∀ id, (repliesOn id es).map Reply.request = if id = sessionId then k.toList else []
  truthful : verdictsOf es = outcomesOf es
  only : ∀ id msg, .send id msg ∈ es → msg.reply?.isSome = true

theorem answers_mute {es : List (AppEvent κ)} (sessionId : UInt64)
    (hes : ∀ e ∈ es, e.mute = true) : Answers sessionId none es := by
  have hnone : ∀ {β : Type} (f : AppEvent κ → Option β),
      (∀ e, e.mute = true → f e = none) → es.filterMap f = [] := by
    intro β f hf
    exact List.filterMap_eq_nil_iff.mpr fun e he => hf e (hes e he)
  have hverdict : verdictsOf es = [] := hnone _ fun e he => by
    cases e <;> first | rfl | cases he
  have houtcome : outcomesOf es = [] := hnone _ fun e he => by
    match e, he with
    | .pairing (.offered _), _ | .pairing (.restored _), _ | .pairing (.threw _), _ => rfl
    | .server _, _ | .broadcast _, _ | .paired _, _ | .transfer _ _, _ | .streamMode _, _
    | .ended _, _ => rfl
  refine ⟨fun id => ?_, fun id => ?_, by rw [hverdict, houtcome], fun id msg hmem => ?_⟩
  · exact hnone _ fun e he => by cases e <;> first | rfl | cases he
  · have hreply : repliesOn id es = [] := hnone _ fun e he => by
      cases e <;> first | rfl | cases he
    simp [hreply]
  · cases hes _ hmem

theorem answers_transfers (sessionId : UInt64) (cause : Option (UInt64 × MsgType))
    (tes : List (TransferEvent κ)) :
    Answers sessionId none (tes.map fun e => .transfer cause e) := by
  refine answers_mute sessionId fun e he => ?_
  obtain ⟨te, -, rfl⟩ := List.mem_map.mp he
  rfl

section Steps

variable [DecidableEq κ] {H : IncrementalHash} {parse : Bytes → Option Json}
variable {kx : KxServer} {P : Platform κ}

open Application

omit [DecidableEq κ] in
/-- One reply, to the session that asked. -/
theorem answers_send (sessionId : UInt64) {msg : Outgoing} {r : Reply}
    (hreply : msg.reply? = some r) (hverdict : r.request ≠ .pair) :
    Answers sessionId (some r.request) [(.send sessionId msg : AppEvent κ)] where
  asks := fun _ => rfl
  replies := fun id => by
    by_cases hid : id = sessionId
    · simp [repliesOn, replyOf, hid, hreply]
    · simp [repliesOn, replyOf, hid, Ne.symm hid]
  truthful := by
    cases msg <;> cases hreply <;> first | rfl | exact absurd rfl hverdict
  only := by
    intro id m hmem
    cases List.mem_singleton.mp hmem
    rw [hreply]
    rfl

omit [DecidableEq κ] in
/-- The report of the paired device is neither a request nor a reply. -/
theorem filterMap_paired {β : Type} (f : AppEvent κ → Option β)
    (hf : ∀ d, f (.paired d) = none) {e : PairingEvent} {devices : List PairedDevice}
    {sessionId : UInt64} {msg : Outgoing} :
    List.filterMap f (.pairing e :: (devices.map fun device => .paired device.deviceId) ++
      [.send sessionId msg]) = List.filterMap f [.pairing e, .send sessionId msg] := by
  have hpaired : (devices.map fun device => AppEvent.paired device.deviceId).filterMap f =
      [] := by
    simp [List.filterMap_map, hf]
  simp only [List.cons_append, List.filterMap_cons, List.filterMap_append, hpaired,
    List.nil_append, List.filterMap_nil]

omit [DecidableEq κ] in
/-- A pairing request that does not throw is answered by its outcome. -/
theorem answers_pairRequest {app app' : Application κ H} {es : List (AppEvent κ)}
    {sessionId : UInt64} {payload : Json}
    (h : app.onPairRequest kx sessionId payload = .ok (app', es)) :
    Answers sessionId (some .pair) es := by
  simp only [onPairRequest, bind_eq_ok, mapError_eq_ok] at h
  obtain ⟨pin, -, pk, -, deviceId, -, deviceName, -, h⟩ := h
  cases hp : app.pairing with
  | none => simp [hp] at h
  | some p =>
      simp only [hp, bind_eq_ok, mapError_eq_ok, pure, Except.pure, Except.ok.injEq,
        Prod.mk.injEq] at h
      obtain ⟨ok, -, -, rfl⟩ := h
      generalize (p.handlePairRequest kx pin pk deviceId deviceName).onPaired = devices
      refine ⟨fun id => ?_, fun id => ?_, ?_, fun id msg hmem => ?_⟩
      · rw [requestsOf, filterMap_paired _ fun _ => rfl]
        cases ok <;> rfl
      · rw [repliesOn, filterMap_paired _ fun _ => rfl]
        by_cases hid : id = sessionId
        · subst hid
          cases ok <;>
            simp only [requestEvent, Bool.false_eq_true, if_false, if_true, List.filterMap_cons,
              replyOf, Outgoing.reply?, List.filterMap_nil] <;> rfl
        · cases ok <;> simp [requestEvent, replyOf, hid, Ne.symm hid]
      · rw [verdictsOf, outcomesOf, filterMap_paired verdictOf fun _ => rfl,
          filterMap_paired outcomeOf fun _ => rfl]
        cases ok <;> rfl
      · simp only [List.cons_append, List.mem_cons, List.mem_append, List.mem_map, reduceCtorEq,
          and_false, exists_false, false_or, List.not_mem_nil, or_false] at hmem
        cases hmem
        cases ok <;> rfl

omit [DecidableEq κ] in
/-- A file message is answered by the file manager, not here. -/
theorem answers_fileMessage {app app' : Application κ H} {es : List (AppEvent κ)}
    {sessionId : UInt64} {type : MsgType}
    {handler : FileTransferManager →
      Except JsonError (FileTransferManager × List (TransferEvent κ))}
    (h : app.onFileMessage sessionId type handler = .ok (app', es)) :
    Answers sessionId none es := by
  unfold onFileMessage at h
  split at h
  · cases h
    exact answers_mute sessionId (by simp)
  · simp only [bind_eq_ok, mapError_eq_ok, pure, Except.pure, Except.ok.injEq,
      Prod.mk.injEq] at h
    obtain ⟨r, -, -, rfl⟩ := h
    exact answers_transfers _ _ _

omit [DecidableEq κ] in
/-- **One message.**  A handler that does not throw answers its own message. -/
theorem answers_message {app app' : Application κ H} {es : List (AppEvent κ)}
    {sessionId : UInt64} {raw : Bytes} {token : ByteBlock kTokenSize}
    (h : app.handleMessage parse kx P sessionId raw token = .ok (app', es)) :
    Answers sessionId (parseMessage parse raw).type.request? es := by
  unfold handleMessage at h
  simp only at h
  generalize parseMessage parse raw = msg at h
  obtain ⟨type, payload⟩ := msg
  have hnone : es = [] → Answers sessionId none es := by
    rintro rfl
    exact answers_mute sessionId (by simp)
  cases type with
  | hello =>
      simp only [bind_eq_ok, mapError_eq_ok, pure, Except.pure, Except.ok.injEq,
        Prod.mk.injEq] at h
      obtain ⟨name, -, -, rfl⟩ := h
      exact answers_send sessionId (r := .welcome) rfl (by decide)
  | ping =>
      cases h
      exact answers_send sessionId (r := .pong) rfl (by decide)
  | pairRequest => exact answers_pairRequest h
  | setFlip =>
      simp only [bind_eq_ok, mapError_eq_ok, pure, Except.pure, Except.ok.injEq,
        Prod.mk.injEq] at h
      obtain ⟨flip, -, -, rfl⟩ := h
      exact hnone rfl
  | fileOffer | fileAccept | fileReject | fileComplete | fileCancel =>
      exact answers_fileMessage h
  | _ =>
      cases h
      exact hnone rfl

/-- A step that handles no message sends no reply. -/
theorem answers_step {app app' : Application κ H} {a : AppAction κ} {es : List (AppEvent κ)}
    (hmsg : ∀ n raw token, a ≠ .message n raw token)
    (h : appStep parse kx P app a = some (app', es)) :
    Answers 0 none es ∧ app'.ended = app.ended := by
  cases appStep_cases h with
  | init hinit =>
      obtain ⟨-, hended, -⟩ := initStep_frame hinit
      refine ⟨?_, hended⟩
      simp only [initStep] at hinit
      (repeat' split at hinit) <;>
        try cases hinit <;> exact answers_mute 0 (by simp [AppEvent.mute])
      · obtain ⟨m, w, tes, hm, hstep, rfl, rfl⟩ := transferMove_cases hinit
        exact answers_transfers _ _ _
  | connect | handshake | disconnect | createOffer =>
      exact ⟨answers_mute 0 (by simp [AppEvent.mute]), rfl⟩
  | message | throws => exact absurd rfl (hmsg _ _ _)
  | toggleFlip => exact ⟨answers_mute 0 (by simp [applyFlip, AppEvent.mute]), rfl⟩
  | @runTask task =>
      cases task <;>
        exact ⟨answers_mute 0 (by simp [Application.runTask, applyFlip, AppEvent.mute]), rfl⟩
  | transfers => exact ⟨answers_transfers _ _ _, rfl⟩

/-! ## Whole runs -/

/-- Every request has been answered, in its turn and on its session. -/
def Answered (h : List (AppEvent κ)) : Prop :=
  ∀ id, (repliesOn id h).map Reply.request = requestsOf id h

/-- The replies of a run.  The program ends in the handler of its last message. -/
structure RepliesExact {H : IncrementalHash} (app : Application κ H)
    (h : List (AppEvent κ)) : Prop where
  answered : app.ended = none → Answered h
  last : ∀ f, app.ended = some f →
    ∃ h₀ n id msg, h = h₀ ++ [.received n id msg, .ended f] ∧ Answered h₀
  truthful : verdictsOf h = outcomesOf h
  only : ∀ id msg, .send id msg ∈ h → msg.reply?.isSome = true

omit [DecidableEq κ] in
theorem Answered.append {h es : List (AppEvent κ)} (hI : Answered h)
    (hes : ∀ id, (repliesOn id es).map Reply.request = requestsOf id es) :
    Answered (h ++ es) := by
  intro id
  rw [repliesOn_append, requestsOf_append, List.map_append, hI id, hes id]

omit [DecidableEq κ] in
theorem ended_message {app app' : Application κ H} {sessionId : UInt64} {msg : ControlMessage}
    {es : List (AppEvent κ)} (h : MessageStep kx P app sessionId msg app' es) :
    app'.ended = app.ended := by
  cases h with
  | pairRequest _ hpair =>
      obtain ⟨⟨settings, pairing, rfl, -⟩, -⟩ := onPairRequest_frame hpair
      rfl
  | _ => rfl

/-- One step of a program that has not ended. -/
theorem repliesExact_step {app app' : Application κ H} {h es : List (AppEvent κ)}
    {a : AppAction κ} (hrun : app.ended = none) (hI : RepliesExact app h)
    (hs : appStep parse kx P app a = some (app', es)) : RepliesExact app' (h ++ es) := by
  have hdone := hI.answered hrun
  have hquiet : Answers 0 none es ∧ app'.ended = app.ended → RepliesExact app' (h ++ es) := by
    rintro ⟨ha, hended⟩
    refine ⟨fun _ => hdone.append fun id => ?_, fun f hf => ?_, ?_, fun id msg hmem => ?_⟩
    · rw [ha.replies id, ha.asks id]
      simp
    · rw [hended, hrun] at hf
      cases hf
    · rw [verdictsOf_append, outcomesOf_append, hI.truthful, ha.truthful]
    · rcases List.mem_append.mp hmem with hmem | hmem
      · exact hI.only id msg hmem
      · exact ha.only id msg hmem
  cases a with
  | message n raw token =>
      simp only [appStep] at hs
      split at hs
      · rename_i sessionId hn
        split at hs
        · rename_i hcan
          split at hs
          · rename_i app₁ es₁ hmsg
            cases hs
            have ha := answers_message hmsg
            have hended := ended_message (handleMessage_cases hcan hmsg)
            refine ⟨fun _ => hdone.append fun id => ?_, fun f hf => ?_, ?_,
              fun id msg hmem => ?_⟩
            · have hasks := ha.asks id
              have hreplies := ha.replies id
              simp only [repliesOn, requestsOf] at hasks hreplies ⊢
              simp only [List.filterMap_cons, replyOf, requestOf, hreplies]
              by_cases hid : id = sessionId
              · subst hid
                cases (parseMessage parse raw).type.request? <;> simp [hasks]
              · simp [hid, Ne.symm hid, hasks]
            · rw [hended, hrun] at hf
              cases hf
            · have htruthful := ha.truthful
              rw [verdictsOf_append, outcomesOf_append, hI.truthful]
              simp only [verdictsOf, outcomesOf] at htruthful ⊢
              simp only [List.filterMap_cons, verdictOf, outcomeOf, htruthful]
            · rcases List.mem_append.mp hmem with hmem | hmem
              · exact hI.only id msg hmem
              · exact ha.only id msg (by simpa using hmem)
          · rename_i f hmsg
            cases hs
            refine ⟨fun hnot => absurd hnot (by simp), fun f' hf' => ?_, ?_,
              fun id msg hmem => ?_⟩
            · cases hf'
              exact ⟨h, n, sessionId, _, rfl, hdone⟩
            · rw [verdictsOf_append, outcomesOf_append, hI.truthful]
              rfl
            · rcases List.mem_append.mp hmem with hmem | hmem
              · exact hI.only id msg hmem
              · simp at hmem
        · cases hs
      · cases hs
  | init kp ok | connect | handshake n ok | disconnect n | createOffer pcIp drawn
  | toggleFlip flip | runTask | transfers a =>
      exact hquiet (answers_step (by simp) hs)

/-- **Requests and replies.**  In every run of the program the replies sent on a session
are those its messages asked for, one each and in the same order, verdicts are the
outcomes of the pairing requests, and nothing else is sent unasked; only the message
in whose handler the program ends stays unanswered. -/
theorem replies_exact {ok : StepCond (Application κ H) (AppAction κ) (AppEvent κ)}
    {app : Application κ H} {h : List (AppEvent κ)}
    (hr : (appMachine parse kx P H).Reach ok app h) : RepliesExact app h := by
  refine hr.invariant (fun app h => RepliesExact app h) ?_ ?_
  · rintro app ⟨-, -, settings, fs, rfl⟩
    exact ⟨fun _ _ => rfl, fun f hf => absurd hf (by simp), rfl, by simp⟩
  · intro app h a app' es hI _ hstep
    obtain ⟨hrun, hs⟩ := appMachine_step hstep
    exact repliesExact_step hrun hI hs

end Steps

/-! ## A conversation -/

def talkMessages : List (String × Json) :=
  [ ("\x7b\"type\":\"hello\"\x7d", .object [("type", .string "hello")])
  , ("\x7b\"type\":\"ping\"\x7d", .object [("type", .string "ping")])
  , ("\x7b\"type\":\"pair_request\",\"pin\":\"000007\",\"pk\":\"" ++ sampleKey ++ "\"\x7d",
      .object [("type", .string "pair_request"), ("pin", .string "000007"),
        ("pk", .string sampleKey)]) ]

/-- Session `n` sends one of these messages. -/
def talk (n i : Nat) : AppAction String :=
  .message n (ascii ((talkMessages.map Prod.fst).getD i "")) (sampleToken 7)

/-- Two sessions talk at the same time; the second pairs, and the first, which presents
the same PIN later, is rejected. -/
theorem replies_exact_sample :
    ∃ (app : Application String sha256) (h : List (AppEvent String)),
      (repliesOn 1 h = [.welcome, .verdict false, .pong] ∧
        repliesOn 2 h = [.pong, .verdict true]) ∧ RepliesExact app h := by
  obtain ⟨app, h, hr, hh⟩ := exists_reach_of_exec
    (appMachine (parseTable talkMessages) sampleKx samplePlatform sha256) anyStep
    (s := sampleProgram) sampleProgram_init
    ([.connect, .handshake 0 true, .connect, .handshake 1 true, talk 0 0] ++ initActions ++
      [talk 1 1, .createOffer "192.168.0.2" 7, talk 1 2, talk 0 2, talk 0 1])
    (fun _ h => decide (repliesOn 1 h = [.welcome, .verdict false, .pong] ∧
      repliesOn 2 h = [.pong, .verdict true]))
    (by decide +kernel)
  exact ⟨app, h, decide_eq_true_iff.mp hh, replies_exact hr⟩

end Iriseus.Core
