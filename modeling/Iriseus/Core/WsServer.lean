import Mathlib.Data.List.AList
import Iriseus.Verified.Machine

/-!
# The session table: `WsServer`

Port of the accept loop and the table `m_sessions` of `WsServer.cpp`, with the
reading side of `WsSession.cpp`: the WebSocket handshake, then one outstanding
read after the other until a read fails.  These run on the io thread, so a step
is one completion handler.

`sendTo` is called from the Qt thread and from the threads of data connections
as well, and looks into the same table without a lock.  Here it is a step of its
own; what a lookup does while the io thread changes the table at the very same
time is undefined in C++ and is not modelled.

Three handlers decide about the table.  Accepting inserts a session; a failing
read reports the disconnection and removes it; a failing handshake returns at
once and leaves the session in the table for good.  `session_table_exact` says
that this is the only way, short of identifiers wrapping round, in which the
table departs from the live connections.
-/

namespace Iriseus.Core

open Iriseus.Verified

/-- Where the connection of an accepted session stands. -/
inductive LinkState where
  | handshake
  | reading
  /-- The WebSocket handshake failed. -/
  | refused
  /-- A read failed. -/
  | ended
  deriving DecidableEq, Repr

/-- The connection has not ended: the handshake is pending or a read
outstanding. -/
def LinkState.live : LinkState → Bool
  | .handshake => true
  | .reading => true
  | _ => false

/-- The sessions accepted so far, each with its identifier, and the table
`m_sessions`, which maps an identifier to one of them. -/
structure WsServer where
  nextId : UInt64 := 1
  accepted : List (UInt64 × LinkState) := []
  sessions : AList (fun _ : UInt64 => Nat) := ∅

/-- One completion handler, or one call that reaches the sessions through the
table. -/
inductive ServerAction where
  | accept
  /-- `async_accept` of session `n` ends. -/
  | handshake (n : Nat) (ok : Bool)
  /-- `async_read` of session `n` ends: it delivers a message, or fails. -/
  | read (n : Nat) (ok : Bool)
  | sendTo (sessionId : UInt64)
  | broadcast
  deriving DecidableEq, Repr

inductive ServerEvent where
  /-- `handleMessage` is called on session `n`. -/
  | delivered (n : Nat)
  /-- `removeSession` and `onDeviceDisconnected` are called for session `n`. -/
  | disconnected (n : Nat) (sessionId : UInt64)
  /-- `send` is called on session `n` through the table. -/
  | sent (n : Nat)
  deriving DecidableEq, Repr

namespace WsServer

/-- `doAccept`: `m_nextId.fetch_add(1)` and `m_sessions[id] = session`. -/
def accept (srv : WsServer) : WsServer where
  nextId := srv.nextId + 1
  accepted := srv.accepted ++ [(srv.nextId, .handshake)]
  sessions := srv.sessions.insert srv.nextId srv.accepted.length

def setLink (srv : WsServer) (n : Nat) (sessionId : UInt64) (link : LinkState) :
    WsServer :=
  { srv with accepted := srv.accepted.set n (sessionId, link) }

def removeSession (srv : WsServer) (sessionId : UInt64) : WsServer :=
  { srv with sessions := srv.sessions.erase sessionId }

end WsServer

def serverStep (srv : WsServer) : ServerAction → Option (WsServer × List ServerEvent)
  | .accept => some (srv.accept, [])
  | .handshake n ok =>
      match srv.accepted[n]? with
      | some (id, .handshake) =>
          -- on an error the handler returns, and nothing else is told
          some (srv.setLink n id (if ok then .reading else .refused), [])
      | _ => none
  | .read n ok =>
      match srv.accepted[n]? with
      | some (id, .reading) =>
          if ok then some (srv, [.delivered n])
          else some ((srv.setLink n id .ended).removeSession id, [.disconnected n id])
      | _ => none
  | .sendTo sessionId =>
      match srv.sessions.lookup sessionId with
      | some n => some (srv, [.sent n])
      | none => some (srv, [])
  | .broadcast => some (srv, srv.sessions.entries.map fun entry => .sent entry.2)

def serverMachine : Machine WsServer ServerAction ServerEvent where
  Init srv := srv = {}
  step := serverStep

/-! ## The table and the live connections -/

/-- Session `n` is disconnected. -/
def ServerEvent.disconnects (n : Nat) : ServerEvent → Bool
  | .disconnected m _ => m = n
  | _ => false

/-- Session `n` is called. -/
def ServerEvent.calls (n : Nat) : ServerEvent → Bool
  | .delivered m => m = n
  | .sent m => m = n
  | .disconnected _ _ => false

/-- A read of session `n` has failed. -/
def WsServer.hasEnded (srv : WsServer) (n : Nat) : Bool :=
  srv.accepted[n]?.any fun session => session.2 = .ended

/-- The table holds exactly the accepted sessions whose connection has not
ended; a session that ended after its handshake was disconnected once, any
other never; and a disconnected session is not called any more. -/
structure TableExact (srv : WsServer) (h : List ServerEvent) : Prop where
  exact : ∀ id n, srv.sessions.lookup id = some n ↔
    ∃ link, srv.accepted[n]? = some (id, link) ∧ link.live = true
  once : ∀ n, h.countP (ServerEvent.disconnects n) =
    if srv.hasEnded n = true then 1 else 0
  removed : ∀ n id h₁ h₂, h = h₁ ++ .disconnected n id :: h₂ →
    ∀ e ∈ h₂, e.calls n = false

/-- `id` is the identifier of a session whose connection has not ended. -/
def WsServer.inUse (srv : WsServer) (id : UInt64) : Bool :=
  srv.accepted.any fun session => session.1 = id && session.2.live

/-- No handshake fails, and no session is accepted under the identifier of one
whose connection has not ended. -/
def HandshakesSucceed : Machine.StepCond WsServer ServerAction ServerEvent :=
  fun srv _ a =>
    match a with
    | .accept => srv.inUse srv.nextId = false
    | .handshake _ ok => ok = true
    | _ => True

instance : ∀ srv h a, Decidable (HandshakesSucceed srv h a) := by
  intro srv h a
  cases a <;> unfold HandshakesSucceed <;> infer_instance

/-! ## One step -/

theorem getElem?_snoc {α : Type} {l : List α} {x y : α} {n : Nat} :
    (l ++ [x])[n]? = some y ↔ l[n]? = some y ∨ n = l.length ∧ x = y := by
  rw [List.getElem?_append]
  by_cases hlt : n < l.length
  · simp [hlt, Nat.ne_of_lt hlt]
  · have hnone : l[n]? = none := List.getElem?_eq_none (Nat.le_of_not_lt hlt)
    rw [if_neg hlt, hnone, List.getElem?_singleton]
    have hiff : n - l.length = 0 ↔ n = l.length := by omega
    by_cases heq : n = l.length
    · simp [heq]
    · simp [heq, hiff]

theorem getElem?_set_iff {α : Type} {l : List α} {x y : α} {n m : Nat}
    (hn : n < l.length) :
    (l.set n x)[m]? = some y ↔ m = n ∧ x = y ∨ m ≠ n ∧ l[m]? = some y := by
  by_cases hm : m = n
  · subst hm
    simp [List.getElem?_set_self hn]
  · simp [List.getElem?_set_ne (Ne.symm hm), hm]

theorem hasEnded_iff {srv : WsServer} {n : Nat} :
    srv.hasEnded n = true ↔ ∃ id, srv.accepted[n]? = some (id, .ended) := by
  unfold WsServer.hasEnded
  cases srv.accepted[n]? with
  | none => simp
  | some session =>
      obtain ⟨id, link⟩ := session
      simp

theorem tableExact_init : TableExact {} [] where
  exact := by simp
  once := by simp [WsServer.hasEnded]
  removed := by simp

theorem TableExact.ended {srv : WsServer} {h : List ServerEvent} (hI : TableExact srv h)
    {n : Nat} {id : UInt64} (hmem : .disconnected n id ∈ h) : srv.hasEnded n = true := by
  have hpos : 0 < h.countP (ServerEvent.disconnects n) :=
    List.countP_pos_iff.mpr ⟨_, hmem, by simp [ServerEvent.disconnects]⟩
  have honce := hI.once n
  split at honce
  · assumption
  · omega

/-- The handlers call live sessions only. -/
theorem serverStep_calls {srv srv' : WsServer} {h es : List ServerEvent}
    {a : ServerAction} (hI : TableExact srv h) (hs : serverStep srv a = some (srv', es))
    {n : Nat} (hended : srv.hasEnded n = true) : ∀ e ∈ es, e.calls n = false := by
  have htable : ∀ id m, srv.sessions.lookup id = some m → m ≠ n := by
    rintro id m hl rfl
    obtain ⟨link, hlink, hlive⟩ := (hI.exact id m).mp hl
    have hcases : link = .ended := by simpa [WsServer.hasEnded, hlink] using hended
    rw [hcases] at hlive
    cases hlive
  intro e he
  cases a with
  | accept =>
      cases hs
      cases he
  | handshake m ok =>
      simp only [serverStep] at hs
      split at hs
      · cases hs
        cases he
      · cases hs
  | read m ok =>
      simp only [serverStep] at hs
      split at hs
      · rename_i id hm
        have hne : m ≠ n := by
          rintro rfl
          simp [WsServer.hasEnded, hm] at hended
        split at hs
        · cases hs
          rw [List.mem_singleton.mp he]
          simpa [ServerEvent.calls] using hne
        · cases hs
          rw [List.mem_singleton.mp he]
          rfl
      · cases hs
  | sendTo id =>
      simp only [serverStep] at hs
      split at hs
      · rename_i m hl
        cases hs
        rw [List.mem_singleton.mp he]
        simpa [ServerEvent.calls] using htable id m hl
      · cases hs
        cases he
  | broadcast =>
      cases hs
      obtain ⟨⟨id, m⟩, hentry, rfl⟩ := List.mem_map.mp he
      have hl : srv.sessions.lookup id = some m := AList.mem_lookup_iff.mpr hentry
      simpa [ServerEvent.calls] using htable id m hl

/-- Disconnected sessions stay uncalled. -/
theorem TableExact.removed_step {srv srv' : WsServer} {h es : List ServerEvent}
    {a : ServerAction} (hI : TableExact srv h) (hs : serverStep srv a = some (srv', es)) :
    ∀ n id h₁ h₂, h ++ es = h₁ ++ .disconnected n id :: h₂ → ∀ e ∈ h₂, e.calls n = false := by
  intro n id h₁ h₂ heq e he
  rcases Machine.append_eq_append_cons heq with ⟨h₂', hold, rfl⟩ | ⟨es₁, -, hes⟩
  · rcases List.mem_append.mp he with hin | hin
    · exact hI.removed n id h₁ h₂' hold e hin
    · have hmem : ServerEvent.disconnected n id ∈ h := by simp [hold]
      have hended := hI.ended hmem
      exact serverStep_calls hI hs hended e hin
  · -- a disconnection is the only event of its step
    have hone : es.length ≤ 1 ∨ ∀ x ∈ es, ∀ m i, x ≠ .disconnected m i := by
      cases a with
      | accept | handshake | sendTo | read =>
          simp only [serverStep] at hs
          (repeat' split at hs) <;> cases hs <;> simp
      | broadcast =>
          cases hs
          right
          intro x hx m i heq
          obtain ⟨entry, -, rfl⟩ := List.mem_map.mp hx
          cases heq
    rcases hone with hlen | hnone
    · rw [hes] at hlen
      simp only [List.length_append, List.length_cons] at hlen
      have hnil : h₂ = [] := List.length_eq_zero_iff.mp (by omega)
      rw [hnil] at he
      cases he
    · exact absurd rfl (hnone _ (by simp [hes]) n id)

/-- A step that neither ends a connection nor reports one ended keeps the
number of disconnections. -/
theorem TableExact.once_of_same {srv srv' : WsServer} {h es : List ServerEvent}
    (hI : TableExact srv h)
    (hsame : ∀ n, srv'.hasEnded n = true ↔ srv.hasEnded n = true)
    (hes : ∀ n, ∀ e ∈ es, e.disconnects n = false) (n : Nat) :
    (h ++ es).countP (ServerEvent.disconnects n) =
      if srv'.hasEnded n = true then 1 else 0 := by
  have hnone : es.countP (ServerEvent.disconnects n) = 0 :=
    List.countP_eq_zero.mpr fun e he => by simp [hes n e he]
  rw [List.countP_append, hI.once n, hnone]
  simp [hsame n]

section Operations

variable {srv : WsServer} {h : List ServerEvent}

/-- The table holds the sessions whose connection has not ended. -/
def WsServer.Tracks (srv : WsServer) : Prop :=
  ∀ id n, srv.sessions.lookup id = some n ↔
    ∃ link, srv.accepted[n]? = some (id, link) ∧ link.live = true

/-- A session is accepted under a free identifier. -/
theorem tracks_accept (hI : srv.Tracks) (hfree : srv.inUse srv.nextId = false) :
    srv.accept.Tracks := by
  have hdead : ∀ (n : Nat) (link : LinkState), srv.accepted[n]? = some (srv.nextId, link) →
      link.live = false := by
    intro n link hn
    have hmem := List.mem_of_getElem? hn
    simp only [WsServer.inUse, List.any_eq_false] at hfree
    simpa using hfree _ hmem
  intro id n
  simp only [WsServer.accept, getElem?_snoc]
  by_cases hid : id = srv.nextId
  · subst hid
    rw [AList.lookup_insert, Option.some.injEq]
    constructor
    · rintro rfl
      exact ⟨.handshake, Or.inr ⟨rfl, rfl⟩, rfl⟩
    · rintro ⟨link, hold | ⟨rfl, -⟩, hlive⟩
      · rw [hdead n link hold] at hlive
        cases hlive
      · rfl
  · rw [AList.lookup_insert_ne hid, hI id n]
    have hne : ∀ link, (srv.nextId, LinkState.handshake) ≠ (id, link) := by
      intro link heq
      exact hid (congrArg Prod.fst heq).symm
    simp [hne]

/-- A handshake succeeds. -/
theorem tracks_handshake (hI : srv.Tracks) {n : Nat} {id : UInt64}
    (hn : srv.accepted[n]? = some (id, .handshake)) : (srv.setLink n id .reading).Tracks := by
  have hlt : n < srv.accepted.length := (List.getElem?_eq_some_iff.mp hn).1
  intro id' m
  simp only [WsServer.setLink, getElem?_set_iff hlt, hI id' m]
  by_cases hm : m = n
  · subst hm
    simp [hn, LinkState.live]
  · simp [hm]

/-- A read fails. -/
theorem tracks_end (hI : srv.Tracks) {n : Nat} {id : UInt64}
    (hn : srv.accepted[n]? = some (id, .reading)) :
    ((srv.setLink n id .ended).removeSession id).Tracks := by
  have hlt : n < srv.accepted.length := (List.getElem?_eq_some_iff.mp hn).1
  have hentry : srv.sessions.lookup id = some n := (hI id n).mpr ⟨.reading, hn, rfl⟩
  intro id' m
  simp only [WsServer.removeSession, WsServer.setLink, getElem?_set_iff hlt]
  by_cases hid : id' = id
  · subst hid
    have hnot : ∀ link : LinkState, m ≠ n → srv.accepted[m]? = some (id', link) →
        link.live = false := by
      intro link hm hold
      by_contra hlive
      have hother := (hI id' m).mpr ⟨link, hold, by simpa using hlive⟩
      rw [hentry, Option.some.injEq] at hother
      exact hm hother.symm
    rw [AList.lookup_erase]
    simp only [reduceCtorEq, false_iff, not_exists, not_and]
    rintro link (⟨-, heq⟩ | ⟨hm, hold⟩)
    · cases heq
      simp [LinkState.live]
    · simp [hnot link hm hold]
  · rw [AList.lookup_erase_ne hid, hI id' m]
    by_cases hm : m = n
    · subst hm
      have hne : id ≠ id' := Ne.symm hid
      simp [hn, hne]
    · simp [hm]

/-- The session whose read fails is disconnected for the first time. -/
theorem TableExact.once_end (hI : TableExact srv h) {n : Nat} {id : UInt64}
    (hn : srv.accepted[n]? = some (id, .reading)) (m : Nat) :
    (h ++ [ServerEvent.disconnected n id]).countP (ServerEvent.disconnects m) =
      if ((srv.setLink n id .ended).removeSession id).hasEnded m = true then 1 else 0 := by
  have hlt : n < srv.accepted.length := (List.getElem?_eq_some_iff.mp hn).1
  rw [List.countP_append, hI.once m]
  by_cases hm : m = n
  · subst hm
    have hnot : srv.hasEnded m = false := by simp [WsServer.hasEnded, hn]
    have hnow : ((srv.setLink m id .ended).removeSession id).hasEnded m = true :=
      hasEnded_iff.mpr ⟨id, by simp [WsServer.removeSession, WsServer.setLink, hlt]⟩
    simp [hnot, hnow, ServerEvent.disconnects]
  · have hsame : ((srv.setLink n id .ended).removeSession id).hasEnded m =
        srv.hasEnded m := by
      simp [WsServer.hasEnded, WsServer.removeSession, WsServer.setLink,
        List.getElem?_set_ne (Ne.symm hm)]
    have hne : n ≠ m := Ne.symm hm
    simp [hsame, ServerEvent.disconnects, hne]

end Operations

/-- **One step.**  A step without a failing handshake keeps the table exact. -/
theorem tableExact_step {srv srv' : WsServer} {h es : List ServerEvent}
    {a : ServerAction} (hI : TableExact srv h) (hok : HandshakesSucceed srv h a)
    (hs : serverStep srv a = some (srv', es)) : TableExact srv' (h ++ es) := by
  have hremoved := hI.removed_step hs
  cases a with
  | accept =>
      cases hs
      refine { exact := tracks_accept hI.exact hok, once := ?_, removed := hremoved }
      refine hI.once_of_same (fun n => ?_) (by simp)
      simp only [hasEnded_iff, WsServer.accept, getElem?_snoc]
      simp
  | handshake n ok =>
      simp only [HandshakesSucceed] at hok
      subst hok
      simp only [serverStep] at hs
      split at hs
      · rename_i id hn
        cases hs
        have hlt : n < srv.accepted.length := (List.getElem?_eq_some_iff.mp hn).1
        refine { exact := tracks_handshake hI.exact hn, once := ?_, removed := hremoved }
        refine hI.once_of_same (fun m => ?_) (by simp)
        simp only [hasEnded_iff, WsServer.setLink, getElem?_set_iff hlt]
        by_cases hm : m = n
        · subst hm
          simp [hn]
        · simp [hm]
      · cases hs
  | read n ok =>
      simp only [serverStep] at hs
      split at hs
      · rename_i id hn
        split at hs
        · cases hs
          exact { exact := hI.exact, removed := hremoved
                  once := hI.once_of_same (fun _ => Iff.rfl)
                    (by simp [ServerEvent.disconnects]) }
        · cases hs
          exact { exact := tracks_end hI.exact hn, once := hI.once_end hn
                  removed := hremoved }
      · cases hs
  | sendTo id =>
      simp only [serverStep] at hs
      split at hs
      · cases hs
        exact { exact := hI.exact, removed := hremoved
                once := hI.once_of_same (fun _ => Iff.rfl) (by simp [ServerEvent.disconnects]) }
      · cases hs
        exact { exact := hI.exact, removed := hremoved
                once := hI.once_of_same (fun _ => Iff.rfl) (by simp) }
  | broadcast =>
      cases hs
      refine { exact := hI.exact, removed := hremoved,
               once := hI.once_of_same (fun _ => Iff.rfl) ?_ }
      intro n e he
      obtain ⟨entry, -, rfl⟩ := List.mem_map.mp he
      rfl

/-- A failing handshake leaves a dead session in the table, and an identifier
in use is taken from its session. -/
theorem not_tableExact_step {srv srv' : WsServer} {h es : List ServerEvent}
    {a : ServerAction} (hI : TableExact srv h) (hbad : ¬HandshakesSucceed srv h a)
    (hs : serverStep srv a = some (srv', es)) : ¬TableExact srv' (h ++ es) := by
  intro hI'
  cases a with
  | accept =>
      simp only [HandshakesSucceed, Bool.not_eq_false, WsServer.inUse, List.any_eq_true,
        Bool.and_eq_true, decide_eq_true_eq] at hbad
      obtain ⟨⟨id, link⟩, hmem, rfl, hlive⟩ := hbad
      obtain ⟨n, hn⟩ := List.mem_iff_getElem?.mp hmem
      cases hs
      have hlt : n < srv.accepted.length := (List.getElem?_eq_some_iff.mp hn).1
      have hold := (hI'.exact srv.nextId n).mpr
        ⟨link, by simp [WsServer.accept, getElem?_snoc, hn], hlive⟩
      simp only [WsServer.accept, AList.lookup_insert, Option.some.injEq] at hold
      omega
  | handshake n ok =>
      simp only [HandshakesSucceed, Bool.not_eq_true] at hbad
      subst hbad
      simp only [serverStep] at hs
      split at hs
      · rename_i id hn
        cases hs
        have hlt : n < srv.accepted.length := (List.getElem?_eq_some_iff.mp hn).1
        have hentry : srv.sessions.lookup id = some n :=
          (hI.exact id n).mpr ⟨.handshake, hn, rfl⟩
        obtain ⟨link, hlink, hlive⟩ := (hI'.exact id n).mp hentry
        simp only [WsServer.setLink, getElem?_set_iff hlt] at hlink
        rcases hlink with ⟨-, heq⟩ | ⟨hne, -⟩
        · cases heq
          cases hlive
        · exact hne rfl
      · cases hs
  | read n ok => exact hbad trivial
  | sendTo id => exact hbad trivial
  | broadcast => exact hbad trivial

/-- **The table tracks the live connections, exactly under
`HandshakesSucceed`.**  After any run whose steps all meet the condition the
table is exact, and the next step keeps it exact if and only if it meets the
condition. -/
theorem session_table_exact {srv : WsServer} {h : List ServerEvent}
    (hr : serverMachine.Reach HandshakesSucceed srv h) :
    TableExact srv h ∧ ∀ a srv' es, serverMachine.step srv a = some (srv', es) →
      (TableExact srv' (h ++ es) ↔ HandshakesSucceed srv h a) := by
  have hI : TableExact srv h := by
    refine Machine.Reach.invariant _ ?_ ?_ hr
    · rintro srv rfl
      exact tableExact_init
    · intro srv h a srv' es hI hok hs
      exact tableExact_step hI hok hs
  refine ⟨hI, fun a srv' es hs => ⟨fun hI' => ?_, fun hok => tableExact_step hI hok hs⟩⟩
  by_contra hbad
  exact not_tableExact_step hI hbad hs hI'

/-- Two sessions, of which the first ends. -/
theorem session_table_exact_sample :
    ∃ srv h, serverMachine.Reach HandshakesSucceed srv h ∧
      decide (h = [.delivered 0, .sent 0, .sent 1, .disconnected 0 1, .sent 1]) = true ∧
      TableExact srv h := by
  obtain ⟨srv, h, hr, hh⟩ := Machine.exists_reach_of_exec serverMachine HandshakesSucceed
    (s := {}) rfl
    [.accept, .handshake 0 true, .accept, .handshake 1 true, .read 0 true, .sendTo 1,
      .sendTo 2, .read 0 false, .broadcast]
    (fun _ h => decide (h = [.delivered 0, .sent 0, .sent 1, .disconnected 0 1, .sent 1]))
    (by decide +kernel)
  exact ⟨srv, h, hr, hh, (session_table_exact hr).1⟩

/-- A session whose handshake fails stays in the table, and broadcasts still
reach it. -/
theorem refused_session_kept :
    ¬∀ srv h, serverMachine.Reach Machine.anyStep srv h → TableExact srv h := by
  intro hall
  obtain ⟨srv, h, hr, hh⟩ := Machine.exists_reach_of_exec serverMachine Machine.anyStep
    (s := {}) rfl [.accept, .handshake 0 false, .broadcast]
    (fun srv h => decide (srv.sessions.lookup 1 = some 0 ∧
      srv.accepted = [(1, .refused)] ∧ h = [.sent 0]))
    (by decide +kernel)
  rw [decide_eq_true_iff] at hh
  obtain ⟨hentry, haccepted, -⟩ := hh
  obtain ⟨link, hlink, hlive⟩ := ((hall srv h hr).exact 1 0).mp hentry
  rw [haccepted] at hlink
  cases hlink
  cases hlive

end Iriseus.Core
