import Mathlib.Data.List.Infix
import Iriseus.Verified.Machine

/-!
# The write queue of a session: `WsSession::send` and `doWrite`

`send` posts a handler to the session's executor from any thread.  The handler
pushes the message on `m_writeQueue` and calls `doWrite` if the queue was
empty; `doWrite` hands the front of the queue to `async_write`; the completion
handler pops the front and calls `doWrite` again while there is more.  So an
empty queue means that no write is outstanding.

A completion with an error returns without popping.  The queue then stays
non-empty for good, and no later message is ever written: on a stream that is
still open, or that opens only afterwards, the session is wedged.

The executor runs one handler at a time, in any order here; `send` can post at
every moment, also while a handler runs.  Of Beast it is assumed that a write
begun while the stream is not open completes with an error and leaves the
stream alone.

## Main results

* `messages_in_order` — at most one write is outstanding, and the messages
  handed to `async_write` are a prefix of those whose handlers ran.
* `writer_not_wedged` — the condition under which the writer never wedges.
-/

namespace Iriseus.Core

open Iriseus.Verified

/-- The WebSocket stream as its writer sees it. -/
inductive StreamState where
  | handshake
  | opened
  | closed
  deriving DecidableEq, Repr

/-- The handler of the session that runs now. -/
inductive WriterHandler where
  | idle
  /-- Between a push, or a pop, and the `doWrite` it leads to. -/
  | doWrite
  deriving DecidableEq, Repr

/-- An outstanding `async_write`; `begunOpen` says whether the stream was open
when it was begun. -/
structure OutstandingWrite (μ : Type) where
  message : μ
  begunOpen : Bool
  deriving DecidableEq, Repr

/-- The writing side of a session.  `posted` are the handlers of `send` that
have not run. -/
structure SessionWriter (μ : Type) where
  stream : StreamState := .handshake
  posted : List μ := []
  writeQueue : List μ := []
  handler : WriterHandler := .idle
  writes : List (OutstandingWrite μ) := []
  deriving DecidableEq, Repr

/-- A call of `send`, a handler that runs, or what the network does. -/
inductive WriterAction (μ : Type) where
  | send (message : μ)
  /-- The `i`-th posted handler runs up to its `doWrite`. -/
  | run (i : Nat)
  | doWrite
  /-- The `i`-th outstanding write completes; `closes` says whether an error
  closes the stream. -/
  | complete (i : Nat) (ok : Bool) (closes : Bool)
  | handshake (ok : Bool)
  | close
  deriving DecidableEq, Repr

inductive WriterEvent (μ : Type) where
  /-- The handler of `send` has pushed the message. -/
  | ran (message : μ)
  /-- The message is handed to `async_write`. -/
  | wrote (message : μ)
  /-- A write completed without an error. -/
  | done (message : μ)
  /-- A write completed with an error. -/
  | failed (message : μ)
  deriving DecidableEq, Repr

section Writer

variable {μ : Type}

namespace SessionWriter

/-- The handler that `send` posts, up to its call of `doWrite`. -/
def push (w : SessionWriter μ) (message : μ) : SessionWriter μ :=
  let writeInProgress := !w.writeQueue.isEmpty
  { w with
    writeQueue := w.writeQueue ++ [message]
    handler := if writeInProgress then .idle else .doWrite }

def doWrite (w : SessionWriter μ) : SessionWriter μ × List (WriterEvent μ) :=
  match w.writeQueue with
  | [] => ({ w with handler := .idle }, [])
  | msg :: _ =>
      ({ w with
          handler := .idle
          writes := w.writes ++ [{ message := msg, begunOpen := w.stream = .opened }] },
        [.wrote msg])

/-- The completion handler of a write without an error, up to its call of
`doWrite`. -/
def pop (w : SessionWriter μ) : SessionWriter μ :=
  { w with
    writeQueue := w.writeQueue.tail
    handler := if w.writeQueue.tail.isEmpty then .idle else .doWrite }

end SessionWriter

def writerStep (w : SessionWriter μ) :
    WriterAction μ → Option (SessionWriter μ × List (WriterEvent μ))
  | .send message => some ({ w with posted := w.posted ++ [message] }, [])
  | .run i =>
      match w.handler, w.posted[i]? with
      | .idle, some message =>
          some (({ w with posted := w.posted.eraseIdx i } : SessionWriter μ).push message,
            [.ran message])
      | _, _ => none
  | .doWrite =>
      match w.handler with
      | .doWrite => some w.doWrite
      | .idle => none
  | .complete i ok closes =>
      match w.handler, w.writes[i]? with
      | .idle, some write =>
          let w' := { w with writes := w.writes.eraseIdx i }
          if ok then
            -- only a write begun on an open stream can succeed
            if write.begunOpen then some (w'.pop, [.done write.message]) else none
          else
            -- `if (ec) return;`: the message stays in the queue
            some ({ w' with
                stream := if write.begunOpen && closes then .closed else w.stream },
              [.failed write.message])
      | _, _ => none
  | .handshake ok =>
      match w.handler, w.stream with
      | .idle, .handshake =>
          some ({ w with stream := if ok then .opened else .closed }, [])
      | _, _ => none
  | .close => some ({ w with stream := .closed }, [])

def writerMachine (μ : Type) :
    Machine (SessionWriter μ) (WriterAction μ) (WriterEvent μ) where
  Init w := w = {}
  step := writerStep

/-- What a step can do. -/
inductive WriterStep (w : SessionWriter μ) :
    WriterAction μ → SessionWriter μ → List (WriterEvent μ) → Prop
  | send (message : μ) :
      WriterStep w (.send message) { w with posted := w.posted ++ [message] } []
  | run (i : Nat) (message : μ) (hidle : w.handler = .idle) :
      WriterStep w (.run i)
        (({ w with posted := w.posted.eraseIdx i } : SessionWriter μ).push message)
        [.ran message]
  | doWrite (hdue : w.handler = .doWrite) : WriterStep w .doWrite w.doWrite.1 w.doWrite.2
  | done (i : Nat) (closes : Bool) (write : OutstandingWrite μ) (hidle : w.handler = .idle)
      (hwrite : w.writes[i]? = some write) :
      WriterStep w (.complete i true closes)
        ({ w with writes := w.writes.eraseIdx i } : SessionWriter μ).pop [.done write.message]
  | failed (i : Nat) (closes : Bool) (write : OutstandingWrite μ) (hidle : w.handler = .idle)
      (hwrite : w.writes[i]? = some write) :
      WriterStep w (.complete i false closes)
        { w with
          writes := w.writes.eraseIdx i
          stream := if write.begunOpen && closes then .closed else w.stream }
        [.failed write.message]
  | handshake (ok : Bool) :
      WriterStep w (.handshake ok) { w with stream := if ok then .opened else .closed } []
  | close : WriterStep w .close { w with stream := .closed } []

theorem writerStep_cases {w w' : SessionWriter μ} {a : WriterAction μ}
    {es : List (WriterEvent μ)} (hs : writerStep w a = some (w', es)) :
    WriterStep w a w' es := by
  cases a with
  | send message =>
      cases hs
      exact .send message
  | run i =>
      simp only [writerStep] at hs
      split at hs
      · rename_i message hidle _
        cases hs
        exact .run i message hidle
      · cases hs
  | doWrite =>
      simp only [writerStep] at hs
      split at hs
      · rename_i hdue
        obtain ⟨rfl, rfl⟩ : w.doWrite.1 = w' ∧ w.doWrite.2 = es :=
          Prod.mk.inj (Option.some.inj hs)
        exact .doWrite hdue
      · cases hs
  | complete i ok closes =>
      simp only [writerStep] at hs
      split at hs
      · rename_i write hidle hwrite
        cases ok with
        | true =>
            rw [if_pos rfl] at hs
            split at hs
            · cases hs
              exact .done i closes write hidle hwrite
            · cases hs
        | false =>
            cases hs
            exact .failed i closes write hidle hwrite
      · cases hs
  | handshake ok =>
      simp only [writerStep] at hs
      split at hs
      · cases hs
        exact .handshake ok
      · cases hs
  | close =>
      cases hs
      exact .close

/-! ## What a history says about the messages -/

def WriterEvent.ran? : WriterEvent μ → Option μ
  | .ran message => some message
  | _ => none

def WriterEvent.wrote? : WriterEvent μ → Option μ
  | .wrote message => some message
  | _ => none

def WriterEvent.done? : WriterEvent μ → Option μ
  | .done message => some message
  | _ => none

def WriterEvent.isFailed : WriterEvent μ → Bool
  | .failed _ => true
  | _ => false

/-- The messages in the order their posted handlers ran. -/
def ranMessages (h : List (WriterEvent μ)) : List μ := h.filterMap WriterEvent.ran?

/-- The messages handed to `async_write`, in order. -/
def handedMessages (h : List (WriterEvent μ)) : List μ := h.filterMap WriterEvent.wrote?

/-- The messages whose write completed without an error, in order. -/
def doneMessages (h : List (WriterEvent μ)) : List μ := h.filterMap WriterEvent.done?

/-- Some write has completed with an error. -/
def hasFailed (h : List (WriterEvent μ)) : Bool := h.any WriterEvent.isFailed

attribute [simp] WriterEvent.ran? WriterEvent.wrote? WriterEvent.done?
  WriterEvent.isFailed

@[simp] theorem ranMessages_append (h h' : List (WriterEvent μ)) :
    ranMessages (h ++ h') = ranMessages h ++ ranMessages h' := List.filterMap_append

@[simp] theorem handedMessages_append (h h' : List (WriterEvent μ)) :
    handedMessages (h ++ h') = handedMessages h ++ handedMessages h' :=
  List.filterMap_append

@[simp] theorem doneMessages_append (h h' : List (WriterEvent μ)) :
    doneMessages (h ++ h') = doneMessages h ++ doneMessages h' := List.filterMap_append

@[simp] theorem hasFailed_append (h h' : List (WriterEvent μ)) :
    hasFailed (h ++ h') = (hasFailed h || hasFailed h') := List.any_append

@[simp] theorem ranMessages_single (e : WriterEvent μ) :
    ranMessages [e] = e.ran?.toList := by cases e <;> rfl

@[simp] theorem handedMessages_single (e : WriterEvent μ) :
    handedMessages [e] = e.wrote?.toList := by cases e <;> rfl

@[simp] theorem doneMessages_single (e : WriterEvent μ) :
    doneMessages [e] = e.done?.toList := by cases e <;> rfl

@[simp] theorem hasFailed_single (e : WriterEvent μ) : hasFailed [e] = e.isFailed := by
  simp [hasFailed]

/-! ## The invariant -/

/-- Where the writer stands: in every phase but the last, the queue is empty
exactly when no write is due. -/
inductive WriterPhase (w : SessionWriter μ) (h : List (WriterEvent μ)) : Prop
  | quiet (hqueue : w.writeQueue = []) (hhandler : w.handler = .idle)
      (hwrites : w.writes = []) (hhanded : handedMessages h = doneMessages h)
      (hfailed : hasFailed h = false)
  | starting (hqueue : w.writeQueue ≠ []) (hhandler : w.handler = .doWrite)
      (hwrites : w.writes = []) (hhanded : handedMessages h = doneMessages h)
      (hfailed : hasFailed h = false)
  | writing (write : OutstandingWrite μ) (rest : List μ)
      (hqueue : w.writeQueue = write.message :: rest) (hhandler : w.handler = .idle)
      (hwrites : w.writes = [write])
      (hhanded : handedMessages h = doneMessages h ++ [write.message])
      (hfailed : hasFailed h = false)
  /-- A write has failed: its message stays at the front. -/
  | wedged (message : μ) (rest : List μ) (hqueue : w.writeQueue = message :: rest)
      (hhandler : w.handler = .idle) (hwrites : w.writes = [])
      (hhanded : handedMessages h = doneMessages h ++ [message])
      (hfailed : hasFailed h = true)

/-- What ran has been written or waits in the queue, in this order. -/
structure WriterInv (w : SessionWriter μ) (h : List (WriterEvent μ)) : Prop where
  conserved : ranMessages h = doneMessages h ++ w.writeQueue
  phase : WriterPhase w h

theorem writerInv_init : WriterInv ({} : SessionWriter μ) [] where
  conserved := rfl
  phase := .quiet rfl rfl rfl rfl rfl

/-- A change of the stream or of the posted handlers keeps the phase. -/
theorem WriterPhase.frame {w w' : SessionWriter μ} {h : List (WriterEvent μ)}
    (hp : WriterPhase w h) (hqueue' : w'.writeQueue = w.writeQueue)
    (hhandler' : w'.handler = w.handler) (hwrites' : w'.writes = w.writes) :
    WriterPhase w' h := by
  cases hp with
  | quiet hq hh hw hhanded hf =>
      exact .quiet (hqueue'.trans hq) (hhandler'.trans hh) (hwrites'.trans hw) hhanded hf
  | starting hq hh hw hhanded hf =>
      exact .starting (by rwa [hqueue']) (hhandler'.trans hh) (hwrites'.trans hw) hhanded hf
  | writing write rest hq hh hw hhanded hf =>
      exact .writing write rest (hqueue'.trans hq) (hhandler'.trans hh) (hwrites'.trans hw)
        hhanded hf
  | wedged front rest hq hh hw hhanded hf =>
      exact .wedged front rest (hqueue'.trans hq) (hhandler'.trans hh) (hwrites'.trans hw)
        hhanded hf

/-- Nothing observable happens, and the queue stays. -/
theorem WriterInv.frame {w w' : SessionWriter μ} {h : List (WriterEvent μ)}
    (hI : WriterInv w h) (hqueue' : w'.writeQueue = w.writeQueue)
    (hhandler' : w'.handler = w.handler) (hwrites' : w'.writes = w.writes) :
    WriterInv w' (h ++ []) where
  conserved := by
    rw [List.append_nil, hqueue']
    exact hI.conserved
  phase := by
    rw [List.append_nil]
    exact hI.phase.frame hqueue' hhandler' hwrites'

/-- A handler of `send` runs: the message goes to the end of the queue. -/
theorem WriterInv.run {w : SessionWriter μ} {h : List (WriterEvent μ)}
    (hI : WriterInv w h) (hidle : w.handler = .idle) (message : μ) (posted : List μ) :
    WriterInv (({ w with posted := posted } : SessionWriter μ).push message)
      (h ++ [.ran message]) where
  conserved := by simp [SessionWriter.push, hI.conserved]
  phase := by
    cases hI.phase with
    | quiet hq hh hw hhand hf =>
        exact .starting (by simp [SessionWriter.push]) (by simp [SessionWriter.push, hq]) hw
          (by simp [hhand]) (by simp [hf])
    | starting hq hh hw hhand hf =>
        rw [hidle] at hh
        cases hh
    | writing write rest hq hh hw hhand hf =>
        exact .writing write (rest ++ [message]) (by simp [SessionWriter.push, hq])
          (by simp [SessionWriter.push, hq]) hw (by simp [hhand]) (by simp [hf])
    | wedged front rest hq hh hw hhand hf =>
        exact .wedged front (rest ++ [message]) (by simp [SessionWriter.push, hq])
          (by simp [SessionWriter.push, hq]) hw (by simp [hhand]) (by simp [hf])

/-- `doWrite` begins the one outstanding write, of the front of the queue. -/
theorem WriterInv.doWrite {w : SessionWriter μ} {h : List (WriterEvent μ)}
    (hI : WriterInv w h) (hhandler : w.handler = .doWrite) :
    WriterInv w.doWrite.1 (h ++ w.doWrite.2) := by
  have hdue : w.writeQueue ≠ [] ∧ w.writes = [] ∧ handedMessages h = doneMessages h ∧
      hasFailed h = false := by
    cases hI.phase with
    | starting hq hh hw hhand hf => exact ⟨hq, hw, hhand, hf⟩
    | quiet hq hh | writing write rest hq hh | wedged front rest hq hh =>
        rw [hhandler] at hh
        cases hh
  obtain ⟨hq, hw, hhand, hf⟩ := hdue
  cases hqueue : w.writeQueue with
  | nil => exact absurd hqueue hq
  | cons front rest =>
      have hstep : w.doWrite = ({ w with
          handler := .idle
          writes := [{ message := front, begunOpen := w.stream = .opened }] },
          [.wrote front]) := by
        simp [SessionWriter.doWrite, hqueue, hw]
      rw [hstep]
      refine { conserved := ?_, phase := ?_ }
      · simp [hI.conserved]
      · exact .writing _ rest hqueue rfl rfl (by simp [hhand]) (by simp [hf])

/-- The outstanding write is the front of the queue. -/
theorem WriterInv.write {w : SessionWriter μ} {h : List (WriterEvent μ)}
    (hI : WriterInv w h) {i : Nat} {write : OutstandingWrite μ}
    (hwrite : w.writes[i]? = some write) :
    i = 0 ∧ w.writes = [write] ∧ (∃ rest, w.writeQueue = write.message :: rest) ∧
      handedMessages h = doneMessages h ++ [write.message] ∧ hasFailed h = false := by
  cases hI.phase with
  | writing write' rest hq hh hw hhand hf =>
      rw [hw] at hwrite
      obtain ⟨hi, hget⟩ := List.getElem?_eq_some_iff.mp hwrite
      obtain rfl : i = 0 := by simpa using hi
      obtain rfl : write' = write := hget
      exact ⟨rfl, hw, ⟨rest, hq⟩, hhand, hf⟩
  | quiet hq hh hw | starting hq hh hw | wedged front rest hq hh hw =>
      rw [hw] at hwrite
      cases hwrite

/-- A write completes without an error: its message leaves the queue. -/
theorem WriterInv.complete {w : SessionWriter μ} {h : List (WriterEvent μ)}
    (hI : WriterInv w h) {i : Nat} {write : OutstandingWrite μ}
    (hwrite : w.writes[i]? = some write) :
    WriterInv ({ w with writes := w.writes.eraseIdx i } : SessionWriter μ).pop
      (h ++ [.done write.message]) := by
  obtain ⟨rfl, hw, ⟨rest, hq⟩, hhand, hf⟩ := hI.write hwrite
  refine { conserved := ?_, phase := ?_ }
  · simp [SessionWriter.pop, hI.conserved, hq]
  · by_cases hrest : rest = []
    · exact .quiet (by simp [SessionWriter.pop, hq, hrest])
        (by simp [SessionWriter.pop, hq, hrest]) (by simp [SessionWriter.pop, hw])
        (by simp [hhand]) (by simp [hf])
    · exact .starting (by simp [SessionWriter.pop, hq, hrest])
        (by simp [SessionWriter.pop, hq, hrest]) (by simp [SessionWriter.pop, hw])
        (by simp [hhand]) (by simp [hf])

/-- A write completes with an error: its message stays at the front. -/
theorem WriterInv.fail {w : SessionWriter μ} {h : List (WriterEvent μ)}
    (hI : WriterInv w h) {i : Nat} {write : OutstandingWrite μ}
    (hidle : w.handler = .idle) (hwrite : w.writes[i]? = some write) (stream : StreamState) :
    WriterInv { w with writes := w.writes.eraseIdx i, stream := stream }
      (h ++ [.failed write.message]) := by
  obtain ⟨rfl, hw, ⟨rest, hq⟩, hhand, hf⟩ := hI.write hwrite
  refine { conserved := ?_, phase := ?_ }
  · simp [hI.conserved]
  · exact .wedged write.message rest hq hidle (by simp [hw]) (by simp [hhand]) (by simp)

/-- **One step.**  Every step keeps the queue in order. -/
theorem writerInv_step {w w' : SessionWriter μ} {h es : List (WriterEvent μ)}
    {a : WriterAction μ} (hI : WriterInv w h) (hs : writerStep w a = some (w', es)) :
    WriterInv w' (h ++ es) := by
  cases writerStep_cases hs with
  | send message => exact hI.frame rfl rfl rfl
  | run i message hidle => exact hI.run hidle message _
  | doWrite hdue => exact hI.doWrite hdue
  | done i closes write hidle hwrite => exact hI.complete hwrite
  | failed i closes write hidle hwrite => exact hI.fail hidle hwrite _
  | handshake ok => exact hI.frame rfl rfl rfl
  | close => exact hI.frame rfl rfl rfl

theorem writerInv_reach {ok : Machine.StepCond (SessionWriter μ) (WriterAction μ)
    (WriterEvent μ)} {w : SessionWriter μ} {h : List (WriterEvent μ)}
    (hr : (writerMachine μ).Reach ok w h) : WriterInv w h := by
  refine Machine.Reach.invariant _ ?_ ?_ hr
  · rintro w rfl
    exact writerInv_init
  · intro w h a w' es hI _ hs
    exact writerInv_step hI hs

/-! ## Order -/

/-- **Messages leave in order, once each.**  In every reachable state at most
one `async_write` is outstanding, and the messages ever handed to it are a
prefix of the messages in the order their handlers ran. -/
theorem messages_in_order {w : SessionWriter μ} {h : List (WriterEvent μ)}
    (hr : (writerMachine μ).Reach Machine.anyStep w h) :
    w.writes.length ≤ 1 ∧ handedMessages h <+: ranMessages h := by
  have hI := writerInv_reach hr
  rw [hI.conserved]
  cases hI.phase with
  | quiet hq hh hw hhand | starting hq hh hw hhand =>
      exact ⟨by simp [hw], by simp [hhand]⟩
  | writing write rest hq hh hw hhand =>
      exact ⟨by simp [hw], by simp [hhand, hq]⟩
  | wedged front rest hq hh hw hhand =>
      exact ⟨by simp [hw], by simp [hhand, hq]⟩

/-! ## Progress -/

/-- While the stream is open and messages wait, a write is outstanding; not
judged between a push, or a pop, and its `doWrite`. -/
def NotWedged (w : SessionWriter μ) : Prop :=
  w.stream = .opened → w.handler = .idle → w.writeQueue ≠ [] → w.writes ≠ []

/-- A write begun while the stream was open fails only if the stream closes;
one begun earlier does not fail while the stream is open; and the handshake
succeeds only if no write has failed before. -/
def FailuresClose : Machine.StepCond (SessionWriter μ) (WriterAction μ) (WriterEvent μ) :=
  fun w h a =>
    match a with
    | .complete i false closes =>
        w.stream = .opened → closes = true ∧ w.writes[i]?.any (·.begunOpen) = true
    | .handshake true => hasFailed h = false
    | _ => True

instance : ∀ (w : SessionWriter μ) h a, Decidable (FailuresClose w h a) := by
  intro w h a
  unfold FailuresClose
  split <;> infer_instance

/-- With the writer wedged the property fails exactly on an open stream. -/
theorem notWedged_iff {w : SessionWriter μ} {h : List (WriterEvent μ)}
    (hI : WriterInv w h) : NotWedged w ↔ w.stream = .opened → hasFailed h = false := by
  cases hI.phase with
  | quiet hq hh hw hhand hf => simp [NotWedged, hq, hf]
  | starting hq hh hw hhand hf => simp [NotWedged, hh, hf]
  | writing write rest hq hh hw hhand hf => simp [NotWedged, hw, hf]
  | wedged front rest hq hh hw hhand hf => simp [NotWedged, hq, hh, hw, hf]

/-- **One step.**  A step keeps the writer going if and only if it meets
`FailuresClose`. -/
theorem notWedged_step {w w' : SessionWriter μ} {h es : List (WriterEvent μ)}
    {a : WriterAction μ} (hI : WriterInv w h) (hgoing : NotWedged w)
    (hs : writerStep w a = some (w', es)) : NotWedged w' ↔ FailuresClose w h a := by
  have hI' := writerInv_step hI hs
  rw [notWedged_iff hI']
  rw [notWedged_iff hI] at hgoing
  cases writerStep_cases hs with
  | send message => simpa [FailuresClose] using hgoing
  | run i message hidle => simpa [FailuresClose, SessionWriter.push] using hgoing
  | doWrite hdue =>
      cases hqueue : w.writeQueue with
      | nil => simpa [FailuresClose, SessionWriter.doWrite, hqueue] using hgoing
      | cons front rest => simpa [FailuresClose, SessionWriter.doWrite, hqueue] using hgoing
  | done i closes write hidle hwrite =>
      simpa [FailuresClose, SessionWriter.pop] using hgoing
  | failed i closes write hidle hwrite =>
      cases hopen : write.begunOpen <;> cases closes <;>
        simp [FailuresClose, hwrite, hopen]
  | handshake ok => cases ok <;> simp [FailuresClose]
  | close => simp [FailuresClose]

/-- **The writer does not wedge, exactly under `FailuresClose`.**  After any
run whose steps all meet the condition a write is outstanding while messages
wait on an open stream, and the next step keeps it so if and only if it meets
the condition. -/
theorem writer_not_wedged {w : SessionWriter μ} {h : List (WriterEvent μ)}
    (hr : (writerMachine μ).Reach FailuresClose w h) :
    NotWedged w ∧ ∀ a w' es, (writerMachine μ).step w a = some (w', es) →
      (NotWedged w' ↔ FailuresClose w h a) := by
  have hI := writerInv_reach hr
  have hgoing : NotWedged w := by
    refine hr.invariant_along (fun w _ => NotWedged w) ?_ ?_
    · rintro w rfl
      simp [NotWedged]
    · intro w h a w' es hr hgoing hok hs
      exact (notWedged_step (writerInv_reach hr) hgoing hs).mpr hok
  exact ⟨hgoing, fun a w' es hs => notWedged_step hI hgoing hs⟩

end Writer

/-! ## A writer that goes on and one that is wedged -/

/-- A handler of `send` runs while a write is outstanding, and a failed write
stays the last. -/
theorem messages_in_order_sample :
    ∃ (w : SessionWriter String) (h : List (WriterEvent String)),
      (writerMachine String).Reach Machine.anyStep w h ∧
      decide (handedMessages h = ["b", "a"] ∧ ranMessages h = ["b", "a", "c"]) = true ∧
      w.writes.length ≤ 1 ∧ handedMessages h <+: ranMessages h := by
  obtain ⟨w, h, hr, hh⟩ := Machine.exists_reach_of_exec (writerMachine String)
    Machine.anyStep (s := {}) rfl
    [.handshake true, .send "a", .send "b", .run 1, .doWrite, .run 0, .complete 0 true false,
      .send "c", .doWrite, .complete 0 false true, .run 0]
    (fun _ h => decide (handedMessages h = ["b", "a"] ∧ ranMessages h = ["b", "a", "c"]))
    (by decide +kernel)
  exact ⟨w, h, hr, hh, messages_in_order hr⟩

/-- Two messages are sent at once and written one after the other; a third
fails when the stream closes. -/
theorem writer_not_wedged_sample :
    ∃ (w : SessionWriter String) (h : List (WriterEvent String)),
      (writerMachine String).Reach FailuresClose w h ∧
      decide (handedMessages h = ["a", "b"] ∧ w.stream = .opened ∧
        w.writeQueue = ["b"] ∧ w.posted = ["c"]) = true ∧
      NotWedged w := by
  obtain ⟨w, h, hr, hh⟩ := Machine.exists_reach_of_exec (writerMachine String)
    FailuresClose (s := {}) rfl
    [.handshake true, .send "a", .send "b", .run 0, .doWrite, .run 0, .complete 0 true false,
      .send "c", .doWrite]
    (fun w h => decide (handedMessages h = ["a", "b"] ∧ w.stream = .opened ∧
      w.writeQueue = ["b"] ∧ w.posted = ["c"]))
    (by decide +kernel)
  exact ⟨w, h, hr, hh, (writer_not_wedged hr).1⟩

/-- A broadcast reaches the session while its handshake is pending: the write
fails, the handshake succeeds, and nothing is ever written. -/
theorem early_send_wedges :
    ¬∀ (w : SessionWriter String) (h : List (WriterEvent String)),
      (writerMachine String).Reach Machine.anyStep w h → NotWedged w := by
  intro hall
  obtain ⟨w, h, hr, hh⟩ := Machine.exists_reach_of_exec (writerMachine String)
    Machine.anyStep (s := {}) rfl
    [.send "a", .run 0, .doWrite, .complete 0 false false, .handshake true, .send "b",
      .run 0]
    (fun w _ => decide (w.stream = .opened ∧ w.handler = .idle ∧
      w.writeQueue = ["a", "b"] ∧ w.writes = []))
    (by decide +kernel)
  rw [decide_eq_true_iff] at hh
  obtain ⟨hopen, hidle, hqueue, hwrites⟩ := hh
  exact hall w h hr hopen hidle (by simp [hqueue]) hwrites

end Iriseus.Core
