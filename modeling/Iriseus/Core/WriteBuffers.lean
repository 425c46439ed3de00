import Mathlib.Data.List.InsertIdx
import Iriseus.Core.SessionWriter

/-!
# The strings of a session's writes

The write queue of `SessionWriter` with the identity of every `std::string` and
what owns it: the captures of a posted handler, an element of `m_writeQueue`, or
the scope of a function that runs.  `send` copies the message into the handler it
posts, the handler copies it into the queue, and `doWrite` copies the front of the
queue into the local `msg`.  `asio::buffer(msg)` views that local, and the
completion handler captures `self` only.

`async_write` returns before the transfer completes, and reads the buffer until
then.  `doWrite` returns first, and `msg` is destroyed.

## Main results

* `bufferMachine_simulates` — the strings aside, this is the queue of
  `SessionWriter`.
* `outstanding_not_owned` — no outstanding write has its string in the queue or in
  its handler.
* `viewed_freed` — after `doWrite` has returned, nothing owns the string.
* `bytes_outlive_iff` — the bytes of the writes outlive them, exactly if none is
  begun.
-/

namespace Iriseus.Core

open Iriseus.Verified

/-- A `std::string`: which object it is, and what it holds. -/
structure OwnedString (μ : Type) where
  id : Nat
  value : μ
  deriving DecidableEq, Repr

/-- An outstanding `async_write`. -/
structure ViewedWrite (μ : Type) where
  /-- The string its buffer views. -/
  viewed : Nat
  message : μ
  /-- The strings its completion handler has captured. -/
  captures : List (OwnedString μ)
  begunOpen : Bool
  deriving DecidableEq, Repr

/-- The handler of the session that runs now. -/
inductive BufferHandler where
  | idle
  /-- Between a push, or a pop, and the `doWrite` it leads to. -/
  | doWrite
  /-- `doWrite` is about to return, and the handler with it. -/
  | returning
  deriving DecidableEq, Repr

/-- The writing side of a session.  `posted` are the captures of the handlers of
`send` that have not run, `scope` the strings of the handler that runs and of the
`doWrite` it has called, and `next` is an identity that no string has had. -/
structure WriteBuffers (μ : Type) where
  stream : StreamState := .handshake
  posted : List (OwnedString μ) := []
  writeQueue : List (OwnedString μ) := []
  handler : BufferHandler := .idle
  scope : List (OwnedString μ) := []
  writes : List (ViewedWrite μ) := []
  next : Nat := 0
  deriving DecidableEq, Repr

inductive BufferAction (μ : Type) where
  | writer (a : WriterAction μ)
  /-- `doWrite` returns: the strings of the scope are destroyed. -/
  | ret
  deriving DecidableEq, Repr

section Buffers

variable {μ : Type}

namespace WriteBuffers

/-- `send` captures a copy of the message. -/
def send (w : WriteBuffers μ) (message : μ) : WriteBuffers μ :=
  let captured : OwnedString μ := { id := w.next, value := message }
  { w with posted := w.posted ++ [captured], next := w.next + 1 }

/-- The posted handler, up to its call of `doWrite`. -/
def push (w : WriteBuffers μ) (captured : OwnedString μ) : WriteBuffers μ :=
  let writeInProgress := !w.writeQueue.isEmpty
  let element : OwnedString μ := { id := w.next, value := captured.value }
  { w with
    writeQueue := w.writeQueue ++ [element]
    handler := if writeInProgress then .idle else .doWrite
    scope := if writeInProgress then [] else [captured]
    next := w.next + 1 }

def doWrite (w : WriteBuffers μ) : WriteBuffers μ × List (WriterEvent μ) :=
  match w.writeQueue with
  | [] => ({ w with handler := .returning }, [])
  | front :: _ =>
      let msg : OwnedString μ := { id := w.next, value := front.value }
      ({ w with
          handler := .returning
          scope := w.scope ++ [msg]
          -- the handler is `[self = shared_from_this()]`
          writes := w.writes ++ [{ viewed := msg.id, message := msg.value, captures := []
                                   begunOpen := w.stream = .opened }]
          next := w.next + 1 },
        [.wrote msg.value])

/-- The completion handler of a write without an error, up to its call of
`doWrite`. -/
def pop (w : WriteBuffers μ) : WriteBuffers μ :=
  { w with
    writeQueue := w.writeQueue.tail
    handler := if w.writeQueue.tail.isEmpty then .idle else .doWrite }

end WriteBuffers

def bufferStep (w : WriteBuffers μ) :
    BufferAction μ → Option (WriteBuffers μ × List (WriterEvent μ))
  | .writer (.send message) => some (w.send message, [])
  | .writer (.run i) =>
      match w.handler, w.posted[i]? with
      | .idle, some captured =>
          some (({ w with posted := w.posted.eraseIdx i } : WriteBuffers μ).push captured,
            [.ran captured.value])
      | _, _ => none
  | .writer .doWrite =>
      match w.handler with
      | .doWrite => some w.doWrite
      | _ => none
  | .ret =>
      match w.handler with
      | .returning => some ({ w with handler := .idle, scope := [] }, [])
      | _ => none
  | .writer (.complete i ok closes) =>
      match w.handler, w.writes[i]? with
      | .idle, some write =>
          let w' := { w with writes := w.writes.eraseIdx i }
          if ok then
            if write.begunOpen then some (w'.pop, [.done write.message]) else none
          else
            some ({ w' with
                stream := if write.begunOpen && closes then .closed else w.stream },
              [.failed write.message])
      | _, _ => none
  | .writer (.handshake ok) =>
      match w.handler, w.stream with
      | .idle, .handshake =>
          some ({ w with stream := if ok then .opened else .closed }, [])
      | _, _ => none
  | .writer .close => some ({ w with stream := .closed }, [])

def bufferMachine (μ : Type) :
    Machine (WriteBuffers μ) (BufferAction μ) (WriterEvent μ) where
  Init w := w = {}
  step := bufferStep

/-- What a step can do. -/
inductive BufferStep (w : WriteBuffers μ) :
    BufferAction μ → WriteBuffers μ → List (WriterEvent μ) → Prop
  | send (message : μ) : BufferStep w (.writer (.send message)) (w.send message) []
  | run (i : Nat) (captured : OwnedString μ) (hidle : w.handler = .idle)
      (hposted : w.posted[i]? = some captured) :
      BufferStep w (.writer (.run i))
        (({ w with posted := w.posted.eraseIdx i } : WriteBuffers μ).push captured)
        [.ran captured.value]
  | doWrite (hdue : w.handler = .doWrite) :
      BufferStep w (.writer .doWrite) w.doWrite.1 w.doWrite.2
  | ret (hreturning : w.handler = .returning) :
      BufferStep w .ret { w with handler := .idle, scope := [] } []
  | done (i : Nat) (closes : Bool) (write : ViewedWrite μ) (hidle : w.handler = .idle)
      (hwrite : w.writes[i]? = some write) (hopen : write.begunOpen = true) :
      BufferStep w (.writer (.complete i true closes))
        ({ w with writes := w.writes.eraseIdx i } : WriteBuffers μ).pop [.done write.message]
  | failed (i : Nat) (closes : Bool) (write : ViewedWrite μ) (hidle : w.handler = .idle)
      (hwrite : w.writes[i]? = some write) :
      BufferStep w (.writer (.complete i false closes))
        { w with
          writes := w.writes.eraseIdx i
          stream := if write.begunOpen && closes then .closed else w.stream }
        [.failed write.message]
  | handshake (ok : Bool) (hidle : w.handler = .idle) (hstream : w.stream = .handshake) :
      BufferStep w (.writer (.handshake ok))
        { w with stream := if ok then .opened else .closed } []
  | close : BufferStep w (.writer .close) { w with stream := .closed } []

theorem bufferStep_cases {w w' : WriteBuffers μ} {a : BufferAction μ}
    {es : List (WriterEvent μ)} (hs : bufferStep w a = some (w', es)) :
    BufferStep w a w' es := by
  cases a with
  | ret =>
      simp only [bufferStep] at hs
      split at hs
      · rename_i hreturning
        cases hs
        exact .ret hreturning
      · cases hs
  | writer a =>
      cases a with
      | send message =>
          cases hs
          exact .send message
      | run i =>
          simp only [bufferStep] at hs
          split at hs
          · rename_i captured hidle hposted
            cases hs
            exact .run i captured hidle hposted
          · cases hs
      | doWrite =>
          simp only [bufferStep] at hs
          split at hs
          · rename_i hdue
            obtain ⟨rfl, rfl⟩ : w.doWrite.1 = w' ∧ w.doWrite.2 = es :=
              Prod.mk.inj (Option.some.inj hs)
            exact .doWrite hdue
          · cases hs
      | complete i ok closes =>
          simp only [bufferStep] at hs
          split at hs
          · rename_i write hidle hwrite
            cases ok with
            | true =>
                rw [if_pos rfl] at hs
                split at hs
                · rename_i hopen
                  cases hs
                  exact .done i closes write hidle hwrite hopen
                · cases hs
            | false =>
                cases hs
                exact .failed i closes write hidle hwrite
          · cases hs
      | handshake ok =>
          simp only [bufferStep] at hs
          split at hs
          · rename_i hidle hstream
            cases hs
            exact .handshake ok hidle hstream
          · cases hs
      | close =>
          cases hs
          exact .close

/-! ## The queue without the identities -/

def BufferHandler.forget : BufferHandler → WriterHandler
  | .doWrite => .doWrite
  | .idle | .returning => .idle

namespace WriteBuffers

/-- What `SessionWriter` has of the state. -/
def forget (w : WriteBuffers μ) : SessionWriter μ where
  stream := w.stream
  posted := w.posted.map (·.value)
  writeQueue := w.writeQueue.map (·.value)
  handler := w.handler.forget
  writes := w.writes.map fun write =>
    { message := write.message, begunOpen := write.begunOpen }

theorem forget_push (w : WriteBuffers μ) (captured : OwnedString μ) :
    (w.push captured).forget = w.forget.push captured.value := by
  simp only [forget, push, SessionWriter.push, List.map_append, List.map_cons, List.map_nil,
    List.isEmpty_map, apply_ite BufferHandler.forget]
  rfl

theorem forget_doWrite (w : WriteBuffers μ) :
    (w.doWrite.1.forget, w.doWrite.2) = w.forget.doWrite := by
  cases hqueue : w.writeQueue with
  | nil => simp [doWrite, SessionWriter.doWrite, forget, BufferHandler.forget, hqueue]
  | cons front rest => simp [doWrite, SessionWriter.doWrite, forget, BufferHandler.forget, hqueue]

theorem forget_pop (w : WriteBuffers μ) : w.pop.forget = w.forget.pop := by
  simp only [forget, pop, SessionWriter.pop, ← List.map_tail, List.isEmpty_map,
    apply_ite BufferHandler.forget]
  rfl

end WriteBuffers

/-- A step is one of the write queue; only the return of `doWrite` is none. -/
theorem BufferStep.forget {w w' : WriteBuffers μ} {a : BufferAction μ}
    {es : List (WriterEvent μ)} (hs : BufferStep w a w' es) :
    (∃ b, writerStep w.forget b = some (w'.forget, es)) ∨ (w'.forget = w.forget ∧ es = []) := by
  cases hs with
  | send message =>
      exact Or.inl ⟨.send message, by simp [writerStep, WriteBuffers.send, WriteBuffers.forget]⟩
  | run i captured hidle hposted =>
      refine Or.inl ⟨.run i, ?_⟩
      rw [WriteBuffers.forget_push]
      simp [writerStep, WriteBuffers.forget, BufferHandler.forget, hidle, hposted,
        List.eraseIdx_map]
  | doWrite hdue =>
      refine Or.inl ⟨.doWrite, ?_⟩
      have hforget : w.forget.handler = .doWrite := by
        simp [WriteBuffers.forget, BufferHandler.forget, hdue]
      rw [writerStep, hforget, ← WriteBuffers.forget_doWrite]
  | ret hreturning =>
      exact Or.inr ⟨by simp [WriteBuffers.forget, BufferHandler.forget, hreturning], rfl⟩
  | done i closes write hidle hwrite hopen =>
      refine Or.inl ⟨.complete i true closes, ?_⟩
      rw [WriteBuffers.forget_pop]
      simp [writerStep, WriteBuffers.forget, BufferHandler.forget, hidle, hwrite, hopen,
        List.eraseIdx_map]
  | failed i closes write hidle hwrite =>
      refine Or.inl ⟨.complete i false closes, ?_⟩
      simp [writerStep, WriteBuffers.forget, BufferHandler.forget, hidle, hwrite,
        List.eraseIdx_map]
  | handshake ok hidle hstream =>
      refine Or.inl ⟨.handshake ok, ?_⟩
      simp [writerStep, WriteBuffers.forget, BufferHandler.forget, hidle, hstream]
  | close => exact Or.inl ⟨.close, by simp [writerStep, WriteBuffers.forget]⟩

/-- **Simulation.**  The identities of the strings aside, every run is a run of the
write queue. -/
theorem bufferMachine_simulates {cond : Machine.StepCond (WriteBuffers μ) (BufferAction μ)
    (WriterEvent μ)} {w : WriteBuffers μ} {h : List (WriterEvent μ)}
    (hr : (bufferMachine μ).Reach cond w h) :
    (writerMachine μ).Reach Machine.anyStep w.forget h := by
  refine hr.simulate WriteBuffers.forget ?_ fun w a w' es hs => (bufferStep_cases hs).forget
  rintro w rfl
  rfl

/-! ## Owners -/

namespace WriteBuffers

/-- The strings that have an owner. -/
def owned (w : WriteBuffers μ) : List (OwnedString μ) :=
  w.posted ++ w.writeQueue ++ w.scope ++ w.writes.flatMap (·.captures)

/-- A string that exists, and that no write views. -/
def Apart (w : WriteBuffers μ) (s : OwnedString μ) : Prop :=
  s.id < w.next ∧ ∀ write ∈ w.writes, write.viewed ≠ s.id

theorem Apart.mono {w w' : WriteBuffers μ} {s : OwnedString μ} (hs : w.Apart s)
    (hnext : w.next ≤ w'.next) (hwrites : w'.writes ⊆ w.writes) : w'.Apart s :=
  ⟨Nat.lt_of_lt_of_le hs.1 hnext, fun write hwrite => hs.2 write (hwrites hwrite)⟩

end WriteBuffers

/-- The string that a write views is an element of the queue or a capture of the
completion handler. -/
def OwnedWhileWriting (w : WriteBuffers μ) (write : ViewedWrite μ) : Prop :=
  (∃ s ∈ w.writeQueue, s.id = write.viewed) ∨ ∃ s ∈ write.captures, s.id = write.viewed

/-- The bytes of the outstanding writes outlive them. -/
def BytesOutlive (w : WriteBuffers μ) : Prop :=
  ∀ write ∈ w.writes, OwnedWhileWriting w write

/-- Writes view strings of their own: none of the queue or of a posted handler, and
none of a scope except before `doWrite` returns. -/
structure BufferInv (w : WriteBuffers μ) : Prop where
  posted : ∀ s ∈ w.posted, w.Apart s
  writeQueue : ∀ s ∈ w.writeQueue, w.Apart s
  scope : w.handler ≠ .returning → ∀ s ∈ w.scope, w.Apart s
  viewed_lt : ∀ write ∈ w.writes, write.viewed < w.next
  captures : ∀ write ∈ w.writes, write.captures = []

theorem bufferInv_init : BufferInv ({} : WriteBuffers μ) where
  posted _ hs := by cases hs
  writeQueue _ hs := by cases hs
  scope _ _ hs := by cases hs
  viewed_lt _ hwrite := by cases hwrite
  captures _ hwrite := by cases hwrite

section Steps

variable {w w' : WriteBuffers μ}

/-- Strings and writes go, and none comes. -/
theorem BufferInv.frame (hI : BufferInv w) (hnext : w'.next = w.next)
    (hposted : w'.posted ⊆ w.posted) (hqueue : w'.writeQueue ⊆ w.writeQueue)
    (hscope : w'.scope = [] ∨ w'.scope = w.scope ∧ (w.handler = .returning →
      w'.handler = .returning))
    (hwrites : w'.writes ⊆ w.writes) : BufferInv w' where
  posted s hs := (hI.posted s (hposted hs)).mono hnext.ge hwrites
  writeQueue s hs := (hI.writeQueue s (hqueue hs)).mono hnext.ge hwrites
  scope hhandler s hs := by
    rcases hscope with hnone | ⟨hsame, hreturning⟩
    · rw [hnone] at hs
      cases hs
    · rw [hsame] at hs
      exact (hI.scope (fun h => hhandler (hreturning h)) s hs).mono hnext.ge hwrites
  viewed_lt write hwrite := by
    rw [hnext]
    exact hI.viewed_lt write (hwrites hwrite)
  captures write hwrite := hI.captures write (hwrites hwrite)

/-- The next identity is that of a string no write views. -/
theorem BufferInv.apart_next (hI : BufferInv w) (w' : WriteBuffers μ) (hnext : w.next < w'.next)
    (hwrites : w'.writes = w.writes) (value : μ) : w'.Apart { id := w.next, value := value } := by
  refine ⟨hnext, fun write hwrite => ?_⟩
  rw [hwrites] at hwrite
  exact Nat.ne_of_lt (hI.viewed_lt write hwrite)

theorem BufferInv.send (hI : BufferInv w) (message : μ) : BufferInv (w.send message) where
  posted s hs := by
    rcases List.mem_append.mp hs with hs | hs
    · exact (hI.posted s hs).mono (Nat.le_succ _) (List.Subset.refl _)
    · rw [List.mem_singleton.mp hs]
      exact hI.apart_next (w.send message) (Nat.lt_succ_self w.next) rfl message
  writeQueue s hs := (hI.writeQueue s hs).mono (Nat.le_succ _) (List.Subset.refl _)
  scope hhandler s hs := (hI.scope hhandler s hs).mono (Nat.le_succ _) (List.Subset.refl _)
  viewed_lt write hwrite := Nat.lt_succ_of_lt (hI.viewed_lt write hwrite)
  captures := hI.captures

theorem BufferInv.push (hI : BufferInv w) {captured : OwnedString μ}
    (hcaptured : w.Apart captured) : BufferInv (w.push captured) where
  posted s hs := (hI.posted s hs).mono (Nat.le_succ _) (List.Subset.refl _)
  writeQueue s hs := by
    rcases List.mem_append.mp hs with hs | hs
    · exact (hI.writeQueue s hs).mono (Nat.le_succ _) (List.Subset.refl _)
    · rw [List.mem_singleton.mp hs]
      exact hI.apart_next (w.push captured) (Nat.lt_succ_self w.next) rfl captured.value
  scope _ s hs := by
    simp only [WriteBuffers.push] at hs
    split at hs
    · cases hs
    · rw [List.mem_singleton.mp hs]
      exact hcaptured.mono (Nat.le_succ _) (List.Subset.refl _)
  viewed_lt write hwrite := Nat.lt_succ_of_lt (hI.viewed_lt write hwrite)
  captures := hI.captures

/-- `doWrite` begins a write of a string that is in its scope only. -/
theorem BufferInv.doWrite (hI : BufferInv w) : BufferInv w.doWrite.1 := by
  cases hqueue : w.writeQueue with
  | nil =>
      have hstep : w.doWrite.1 = { w with handler := .returning } := by
        simp [WriteBuffers.doWrite, hqueue]
      rw [hstep]
      exact hI.frame rfl (List.Subset.refl _) (List.Subset.refl _)
        (Or.inr ⟨rfl, fun _ => rfl⟩) (List.Subset.refl _)
  | cons front rest =>
      have hapart : ∀ s, w.Apart s → w.doWrite.1.Apart s := by
        intro s hs
        simp only [WriteBuffers.doWrite, hqueue, WriteBuffers.Apart, List.mem_append,
          List.mem_singleton]
        refine ⟨Nat.lt_succ_of_lt hs.1, ?_⟩
        rintro write (hwrite | rfl)
        · exact hs.2 write hwrite
        · exact Nat.ne_of_gt hs.1
      have hwrites : ∀ write ∈ w.doWrite.1.writes, write ∈ w.writes ∨
          write.viewed = w.next ∧ write.captures = [] := by
        intro write hwrite
        simp only [WriteBuffers.doWrite, hqueue, List.mem_append, List.mem_singleton] at hwrite
        rcases hwrite with hwrite | rfl
        · exact Or.inl hwrite
        · exact Or.inr ⟨rfl, rfl⟩
      have hnext : w.doWrite.1.next = w.next + 1 := by simp [WriteBuffers.doWrite, hqueue]
      refine
        { posted := fun s hs => hapart s (hI.posted s ?_)
          writeQueue := fun s hs => hapart s (hI.writeQueue s ?_)
          scope := fun hhandler => absurd ?_ hhandler
          viewed_lt := ?_
          captures := ?_ }
      · simpa [WriteBuffers.doWrite, hqueue] using hs
      · simpa [WriteBuffers.doWrite, hqueue] using hs
      · simp [WriteBuffers.doWrite, hqueue]
      · intro write hwrite
        rw [hnext]
        rcases hwrites write hwrite with hold | ⟨hviewed, -⟩
        · exact Nat.lt_succ_of_lt (hI.viewed_lt write hold)
        · rw [hviewed]
          exact Nat.lt_succ_self _
      · intro write hwrite
        rcases hwrites write hwrite with hold | ⟨-, hcaptures⟩
        · exact hI.captures write hold
        · exact hcaptures

/-- **One step.** -/
theorem bufferInv_step {a : BufferAction μ} {es : List (WriterEvent μ)} (hI : BufferInv w)
    (hs : BufferStep w a w' es) : BufferInv w' := by
  cases hs with
  | send message => exact hI.send message
  | run i captured hidle hposted =>
      have hrest : BufferInv { w with posted := w.posted.eraseIdx i } :=
        hI.frame rfl List.eraseIdx_subset (List.Subset.refl _) (Or.inr ⟨rfl, id⟩)
          (List.Subset.refl _)
      exact hrest.push (hI.posted captured (List.mem_of_getElem? hposted))
  | doWrite hdue => exact hI.doWrite
  | ret hreturning =>
      exact hI.frame rfl (List.Subset.refl _) (List.Subset.refl _) (Or.inl rfl)
        (List.Subset.refl _)
  | done i closes write hidle hwrite hopen =>
      have hnot : w.handler ≠ .returning := by simp [hidle]
      exact hI.frame rfl (List.Subset.refl _) (List.tail_subset _)
        (Or.inr ⟨rfl, fun h => absurd h hnot⟩) List.eraseIdx_subset
  | failed i closes write hidle hwrite =>
      exact hI.frame rfl (List.Subset.refl _) (List.Subset.refl _) (Or.inr ⟨rfl, id⟩)
        List.eraseIdx_subset
  | handshake ok hidle hstream =>
      exact hI.frame rfl (List.Subset.refl _) (List.Subset.refl _) (Or.inr ⟨rfl, id⟩)
        (List.Subset.refl _)
  | close =>
      exact hI.frame rfl (List.Subset.refl _) (List.Subset.refl _) (Or.inr ⟨rfl, id⟩)
        (List.Subset.refl _)

theorem bufferInv_reach {cond : Machine.StepCond (WriteBuffers μ) (BufferAction μ)
    (WriterEvent μ)} {h : List (WriterEvent μ)} (hr : (bufferMachine μ).Reach cond w h) :
    BufferInv w := by
  refine Machine.Reach.invariant (fun w _ => BufferInv w) ?_ ?_ hr
  · rintro w rfl
    exact bufferInv_init
  · intro w h a w' es hI _ hs
    exact bufferInv_step hI (bufferStep_cases hs)

/-! ## The viewed strings -/

theorem BufferInv.not_owned (hI : BufferInv w) {write : ViewedWrite μ}
    (hwrite : write ∈ w.writes) : ¬OwnedWhileWriting w write := by
  rintro (⟨s, hs, hviewed⟩ | ⟨s, hs, -⟩)
  · exact (hI.writeQueue s hs).2 write hwrite hviewed.symm
  · rw [hI.captures write hwrite] at hs
    cases hs

/-- In no reachable state the string of an outstanding write is owned until the
completion. -/
theorem outstanding_not_owned {cond : Machine.StepCond (WriteBuffers μ) (BufferAction μ)
    (WriterEvent μ)} {h : List (WriterEvent μ)} (hr : (bufferMachine μ).Reach cond w h)
    {write : ViewedWrite μ} (hwrite : write ∈ w.writes) : ¬OwnedWhileWriting w write :=
  (bufferInv_reach hr).not_owned hwrite

theorem BufferInv.bytesOutlive_iff (hI : BufferInv w) : BytesOutlive w ↔ w.writes = [] := by
  constructor
  · intro houtlive
    exact List.eq_nil_iff_forall_not_mem.mpr fun write hwrite =>
      hI.not_owned hwrite (houtlive write hwrite)
  · intro hnone write hwrite
    rw [hnone] at hwrite
    cases hwrite

/-- **After `doWrite` has returned** nothing owns the string an outstanding write
views, although its message is still the front of the queue. -/
theorem viewed_freed {cond : Machine.StepCond (WriteBuffers μ) (BufferAction μ)
    (WriterEvent μ)} {h : List (WriterEvent μ)} (hr : (bufferMachine μ).Reach cond w h)
    (hreturned : w.handler ≠ .returning) {write : ViewedWrite μ} (hwrite : write ∈ w.writes) :
    (∀ s ∈ w.owned, s.id ≠ write.viewed) ∧
      ∃ front rest, w.writeQueue = front :: rest ∧ front.value = write.message := by
  have hI := bufferInv_reach hr
  constructor
  · intro s hs
    have hapart : w.Apart s := by
      simp only [WriteBuffers.owned, List.mem_append, List.mem_flatMap] at hs
      rcases hs with ((hs | hs) | hs) | ⟨other, hother, hs⟩
      · exact hI.posted s hs
      · exact hI.writeQueue s hs
      · exact hI.scope hreturned s hs
      · rw [hI.captures other hother] at hs
        cases hs
    exact (hapart.2 write hwrite).symm
  · obtain ⟨i, hi⟩ := List.mem_iff_getElem?.mp hwrite
    have hforget : w.forget.writes[i]? =
        some { message := write.message, begunOpen := write.begunOpen } := by
      simp [WriteBuffers.forget, hi]
    obtain ⟨-, -, ⟨rest, hqueue⟩, -⟩ :=
      (writerInv_reach (bufferMachine_simulates hr)).write hforget
    obtain ⟨front, rest', hfront, hvalue, -⟩ := List.map_eq_cons_iff.mp hqueue
    exact ⟨front, rest', hfront, hvalue⟩

/-- `doWrite` finds no message in the queue, so that it begins no write. -/
def NoWriteBegun : Machine.StepCond (WriteBuffers μ) (BufferAction μ) (WriterEvent μ) :=
  fun w _ a =>
    match a with
    | .writer .doWrite => w.writeQueue = []
    | _ => True

instance : ∀ (w : WriteBuffers μ) h a, Decidable (NoWriteBegun w h a) := by
  intro w h a
  unfold NoWriteBegun
  split <;> infer_instance

/-- A step begins a write unless it meets `NoWriteBegun`. -/
theorem writes_step {a : BufferAction μ} {h es : List (WriterEvent μ)} (hnone : w.writes = [])
    (hs : BufferStep w a w' es) : w'.writes = [] ↔ NoWriteBegun w h a := by
  cases hs with
  | doWrite hdue =>
      cases hqueue : w.writeQueue with
      | nil => simp [WriteBuffers.doWrite, hqueue, NoWriteBegun, hnone]
      | cons front rest => simp [WriteBuffers.doWrite, hqueue, NoWriteBegun]
  | done i closes write hidle hwrite | failed i closes write hidle hwrite =>
      rw [hnone] at hwrite
      cases hwrite
  | send | run | ret | handshake | close => exact iff_of_true hnone trivial

end Steps

/-- **The bytes of the writes outlive them, exactly if none is begun.**  In no run an
outstanding write has its string owned.  In a run in which `doWrite` never finds a
message no write is outstanding, and a next step keeps it so if and only if it is no
`doWrite` that finds one. -/
theorem bytes_outlive_iff {w : WriteBuffers μ} {h : List (WriterEvent μ)}
    (hr : (bufferMachine μ).Reach Machine.anyStep w h) :
    (∀ write ∈ w.writes, ¬OwnedWhileWriting w write) ∧
      ((bufferMachine μ).Reach NoWriteBegun w h →
        BytesOutlive w ∧ ∀ a w' es, (bufferMachine μ).step w a = some (w', es) →
          (BytesOutlive w' ↔ NoWriteBegun w h a)) := by
  refine ⟨fun write hwrite => outstanding_not_owned hr hwrite, fun hquiet => ?_⟩
  have hI := bufferInv_reach hr
  have hnone : w.writes = [] := by
    refine hquiet.invariant (fun w _ => w.writes = []) ?_ ?_
    · rintro w rfl
      rfl
    · intro w h a w' es hnone hcond hs
      exact (writes_step hnone (bufferStep_cases hs)).mpr hcond
  refine ⟨hI.bytesOutlive_iff.mpr hnone, fun a w' es hs => ?_⟩
  have hs := bufferStep_cases hs
  rw [(bufferInv_step hI hs).bytesOutlive_iff]
  exact writes_step hnone hs

end Buffers

/-- Messages wait in their handlers, and the handshake goes on. -/
theorem bytes_outlive_sample :
    ∃ (w : WriteBuffers String) (h : List (WriterEvent String)),
      (bufferMachine String).Reach NoWriteBegun w h ∧
      decide (w.posted = [⟨1, "b"⟩] ∧ w.writeQueue = [⟨2, "a"⟩]) = true ∧ BytesOutlive w := by
  obtain ⟨w, h, hr, hh⟩ := Machine.exists_reach_of_exec (bufferMachine String)
    NoWriteBegun (s := {}) rfl
    [.writer (.handshake true), .writer (.send "a"), .writer (.send "b"), .writer (.run 0)]
    (fun w _ => decide (w.posted = [⟨1, "b"⟩] ∧ w.writeQueue = [⟨2, "a"⟩]))
    (by decide +kernel)
  exact ⟨w, h, hr, hh, ((bytes_outlive_iff hr.any).2 hr).1⟩

/-- One message on an open stream: the queue has the string 1, and the write views
the string 2, which is gone. -/
theorem write_views_freed :
    ¬∀ (w : WriteBuffers String) (h : List (WriterEvent String)),
      (bufferMachine String).Reach Machine.anyStep w h → BytesOutlive w := by
  intro hall
  obtain ⟨w, h, hr, hh⟩ := Machine.exists_reach_of_exec (bufferMachine String)
    Machine.anyStep (s := {}) rfl
    [.writer (.handshake true), .writer (.send "a"), .writer (.run 0), .writer .doWrite, .ret]
    (fun w _ => decide (w.writeQueue = [⟨1, "a"⟩] ∧ w.scope = [] ∧
      w.writes = [{ viewed := 2, message := "a", captures := [], begunOpen := true }]))
    (by decide +kernel)
  rw [decide_eq_true_iff] at hh
  obtain ⟨hqueue, -, hwrites⟩ := hh
  have howned := hall w h hr _ (hwrites ▸ List.mem_singleton_self _)
  simp [OwnedWhileWriting, hqueue] at howned

end Iriseus.Core
