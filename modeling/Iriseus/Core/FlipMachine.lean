import Iriseus.Core.Application

/-!
# The mirror flag on two threads

The mirror flag is kept in the stream receiver and its decoder, in the tray
menu, in the settings and by every client.  In `appMachine` a handler runs in
one step.  Here the handlers that read or write the flag are taken apart: the
Qt thread sets the stream, the tray and the settings one after the other and
then posts the broadcast; the io thread computes a `welcome` and posts it in two
steps, and a broadcast posts one message for each session.

`m_ioc` is run by a single thread, which runs the posted handlers in the order
in which they were posted.  Messages that say nothing about the flag do not
appear in its queue.

## Main results

* `appRun_flipRun` — every run of `appMachine` is a run of this machine, in
  which no handler is interrupted.
-/

namespace Iriseus.Core

open Iriseus.Verified
open Iriseus.Verified.ByteStream

/-- A handler posted to the io thread. -/
inductive IoTask where
  /-- The lambda of `WsServer::broadcast`. -/
  | broadcast (msg : Outgoing)
  /-- The lambda of `WsSession::send`, of session `n`. -/
  | push (n : Nat) (msg : Outgoing)
  deriving DecidableEq

/-- The handler that the io thread is in. -/
inductive IoHandler where
  | idle
  /-- `handleMessage` has computed the answer to a `hello`. -/
  | welcome (n : Nat) (sessionId : UInt64) (pk : String) (flip : Bool)
  /-- The loop of `broadcast` over the sessions. -/
  | broadcasting (msg : Outgoing) (todo : List Nat)
  deriving DecidableEq

/-- The handler that the Qt thread is in: what it does next. -/
inductive QtHandler where
  | idle
  /-- `m_stream->setFlipHorizontal`; `toggled` says that the user has clicked
  the tray menu, so that its check mark is right already. -/
  | setStream (flip toggled : Bool)
  | setTray (flip : Bool)
  | saveFlip (flip : Bool)
  | broadcast (flip : Bool)
  deriving DecidableEq

/-- The program with the handlers its two threads are in. -/
structure FlipState (κ : Type) (H : IncrementalHash) where
  app : Application κ H
  qt : QtHandler := .idle
  io : IoHandler := .idle
  /-- The posted handlers. -/
  queue : List IoTask := []

inductive FlipEvent (κ : Type) where
  | app (e : AppEvent κ)
  /-- The message is put in the write queue of session `n`. -/
  | put (n : Nat) (msg : Outgoing)

/-- A step of the program that is not taken apart, the beginning of one that
is, or the next step of a thread. -/
inductive FlipAction (κ : Type) where
  | app (a : AppAction κ)
  | hello (n : Nat) (raw : Bytes)
  | toggleFlip (flip : Bool)
  | runSetFlip
  | qt
  /-- `order` is the order in which a broadcast meets the sessions. -/
  | io (order : List Nat)

section Machine

variable {κ : Type} [DecidableEq κ] {H : IncrementalHash}
variable (parse : Bytes → Option Json) (kx : KxServer) (P : Platform κ)

/-- The thread of the action is in no handler, and the action is not one of
those that are taken apart. -/
def FlipState.whole (s : FlipState κ H) : AppAction κ → Bool
  | .connect => s.io = .idle
  | .handshake _ _ => s.io = .idle
  | .disconnect _ => s.io = .idle
  | .message _ raw _ => s.io = .idle && (parseMessage parse raw).type ≠ .hello
  | .init _ _ => s.qt = .idle
  | .createOffer _ _ => s.qt = .idle
  | .toggleFlip _ => false
  | .runTask =>
      s.qt = .idle && s.app.tasks.head?.all fun task =>
        match task with
        | .setFlip _ => false
        | .updateStreamMode _ => true
  | .transfers _ => true

/-- A `hello` up to the computed answer. -/
def FlipState.hello (s : FlipState κ H) (n : Nat) (raw : Bytes) :
    Option (FlipState κ H × List (FlipEvent κ)) :=
  let msg := parseMessage parse raw
  match s.io, s.app.server.accepted[n]? with
  | .idle, some (sessionId, .reading) =>
      if msg.type = .hello ∧ s.app.canHandle .hello = true then
        match msg.payload.stringValue "deviceName" "Unknown" with
        | .error e =>
            some ({ s with app := { s.app with ended := some (.json e) } },
              [.app (.received n sessionId msg), .app (.ended (.json e))])
        | .ok _ =>
            let app := s.app.onDeviceConnected sessionId
            some ({ s with
                app := app
                io := .welcome n sessionId app.getPcPublicKey app.getFlipHorizontal },
              [.app (.received n sessionId msg)])
      else none
  | _, _ => none

/-- The next step of the io thread: that of its handler, or the first posted
one. -/
def FlipState.ioNext (s : FlipState κ H) (order : List Nat) :
    Option (FlipState κ H × List (FlipEvent κ)) :=
  match s.io with
  | .welcome n sessionId pk flip =>
      let msg := Outgoing.welcome pk flip
      some ({ s with io := .idle, queue := s.queue ++ [.push n msg] },
        [.app (.send sessionId msg)])
  | .broadcasting msg (n :: todo) =>
      some ({ s with io := .broadcasting msg todo, queue := s.queue ++ [.push n msg] }, [])
  | .broadcasting _ [] => some ({ s with io := .idle }, [])
  | .idle =>
      if s.app.ioFree then
        match s.queue with
        | [] => none
        | .broadcast msg :: rest =>
            if order.Perm (s.app.server.sessions.entries.map (·.2)) then
              some ({ s with io := .broadcasting msg order, queue := rest }, [])
            else none
        | .push n msg :: rest => some ({ s with queue := rest }, [.put n msg])
      else none

/-- The next step of the handler of the Qt thread. -/
def FlipState.qtNext (s : FlipState κ H) :
    Option (FlipState κ H × List (FlipEvent κ)) :=
  match s.qt with
  | .idle => none
  | .setStream flip toggled =>
      some ({ s with
          app := { s.app with stream := s.app.stream.map (·.setFlipHorizontal flip) }
          qt := if toggled then .saveFlip flip else .setTray flip }, [])
  | .setTray flip =>
      some ({ s with
          app := { s.app with tray := s.app.tray.map fun _ => flip }
          qt := .saveFlip flip }, [])
  | .saveFlip flip =>
      some ({ s with
          app := { s.app with settings := { s.app.settings with flipHorizontal := flip } }
          qt := .broadcast flip }, [])
  | .broadcast flip =>
      some ({ s with qt := .idle, queue := s.queue ++ [.broadcast (.flipStatus flip)] },
        [.app (.broadcast (.flipStatus flip))])

/-- One step of the program while it runs. -/
def flipStep (s : FlipState κ H) :
    FlipAction κ → Option (FlipState κ H × List (FlipEvent κ))
  | .app a =>
      if s.whole parse a then
        match appStep parse kx P s.app a with
        | some (app, es) => some ({ s with app := app }, es.map .app)
        | none => none
      else none
  | .hello n raw => s.hello parse n raw
  | .toggleFlip flip =>
      if s.app.stage = .ready ∧ s.qt = .idle then
        some ({ s with
          app := { s.app with tray := s.app.tray.map fun _ => flip }
          qt := .setStream flip true }, [])
      else none
  | .runSetFlip =>
      match s.app.stage, s.qt, s.app.tasks with
      | .ready, .idle, .setFlip flip :: rest =>
          some ({ s with
            app := { s.app with tasks := rest }
            qt := .setStream flip false }, [])
      | _, _, _ => none
  | .qt => s.qtNext
  | .io order => s.ioNext order

/-- The program takes no step once an exception has ended it. -/
def flipMachine (H : IncrementalHash) :
    Machine (FlipState κ H) (FlipAction κ) (FlipEvent κ) where
  Init s := ∃ app, AppInit app ∧ s = { app := app }
  step s a := if s.app.ended.isSome then none else flipStep parse kx P s a

end Machine

/-! ## Handlers that are not interrupted -/

section Refinement

variable {κ : Type} [DecidableEq κ] {H : IncrementalHash}
variable {parse : Bytes → Option Json} {kx : KxServer} {P : Platform κ}

open Application

theorem flipMachine_step {s s' : FlipState κ H} {a : FlipAction κ} {es : List (FlipEvent κ)}
    (h : (flipMachine parse kx P H).step s a = some (s', es)) :
    s.app.ended = none ∧ flipStep parse kx P s a = some (s', es) := by
  simp only [flipMachine] at h
  split at h
  · cases h
  · rename_i hrun
    exact ⟨by simpa using hrun, h⟩

theorem flipMachine_step_of {s s' : FlipState κ H} {a : FlipAction κ}
    {es : List (FlipEvent κ)} (hrun : s.app.ended = none)
    (h : flipStep parse kx P s a = some (s', es)) :
    (flipMachine parse kx P H).step s a = some (s', es) := by
  simpa [flipMachine, hrun] using h

/-- The Qt thread goes on. -/
theorem reach_qt {s s' : FlipState κ H} {h es : List (FlipEvent κ)}
    (hr : (flipMachine parse kx P H).Reach Machine.anyStep s h) (hrun : s.app.ended = none)
    (hnext : s.qtNext = some (s', es)) :
    (flipMachine parse kx P H).Reach Machine.anyStep s' (h ++ es) :=
  .step (a := .qt) hr trivial (flipMachine_step_of hrun hnext)

/-- A handler of the Qt thread that is not interrupted is `applyFlip`, with the
check mark set before if the user has clicked. -/
theorem reach_applyFlip {app : Application κ H} {io : IoHandler} {queue : List IoTask}
    {h : List (FlipEvent κ)} {flip toggled : Bool}
    (hr : (flipMachine parse kx P H).Reach Machine.anyStep
      ⟨app, .setStream flip toggled, io, queue⟩ h) (hrun : app.ended = none) :
    let app' : Application κ H :=
      if toggled then app else { app with tray := app.tray.map fun _ => flip }
    (flipMachine parse kx P H).Reach Machine.anyStep
      ⟨(app'.applyFlip flip).1, .idle, io, queue ++ [.broadcast (.flipStatus flip)]⟩
      (h ++ [.app (.broadcast (.flipStatus flip))]) := by
  cases toggled with
  | true =>
      have hdone := reach_qt (reach_qt (reach_qt hr hrun rfl) hrun rfl) hrun rfl
      simpa [applyFlip] using hdone
  | false =>
      have hdone := reach_qt (reach_qt (reach_qt (reach_qt hr hrun rfl) hrun rfl) hrun rfl)
        hrun rfl
      simpa [applyFlip] using hdone

/-- A `hello` that is not interrupted. -/
theorem reach_hello {app app' : Application κ H} {n : Nat} {raw : Bytes}
    {token : ByteBlock kTokenSize} {es : List (AppEvent κ)} {queue : List IoTask}
    {h : List (FlipEvent κ)} (hrun : app.ended = none)
    (htype : (parseMessage parse raw).type = .hello)
    (hs : appStep parse kx P app (.message n raw token) = some (app', es))
    (hr : (flipMachine parse kx P H).Reach Machine.anyStep ⟨app, .idle, .idle, queue⟩ h) :
    ∃ queue', (flipMachine parse kx P H).Reach Machine.anyStep ⟨app', .idle, .idle, queue'⟩
      (h ++ es.map .app) := by
  simp only [appStep] at hs
  split at hs
  · rename_i sessionId hn
    split at hs
    · rename_i hcan
      rw [htype] at hcan
      cases hname : (parseMessage parse raw).payload.stringValue "deviceName" "Unknown" with
      | error e =>
          have hmsg : app.handleMessage parse kx P sessionId raw token = .error (.json e) := by
            simp only [handleMessage, htype, hname]
            rfl
          simp only [hmsg, Option.some.injEq, Prod.mk.injEq] at hs
          obtain ⟨rfl, rfl⟩ := hs
          exact ⟨queue, .step (a := .hello n raw) hr trivial (flipMachine_step_of hrun (by
            simp [flipStep, FlipState.hello, hn, htype, hcan, hname]))⟩
      | ok name =>
          have hmsg : app.handleMessage parse kx P sessionId raw token =
              .ok (app.onDeviceConnected sessionId,
                [.send sessionId (.welcome (app.onDeviceConnected sessionId).getPcPublicKey
                  (app.onDeviceConnected sessionId).getFlipHorizontal)]) := by
            simp only [handleMessage, htype, hname]
            rfl
          simp only [hmsg, Option.some.injEq, Prod.mk.injEq] at hs
          obtain ⟨rfl, rfl⟩ := hs
          have hbegun := Machine.Reach.step (a := .hello n raw) hr trivial
            (flipMachine_step_of hrun (by
              simp only [flipStep, FlipState.hello, hn, htype, hcan, hname, and_self, if_true]
              rfl))
          have hdone := Machine.Reach.step (a := .io []) hbegun trivial
            (flipMachine_step_of hrun rfl)
          exact ⟨_, by simpa using hdone⟩
    · cases hs
  · cases hs

/-- **Refinement, one step.**  While both threads are idle, a step of
`appMachine` is a run of this machine to a state where they are idle again. -/
theorem reach_appStep {app app' : Application κ H} {a : AppAction κ}
    {es : List (AppEvent κ)} {queue : List IoTask} {h : List (FlipEvent κ)}
    (hrun : app.ended = none) (hs : appStep parse kx P app a = some (app', es))
    (hr : (flipMachine parse kx P H).Reach Machine.anyStep ⟨app, .idle, .idle, queue⟩ h) :
    ∃ queue', (flipMachine parse kx P H).Reach Machine.anyStep ⟨app', .idle, .idle, queue'⟩
      (h ++ es.map .app) := by
  have hwhole : ∀ s : FlipState κ H, s = ⟨app, .idle, .idle, queue⟩ → s.whole parse a = true →
      ∃ queue', (flipMachine parse kx P H).Reach Machine.anyStep
        ⟨app', .idle, .idle, queue'⟩ (h ++ es.map .app) := by
    rintro s rfl hwhole
    refine ⟨queue, .step (a := .app a) hr trivial (flipMachine_step_of hrun ?_)⟩
    simp [flipStep, hwhole, hs]
  cases appStep_cases hs with
  | connect | handshake | disconnect | init | createOffer | transfers => exact hwhole _ rfl rfl
  | @message n raw | @throws n raw =>
      by_cases htype : (parseMessage parse raw).type = .hello
      · exact reach_hello hrun htype hs hr
      · exact hwhole _ rfl (by simp [FlipState.whole, htype])
  | @toggleFlip flip hready =>
      have hbegun : (flipMachine parse kx P H).Reach Machine.anyStep
          ⟨{ app with tray := app.tray.map fun _ => flip }, .setStream flip true, .idle,
            queue⟩ (h ++ []) :=
        .step (a := .toggleFlip flip) hr trivial
          (flipMachine_step_of hrun (by simp [flipStep, hready]))
      exact ⟨_, by simpa [applyFlip] using reach_applyFlip hbegun hrun⟩
  | @runTask task rest hready htasks =>
      cases task with
      | updateStreamMode isScreen => exact hwhole _ rfl (by simp [FlipState.whole, htasks])
      | setFlip flip =>
          have hbegun : (flipMachine parse kx P H).Reach Machine.anyStep
              ⟨{ app with tasks := rest }, .setStream flip false, .idle, queue⟩ (h ++ []) :=
            .step (a := .runSetFlip) hr trivial
              (flipMachine_step_of hrun (by simp [flipStep, hready, htasks]))
          exact ⟨_, by simpa [Application.runTask, applyFlip] using reach_applyFlip hbegun hrun⟩

/-- **Refinement.**  Every run of `appMachine` is a run of this machine. -/
theorem appRun_flipRun {app : Application κ H} {h : List (AppEvent κ)}
    (hr : (appMachine parse kx P H).Reach Machine.anyStep app h) :
    ∃ queue, (flipMachine parse kx P H).Reach Machine.anyStep ⟨app, .idle, .idle, queue⟩
      (h.map .app) := by
  induction hr with
  | init hinit => exact ⟨[], .init ⟨_, hinit, rfl⟩⟩
  | step _ _ hstep ih =>
      obtain ⟨queue, hreach⟩ := ih
      obtain ⟨hrun, hstep⟩ := appMachine_step hstep
      rw [List.map_append]
      exact reach_appStep hrun hstep hreach

end Refinement

end Iriseus.Core
