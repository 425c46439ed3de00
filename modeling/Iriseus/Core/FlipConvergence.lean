import Iriseus.Core.CurrentSession
import Iriseus.Core.FlipMachine

/-!
# Clients learn the mirror flag

Each change of the flag is broadcast after it has been made, and a broadcast
posts its messages from the io thread.  So a `welcome` that was computed from
the flag before a change is in the write queue before the `flip_status` that
corrects it.  What no broadcast corrects is a `welcome` computed before `init`
has handed the saved flag to the decoder, and a decoder that never got it.

`flipsTo` lists the values put in the write queue of a session and those still
to come, in order; the last one is the flag the program will settle on.

## Main results

* `flip_converges` — under `FlipSettled`, once both threads have nothing left to
  do, the last value of every client is the flag of the decoder, of the tray and
  of the settings.
-/

namespace Iriseus.Core

open Iriseus.Verified
open Iriseus.Verified.ByteStream

variable {κ : Type} {H : IncrementalHash}

/-! ## What the clients are told -/

/-- The flag a message tells. -/
def Outgoing.flip? : Outgoing → Option Bool
  | .welcome _ flip => some flip
  | .flipStatus flip => some flip
  | _ => none

def FlipEvent.app? : FlipEvent κ → Option (AppEvent κ)
  | .app e => some e
  | .put _ _ => none

/-- The flag put in the write queue of session `n`. -/
def FlipEvent.flipFor (n : Nat) : FlipEvent κ → Option Bool
  | .put m msg => if m = n then msg.flip? else none
  | .app _ => none

def appEvents (h : List (FlipEvent κ)) : List (AppEvent κ) := h.filterMap FlipEvent.app?

/-- The flags put in the write queue of session `n`, in order. -/
def putFlips (n : Nat) (h : List (FlipEvent κ)) : List Bool := h.filterMap (FlipEvent.flipFor n)

/-- The flag session `n` is told last. -/
def lastFlip (n : Nat) (h : List (FlipEvent κ)) : Option Bool := (putFlips n h).getLast?

@[simp] theorem appEvents_append (h h' : List (FlipEvent κ)) :
    appEvents (h ++ h') = appEvents h ++ appEvents h' :=
  List.filterMap_append

@[simp] theorem appEvents_map (es : List (AppEvent κ)) : appEvents (es.map .app) = es := by
  simp [appEvents, List.filterMap_map, Function.comp_def, FlipEvent.app?]

@[simp] theorem putFlips_append (n : Nat) (h h' : List (FlipEvent κ)) :
    putFlips n (h ++ h') = putFlips n h ++ putFlips n h' :=
  List.filterMap_append

@[simp] theorem putFlips_map (n : Nat) (es : List (AppEvent κ)) :
    putFlips n (es.map .app) = [] := by
  simp [putFlips, FlipEvent.flipFor]

/-! ## The condition -/

/-- Reading the flag of the stream gives the saved one, whatever it is: the
stream has it, and the decoder is not made or has it too. -/
def InitStage.flipKnown : InitStage → Bool
  | .makeDecoder _ => true
  | .constructFileManager _ => true
  | .startFileManager _ => true
  | .showTray _ => true
  | .ready => true
  | _ => false

/-- If the saved flag is not set, no `hello` is answered before the stream has
it, and the decoder's `init` succeeds; and no session is accepted under the
identifier of one whose connection has not ended. -/
def FlipSettled : Machine.StepCond (FlipState κ H) (FlipAction κ) (FlipEvent κ) :=
  fun s _ a =>
    match a with
    | .hello _ _ =>
        s.app.settings.flipHorizontal = true ∨ s.app.stage.flipKnown = true
    | .app (.init _ ok) =>
        match s.app.stage with
        | .initDecoder _ => s.app.settings.flipHorizontal = true ∨ ok = true
        | _ => True
    | .app .connect => s.app.server.inUse s.app.server.nextId = false
    | _ => True

instance : ∀ (s : FlipState κ H) h a, Decidable (FlipSettled s h a) := by
  intro s h a
  unfold FlipSettled
  split
  · infer_instance
  · split <;> infer_instance
  · infer_instance
  · infer_instance

/-- `init` has finished, both threads have left their handlers and have no other
to run. -/
structure FlipState.Drained (s : FlipState κ H) : Prop where
  running : s.app.ended = none
  ready : s.app.stage = .ready
  tasks : s.app.tasks = []
  qt : s.qt = .idle
  io : s.io = .idle
  queue : s.queue = []

/-! ## The flag inside the program -/

/-- The flag the handler of the Qt thread has still to broadcast. -/
def QtHandler.pending : QtHandler → List Bool
  | .idle => []
  | .setStream flip _ => [flip]
  | .setTray flip => [flip]
  | .saveFlip flip => [flip]
  | .broadcast flip => [flip]

/-- The flag the program will settle on. -/
def FlipState.target (s : FlipState κ H) : Bool :=
  s.qt.pending.getLast?.getD s.app.settings.flipHorizontal

/-- What `init` has built so far, when the saved flag is `flip`. -/
def InitStage.Agrees (flip : Bool) (stream : Option StreamReceiver) (tray : Option Bool) :
    InitStage → Prop
  | .constructPairing => stream = none
  | .setOnPaired => stream = none
  | .restoreDevice => stream = none
  | .constructStream f => f = flip ∧ stream = none
  | .setStreamFlip f => f = flip ∧ stream = some {}
  | .makeDecoder f => f = flip ∧ stream = some { flip := flip }
  | .initDecoder f => f = flip ∧ stream = some { flip := flip, decoder := some true }
  | .constructFileManager f => f = flip ∧ stream = some { flip := flip, decoder := some flip }
  | .startFileManager f => f = flip ∧ stream = some { flip := flip, decoder := some flip }
  | .showTray f => f = flip ∧ stream = some { flip := flip, decoder := some flip }
  | .ready => stream = some { flip := flip, decoder := some flip } ∧ tray = some flip

/-- What the handler of the Qt thread has done so far. -/
def QtHandler.Agrees (flip : Bool) (stream : Option StreamReceiver) (tray : Option Bool) :
    QtHandler → Prop
  | .idle => True
  | .setStream f toggled => (∃ r, stream = some r ∧ r.decoder.isSome = true) ∧
      tray.isSome = true ∧ (toggled = true → tray = some f)
  | .setTray f => stream = some { flip := f, decoder := some f } ∧ tray.isSome = true
  | .saveFlip f => stream = some { flip := f, decoder := some f } ∧ tray = some f
  | .broadcast f => stream = some { flip := f, decoder := some f } ∧ tray = some f ∧ f = flip

/-- The copies of the flag agree, as far as the Qt thread has come. -/
structure FlagInv (s : FlipState κ H) : Prop where
  stage : s.qt = .idle →
    s.app.stage.Agrees s.app.settings.flipHorizontal s.app.stream s.app.tray
  handler : s.qt ≠ .idle →
    s.app.stage = .ready ∧ s.qt.Agrees s.app.settings.flipHorizontal s.app.stream s.app.tray

/-- The flag and its copies are left alone. -/
structure FlipKept (app app' : Application κ H) : Prop where
  stage : app'.stage = app.stage
  stream : app'.stream = app.stream
  tray : app'.tray = app.tray
  saved : app'.settings.flipHorizontal = app.settings.flipHorizontal

theorem FlagInv.frame {s s' : FlipState κ H} (hI : FlagInv s) (hqt : s'.qt = s.qt)
    (hkept : FlipKept s.app s'.app) : FlagInv s' where
  stage := by
    rw [hqt, hkept.stage, hkept.stream, hkept.tray, hkept.saved]
    exact hI.stage
  handler := by
    rw [hqt, hkept.stage, hkept.stream, hkept.tray, hkept.saved]
    exact hI.handler

theorem FlipState.target_kept {s s' : FlipState κ H} (hqt : s'.qt = s.qt)
    (hkept : FlipKept s.app s'.app) : s'.target = s.target := by
  rw [FlipState.target, FlipState.target, hqt, hkept.saved]

section Steps

variable [DecidableEq κ] {P : Platform κ} {parse : Bytes → Option Json} {kx : KxServer}

open Application

omit [DecidableEq κ] in
theorem messageStep_flags {app app' : Application κ H} {es : List (AppEvent κ)}
    {sessionId : UInt64} {msg : ControlMessage}
    (h : MessageStep kx P app sessionId msg app' es) : FlipKept app app' := by
  cases h with
  | pairRequest _ hpair =>
      obtain ⟨⟨settings, pairing, rfl, hsaved⟩, -⟩ := onPairRequest_frame hpair
      exact { stage := rfl, stream := rfl, tray := rfl, saved := hsaved }
  | _ => exact { stage := rfl, stream := rfl, tray := rfl, saved := rfl }

/-- A step of the program that is not taken apart, and is not one of `init`,
leaves the flag alone. -/
theorem appStep_flags {s : FlipState κ H} {app' : Application κ H} {a : AppAction κ}
    {es : List (AppEvent κ)} (hwhole : s.whole parse a = true)
    (hinit : ∀ kp ok, a ≠ .init kp ok) (h : appStep parse kx P s.app a = some (app', es)) :
    FlipKept s.app app' := by
  have hsame : ∀ app : Application κ H, app.stage = s.app.stage → app.stream = s.app.stream →
      app.tray = s.app.tray → app.settings = s.app.settings → FlipKept s.app app :=
    fun app hstage hstream htray hsettings =>
      { stage := hstage, stream := hstream, tray := htray
        saved := congrArg Settings.flipHorizontal hsettings }
  cases appStep_cases h with
  | init => exact absurd rfl (hinit _ _)
  | message _ hmove => exact messageStep_flags hmove
  | toggleFlip => cases hwhole
  | @runTask task _ _ htasks =>
      cases task with
      | updateStreamMode isScreen => exact hsame _ rfl rfl rfl rfl
      | setFlip flip => simp [FlipState.whole, htasks] at hwhole
  | _ => exact hsame _ rfl rfl rfl rfl

/-- The steps of `init` build the stream and the tray with the saved flag. -/
theorem initStep_flags {app app' : Application κ H} {kp : KeyPair} {ok : Bool}
    {es : List (AppEvent κ)}
    (hagree : app.stage.Agrees app.settings.flipHorizontal app.stream app.tray)
    (hok : ∀ f, app.stage = .initDecoder f → app.settings.flipHorizontal = true ∨ ok = true)
    (h : app.initStep P kp ok = some (app', es)) :
    app'.settings.flipHorizontal = app.settings.flipHorizontal ∧
      app'.stage.Agrees app'.settings.flipHorizontal app'.stream app'.tray := by
  unfold initStep at h
  cases hstage : app.stage with
  | constructPairing | setOnPaired =>
      simp only [hstage] at h
      cases h
      rw [hstage] at hagree
      exact ⟨rfl, hagree⟩
  | restoreDevice =>
      simp only [hstage] at h
      rw [hstage] at hagree
      (repeat' split at h) <;> cases h <;> exact ⟨rfl, rfl, hagree⟩
  | constructStream f =>
      simp only [hstage] at h
      cases h
      rw [hstage] at hagree
      exact ⟨rfl, hagree.1, rfl⟩
  | setStreamFlip f =>
      simp only [hstage] at h
      cases h
      rw [hstage] at hagree
      obtain ⟨rfl, hstream⟩ := hagree
      exact ⟨rfl, rfl, by simp [hstream, StreamReceiver.setFlipHorizontal]⟩
  | makeDecoder f =>
      simp only [hstage] at h
      cases h
      rw [hstage] at hagree
      exact ⟨rfl, hagree.1, by simp [hagree.2, StreamReceiver.makeDecoder]⟩
  | initDecoder f =>
      simp only [hstage] at h
      cases h
      rw [hstage] at hagree
      refine ⟨rfl, hagree.1, ?_⟩
      -- a decoder whose `init` fails keeps the value it was made with
      rcases hok f hstage with hsaved | rfl
      · cases ok <;> simp [hagree.2, StreamReceiver.initDecoder, hsaved]
      · simp [hagree.2, StreamReceiver.initDecoder]
  | constructFileManager f =>
      simp only [hstage] at h
      cases h
      rw [hstage] at hagree
      exact ⟨rfl, hagree⟩
  | startFileManager f =>
      simp only [hstage] at h
      obtain ⟨m, w, tes, hm, hstep, rfl, -⟩ := transferMove_cases h
      rw [hstage] at hagree
      exact ⟨rfl, hagree⟩
  | showTray f =>
      simp only [hstage] at h
      cases h
      rw [hstage] at hagree
      exact ⟨rfl, hagree.2, congrArg some hagree.1⟩
  | ready => simp [hstage] at h

omit [DecidableEq κ] in
/-- The Qt thread makes the copies of the flag agree again, one after the
other. -/
theorem qtNext_flags {s s' : FlipState κ H} {es : List (FlipEvent κ)} (hI : FlagInv s)
    (h : s.qtNext = some (s', es)) : FlagInv s' := by
  obtain ⟨app, qt, io, queue⟩ := s
  cases qt with
  | idle => cases h
  | setStream f toggled =>
      obtain ⟨hready, ⟨r, hstream, hdecoder⟩, htray, hclicked⟩ := hI.handler (by simp)
      obtain ⟨d, hd⟩ := Option.isSome_iff_exists.mp hdecoder
      simp only at hstream hready hd
      cases h
      refine { stage := ?_, handler := fun _ => ⟨hready, ?_⟩ }
      · cases toggled <;> simp
      · cases toggled with
        | true =>
            exact ⟨by simp [hstream, StreamReceiver.setFlipHorizontal, hd], hclicked rfl⟩
        | false =>
            exact ⟨by simp [hstream, StreamReceiver.setFlipHorizontal, hd], htray⟩
  | setTray f =>
      obtain ⟨hready, hstream, htray⟩ := hI.handler (by simp)
      obtain ⟨t, ht⟩ := Option.isSome_iff_exists.mp htray
      simp only at ht
      cases h
      exact
        { stage := by simp
          handler := fun _ => ⟨hready, hstream, by simp [ht]⟩ }
  | saveFlip f =>
      obtain ⟨hready, hstream, htray⟩ := hI.handler (by simp)
      cases h
      exact
        { stage := by simp
          handler := fun _ => ⟨hready, hstream, htray, rfl⟩ }
  | broadcast f =>
      obtain ⟨hready, hstream, htray, hsaved⟩ := hI.handler (by simp)
      cases h
      simp only at hready hstream htray hsaved
      refine { stage := fun _ => ?_, handler := fun hne => absurd rfl hne }
      simp only [hready, ← hsaved]
      exact ⟨hstream, htray⟩

/-- **One step.** -/
theorem flagInv_step {s s' : FlipState κ H} {h es : List (FlipEvent κ)}
    {a : FlipAction κ} (hI : FlagInv s) (hok : FlipSettled s h a)
    (hs : flipStep parse kx P s a = some (s', es)) : FlagInv s' := by
  cases a with
  | app a =>
      simp only [flipStep] at hs
      split at hs
      · rename_i hwhole
        split at hs
        · rename_i app' es' happ
          cases hs
          by_cases hinit : ∃ kp ok, a = .init kp ok
          · obtain ⟨kp, ok, rfl⟩ := hinit
            have hqt : s.qt = .idle := by simpa [FlipState.whole] using hwhole
            obtain ⟨-, hagree⟩ := initStep_flags (hI.stage hqt) (by
              intro f hstage
              simpa [FlipSettled, hstage] using hok) happ
            exact
              { stage := fun _ => hagree
                handler := fun hne => absurd hqt hne }
          · exact hI.frame rfl (appStep_flags hwhole (fun kp ok heq =>
              hinit ⟨kp, ok, heq⟩) happ)
        · cases hs
      · cases hs
  | hello n raw =>
      simp only [flipStep, FlipState.hello] at hs
      (repeat' split at hs) <;> cases hs <;>
        exact hI.frame rfl { stage := rfl, stream := rfl, tray := rfl, saved := rfl }
  | toggleFlip flip =>
      simp only [flipStep] at hs
      split at hs
      · rename_i hready
        have hagree := hI.stage hready.2
        rw [hready.1] at hagree
        obtain ⟨hstream, htray⟩ := hagree
        cases hs
        exact
          { stage := by simp
            handler := fun _ => ⟨hready.1, ⟨_, hstream, rfl⟩, by simp [htray],
              by simp [htray]⟩ }
      · cases hs
  | runSetFlip =>
      simp only [flipStep] at hs
      split at hs
      · rename_i flip rest hstage hqt htasks
        have hagree := hI.stage hqt
        rw [hstage] at hagree
        obtain ⟨hstream, htray⟩ := hagree
        cases hs
        exact
          { stage := by simp
            handler := fun _ => ⟨hstage, ⟨_, hstream, rfl⟩, by simp [htray], by simp⟩ }
      · cases hs
  | qt => exact qtNext_flags hI hs
  | io order =>
      simp only [flipStep, FlipState.ioNext] at hs
      (repeat' split at hs) <;> cases hs <;>
        exact hI.frame rfl { stage := rfl, stream := rfl, tray := rfl, saved := rfl }

/-! ## The sessions a broadcast reaches -/

/-- A device that has said hello and has not disconnected is still read from,
and a session whose connection has not ended is in the table. -/
structure ReachedInv (srv : WsServer) (greeted : List (Nat × UInt64)) : Prop where
  reading : ∀ n sessionId, (n, sessionId) ∈ greeted →
    srv.accepted[n]? = some (sessionId, .reading)
  table : ∀ n sessionId link, srv.accepted[n]? = some (sessionId, link) →
    link.live = true → srv.sessions.lookup sessionId = some n

/-- A broadcast meets every connected device. -/
theorem ReachedInv.meets {srv : WsServer} {greeted : List (Nat × UInt64)}
    (hI : ReachedInv srv greeted) {n : Nat} {sessionId : UInt64}
    (hn : (n, sessionId) ∈ greeted) {order : List Nat}
    (horder : order.Perm (srv.sessions.entries.map (·.2))) : n ∈ order := by
  have hl := hI.table n sessionId _ (hI.reading n sessionId hn) rfl
  have hmem : (⟨sessionId, n⟩ : Sigma fun _ : UInt64 => Nat) ∈ srv.sessions.entries :=
    AList.mem_lookup_iff.mp hl
  exact horder.mem_iff.mpr (List.mem_map.mpr ⟨_, hmem, rfl⟩)

theorem ReachedInv.hello {srv : WsServer} {greeted : List (Nat × UInt64)}
    (hI : ReachedInv srv greeted) {n : Nat} {sessionId : UInt64}
    (hn : srv.accepted[n]? = some (sessionId, .reading)) :
    ReachedInv srv ((n, sessionId) :: greeted) where
  reading := by
    intro m id hm
    rcases List.mem_cons.mp hm with heq | hm
    · cases heq
      exact hn
    · exact hI.reading m id hm
  table := hI.table

theorem ReachedInv.accept {srv : WsServer} {greeted : List (Nat × UInt64)}
    (hI : ReachedInv srv greeted) (hfree : srv.inUse srv.nextId = false) :
    ReachedInv srv.accept greeted where
  reading := fun n sessionId hn => getElem?_snoc.mpr (Or.inl (hI.reading n sessionId hn))
  table := by
    intro n sessionId link hn hlive
    simp only [WsServer.accept] at hn ⊢
    rcases getElem?_snoc.mp hn with hold | ⟨rfl, hnew⟩
    · have hne : sessionId ≠ srv.nextId := by
        rintro rfl
        have hmem := List.mem_of_getElem? hold
        simp only [WsServer.inUse, List.any_eq_false] at hfree
        exact hfree _ hmem (by simp [hlive])
      rw [AList.lookup_insert_ne hne]
      exact hI.table n sessionId link hold hlive
    · cases hnew
      rw [AList.lookup_insert]

theorem ReachedInv.handshake {srv : WsServer} {greeted : List (Nat × UInt64)}
    (hI : ReachedInv srv greeted) {n : Nat} {sessionId : UInt64} {link : LinkState}
    (hn : srv.accepted[n]? = some (sessionId, .handshake)) :
    ReachedInv (srv.setLink n sessionId link) greeted := by
  have hlt : n < srv.accepted.length := (List.getElem?_eq_some_iff.mp hn).1
  refine { reading := ?_, table := ?_ }
  · intro m id hm
    have hold := hI.reading m id hm
    refine (getElem?_set_iff hlt).mpr (Or.inr ⟨?_, hold⟩)
    rintro rfl
    rw [hn] at hold
    cases hold
  · intro m id link' hm hlive
    rcases (getElem?_set_iff hlt).mp hm with ⟨rfl, hnew⟩ | ⟨-, hold⟩
    · cases hnew
      exact hI.table m _ .handshake hn rfl
    · exact hI.table m id link' hold hlive

theorem ReachedInv.disconnect {srv : WsServer} {greeted : List (Nat × UInt64)}
    (hI : ReachedInv srv greeted) {n : Nat} {sessionId : UInt64}
    (hn : srv.accepted[n]? = some (sessionId, .reading)) :
    ReachedInv ((srv.setLink n sessionId .ended).removeSession sessionId)
      (greeted.filter (·.1 ≠ n)) := by
  have hlt : n < srv.accepted.length := (List.getElem?_eq_some_iff.mp hn).1
  refine { reading := ?_, table := ?_ }
  · intro m id hm
    obtain ⟨hold, hne⟩ : (m, id) ∈ greeted ∧ m ≠ n := by simpa using hm
    exact (getElem?_set_iff hlt).mpr (Or.inr ⟨hne, hI.reading m id hold⟩)
  · intro m id link hm hlive
    rcases (getElem?_set_iff hlt).mp hm with ⟨rfl, hnew⟩ | ⟨hne, hold⟩
    · cases hnew
      cases hlive
    · have hid : id ≠ sessionId := by
        rintro rfl
        have hl := hI.table m id link hold hlive
        rw [hI.table n id _ hn rfl, Option.some.injEq] at hl
        exact hne hl.symm
      simp only [WsServer.removeSession, WsServer.setLink]
      rw [AList.lookup_erase_ne hid]
      exact hI.table m id link hold hlive

omit [DecidableEq κ] in
theorem messageStep_server {app app' : Application κ H} {es : List (AppEvent κ)}
    {sessionId : UInt64} {msg : ControlMessage}
    (h : MessageStep kx P app sessionId msg app' es) : app'.server = app.server := by
  cases h with
  | pairRequest _ hpair =>
      obtain ⟨⟨settings, pairing, rfl, -⟩, -⟩ := onPairRequest_frame hpair
      rfl
  | _ => rfl

/-- The action is a completion handler of the server that delivers no message. -/
def AppAction.isNetwork : AppAction κ → Bool
  | .connect => true
  | .handshake _ _ => true
  | .disconnect _ => true
  | _ => false

/-- The other steps that are not taken apart neither change the server nor greet. -/
theorem appStep_sameServer {s : FlipState κ H} {app' : Application κ H} {a : AppAction κ}
    {es : List (AppEvent κ)} (hwhole : s.whole parse a = true)
    (hnet : a.isNetwork = false) (h : appStep parse kx P s.app a = some (app', es)) :
    app'.server = s.app.server ∧ ∀ e ∈ es, e.greets = false := by
  cases appStep_cases h with
  | connect | handshake | disconnect => cases hnet
  | init hinit =>
      obtain ⟨hserver, -, hes⟩ := initStep_frame hinit
      exact ⟨hserver, fun e he => greets_of_serverOf (hes e he)⟩
  | @message n raw token sessionId _ _ _ hmove =>
      have htype : (parseMessage parse raw).type ≠ .hello := by
        simp only [FlipState.whole, Bool.and_eq_true, decide_eq_true_eq] at hwhole
        exact hwhole.2
      obtain ⟨-, htail, -⟩ := messageStep_slot hmove
      refine ⟨messageStep_server hmove, ?_⟩
      intro e he
      rcases List.mem_cons.mp he with rfl | he
      · simp [AppEvent.greets, htype]
      · exact htail e he
  | @throws n raw =>
      have htype : (parseMessage parse raw).type ≠ .hello := by
        simp only [FlipState.whole, Bool.and_eq_true, decide_eq_true_eq] at hwhole
        exact hwhole.2
      exact ⟨rfl, by simp [AppEvent.greets, htype]⟩
  | createOffer | transfers => exact ⟨rfl, by simp [AppEvent.greets]⟩
  | toggleFlip => cases hwhole
  | @runTask task _ _ htasks =>
      cases task with
      | updateStreamMode isScreen => exact ⟨rfl, by simp [Application.runTask, AppEvent.greets]⟩
      | setFlip flip => simp [FlipState.whole, htasks] at hwhole

/-- A step that is not taken apart keeps `ReachedInv`, and no device greets in it. -/
theorem appStep_reached {s : FlipState κ H} {app' : Application κ H} {a : AppAction κ}
    {es h : List (AppEvent κ)} (hI : ReachedInv s.app.server (greetedIn h))
    (hwhole : s.whole parse a = true)
    (hfree : a = .connect → s.app.server.inUse s.app.server.nextId = false)
    (happ : appStep parse kx P s.app a = some (app', es)) :
    ReachedInv app'.server (greetedIn (h ++ es)) ∧
      ∀ p ∈ greetedIn (h ++ es), p ∈ greetedIn h := by
  cases hnet : a.isNetwork with
  | false =>
      obtain ⟨hserver, hes⟩ := appStep_sameServer hwhole hnet happ
      rw [hserver, greetedIn_append hes]
      exact ⟨hI, fun p hp => hp⟩
  | true =>
      cases appStep_cases happ with
      | connect =>
          rw [List.append_nil]
          exact ⟨hI.accept (hfree rfl), fun p hp => hp⟩
      | handshake _ hn =>
          rw [List.append_nil]
          exact ⟨hI.handshake hn, fun p hp => hp⟩
      | @disconnect n sessionId _ hn =>
          have hgreeted : greetedIn (h ++ [.server (.disconnected n sessionId)]) =
              (greetedIn h).filter (·.1 ≠ n) := by
            simp [greetedIn, afterGreeting]
          rw [hgreeted]
          exact ⟨hI.disconnect hn, fun p hp => List.mem_of_mem_filter hp⟩
      | _ => cases hnet

end Steps

/-! ## Values still to come -/

/-- The flag the handler will put in the write queue of session `n`. -/
def IoTask.flipFor (n : Nat) : IoTask → Option Bool
  | .push m msg => if m = n then msg.flip? else none
  | .broadcast _ => none

/-- The flag the handler will post for every session. -/
def IoTask.flipForAll : IoTask → Option Bool
  | .broadcast msg => msg.flip?
  | .push _ _ => none

/-- The flags the handler of the io thread has still to post for session `n`. -/
def IoHandler.pending (n : Nat) : IoHandler → List Bool
  | .idle => []
  | .welcome m _ _ flip => if m = n then [flip] else []
  | .broadcasting msg todo => (todo.filter (· = n)).filterMap fun _ => msg.flip?

/-- The flags still to be broadcast, in order. -/
def FlipState.announced (s : FlipState κ H) : List Bool :=
  s.queue.filterMap IoTask.flipForAll ++ s.qt.pending

/-- The flags put in the write queue of session `n` and those still to come, in
order: a broadcast posts its messages behind all that are posted already. -/
def flipsTo (n : Nat) (s : FlipState κ H) (h : List (FlipEvent κ)) : List Bool :=
  putFlips n h ++ (s.queue.filterMap (IoTask.flipFor n) ++ (s.io.pending n ++ s.announced))

/-- The last flag to be broadcast, and the last one every connected device is
told, is the one the program will settle on. -/
structure QueueInv (s : FlipState κ H) (h : List (FlipEvent κ)) : Prop where
  announced : ∀ flip, s.announced.getLast? = some flip → flip = s.target
  told : ∀ n sessionId, (n, sessionId) ∈ greetedIn (appEvents h) →
    (flipsTo n s h).getLast? = some s.target

/-- A step after which the same flags come in the same order. -/
theorem QueueInv.same {s s' : FlipState κ H} {h es : List (FlipEvent κ)} (hI : QueueInv s h)
    (htarget : s'.target = s.target) (hannounced : s'.announced = s.announced)
    (hgreeted : ∀ p ∈ greetedIn (appEvents (h ++ es)), p ∈ greetedIn (appEvents h))
    (hflips : ∀ n, flipsTo n s' (h ++ es) = flipsTo n s h) : QueueInv s' (h ++ es) where
  announced := by
    rw [htarget, hannounced]
    exact hI.announced
  told := by
    intro n sessionId hn
    rw [htarget, hflips n]
    exact hI.told n sessionId (hgreeted _ hn)

/-- A handler of the Qt thread begins: its flag will be the last one of all. -/
theorem QueueInv.begin {s' : FlipState κ H} {h : List (FlipEvent κ)} {flip : Bool}
    (hqt : s'.qt.pending = [flip]) : QueueInv s' h where
  announced := by
    intro f hf
    simp only [FlipState.announced, hqt, List.getLast?_concat, Option.some.injEq] at hf
    simp [FlipState.target, hqt, hf]
  told := by
    intro n sessionId _
    simp only [flipsTo, FlipState.announced, hqt, FlipState.target, ← List.append_assoc,
      List.getLast?_concat, List.getLast?_singleton, Option.getD_some]

theorem getLast?_append_congr (rest : List Bool) {l l' : List Bool}
    (hl : l.getLast? = l'.getLast?) : (rest ++ l).getLast? = (rest ++ l').getLast? := by
  rw [List.getLast?_append, List.getLast?_append, hl]

/-- A flag posted for `n` any number of times counts as posted once. -/
theorem getLast?_repeated {order : List Nat} {n : Nat} (hn : n ∈ order) (flip? : Option Bool)
    (rest : List Bool) :
    ((order.filter (· = n)).filterMap (fun _ => flip?) ++ rest).getLast? =
      (flip?.toList ++ rest).getLast? := by
  cases flip? with
  | none => simp
  | some flip =>
      have hne : order.filter (· = n) ≠ [] :=
        List.ne_nil_of_mem (List.mem_filter.mpr ⟨hn, by simp⟩)
      have hlast : ((order.filter (· = n)).filterMap fun _ => some flip).getLast? =
          some flip := by
        rw [show (order.filter (· = n)).filterMap (fun _ => some flip) =
          (order.filter (· = n)).map fun _ => flip by simp [List.filterMap_eq_map'],
          List.getLast?_map, List.getLast?_eq_some_getLast hne, Option.map_some]
      rw [List.getLast?_append, List.getLast?_append, hlast]
      rfl

/-- **The io thread.**  Its steps keep the flags and their order; one that takes
up a broadcast needs every connected device in the table. -/
theorem ioNext_queueInv {s s' : FlipState κ H} {h es : List (FlipEvent κ)}
    {order : List Nat} (hI : QueueInv s h)
    (hR : ReachedInv s.app.server (greetedIn (appEvents h)))
    (hs : s.ioNext order = some (s', es)) : QueueInv s' (h ++ es) := by
  obtain ⟨app, qt, io, queue⟩ := s
  cases io with
  | welcome n sessionId pk flip =>
      cases hs
      refine hI.same rfl ?_ ?_ ?_
      · simp [List.filterMap_cons, FlipState.announced, IoTask.flipForAll]
      · simp [appEvents, FlipEvent.app?, greetedIn, afterGreeting]
      · intro m
        by_cases hm : n = m <;>
          simp [List.filterMap_cons, flipsTo, putFlips, FlipEvent.flipFor,
            FlipState.announced, IoTask.flipForAll, IoTask.flipFor, IoHandler.pending,
            Outgoing.flip?, hm]
  | broadcasting msg todo =>
      cases todo with
      | nil =>
          cases hs
          refine hI.same rfl rfl (by simp) fun m => ?_
          simp [flipsTo, FlipState.announced, IoHandler.pending]
      | cons n todo =>
          cases hs
          refine hI.same rfl ?_ (by simp) ?_
          · simp [List.filterMap_cons, FlipState.announced, IoTask.flipForAll]
          · intro m
            cases hflip : msg.flip? <;> by_cases hm : n = m <;>
              simp [List.filterMap_cons, flipsTo, FlipState.announced, IoTask.flipForAll,
                IoTask.flipFor, IoHandler.pending, hm, hflip]
  | idle =>
      simp only [FlipState.ioNext] at hs
      split at hs
      · split at hs
        · cases hs
        · rename_i msg rest
          split at hs
          · rename_i horder
            cases hs
            rw [List.append_nil]
            have hcons : (IoTask.broadcast msg :: rest).filterMap IoTask.flipForAll =
                msg.flip?.toList ++ rest.filterMap IoTask.flipForAll := by
              cases hflip : msg.flip? <;> simp [IoTask.flipForAll, hflip]
            refine { announced := fun flip hflip => ?_, told := fun n sessionId hn => ?_ }
            · refine hI.announced flip ?_
              simp only [FlipState.announced] at hflip ⊢
              rw [hcons, List.append_assoc, List.getLast?_append, hflip]
              rfl
            · -- the flags posted now come behind all that are posted already
              have hmeets := hR.meets hn horder
              have htold := hI.told n sessionId hn
              simp only [flipsTo, FlipState.announced, IoHandler.pending, hcons,
                List.filterMap_cons, IoTask.flipFor, List.nil_append, List.append_assoc]
                at htold ⊢
              exact (getLast?_append_congr _ (getLast?_append_congr _
                (getLast?_repeated hmeets _ _))).trans htold
          · cases hs
        · rename_i n msg rest
          cases hs
          refine hI.same rfl ?_ ?_ ?_
          · simp [List.filterMap_cons, FlipState.announced, IoTask.flipForAll]
          · simp [List.filterMap_cons, appEvents, FlipEvent.app?]
          · intro m
            cases hflip : msg.flip? <;> by_cases hm : n = m <;>
              simp [List.filterMap_cons, flipsTo, putFlips, FlipEvent.flipFor,
                FlipState.announced, IoTask.flipForAll, IoTask.flipFor, IoHandler.pending,
                hm, hflip]
      · cases hs

/-- **The Qt thread.**  Its handlers post the flag they have announced. -/
theorem qtNext_queueInv {s s' : FlipState κ H} {h es : List (FlipEvent κ)}
    (hI : QueueInv s h) (hF : FlagInv s) (hs : s.qtNext = some (s', es)) :
    QueueInv s' (h ++ es) := by
  obtain ⟨app, qt, io, queue⟩ := s
  cases qt with
  | idle => cases hs
  | setStream flip toggled =>
      cases hs
      cases toggled <;>
        exact hI.same rfl rfl (by simp) fun n => by simp [flipsTo, FlipState.announced,
          QtHandler.pending]
  | setTray flip | saveFlip flip =>
      cases hs
      exact hI.same rfl rfl (by simp) fun n => by simp [flipsTo, FlipState.announced,
        QtHandler.pending]
  | broadcast flip =>
      obtain ⟨-, -, -, hsaved⟩ := hF.handler (by simp)
      cases hs
      have hannounced : (FlipState.mk app .idle io
          (queue ++ [.broadcast (.flipStatus flip)])).announced =
          (FlipState.mk app (.broadcast flip) io queue).announced := by
        simp [FlipState.announced, IoTask.flipForAll, Outgoing.flip?, QtHandler.pending]
      refine hI.same ?_ hannounced (by simp [appEvents, FlipEvent.app?, greetedIn,
        afterGreeting]) fun n => ?_
      · simp only at hsaved
        simp [FlipState.target, QtHandler.pending, hsaved]
      · simp only [flipsTo, hannounced]
        simp [List.filterMap_cons, IoTask.flipFor, putFlips, FlipEvent.flipFor]

/-! ## The answer to a `hello` -/

/-- What a `hello` reads, while the Qt thread is in no handler. -/
theorem getFlipHorizontal_known {app : Application κ H} {saved : Bool}
    (hagree : app.stage.Agrees saved app.stream app.tray)
    (hknown : saved = true ∨ app.stage.flipKnown = true) : app.getFlipHorizontal = saved := by
  cases hstage : app.stage with
  | constructPairing | setOnPaired | restoreDevice =>
      rw [hstage] at hagree hknown
      have hstream : app.stream = none := hagree
      simpa [InitStage.flipKnown, Application.getFlipHorizontal, hstream, eq_comm]
        using hknown
  | constructStream f | setStreamFlip f | initDecoder f =>
      rw [hstage] at hagree hknown
      simpa [InitStage.flipKnown, Application.getFlipHorizontal, hagree.2,
        StreamReceiver.flipHorizontal, eq_comm] using hknown
  | makeDecoder f | constructFileManager f | startFileManager f | showTray f =>
      rw [hstage] at hagree
      simp [Application.getFlipHorizontal, hagree.2, StreamReceiver.flipHorizontal]
  | ready =>
      rw [hstage] at hagree
      simp [Application.getFlipHorizontal, hagree.1, StreamReceiver.flipHorizontal]

/-- The answer to a `hello` is the flag the program will settle on, unless a
broadcast comes behind it. -/
theorem hello_queueInv {s : FlipState κ H} {app' : Application κ H} {h : List (FlipEvent κ)}
    {n : Nat} {sessionId : UInt64} {msg : ControlMessage} {pk : String}
    (hI : QueueInv s h) (hF : FlagInv s) (hkept : FlipKept s.app app') (hio : s.io = .idle)
    (hknown : s.app.settings.flipHorizontal = true ∨ s.app.stage.flipKnown = true)
    (htype : msg.type = .hello) :
    QueueInv { s with app := app', io := .welcome n sessionId pk app'.getFlipHorizontal }
      (h ++ [.app (.received n sessionId msg)]) := by
  have htarget : FlipState.target
      { s with app := app', io := .welcome n sessionId pk app'.getFlipHorizontal } =
      s.target := FlipState.target_kept rfl hkept
  have hgreeted : greetedIn (appEvents (h ++ [.app (.received n sessionId msg)])) =
      (n, sessionId) :: greetedIn (appEvents h) := by
    simp [appEvents, FlipEvent.app?, greetedIn, afterGreeting, htype]
  refine { announced := fun f hf => ?_, told := fun m id hm => ?_ }
  · rw [htarget]
    exact hI.announced f hf
  rw [htarget]
  by_cases hnm : n = m
  · subst hnm
    have hflips : flipsTo n
        { s with app := app', io := .welcome n sessionId pk app'.getFlipHorizontal }
        (h ++ [.app (.received n sessionId msg)]) =
        putFlips n h ++ (s.queue.filterMap (IoTask.flipFor n) ++
          ([app'.getFlipHorizontal] ++ s.announced)) := by
      simp [flipsTo, IoHandler.pending, FlipState.announced, putFlips, FlipEvent.flipFor]
    rw [hflips]
    cases hlast : s.announced.getLast? with
    | some f =>
        rw [hI.announced f hlast] at hlast
        rw [List.getLast?_append, List.getLast?_append, List.getLast?_append, hlast]
        rfl
    | none =>
        -- nothing is announced, so the flag that was read stands
        have hnil : s.announced = [] := List.getLast?_eq_none_iff.mp hlast
        have hpending : s.qt.pending = [] := (List.append_eq_nil_iff.mp hnil).2
        have hqt : s.qt = .idle := by
          cases hq : s.qt <;> first | rfl | simp [hq, QtHandler.pending] at hpending
        have hread : app'.getFlipHorizontal = s.app.settings.flipHorizontal := by
          have hsame : app'.getFlipHorizontal = s.app.getFlipHorizontal := by
            simp [Application.getFlipHorizontal, hkept.stream]
          rw [hsame]
          exact getFlipHorizontal_known (hF.stage hqt) hknown
        simp [hnil, hread, FlipState.target, hpending]
  · have hold : (m, id) ∈ greetedIn (appEvents h) := by
      rw [hgreeted] at hm
      simpa [Ne.symm hnm] using hm
    rw [← hI.told m id hold]
    simp [flipsTo, IoHandler.pending, FlipState.announced, putFlips, FlipEvent.flipFor, hnm,
      hio]

/-! ## Convergence -/

section Runs

variable [DecidableEq κ] {P : Platform κ} {parse : Bytes → Option Json} {kx : KxServer}

/-- What holds in every state while no exception has ended the program. -/
structure FlipInv (s : FlipState κ H) (h : List (FlipEvent κ)) : Prop where
  flags : FlagInv s
  reached : ReachedInv s.app.server (greetedIn (appEvents h))
  queue : QueueInv s h

/-- **One step.** -/
theorem flipInv_step {s s' : FlipState κ H} {h es : List (FlipEvent κ)}
    {a : FlipAction κ} (hI : FlipInv s h) (hok : FlipSettled s h a)
    (hs : flipStep parse kx P s a = some (s', es)) (hrun : s'.app.ended = none) :
    FlipInv s' (h ++ es) := by
  have hflags := flagInv_step hI.flags hok hs
  cases a with
  | app a =>
      simp only [flipStep] at hs
      split at hs
      · rename_i hwhole
        split at hs
        · rename_i app' es' happ
          cases hs
          have hfree : a = .connect → s.app.server.inUse s.app.server.nextId = false := by
            rintro rfl
            exact hok
          obtain ⟨hreached, hgreeted⟩ := appStep_reached hI.reached hwhole hfree happ
          refine { flags := hflags, reached := by simpa using hreached, queue := ?_ }
          have hsaved : app'.settings.flipHorizontal = s.app.settings.flipHorizontal := by
            by_cases hinit : ∃ kp ok, a = .init kp ok
            · obtain ⟨kp, ok, rfl⟩ := hinit
              have hqt : s.qt = .idle := by simpa [FlipState.whole] using hwhole
              refine (initStep_flags (hI.flags.stage hqt) ?_ happ).1
              intro f hstage
              simpa [FlipSettled, hstage] using hok
            · exact (appStep_flags hwhole (fun kp ok heq => hinit ⟨kp, ok, heq⟩) happ).saved
          refine hI.queue.same (by simp [FlipState.target, hsaved]) rfl
            (by simpa using hgreeted) fun n => ?_
          simp [flipsTo, FlipState.announced]
        · cases hs
      · cases hs
  | hello n raw =>
      simp only [flipStep, FlipState.hello] at hs
      split at hs
      · rename_i sessionId hio hn
        split at hs
        · rename_i htype
          split at hs
          · cases hs
            cases hrun
          · cases hs
            refine { flags := hflags, reached := ?_, queue := ?_ }
            · have hgreeted : greetedIn (appEvents (h ++
                  [.app (.received n sessionId (parseMessage parse raw))])) =
                  (n, sessionId) :: greetedIn (appEvents h) := by
                simp [appEvents, FlipEvent.app?, greetedIn, afterGreeting, htype.1]
              rw [hgreeted]
              exact hI.reached.hello hn
            · exact hello_queueInv hI.queue hI.flags
                { stage := rfl, stream := rfl, tray := rfl, saved := rfl } hio hok htype.1
        · cases hs
      · cases hs
  | toggleFlip flip =>
      simp only [flipStep] at hs
      split at hs
      · cases hs
        exact
          { flags := hflags, reached := by simpa using hI.reached
            queue := @QueueInv.begin _ _ _ _ flip rfl }
      · cases hs
  | runSetFlip =>
      simp only [flipStep] at hs
      split at hs
      · rename_i flip rest _ _ _
        cases hs
        exact
          { flags := hflags, reached := by simpa using hI.reached
            queue := @QueueInv.begin _ _ _ _ flip rfl }
      · cases hs
  | qt =>
      refine { flags := hflags, reached := ?_, queue := qtNext_queueInv hI.queue hI.flags hs }
      simp only [flipStep, FlipState.qtNext] at hs
      split at hs <;> cases hs <;>
        simpa [appEvents, FlipEvent.app?, greetedIn, afterGreeting] using hI.reached
  | io order =>
      refine { flags := hflags, reached := ?_, queue := ioNext_queueInv hI.queue hI.reached hs }
      simp only [flipStep, FlipState.ioNext] at hs
      (repeat' split at hs) <;> cases hs <;>
        simpa [List.filterMap_cons, appEvents, FlipEvent.app?, greetedIn, afterGreeting]
          using hI.reached

/-- **Clients converge on the real flag.**  In every run whose steps meet
`FlipSettled`, once `init` has finished and both threads have nothing left to
do, the last flag put in the write queue of every connected device is the flag
of the decoder, of the tray and of the settings. -/
theorem flip_converges {s : FlipState κ H} {h : List (FlipEvent κ)}
    (hr : (flipMachine parse kx P H).Reach FlipSettled s h) (hdone : s.Drained) :
    ∃ flip, s.app.stream.bind StreamReceiver.decoder = some flip ∧ s.app.tray = some flip ∧
      s.app.settings.flipHorizontal = flip ∧
      ∀ n sessionId, (n, sessionId) ∈ greetedIn (appEvents h) → lastFlip n h = some flip := by
  have hinv : s.app.ended = none → FlipInv s h := by
    refine Machine.Reach.invariant (fun s h => s.app.ended = none → FlipInv s h) ?_ ?_ hr
    · rintro s ⟨app, ⟨-, -, settings, fs, rfl⟩, rfl⟩ -
      exact
        { flags := { stage := fun _ => rfl, handler := fun hne => absurd rfl hne }
          reached := { reading := by simp [greetedIn, appEvents], table := by simp }
          queue :=
            { announced := by simp [FlipState.announced, QtHandler.pending]
              told := by simp [greetedIn, appEvents] } }
    · rintro s h a s' es hI hok hstep hrun
      obtain ⟨hrunning, hstep⟩ := flipMachine_step hstep
      exact flipInv_step (hI hrunning) hok hstep hrun
  have hI := hinv hdone.running
  have hagree := hI.flags.stage hdone.qt
  rw [hdone.ready] at hagree
  obtain ⟨hstream, htray⟩ := hagree
  refine ⟨s.app.settings.flipHorizontal, by simp [hstream], htray, rfl, ?_⟩
  intro n sessionId hn
  have htold := hI.queue.told n sessionId hn
  simpa [flipsTo, FlipState.announced, FlipState.target, hdone.qt, hdone.io, hdone.queue,
    QtHandler.pending, IoHandler.pending, lastFlip] using htold

end Runs

/-! ## A change that overtakes a `welcome`, and a `hello` that comes too early -/

instance (s : FlipState κ H) : Decidable s.Drained :=
  decidable_of_iff (s.app.ended = none ∧ s.app.stage = .ready ∧ s.app.tasks = [] ∧
      s.qt = .idle ∧ s.io = .idle ∧ s.queue = [])
    ⟨fun ⟨running, ready, tasks, qt, io, queue⟩ => ⟨running, ready, tasks, qt, io, queue⟩,
      fun hs => ⟨hs.running, hs.ready, hs.tasks, hs.qt, hs.io, hs.queue⟩⟩

/-- The first session connects, says hello and is answered with the flag of
that moment; the answer is not posted yet. -/
def greetFirst : List (FlipAction String) :=
  [ .app .connect, .app (.handshake 0 true)
  , .hello 0 (ascii "\x7b\"type\":\"hello\"\x7d") ]

/-- The user clicks the flag away after the answer was computed, and the
broadcast is posted first. -/
theorem flip_converges_sample :
    ∃ (s : FlipState String sha256) (h : List (FlipEvent String)),
      (flipMachine (parseTable helloMessages) sampleKx samplePlatform sha256).Reach
        FlipSettled s h ∧
      (s.Drained ∧ greetedIn (appEvents h) = [(0, 1)] ∧ putFlips 0 h = [true, false]) ∧
      ∃ flip, s.app.stream.bind StreamReceiver.decoder = some flip ∧
        s.app.tray = some flip ∧ s.app.settings.flipHorizontal = flip ∧
        ∀ n sessionId, (n, sessionId) ∈ greetedIn (appEvents h) →
          lastFlip n h = some flip := by
  obtain ⟨s, h, hr, hh⟩ := Machine.exists_reach_of_exec
    (flipMachine (parseTable helloMessages) sampleKx samplePlatform sha256) FlipSettled
    (s := { app := sampleProgram }) ⟨_, sampleProgram_init, rfl⟩
    (initActions.map .app ++ greetFirst ++ [.toggleFlip false, .qt, .qt, .qt] ++
      [.io [], .io [0], .io [], .io [], .io [], .io []])
    (fun (s : FlipState String sha256) h =>
      decide (s.Drained ∧ greetedIn (appEvents h) = [(0, 1)] ∧ putFlips 0 h = [true, false]))
    (by decide +kernel)
  have hat := of_decide_eq_true hh
  exact ⟨s, h, hr, hat, flip_converges hr hat.1⟩

/-- The program when the user has saved that the picture is not mirrored. -/
def unmirroredProgram : Application String sha256 where
  settings := { pairedDeviceId := "", pairedDeviceName := "", flipHorizontal := false }
  fs := (worldWith []).fs

theorem unmirroredProgram_init : AppInit unmirroredProgram :=
  ⟨(worldWith_init []).1, rfl, _, _, rfl⟩

/-- The first session says hello before the stream exists: it is told that the
picture is mirrored, and nothing corrects it. -/
theorem early_hello_misled :
    ¬∀ (s : FlipState String sha256) (h : List (FlipEvent String)),
      (flipMachine (parseTable helloMessages) sampleKx samplePlatform sha256).Reach
        Machine.anyStep s h → s.Drained →
      ∃ flip, s.app.stream.bind StreamReceiver.decoder = some flip ∧
        s.app.tray = some flip ∧ s.app.settings.flipHorizontal = flip ∧
        ∀ n sessionId, (n, sessionId) ∈ greetedIn (appEvents h) →
          lastFlip n h = some flip := by
  intro hall
  obtain ⟨s, h, hr, hh⟩ := Machine.exists_reach_of_exec
    (flipMachine (parseTable helloMessages) sampleKx samplePlatform sha256) Machine.anyStep
    (s := { app := unmirroredProgram }) ⟨_, unmirroredProgram_init, rfl⟩
    (greetFirst ++ [.io [], .io []] ++ initActions.map .app)
    (fun (s : FlipState String sha256) h =>
      decide (s.Drained ∧ greetedIn (appEvents h) = [(0, 1)] ∧
        lastFlip 0 h = some true ∧ s.app.settings.flipHorizontal = false))
    (by decide +kernel)
  obtain ⟨hdone, hgreeted, hlast, hsaved⟩ := of_decide_eq_true hh
  obtain ⟨flip, -, -, hflip, htold⟩ := hall s h hr hdone
  have hfirst := htold 0 1 (by simp [hgreeted])
  rw [hlast, Option.some.injEq] at hfirst
  rw [hsaved, ← hfirst] at hflip
  cases hflip

end Iriseus.Core
