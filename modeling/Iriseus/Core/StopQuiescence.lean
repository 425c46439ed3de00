import Iriseus.Core.TransferMachine

/-!
# What `FileTransferServer::stop` leaves running

`stop` ends the accept thread and waits for it, marks every session as
cancelled, removes the temporary files and empties the table.  It does not wait
for the threads of the connections, which `acceptLoop` detaches: each of them
goes on until its own end.

`stop_quiescent` says that when `stop` has returned, no connection takes a
step any more exactly if all of them had ended before, and with them the
callbacks in which they end.  It is about the returns of `stop` that have emptied
the table; a `stop` of a server that does not run returns at once and ends
nothing.
-/

namespace Iriseus.Core

open Iriseus.Verified
open Iriseus.Verified.ByteStream

section Stop

variable {κ : Type} [DecidableEq κ] {P : Platform κ} {H : IncrementalHash}

/-- The accept thread has ended, and none of the connections there are takes a
step, in its body or in the callback at its end, however the system goes on. -/
def Quiescent (P : Platform κ) (w : World κ H) (h : List (TransferEvent κ)) : Prop :=
  w.manager.server.accepting = false ∧
    ∀ w' h', (transferMachine P H).Steps Machine.anyStep w h w' h' →
      ∀ c < w.conns.length,
        (∀ inp, transferStep P H w' (.conn c inp) = none) ∧
          transferStep P H w' (.callback c) = none

/-- Connection `c` has ended, and its callback has returned. -/
def World.rests (w : World κ H) (c : Nat) : Prop :=
  (∃ conn, w.conns[c]? = some conn ∧ conn.ended = true) ∧
    w.manager.callbacks.lookup c = none

/-- `stop` empties the table and returns only when every connection has ended
and every callback has returned. -/
def HandlersEnded : Machine.StepCond (World κ H) (TransferAction κ) (TransferEvent κ) :=
  fun w _ a =>
    match a with
    | .clean _ => w.manager.server.cleaning = .stop [] → ∀ c < w.conns.length, w.rests c
    | _ => True

/-! ## Connections that have not ended can move -/

omit [DecidableEq κ] in
/-- A thread that has not reached its end has a next step. -/
theorem serve_enabled (v : View κ) (s : ActiveTransferSession) {pc : Pc H}
    (hpc : pc ≠ .done) : ∃ inp r, serve P H v s pc inp = some r := by
  cases pc with
  | done => exact absurd rfl hpc
  | dispatch b =>
      refine ⟨.go, ?_⟩
      simp only [serve]
      split
      · exact ⟨_, rfl⟩
      · split <;> exact ⟨_, rfl⟩
  | failed error => exact ⟨.go, _, rfl⟩
  | upload pc =>
      simp only [serve]
      cases pc with
      | recvLen | recvChunk | openTemp | rename => exact ⟨.fail, _, rfl⟩
      | recvWrite r chunk =>
          by_cases hgood : r.out.good = true
          · exact ⟨.cut 0, _, by simp only [serveUpload, OutStream.write, hgood]; rfl⟩
          · exact ⟨.stored 0, _, by simp only [serveUpload, OutStream.write, hgood]; rfl⟩
      | recvHead | recvCheck | verify | resolve =>
          refine ⟨.go, ?_⟩
          simp only [serveUpload]
          split <;> exact ⟨_, rfl⟩
      | recvReport | closeTemp | dropInterrupted | interrupted | dropBadHash | dropUnsaved
      | saved => exact ⟨.go, _, rfl⟩
  | download pc =>
      simp only [serve]
      cases pc with
      | openSource => exact ⟨.fail, _, rfl⟩
      | sendRead t =>
          refine ⟨.go, ?_⟩
          simp only [serveDownload, InStream.read]
          by_cases hgood : t.source.good = true
          · simp only [hgood, if_true]
            split <;> exact ⟨_, rfl⟩
          · simp only [hgood]
            exact ⟨_, rfl⟩
      | sendHead | sendCheck =>
          refine ⟨.go, ?_⟩
          simp only [serveDownload]
          split <;> exact ⟨_, rfl⟩
      | sendLen | sendBody | sendReport | closeSource | sentAll => exact ⟨.go, _, rfl⟩

omit [DecidableEq κ] in
/-- With an empty, unlocked table every connection that has not ended can
move. -/
theorem Connection.step_enabled {srv : FileTransferServer} (fs : FileStore κ)
    (hidle : srv.cleaning = .idle) (hempty : srv.sessions = ∅) {conn : Connection H}
    (hrun : conn.ended = false) : ∃ inp r, conn.step P H srv fs inp = some r := by
  cases conn with
  | handshake => exact ⟨.fail, _, rfl⟩
  | lookup hs =>
      refine ⟨.go, (.closed, none), ?_⟩
      simp [Connection.step, hidle, hempty, findSession]
  | validate hs s =>
      refine ⟨.go, ?_⟩
      simp only [Connection.step]
      split <;> exact ⟨_, rfl⟩
  | serving hs s pc =>
      have hpc : pc ≠ .done := by
        rintro rfl
        cases hrun
      obtain ⟨inp, r, hserve⟩ := serve_enabled (P := P)
        { fs := fs, running := srv.running, cancelled := srv.cancelled s.ref } s hpc
      exact ⟨inp, (.serving hs s r.1, some (s, r.2)), by simp [Connection.step, hserve]⟩
  | closed => cases hrun

/-! ## Connections that have ended stay so -/

/-- A connection that rests keeps to rest: it takes no step, and no other
connection calls or ends its callback. -/
theorem rests_step {w w' : World κ H} {a : TransferAction κ} {es : List (TransferEvent κ)}
    (hs : transferStep P H w a = some (w', es)) {c : Nat} (hrest : w.rests c) :
    w'.rests c := by
  obtain ⟨⟨conn, hc, hended⟩, hnone⟩ := hrest
  refine ⟨⟨conn, ended_stays hs hc hended, hended⟩, ?_⟩
  cases callbackMove_cases hs with
  | rests _ hsame => rw [hsame, hnone]
  | @called c' inp _ _ pc _ _ _ _ hold hserve _ hcall =>
      have hne : c ≠ c' := by
        rintro rfl
        obtain rfl := Option.some.inj (hc.symm.trans hold)
        cases pc with
        | done => simp [serve] at hserve
        | _ => cases hended
      rw [hcall, FileTransferManager.callOnFinished, AList.lookup_insert_ne hne, hnone]
  | goes hcb _ hstep =>
      refine Option.eq_none_iff_forall_ne_some.mpr fun cb' hcb' => ?_
      rcases hstep.lookup hcb' with ⟨-, hold⟩ | ⟨rfl, -⟩
      · rw [hnone] at hold
        cases hold
      · rw [hnone] at hcb
        cases hcb

theorem rests_steps {w w' : World κ H} {h h' : List (TransferEvent κ)}
    (hsteps : (transferMachine P H).Steps Machine.anyStep w h w' h') {c : Nat}
    (hrest : w.rests c) : w'.rests c := by
  induction hsteps with
  | refl => exact hrest
  | step _ _ hs ih => exact rests_step hs ih

/-- A connection that rests takes no step. -/
theorem World.rests.stuck {w : World κ H} {c : Nat} (hrest : w.rests c) :
    (∀ inp, transferStep P H w (.conn c inp) = none) ∧
      transferStep P H w (.callback c) = none := by
  obtain ⟨⟨conn, hc, hended⟩, hnone⟩ := hrest
  exact ⟨fun inp => by simp [transferStep, hc, Connection.step_ended hended],
    by simp [transferStep, hnone]⟩

/-! ## The accept thread -/

/-- While `stop` removes files the accept thread has ended, and the server is
not started. -/
def StopInv (m : FileTransferManager) : Prop :=
  ∀ todo, m.server.cleaning = .stop todo →
    m.server.accepting = false ∧ m.server.stopping = true

/-- A call that leaves the two flags and the lock alone. -/
theorem StopInv.frame {m m' : FileTransferManager} (hI : StopInv m)
    (hcleaning : m'.server.cleaning = m.server.cleaning)
    (haccepting : m'.server.accepting = m.server.accepting)
    (hstopping : m'.server.stopping = m.server.stopping) : StopInv m' := by
  intro todo hclean
  rw [haccepting, hstopping]
  exact hI todo (hcleaning ▸ hclean)

/-- `stop` does not hold the lock. -/
theorem StopInv.free {m : FileTransferManager}
    (hfree : ∀ todo, m.server.cleaning ≠ .stop todo) : StopInv m :=
  fun todo hclean => absurd hclean (hfree todo)

omit [DecidableEq κ] in
theorem control_stopInv {m m' : FileTransferManager} {fs : FileStore κ} {a : Control}
    {es : List (TransferEvent κ)} (hI : StopInv m)
    (h : control P H m fs a = some (m', es)) : StopInv m' := by
  intro todo hclean
  generalize hsrv : m'.server = srv at hclean ⊢
  cases hsrv ▸ control_server P H h with
  | none => exact hI todo hclean
  | @start binds hstopped =>
      have hsame : (m.server.start binds).cleaning = m.server.cleaning := by
        simp only [FileTransferServer.start]
        split <;> rfl
      have hstopping := (hI todo (hsame ▸ hclean)).2
      rw [hstopped] at hstopping
      cases hstopping
  | stop =>
      by_cases hrun : m.server.running = true
      · simp only [FileTransferServer.stop, hrun, if_true] at hclean ⊢
        exact ⟨(hI todo hclean).1, trivial⟩
      · simp only [FileTransferServer.stop, hrun] at hclean ⊢
        exact hI todo hclean
  | @stopLock order hstopping =>
      have hflags : (m.server.stopLock order).accepting = false ∧
          (m.server.stopLock order).stopping = m.server.stopping := by
        cases order <;> exact ⟨rfl, rfl⟩
      exact ⟨hflags.1, hflags.2.trans hstopping⟩
  | register hidle =>
      rw [show (m.server.registerTransfer _).cleaning = m.server.cleaning from rfl, hidle]
        at hclean
      cases hclean
  | @cancel id hidle =>
      unfold FileTransferServer.cancelTransfer at hclean
      split at hclean
      · cases hclean
      · rw [hidle] at hclean
        cases hclean

omit [DecidableEq κ] in
theorem cleanNext_stopInv {m : FileTransferManager} (hI : StopInv m) :
    StopInv (m.cleanNext (κ := κ)).1 := by
  unfold FileTransferManager.cleanNext
  split
  · exact hI
  · exact .free fun todo => by simp [FileTransferManager.finishCancel]
  · exact .free fun todo => by simp
  · rename_i s todo hclean
    intro todo' _
    have hflags := hI _ hclean
    cases todo <;> exact hflags

/-- The effect of a connection leaves the flags and the lock alone. -/
theorem effect_flags (w : World κ H) (c : Nat) (s : ActiveTransferSession) (e : Effect κ) :
    (w.effect c s e).1.manager.server.cleaning = w.manager.server.cleaning ∧
      (w.effect c s e).1.manager.server.accepting = w.manager.server.accepting ∧
      (w.effect c s e).1.manager.server.stopping = w.manager.server.stopping := by
  cases e <;> exact ⟨rfl, rfl, rfl⟩

/-- **One step.**  Every step keeps `StopInv`. -/
theorem stopInv_step {w w' : World κ H} {a : TransferAction κ} {es : List (TransferEvent κ)}
    (hI : StopInv w.manager) (h : transferStep P H w a = some (w', es)) :
    StopInv w'.manager := by
  have hm := managerStep_cases h
  cases hm with
  | call hcall => exact control_stopInv hI hcall
  | next hm =>
      rw [hm]
      exact cleanNext_stopInv hI
  | callback _ hstep =>
      have hserver := FileTransferManager.onFinished_server hstep
      exact hI.frame (by rw [hserver]) (by rw [hserver]) (by rw [hserver])
  | @effect c _ conns s e hm =>
      rw [hm]
      obtain ⟨hcleaning, haccepting, hstopping⟩ :=
        effect_flags { w with conns := conns } c s e
      exact hI.frame hcleaning haccepting hstopping
  | same hm =>
      rw [hm]
      exact hI

theorem stopInv_reach {ok : Machine.StepCond (World κ H) (TransferAction κ) (TransferEvent κ)}
    {w : World κ H} {h : List (TransferEvent κ)}
    (hr : (transferMachine P H).Reach ok w h) : StopInv w.manager := by
  refine Machine.Reach.invariant (fun w _ => StopInv w.manager) ?_ ?_ hr
  · intro w hinit
    rw [hinit.2.2.1]
    exact .free fun todo => by simp
  · intro w h a w' es hI _ hs
    exact stopInv_step hI hs

/-! ## The return of `stop` -/

/-- The step with which `stop` returns: it empties the table and gives the
lock back; the connections stay. -/
theorem stop_returns {w w' : World κ H} {inp : Input} {es : List (TransferEvent κ)}
    (hs : transferStep P H w (.clean inp) = some (w', es)) (hret : .cleared ∈ es) :
    w.manager.server.cleaning = .stop [] ∧ w'.conns = w.conns ∧
      w'.manager.callbacks = w.manager.callbacks ∧
      w'.manager.server.sessions = ∅ ∧ w'.manager.server.cleaning = .idle ∧
      w'.manager.server.accepting = w.manager.server.accepting := by
  simp only [transferStep, clean] at hs
  split at hs
  · cases hs
  · cases hclean : w.manager.server.cleaning with
    | idle => contradiction
    | cancel s =>
        simp only [FileTransferManager.cleanNext, FileTransferManager.finishCancel, hclean,
          Cleaning.target, World.perform] at hs
        (repeat' split at hs) <;> cases hs <;> simp at hret
    | stop todo =>
        cases todo with
        | nil =>
            simp only [FileTransferManager.cleanNext, hclean, Cleaning.target] at hs
            cases inp <;> cases hs
            · exact ⟨rfl, rfl, rfl, rfl, rfl, rfl⟩
            · exact ⟨rfl, rfl, rfl, rfl, rfl, rfl⟩
        | cons s todo =>
            simp only [FileTransferManager.cleanNext, hclean, Cleaning.target,
              World.perform] at hs
            (repeat' split at hs) <;> cases hs <;> simp at hret

/-- **`stop` is quiescent, exactly when the handlers have ended.**  In every
run, whenever `stop` returns, no connection takes any further step, however the
system goes on, if and only if all of them had ended and their callbacks had
returned. -/
theorem stop_quiescent {w w' : World κ H} {h es : List (TransferEvent κ)} {inp : Input}
    (hr : (transferMachine P H).Reach Machine.anyStep w h)
    (hs : (transferMachine P H).step w (.clean inp) = some (w', es))
    (hret : .cleared ∈ es) :
    Quiescent P w' (h ++ es) ↔ HandlersEnded w h (.clean inp) := by
  obtain ⟨hclean, hconns, hcallbacks, hempty, hidle, haccepting⟩ := stop_returns hs hret
  have hsame : ∀ c, w'.rests c ↔ w.rests c := by
    intro c
    simp only [World.rests, hconns, hcallbacks]
  constructor
  · rintro ⟨-, hstuck⟩ - c hlt
    rw [← hconns] at hlt
    obtain ⟨hconn, hcallback⟩ := hstuck w' _ .refl c hlt
    have hc : w'.conns[c]? = some w'.conns[c] := List.getElem?_eq_getElem hlt
    refine (hsame c).mp ⟨⟨_, hc, ?_⟩, ?_⟩
    · by_contra hnot
      obtain ⟨inp', ⟨conn', eff⟩, hmove⟩ :=
        Connection.step_enabled (P := P) w'.fs hidle hempty (by simpa using hnot)
      have hnone := hconn inp'
      cases eff with
      | none => simp [transferStep, hc, hmove] at hnone
      | some eff => simp [transferStep, hc, hmove] at hnone
    · cases hcb : w'.manager.callbacks.lookup c with
      | none => rfl
      | some cb => simp [transferStep, hcb] at hcallback
  · intro hended
    refine ⟨haccepting.trans (stopInv_reach hr _ hclean).1, ?_⟩
    intro w₁ h₁ hsteps c hlt
    rw [hconns] at hlt
    exact (rests_steps hsteps ((hsame c).mpr (hended hclean c hlt))).stuck

end Stop

/-! ## Stops with and without a running connection -/

/-- The session of a sample offer of an empty file without a hash. -/
def emptyUpload : ActiveTransferSession where
  ref := 0
  transferId := formatUuid (sampleUuid 1).bytes
  tokenBase64 := FileTransferManager.generateToken (sampleToken 7)
  tokenBytes := (sampleToken 7).bytes
  targetFilePath := "D/Iriseus/a"
  expectedSize := 0
  expectedSha256 := ""
  direction := .mobileUploadToPc

/-- A connection that has received an empty file, has `n` steps of its body
behind it and goes on with `more` when `stop` is called, which then does all but
return. -/
def stopAfter (n : Nat) (more : List (TransferAction String)) :
    List (TransferAction String) :=
  [.control (.start true), offerAction 1 "a" 0 "" 7] ++ connectActions 0 1 7 0 ++
    List.replicate n (.conn 0 .go) ++ more ++
    [.control .stop, .control (.stopLock [emptyUpload]), .clean .fail]

/-- The connection has reported, and its callback has returned, before `stop` is
called. -/
theorem stop_quiescent_sample :
    ∃ (w : World String sha256) (h : List (TransferEvent String)) (w' : World String sha256)
      (es : List (TransferEvent String)),
      (transferMachine samplePlatform sha256).Reach Machine.anyStep w h ∧
      w.conns.length = 1 ∧
      (transferMachine samplePlatform sha256).step w (.clean .go) = some (w', es) ∧
      Quiescent samplePlatform w' (h ++ es) := by
  obtain ⟨w, h, hr, hh⟩ := Machine.exists_reach_of_exec
    (transferMachine samplePlatform sha256) Machine.anyStep (worldWith_init [])
    (stopAfter 8 (finishActions 0))
    (fun w _ => decide (w.conns.length = 1 ∧ w.conns[0]?.any Connection.ended = true ∧
        w.manager.callbacks.lookup 0 = none) &&
      (transferStep samplePlatform sha256 w (.clean .go)).any
        fun (_, es) => decide (.cleared ∈ es))
    (by decide +kernel)
  simp only [Bool.and_eq_true, decide_eq_true_eq, Option.any_eq_true] at hh
  obtain ⟨⟨hone, hended, hnone⟩, ⟨w', es⟩, hs, hret⟩ := hh
  have hall : HandlersEnded w h (.clean .go) := by
    intro _ c hlt
    obtain rfl : c = 0 := by omega
    exact ⟨hended, hnone⟩
  exact ⟨w, h, w', es, hr, hone, hs, (stop_quiescent hr hs hret).mpr hall⟩

/-- The connection has renamed its file but not reported when `stop` returns:
it invokes the finished callback afterwards. -/
theorem report_after_stop :
    ¬∀ (w : World String sha256) (h : List (TransferEvent String)) (inp : Input)
      (w' : World String sha256) (es : List (TransferEvent String)),
      (transferMachine samplePlatform sha256).Reach Machine.anyStep w h →
      (transferMachine samplePlatform sha256).step w (.clean inp) = some (w', es) →
      .cleared ∈ es → Quiescent samplePlatform w' (h ++ es) := by
  intro hall
  obtain ⟨w, h, hr, hh⟩ := Machine.exists_reach_of_exec
    (transferMachine samplePlatform sha256) Machine.anyStep (worldWith_init [])
    (stopAfter 7 [])
    (fun w _ => (transferStep samplePlatform sha256 w (.clean .go)).any fun (w', es) =>
      decide (.cleared ∈ es) && decide (0 < w'.conns.length) &&
        (transferStep samplePlatform sha256 w' (.conn 0 .go)).any fun (_, es') =>
          decide (.connection 0 emptyUpload (.finished true "") ∈ es'))
    (by decide +kernel)
  simp only [Bool.and_eq_true, decide_eq_true_eq, Option.any_eq_true] at hh
  obtain ⟨⟨w', es⟩, hs, ⟨hret, hlt⟩, r', hmove, -⟩ := hh
  have hstuck := ((hall w h .go w' es hr hs hret).2 w' _ .refl 0 hlt).1 .go
  rw [hmove] at hstuck
  cases hstuck

end Iriseus.Core
