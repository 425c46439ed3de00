import Iriseus.Core.Application

/-!
# The current session

`m_currentSessionId` is the session `sendFiles` offers its files to, and 0
stands for no connected device.  A `hello` sets it and a disconnection of that
session resets it; both do so only once `init` has made the file manager.

One slot stands for a set of sessions.  It is wrong after a `hello` that came
before the file manager, and after the current session has disconnected while
others are connected.

## Main results

* `current_session_right` — in every run without these two, the slot is right;
  and no other step makes it wrong.
-/

namespace Iriseus.Core

open Iriseus.Verified
open Iriseus.Verified.ByteStream
open FileTransferManager

variable {κ : Type} {H : IncrementalHash}

/-! ## Connected devices, read off the history -/

def afterGreeting (greeted : List (Nat × UInt64)) : AppEvent κ → List (Nat × UInt64)
  | .received n sessionId msg =>
      if msg.type = .hello then (n, sessionId) :: greeted else greeted
  | .server (.disconnected n _) => greeted.filter (·.1 ≠ n)
  | _ => greeted

/-- The sessions that have sent `hello` and have not disconnected, each with
its identifier. -/
def greetedIn (h : List (AppEvent κ)) : List (Nat × UInt64) := h.foldl afterGreeting []

/-- The event is a `hello` or a disconnection. -/
def AppEvent.greets : AppEvent κ → Bool
  | .received _ _ msg => msg.type = .hello
  | .server (.disconnected _ _) => true
  | _ => false

theorem greetedIn_append {h es : List (AppEvent κ)} (hes : ∀ e ∈ es, e.greets = false) :
    greetedIn (h ++ es) = greetedIn h := by
  rw [greetedIn, List.foldl_append, ← greetedIn]
  induction es with
  | nil => rfl
  | cons e es ih =>
      have he : afterGreeting (greetedIn h) e = greetedIn h := by
        have hquiet := hes e (by simp)
        cases e with
        | received n sessionId msg =>
            have htype : msg.type ≠ .hello := by simpa [AppEvent.greets] using hquiet
            exact if_neg htype
        | server e =>
            cases e with
            | disconnected => cases hquiet
            | _ => rfl
        | _ => rfl
      rw [List.foldl_cons, he]
      exact ih fun x hx => hes x (by simp [hx])

/-- The value stands for the connected devices: it is the identifier of one of
them, and 0 if there is none. -/
def IsCurrent (current : UInt64) (greeted : List (Nat × UInt64)) : Prop :=
  if greeted = [] then current = 0 else current ∈ greeted.map Prod.snd

instance (current : UInt64) (greeted : List (Nat × UInt64)) :
    Decidable (IsCurrent current greeted) :=
  inferInstanceAs (Decidable (ite _ _ _))

theorem isCurrent_of_mem {n : Nat} {current : UInt64} {greeted : List (Nat × UInt64)}
    (hmem : (n, current) ∈ greeted) : IsCurrent current greeted := by
  rw [IsCurrent, if_neg (List.ne_nil_of_mem hmem)]
  exact List.mem_map.mpr ⟨_, hmem, rfl⟩

/-- `currentSession()`, once there is a file manager. -/
def Application.slot (app : Application κ H) : Option UInt64 :=
  app.fileManager.map (·.currentSessionId)

/-- `currentSession()` stands for the connected devices. -/
def CurrentRight (app : Application κ H) (h : List (AppEvent κ)) : Prop :=
  ∀ current, app.slot = some current → IsCurrent current (greetedIn h)

/-- The file manager is made while no device is connected, and the current
session disconnects only as the last connected device, unless one of the
connected devices has the identifier 0 itself. -/
def CurrentKept : Machine.StepCond (Application κ H) (AppAction κ) (AppEvent κ) :=
  fun app h a =>
    match a with
    | .init _ _ =>
        match app.stage with
        | .constructFileManager _ => IsCurrent 0 (greetedIn h)
        | _ => True
    | .disconnect n =>
        match app.slot, app.server.accepted[n]? with
        | some current, some (sessionId, _) =>
            current = sessionId → IsCurrent 0 ((greetedIn h).filter (·.1 ≠ n))
        | _, _ => True
    | _ => True

instance : ∀ (app : Application κ H) h a, Decidable (CurrentKept app h a) := by
  intro app h a
  unfold CurrentKept
  split
  · split <;> infer_instance
  · split <;> infer_instance
  · infer_instance

/-! ## What a step does to the slot -/

section Transfers

variable {P : Platform κ}

theorem cancel_current (m : FileTransferManager) (id : String) :
    (m.cancel (κ := κ) id).1.currentSessionId = m.currentSessionId := by
  unfold cancel
  split <;> rfl

/-- Of the calls on the manager only `setCurrentSession` changes the slot. -/
theorem control_current {m m' : FileTransferManager} {fs : FileStore κ} {a : Control}
    {es : List (TransferEvent κ)} (h : control P H m fs a = some (m', es))
    (ha : ∀ sessionId, a ≠ .setCurrentSession sessionId) :
    m'.currentSessionId = m.currentSessionId := by
  cases control_cases P H h with
  | setCurrentSession => exact absurd rfl (ha _)
  | sendFiles =>
      simp only [sendFiles]
      split <;> split <;> rfl
  | cancel => exact cancel_current m _
  | send _ _ _ hr =>
      rw [hr]
      rfl
  | _ => rfl

theorem cleanNext_current (m : FileTransferManager) :
    (m.cleanNext (κ := κ)).1.currentSessionId = m.currentSessionId := by
  unfold cleanNext
  split <;> rfl

theorem effect_current [DecidableEq κ] (w : World κ H) (c : Nat) (s : ActiveTransferSession)
    (e : Effect κ) :
    (w.effect c s e).1.manager.currentSessionId = w.manager.currentSessionId := by
  cases e <;> rfl

theorem onFinished_current {m m' : FileTransferManager} {c : Nat} {cb : FinishedCallback}
    {es : List (TransferEvent κ)} (h : m.onFinished c cb = (m', es)) :
    m'.currentSessionId = m.currentSessionId := by
  cases onFinished_cases h <;> rfl

/-- Of the steps of the file transfers only `setCurrentSession` changes the
slot. -/
theorem transferStep_current [DecidableEq κ] {w w' : World κ H} {a : TransferAction κ}
    {es : List (TransferEvent κ)} (hs : transferStep P H w a = some (w', es))
    (ha : ∀ sessionId, a ≠ .control (.setCurrentSession sessionId)) :
    w'.manager.currentSessionId = w.manager.currentSessionId := by
  have hm := managerStep_cases hs
  cases hm with
  | call hcall => exact control_current hcall fun sessionId heq => ha sessionId (heq ▸ rfl)
  | next hm => rw [hm, cleanNext_current]
  | effect hm => rw [hm, effect_current]
  | callback _ hstep => exact onFinished_current hstep
  | same hm => rw [hm]

end Transfers

/-- What a step of the program does to the slot, with the events of each. -/
inductive SlotStep (app app' : Application κ H) (a : AppAction κ)
    (es : List (AppEvent κ)) : Prop
  | keep (hstage : app'.stage.beforeFileManager = app.stage.beforeFileManager)
      (hslot : app'.slot = app.slot) (hes : ∀ e ∈ es, e.greets = false)
      (hkept : ∀ h, CurrentKept app h a)
  | hello {n : Nat} {sessionId : UInt64} {msg : ControlMessage} {tail : List (AppEvent κ)}
      (hn : app.server.accepted[n]? = some (sessionId, .reading))
      (hstage : app'.stage = app.stage)
      (hslot : app'.slot = app.slot.map fun _ => sessionId)
      (hes : es = .received n sessionId msg :: tail) (htype : msg.type = .hello)
      (htail : ∀ e ∈ tail, e.greets = false) (hkept : ∀ h, CurrentKept app h a)
  | construct {flip : Bool} {kp : KeyPair} {ok : Bool} (ha : a = .init kp ok)
      (hstage : app.stage = .constructFileManager flip)
      (hstage' : app'.stage.beforeFileManager = false) (hslot : app'.slot = some 0)
      (hes : es = [])
  | disconnect {n : Nat} {sessionId : UInt64} (ha : a = .disconnect n)
      (hn : app.server.accepted[n]? = some (sessionId, .reading))
      (hstage : app'.stage = app.stage)
      (hslot : app'.slot =
        app.slot.map fun current => if current = sessionId then 0 else current)
      (hes : es = [.server (.disconnected n sessionId)])
  | ended (hended : app'.ended.isSome = true)

section Steps

variable [DecidableEq κ] {P : Platform κ} {parse : Bytes → Option Json} {kx : KxServer}

open Application

omit [DecidableEq κ] in
theorem greets_of_serverOf {e : AppEvent κ} (h : serverOf e = none) : e.greets = false := by
  cases e <;> first | rfl | cases h

omit [DecidableEq κ] in
/-- Of the messages only `hello` sets the slot. -/
theorem messageStep_slot {app app' : Application κ H} {es : List (AppEvent κ)}
    {sessionId : UInt64} {msg : ControlMessage}
    (h : MessageStep kx P app sessionId msg app' es) :
    app'.stage = app.stage ∧ (∀ e ∈ es, e.greets = false) ∧
      app'.slot = if msg.type = .hello then app.slot.map fun _ => sessionId else app.slot := by
  cases h with
  | hello htype =>
      refine ⟨rfl, by simp [AppEvent.greets], ?_⟩
      simp [htype, slot, onDeviceConnected, Function.comp_def]
  | pairRequest htype hpair =>
      obtain ⟨⟨settings, pairing, rfl, -⟩, hes⟩ := onPairRequest_frame hpair
      exact ⟨rfl, fun e he => greets_of_serverOf (hes e he).2, by simp [htype, slot]⟩
  | file htype ha hm hcall =>
      have hcurrent := control_current hcall ha
      exact ⟨rfl, by simp [AppEvent.greets], by simp [htype, slot, hm, hcurrent]⟩
  | post htype => exact ⟨rfl, by simp, by simp [htype, slot, post]⟩
  | quiet htype hes =>
      refine ⟨rfl, ?_, by simp [htype]⟩
      rcases hes with rfl | rfl <;> simp [AppEvent.greets]

/-- A move of the file transfers that is not `setCurrentSession` leaves the slot
alone. -/
theorem transferMove_slot {app : Application κ H} {a : TransferAction κ}
    {m : FileTransferManager} {w : World κ H} {tes : List (TransferEvent κ)}
    (ha : ∀ sessionId, a ≠ .control (.setCurrentSession sessionId))
    (hm : app.fileManager = some m) (hstep : transferStep P H app.world a = some (w, tes)) :
    (app.setWorld w).slot = app.slot ∧
      ∀ e ∈ tes.map (AppEvent.transfer none), e.greets = false := by
  have hcurrent := transferStep_current hstep ha
  refine ⟨?_, by simp [AppEvent.greets]⟩
  simp only [world, hm, Option.getD_some] at hcurrent
  simp [slot, setWorld, hm, hcurrent]

/-- `init` makes the file manager in one step; the others leave the slot alone. -/
theorem initStep_slot {app app' : Application κ H} {kp : KeyPair} {ok : Bool}
    {es : List (AppEvent κ)} (h : app.initStep P kp ok = some (app', es)) :
    SlotStep app app' (.init kp ok) es := by
  have hkept : (∀ flip, app.stage ≠ .constructFileManager flip) →
      ∀ h, CurrentKept app h (.init kp ok) := by
    intro hstage h
    simp only [CurrentKept]
  unfold initStep at h
  cases hstage : app.stage with
  | constructFileManager flip =>
      simp only [hstage] at h
      cases h
      exact .construct rfl hstage rfl rfl rfl
  | startFileManager flip =>
      simp only [hstage] at h
      obtain ⟨m, w, tes, hm, hstep, rfl, rfl⟩ := transferMove_cases h
      obtain ⟨hslot, hes⟩ := transferMove_slot (by simp) hm hstep
      exact .keep (by rw [hstage]; rfl) hslot hes (hkept (by simp [hstage]))
  | restoreDevice =>
      simp only [hstage] at h
      (repeat' split at h) <;> cases h <;>
        exact .keep (by rw [hstage]; rfl) rfl (by simp [AppEvent.greets])
          (hkept (by simp [hstage]))
  | ready => simp [hstage] at h
  | _ =>
      simp only [hstage] at h
      cases h
      exact .keep (by rw [hstage]; rfl) rfl (by simp) (hkept (by simp [hstage]))

/-- **Inversion.**  What a step of the program does to the slot. -/
theorem appStep_slot {app app' : Application κ H} {a : AppAction κ}
    {es : List (AppEvent κ)} (h : appStep parse kx P app a = some (app', es)) :
    SlotStep app app' a es := by
  cases appStep_cases h with
  | init hinit => exact initStep_slot hinit
  | connect | handshake => exact .keep rfl rfl (by simp) fun h => trivial
  | disconnect _ hn =>
      refine .disconnect rfl hn rfl ?_ rfl
      simp only [onDeviceDisconnected, slot, Option.map_map]
      congr 1
      funext m
      simp only [Function.comp_apply]
      split <;> rfl
  | @message n raw token sessionId _ _ hn hmove =>
      obtain ⟨hstage, htail, hslot⟩ := messageStep_slot hmove
      by_cases htype : (parseMessage parse raw).type = .hello
      · rw [if_pos htype] at hslot
        exact .hello hn hstage hslot rfl htype htail fun h => trivial
      · rw [if_neg htype] at hslot
        refine .keep (by rw [hstage]) hslot ?_ fun h => trivial
        intro e he
        rcases List.mem_cons.mp he with rfl | he
        · simp [AppEvent.greets, htype]
        · exact htail e he
  | throws => exact .ended rfl
  | createOffer => exact .keep rfl rfl (by simp [AppEvent.greets]) fun h => trivial
  | toggleFlip =>
      exact .keep rfl rfl (by simp [applyFlip, AppEvent.greets]) fun h => trivial
  | @runTask task =>
      cases task <;>
        exact .keep rfl rfl (by simp [Application.runTask, applyFlip, AppEvent.greets])
          fun h => trivial
  | @transfers a m w tes hcan hm hstep =>
      obtain ⟨hslot, hes⟩ := transferMove_slot (by
        rintro sessionId rfl
        cases hcan) hm hstep
      exact .keep rfl hslot hes fun h => trivial

/-! ## The slot in a run -/

/-- The identifier of an accepted session does not change. -/
theorem serverStep_accepted {srv srv' : WsServer} {a : ServerAction} {es : List ServerEvent}
    (hs : serverStep srv a = some (srv', es)) {n : Nat} {id : UInt64} {link : LinkState}
    (hn : srv.accepted[n]? = some (id, link)) :
    ∃ link', srv'.accepted[n]? = some (id, link') := by
  have hset : ∀ {m i l l'}, srv.accepted[m]? = some (i, l) →
      ∃ link', (srv.accepted.set m (i, l'))[n]? = some (id, link') := by
    intro m i l l' hm
    by_cases hnm : n = m
    · subst hnm
      rw [hn, Option.some.injEq, Prod.mk.injEq] at hm
      have hlt : n < srv.accepted.length := (List.getElem?_eq_some_iff.mp hn).1
      exact ⟨l', by rw [List.getElem?_set_self hlt, hm.1]⟩
    · exact ⟨link, by rw [List.getElem?_set_ne (Ne.symm hnm), hn]⟩
  cases a with
  | accept =>
      cases hs
      exact ⟨link, getElem?_snoc.mpr (Or.inl hn)⟩
  | handshake m ok =>
      simp only [serverStep] at hs
      split at hs
      · rename_i i hm
        cases hs
        exact hset hm
      · cases hs
  | read m ok =>
      simp only [serverStep] at hs
      split at hs
      · rename_i i hm
        split at hs <;> cases hs
        · exact ⟨link, hn⟩
        · exact hset hm
      · cases hs
  | sendTo sessionId =>
      simp only [serverStep] at hs
      split at hs <;> cases hs <;> exact ⟨link, hn⟩
  | broadcast =>
      cases hs
      exact ⟨link, hn⟩

/-- The slot exists once `init` has made the file manager, and stands for the
connected devices, which are accepted sessions. -/
structure CurrentInv (app : Application κ H) (h : List (AppEvent κ)) : Prop where
  exists_slot : app.stage.beforeFileManager = false → app.slot.isSome = true
  no_slot : app.stage.beforeFileManager = true → app.slot = none
  accepted : ∀ n sessionId, (n, sessionId) ∈ greetedIn h →
    ∃ link, app.server.accepted[n]? = some (sessionId, link)
  right : CurrentRight app h

omit [DecidableEq κ] in
/-- A step that does not end the program keeps the slot right exactly if it
meets `CurrentKept`. -/
theorem SlotStep.right_iff {app app' : Application κ H} {a : AppAction κ}
    {h es : List (AppEvent κ)} (hI : CurrentInv app h) (hs : SlotStep app app' a es)
    (hrun : app'.ended = none) : CurrentRight app' (h ++ es) ↔ CurrentKept app h a := by
  cases hs with
  | keep hstage hslot hes hkept =>
      refine iff_of_true ?_ (hkept h)
      intro current hcurrent
      rw [greetedIn_append hes]
      exact hI.right current (hslot ▸ hcurrent)
  | @hello n sessionId msg tail hn hstage hslot hes htype htail hkept =>
      refine iff_of_true ?_ (hkept h)
      have hgreeted : greetedIn (h ++ es) = (n, sessionId) :: greetedIn h := by
        rw [hes, show h ++ .received n sessionId msg :: tail =
          h ++ [.received n sessionId msg] ++ tail by simp, greetedIn_append htail]
        simp [greetedIn, afterGreeting, htype]
      intro current hcurrent
      obtain ⟨_, -, rfl⟩ := Option.map_eq_some_iff.mp (hslot ▸ hcurrent)
      rw [hgreeted]
      exact isCurrent_of_mem List.mem_cons_self
  | @construct flip kp ok ha hstage hstage' hslot hes =>
      subst ha hes
      simp [CurrentRight, CurrentKept, hslot, hstage]
  | @disconnect n sessionId ha hn hstage hslot hes =>
      subst ha
      have hgreeted : greetedIn (h ++ es) = (greetedIn h).filter (·.1 ≠ n) := by
        simp [hes, greetedIn, afterGreeting]
      cases hcur : app.slot with
      | none => simp [CurrentRight, CurrentKept, hslot, hcur]
      | some current =>
          have hright : CurrentRight app' (h ++ es) ↔
              IsCurrent (if current = sessionId then 0 else current)
                ((greetedIn h).filter (·.1 ≠ n)) := by
            simp [CurrentRight, hslot, hcur, hgreeted]
          rw [hright]
          by_cases hid : current = sessionId
          · simp [CurrentKept, hcur, hn, hid]
          · refine iff_of_true ?_ (by simp [CurrentKept, hcur, hn, hid])
            rw [if_neg hid]
            -- the current session is another one, and stays connected
            have hold := hI.right current hcur
            simp only [IsCurrent] at hold
            split at hold
            · rename_i hnil
              simp [IsCurrent, hnil, hold]
            · obtain ⟨⟨m, _⟩, hm, rfl⟩ := List.mem_map.mp hold
              have hne : m ≠ n := by
                rintro rfl
                obtain ⟨link, hlink⟩ := hI.accepted m _ hm
                rw [hn, Option.some.injEq, Prod.mk.injEq] at hlink
                exact hid hlink.1.symm
              refine isCurrent_of_mem (n := m) ?_
              simpa using ⟨hm, hne⟩
  | ended hended => simp [hrun] at hended

/-- **One step.** -/
theorem currentInv_step {app app' : Application κ H} {a : AppAction κ}
    {h es : List (AppEvent κ)} (hI : CurrentInv app h) (hinit : InitInv app)
    (hok : CurrentKept app h a) (hs : appStep parse kx P app a = some (app', es))
    (hrun : app'.ended = none) : CurrentInv app' (h ++ es) := by
  have hslot := appStep_slot hs
  have hserver : ∀ (n : Nat) (sessionId : UInt64) (link : LinkState),
      app.server.accepted[n]? = some (sessionId, link) →
      ∃ link', app'.server.accepted[n]? = some (sessionId, link') := by
    intro n sessionId link hn
    cases (appStep_effects hinit hs).server with
    | same hsame => exact ⟨link, by rw [hsame, hn]⟩
    | move b hmove => exact serverStep_accepted hmove hn
  have hkeep : ∀ n sessionId, (n, sessionId) ∈ greetedIn h →
      ∃ link, app'.server.accepted[n]? = some (sessionId, link) := by
    intro n sessionId hmem
    obtain ⟨link, hlink⟩ := hI.accepted n sessionId hmem
    exact hserver n sessionId link hlink
  have hright : CurrentRight app' (h ++ es) := (hslot.right_iff hI hrun).mpr hok
  cases hslot with
  | keep hstage hslot hes hkept =>
      exact
        { exists_slot := fun hb => by rw [hslot]; exact hI.exists_slot (hstage ▸ hb)
          no_slot := fun hb => by rw [hslot]; exact hI.no_slot (hstage ▸ hb)
          accepted := by rw [greetedIn_append hes]; exact hkeep
          right := hright }
  | @hello n sessionId msg tail hn hstage hslot hes htype htail hkept =>
      refine
        { exists_slot := fun hb => ?_, no_slot := fun hb => ?_, accepted := ?_,
          right := hright }
      · rw [hslot, Option.isSome_map]
        exact hI.exists_slot (hstage ▸ hb)
      · rw [hslot, hI.no_slot (hstage ▸ hb), Option.map_none]
      · rw [hes, show h ++ .received n sessionId msg :: tail =
          h ++ [.received n sessionId msg] ++ tail by simp, greetedIn_append htail]
        intro m id hmem
        have hcases : (m = n ∧ id = sessionId) ∨ (m, id) ∈ greetedIn h := by
          simpa [greetedIn, afterGreeting, htype] using hmem
        rcases hcases with ⟨rfl, rfl⟩ | hold
        · exact hserver _ _ _ hn
        · exact hkeep m id hold
  | construct ha hstage hstage' hslot hes =>
      exact
        { exists_slot := fun _ => by rw [hslot]; rfl
          no_slot := fun hb => by rw [hstage'] at hb; cases hb
          accepted := by rw [hes, List.append_nil]; exact hkeep
          right := hright }
  | @disconnect n sessionId ha hn hstage hslot hes =>
      refine
        { exists_slot := fun hb => ?_, no_slot := fun hb => ?_, accepted := ?_,
          right := hright }
      · rw [hslot, Option.isSome_map]
        exact hI.exists_slot (hstage ▸ hb)
      · rw [hslot, hI.no_slot (hstage ▸ hb), Option.map_none]
      · intro m id hmem
        have hold : (m, id) ∈ greetedIn h ∧ m ≠ n := by
          simpa [hes, greetedIn, afterGreeting] using hmem
        exact hkeep m id hold.1
  | ended hended => simp [hrun] at hended

/-- **The current session is a connected device.**  After every run whose steps
meet `CurrentKept` and have not ended the program, once `init` has finished, the
slot is the identifier of a connected device, and 0 if there is none; and a
step that does not end the program keeps the slot right if and only if it meets
the condition. -/
theorem current_session_right {app : Application κ H} {h : List (AppEvent κ)}
    (hr : (appMachine parse kx P H).Reach CurrentKept app h) (hrun : app.ended = none) :
    (app.stage = .ready →
      ∃ current, app.slot = some current ∧ IsCurrent current (greetedIn h)) ∧
    ∀ a app' es, (appMachine parse kx P H).step app a = some (app', es) →
      app'.ended = none → (CurrentRight app' (h ++ es) ↔ CurrentKept app h a) := by
  have hinv : app.ended = none → CurrentInv app h := by
    refine hr.invariant_along (fun app h => app.ended = none → CurrentInv app h) ?_ ?_
    · rintro app ⟨-, -, settings, fs, rfl⟩ -
      exact
        { exists_slot := by simp [InitStage.beforeFileManager]
          no_slot := fun _ => rfl
          accepted := by simp [greetedIn]
          right := by simp [CurrentRight, slot] }
    · intro app h a app' es hr hI hok hstep
      obtain ⟨hrun, hstep⟩ := appMachine_step hstep
      exact currentInv_step (hI hrun) (initInv_reach hr) hok hstep
  have hI := hinv hrun
  refine ⟨fun hready => ?_, fun a app' es hstep hrun' => ?_⟩
  · obtain ⟨current, hcurrent⟩ := Option.isSome_iff_exists.mp
      (hI.exists_slot (by rw [hready]; rfl))
    exact ⟨current, hcurrent, hI.right current hcurrent⟩
  · exact (appStep_slot (appMachine_step hstep).2).right_iff hI hrun'

end Steps

/-! ## One device that leaves, and one of two -/

def helloMessages : List (String × Json) :=
  [("\x7b\"type\":\"hello\"\x7d", .object [("type", .string "hello")])]

/-- Session `n` connects and says hello. -/
def greet (n : Nat) : List (AppAction String) :=
  [ .connect, .handshake n true
  , .message n (ascii "\x7b\"type\":\"hello\"\x7d") (sampleToken 0) ]

/-- A device comes and leaves, and then another one comes. -/
theorem current_session_sample :
    ∃ (app : Application String sha256) (h : List (AppEvent String)),
      (appMachine (parseTable helloMessages) sampleKx samplePlatform sha256).Reach
        CurrentKept app h ∧
      (app.stage = .ready ∧ app.ended = none ∧ greetedIn h ≠ []) ∧
      ∃ current, app.slot = some current ∧ IsCurrent current (greetedIn h) := by
  obtain ⟨app, h, hr, hh⟩ := Machine.exists_reach_of_exec
    (appMachine (parseTable helloMessages) sampleKx samplePlatform sha256)
    CurrentKept (s := sampleProgram) sampleProgram_init
    (initActions ++ greet 0 ++ [.disconnect 0] ++ greet 1)
    (fun (app : Application String sha256) h =>
      decide (app.stage = .ready ∧ app.ended = none ∧ greetedIn h ≠ []))
    (by decide +kernel)
  have hat := of_decide_eq_true hh
  exact ⟨app, h, hr, hat, (current_session_right hr hat.2.1).1 hat.1⟩

/-- Two devices connect and the second leaves: the first is still connected,
and the slot is 0. -/
theorem first_device_forgotten :
    ¬∀ (app : Application String sha256) (h : List (AppEvent String)),
      (appMachine (parseTable helloMessages) sampleKx samplePlatform sha256).Reach
        Machine.anyStep app h → app.ended = none → app.stage = .ready →
      ∃ current, app.slot = some current ∧ IsCurrent current (greetedIn h) := by
  intro hall
  obtain ⟨app, h, hr, hh⟩ := Machine.exists_reach_of_exec
    (appMachine (parseTable helloMessages) sampleKx samplePlatform sha256)
    Machine.anyStep (s := sampleProgram) sampleProgram_init
    (initActions ++ greet 0 ++ greet 1 ++ [.disconnect 1])
    (fun (app : Application String sha256) h =>
      decide (app.ended = none ∧ app.stage = .ready ∧ app.slot = some 0 ∧
        greetedIn h = [(0, 1)]))
    (by decide +kernel)
  obtain ⟨hrun, hready, hslot, hgreeted⟩ := of_decide_eq_true hh
  obtain ⟨current, hcurrent, hright⟩ := hall app h hr hrun hready
  rw [hslot, Option.some.injEq] at hcurrent
  rw [← hcurrent, hgreeted] at hright
  exact absurd hright (by decide)

end Iriseus.Core
