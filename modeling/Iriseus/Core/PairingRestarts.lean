import Iriseus.Core.Application

/-!
# Paired devices across restarts

Pairing survives a restart through the settings: `m_onPaired` writes the
device, and `Application::init` restores what it finds there.  A run is a run of
an installed program that may end and be started again at any point.  Each start
goes through `init` stage by stage, while the io thread already handles messages:
a request can be accepted before `m_onPaired` is installed, and before the
settings are read.

The history says which requests were accepted, where `init` installs the
callback, reads the settings and returns, and which devices were paired when
`init` returned and when the program ended.  `Ledger` is what it says about the
present start; `SavedInv` ties it to the program.

The settings have one place for a paired device, so a restart keeps the paired
devices if and only if every device accepted so far has been accepted again or is
the one in that place (`pairings_survive_iff`).
-/

namespace Iriseus.Core

open Iriseus.Verified
open Iriseus.Verified.ByteStream
open PairingManager

/-! ## Runs with restarts -/

namespace Application

variable {κ : Type} {H : IncrementalHash}

/-- The identifiers for which `isPaired` holds. -/
def pairedIds (app : Application κ H) : List String :=
  match app.pairing with
  | some p => p.devices.keys
  | none => []

/-- The program ends and is started again: of what it was before, the settings
and the files are left, and no file is open. -/
def restart (app : Application κ H) : Application κ H where
  settings := app.settings
  fs := { app.fs with handles := [] }

/-- The step is the last one of `init`. -/
def returns (app : Application κ H) : AppAction κ → Bool
  | .init _ _ =>
      match app.stage with
      | .showTray _ => true
      | _ => false
  | _ => false

end Application

/-- A step of the program, or its end and next start. -/
inductive RestartAction (κ : Type) where
  | app (a : AppAction κ)
  | restart

inductive RestartEvent where
  /-- A request of this device was accepted. -/
  | paired (deviceId : String)
  /-- `init` has installed `m_onPaired`. -/
  | installed
  /-- `init` has read the settings. -/
  | loaded
  /-- `init` has returned, and `isPaired` holds for these identifiers. -/
  | returned (paired : List String)
  /-- The program ended while `isPaired` held for these identifiers. -/
  | exited (paired : List String)
  deriving DecidableEq, Repr

def restartEventOf {κ : Type} : AppEvent κ → Option RestartEvent
  | .paired deviceId => some (.paired deviceId)
  | _ => none

section Machine

variable {κ : Type} [DecidableEq κ] {H : IncrementalHash}
variable (parse : Bytes → Option Json) (kx : KxServer) (P : Platform κ)

/-- What a step of `init` adds to the history; `app` is the program after it. -/
def initEvents (stage : InitStage) (app : Application κ H) : List RestartEvent :=
  match stage with
  | .setOnPaired => [.installed]
  | .restoreDevice => [.loaded]
  | .showTray _ => [.returned app.pairedIds]
  | _ => []

def restartStep (app : Application κ H) :
    RestartAction κ → Option (Application κ H × List RestartEvent)
  | .app (.init kp ok) =>
      match (appMachine parse kx P H).step app (.init kp ok) with
      | some (app', _) => some (app', initEvents app.stage app')
      | none => none
  | .app a =>
      match (appMachine parse kx P H).step app a with
      | some (app', es) => some (app', es.filterMap restartEventOf)
      | none => none
  | .restart => some (app.restart, [.exited app.pairedIds])

/-- The program has been installed and started: nothing is saved yet. -/
def restartMachine (H : IncrementalHash) :
    Machine (Application κ H) (RestartAction κ) RestartEvent where
  Init app := AppInit app ∧ app.settings.pairedDeviceId = ""
  step := restartStep parse kx P

end Machine

/-! ## What the history says -/

/-- What a history says: whether the present start has installed `m_onPaired`,
what the settings hold, what it has read there, the identifiers paired when the
last start ended, those accepted since, and those accepted so far. -/
structure Ledger where
  installed : Bool := false
  slot : String := ""
  loaded : String := ""
  before : List String := []
  since : List String := []
  all : List String := []
  deriving DecidableEq, Repr

def Ledger.after (l : Ledger) : RestartEvent → Ledger
  | .paired deviceId =>
      { l with
        slot := if l.installed then fromStdString deviceId else l.slot
        since := deviceId :: l.since
        all := deviceId :: l.all }
  | .installed => { l with installed := true }
  | .loaded => { l with loaded := l.slot }
  | .returned _ => l
  | .exited paired => { l with installed := false, loaded := "", before := paired, since := [] }

def ledger (h : List RestartEvent) : Ledger := h.foldl Ledger.after {}

@[simp] theorem ledger_snoc (h : List RestartEvent) (e : RestartEvent) :
    ledger (h ++ [e]) = (ledger h).after e := by
  simp [ledger]

/-- Whenever `init` has returned, the paired identifiers are those that were
paired when the program ended and those accepted since. -/
def PairingsSurvive (h : List RestartEvent) : Prop :=
  ∀ h₁ paired h₂, h = h₁ ++ .returned paired :: h₂ →
    ∀ id, id ∈ paired ↔ id ∈ (ledger h₁).before ∨ id ∈ (ledger h₁).since

/-- Every device accepted so far has been accepted again since the start, or is
the one that was read from the settings; and what was read there was accepted. -/
def Ledger.Kept (l : Ledger) : Prop :=
  (∀ id ∈ l.all, id ∈ l.since ∨ (id = l.loaded ∧ id ≠ "")) ∧
    (l.loaded = "" ∨ l.loaded ∈ l.all)

/-- `init` returns only when it has kept the devices accepted so far, and the
program does not end before `init` has returned. -/
def KeepsPaired {κ : Type} {H : IncrementalHash} :
    Machine.StepCond (Application κ H) (RestartAction κ) RestartEvent :=
  fun app h a =>
    match a with
    | .app a => app.returns a = true → (ledger h).Kept
    | .restart => app.stage = .ready

instance (l : Ledger) : Decidable l.Kept :=
  inferInstanceAs (Decidable ((∀ id ∈ l.all, id ∈ l.since ∨ (id = l.loaded ∧ id ≠ "")) ∧ _))

instance {κ : Type} {H : IncrementalHash} (app : Application κ H) (h : List RestartEvent)
    (a : RestartAction κ) : Decidable (KeepsPaired app h a) := by
  unfold KeepsPaired
  split <;> infer_instance

/-! ## What a step does to the saved device and to the paired ones -/

/-- The stage comes after the reading of the settings. -/
def InitStage.restored : InitStage → Bool
  | .constructPairing => false
  | .setOnPaired => false
  | .restoreDevice => false
  | _ => true

/-- All the ways in which a step changes the saved device, the paired ones and
the stage, with its events. -/
inductive SavedMove {κ : Type} {H : IncrementalHash} (app app' : Application κ H) :
    RestartAction κ → List RestartEvent → Prop
  | quiet {a : AppAction κ} (hother : app.returns a = false)
      (hinstalled : app'.stage.onPairedSet = app.stage.onPairedSet)
      (hrestored : app'.stage.restored = app.stage.restored)
      (hready : app'.stage = .ready → app.stage = .ready)
      (hids : ∀ id, id ∈ app'.pairedIds ↔ id ∈ app.pairedIds)
      (hsaved : app'.settings.pairedDeviceId = app.settings.pairedDeviceId) :
      SavedMove app app' (.app a) []
  | request {a : AppAction κ} {deviceId : String} (hother : app.returns a = false)
      (hstage : app'.stage = app.stage)
      (hids : ∀ id, id ∈ app'.pairedIds ↔ id ∈ app.pairedIds ∨ id = deviceId)
      (hsaved : app'.settings.pairedDeviceId =
        if app.stage.onPairedSet then fromStdString deviceId
        else app.settings.pairedDeviceId) :
      SavedMove app app' (.app a) [.paired deviceId]
  | installs {a : AppAction κ} (hother : app.returns a = false)
      (hstage : app.stage = .setOnPaired)
      (hstage' : app'.stage = .restoreDevice)
      (hids : ∀ id, id ∈ app'.pairedIds ↔ id ∈ app.pairedIds)
      (hsaved : app'.settings.pairedDeviceId = app.settings.pairedDeviceId) :
      SavedMove app app' (.app a) [.installed]
  | loads {a : AppAction κ} {flip : Bool} (hother : app.returns a = false)
      (hstage : app.stage = .restoreDevice)
      (hstage' : app'.stage = .constructStream flip)
      (hids : ∀ id, id ∈ app'.pairedIds ↔ id ∈ app.pairedIds ∨
        (app.settings.pairedDeviceId ≠ "" ∧ id = app.settings.pairedDeviceId))
      (hsaved : app'.settings.pairedDeviceId = app.settings.pairedDeviceId) :
      SavedMove app app' (.app a) [.loaded]
  | returns {a : AppAction κ} {flip : Bool} (hreturns : app.returns a = true)
      (hstage : app.stage = .showTray flip)
      (hstage' : app'.stage = .ready)
      (hids : ∀ id, id ∈ app'.pairedIds ↔ id ∈ app.pairedIds)
      (hsaved : app'.settings.pairedDeviceId = app.settings.pairedDeviceId) :
      SavedMove app app' (.app a) [.returned app'.pairedIds]
  | exits (heq : app' = app.restart) : SavedMove app app' .restart [.exited app.pairedIds]

section Steps

variable {κ : Type} {H : IncrementalHash}

theorem mem_pairedIds {app : Application κ H} {p : PairingManager}
    (hp : app.pairing = some p) (id : String) :
    id ∈ app.pairedIds ↔ p.isPaired id = true := by
  rw [Application.pairedIds, hp, isPaired, AList.lookup_isSome, AList.mem_keys]

/-- An accepted request adds its device, and saves it if `m_onPaired` is
installed; a refused one changes nothing. -/
theorem onPairRequest_saved {kx : KxServer} {app app' : Application κ H}
    {es : List (AppEvent κ)} {sessionId : UInt64} {payload : Json} {a : AppAction κ}
    (hother : app.returns a = false)
    (h : app.onPairRequest kx sessionId payload = .ok (app', es)) :
    SavedMove app app' (.app a) (es.filterMap restartEventOf) := by
  simp only [Application.onPairRequest, bind_eq_ok, mapError_eq_ok] at h
  obtain ⟨pin, -, pk, -, deviceId, -, deviceName, -, h⟩ := h
  cases hp : app.pairing with
  | none => simp [hp] at h
  | some p =>
      simp only [hp, bind_eq_ok, mapError_eq_ok, pure, Except.pure, Except.ok.injEq,
        Prod.mk.injEq] at h
      obtain ⟨ok, -, rfl, rfl⟩ := h
      rcases handlePairRequest_cases kx p pin pk deviceId deviceName with
        ⟨-, -, device, hid, -, heq⟩ | ⟨-, r, -, heq⟩
      · rw [heq]
        have hes : List.filterMap restartEventOf
            (AppEvent.pairing (κ := κ) (requestEvent pin (.ok ok)) ::
              ([device].map fun device => .paired device.deviceId) ++
              [.send sessionId (if ok then .pairAccepted else .pairRejected)]) =
            [.paired deviceId] := by
          simp [restartEventOf, hid, List.filterMap_cons]
        rw [hes]
        refine .request hother ?_ (fun id => ?_) ?_
        · simp only [Application.onPaired]
          split <;> rfl
        · have hdev := isPaired_insert p device deviceId "" id
          rw [mem_pairedIds hp]
          rw [mem_pairedIds (p := { p with
            devices := p.devices.insert deviceId device, activePin := "" }) rfl]
          exact hdev
        · simp only [Application.onPaired, Application.saveDevice, List.foldl_cons, List.foldl_nil,
            hid]
          split <;> rfl
      · rw [heq]
        refine .quiet hother ?_ ?_ ?_ (fun id => ?_) ?_
        all_goals
          simp only [Application.onPaired, List.foldl_nil, ite_self, Application.pairedIds, hp]
        exact id

/-- A step that leaves the pairing manager's devices, the saved device and the
stage alone, with no event of theirs. -/
theorem SavedMove.of_same {app app' : Application κ H} {a : AppAction κ}
    {es : List (AppEvent κ)} (hother : app.returns a = false)
    (hstage : app'.stage = app.stage) (hids : app'.pairedIds = app.pairedIds)
    (hsaved : app'.settings.pairedDeviceId = app.settings.pairedDeviceId)
    (hes : ∀ e ∈ es, restartEventOf e = none) :
    SavedMove app app' (.app a) (es.filterMap restartEventOf) := by
  rw [List.filterMap_eq_nil_iff.mpr hes]
  exact .quiet hother (by rw [hstage]) (by rw [hstage]) (fun h => by rwa [← hstage])
    (fun id => by rw [hids]) hsaved

variable [DecidableEq κ] {parse : Bytes → Option Json} {kx : KxServer} {P : Platform κ}

omit [DecidableEq κ] in
theorem messageStep_saved {app app' : Application κ H} {es : List (AppEvent κ)}
    {sessionId : UInt64} {msg : ControlMessage} {a : AppAction κ}
    (hother : app.returns a = false) (h : Application.MessageStep kx P app sessionId msg app' es) :
    SavedMove app app' (.app a) (es.filterMap restartEventOf) := by
  cases h with
  | pairRequest _ hpair => exact onPairRequest_saved hother hpair
  | hello | post | file => exact .of_same hother rfl rfl rfl (by simp [restartEventOf])
  | quiet _ hes =>
      rcases hes with rfl | rfl <;> exact .of_same hother rfl rfl rfl (by simp [restartEventOf])

/-- The steps of `init`. -/
theorem initStep_saved {app app' : Application κ H} {kp : KeyPair} {ok : Bool}
    {es : List (AppEvent κ)} (hI : InitInv app)
    (hmade : app.stage ≠ .constructPairing → app.pairing.isSome = true)
    (h : app.initStep P kp ok = some (app', es)) :
    SavedMove app app' (.app (.init kp ok)) (initEvents app.stage app') ∧
      app'.pairing.isSome = true := by
  have hother : (∀ flip, app.stage ≠ .showTray flip) →
      app.returns (AppAction.init kp ok) = false := by
    intro hne
    simp only [Application.returns]
  unfold Application.initStep at h
  cases hstage : app.stage with
  | constructPairing =>
      simp only [hstage] at h
      cases h
      have hnone : app.pairedIds = [] := by simp [Application.pairedIds, hI.pairing hstage]
      refine ⟨.quiet (hother (by simp [hstage])) (by rw [hstage]; rfl) (by rw [hstage]; rfl)
        (by simp) (fun id => ?_) rfl, rfl⟩
      rw [hnone]
      exact Iff.rfl
  | setOnPaired =>
      simp only [hstage] at h
      cases h
      exact ⟨.installs (hother (by simp [hstage])) hstage rfl (fun _ => Iff.rfl) rfl,
        hmade (by simp [hstage])⟩
  | restoreDevice =>
      obtain ⟨p, hp⟩ := Option.isSome_iff_exists.mp (hmade (by simp [hstage]))
      simp only [hstage, hp] at h
      split at h
      · rename_i hempty
        cases h
        refine ⟨.loads (hother (by simp [hstage])) hstage rfl (fun id => ?_) rfl,
          by simp⟩
        simp [hempty, Application.pairedIds, hp]
      · rename_i hsaved
        cases h
        refine ⟨.loads (hother (by simp [hstage])) hstage rfl (fun id => ?_) rfl, rfl⟩
        have hdev := isPaired_insert p
          { deviceId := app.settings.pairedDeviceId
            deviceName := app.settings.pairedDeviceName
            peerPubKey := none, sharedSecret := none }
          app.settings.pairedDeviceId p.activePin id
        rw [mem_pairedIds hp]
        rw [mem_pairedIds (p := p.restoreDevice app.settings.pairedDeviceId
          app.settings.pairedDeviceName) rfl]
        simpa [hsaved, restoreDevice] using hdev
  | showTray flip =>
      simp only [hstage] at h
      cases h
      exact ⟨.returns (by simp [Application.returns, hstage]) hstage rfl (fun _ => Iff.rfl) rfl,
        hmade (by simp [hstage])⟩
  | startFileManager flip =>
      simp only [hstage] at h
      obtain ⟨m, w, tes, -, -, rfl, -⟩ := Application.transferMove_cases h
      exact ⟨.quiet (hother (by simp [hstage])) (by rw [hstage]; rfl) (by rw [hstage]; rfl)
        (by simp [Application.setWorld]) (fun _ => Iff.rfl) rfl, hmade (by simp [hstage])⟩
  | ready => simp [hstage] at h
  | _ =>
      simp only [hstage] at h
      cases h
      exact ⟨.quiet (hother (by simp [hstage])) (by rw [hstage]; rfl) (by rw [hstage]; rfl)
        (by simp) (fun _ => Iff.rfl) rfl, hmade (by simp [hstage])⟩

/-- The steps that are not `init`'s. -/
theorem appStep_saved {app app' : Application κ H} {a : AppAction κ} {es : List (AppEvent κ)}
    (hinit : ∀ kp ok, a ≠ .init kp ok)
    (h : Application.AppStep parse kx P app a app' es) :
    SavedMove app app' (.app a) (es.filterMap restartEventOf) ∧ app'.stage = app.stage := by
  have hother : app.returns a = false := by
    cases a with
    | init kp ok => exact absurd rfl (hinit kp ok)
    | _ => rfl
  cases h with
  | init => exact absurd rfl (hinit _ _)
  | connect | handshake | disconnect | throws | toggleFlip =>
      exact ⟨.of_same hother rfl rfl rfl (by simp [restartEventOf, Application.applyFlip]), rfl⟩
  | @message n raw token sessionId _ es hn hmove =>
      have hes : List.filterMap restartEventOf
          (AppEvent.received n sessionId (parseMessage parse raw) :: es) =
            es.filterMap restartEventOf := rfl
      rw [hes]
      refine ⟨messageStep_saved hother hmove, ?_⟩
      cases hmove with
      | pairRequest _ hpair =>
          obtain ⟨⟨settings, pairing, rfl, -⟩, -⟩ := Application.onPairRequest_frame hpair
          rfl
      | _ => rfl
  | createOffer hready hp =>
      exact ⟨.of_same hother rfl (by simp [Application.pairedIds, hp, createOffer]) rfl
        (by simp [restartEventOf]), rfl⟩
  | @runTask task =>
      cases task <;> exact ⟨.of_same hother rfl rfl rfl
        (by simp [restartEventOf, Application.runTask, Application.applyFlip]), rfl⟩
  | transfers _ hm hstep => exact ⟨.of_same hother rfl rfl rfl (by simp [restartEventOf]), rfl⟩

/-- What `init` has not built is null, and what it has built is there. -/
structure Built (app : Application κ H) : Prop where
  init : InitInv app
  pairing : app.stage ≠ .constructPairing → app.pairing.isSome = true

/-- **Inversion.**  Every step of a run with restarts is one of these. -/
theorem savedMove_cases {app app' : Application κ H} {a : RestartAction κ}
    {es : List RestartEvent} (hB : Built app)
    (h : restartStep parse kx P app a = some (app', es)) :
    SavedMove app app' a es ∧ Built app' := by
  -- a manager that is there stays
  have hkept : ∀ {b : AppAction κ} {tes : List (AppEvent κ)},
      appStep parse kx P app b = some (app', tes) →
        InitInv app' ∧ (app.pairing.isSome = true → app'.pairing.isSome = true) := by
    intro b tes hs
    have he := appStep_effects hB.init hs
    refine ⟨he.inv, fun hsome => ?_⟩
    cases he.pairing with
    | same hsame => rwa [hsame]
    | construct _ hnew => rw [hnew]; rfl
    | move _ hnew => rw [hnew]; rfl
  cases a with
  | restart =>
      cases h
      exact ⟨.exits rfl, { init := { pairing := fun _ => rfl, fileManager := fun _ => rfl }
                           pairing := by simp [Application.restart] }⟩
  | app a =>
      cases a with
      | init kp ok =>
          simp only [restartStep] at h
          split at h <;> cases h
          rename_i hs
          have hstep := (appMachine_step hs).2
          obtain ⟨hmove, hsome⟩ := initStep_saved hB.init hB.pairing hstep
          exact ⟨hmove, { init := (hkept hstep).1, pairing := fun _ => hsome }⟩
      | _ =>
          simp only [restartStep] at h
          split at h <;> cases h
          rename_i hs
          have hstep := (appMachine_step hs).2
          obtain ⟨hmove, hstage⟩ := appStep_saved (by simp) (Application.appStep_cases hstep)
          exact ⟨hmove, { init := (hkept hstep).1
                          pairing := fun hne => (hkept hstep).2 (hB.pairing (hstage ▸ hne)) }⟩

/-! ## The settings hold the device saved last -/

/-- What the history says of the program: what is saved, what is paired, and,
once `init` has returned, that nothing was lost. -/
structure SavedInv (app : Application κ H) (l : Ledger) : Prop where
  built : Built app
  installed : l.installed = app.stage.onPairedSet
  saved : app.settings.pairedDeviceId = l.slot
  early : app.stage.restored = false → l.loaded = ""
  here : ∀ id, id ∈ app.pairedIds ↔ id ∈ l.since ∨ (l.loaded ≠ "" ∧ id = l.loaded)
  all : ∀ id, id ∈ l.all ↔ id ∈ l.before ∨ id ∈ l.since
  kept : app.stage = .ready → l.Kept

omit [DecidableEq κ] in
/-- While nothing is lost, the paired identifiers are all that were accepted. -/
theorem SavedInv.mem_all {app : Application κ H} {l : Ledger} (hI : SavedInv app l)
    (hkept : l.Kept) (id : String) : id ∈ app.pairedIds ↔ id ∈ l.all := by
  rw [hI.here]
  constructor
  · rintro (hsince | ⟨hne, rfl⟩)
    · exact (hI.all id).mpr (Or.inr hsince)
    · exact hkept.2.resolve_left hne
  · intro hid
    rcases hkept.1 id hid with hsince | ⟨rfl, hne⟩
    · exact Or.inl hsince
    · exact Or.inr ⟨hne, rfl⟩

omit [DecidableEq κ] in
/-- One more accepted request loses nothing. -/
theorem Ledger.Kept.paired {l : Ledger} (hkept : l.Kept) (deviceId : String) :
    (l.after (.paired deviceId)).Kept := by
  refine ⟨fun id hid => ?_, ?_⟩
  · rcases List.mem_cons.mp hid with rfl | hold
    · exact Or.inl List.mem_cons_self
    · exact (hkept.1 id hold).imp_left (List.mem_cons_of_mem _)
  · exact hkept.2.imp_right (List.mem_cons_of_mem _)

omit [DecidableEq κ] in
/-- **One step.**  A step that meets the condition keeps the invariant. -/
theorem savedInv_move {app app' : Application κ H} {h es : List RestartEvent}
    {a : RestartAction κ} (hI : SavedInv app (ledger h)) (hok : KeepsPaired app h a)
    (hB : Built app') (hmove : SavedMove app app' a es) :
    SavedInv app' (ledger (h ++ es)) := by
  cases hmove with
  | quiet _ hinstalled hrestored hready hids hsaved =>
      rw [List.append_nil]
      exact
        { built := hB
          installed := hI.installed.trans hinstalled.symm
          saved := hsaved.trans hI.saved
          early := fun hearly => hI.early (hrestored ▸ hearly)
          here := fun id => (hids id).trans (hI.here id)
          all := hI.all
          kept := fun hr => hI.kept (hready hr) }
  | @request _ deviceId _ hstage hids hsaved =>
      rw [ledger_snoc]
      refine
        { built := hB
          installed := by rw [hstage]; exact hI.installed
          saved := ?_
          early := fun hearly => hI.early (hstage ▸ hearly)
          here := fun id => ?_
          all := fun id => ?_
          kept := fun hr => (hI.kept (hstage ▸ hr)).paired deviceId }
      · rw [hsaved, hI.saved, ← hI.installed]
        rfl
      · rw [hids, hI.here]
        simp only [Ledger.after, List.mem_cons]
        tauto
      · simp only [Ledger.after, List.mem_cons, hI.all]
        tauto
  | installs _ hstage hstage' hids hsaved =>
      rw [ledger_snoc]
      exact
        { built := hB
          installed := by rw [hstage']; rfl
          saved := hsaved.trans hI.saved
          early := fun _ => hI.early (by rw [hstage]; rfl)
          here := fun id => (hids id).trans (hI.here id)
          all := hI.all
          kept := by simp [hstage'] }
  | loads _ hstage hstage' hids hsaved =>
      rw [ledger_snoc]
      refine
        { built := hB
          installed := by rw [hstage']; exact hI.installed.trans (by rw [hstage]; rfl)
          saved := hsaved.trans hI.saved
          early := by simp [hstage', InitStage.restored]
          here := fun id => ?_
          all := hI.all
          kept := by simp [hstage'] }
      have hunread := hI.early (by rw [hstage]; rfl)
      rw [hids, hI.here, hunread, hI.saved]
      simp [Ledger.after]
  | returns hreturns hstage hstage' hids hsaved =>
      rw [ledger_snoc]
      exact
        { built := hB
          installed := by rw [hstage']; exact hI.installed.trans (by rw [hstage]; rfl)
          saved := hsaved.trans hI.saved
          early := by simp [hstage', InitStage.restored]
          here := fun id => (hids id).trans (hI.here id)
          all := hI.all
          kept := fun _ => hok hreturns }
  | exits heq =>
      have hready : app.stage = .ready := hok
      rw [ledger_snoc]
      subst heq
      refine
        { built := hB
          installed := rfl
          saved := hI.saved
          early := fun _ => rfl
          here := fun id => by simp [Application.pairedIds, Application.restart, Ledger.after]
          all := fun id => ?_
          kept := by simp [Application.restart] }
      simp [Ledger.after, hI.mem_all (hI.kept hready) id]

/-- The invariant holds after every run of conforming steps. -/
theorem savedInv_reach {app : Application κ H} {h : List RestartEvent}
    (hr : (restartMachine parse kx P H).Reach KeepsPaired app h) :
    SavedInv app (ledger h) := by
  refine Machine.Reach.invariant (m := restartMachine parse kx P H)
    (fun app h => SavedInv app (ledger h)) ?_ ?_ hr
  · rintro app ⟨⟨hwf, hhandles, settings, fs, rfl⟩, hnone⟩
    exact
      { built :=
          { init := { pairing := fun _ => rfl, fileManager := fun _ => rfl }
            pairing := by simp }
        installed := rfl
        saved := hnone
        early := fun _ => rfl
        here := fun id => by simp [Application.pairedIds, ledger]
        all := fun id => by simp [ledger]
        kept := by simp }
  · intro app h a app' es hI hok hs
    obtain ⟨hmove, hB⟩ := savedMove_cases hI.built hs
    exact savedInv_move hI hok hB hmove

/-! ## Restarts -/

omit [DecidableEq κ] in
/-- Only the return of `init` can lose a device. -/
theorem pairingsSurvive_append {h es : List RestartEvent} (hlen : es.length ≤ 1) :
    PairingsSurvive (h ++ es) ↔ PairingsSurvive h ∧ ∀ paired, es = [.returned paired] →
      ∀ id, id ∈ paired ↔ id ∈ (ledger h).before ∨ id ∈ (ledger h).since := by
  constructor
  · refine fun hall => ⟨fun h₁ paired h₂ hh => ?_, fun paired hes => ?_⟩
    · exact hall h₁ paired (h₂ ++ es) (by simp [hh])
    · exact hall h paired [] (by rw [hes])
  · rintro ⟨hpast, hlast⟩ h₁ paired h₂ heq
    rcases Machine.append_eq_append_cons heq with ⟨h₂', hh, -⟩ | ⟨es₁, rfl, hes⟩
    · exact hpast h₁ paired h₂' hh
    · obtain ⟨rfl, rfl⟩ : es₁ = [] ∧ h₂ = [] := by
        rw [hes, List.length_append, List.length_cons] at hlen
        exact ⟨List.eq_nil_of_length_eq_zero (by omega),
          List.eq_nil_of_length_eq_zero (by omega)⟩
      rw [List.append_nil]
      exact hlast paired hes

omit [DecidableEq κ] in
/-- A step of the program keeps the devices exactly if it meets the condition. -/
theorem survives_move {app app' : Application κ H} {h es : List RestartEvent}
    {a : AppAction κ} (hI : SavedInv app (ledger h)) (hmove : SavedMove app app' (.app a) es)
    (hpast : PairingsSurvive h) :
    PairingsSurvive (h ++ es) ↔ KeepsPaired app h (.app a) := by
  cases hmove with
  | quiet hother | request hother | installs hother | loads hother =>
      rw [pairingsSurvive_append (by simp)]
      simp [KeepsPaired, hother, hpast]
  | returns hreturns hstage hstage' hids hsaved =>
      have hall : (∀ id, id ∈ app'.pairedIds ↔
          id ∈ (ledger h).before ∨ id ∈ (ledger h).since) ↔ (ledger h).Kept := by
        constructor
        · intro hsame
          have hhere : ∀ id, id ∈ (ledger h).all ↔
              id ∈ (ledger h).since ∨ ((ledger h).loaded ≠ "" ∧ id = (ledger h).loaded) :=
            fun id => (hI.all id).trans ((hsame id).symm.trans ((hids id).trans (hI.here id)))
          refine ⟨fun id hid => ?_, or_iff_not_imp_left.mpr fun hne => ?_⟩
          · rcases (hhere id).mp hid with hsince | ⟨hne, rfl⟩
            · exact Or.inl hsince
            · exact Or.inr ⟨rfl, hne⟩
          · exact (hhere _).mpr (Or.inr ⟨hne, rfl⟩)
        · exact fun hkept id => (hids id).trans ((hI.mem_all hkept id).trans (hI.all id))
      rw [pairingsSurvive_append (by simp)]
      simp only [KeepsPaired, hreturns, true_implies, hpast, true_and, List.cons.injEq,
        RestartEvent.returned.injEq, and_true, forall_eq']
      exact hall

/-- **Pairings survive restarts, exactly while the settings hold all of them.**
After any run whose steps all meet the condition, every start has kept the
paired devices when `init` returned; and the next step of the program keeps this
if and only if it meets the condition. -/
theorem pairings_survive_iff (parse : Bytes → Option Json) (kx : KxServer)
    (P : Platform κ) {app : Application κ H} {h : List RestartEvent}
    (hr : (restartMachine parse kx P H).Reach KeepsPaired app h) :
    PairingsSurvive h ∧ ∀ a app' es,
      (restartMachine parse kx P H).step app (.app a) = some (app', es) →
        (PairingsSurvive (h ++ es) ↔ KeepsPaired app h (.app a)) := by
  have hpast : PairingsSurvive h := by
    refine hr.invariant_along (fun _ h => PairingsSurvive h) ?_ ?_
    · intro app hinit h₁ paired h₂ hh
      simp at hh
    · intro app h a app' es hr hpast hok hs
      have hI := savedInv_reach hr
      have hmove := (savedMove_cases hI.built hs).1
      cases a with
      | app a => exact (survives_move hI hmove hpast).mpr hok
      | restart =>
          cases hmove
          rw [pairingsSurvive_append (by simp)]
          exact ⟨hpast, by simp⟩
  have hI := savedInv_reach hr
  exact ⟨hpast, fun a app' es hs =>
    survives_move hI (savedMove_cases hI.built hs).1 hpast⟩

end Steps

/-! ## Phones and restarts -/

def pairMessage (deviceId : String) : String × Json :=
  ("\x7b\"type\":\"pair_request\",\"pin\":\"000007\",\"pk\":\"" ++ sampleKey ++
      "\",\"deviceId\":\"" ++ deviceId ++ "\"\x7d",
    .object [("type", .string "pair_request"), ("pin", .string "000007"),
      ("pk", .string sampleKey), ("deviceId", .string deviceId)])

def pairMessages : List (String × Json) := [pairMessage "phone", pairMessage "tablet"]

/-- `init` runs to its end, and a phone connects. -/
def startActions : List (RestartAction String) :=
  (initActions ++ [AppAction.connect, .handshake 0 true]).map .app

/-- The dialog shows an offer, and the phone pairs with its PIN. -/
def pairActions (drawn : Fin 1000000) (deviceId : String) : List (RestartAction String) :=
  [ .app (.createOffer "192.168.0.2" drawn)
  , .app (.message 0 (ascii (pairMessage deviceId).1) (sampleToken 7)) ]

/-- The same phone is paired again after a restart, and the program restarted
again. -/
theorem pairings_survive_samePhone :
    ∃ (app : Application String sha256) (h : List RestartEvent),
      (restartMachine (parseTable pairMessages) sampleKx samplePlatform sha256).Reach
        KeepsPaired app h ∧
      decide (h = [.installed, .loaded, .returned [], .paired "phone", .exited ["phone"],
        .installed, .loaded, .returned ["phone"], .paired "phone", .exited ["phone"],
        .installed, .loaded, .returned ["phone"]]) = true ∧
      PairingsSurvive h := by
  obtain ⟨app, h, hr, hh⟩ := Machine.exists_reach_of_exec
    (restartMachine (parseTable pairMessages) sampleKx samplePlatform sha256)
    KeepsPaired (s := sampleProgram) ⟨sampleProgram_init, rfl⟩
    (startActions ++ pairActions 7 "phone" ++ [.restart] ++ startActions ++
      pairActions 7 "phone" ++ [.restart] ++ startActions)
    (fun _ h => decide (h = [.installed, .loaded, .returned [], .paired "phone",
      .exited ["phone"], .installed, .loaded, .returned ["phone"], .paired "phone",
      .exited ["phone"], .installed, .loaded, .returned ["phone"]]))
    (by decide +kernel)
  exact ⟨app, h, hr, hh, (pairings_survive_iff _ _ _ hr).1⟩

/-- The settings hold one device: of two paired phones the restart keeps the
second. -/
theorem first_of_two_phones_lost :
    ¬∀ (app : Application String sha256) (h : List RestartEvent),
      (restartMachine (parseTable pairMessages) sampleKx samplePlatform sha256).Reach
        Machine.anyStep app h → PairingsSurvive h := by
  intro hall
  obtain ⟨app, h, hr, hh⟩ := Machine.exists_reach_of_exec
    (restartMachine (parseTable pairMessages) sampleKx samplePlatform sha256)
    Machine.anyStep (s := sampleProgram) ⟨sampleProgram_init, rfl⟩
    (startActions ++ pairActions 7 "phone" ++ pairActions 7 "tablet" ++ [.restart] ++
      startActions)
    (fun _ h => decide (h = [.installed, .loaded, .returned [], .paired "phone",
      .paired "tablet", .exited ["tablet", "phone"], .installed, .loaded,
      .returned ["tablet"]]))
    (by decide +kernel)
  rw [decide_eq_true_iff] at hh
  have hlost := hall app h hr
    [.installed, .loaded, .returned [], .paired "phone", .paired "tablet",
      .exited ["tablet", "phone"], .installed, .loaded] ["tablet"] [] hh "phone"
  revert hlost
  decide

end Iriseus.Core
