import Mathlib.Data.List.Chain
import Iriseus.Core.StreamLifecycle

/-!
# The tray and the video connection

The network thread reports the beginning and the end of a video connection
through `m_onStatus`; the callback posts a lambda to the Qt thread, where it
changes the icon, the menu and the tooltip.  `start` runs before the callback is
set and before there is a tray, the lambdas wait in a queue with those of the
control messages, and the two menu entries change the icon on their own.

`Desktop` puts the three together.  The first connection can come before the
callback; from the first report on the reports alternate and follow the
connection, so a tray that has run its queue shows it.

## Main results

* `tray_converges` — what the tray shows once its queue is run.
-/

namespace Iriseus.Core

open Iriseus.Verified
open Iriseus.Verified.ByteStream
open Iriseus.Verified.Machine

/-! ## `TrayIcon` -/

/-- The camera part of `TrayIcon`: the icon, the two entries of the menu and the tooltip. -/
structure TrayIcon where
  cameraActive : Bool := false
  startVisible : Bool := true
  stopVisible : Bool := false
  toolTip : String := "Iriseus"
  deriving DecidableEq, Repr

/-- A lambda posted to the Qt thread. -/
inductive TrayTask where
  | updateCameraStatus (active : Bool)
  | updateStreamMode (isScreen : Bool)
  deriving DecidableEq, Repr

namespace TrayIcon

def updateIcon (t : TrayIcon) (active : Bool) : TrayIcon := { t with cameraActive := active }

/-- The slots and methods return the text of the balloon they show. -/
def onStartCamera (t : TrayIcon) : TrayIcon × String :=
  ({ t with startVisible := false, stopVisible := true }.updateIcon true, "Câmera iniciada")

def onStopCamera (t : TrayIcon) : TrayIcon × String :=
  ({ t with startVisible := true, stopVisible := false }.updateIcon false, "Câmera parada")

def updateCameraStatus (t : TrayIcon) (active : Bool) : TrayIcon × String :=
  ({ t.updateIcon active with
      startVisible := !active
      stopVisible := active
      toolTip := if active then "Iriseus — Câmera ativa" else "Iriseus" },
    if active then "Câmera ativa" else "Câmera desconectada")

def updateStreamMode (t : TrayIcon) (isScreen : Bool) : TrayIcon × String :=
  if isScreen then
    ({ t with toolTip := "Iriseus — Transmitindo tela do celular" },
      "Transmitindo tela do celular")
  else
    ({ t with toolTip := "Iriseus — Câmera ativa" }, "Transmitindo câmera do celular")

def run (t : TrayIcon) : TrayTask → TrayIcon × String
  | .updateCameraStatus active => t.updateCameraStatus active
  | .updateStreamMode isScreen => t.updateStreamMode isScreen

/-- The menu offers what the icon does not show. -/
structure MenuFits (t : TrayIcon) : Prop where
  start : t.startVisible = !t.cameraActive
  stop : t.stopVisible = t.cameraActive

theorem menuFits_new : MenuFits {} := ⟨rfl, rfl⟩

theorem menuFits_run {t : TrayIcon} (ht : t.MenuFits) (task : TrayTask) :
    (t.run task).1.MenuFits := by
  cases task with
  | updateCameraStatus active => exact ⟨rfl, rfl⟩
  | updateStreamMode isScreen =>
      cases isScreen <;> exact ⟨ht.start, ht.stop⟩

end TrayIcon

/-! ## The Qt thread beside the receiver -/

/-- The receiver, the tray once `init` has made it, and the lambdas posted and not yet
run. -/
structure Desktop where
  receiver : LiveReceiver
  tray : Option TrayIcon := none
  posted : List TrayTask := []
  deriving DecidableEq, Repr

inductive DesktopEvent where
  | stream (e : StreamEvent)
  | balloon (text : String)
  deriving DecidableEq, Repr

inductive DesktopAction (π : Type) where
  | stream (a : StreamAction π)
  /-- A `start_camera`, `stop_screen` or `start_screen` message. -/
  | message (isScreen : Bool)
  | showTray
  | runTask
  /-- The user picks one of the two entries. -/
  | startCamera
  | stopCamera
  deriving DecidableEq, Repr

/-- The lambda that `m_onStatus` posts. -/
def statusTask : StreamEvent → Option TrayTask
  | .status active => some (.updateCameraStatus active)
  | _ => none

namespace Desktop

variable {π : Type} (scale : SwsScale π)

/-- A change of the tray, with its balloon. -/
def change (d : Desktop) (f : TrayIcon → Option (TrayIcon × String)) :
    Option (Desktop × List DesktopEvent) :=
  (d.tray.bind f).map fun r => ({ d with tray := some r.1 }, [.balloon r.2])

def step (d : Desktop) : DesktopAction π → Option (Desktop × List DesktopEvent)
  | .stream a =>
      (d.receiver.step scale a).map fun r =>
        ({ d with receiver := r.1, posted := d.posted ++ r.2.filterMap statusTask },
          r.2.map .stream)
  | .message isScreen =>
      some ({ d with posted := d.posted ++ [.updateStreamMode isScreen] }, [])
  | .showTray => if d.tray = none then some ({ d with tray := some {} }, []) else none
  | .runTask =>
      match d.posted with
      | [] => none
      | task :: rest => { d with posted := rest }.change fun t => some (t.run task)
  | .startCamera => d.change fun t => if t.startVisible then some t.onStartCamera else none
  | .stopCamera => d.change fun t => if t.stopVisible then some t.onStopCamera else none

end Desktop

/-- `StreamReceiver::start` has just returned in `init`. -/
def desktopMachine {π : Type} (scale : SwsScale π) (width height : Int32) :
    Machine Desktop (DesktopAction π) DesktopEvent where
  Init d := (streamMachine scale width height).Init d.receiver ∧
    d = { receiver := d.receiver }
  step := Desktop.step scale

/-- The user leaves the two entries alone. -/
def NoClicks {π : Type} : StepCond Desktop (DesktopAction π) DesktopEvent :=
  fun _ _ a => match a with
    | .startCamera => False
    | .stopCamera => False
    | _ => True

instance {π : Type} : ∀ d h (a : DesktopAction π), Decidable (NoClicks d h a) := by
  intro d h a
  cases a <;> unfold NoClicks <;> infer_instance

/-! ## The reports of the network thread -/

/-- Between the two reports of a connection. -/
def NetThread.serving : NetThread → Bool
  | .head => true
  | .readLen _ => true
  | .readBody _ _ => true
  | .push _ => true
  | .statusOff => true
  | _ => false

def statusOf : StreamEvent → Option Bool
  | .status active => some active
  | _ => none

/-- The reports made so far. -/
def statusesOf (h : List StreamEvent) : List Bool := h.filterMap statusOf

@[simp] theorem statusesOf_append (h es : List StreamEvent) :
    statusesOf (h ++ es) = statusesOf h ++ statusesOf es :=
  List.filterMap_append

/-- The reports alternate, and from the first one on the last one is where the thread
stands. -/
structure StatusInv (r : LiveReceiver) (statuses : List Bool) : Prop where
  alternate : statuses.IsChain (· ≠ ·)
  last : ∀ b ∈ statuses.getLast?, b = r.net.serving
  installed : statuses ≠ [] → r.onStatus = true

section Reports

variable {π : Type} {scale : SwsScale π} {r r' : LiveReceiver} {statuses : List Bool}

/-- A step without a report, on which the thread stays inside or outside. -/
theorem StatusInv.quiet {es : List StreamEvent} (hI : StatusInv r statuses)
    (hes : statusesOf es = []) (hserving : r'.net.serving = r.net.serving)
    (honStatus : r.onStatus = true → r'.onStatus = true) :
    StatusInv r' (statuses ++ statusesOf es) := by
  rw [hes, List.append_nil]
  exact
    { alternate := hI.alternate
      last := fun b hb => (hI.last b hb).trans hserving.symm
      installed := fun hne => honStatus (hI.installed hne) }

/-- A report turns the last one round. -/
theorem StatusInv.report (hI : StatusInv r statuses) {net : NetThread}
    (hchange : net.serving ≠ r.net.serving) :
    StatusInv { r with net := net }
      (statuses ++ statusesOf (r.statusCall net.serving)) := by
  cases honStatus : r.onStatus with
  | false =>
      have hnil : statuses = [] := by
        by_contra hne
        rw [hI.installed hne] at honStatus
        cases honStatus
      have hno : statusesOf (r.statusCall net.serving) = [] := by
        simp [LiveReceiver.statusCall, honStatus, statusesOf]
      rw [hnil, hno]
      exact ⟨.nil, by simp, by simp⟩
  | true =>
      have hone : statusesOf (r.statusCall net.serving) = [net.serving] := by
        simp [LiveReceiver.statusCall, honStatus, statusesOf, statusOf]
      rw [hone]
      refine ⟨hI.alternate.append (.singleton _) ?_, by simp, fun _ => rfl⟩
      intro b hb b' hb'
      rw [List.head?_cons, Option.mem_some_iff] at hb'
      rw [hI.last b hb, ← hb']
      exact hchange.symm

theorem status_netStep {inp : NetInput} {es : List StreamEvent} (hI : StatusInv r statuses)
    (h : r.netStep inp = some (r', es)) : StatusInv r' (statuses ++ statusesOf es) := by
  unfold LiveReceiver.netStep at h
  split at h <;> rename_i hpc
  · cases h
    refine hI.quiet rfl ?_ id
    rw [hpc]
    cases r.running <;> rfl
  · split at h <;> cases h
    exact hI.quiet rfl (by rw [hpc]; rfl) id
  · cases h
    exact hI.quiet rfl (by rw [hpc]; rfl) id
  · split at h <;> cases h
    exact hI.quiet rfl (by rw [hpc]; rfl) id
  · cases h
    exact hI.report (by rw [hpc]; decide : NetThread.head.serving ≠ r.net.serving)
  · cases h
    refine hI.quiet rfl ?_ id
    rw [hpc]
    cases r.running <;> rfl
  · cases h
    exact hI.quiet rfl (by rw [hpc]; rfl) id
  · split at h
    · split at h <;> cases h
      · refine hI.quiet rfl ?_ id
        rw [hpc]
        simp only [LiveReceiver.afterLen]
        split <;> rfl
      · exact hI.quiet rfl (by rw [hpc]; rfl) id
    · cases h
  · cases h
    exact hI.quiet rfl (by rw [hpc]; rfl) id
  · split at h
    · split at h <;> cases h <;> exact hI.quiet rfl (by rw [hpc]; rfl) id
    · cases h
  · split at h
    · cases h
    · cases h
      exact hI.quiet rfl (by rw [hpc]; rfl) id
  · cases h
    exact hI.report (by rw [hpc]; decide : NetThread.top.serving ≠ r.net.serving)
  · cases h

theorem statusesOf_calls (calls : List CameraCall) (es : List StreamEvent) :
    statusesOf (calls.map .camera ++ es) = statusesOf es := by
  rw [statusesOf_append]
  simp [statusesOf, List.filterMap_map, Function.comp_def, statusOf]

/-- **One step** of the receiver. -/
theorem status_step {a : StreamAction π} {es : List StreamEvent} (hI : StatusInv r statuses)
    (h : r.step scale a = some (r', es)) : StatusInv r' (statuses ++ statusesOf es) := by
  cases a with
  | net inp => exact status_netStep hI h
  | decode =>
      simp only [LiveReceiver.step, LiveReceiver.decodeStep] at h
      (repeat' split at h) <;> cases h <;> exact hI.quiet rfl rfl id
  | wakeSpuriously =>
      simp only [LiveReceiver.step] at h
      split at h <;> cases h
      exact hI.quiet rfl rfl id
  | pushNalu frames =>
      simp only [LiveReceiver.step, LiveReceiver.pushNaluStep] at h
      split at h <;> cases h
      refine hI.quiet ?_ rfl id
      simp [statusesOf, statusOf]
  | stop =>
      simp only [LiveReceiver.step, LiveReceiver.stopStep] at h
      split at h
      case h_7 =>
        cases h
        exact hI.quiet (statusesOf_calls _ _) rfl id
      all_goals
        (repeat' split at h) <;> cases h <;> exact hI.quiet rfl rfl id
  | setOnStatusChange =>
      simp only [LiveReceiver.step] at h
      split at h <;> cases h
      exact hI.quiet rfl rfl fun _ => rfl

end Reports

/-! ## The queue of the Qt thread -/

/-- What the icon shows after a lambda. -/
def afterTask (active : Bool) : TrayTask → Bool
  | .updateCameraStatus active => active
  | .updateStreamMode _ => active

/-- What the icon will show when the queue is run. -/
def Desktop.settled (d : Desktop) : Bool :=
  d.posted.foldl afterTask (d.tray.elim false (·.cameraActive))

def streamOf (h : List DesktopEvent) : List StreamEvent :=
  h.filterMap fun e => match e with
    | .stream e => some e
    | .balloon _ => none

@[simp] theorem streamOf_append (h es : List DesktopEvent) :
    streamOf (h ++ es) = streamOf h ++ streamOf es :=
  List.filterMap_append

@[simp] theorem streamOf_map (es : List StreamEvent) : streamOf (es.map .stream) = es := by
  simp [streamOf, List.filterMap_map]

@[simp] theorem streamOf_balloon (h : List DesktopEvent) (text : String) :
    streamOf (h ++ [.balloon text]) = streamOf h := by
  rw [streamOf_append]
  exact List.append_nil _

/-- The last report, if there was one. -/
def lastStatus (default : Bool) (statuses : List Bool) : Bool := statuses.getLast?.getD default

theorem lastStatus_append (default : Bool) (statuses more : List Bool) :
    lastStatus default (statuses ++ more) = lastStatus (lastStatus default statuses) more := by
  rcases List.eq_nil_or_concat more with rfl | ⟨more, b, rfl⟩
  · simp [lastStatus]
  · simp [lastStatus, ← List.append_assoc]

@[simp] theorem cameraActive_run (t : TrayIcon) (task : TrayTask) :
    (t.run task).1.cameraActive = afterTask t.cameraActive task := by
  cases task with
  | updateCameraStatus active => rfl
  | updateStreamMode isScreen => cases isScreen <;> rfl

/-- The lambdas of the reports leave the icon at the last report. -/
theorem foldl_statusTask (es : List StreamEvent) (active : Bool) :
    (es.filterMap statusTask).foldl afterTask active = lastStatus active (statusesOf es) := by
  induction es generalizing active with
  | nil => rfl
  | cons e es ih =>
      cases e with
      | status b =>
          have hcons := lastStatus_append active [b] (statusesOf es)
          exact (ih b).trans hcons.symm
      | _ => exact ih active

/-- What the tray will show is the last report, and its menu fits its icon. -/
structure DesktopInv (d : Desktop) (h : List DesktopEvent) : Prop where
  status : StatusInv d.receiver (statusesOf (streamOf h))
  menu : ∀ t ∈ d.tray, t.MenuFits
  settled : d.settled = lastStatus false (statusesOf (streamOf h))

section Desktop

variable {π : Type} {scale : SwsScale π} {d d' : Desktop} {h es : List DesktopEvent}

/-- The Qt thread runs a lambda. -/
theorem runTask_step (hs : d.step scale .runTask = some (d', es)) :
    ∃ t task rest, d.tray = some t ∧ d.posted = task :: rest ∧
      d' = { d with tray := some (t.run task).1, posted := rest } ∧
      es = [.balloon (t.run task).2] := by
  simp only [Desktop.step] at hs
  split at hs
  · cases hs
  · rename_i task rest hposted
    cases htray : d.tray with
    | none => simp [Desktop.change, htray] at hs
    | some t =>
        simp only [Desktop.change, htray, Option.bind_some, Option.map_some,
          Option.some.injEq, Prod.mk.injEq] at hs
        obtain ⟨rfl, rfl⟩ := hs
        exact ⟨t, task, rest, rfl, hposted, rfl, rfl⟩

theorem desktopInv_step {a : DesktopAction π} (hI : DesktopInv d h) (hok : NoClicks d h a)
    (hs : d.step scale a = some (d', es)) : DesktopInv d' (h ++ es) := by
  cases a with
  | stream a =>
      simp only [Desktop.step, Option.map_eq_some_iff, Prod.mk.injEq] at hs
      obtain ⟨⟨r, ses⟩, hr, rfl, rfl⟩ := hs
      refine ⟨?_, hI.menu, ?_⟩
      · rw [streamOf_append, streamOf_map, statusesOf_append]
        exact status_step hI.status hr
      · have hsettled := hI.settled
        unfold Desktop.settled at hsettled ⊢
        rw [List.foldl_append, hsettled, foldl_statusTask, streamOf_append, streamOf_map,
          statusesOf_append, lastStatus_append]
  | message isScreen =>
      cases hs
      rw [List.append_nil]
      refine ⟨hI.status, hI.menu, ?_⟩
      rw [← hI.settled]
      simp [Desktop.settled, afterTask]
  | showTray =>
      simp only [Desktop.step] at hs
      split at hs
      · rename_i hnone
        cases hs
        rw [List.append_nil]
        refine ⟨hI.status, ?_, ?_⟩
        · intro t ht
          obtain rfl := Option.some.inj ht
          exact TrayIcon.menuFits_new
        · rw [← hI.settled]
          simp [Desktop.settled, hnone]
      · cases hs
  | runTask =>
      obtain ⟨t, task, rest, htray, hposted, rfl, rfl⟩ := runTask_step hs
      refine ⟨by rw [streamOf_balloon]; exact hI.status, ?_, ?_⟩
      · intro t' ht'
        obtain rfl := Option.some.inj ht'
        exact TrayIcon.menuFits_run (hI.menu t htray) task
      · rw [streamOf_balloon, ← hI.settled]
        simp [Desktop.settled, htray, hposted]
  | startCamera => exact hok.elim
  | stopCamera => exact hok.elim

theorem desktopInv_reach {width height : Int32}
    (hr : (desktopMachine scale width height).Reach NoClicks d h) : DesktopInv d h := by
  refine hr.invariant (fun d h => DesktopInv d h) ?_ ?_
  · rintro d ⟨⟨flip, hreceiver⟩, hd⟩
    rw [hd, hreceiver]
    exact
      { status := ⟨.nil, by simp [streamOf, statusesOf], by simp [streamOf, statusesOf]⟩
        menu := by simp
        settled := rfl }
  · intro d h a d' es hI hok hs
    exact desktopInv_step hI hok hs

variable (scale) in
/-- The Qt thread runs its queue, while nothing else happens. -/
theorem run_posted (width height : Int32) (n : Nat) :
    ∀ {d : Desktop} {t : TrayIcon}, d.posted.length = n → d.tray = some t → t.MenuFits →
      ∃ t' es, (desktopMachine scale width height).Run d (List.replicate n .runTask)
          { d with tray := some t', posted := [] } es ∧
        t'.cameraActive = d.settled ∧ t'.MenuFits := by
  induction n with
  | zero =>
      intro d t hlen htray hmenu
      have hposted := List.length_eq_zero_iff.mp hlen
      refine ⟨t, [], ?_, by simp [Desktop.settled, hposted, htray], hmenu⟩
      rw [← htray, ← hposted]
      exact .nil
  | succ n ih =>
      intro d t hlen htray hmenu
      obtain ⟨task, rest, hposted⟩ := List.exists_cons_of_length_eq_add_one hlen
      have hrest : rest.length = n := by simpa [hposted] using hlen
      obtain ⟨t', es, hrun, hactive, hmenu'⟩ :=
        ih (d := { d with tray := some (t.run task).1, posted := rest }) hrest rfl
          (TrayIcon.menuFits_run hmenu task)
      refine ⟨t', [.balloon (t.run task).2] ++ es, .cons ?_ hrun, ?_, hmenu'⟩
      · simp [desktopMachine, Desktop.step, Desktop.change, hposted, htray]
      · rw [hactive]
        simp [Desktop.settled, hposted, htray]

/-- **The tray follows the connection.**  In every run in which the user leaves the two
entries alone, the reports of the network thread alternate; and once the Qt thread has
run its queue, the tray shows a camera exactly if the thread serves a connection and
has reported at all, with the fitting entry in its menu. -/
theorem tray_converges {width height : Int32}
    (hr : (desktopMachine scale width height).Reach NoClicks d h) {t : TrayIcon}
    (ht : d.tray = some t) :
    (statusesOf (streamOf h)).IsChain (· ≠ ·) ∧
      ∃ t' es, (desktopMachine scale width height).Run d
          (List.replicate d.posted.length .runTask)
          { d with tray := some t', posted := [] } es ∧
        (t'.cameraActive = true ↔
          d.receiver.net.serving = true ∧ statusesOf (streamOf h) ≠ []) ∧
        t'.MenuFits := by
  have hI := desktopInv_reach hr
  obtain ⟨t', es, hrun, hactive, hmenu⟩ :=
    run_posted scale width height d.posted.length rfl ht (hI.menu t ht)
  refine ⟨hI.status.alternate, t', es, hrun, ?_, hmenu⟩
  rw [hactive, hI.settled, lastStatus]
  cases hlast : (statusesOf (streamOf h)).getLast? with
  | none =>
      rw [List.getLast?_eq_none_iff] at hlast
      simp [hlast]
  | some b =>
      have hne : statusesOf (streamOf h) ≠ [] := by
        intro hnil
        rw [hnil] at hlast
        cases hlast
      rw [Option.getD_some, hI.status.last b hlast]
      exact ⟨fun hserving => ⟨hserving, hne⟩, fun hboth => hboth.1⟩

end Desktop

/-- A peer connects before there is a tray, and a message turns its screen on. -/
theorem tray_converges_sample :
    ∃ (d : Desktop) (h : List DesktopEvent),
      (desktopMachine sampleScale 2 2).Reach NoClicks d h ∧ d.posted.length = 2 ∧
      ∃ t' es, (desktopMachine sampleScale 2 2).Run d
          (List.replicate d.posted.length .runTask)
          { d with tray := some t', posted := [] } es ∧
        t'.cameraActive = true ∧ t'.MenuFits := by
  obtain ⟨d, h, hr, hh⟩ :=
    exists_reach_of_exec (desktopMachine sampleScale 2 2) NoClicks
    (s :=
      { receiver :=
          { decoder := { VideoDecoder.init 2 2 with flipHorizontal := true, onFrame := true } } })
    ⟨⟨true, rfl⟩, rfl⟩
    [.stream .setOnStatusChange, .stream (.net .go), .stream (.net .connection),
      .stream (.net .go), .message true, .showTray]
    (fun (d : Desktop) h => decide (d.tray = some {}) && d.receiver.net.serving &&
      decide (statusesOf (streamOf h) ≠ []) && decide (d.posted.length = 2))
    (by decide +kernel)
  simp only [Bool.and_eq_true, decide_eq_true_eq] at hh
  obtain ⟨⟨⟨htray, hserving⟩, hreported⟩, hposted⟩ := hh
  obtain ⟨-, t', es, hrun, hactive, hmenu⟩ := tray_converges hr htray
  exact ⟨d, h, hr, hposted, t', es, hrun, hactive.mpr ⟨hserving, hreported⟩, hmenu⟩

end Iriseus.Core
