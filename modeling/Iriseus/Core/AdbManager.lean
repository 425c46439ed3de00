import Mathlib.Data.List.Chain
import Mathlib.Data.List.Nodup
import Iriseus.Verified.Machine
import Iriseus.Verified.TextStream

/-!
# USB devices: `AdbManager`

Port of `AdbManager.cpp`.  `monitorLoop` asks adb for its devices every two
seconds.  A serial that is listed in state `device` and not active becomes
active, after three `adb reverse` commands; an active serial that is not listed
any more is dropped.  What the commands answer is printed and not looked at.

adb answers with any list of devices at every poll, and each command may fail.
The callbacks are set before the loop is started.

## Main results

* `attachLoop_spec` — what the first loop of a poll adds, and what it does.
* `mem_poll_activeSerials` — which serials a poll leaves active.
* `notices_alternate` — attach and detach notices alternate.
-/

namespace Iriseus.Core

open Iriseus.Verified
open Iriseus.Verified.TextStream

structure AdbDevice where
  serial : String
  /-- "device", "offline", "unauthorized" -/
  state : String
  deriving DecidableEq, Repr

/-! ## The output of adb -/

/-- What `output += buf` appends of the bytes read: those before the first NUL. -/
def cString (buf : List Char) : List Char := buf.takeWhile (· ≠ '\x00')

/-- The loop of `runAdb` over the pieces the pipe delivers. -/
def runAdb (pieces : List (List Char)) : List Char := pieces.flatMap cString

/-- A line of the list of devices, with the words it begins with. -/
def deviceOfLine (line : List Char) : Option AdbDevice :=
  if line = [] ∨ line = ['\r'] then none
  else
    let (serial, rest) := extract line
    let (state, _) := extract rest
    if serial = [] then none
    else some { serial := String.ofList serial, state := String.ofList state }

/-- `listDevices` after `runAdb({"devices"})`: the first line is skipped. -/
def listDevices (output : List Char) : List AdbDevice :=
  ((getlines output).drop 1).filterMap deviceOfLine

example : listDevices "List of devices attached\r\nR58M\tdevice\r\n\r\n".toList =
    [{ serial := "R58M", state := "device" }] := by decide

/-- A text without NULs is captured whole, however the pipe delivers it. -/
theorem runAdb_eq {pieces : List (List Char)} (h : '\x00' ∉ pieces.flatten) :
    runAdb pieces = pieces.flatten := by
  induction pieces with
  | nil => rfl
  | cons piece pieces ih =>
      rw [List.flatten_cons, List.mem_append, not_or] at h
      have hpiece : cString piece = piece := by
        refine List.takeWhile_eq_self_iff.mpr fun c hc => ?_
        rw [decide_eq_true_eq]
        exact fun hzero => h.1 (hzero ▸ hc)
      rw [List.flatten_cons, ← ih h.2]
      exact congrArg (· ++ runAdb pieces) hpiece

/-! ## Polls -/

/-- The three connections that are carried over USB. -/
inductive Tunnel where
  | ws
  | stream
  | file
  deriving DecidableEq, Repr

/-- The manager's members. -/
structure AdbManager where
  wsPort : UInt16
  streamPort : UInt16
  filePort : UInt16 := 45680
  activeSerials : List String := []
  onAttached : Bool := false
  onDetached : Bool := false
  deriving DecidableEq, Repr

/-- What can be observed of the loop. -/
inductive AdbEvent where
  /-- `listDevices` has returned. -/
  | polled (devices : List AdbDevice)
  /-- A reverse command for the serial; `ok` says whether it succeeded. -/
  | ran (serial : String) (tunnel : Tunnel) (args : List String) (ok : Bool)
  | attached (dev : AdbDevice)
  | detached (serial : String)
  deriving DecidableEq, Repr

namespace AdbManager

def port (m : AdbManager) : Tunnel → UInt16
  | .ws => m.wsPort
  | .stream => m.streamPort
  | .file => m.filePort

/-- The arguments of a reverse command. -/
def reverseArgs (m : AdbManager) (serial : String) (tunnel : Tunnel) : List String :=
  let port := "tcp:" ++ toString (m.port tunnel).toNat
  ["-s", serial, "reverse", port, port]

/-- `setupReverse` runs the three commands whatever they answer; `ok` says which
of them succeed. -/
def setupReverse (m : AdbManager) (ok : String → Tunnel → Bool) (serial : String) :
    List AdbEvent :=
  [Tunnel.ws, .stream, .file].map fun tunnel =>
    .ran serial tunnel (m.reverseArgs serial tunnel) (ok serial tunnel)

/-- The loop over the devices of a poll. -/
def attachLoop (ok : String → Tunnel → Bool) :
    AdbManager → List AdbDevice → AdbManager × List AdbEvent
  | m, [] => (m, [])
  | m, dev :: devices =>
      if dev.state ≠ "device" then attachLoop ok m devices
      else if dev.serial ∈ m.activeSerials then attachLoop ok m devices
      else
        let r := attachLoop ok { m with activeSerials := m.activeSerials ++ [dev.serial] } devices
        (r.1,
          m.setupReverse ok dev.serial ++ (if m.onAttached then [.attached dev] else []) ++ r.2)

/-- The loop over the active serials: those that stay, and the notices. -/
def detachLoop (onDetached : Bool) (devices : List AdbDevice) :
    List String → List String × List AdbEvent
  | [] => ([], [])
  | serial :: serials =>
      let r := detachLoop onDetached devices serials
      if devices.any (·.serial = serial) then (serial :: r.1, r.2)
      else (r.1, (if onDetached then [.detached serial] else []) ++ r.2)

/-- One turn of `monitorLoop`. -/
def poll (m : AdbManager) (devices : List AdbDevice) (ok : String → Tunnel → Bool) :
    AdbManager × List AdbEvent :=
  let attach := attachLoop ok m devices
  let detach := detachLoop attach.1.onDetached devices attach.1.activeSerials
  ({ attach.1 with activeSerials := detach.1 }, .polled devices :: attach.2 ++ detach.2)

end AdbManager

/-- What `listDevices` returns, and which commands would succeed: in one turn of
the loop none is run twice for a serial. -/
structure Poll where
  devices : List AdbDevice
  ok : String → Tunnel → Bool

/-- The loop of a manager with both callbacks set. -/
def adbMachine (wsPort streamPort filePort : UInt16) : Machine AdbManager Poll AdbEvent where
  Init m := m =
    { wsPort := wsPort, streamPort := streamPort, filePort := filePort
      onAttached := true, onDetached := true }
  step m p := some (m.poll p.devices p.ok)

theorem adbMachine_step {wsPort streamPort filePort : UInt16} {m m' : AdbManager} {p : Poll}
    {es : List AdbEvent} (hs : (adbMachine wsPort streamPort filePort).step m p = some (m', es)) :
    m' = (m.poll p.devices p.ok).1 ∧ es = (m.poll p.devices p.ok).2 :=
  Prod.mk.inj (Option.some.inj hs).symm

/-! ## What a poll does -/

/-- The serial is listed, in any state. -/
def Listed (devices : List AdbDevice) (serial : String) : Prop :=
  devices.any (·.serial = serial) = true

/-- The serial is listed in state `device`. -/
def Ready (devices : List AdbDevice) (serial : String) : Prop :=
  { serial := serial, state := "device" } ∈ devices

instance (devices : List AdbDevice) (serial : String) : Decidable (Listed devices serial) :=
  inferInstanceAs (Decidable (_ = _))

instance (devices : List AdbDevice) (serial : String) : Decidable (Ready devices serial) :=
  inferInstanceAs (Decidable (_ ∈ _))

theorem Ready.listed {devices : List AdbDevice} {serial : String} (h : Ready devices serial) :
    Listed devices serial :=
  List.any_eq_true.mpr ⟨_, h, by simp⟩

theorem ready_cons_iff {dev : AdbDevice} {devices : List AdbDevice} {serial : String} :
    Ready (dev :: devices) serial ↔
      (dev.serial = serial ∧ dev.state = "device") ∨ Ready devices serial := by
  obtain ⟨s, st⟩ := dev
  simp only [Ready, List.mem_cons, AdbDevice.mk.injEq]
  constructor
  · rintro (⟨rfl, rfl⟩ | h)
    · exact Or.inl ⟨rfl, rfl⟩
    · exact Or.inr h
  · rintro (⟨rfl, rfl⟩ | h)
    · exact Or.inl ⟨rfl, rfl⟩
    · exact Or.inr h

namespace AdbManager

variable {ok : String → Tunnel → Bool} {m : AdbManager} {devices : List AdbDevice}

theorem ran_mem_setupReverse {dev serial : String} {tunnel : Tunnel} {args : List String}
    {succeeded : Bool} :
    .ran serial tunnel args succeeded ∈ m.setupReverse ok dev ↔
      dev = serial ∧ args = m.reverseArgs serial tunnel ∧ succeeded = ok serial tunnel := by
  simp only [setupReverse, List.mem_map, AdbEvent.ran.injEq]
  constructor
  · rintro ⟨_, -, rfl, rfl, rfl, rfl⟩
    exact ⟨rfl, rfl, rfl⟩
  · rintro ⟨rfl, rfl, rfl⟩
    exact ⟨tunnel, by cases tunnel <;> simp, rfl, rfl, rfl, rfl⟩

/-- What happens when the first loop adds a device. -/
def attachEvents (ok : String → Tunnel → Bool) (m : AdbManager) (dev : AdbDevice) :
    List AdbEvent :=
  m.setupReverse ok dev.serial ++ if m.onAttached then [.attached dev] else []

/-- These are the devices whose serials are listed in state `device` and not active,
each once. -/
structure Added (m : AdbManager) (devices added : List AdbDevice) : Prop where
  nodup : (added.map (·.serial)).Nodup
  mem_iff : ∀ serial, serial ∈ added.map (·.serial) ↔
    serial ∉ m.activeSerials ∧ Ready devices serial

variable (ok m devices) in
/-- **The first loop** adds these devices, one after the other. -/
theorem attachLoop_spec : ∃ added, Added m devices added ∧
    attachLoop ok m devices =
      ({ m with activeSerials := m.activeSerials ++ added.map (·.serial) },
        added.flatMap (m.attachEvents ok)) := by
  fun_induction attachLoop ok m devices with
  | case1 m => exact ⟨[], ⟨.nil, by simp [Ready]⟩, by simp⟩
  | case2 m dev devices hstate ih =>
      obtain ⟨added, hadded, heq⟩ := ih
      refine ⟨added, ⟨hadded.nodup, fun serial => ?_⟩, heq⟩
      rw [hadded.mem_iff, ready_cons_iff]
      simp [hstate]
  | case3 m dev devices hstate hknown ih =>
      obtain ⟨added, hadded, heq⟩ := ih
      refine ⟨added, ⟨hadded.nodup, fun serial => ?_⟩, heq⟩
      rw [hadded.mem_iff, ready_cons_iff]
      constructor
      · exact And.imp_right Or.inr
      · rintro ⟨hnew, ⟨rfl, -⟩ | hready⟩
        · exact absurd hknown hnew
        · exact ⟨hnew, hready⟩
  | case4 m dev devices hstate hnew r ih =>
      obtain ⟨added, hadded, heq⟩ := ih
      refine ⟨dev :: added, ⟨?_, fun serial => ?_⟩, ?_⟩
      · rw [List.map_cons, List.nodup_cons, hadded.mem_iff]
        simp [hadded.nodup]
      · rw [List.map_cons, List.mem_cons, hadded.mem_iff, ready_cons_iff]
        by_cases hdev : dev.serial = serial
        · subst hdev
          simp [hnew, not_not.mp hstate]
        · simp [hdev, Ne.symm hdev]
      · simp only [r, heq, List.map_cons, List.append_assoc, List.singleton_append,
          List.flatMap_cons]
        rfl

/-- Active after the first loop are the serials that were, and those listed in state
`device`. -/
theorem mem_attachLoop (serial : String) :
    serial ∈ (attachLoop ok m devices).1.activeSerials ↔
      serial ∈ m.activeSerials ∨ Ready devices serial := by
  obtain ⟨added, hadded, heq⟩ := attachLoop_spec ok m devices
  simp only [heq, List.mem_append, hadded.mem_iff]
  by_cases hactive : serial ∈ m.activeSerials <;> simp [hactive]

/-- None is active twice. -/
theorem nodup_attachLoop (h : m.activeSerials.Nodup) :
    (attachLoop ok m devices).1.activeSerials.Nodup := by
  obtain ⟨added, hadded, heq⟩ := attachLoop_spec ok m devices
  simp only [heq]
  refine h.append hadded.nodup fun serial hactive hnew => ?_
  exact ((hadded.mem_iff serial).mp hnew).1 hactive

/-- The commands run for the serials that are added, and no others. -/
theorem ran_mem_attachLoop {serial : String} {tunnel : Tunnel} {args : List String}
    {succeeded : Bool} :
    .ran serial tunnel args succeeded ∈ (attachLoop ok m devices).2 ↔
      serial ∉ m.activeSerials ∧ Ready devices serial ∧
        args = m.reverseArgs serial tunnel ∧ succeeded = ok serial tunnel := by
  obtain ⟨added, hadded, heq⟩ := attachLoop_spec ok m devices
  have hcallback (dev : AdbDevice) : .ran serial tunnel args succeeded ∉
      (if m.onAttached then [AdbEvent.attached dev] else []) := by
    split <;> simp
  simp only [heq, List.mem_flatMap, attachEvents, List.mem_append, hcallback, or_false,
    ran_mem_setupReverse]
  rw [← and_assoc, ← hadded.mem_iff, List.mem_map]
  constructor
  · rintro ⟨dev, hdev, hserial, hrest⟩
    exact ⟨⟨dev, hdev, hserial⟩, hrest⟩
  · rintro ⟨⟨dev, hdev, hserial⟩, hrest⟩
    exact ⟨dev, hdev, hserial, hrest⟩

/-- The second loop keeps the serials that are listed. -/
theorem detachLoop_fst (onDetached : Bool) (serials : List String) :
    (detachLoop onDetached devices serials).1 =
      serials.filter fun serial => devices.any (·.serial = serial) := by
  induction serials with
  | nil => rfl
  | cons serial serials ih =>
      rw [detachLoop, List.filter_cons]
      split
      · exact congrArg (serial :: ·) ih
      · exact ih

/-- It reports each of the others. -/
theorem detachLoop_snd (onDetached : Bool) (serials : List String) :
    (detachLoop onDetached devices serials).2 =
      (serials.filter fun serial => onDetached && !devices.any (·.serial = serial)).map
        .detached := by
  induction serials with
  | nil => rfl
  | cons serial serials ih =>
      rw [detachLoop, List.filter_cons]
      split
      · rename_i hlisted
        rw [hlisted, Bool.not_true, Bool.and_false]
        exact ih
      · rename_i hlisted
        rw [Bool.not_eq_true] at hlisted
        rw [hlisted, Bool.not_false, Bool.and_true]
        cases onDetached
        · exact ih
        · exact congrArg (.detached serial :: ·) ih

/-- A poll changes the active serials only. -/
theorem poll_fst : (m.poll devices ok).1 =
    { m with activeSerials := (m.poll devices ok).1.activeSerials } := by
  obtain ⟨added, -, heq⟩ := attachLoop_spec ok m devices
  simp only [poll, heq]

/-- **What a poll leaves active**: the active serials that are listed, and those
listed in state `device`. -/
theorem mem_poll_activeSerials (serial : String) :
    serial ∈ (m.poll devices ok).1.activeSerials ↔
      (serial ∈ m.activeSerials ∧ Listed devices serial) ∨ Ready devices serial := by
  simp only [poll, detachLoop_fst, List.mem_filter, mem_attachLoop]
  constructor
  · rintro ⟨hactive | hready, hlisted⟩
    · exact Or.inl ⟨hactive, hlisted⟩
    · exact Or.inr hready
  · rintro (⟨hactive, hlisted⟩ | hready)
    · exact ⟨Or.inl hactive, hlisted⟩
    · exact ⟨Or.inr hready, hready.listed⟩

theorem nodup_poll (h : m.activeSerials.Nodup) :
    (m.poll devices ok).1.activeSerials.Nodup := by
  simp only [poll, detachLoop_fst]
  exact (nodup_attachLoop h).filter _

end AdbManager

/-! ## Notices -/

inductive Notice where
  | attached
  | detached
  deriving DecidableEq, Repr

/-- The notice an event gives about a serial. -/
def AdbEvent.notice? (serial : String) : AdbEvent → Option Notice
  | .attached dev => if dev.serial = serial then some .attached else none
  | .detached s => if s = serial then some .detached else none
  | _ => none

/-- The notices about a serial, in order. -/
def notices (serial : String) (h : List AdbEvent) : List Notice :=
  h.filterMap (AdbEvent.notice? serial)

@[simp] theorem notices_append (serial : String) (h h' : List AdbEvent) :
    notices serial (h ++ h') = notices serial h ++ notices serial h' :=
  List.filterMap_append

/-- They begin with an attach, and no two in a row are the same. -/
structure Alternates (ns : List Notice) : Prop where
  head_ne : ns.head? ≠ some .detached
  chain : ns.IsChain (· ≠ ·)

theorem Alternates.nil : Alternates [] where
  head_ne := by simp
  chain := .nil

/-- A notice may follow when it is a detach exactly after an attach. -/
theorem Alternates.concat {ns : List Notice} {n : Notice} (h : Alternates ns)
    (hlast : ns.getLast? = some .attached ↔ n = .detached) : Alternates (ns ++ [n]) where
  head_ne := by
    cases ns with
    | nil =>
        intro hhead
        exact absurd (hlast.mpr (by simpa using hhead)) (by simp)
    | cons n' ns => exact h.head_ne
  chain := by
    refine List.isChain_append.mpr ⟨h.chain, .singleton n, ?_⟩
    rintro x hx y hy rfl
    obtain rfl : n = x := by simpa using hy
    cases n with
    | attached => exact absurd (hlast.mp hx) (by decide)
    | detached =>
        have hattached : some Notice.detached = some .attached := hx.symm.trans (hlast.mpr rfl)
        cases hattached

namespace AdbManager

variable {ok : String → Tunnel → Bool} {m : AdbManager} {devices : List AdbDevice}

/-- In a list without repeated keys a key occurs once or not at all. -/
theorem filterMap_key {α : Type} {key : α → String} {l : List α} (hnodup : (l.map key).Nodup)
    (serial : String) (n : Notice) :
    (l.filterMap fun a => if key a = serial then some n else none) =
      if serial ∈ l.map key then [n] else [] := by
  induction l with
  | nil => rfl
  | cons a l ih =>
      rw [List.map_cons, List.nodup_cons] at hnodup
      have ih := ih hnodup.2
      by_cases ha : key a = serial
      · subst ha
        rw [if_neg hnodup.1] at ih
        rw [List.filterMap_cons, ih]
        simp
      · rw [List.filterMap_cons, ih]
        simp [ha, Ne.symm ha]

theorem notices_attachEvents (hcallback : m.onAttached = true) (serial : String)
    (dev : AdbDevice) : notices serial (m.attachEvents ok dev) =
      (if dev.serial = serial then some Notice.attached else none).toList := by
  have hsetup : notices serial (m.setupReverse ok dev.serial) = [] := rfl
  rw [attachEvents, if_pos hcallback, notices_append, hsetup, List.nil_append]
  by_cases hdev : dev.serial = serial <;> simp [notices, AdbEvent.notice?, hdev]

theorem notices_attachLoop (hcallback : m.onAttached = true) (serial : String) :
    notices serial (attachLoop ok m devices).2 =
      if serial ∉ m.activeSerials ∧ Ready devices serial then [.attached] else [] := by
  obtain ⟨added, hadded, heq⟩ := attachLoop_spec ok m devices
  have hone : (added.flatMap fun dev => notices serial (m.attachEvents ok dev)) =
      added.filterMap fun dev => if dev.serial = serial then some .attached else none := by
    simp only [notices_attachEvents hcallback, List.filterMap_eq_flatMap_toList]
  rw [heq, notices, List.filterMap_flatMap]
  refine hone.trans ((filterMap_key hadded.nodup serial .attached).trans ?_)
  exact if_congr (hadded.mem_iff serial) rfl rfl

theorem notices_detached {serials : List String} (hnodup : serials.Nodup) (serial : String) :
    notices serial (serials.map .detached) = if serial ∈ serials then [.detached] else [] := by
  rw [notices, List.filterMap_map]
  have hkeys := filterMap_key (hnodup.map Function.injective_id) serial .detached
  rw [List.map_id] at hkeys
  exact hkeys

/-- **The notices of a poll.** -/
theorem notices_poll (hattached : m.onAttached = true) (hdetached : m.onDetached = true)
    (hnodup : m.activeSerials.Nodup) (serial : String) :
    notices serial (m.poll devices ok).2 =
      if serial ∉ m.activeSerials ∧ Ready devices serial then [.attached]
      else if serial ∈ m.activeSerials ∧ ¬Listed devices serial then [.detached] else [] := by
  have hcallback : (attachLoop ok m devices).1.onDetached = true := by
    obtain ⟨added, -, heq⟩ := attachLoop_spec ok m devices
    rw [heq]
    exact hdetached
  have hpolled : notices serial [AdbEvent.polled devices] = [] := rfl
  have hdetach : notices serial (detachLoop true devices
      (attachLoop ok m devices).1.activeSerials).2 =
      if serial ∈ m.activeSerials ∧ ¬Listed devices serial then [.detached] else [] := by
    rw [detachLoop_snd, notices_detached ((nodup_attachLoop hnodup).filter _)]
    simp only [List.mem_filter, mem_attachLoop, Bool.true_and, Bool.not_eq_true']
    refine if_congr ?_ rfl rfl
    rw [← Bool.not_eq_true]
    constructor
    · rintro ⟨hactive | hready, hlisted⟩
      · exact ⟨hactive, hlisted⟩
      · exact absurd hready.listed hlisted
    · exact fun ⟨hactive, hlisted⟩ => ⟨Or.inl hactive, hlisted⟩
  simp only [poll, hcallback]
  rw [List.cons_append, ← List.singleton_append, notices_append, hpolled, List.nil_append,
    notices_append, notices_attachLoop hattached, hdetach]
  by_cases hready : Ready devices serial
  · simp [hready, hready.listed]
  · simp [hready]

end AdbManager

/-- The callbacks stay set, and a serial is active after an attach. -/
structure AdbInv (m : AdbManager) (h : List AdbEvent) : Prop where
  onAttached : m.onAttached = true
  onDetached : m.onDetached = true
  nodup : m.activeSerials.Nodup
  alternates : ∀ serial, Alternates (notices serial h)
  active_iff : ∀ serial,
    serial ∈ m.activeSerials ↔ (notices serial h).getLast? = some .attached

section Runs

variable {wsPort streamPort filePort : UInt16} {m : AdbManager} {h : List AdbEvent}

theorem adbInv_init (hinit : (adbMachine wsPort streamPort filePort).Init m) : AdbInv m [] := by
  obtain rfl : m = _ := hinit
  exact
    { onAttached := rfl
      onDetached := rfl
      nodup := .nil
      alternates := fun _ => .nil
      active_iff := fun _ => by simp [notices] }

theorem AdbInv.poll (hI : AdbInv m h) (devices : List AdbDevice) (ok : String → Tunnel → Bool) :
    AdbInv (m.poll devices ok).1 (h ++ (m.poll devices ok).2) where
  onAttached := by
    rw [AdbManager.poll_fst]
    exact hI.onAttached
  onDetached := by
    rw [AdbManager.poll_fst]
    exact hI.onDetached
  nodup := AdbManager.nodup_poll hI.nodup
  alternates serial := by
    rw [notices_append, AdbManager.notices_poll hI.onAttached hI.onDetached hI.nodup]
    have hlast := hI.active_iff serial
    split
    · rename_i hnew
      exact (hI.alternates serial).concat (by simp [← hlast, hnew.1])
    · split
      · rename_i hgone
        exact (hI.alternates serial).concat (by simp [← hlast, hgone.1])
      · rw [List.append_nil]
        exact hI.alternates serial
  active_iff serial := by
    rw [AdbManager.mem_poll_activeSerials, notices_append,
      AdbManager.notices_poll hI.onAttached hI.onDetached hI.nodup]
    have hlast := hI.active_iff serial
    split
    · rename_i hnew
      simp [hnew.2]
    · rename_i hold
      split
      · rename_i hgone
        have hready : ¬Ready devices serial := fun hready => hgone.2 hready.listed
        simp [hgone.2, hready]
      · rename_i hstays
        rw [List.append_nil, ← hlast]
        constructor
        · rintro (⟨hactive, -⟩ | hready)
          · exact hactive
          · exact not_not.mp fun hnew => hold ⟨hnew, hready⟩
        · intro hactive
          exact Or.inl ⟨hactive, not_not.mp fun hgone => hstays ⟨hactive, hgone⟩⟩

theorem adbInv_reach (hr : (adbMachine wsPort streamPort filePort).Reach Machine.anyStep m h) :
    AdbInv m h := by
  refine Machine.Reach.invariant AdbInv (fun _ => adbInv_init) ?_ hr
  rintro m h p m' es hI - hs
  obtain ⟨rfl, rfl⟩ := adbMachine_step hs
  exact hI.poll p.devices p.ok

/-- **Notices alternate.**  After any polls no serial is active twice, and the
notices about a serial alternate, beginning with an attach; the serial is active
exactly when the last one was an attach.  The next poll has no serial active
twice after any turn of its first loop either, and leaves the active serials that
are listed and those listed in state `device`. -/
theorem notices_alternate
    (hr : (adbMachine wsPort streamPort filePort).Reach Machine.anyStep m h) :
    (m.activeSerials.Nodup ∧
      ∀ serial, Alternates (notices serial h) ∧
        (serial ∈ m.activeSerials ↔ (notices serial h).getLast? = some .attached)) ∧
    ∀ p m' es, (adbMachine wsPort streamPort filePort).step m p = some (m', es) →
      (∀ k, (AdbManager.attachLoop p.ok m (p.devices.take k)).1.activeSerials.Nodup) ∧
      ∀ serial, serial ∈ m'.activeSerials ↔
        (serial ∈ m.activeSerials ∧ Listed p.devices serial) ∨ Ready p.devices serial := by
  have hI := adbInv_reach hr
  refine ⟨⟨hI.nodup, fun serial => ⟨hI.alternates serial, hI.active_iff serial⟩⟩, ?_⟩
  intro p m' es hs
  obtain ⟨rfl, -⟩ := adbMachine_step hs
  exact ⟨fun _ => AdbManager.nodup_attachLoop hI.nodup, AdbManager.mem_poll_activeSerials⟩

end Runs

/-- A phone that is unplugged and plugged in again, listed twice meanwhile, and
another that is not authorised. -/
theorem notices_alternate_sample :
    ∃ (m : AdbManager) (h : List AdbEvent),
      (adbMachine 45678 45679 45680).Reach Machine.anyStep m h ∧
      decide (m.activeSerials = ["A"] ∧
        notices "A" h = [.attached, .detached, .attached]) = true ∧
      m.activeSerials.Nodup := by
  obtain ⟨m, h, hr, hh⟩ := Machine.exists_reach_of_exec (adbMachine 45678 45679 45680)
    Machine.anyStep rfl
    [{ devices := [⟨"A", "device"⟩, ⟨"A", "offline"⟩, ⟨"B", "unauthorized"⟩]
       ok := fun _ _ => true },
     { devices := [⟨"B", "unauthorized"⟩], ok := fun _ _ => true },
     { devices := [⟨"A", "offline"⟩, ⟨"A", "device"⟩, ⟨"A", "device"⟩]
       ok := fun _ _ => false }]
    (fun m h => decide (m.activeSerials = ["A"] ∧
      notices "A" h = [.attached, .detached, .attached]))
    (by decide +kernel)
  exact ⟨m, h, hr, hh, (notices_alternate hr).1.1⟩

end Iriseus.Core
