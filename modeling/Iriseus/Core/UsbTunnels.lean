import Mathlib.Data.Finset.Insert
import Mathlib.Data.Fintype.Defs
import Iriseus.Core.AdbManager

/-!
# The tunnels of the USB devices

The mappings of a device are lost when it leaves state `device`, and an active
serial stays active while it is listed in any state.  A device that comes back
from `offline` or `unauthorized` between two polls that list it is therefore not
set up again; nor is one whose commands have failed, which is active all the same.

## Main results

* `tunnels_up_iff` — every device in state `device` has its tunnels, exactly if
  every poll meets `SetUpOrKept`.
* `tunnels_lost` — a device that was offline for one poll.
-/

namespace Iriseus.Core

open Iriseus.Verified

instance : Fintype Tunnel where
  elems := {.ws, .stream, .file}
  complete tunnel := by cases tunnel <;> simp

def AdbEvent.polled? : AdbEvent → Option (List AdbDevice)
  | .polled devices => some devices
  | _ => none

/-- The devices of the last poll; none before the first. -/
def lastPolled (h : List AdbEvent) : List AdbDevice :=
  (h.filterMap AdbEvent.polled?).getLast?.getD []

/-- A poll that does not list the serial in state `device`. -/
def AdbEvent.pollsWithout (serial : String) : AdbEvent → Bool
  | .polled devices => !decide (Ready devices serial)
  | _ => false

/-- All three commands have succeeded since the last poll that did not list the
serial in state `device`. -/
def TunnelsUp (m : AdbManager) (h : List AdbEvent) (serial : String) : Prop :=
  ∀ tunnel, .ran serial tunnel (m.reverseArgs serial tunnel) true ∈
    Machine.sinceLast (AdbEvent.pollsWithout serial) h

/-- Every serial the last poll has listed in state `device` has its tunnels. -/
def ReadyHaveTunnels (m : AdbManager) (h : List AdbEvent) : Prop :=
  ∀ serial, Ready (lastPolled h) serial → TunnelsUp m h serial

/-- A serial listed in state `device` was so in the last poll, or it is not active
and its three commands succeed. -/
def SetUpOrKept : Machine.StepCond AdbManager Poll AdbEvent := fun m h p =>
  ∀ dev ∈ p.devices, dev.state = "device" →
    Ready (lastPolled h) dev.serial ∨
      (dev.serial ∉ m.activeSerials ∧ ∀ tunnel, p.ok dev.serial tunnel = true)

instance (m : AdbManager) (h : List AdbEvent) (p : Poll) : Decidable (SetUpOrKept m h p) :=
  inferInstanceAs (Decidable (∀ dev ∈ p.devices, _))

theorem setUpOrKept_iff {m : AdbManager} {h : List AdbEvent} {p : Poll} :
    SetUpOrKept m h p ↔ ∀ serial, Ready p.devices serial →
      Ready (lastPolled h) serial ∨
        (serial ∉ m.activeSerials ∧ ∀ tunnel, p.ok serial tunnel = true) := by
  constructor
  · exact fun hcond serial hready => hcond _ hready rfl
  · rintro hcond ⟨serial, state⟩ hdev rfl
    exact hcond serial hdev

/-! ## The events of a poll -/

section Poll

variable {ok : String → Tunnel → Bool} {m : AdbManager} {devices : List AdbDevice}
  {h : List AdbEvent} {serial : String}

theorem polled_attachLoop :
    (AdbManager.attachLoop ok m devices).2.filterMap AdbEvent.polled? = [] := by
  obtain ⟨added, -, heq⟩ := AdbManager.attachLoop_spec ok m devices
  rw [heq, List.filterMap_flatMap, List.flatMap_eq_nil_iff]
  intro dev _
  rw [AdbManager.attachEvents, List.filterMap_append]
  cases m.onAttached <;> rfl

theorem polled_detachLoop (onDetached : Bool) (serials : List String) :
    (AdbManager.detachLoop onDetached devices serials).2.filterMap AdbEvent.polled? = [] := by
  rw [AdbManager.detachLoop_snd, List.filterMap_map]
  exact List.filterMap_eq_nil_iff.mpr fun _ _ => rfl

variable (ok m devices) in
/-- A poll reports the devices first, and once. -/
theorem poll_snd : ∃ rest, (m.poll devices ok).2 = .polled devices :: rest ∧
    rest.filterMap AdbEvent.polled? = [] := by
  let attach := AdbManager.attachLoop ok m devices
  refine ⟨attach.2 ++
    (AdbManager.detachLoop attach.1.onDetached devices attach.1.activeSerials).2, rfl, ?_⟩
  rw [List.filterMap_append, polled_attachLoop, polled_detachLoop, List.append_nil]

theorem lastPolled_poll : lastPolled (h ++ (m.poll devices ok).2) = devices := by
  obtain ⟨rest, hpoll, hrest⟩ := poll_snd ok m devices
  simp [lastPolled, hpoll, hrest, AdbEvent.polled?]

/-- A poll runs the commands for the serials in state `device` that are not active. -/
theorem ran_mem_poll {tunnel : Tunnel} {args : List String} {succeeded : Bool} :
    .ran serial tunnel args succeeded ∈ (m.poll devices ok).2 ↔
      serial ∉ m.activeSerials ∧ Ready devices serial ∧
        args = m.reverseArgs serial tunnel ∧ succeeded = ok serial tunnel := by
  simp only [AdbManager.poll, List.cons_append, List.mem_cons, reduceCtorEq, false_or,
    List.mem_append, AdbManager.ran_mem_attachLoop, AdbManager.detachLoop_snd, List.mem_map,
    and_false, exists_false, or_false]

theorem pollsWithout_eq_false {e : AdbEvent} (he : e.polled? = none) :
    e.pollsWithout serial = false := by
  cases e with
  | polled devices => cases he
  | ran | attached | detached => rfl

/-- What happens in a poll that lists the serial in state `device` is added. -/
theorem sinceLast_poll_ready (hready : Ready devices serial) :
    Machine.sinceLast (AdbEvent.pollsWithout serial) (h ++ (m.poll devices ok).2) =
      Machine.sinceLast (AdbEvent.pollsWithout serial) h ++ (m.poll devices ok).2 := by
  obtain ⟨rest, hpoll, hrest⟩ := poll_snd ok m devices
  refine Machine.sinceLast_append ?_ h
  rw [hpoll]
  intro e he
  rcases List.mem_cons.mp he with rfl | he
  · simp [AdbEvent.pollsWithout, hready]
  · exact pollsWithout_eq_false (List.filterMap_eq_nil_iff.mp hrest e he)

/-- After a poll that does not, only its own events count. -/
theorem mem_sinceLast_poll_without (hready : ¬Ready devices serial) {e : AdbEvent}
    (he : e ∈ Machine.sinceLast (AdbEvent.pollsWithout serial) (h ++ (m.poll devices ok).2)) :
    e ∈ (m.poll devices ok).2 := by
  obtain ⟨rest, hpoll, hrest⟩ := poll_snd ok m devices
  rw [hpoll] at he ⊢
  rw [Machine.sinceLast_restart (by simp [AdbEvent.pollsWithout, hready])
    fun x hx => pollsWithout_eq_false (List.filterMap_eq_nil_iff.mp hrest x hx)] at he
  exact List.mem_cons_of_mem _ he

end Poll

/-! ## The invariant -/

/-- A serial the last poll has listed in state `device` is active; for another no
command has run since. -/
structure TunnelInv (m : AdbManager) (h : List AdbEvent) : Prop where
  active : ∀ serial, Ready (lastPolled h) serial → serial ∈ m.activeSerials
  fresh : ∀ serial, ¬Ready (lastPolled h) serial → ∀ tunnel args succeeded,
    .ran serial tunnel args succeeded ∉
      Machine.sinceLast (AdbEvent.pollsWithout serial) h

section Runs

variable {wsPort streamPort filePort : UInt16} {m : AdbManager} {h : List AdbEvent}

theorem tunnelInv_nil : TunnelInv m [] where
  active serial hready := by cases hready
  fresh serial hready tunnel args succeeded := by simp [Machine.sinceLast]

theorem tunnelInv_poll (devices : List AdbDevice) (ok : String → Tunnel → Bool) :
    TunnelInv (m.poll devices ok).1 (h ++ (m.poll devices ok).2) where
  active serial hready := by
    rw [lastPolled_poll] at hready
    exact (AdbManager.mem_poll_activeSerials serial).mpr (Or.inr hready)
  fresh serial hready tunnel args succeeded hran := by
    rw [lastPolled_poll] at hready
    exact hready (ran_mem_poll.mp (mem_sinceLast_poll_without hready hran)).2.1

/-- **One serial.**  Listed in state `device`, it has its tunnels after the poll if
it had been listed so before, or if it is set up now. -/
theorem tunnelsUp_poll {serial : String} {p : Poll} (hI : TunnelInv m h)
    (hup : ReadyHaveTunnels m h) (hready : Ready p.devices serial) :
    TunnelsUp (m.poll p.devices p.ok).1 (h ++ (m.poll p.devices p.ok).2) serial ↔
      Ready (lastPolled h) serial ∨
        (serial ∉ m.activeSerials ∧ ∀ tunnel, p.ok serial tunnel = true) := by
  have hargs (tunnel : Tunnel) : (m.poll p.devices p.ok).1.reverseArgs serial tunnel =
      m.reverseArgs serial tunnel := by
    rw [AdbManager.poll_fst]
    rfl
  simp only [TunnelsUp, hargs, sinceLast_poll_ready hready, List.mem_append]
  by_cases hlast : Ready (lastPolled h) serial
  · exact iff_of_true (fun tunnel => Or.inl (hup serial hlast tunnel)) (Or.inl hlast)
  · have hfresh := hI.fresh serial hlast
    simp only [hfresh, false_or, ran_mem_poll, hready, true_and, hlast]
    constructor
    · exact fun hran => ⟨(hran .ws).1, fun tunnel => (hran tunnel).2.symm⟩
    · exact fun ⟨hnew, hok⟩ tunnel => ⟨hnew, (hok tunnel).symm⟩

theorem readyHaveTunnels_poll {p : Poll} (hI : TunnelInv m h) (hup : ReadyHaveTunnels m h) :
    ReadyHaveTunnels (m.poll p.devices p.ok).1 (h ++ (m.poll p.devices p.ok).2) ↔
      SetUpOrKept m h p := by
  rw [setUpOrKept_iff, ReadyHaveTunnels, lastPolled_poll]
  exact forall₂_congr fun serial hready => tunnelsUp_poll hI hup hready

theorem tunnelInv_reach {cond : Machine.StepCond AdbManager Poll AdbEvent}
    (hr : (adbMachine wsPort streamPort filePort).Reach cond m h) : TunnelInv m h := by
  refine Machine.Reach.invariant TunnelInv (fun _ _ => tunnelInv_nil) ?_ hr
  rintro m h p m' es - - hs
  obtain ⟨rfl, rfl⟩ := adbMachine_step hs
  exact tunnelInv_poll p.devices p.ok

/-- **The tunnels are up, exactly under `SetUpOrKept`.**  After any polls that all
meet the condition every serial in state `device` has its tunnels, and the next poll
keeps it so if and only if it meets the condition. -/
theorem tunnels_up_iff (hr : (adbMachine wsPort streamPort filePort).Reach SetUpOrKept m h) :
    ReadyHaveTunnels m h ∧
      ∀ p m' es, (adbMachine wsPort streamPort filePort).step m p = some (m', es) →
        (ReadyHaveTunnels m' (h ++ es) ↔ SetUpOrKept m h p) := by
  have hup : ReadyHaveTunnels m h := by
    refine hr.invariant_along ReadyHaveTunnels ?_ ?_
    · intro m _ serial hready
      cases hready
    · intro m h p m' es hr hup hcond hs
      obtain ⟨rfl, rfl⟩ := adbMachine_step hs
      exact (readyHaveTunnels_poll (tunnelInv_reach hr) hup).mpr hcond
  refine ⟨hup, fun p m' es hs => ?_⟩
  obtain ⟨rfl, rfl⟩ := adbMachine_step hs
  exact readyHaveTunnels_poll (tunnelInv_reach hr) hup

end Runs

/-- A phone stays in state `device`, is unplugged and comes back. -/
theorem tunnels_up_sample :
    ∃ (m : AdbManager) (h : List AdbEvent),
      (adbMachine 45678 45679 45680).Reach SetUpOrKept m h ∧
      decide (Ready (lastPolled h) "A") = true ∧ TunnelsUp m h "A" := by
  obtain ⟨m, h, hr, hh⟩ := Machine.exists_reach_of_exec (adbMachine 45678 45679 45680)
    SetUpOrKept rfl
    [{ devices := [⟨"A", "device"⟩], ok := fun _ _ => true },
     { devices := [⟨"A", "device"⟩, ⟨"B", "offline"⟩], ok := fun _ _ => false },
     { devices := [], ok := fun _ _ => false },
     { devices := [⟨"A", "device"⟩], ok := fun _ _ => true }]
    (fun _ h => decide (Ready (lastPolled h) "A"))
    (by decide +kernel)
  exact ⟨m, h, hr, hh, (tunnels_up_iff hr).1 "A" (of_decide_eq_true hh)⟩

/-- A phone is offline for one poll: it is listed all the time, so that the commands
do not run again. -/
theorem tunnels_lost :
    ¬∀ (m : AdbManager) (h : List AdbEvent),
      (adbMachine 45678 45679 45680).Reach Machine.anyStep m h → ReadyHaveTunnels m h := by
  intro hall
  obtain ⟨m, h, hr, hh⟩ := Machine.exists_reach_of_exec (adbMachine 45678 45679 45680)
    Machine.anyStep rfl
    [{ devices := [⟨"A", "device"⟩], ok := fun _ _ => true },
     { devices := [⟨"A", "offline"⟩], ok := fun _ _ => true },
     { devices := [⟨"A", "device"⟩], ok := fun _ _ => true }]
    (fun m h => decide (Ready (lastPolled h) "A" ∧
      .ran "A" .ws (m.reverseArgs "A" .ws) true ∉
        Machine.sinceLast (AdbEvent.pollsWithout "A") h))
    (by decide +kernel)
  rw [decide_eq_true_iff] at hh
  exact hh.2 (hall m h hr "A" hh.1 .ws)

end Iriseus.Core
