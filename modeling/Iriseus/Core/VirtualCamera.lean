import Iriseus.Core.VideoDecoder

/-!
# The virtual camera: `VirtualCamera`

Port of `VirtualCamera.cpp`.  `softcam.dll` is loaded at run time: `open` loads
it if it is not loaded, looks up its three functions and creates a camera;
`close` deletes the camera and frees the library.  The three addresses stay in
the members after the library is gone, and `sendFrame` and `close` only test
them for null, so nothing but the order of the calls keeps one from going
through a dangling pointer.

`Driver` is the other side of these calls: the libraries that are loaded and
the cameras that exist.  It refuses a call into a library that is not loaded, on
a camera that is not there, a frame of another size than the camera's, and the
freeing of a library one of whose cameras is left.

## Main results

* `open_owns`, `sendFrame_owns`, `close_owns` — what each operation does to what
  the object owns; an open camera must not be opened again.
-/

namespace Iriseus.Core

/-! ## The calls -/

/-- What the system answers while a camera is opened. -/
structure OpenAnswers where
  loads : Bool := true
  hasCreate : Bool := true
  hasDelete : Bool := true
  hasSend : Bool := true
  creates : Bool := true
  deriving DecidableEq, Repr

/-- The calls that leave the program.  A call of the driver names the library
its address was taken from. -/
inductive CameraCall where
  | loadLibrary (lib : Nat)
  | freeLibrary (lib : Nat)
  | createCamera (lib cam width height : Nat)
  /-- `scCreateCamera` returns null. -/
  | createFailed (lib : Nat)
  | deleteCamera (lib cam : Nat)
  | sendFrame (lib cam : Nat) (rgb : Array Pixel24)
  /-- A call through a null pointer. -/
  | nullCall
  deriving DecidableEq, Repr

/-- The members; an address is known by the library it was taken from.
`nextHandle` is the handle that the system gives next: a handle stands for the
call that returned it. -/
structure VirtualCamera where
  dll : Option Nat := none
  cam : Option Nat := none
  fnCreate : Option Nat := none
  fnDelete : Option Nat := none
  fnSend : Option Nat := none
  width : Nat := 0
  height : Nat := 0
  nextHandle : Nat := 0
  deriving DecidableEq, Repr

namespace VirtualCamera

def isOpen (c : VirtualCamera) : Bool := c.cam.isSome

/-- `loadDll`, and whether it succeeds. -/
def loadDll (c : VirtualCamera) (ans : OpenAnswers) :
    VirtualCamera × List CameraCall × Bool :=
  match c.dll with
  | some _ => (c, [], true)
  | none =>
      if ans.loads then
        let lib := c.nextHandle
        let c := { c with
          dll := some lib
          fnCreate := if ans.hasCreate then some lib else none
          fnDelete := if ans.hasDelete then some lib else none
          fnSend := if ans.hasSend then some lib else none
          nextHandle := lib + 1 }
        if c.fnCreate = none ∨ c.fnDelete = none ∨ c.fnSend = none then
          ({ c with dll := none }, [.loadLibrary lib, .freeLibrary lib], false)
        else (c, [.loadLibrary lib], true)
      else (c, [], false)

/-- The second half of `open`: `m_cam = m_fnCreate(width, height, fps)`. -/
def create (c : VirtualCamera) (width height : Nat) (creates : Bool) :
    VirtualCamera × List CameraCall × Bool :=
  match c.fnCreate with
  | none => (c, [.nullCall], false)
  | some lib =>
      if creates then
        ({ c with
            cam := some c.nextHandle, width := width, height := height
            nextHandle := c.nextHandle + 1 },
          [.createCamera lib c.nextHandle width height], true)
      else ({ c with cam := none }, [.createFailed lib], false)

/-- `open`, and whether it succeeds. -/
def «open» (c : VirtualCamera) (width height : Nat) (ans : OpenAnswers) :
    VirtualCamera × List CameraCall × Bool :=
  let r := c.loadDll ans
  if r.2.2 then
    let r' := r.1.create width height ans.creates
    (r'.1, r.2.1 ++ r'.2.1, r'.2.2)
  else r

/-- `sendFrame`; the size the caller gives is not looked at. -/
def sendFrame (c : VirtualCamera) (rgb : Array Pixel24) : List CameraCall :=
  match c.cam, c.fnSend with
  | some cam, some lib => [.sendFrame lib cam rgb]
  | _, _ => []

/-- The first half of `close`. -/
def deleteCam (c : VirtualCamera) : VirtualCamera × List CameraCall :=
  match c.cam, c.fnDelete with
  | some cam, some lib => ({ c with cam := none }, [.deleteCamera lib cam])
  | _, _ => (c, [])

/-- `close`, which is also what the destructor does. -/
def close (c : VirtualCamera) : VirtualCamera × List CameraCall :=
  let r := c.deleteCam
  match r.1.dll with
  | some lib => ({ r.1 with dll := none }, r.2 ++ [.freeLibrary lib])
  | none => r

end VirtualCamera

/-! ## The other side -/

/-- A camera that exists, with the library that created it. -/
structure LiveCamera where
  cam : Nat
  lib : Nat
  width : Nat
  height : Nat
  deriving DecidableEq, Repr

structure Driver where
  libraries : List Nat := []
  cameras : List LiveCamera := []
  deriving DecidableEq, Repr

namespace Driver

/-- One call; `none` is a call that must not be made. -/
def apply (d : Driver) : CameraCall → Option Driver
  | .loadLibrary lib => some { d with libraries := lib :: d.libraries }
  | .freeLibrary lib =>
      if lib ∈ d.libraries ∧ ∀ c ∈ d.cameras, c.lib ≠ lib then
        some { d with libraries := d.libraries.erase lib }
      else none
  | .createCamera lib cam width height =>
      if lib ∈ d.libraries then
        some { d with
          cameras := { cam := cam, lib := lib, width := width, height := height } ::
            d.cameras }
      else none
  | .createFailed lib => if lib ∈ d.libraries then some d else none
  | .deleteCamera lib cam =>
      if lib ∈ d.libraries ∧ ∃ c ∈ d.cameras, c.cam = cam ∧ c.lib = lib then
        some { d with cameras := d.cameras.filter fun c => c.cam ≠ cam }
      else none
  | .sendFrame lib cam rgb =>
      if lib ∈ d.libraries ∧
          ∃ c ∈ d.cameras, c.cam = cam ∧ c.lib = lib ∧ rgb.size = c.width * c.height then
        some d
      else none
  | .nullCall => none

/-- A sequence of calls. -/
def run (d : Driver) (calls : List CameraCall) : Option Driver := calls.foldlM apply d

theorem run_cons (d : Driver) (call : CameraCall) (calls : List CameraCall) :
    d.run (call :: calls) = (d.apply call).bind fun d' => d'.run calls :=
  rfl

/-- At most one library is loaded, and at most one camera exists. -/
structure Single (d : Driver) : Prop where
  libraries : d.libraries.length ≤ 1
  cameras : d.cameras.length ≤ 1

/-- No call is refused, and all the way there is at most one library and one
camera. -/
inductive Serves : Driver → List CameraCall → Driver → Prop
  | nil {d : Driver} (hd : d.Single) : Serves d [] d
  | cons {d d₁ d' : Driver} {call : CameraCall} {calls : List CameraCall} (hd : d.Single)
      (happly : d.apply call = some d₁) (hrest : Serves d₁ calls d') :
      Serves d (call :: calls) d'

namespace Serves

variable {d d₁ d' : Driver} {calls calls' : List CameraCall}

theorem single {call : CameraCall} (hd : d.Single) (happly : d.apply call = some d')
    (hd' : d'.Single) : d.Serves [call] d' :=
  .cons hd happly (.nil hd')

theorem append (h : d.Serves calls d₁) (h' : d₁.Serves calls' d') :
    d.Serves (calls ++ calls') d' := by
  induction h with
  | nil _ => exact h'
  | cons hd happly _ ih => exact .cons hd happly (ih h')

theorem run (h : d.Serves calls d') : d.run calls = some d' := by
  induction h with
  | nil _ => rfl
  | cons _ happly _ ih => rw [run_cons, happly, Option.bind_some, ih]

/-- After the first calls it is so as well. -/
theorem of_prefix (h : d.Serves calls d') (hpre : calls' <+: calls) :
    ∃ d₁, d.run calls' = some d₁ ∧ d₁.Single := by
  induction h generalizing calls' with
  | nil hd =>
      rw [List.prefix_nil.mp hpre]
      exact ⟨_, rfl, hd⟩
  | cons hd happly _ ih =>
      rcases List.prefix_cons_iff.mp hpre with rfl | ⟨rest, rfl, hrest⟩
      · exact ⟨_, rfl, hd⟩
      · obtain ⟨d₁, hrun, hsingle⟩ := ih hrest
        exact ⟨d₁, by rw [run_cons, happly, Option.bind_some, hrun], hsingle⟩

end Serves

end Driver

/-! ## What the object owns -/

namespace VirtualCamera

/-- The three addresses come from the library `lib`. -/
structure Linked (c : VirtualCamera) (lib : Nat) : Prop where
  dll : c.dll = some lib
  fnCreate : c.fnCreate = some lib
  fnDelete : c.fnDelete = some lib
  fnSend : c.fnSend = some lib

/-- What is loaded and what exists is what the object holds: nothing, the
library, or the library and one camera of the size it was opened with. -/
inductive Owns (c : VirtualCamera) : Driver → Prop
  | nothing (hdll : c.dll = none) (hcam : c.cam = none) : Owns c {}
  | library {lib : Nat} (hlinked : c.Linked lib) (hcam : c.cam = none) :
      Owns c { libraries := [lib] }
  | camera {lib cam : Nat} (hlinked : c.Linked lib) (hcam : c.cam = some cam) :
      Owns c
        { libraries := [lib]
          cameras := [{ cam := cam, lib := lib, width := c.width, height := c.height }] }

theorem owns_new : Owns {} {} := .nothing rfl rfl

theorem single_new : Driver.Single {} := ⟨Nat.zero_le 1, Nat.zero_le 1⟩

theorem single_library (lib : Nat) : Driver.Single { libraries := [lib] } :=
  ⟨Nat.le_refl 1, Nat.zero_le 1⟩

theorem Owns.single {c : VirtualCamera} {d : Driver} (hown : c.Owns d) : d.Single := by
  cases hown with
  | nothing _ _ => exact single_new
  | library _ _ => exact single_library _
  | camera _ _ => exact ⟨Nat.le_refl 1, Nat.le_refl 1⟩

/-- `loadDll` on a closed camera: the library is there afterwards, or nothing
is. -/
theorem loadDll_owns {c : VirtualCamera} {d : Driver} (ans : OpenAnswers)
    (hown : c.Owns d) (hclosed : c.cam = none) :
    (c.loadDll ans).1.cam = none ∧
      if (c.loadDll ans).2.2 then
        ∃ lib, (c.loadDll ans).1.Linked lib ∧
          d.Serves (c.loadDll ans).2.1 { libraries := [lib] }
      else (c.loadDll ans).1.Owns {} ∧ d.Serves (c.loadDll ans).2.1 {} := by
  cases hown with
  | camera _ hcam =>
      rw [hclosed] at hcam
      cases hcam
  | library hlinked _ =>
      simp only [loadDll, hlinked.dll]
      exact ⟨hclosed, _, hlinked, .nil (single_library _)⟩
  | nothing hdll _ =>
      simp only [loadDll, hdll]
      by_cases hloads : ans.loads = true
      · rw [if_pos hloads]
        by_cases hfound : ans.hasCreate = true ∧ ans.hasDelete = true ∧ ans.hasSend = true
        · obtain ⟨h1, h2, h3⟩ := hfound
          simp only [h1, h2, h3, if_true, reduceCtorEq, or_self, if_false]
          exact ⟨hclosed, c.nextHandle, ⟨rfl, rfl, rfl, rfl⟩,
            .single single_new rfl (single_library _)⟩
        · -- an address is missing: the library is freed again
          have hnull : (if ans.hasCreate then some c.nextHandle else none) = none ∨
              (if ans.hasDelete then some c.nextHandle else none) = none ∨
              (if ans.hasSend then some c.nextHandle else none) = none := by
            rcases Bool.eq_false_or_eq_true ans.hasCreate with h1 | h1 <;>
              rcases Bool.eq_false_or_eq_true ans.hasDelete with h2 | h2 <;>
                rcases Bool.eq_false_or_eq_true ans.hasSend with h3 | h3 <;>
                  simp_all
          rw [if_pos hnull]
          have hfreed : Driver.apply { libraries := [c.nextHandle] }
              (.freeLibrary c.nextHandle) = some {} := by simp [Driver.apply]
          exact ⟨hclosed, .nothing rfl hclosed,
            .cons single_new rfl (.single (single_library _) hfreed single_new)⟩
      · rw [if_neg hloads]
        exact ⟨hclosed, .nothing hdll hclosed, .nil single_new⟩

/-- What an opening leaves behind: the camera with the size asked for, or none. -/
def Opened (c : VirtualCamera) (width height : Nat) (ok : Bool) : Prop :=
  if ok then c.isOpen = true ∧ c.width = width ∧ c.height = height else c.cam = none

theorem create_owns {c : VirtualCamera} {lib : Nat} (width height : Nat) (creates : Bool)
    (hlinked : c.Linked lib) :
    ∃ d', Driver.Serves { libraries := [lib] } (c.create width height creates).2.1 d' ∧
      (c.create width height creates).1.Owns d' ∧
      (c.create width height creates).1.Opened width height
        (c.create width height creates).2.2 := by
  obtain ⟨hdll, hcreate, hdelete, hsend⟩ := hlinked
  simp only [create, hcreate]
  cases creates with
  | true =>
      have hown : Owns { c with
          cam := some c.nextHandle, fnCreate := some lib, width := width, height := height
          nextHandle := c.nextHandle + 1 } _ := .camera ⟨hdll, rfl, hdelete, hsend⟩ rfl
      exact ⟨_, .single (single_library lib) (by simp [Driver.apply]) hown.single, hown,
        rfl, rfl, rfl⟩
  | false =>
      exact ⟨_, .single (single_library lib) (by simp [Driver.apply]) (single_library lib),
        .library ⟨hdll, rfl, hdelete, hsend⟩ rfl, rfl⟩

/-- **`open` on a closed camera.**  No call is refused; if it succeeds the camera
exists, with the size asked for, and otherwise the object is still closed. -/
theorem open_owns {c : VirtualCamera} {d : Driver} (width height : Nat) (ans : OpenAnswers)
    (hown : c.Owns d) (hclosed : c.cam = none) :
    ∃ d', d.Serves (c.open width height ans).2.1 d' ∧ (c.open width height ans).1.Owns d' ∧
      (c.open width height ans).1.Opened width height (c.open width height ans).2.2 := by
  obtain ⟨hcam, hload⟩ := loadDll_owns ans hown hclosed
  unfold VirtualCamera.open
  split at hload
  · rename_i hok
    obtain ⟨lib, hlinked, hserves⟩ := hload
    obtain ⟨d', hcreate, howns, hopened⟩ := create_owns width height ans.creates hlinked
    simp only [hok, if_true]
    exact ⟨d', hserves.append hcreate, howns, hopened⟩
  · rename_i hok
    simp only [Bool.not_eq_true] at hok
    simp only [hok, Bool.false_eq_true, if_false]
    exact ⟨{}, hload.2, hload.1, hcam⟩

/-- A frame of the camera's size can be sent; without a camera nothing is. -/
theorem sendFrame_owns {c : VirtualCamera} {d : Driver} {rgb : Array Pixel24}
    (hown : c.Owns d) (hsize : c.isOpen = true → rgb.size = c.width * c.height) :
    d.Serves (c.sendFrame rgb) d := by
  have hsingle := hown.single
  cases hown with
  | nothing _ hcam =>
      simp only [sendFrame, hcam]
      exact .nil hsingle
  | library _ hcam =>
      simp only [sendFrame, hcam]
      exact .nil hsingle
  | camera hlinked hcam =>
      have hrgb := hsize (by simp [isOpen, hcam])
      simp only [sendFrame, hcam, hlinked.fnSend]
      exact .single hsingle (by simp [Driver.apply, hrgb]) hsingle

/-- **`close` gives everything back.** -/
theorem close_owns {c : VirtualCamera} {d : Driver} (hown : c.Owns d) :
    d.Serves c.close.2 {} ∧ c.close.1.dll = none ∧ c.close.1.cam = none := by
  have hsingle := hown.single
  have hfreed : ∀ lib, Driver.apply { libraries := [lib] } (.freeLibrary lib) = some {} :=
    fun lib => by simp [Driver.apply]
  cases hown with
  | nothing hdll hcam =>
      simp only [close, deleteCam, hcam, hdll]
      exact ⟨.nil single_new, trivial, trivial⟩
  | library hlinked hcam =>
      simp only [close, deleteCam, hcam, hlinked.dll]
      exact ⟨.single hsingle (hfreed _) single_new, trivial, trivial⟩
  | @camera lib cam hlinked hcam =>
      simp only [close, deleteCam, hcam, hlinked.dll, hlinked.fnDelete]
      exact ⟨.cons hsingle (by simp [Driver.apply])
        (.single (single_library lib) (hfreed lib) single_new), trivial, trivial⟩

end VirtualCamera

end Iriseus.Core
