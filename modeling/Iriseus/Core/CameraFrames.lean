import Iriseus.Core.StreamLifecycle

/-!
# What the receiver makes of the virtual camera

The decoder calls back with every frame; the receiver opens the camera with the
size of the first one, tries again with the next frame if that fails, and sends
the frame.  `stop` closes the camera after it has joined the decode thread.  The
calls that leave the program are checked against the `Driver`.

## Main results

* `showFrames_shownBy` — the frames of a NALU are sent as they must be.
* `camera_calls_safe` — so are all calls of a run, and `stop` leaves nothing behind.
-/

namespace Iriseus.Core

open Iriseus.Verified
open Iriseus.Verified.Machine

/-! ## Frames of the canvas's size -/

/-- The calls of the virtual camera, in order. -/
def cameraCalls (h : List StreamEvent) : List CameraCall :=
  h.filterMap fun e => match e with
    | .camera call => some call
    | _ => none

/-- The decoder has a canvas of this size. -/
structure HasCanvas (targetWidth targetHeight : Nat) (d : VideoDecoder) : Prop where
  width : d.targetWidth = targetWidth
  height : d.targetHeight = targetHeight
  size : d.rgbBuffer.size = targetWidth * targetHeight

/-- The camera is open with this size, or closed. -/
def VirtualCamera.Sized (c : VirtualCamera) (width height : Nat) : Prop :=
  c.isOpen = true → c.width = width ∧ c.height = height

/-- The calls are accepted, and lead from what is owned to what is owned. -/
structure ShownBy (width height : Nat) (d : Driver) (c : VirtualCamera)
    (calls : List CameraCall) (d' : Driver) : Prop where
  accepted : d.Serves calls d'
  owns : c.Owns d'
  sized : c.Sized width height

section Camera

variable {π : Type} {scale : SwsScale π} {r r' : LiveReceiver} {h es : List StreamEvent}
variable {width height : Nat} {d : VideoDecoder} {c : VirtualCamera} {drv : Driver}

@[simp] theorem cameraCalls_append (h es : List StreamEvent) :
    cameraCalls (h ++ es) = cameraCalls h ++ cameraCalls es :=
  List.filterMap_append

@[simp] theorem cameraCalls_map (calls : List CameraCall) :
    cameraCalls (calls.map .camera) = calls := by
  simp [cameraCalls, List.filterMap_map]

theorem hasCanvas_adapt {π : Type} (hd : HasCanvas width height d) (frame : AVFrame π)
    (created : Bool) : HasCanvas width height (d.adapt frame created) := by
  obtain ⟨rfl, rfl, hsize⟩ := hd
  unfold VideoDecoder.adapt
  split
  · dsimp only
    split
    · exact ⟨rfl, rfl, by simpa using hsize⟩
    · exact ⟨rfl, rfl, hsize⟩
  · exact ⟨rfl, rfl, hsize⟩

/-- A conversion keeps the canvas and passes it on. -/
theorem hasCanvas_convertToRgb {π : Type} (scale : SwsScale π)
    (hd : HasCanvas width height d) (frame : AVFrame π) :
    HasCanvas width height (d.convertToRgb scale frame).1 ∧
      ∀ rgb w h, .onFrame rgb w h ∈ (d.convertToRgb scale frame).2 →
        w = width ∧ h = height ∧ rgb.size = width * height := by
  obtain ⟨rfl, rfl, hsize⟩ := hd
  unfold VideoDecoder.convertToRgb
  split
  · exact ⟨⟨rfl, rfl, hsize⟩, by simp⟩
  · split
    · exact ⟨⟨rfl, rfl, hsize⟩, by simp⟩
    · -- clearing, blitting and mirroring keep the size of the buffer
      have hkept : ∀ rgb : Array Pixel24,
          (if d.scaledWidth < d.targetWidth ∨ d.scaledHeight < d.targetHeight then
            Array.replicate d.rgbBuffer.size black else d.rgbBuffer) = rgb →
          rgb.size = d.targetWidth * d.targetHeight := by
        rintro rgb rfl
        split
        · rw [Array.size_replicate, hsize]
        · exact hsize
      constructor
      · refine ⟨rfl, rfl, ?_⟩
        dsimp only
        split <;> simp [hkept _ rfl]
      · intro rgb w h hmem
        simp only [List.mem_cons, reduceCtorEq, DecoderEvent.onFrame.injEq, List.not_mem_nil,
          or_false, false_or] at hmem
        obtain ⟨rfl, rfl, rfl⟩ := hmem
        refine ⟨rfl, rfl, ?_⟩
        split <;> simp [hkept _ rfl]

/-- The callback: the camera is opened with the size of the canvas, and gets a
frame of that size. -/
theorem onFrame_shownBy (hown : c.Owns drv) (hsized : c.Sized width height)
    {rgb : Array Pixel24} (hrgb : rgb.size = width * height) (answers : OpenAnswers) :
    ∃ drv', ShownBy width height drv (c.onFrame rgb width height answers).1
      (c.onFrame rgb width height answers).2 drv' := by
  unfold VirtualCamera.onFrame
  by_cases hopen : c.isOpen = true
  · rw [if_pos hopen]
    obtain ⟨rfl, rfl⟩ := hsized hopen
    exact ⟨drv, VirtualCamera.sendFrame_owns hown fun _ => hrgb, hown, fun _ => ⟨rfl, rfl⟩⟩
  · have hclosed : c.cam = none := by simpa [VirtualCamera.isOpen] using hopen
    rw [if_neg hopen]
    obtain ⟨drv', hserves, hown', hopened⟩ :=
      VirtualCamera.open_owns width height answers hown hclosed
    dsimp only
    split
    · rename_i hok
      rw [VirtualCamera.Opened, if_pos hok] at hopened
      obtain ⟨-, hwidth, hheight⟩ := hopened
      refine ⟨drv', hserves.append ?_, hown', fun _ => ⟨hwidth, hheight⟩⟩
      exact VirtualCamera.sendFrame_owns hown' fun _ => by rw [hwidth, hheight, hrgb]
    · rename_i hfailed
      rw [VirtualCamera.Opened, if_neg hfailed] at hopened
      refine ⟨drv', hserves, hown', fun h => ?_⟩
      simp [VirtualCamera.isOpen, hopened] at h

theorem runCallbacks_shownBy {π : Type} (answers : OpenAnswers) :
    ∀ {es : List (DecoderEvent π)} {c : VirtualCamera} {drv : Driver}, c.Owns drv →
      c.Sized width height →
      (∀ rgb w h, .onFrame rgb w h ∈ es → w = width ∧ h = height ∧ rgb.size = width * height) →
      ∃ drv', ShownBy width height drv (runCallbacks answers c es).1
        (runCallbacks answers c es).2 drv' := by
  intro es
  induction es with
  | nil => exact fun hown hsized _ => ⟨_, .nil hown.single, hown, hsized⟩
  | cons e es ih =>
      intro c drv hown hsized hframes
      have hrest := fun rgb w h hmem => hframes rgb w h (List.mem_cons_of_mem e hmem)
      cases e with
      | swsScale ctx frame => exact ih hown hsized hrest
      | onFrame rgb w h =>
          obtain ⟨rfl, rfl, hrgb⟩ := hframes rgb w h List.mem_cons_self
          obtain ⟨drv₁, hserves₁, hown₁, hsized₁⟩ :=
            onFrame_shownBy hown hsized hrgb answers
          obtain ⟨drv₂, hserves₂, hown₂, hsized₂⟩ := ih hown₁ hsized₁ hrest
          exact ⟨drv₂, hserves₁.append hserves₂, hown₂, hsized₂⟩

/-- The frames of one NALU, by induction on the codec's frames. -/
theorem showFrames_shownBy {π : Type} (scale : SwsScale π) :
    ∀ (frames : List (DecodedFrame π)) {d : VideoDecoder} {c : VirtualCamera} {drv : Driver},
      HasCanvas width height d → c.Owns drv → c.Sized width height →
      HasCanvas width height (showFrames scale d c frames).1 ∧
        ∃ drv', ShownBy width height drv (showFrames scale d c frames).2.1
          (showFrames scale d c frames).2.2 drv' := by
  intro frames
  induction frames with
  | nil => exact fun hd hown hsized => ⟨hd, _, .nil hown.single, hown, hsized⟩
  | cons f fs ih =>
      intro d c drv hd hown hsized
      have hflip : HasCanvas width height { d with flipHorizontal := f.flip } :=
        ⟨hd.width, hd.height, hd.size⟩
      obtain ⟨hd₁, hframes⟩ := hasCanvas_convertToRgb scale
        (hasCanvas_adapt hflip f.frame f.created) f.frame
      obtain ⟨drv₁, hserves₁, hown₁, hsized₁⟩ :=
        runCallbacks_shownBy f.answers hown hsized hframes
      obtain ⟨hd₂, drv₂, hserves₂, hown₂, hsized₂⟩ := ih hd₁ hown₁ hsized₁
      exact ⟨hd₂, drv₂, hserves₁.append hserves₂, hown₂, hsized₂⟩

/-- What the receiver has made of the driver so far. -/
structure CameraInv (width height : Nat) (r : LiveReceiver) (h : List StreamEvent) : Prop where
  canvas : HasCanvas width height r.decoder
  shown : ∃ drv, ShownBy width height {} r.camera (cameraCalls h) drv
  closed : r.stop = .returned → r.camera.dll = none ∧ r.camera.cam = none

/-- A step that leaves decoder and camera alone. -/
theorem CameraInv.frame (hI : CameraInv width height r h) (hdecoder : r'.decoder = r.decoder)
    (hcamera : r'.camera = r.camera) (hquiet : cameraCalls es = [])
    (hstop : r'.stop = .returned → r.stop = .returned) :
    CameraInv width height r' (h ++ es) where
  canvas := hdecoder ▸ hI.canvas
  shown := by
    rw [cameraCalls_append, hquiet, List.append_nil, hcamera]
    exact hI.shown
  closed := fun hreturned => hcamera ▸ hI.closed (hstop hreturned)

theorem cameraCalls_statusCall (r : LiveReceiver) (active : Bool) :
    cameraCalls (r.statusCall active) = [] := by
  unfold LiveReceiver.statusCall
  split <;> rfl

/-- **One step.**  Only the decode thread and the end of `stop` call the camera, and
`stop` comes there after the decode thread has ended. -/
theorem cameraInv_step (hC : Coordinated r) (hI : CameraInv width height r h)
    (hs : LiveStep scale r r' es) : CameraInv width height r' (h ++ es) := by
  cases hs with
  | statusOn _ => exact hI.frame rfl rfl (cameraCalls_statusCall r true) id
  | statusOff _ => exact hI.frame rfl rfl (cameraCalls_statusCall r false) id
  | «show» hpc frames =>
      obtain ⟨drv, hserves, hown, hsized⟩ := hI.shown
      obtain ⟨hd, drv', hserves', hown', hsized'⟩ :=
        showFrames_shownBy scale frames hI.canvas hown hsized
      refine ⟨hd, ⟨drv', ?_, hown', hsized'⟩, fun hreturned => ?_⟩
      · have hcalls : ∀ nalu (calls : List CameraCall),
            cameraCalls (.decoded nalu :: calls.map .camera) = calls :=
          fun _ calls => cameraCalls_map calls
        rw [cameraCalls_append, hcalls]
        exact hserves.append hserves'
      · have hstage : 5 < r.stop.stage := by
          rw [show r.stop = .returned from hreturned]
          decide
        rw [hC.decodeEnded hstage] at hpc
        cases hpc
  | closeCamera _ =>
      obtain ⟨drv, hserves, hown, -⟩ := hI.shown
      obtain ⟨hclose, hdll, hcam⟩ := VirtualCamera.close_owns hown
      refine ⟨hI.canvas, ⟨{}, ?_, .nothing hdll hcam, fun hopen => ?_⟩, fun _ => ⟨hdll, hcam⟩⟩
      · have hquiet : cameraCalls [.stopReturned] = [] := rfl
        rw [cameraCalls_append, cameraCalls_append, cameraCalls_map, hquiet, List.append_nil]
        exact hserves.append hclose
      · simp [VirtualCamera.isOpen, hcam] at hopen
  | callStop _ => exact hI.frame rfl rfl rfl (by simp)
  | closeAcceptor _ => exact hI.frame rfl rfl rfl (by simp)
  | clear _ _ => exact hI.frame rfl rfl rfl (by simp)
  | notify _ => exact hI.frame rfl rfl rfl (by simp)
  | joinNet _ _ => exact hI.frame rfl rfl rfl (by simp)
  | joinDecode _ _ => exact hI.frame rfl rfl rfl (by simp)
  | _ => exact hI.frame rfl rfl rfl id

/-- **The camera is driven as it must be.**  In every run, from any frames, flags and
failures of the system's calls: every call goes into a library that is loaded,
every frame to a camera that exists and has the frame's size, and no library is
freed while a camera of it is left; after any number of the calls at most one
library is loaded and at most one camera exists; and once `stop` has returned
there is neither. -/
theorem camera_calls_safe (scale : SwsScale π) (width height : Int32) (r : LiveReceiver)
    (h : List StreamEvent) (hr : (streamMachine scale width height).Reach anyStep r h) :
    (∀ calls, calls <+: cameraCalls h → ∃ drv, Driver.run {} calls = some drv ∧
      drv.libraries.length ≤ 1 ∧ drv.cameras.length ≤ 1) ∧
    ∃ drv, Driver.run {} (cameraCalls h) = some drv ∧
      (∀ cam ∈ drv.cameras, cam.width = (VideoDecoder.init width height).targetWidth ∧
        cam.height = (VideoDecoder.init width height).targetHeight) ∧
      (r.stop = .returned → drv = {}) := by
  have hI : CameraInv (VideoDecoder.init width height).targetWidth
      (VideoDecoder.init width height).targetHeight r h := by
    refine hr.invariant_along (CameraInv _ _) ?_ ?_
    · rintro r ⟨flip, rfl⟩
      exact ⟨⟨rfl, rfl, Array.size_replicate⟩,
        ⟨{}, .nil VirtualCamera.single_new, VirtualCamera.owns_new,
          fun hopen => by cases hopen⟩, by simp⟩
    · intro r h a r' es hreach hI _ hs
      exact cameraInv_step (coordinated_reach hreach) hI (streamStep_cases hs)
  obtain ⟨drv, hserves, hown, hsized⟩ := hI.shown
  refine ⟨fun calls hpre => ?_, drv, hserves.run, ?_⟩
  · obtain ⟨d₁, hrun, hsingle⟩ := hserves.of_prefix hpre
    exact ⟨d₁, hrun, hsingle.libraries, hsingle.cameras⟩
  cases hown with
  | nothing _ _ => simp
  | library hlinked _ =>
      refine ⟨by simp, fun hreturned => ?_⟩
      have hgone := (hI.closed hreturned).1
      rw [hlinked.dll] at hgone
      cases hgone
  | camera hlinked hcam =>
      refine ⟨?_, fun hreturned => ?_⟩
      · intro cam hmem
        rw [List.mem_singleton.mp hmem]
        exact hsized (by simp [VirtualCamera.isOpen, hcam])
      · have hgone := (hI.closed hreturned).2
        rw [hcam] at hgone
        cases hgone

end Camera

/-- A NALU with two frames: the opening fails for the first, and succeeds for the
second. -/
def sampleShow : List (StreamAction UInt8) :=
  [.net .go, .net .connection, .net .go, .net .go, .net (.data [0, 0, 0, 1]), .net (.data [7]),
    .net .go, .decode, .decode, .decode, .decode,
    .pushNalu
      [ { frame := { width := 4, height := 1, format := 0, picture := 7 }, created := true
          flip := true, answers := { creates := false } }
      , { frame := { width := 4, height := 1, format := 0, picture := 9 }, created := true
          flip := false, answers := {} } ]]

theorem camera_calls_safe_sampleShow :
    ∃ (r : LiveReceiver) (h : List StreamEvent) (drv : Driver) (rgb : Array Pixel24),
      (streamMachine sampleScale 8 4).Reach anyStep r h ∧
      cameraCalls h = [.loadLibrary 0, .createFailed 0, .createCamera 0 1 8 4,
        .sendFrame 0 1 rgb] ∧
      Driver.run {} [.loadLibrary 0, .createFailed 0, .createCamera 0 1 8 4] = some drv ∧
      drv.cameras.length ≤ 1 := by
  obtain ⟨r, h, hr, hh⟩ := exists_reach_of_exec (streamMachine sampleScale 8 4) anyStep
    (s := { decoder := { VideoDecoder.init 8 4 with flipHorizontal := true, onFrame := true } })
    ⟨true, rfl⟩ sampleShow
    (fun r h => decide (cameraCalls h = [.loadLibrary 0, .createFailed 0,
      .createCamera 0 1 8 4, .sendFrame 0 1 r.decoder.rgbBuffer])) (by decide +kernel)
  have hcalls := of_decide_eq_true hh
  obtain ⟨drv, hrun, -, hone⟩ := (camera_calls_safe sampleScale 8 4 r h hr).1
    [.loadLibrary 0, .createFailed 0, .createCamera 0 1 8 4] (hcalls ▸ List.prefix_append _ _)
  exact ⟨r, h, drv, _, hr, hcalls, hrun, hone⟩

end Iriseus.Core
