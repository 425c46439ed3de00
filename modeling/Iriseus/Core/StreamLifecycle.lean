import Iriseus.Core.NaluQueue
import Iriseus.Core.VirtualCamera
import Iriseus.Verified.Progress

/-!
# The life of a `StreamReceiver`

`receiverMachine` gives a connection all the bytes it will ever deliver and
lets the decode thread go on as soon as it can.  Here the three threads are
followed call by call, from `start` to the end of `stop`: the network thread
blocks in `accept` and in every `read_some`; the decode thread takes the lock,
tests its predicate and goes to sleep on the condition variable, from which a
notification or nothing at all wakes it; and `stop` closes the acceptor, clears
the queue under the lock, notifies and joins the two threads before it closes
the camera.  Every frame the decoder passes on goes to the `VirtualCamera`.

`m_acceptor.close` ends an `accept` in progress; `m_ioc.stop` does nothing to
the blocking calls of these threads, and nothing closes the socket of an
accepted connection.

## Main results

* `no_lost_wakeup` — whenever the decode thread sleeps, the queue is empty and `stop`
  has not notified yet.
* `stop_waits_only_for_peer` — after `stop` is called every run is finite, and
  `stop` returns unless a connected peer neither sends nor closes.
-/

namespace Iriseus.Core

open Iriseus.Verified
open Iriseus.Verified.ByteStream
open Iriseus.Verified.Machine

/-! ## Threads -/

/-- The network thread: `acceptLoop`, and `receiveLoop` with `readExact`. -/
inductive NetThread where
  /-- `acceptLoop` is about to read `m_running`. -/
  | top
  | accept
  | statusOn
  /-- `receiveLoop` is about to read `m_running`. -/
  | head
  | readLen (got : Bytes)
  | readBody (naluSize : Nat) (got : Bytes)
  | push (nalu : Bytes)
  | statusOff
  | ended
  deriving DecidableEq, Repr

/-- The decode thread. -/
inductive DecodeThread where
  | top
  /-- It is about to lock the queue, at first or when it wakes. -/
  | acquire
  /-- It evaluates the predicate of `s_queueCv.wait`, with the lock held. -/
  | test
  /-- The predicate was false; it still holds the lock. -/
  | doze
  | blocked
  | ready
  | pushNalu (nalu : Bytes)
  | ended
  deriving DecidableEq, Repr

/-- The thread that calls `stop`: what it does next. -/
inductive StopThread where
  | idle
  | closeAcceptor
  | clear
  | notify
  | joinNet
  | joinDecode
  | closeCamera
  | returned
  deriving DecidableEq, Repr

/-- How far `stop` has come. -/
@[simp] def StopThread.stage : StopThread → Nat
  | .idle => 0
  | .closeAcceptor => 1
  | .clear => 2
  | .notify => 3
  | .joinNet => 4
  | .joinDecode => 5
  | .closeCamera => 6
  | .returned => 7

/-- The network thread is in a `read_some`. -/
def NetThread.reading : NetThread → Bool
  | .readLen _ => true
  | .readBody _ _ => true
  | _ => false

def DecodeThread.holdsLock : DecodeThread → Bool
  | .test => true
  | .doze => true
  | .ready => true
  | _ => false

/-- A notification reaches the thread if it sleeps. -/
def DecodeThread.notified : DecodeThread → DecodeThread
  | .blocked => .acquire
  | d => d

/-- The receiver after `start`; `onStatus` says whether `m_onStatus` is set. -/
structure LiveReceiver where
  running : Bool := true
  acceptorOpen : Bool := true
  onStatus : Bool := false
  queue : List Bytes := []
  net : NetThread := .top
  decode : DecodeThread := .top
  stop : StopThread := .idle
  decoder : VideoDecoder
  camera : VirtualCamera := {}
  deriving DecidableEq, Repr

inductive StreamEvent where
  | connected
  | status (active : Bool)
  /-- A NALU is queued; `dropped` is the content the queue is cleared of. -/
  | enqueued (nalu : Bytes) (dropped : List Bytes)
  /-- `m_decoder->pushNalu(nalu)`. -/
  | decoded (nalu : Bytes)
  | camera (call : CameraCall)
  /-- `front()` is called on an empty queue. -/
  | frontOfEmpty
  | stopCalled
  | stopReturned
  deriving DecidableEq, Repr

/-- How a call of the network thread ends; `go` is a step without a call, or
`accept` on a closed acceptor. -/
inductive NetInput where
  | go
  | connection
  /-- `accept` or `read_some` fails, or the peer has closed. -/
  | fail
  | data (seg : Bytes)
  deriving DecidableEq, Repr

/-- A frame the codec delivers: `created` says whether `sws_getContext` succeeds
if it is called, `flip` is the decoder's flag at that moment, and `answers` are
those to the opening of the camera if it is tried. -/
structure DecodedFrame (π : Type) where
  frame : AVFrame π
  created : Bool
  flip : Bool
  answers : OpenAnswers
  deriving DecidableEq, Repr

inductive StreamAction (π : Type) where
  | net (inp : NetInput)
  | decode
  /-- The decode thread wakes without a notification. -/
  | wakeSpuriously
  /-- `pushNalu` returns; `frames` is what the codec delivered meanwhile. -/
  | pushNalu (frames : List (DecodedFrame π))
  | stop
  | setOnStatusChange
  deriving DecidableEq, Repr

/-! ## Frames -/

/-- The callback `start` gives the decoder. -/
def VirtualCamera.onFrame (c : VirtualCamera) (rgb : Array Pixel24) (width height : Nat)
    (answers : OpenAnswers) : VirtualCamera × List CameraCall :=
  if c.isOpen then (c, c.sendFrame rgb)
  else
    let r := c.open width height answers
    if r.2.2 then (r.1, r.2.1 ++ r.1.sendFrame rgb) else (r.1, r.2.1)

/-- The callbacks of one call of `convertToRgb`. -/
def runCallbacks {π : Type} (answers : OpenAnswers) (c : VirtualCamera) :
    List (DecoderEvent π) → VirtualCamera × List CameraCall
  | [] => (c, [])
  | .swsScale _ _ :: es => runCallbacks answers c es
  | .onFrame rgb width height :: es =>
      let r := c.onFrame rgb width height answers
      let r' := runCallbacks answers r.1 es
      (r'.1, r.2 ++ r'.2)

/-- The loop of `decode` over the frames the codec delivers. -/
def showFrames {π : Type} (scale : SwsScale π) (d : VideoDecoder) (c : VirtualCamera) :
    List (DecodedFrame π) → VideoDecoder × VirtualCamera × List CameraCall
  | [] => (d, c, [])
  | f :: fs =>
      let r := ({ d with flipHorizontal := f.flip }.adapt f.frame f.created).convertToRgb scale
        f.frame
      let shown := runCallbacks f.answers c r.2
      let rest := showFrames scale r.1 shown.1 fs
      (rest.1, rest.2.1, shown.2 ++ rest.2.2)

/-! ## Steps -/

namespace LiveReceiver

variable {π : Type} (scale : SwsScale π)

/-- The locked section of `receiveLoop`, with its `notify_one`. -/
def pushBack (r : LiveReceiver) (nalu : Bytes) : LiveReceiver × List StreamEvent :=
  let dropped := if kMaxQueueDepth ≤ r.queue.length then r.queue else []
  let kept := if kMaxQueueDepth ≤ r.queue.length then [] else r.queue
  ({ r with net := .head, queue := kept ++ [nalu], decode := r.decode.notified },
    [.enqueued nalu dropped])

/-- `m_onStatus(active)`, if it is set. -/
def statusCall (r : LiveReceiver) (active : Bool) : List StreamEvent :=
  if r.onStatus then [.status active] else []

/-- What follows the four bytes of a length. -/
def afterLen (lenBuf : Bytes) : NetThread :=
  let naluSize := decodeBe32 lenBuf
  if naluSize = 0 ∨ maxNaluSize < naluSize then .statusOff else .readBody naluSize []

/-- `acceptLoop` and `receiveLoop`. -/
def netStep (r : LiveReceiver) (inp : NetInput) :
    Option (LiveReceiver × List StreamEvent) :=
  match r.net, inp with
  | .top, .go => some ({ r with net := if r.running then .accept else .ended }, [])
  | .accept, .connection =>
      if r.acceptorOpen then some ({ r with net := .statusOn }, [.connected]) else none
  | .accept, .fail => some ({ r with net := .ended }, [])
  | .accept, .go => if r.acceptorOpen then none else some ({ r with net := .ended }, [])
  | .statusOn, .go => some ({ r with net := .head }, r.statusCall true)
  | .head, .go => some ({ r with net := if r.running then .readLen [] else .statusOff }, [])
  | .readLen _, .fail => some ({ r with net := .statusOff }, [])
  | .readLen got, .data seg =>
      if seg ≠ [] ∧ got.length + seg.length ≤ 4 then
        if got.length + seg.length = 4 then
          some ({ r with net := afterLen (got ++ seg) }, [])
        else some ({ r with net := .readLen (got ++ seg) }, [])
      else none
  | .readBody _ _, .fail => some ({ r with net := .statusOff }, [])
  | .readBody naluSize got, .data seg =>
      if seg ≠ [] ∧ got.length + seg.length ≤ naluSize then
        if got.length + seg.length = naluSize then
          some ({ r with net := .push (got ++ seg) }, [])
        else some ({ r with net := .readBody naluSize (got ++ seg) }, [])
      else none
  | .push nalu, .go => if r.decode.holdsLock then none else some (r.pushBack nalu)
  | .statusOff, .go => some ({ r with net := .top }, r.statusCall false)
  | _, _ => none

/-- `decodeLoop`, outside the decoder. -/
def decodeStep (r : LiveReceiver) : Option (LiveReceiver × List StreamEvent) :=
  match r.decode with
  | .top => some ({ r with decode := if r.running then .acquire else .ended }, [])
  | .acquire => some ({ r with decode := .test }, [])
  | .test =>
      if r.queue ≠ [] ∨ r.running = false then some ({ r with decode := .ready }, [])
      else some ({ r with decode := .doze }, [])
  | .doze => some ({ r with decode := .blocked }, [])
  | .ready =>
      if r.running = false ∧ r.queue = [] then some ({ r with decode := .ended }, [])
      else
        match r.queue with
        | nalu :: rest => some ({ r with queue := rest, decode := .pushNalu nalu }, [])
        | [] => some ({ r with decode := .ended }, [.frontOfEmpty])
  | _ => none

/-- The decode thread comes back from the decoder. -/
def pushNaluStep (r : LiveReceiver) (frames : List (DecodedFrame π)) :
    Option (LiveReceiver × List StreamEvent) :=
  match r.decode with
  | .pushNalu nalu =>
      let shown := showFrames scale r.decoder r.camera frames
      some ({ r with decode := .top, decoder := shown.1, camera := shown.2.1 },
        .decoded nalu :: shown.2.2.map .camera)
  | _ => none

/-- `stop`; a second call finds `m_running` false and returns. -/
def stopStep (r : LiveReceiver) : Option (LiveReceiver × List StreamEvent) :=
  match r.stop with
  | .idle => some ({ r with running := false, stop := .closeAcceptor }, [.stopCalled])
  | .closeAcceptor => some ({ r with acceptorOpen := false, stop := .clear }, [])
  | .clear =>
      if r.decode.holdsLock then none else some ({ r with queue := [], stop := .notify }, [])
  | .notify => some ({ r with decode := r.decode.notified, stop := .joinNet }, [])
  | .joinNet => if r.net = .ended then some ({ r with stop := .joinDecode }, []) else none
  | .joinDecode =>
      if r.decode = .ended then some ({ r with stop := .closeCamera }, []) else none
  | .closeCamera =>
      some ({ r with camera := r.camera.close.1, stop := .returned },
        r.camera.close.2.map .camera ++ [.stopReturned])
  | .returned => none

def step (r : LiveReceiver) : StreamAction π → Option (LiveReceiver × List StreamEvent)
  | .net inp => r.netStep inp
  | .decode => r.decodeStep
  | .wakeSpuriously =>
      if r.decode = .blocked then some ({ r with decode := .acquire }, []) else none
  | .pushNalu frames => r.pushNaluStep scale frames
  | .stop => r.stopStep
  | .setOnStatusChange =>
      if r.stop = .idle ∧ r.onStatus = false then some ({ r with onStatus := true }, [])
      else none

end LiveReceiver

/-- `start` has returned true on a receiver constructed with this size; the mirror
flag is arbitrary. -/
def streamMachine {π : Type} (scale : SwsScale π) (width height : Int32) :
    Machine LiveReceiver (StreamAction π) StreamEvent where
  Init r := ∃ flip, r =
    { decoder := { VideoDecoder.init width height with flipHorizontal := flip, onFrame := true } }
  step := LiveReceiver.step scale

/-- The program's threads take the step without waiting for a peer. -/
def StreamAction.own {π : Type} : StreamAction π → Bool
  | .net .go => true
  | .decode => true
  | .pushNalu _ => true
  | .stop => true
  | _ => false

/-- No peer takes part in the step; the condition variable may. -/
def StreamAction.peerless {π : Type} : StreamAction π → Bool
  | .wakeSpuriously => true
  | a => a.own

/-! ## One step of each thread -/

/-- How many steps the network thread can still take once `m_running` is false. -/
def NetThread.rank : NetThread → Nat
  | .ended => 0
  | .top => 1
  | .statusOff => 2
  | .head => 3
  | .statusOn => 4
  | .push _ => 4
  | .accept => 5
  | .readBody naluSize got => 4 + (naluSize - got.length)
  | .readLen got => 4 + maxNaluSize + (4 - got.length)

/-- The same for the decode thread. -/
def DecodeThread.rank : DecodeThread → Nat
  | .ended => 0
  | .top => 1
  | .pushNalu _ => 2
  | .ready => 3
  | .test => 4
  | .acquire => 5
  | .blocked => 6
  | .doze => 7

/-- All the ways in which the receiver moves. -/
inductive LiveStep {π : Type} (scale : SwsScale π) (r : LiveReceiver) :
    LiveReceiver → List StreamEvent → Prop
  /-- The network thread moves on, to a read only from one or while it runs. -/
  | net {pc : NetThread} (hlive : r.net ≠ .ended)
      (hrank : pc.rank < r.net.rank ∨ r.running = true ∧ pc.rank ≤ maxNaluSize + 8)
      (hread : pc.reading = true → r.running = true ∨ r.net.reading = true) :
      LiveStep scale r { r with net := pc } []
  | connect (hpc : r.net = .accept) :
      LiveStep scale r { r with net := .statusOn } [.connected]
  | statusOn (hpc : r.net = .statusOn) :
      LiveStep scale r { r with net := .head } (r.statusCall true)
  | statusOff (hpc : r.net = .statusOff) :
      LiveStep scale r { r with net := .top } (r.statusCall false)
  | push {nalu : Bytes} (hpc : r.net = .push nalu) (hfree : r.decode.holdsLock = false) :
      LiveStep scale r (r.pushBack nalu).1 (r.pushBack nalu).2
  | decodeTop (hpc : r.decode = .top) :
      LiveStep scale r { r with decode := if r.running then .acquire else .ended } []
  | acquire (hpc : r.decode = .acquire) : LiveStep scale r { r with decode := .test } []
  | testTrue (hpc : r.decode = .test) (htrue : r.queue ≠ [] ∨ r.running = false) :
      LiveStep scale r { r with decode := .ready } []
  | testFalse (hpc : r.decode = .test) (hempty : r.queue = []) (hrunning : r.running = true) :
      LiveStep scale r { r with decode := .doze } []
  | sleep (hpc : r.decode = .doze) : LiveStep scale r { r with decode := .blocked } []
  | wakeSpuriously (hpc : r.decode = .blocked) :
      LiveStep scale r { r with decode := .acquire } []
  | leave (hpc : r.decode = .ready) (hrunning : r.running = false) :
      LiveStep scale r { r with decode := .ended } []
  | take {nalu : Bytes} {rest : List Bytes} (hpc : r.decode = .ready)
      (hqueue : r.queue = nalu :: rest) :
      LiveStep scale r { r with queue := rest, decode := .pushNalu nalu } []
  | takeEmpty (hpc : r.decode = .ready) (hempty : r.queue = []) (hrunning : r.running = true) :
      LiveStep scale r { r with decode := .ended } [.frontOfEmpty]
  | show {nalu : Bytes} (hpc : r.decode = .pushNalu nalu) (frames : List (DecodedFrame π)) :
      LiveStep scale r
        { r with
          decode := .top
          decoder := (showFrames scale r.decoder r.camera frames).1
          camera := (showFrames scale r.decoder r.camera frames).2.1 }
        (.decoded nalu :: (showFrames scale r.decoder r.camera frames).2.2.map .camera)
  | callStop (hpc : r.stop = .idle) :
      LiveStep scale r { r with running := false, stop := .closeAcceptor } [.stopCalled]
  | closeAcceptor (hpc : r.stop = .closeAcceptor) :
      LiveStep scale r { r with acceptorOpen := false, stop := .clear } []
  | clear (hpc : r.stop = .clear) (hfree : r.decode.holdsLock = false) :
      LiveStep scale r { r with queue := [], stop := .notify } []
  | notify (hpc : r.stop = .notify) :
      LiveStep scale r { r with decode := r.decode.notified, stop := .joinNet } []
  | joinNet (hpc : r.stop = .joinNet) (hended : r.net = .ended) :
      LiveStep scale r { r with stop := .joinDecode } []
  | joinDecode (hpc : r.stop = .joinDecode) (hended : r.decode = .ended) :
      LiveStep scale r { r with stop := .closeCamera } []
  | closeCamera (hpc : r.stop = .closeCamera) :
      LiveStep scale r { r with camera := r.camera.close.1, stop := .returned }
        (r.camera.close.2.map .camera ++ [.stopReturned])
  | setOnStatusChange (hidle : r.stop = .idle) :
      LiveStep scale r { r with onStatus := true } []

section Cases

variable {π : Type} {scale : SwsScale π} {r r' : LiveReceiver} {es : List StreamEvent}

theorem rank_afterLen (lenBuf : Bytes) :
    (LiveReceiver.afterLen lenBuf).rank ≤ 4 + maxNaluSize := by
  unfold LiveReceiver.afterLen
  dsimp only
  split
  · exact le_add_right (by decide)
  · simp only [NetThread.rank, List.length_nil]
    omega

theorem LiveReceiver.netStep_cases {inp : NetInput} (h : r.netStep inp = some (r', es)) :
    LiveStep scale r r' es := by
  unfold LiveReceiver.netStep at h
  split at h <;> rename_i hpc
  · -- the loop test of `acceptLoop`
    cases h
    refine .net (by simp [hpc]) ?_ (fun hread => ?_)
    · cases hrun : r.running with
      | true => exact Or.inr ⟨rfl, le_add_left (by decide)⟩
      | false => exact Or.inl (by simp [hpc, NetThread.rank])
    · split at hread <;> simp [NetThread.reading] at hread
  · split at h <;> cases h
    exact .connect hpc
  · cases h
    exact .net (by simp [hpc]) (Or.inl (by simp [hpc, NetThread.rank]))
      (by simp [NetThread.reading])
  · split at h <;> cases h
    exact .net (by simp [hpc]) (Or.inl (by simp [hpc, NetThread.rank]))
      (by simp [NetThread.reading])
  · cases h
    exact .statusOn hpc
  · -- the loop test of `receiveLoop`
    cases h
    refine .net (by simp [hpc]) ?_ (fun hread => Or.inl ?_)
    · cases hrun : r.running with
      | true => exact Or.inr ⟨rfl, by simp only [if_true, NetThread.rank]; grind⟩
      | false => exact Or.inl (by simp [hpc, NetThread.rank])
    · by_contra hrun
      simp [hrun, NetThread.reading] at hread
  · cases h
    exact .net (by simp [hpc]) (Or.inl (by simp only [hpc, NetThread.rank]; omega))
      (by simp [NetThread.reading])
  · -- bytes of a length
    rename_i got seg
    split at h
    · rename_i hfits
      have hpos : 0 < seg.length := List.length_pos_iff.mpr hfits.1
      split at h <;> cases h
      · refine .net (by simp [hpc]) (Or.inl ?_)
          (fun _ => Or.inr (by simp [hpc, NetThread.reading]))
        refine lt_of_le_of_lt (rank_afterLen (got ++ seg)) ?_
        simp only [hpc, NetThread.rank]
        omega
      · refine .net (by simp [hpc]) (Or.inl ?_)
          (fun _ => Or.inr (by simp [hpc, NetThread.reading]))
        simp only [hpc, NetThread.rank, List.length_append]
        omega
    · cases h
  · cases h
    exact .net (by simp [hpc]) (Or.inl (by simp only [hpc, NetThread.rank]; omega))
      (by simp [NetThread.reading])
  · -- bytes of a NALU
    rename_i naluSize got seg
    split at h
    · rename_i hfits
      have hpos : 0 < seg.length := List.length_pos_iff.mpr hfits.1
      split at h <;> cases h
      · refine .net (by simp [hpc]) (Or.inl ?_) (by simp [NetThread.reading])
        simp only [hpc, NetThread.rank]
        omega
      · refine .net (by simp [hpc]) (Or.inl ?_)
          (fun _ => Or.inr (by simp [hpc, NetThread.reading]))
        simp only [hpc, NetThread.rank, List.length_append]
        omega
    · cases h
  · split at h
    · cases h
    · rename_i hfree
      cases h
      exact .push hpc (by simpa using hfree)
  · cases h
    exact .statusOff hpc
  · cases h

theorem LiveReceiver.decodeStep_cases (h : r.decodeStep = some (r', es)) :
    LiveStep scale r r' es := by
  unfold LiveReceiver.decodeStep at h
  split at h
  · cases h
    exact .decodeTop ‹_›
  · cases h
    exact .acquire ‹_›
  · rename_i hpc
    split at h <;> cases h
    · exact .testTrue hpc ‹_›
    · rename_i hfalse
      simp only [not_or, not_not, Bool.not_eq_false] at hfalse
      exact .testFalse hpc hfalse.1 hfalse.2
  · cases h
    exact .sleep ‹_›
  · rename_i hpc
    split at h
    · rename_i hend
      cases h
      exact .leave hpc hend.1
    · rename_i hgo
      split at h <;> cases h
      · exact .take hpc ‹_›
      · rename_i hempty
        refine .takeEmpty hpc hempty ?_
        simpa [hempty] using hgo
  · cases h

theorem LiveReceiver.stopStep_cases (h : r.stopStep = some (r', es)) :
    LiveStep scale r r' es := by
  unfold LiveReceiver.stopStep at h
  split at h <;> rename_i hpc
  · cases h
    exact .callStop hpc
  · cases h
    exact .closeAcceptor hpc
  · split at h
    · cases h
    · rename_i hfree
      cases h
      exact .clear hpc (by simpa using hfree)
  · cases h
    exact .notify hpc
  · split at h <;> cases h
    exact .joinNet hpc ‹_›
  · split at h <;> cases h
    exact .joinDecode hpc ‹_›
  · cases h
    exact .closeCamera hpc
  · cases h

/-- **Inversion for the receiver's threads.** -/
theorem streamStep_cases {a : StreamAction π} (h : r.step scale a = some (r', es)) :
    LiveStep scale r r' es := by
  cases a with
  | net inp => exact LiveReceiver.netStep_cases h
  | decode => exact LiveReceiver.decodeStep_cases h
  | wakeSpuriously =>
      simp only [LiveReceiver.step] at h
      split at h <;> cases h
      exact .wakeSpuriously ‹_›
  | pushNalu frames =>
      simp only [LiveReceiver.step, LiveReceiver.pushNaluStep] at h
      split at h <;> cases h
      exact .show ‹_› frames
  | stop => exact LiveReceiver.stopStep_cases h
  | setOnStatusChange =>
      simp only [LiveReceiver.step] at h
      split at h <;> cases h
      rename_i hidle
      exact .setOnStatusChange hidle.1

end Cases

/-! ## No wakeup is lost -/

/-- Until when the decode thread may sleep: the queue is empty, and a
notification is still to come if `stop` has been called. -/
def LiveReceiver.MaySleep (r : LiveReceiver) (lastStage : Nat) : Prop :=
  r.queue = [] ∧ r.stop.stage ≤ lastStage

/-- How far the three threads have come together. -/
structure Coordinated (r : LiveReceiver) : Prop where
  running : r.running = false ↔ 0 < r.stop.stage
  doze : r.decode = .doze → r.MaySleep 2
  blocked : r.decode = .blocked → r.MaySleep 3
  ready : r.decode = .ready → r.queue ≠ [] ∨ r.running = false
  acceptor : 1 < r.stop.stage → r.acceptorOpen = false
  netEnded : 4 < r.stop.stage → r.net = .ended
  decodeEnded : 5 < r.stop.stage → r.decode = .ended

section Coordination

variable {π : Type} {scale : SwsScale π} {r r' : LiveReceiver} {es : List StreamEvent}

theorem notified_ne_blocked (d : DecodeThread) : d.notified ≠ .blocked := by
  cases d <;> simp [DecodeThread.notified]

/-- A notification changes nothing for a thread that does not sleep. -/
theorem notified_eq_iff {d e : DecodeThread} (hblocked : e ≠ .blocked)
    (hacquire : e ≠ .acquire) : d.notified = e ↔ d = e := by
  cases d <;> simp [DecodeThread.notified, hacquire.symm, hblocked.symm]

/-- The network thread moves while it lives. -/
theorem Coordinated.moveNet (hI : Coordinated r) (hlive : r.net ≠ .ended) (pc : NetThread) :
    Coordinated { r with net := pc } :=
  { hI with netEnded := fun hstage => absurd (hI.netEnded hstage) hlive }

/-- The decode thread moves while it lives, to a point where nothing is asked of
the queue. -/
theorem Coordinated.moveDecode (hI : Coordinated r) (hlive : r.decode ≠ .ended)
    {pc : DecodeThread} (hdoze : pc ≠ .doze) (hblocked : pc ≠ .blocked) (hready : pc ≠ .ready)
    (queue : List Bytes) (decoder : VideoDecoder) (camera : VirtualCamera) :
    Coordinated
      { r with queue := queue, decode := pc, decoder := decoder, camera := camera } where
  running := hI.running
  doze := fun h => absurd h hdoze
  blocked := fun h => absurd h hblocked
  ready := fun h => absurd h hready
  acceptor := hI.acceptor
  netEnded := hI.netEnded
  decodeEnded := fun hstage => absurd (hI.decodeEnded hstage) hlive

/-- A push and its notification: nobody held the lock. -/
theorem Coordinated.push (hI : Coordinated r) {nalu : Bytes} (hpc : r.net = .push nalu)
    (hfree : r.decode.holdsLock = false) : Coordinated (r.pushBack nalu).1 := by
  have hnone : ∀ d : DecodeThread, d.holdsLock = true → r.decode ≠ d := by
    rintro d hd rfl
    simp [hd] at hfree
  have hsame : ∀ d : DecodeThread, d ≠ .blocked → d ≠ .acquire →
      (r.pushBack nalu).1.decode = d → r.decode = d :=
    fun d hblocked hacquire h => (notified_eq_iff hblocked hacquire).mp h
  exact
    { running := hI.running
      doze := fun h => absurd (hsame _ (by simp) (by simp) h) (hnone _ rfl)
      blocked := fun h => absurd h (notified_ne_blocked _)
      ready := fun h => absurd (hsame _ (by simp) (by simp) h) (hnone _ rfl)
      acceptor := hI.acceptor
      netEnded := fun hstage => by simp [hI.netEnded hstage] at hpc
      decodeEnded := fun hstage =>
        (notified_eq_iff (by simp) (by simp)).mpr (hI.decodeEnded hstage) }

/-- **One step** keeps the threads coordinated.  The decode thread goes to sleep
with the lock held, so that a push or the clearing comes before its test or
after its sleep has begun, and then notifies it. -/
theorem coordinated_step (hI : Coordinated r) (hs : LiveStep scale r r' es) :
    Coordinated r' := by
  obtain ⟨hrunning, hdoze, hblocked, hready, hacceptor, hnet, hdecode⟩ := id hI
  cases hs with
  | net hlive _ _ => exact hI.moveNet hlive _
  | connect hpc => exact hI.moveNet (by simp [hpc]) _
  | statusOn hpc => exact hI.moveNet (by simp [hpc]) _
  | statusOff hpc => exact hI.moveNet (by simp [hpc]) _
  | push hpc hfree => exact hI.push hpc hfree
  | decodeTop hpc =>
      refine hI.moveDecode (by simp [hpc]) ?_ ?_ ?_ _ _ _ <;> split <;> simp
  | acquire hpc => exact hI.moveDecode (by simp [hpc]) (by simp) (by simp) (by simp) _ _ _
  | testTrue hpc htrue =>
      exact ⟨hrunning, by simp, by simp, fun _ => htrue, hacceptor, hnet,
        fun h => by simp [hdecode h] at hpc⟩
  | testFalse hpc hempty hrun =>
      have hstage : r.stop.stage = 0 := by simpa [hrun] using hrunning
      exact ⟨hrunning, fun _ => ⟨hempty, hstage.trans_le (Nat.zero_le 2)⟩, by simp, by simp,
        hacceptor, hnet, fun h => by simp [hdecode h] at hpc⟩
  | sleep hpc =>
      have hmay := hdoze hpc
      exact ⟨hrunning, by simp, fun _ => ⟨hmay.1, Nat.le_succ_of_le hmay.2⟩, by simp,
        hacceptor, hnet, fun h => by simp [hdecode h] at hpc⟩
  | wakeSpuriously hpc =>
      exact hI.moveDecode (by simp [hpc]) (by simp) (by simp) (by simp) _ _ _
  | leave hpc _ => exact hI.moveDecode (by simp [hpc]) (by simp) (by simp) (by simp) _ _ _
  | take hpc _ => exact hI.moveDecode (by simp [hpc]) (by simp) (by simp) (by simp) _ _ _
  | takeEmpty hpc _ _ =>
      exact hI.moveDecode (by simp [hpc]) (by simp) (by simp) (by simp) _ _ _
  | «show» hpc _ => exact hI.moveDecode (by simp [hpc]) (by simp) (by simp) (by simp) _ _ _
  | callStop hpc =>
      exact ⟨by simp, fun h => ⟨(hdoze h).1, by simp⟩, fun h => ⟨(hblocked h).1, by simp⟩,
        fun _ => Or.inr rfl, by simp, by simp, by simp⟩
  | closeAcceptor hpc =>
      have hrun : r.running = false := hrunning.mpr (by simp [hpc])
      exact ⟨by simp [hrun], fun h => ⟨(hdoze h).1, by simp⟩,
        fun h => ⟨(hblocked h).1, by simp⟩, fun _ => Or.inr hrun, fun _ => rfl, by simp,
        by simp⟩
  | clear hpc hfree =>
      have hrun : r.running = false := hrunning.mpr (by simp [hpc])
      refine ⟨by simp [hrun], fun h => ?_, fun _ => ⟨rfl, by simp⟩, fun _ => Or.inr hrun,
        fun _ => hacceptor (by simp [hpc]), by simp, by simp⟩
      -- the clearing has waited for the lock
      simp [show r.decode = .doze from h, DecodeThread.holdsLock] at hfree
  | notify hpc =>
      have hrun : r.running = false := hrunning.mpr (by simp [hpc])
      refine ⟨by simp [hrun], fun h => ?_, fun h => absurd h (notified_ne_blocked _),
        fun _ => Or.inr hrun, fun _ => hacceptor (by simp [hpc]), by simp, by simp⟩
      have hmay := hdoze ((notified_eq_iff (by simp) (by simp)).mp h)
      simp [LiveReceiver.MaySleep, hpc] at hmay
  | joinNet hpc hended =>
      have hrun : r.running = false := hrunning.mpr (by simp [hpc])
      refine ⟨by simp [hrun], fun h => ?_, fun h => ?_, fun _ => Or.inr hrun,
        fun _ => hacceptor (by simp [hpc]), fun _ => hended, by simp⟩
      · have hmay := hdoze h
        simp [LiveReceiver.MaySleep, hpc] at hmay
      · have hmay := hblocked h
        simp [LiveReceiver.MaySleep, hpc] at hmay
  | joinDecode hpc hended =>
      have hrun : r.running = false := hrunning.mpr (by simp [hpc])
      exact ⟨by simp [hrun], by simp [hended], by simp [hended], by simp [hended],
        fun _ => hacceptor (by simp [hpc]), fun _ => hnet (by simp [hpc]), fun _ => hended⟩
  | closeCamera hpc =>
      have hrun : r.running = false := hrunning.mpr (by simp [hpc])
      have hended : r.decode = .ended := hdecode (by simp [hpc])
      exact ⟨by simp [hrun], by simp [hended], by simp [hended], by simp [hended],
        fun _ => hacceptor (by simp [hpc]), fun _ => hnet (by simp [hpc]), fun _ => hended⟩
  | setOnStatusChange _ =>
      exact ⟨hrunning, hdoze, hblocked, hready, hacceptor, hnet, hdecode⟩

/-- The threads are coordinated in every reachable state. -/
theorem coordinated_reach {width height : Int32} {h : List StreamEvent}
    (hr : (streamMachine scale width height).Reach anyStep r h) : Coordinated r := by
  refine hr.invariant (fun r _ => Coordinated r) ?_ ?_
  · rintro r ⟨flip, rfl⟩
    exact ⟨by simp, by simp, by simp, by simp, by simp, by simp, by simp⟩
  · intro r h a r' es hI _ hs
    exact coordinated_step hI (streamStep_cases hs)

/-- `front()` is called on an empty queue by a thread that found it empty only. -/
theorem frontOfEmpty_step (hI : Coordinated r) (hs : LiveStep scale r r' es) :
    .frontOfEmpty ∉ es := by
  cases hs with
  | takeEmpty hpc hempty hrunning =>
      rcases hI.ready hpc with hqueue | hstopped
      · exact absurd hempty hqueue
      · rw [hrunning] at hstopped
        cases hstopped
  | statusOn _ | statusOff _ =>
      rw [LiveReceiver.statusCall]
      split <;> simp
  | push _ _ => simp [LiveReceiver.pushBack]
  | _ => simp

/-- **No wakeup is lost.**  In every run the decode thread sleeps only while the queue
is empty and a `stop` that was called has yet to notify; it never takes from an
empty queue, wherever `stop` clears it; and both threads have ended when `stop`
returns. -/
theorem no_lost_wakeup (scale : SwsScale π) (width height : Int32) (r : LiveReceiver)
    (h : List StreamEvent) (hr : (streamMachine scale width height).Reach anyStep r h) :
    (r.decode = .blocked → r.queue = [] ∧ r.stop.stage ≤ StopThread.notify.stage) ∧
      .frontOfEmpty ∉ h ∧
      (r.stop = .returned → r.net = .ended ∧ r.decode = .ended) := by
  have hI := coordinated_reach hr
  refine ⟨hI.blocked, ?_, fun hreturned => ?_⟩
  · refine hr.invariant_along (fun _ h => .frontOfEmpty ∉ h) (fun _ _ => by simp) ?_
    intro r h a r' es hreach hnever _ hs hmem
    rcases List.mem_append.mp hmem with hmem | hmem
    · exact hnever hmem
    · exact frontOfEmpty_step (coordinated_reach hreach) (streamStep_cases hs) hmem
  · exact ⟨hI.netEnded (by simp [hreturned]), hI.decodeEnded (by simp [hreturned])⟩

end Coordination

/-- `stop` clears the queue while the decode thread sleeps. -/
theorem no_lost_wakeup_sample :
    ∃ (r : LiveReceiver) (h : List StreamEvent),
      (streamMachine sampleScale 2 2).Reach anyStep r h ∧ r.stop = .notify ∧
      r.decode = .blocked ∧ r.queue = [] ∧ .frontOfEmpty ∉ h := by
  obtain ⟨r, h, hr, hh⟩ := Machine.exists_reach_of_exec (streamMachine sampleScale 2 2) anyStep
    (s := { decoder := { VideoDecoder.init 2 2 with flipHorizontal := true, onFrame := true } })
    ⟨true, rfl⟩ [.decode, .decode, .decode, .decode, .stop, .stop, .stop]
    (fun r _ => decide (r.stop = .notify) && decide (r.decode = .blocked))
    (by decide +kernel)
  simp only [Bool.and_eq_true, decide_eq_true_eq] at hh
  obtain ⟨hsleeps, hnever, -⟩ := no_lost_wakeup sampleScale 2 2 r h hr
  exact ⟨r, h, hr, hh.1, hh.2, (hsleeps hh.2).1, hnever⟩

/-! ## `stop` comes to an end -/

/-- How many steps are left once `stop` has been called. -/
def LiveReceiver.rank (r : LiveReceiver) : Nat :=
  r.net.rank + r.decode.rank + (7 - r.stop.stage)

/-- `stop` has been called. -/
structure Stopping (r : LiveReceiver) : Prop extends Coordinated r where
  stopped : r.running = false

/-- No run after the call of `stop` is longer. -/
def stopBound : Nat := maxNaluSize + 21

section Stopping

variable {π : Type} {scale : SwsScale π} {r r' : LiveReceiver} {es : List StreamEvent}

theorem rank_notified_le (d : DecodeThread) : d.notified.rank ≤ d.rank := by
  cases d <;> simp [DecodeThread.notified, DecodeThread.rank]

theorem Stopping.stage_pos (hI : Stopping r) : r.stop ≠ .idle := by
  intro hidle
  have hpos := hI.running.mp hI.stopped
  simp [hidle] at hpos

/-- **One step** after the call of `stop` brings the end nearer. -/
theorem stopping_step (hI : Stopping r) (hs : LiveStep scale r r' es) :
    Stopping r' ∧ r'.rank < r.rank := by
  have hkept := coordinated_step hI.toCoordinated hs
  have hstopped := hI.stopped
  cases hs with
  | net _ hrank _ =>
      have hlt := hrank.resolve_right (by simp [hstopped])
      exact ⟨⟨hkept, hstopped⟩, by simp only [LiveReceiver.rank]; omega⟩
  | connect hpc => exact ⟨⟨hkept, hstopped⟩, by simp [LiveReceiver.rank, hpc, NetThread.rank]⟩
  | statusOn hpc => exact ⟨⟨hkept, hstopped⟩, by simp [LiveReceiver.rank, hpc, NetThread.rank]⟩
  | statusOff hpc =>
      exact ⟨⟨hkept, hstopped⟩, by simp [LiveReceiver.rank, hpc, NetThread.rank]⟩
  | push hpc _ =>
      have hle := rank_notified_le r.decode
      refine ⟨⟨hkept, hstopped⟩, ?_⟩
      simp only [LiveReceiver.rank, LiveReceiver.pushBack, hpc, NetThread.rank]
      omega
  | decodeTop hpc =>
      refine ⟨⟨hkept, hstopped⟩, ?_⟩
      simp [LiveReceiver.rank, hpc, hstopped, DecodeThread.rank]
  | acquire hpc =>
      exact ⟨⟨hkept, hstopped⟩, by simp [LiveReceiver.rank, hpc, DecodeThread.rank]⟩
  | testTrue hpc _ =>
      exact ⟨⟨hkept, hstopped⟩, by simp [LiveReceiver.rank, hpc, DecodeThread.rank]⟩
  | testFalse _ _ hrun =>
      rw [hstopped] at hrun
      cases hrun
  | sleep hpc => exact ⟨⟨hkept, hstopped⟩, by simp [LiveReceiver.rank, hpc, DecodeThread.rank]⟩
  | wakeSpuriously hpc =>
      exact ⟨⟨hkept, hstopped⟩, by simp [LiveReceiver.rank, hpc, DecodeThread.rank]⟩
  | leave hpc _ =>
      exact ⟨⟨hkept, hstopped⟩, by simp [LiveReceiver.rank, hpc, DecodeThread.rank]⟩
  | take hpc _ =>
      exact ⟨⟨hkept, hstopped⟩, by simp [LiveReceiver.rank, hpc, DecodeThread.rank]⟩
  | takeEmpty _ _ hrun =>
      rw [hstopped] at hrun
      cases hrun
  | «show» hpc _ =>
      exact ⟨⟨hkept, hstopped⟩, by simp [LiveReceiver.rank, hpc, DecodeThread.rank]⟩
  | callStop hpc => exact absurd hpc hI.stage_pos
  | closeAcceptor hpc => exact ⟨⟨hkept, hstopped⟩, by simp [LiveReceiver.rank, hpc]⟩
  | clear hpc _ => exact ⟨⟨hkept, hstopped⟩, by simp [LiveReceiver.rank, hpc]⟩
  | notify hpc =>
      have hle := rank_notified_le r.decode
      refine ⟨⟨hkept, hstopped⟩, ?_⟩
      simp only [LiveReceiver.rank, hpc, StopThread.stage]
      omega
  | joinNet hpc _ => exact ⟨⟨hkept, hstopped⟩, by simp [LiveReceiver.rank, hpc]⟩
  | joinDecode hpc _ => exact ⟨⟨hkept, hstopped⟩, by simp [LiveReceiver.rank, hpc]⟩
  | closeCamera hpc => exact ⟨⟨hkept, hstopped⟩, by simp [LiveReceiver.rank, hpc]⟩
  | setOnStatusChange hidle => exact absurd hidle hI.stage_pos

theorem windsDown (scale : SwsScale π) (width height : Int32) :
    (streamMachine scale width height).WindsDown Stopping LiveReceiver.rank where
  keeps hI hs := (stopping_step hI (streamStep_cases hs)).1
  lowers hI hs := (stopping_step hI (streamStep_cases hs)).2

theorem Stopping.of_coordinated (hI : Coordinated r) (hcalled : r.stop ≠ .idle) :
    Stopping r where
  toCoordinated := hI
  stopped := hI.running.mpr (by cases hpc : r.stop <;> simp_all)

/-- A read is never further from its end than by the largest NALU and its length. -/
theorem netRank_step (hle : r.net.rank ≤ maxNaluSize + 8) (hs : LiveStep scale r r' es) :
    r'.net.rank ≤ maxNaluSize + 8 := by
  have hsmall : ∀ pc : NetThread, pc.rank ≤ 8 → pc.rank ≤ maxNaluSize + 8 :=
    fun pc h => le_add_left h
  cases hs with
  | net _ hrank _ => exact hrank.elim (fun hlt => hlt.le.trans hle) (·.2)
  | connect _ => exact hsmall .statusOn (by decide)
  | statusOn _ => exact hsmall .head (by decide)
  | statusOff _ => exact hsmall .top (by decide)
  | push _ _ => exact hsmall .head (by decide)
  | _ => exact hle

theorem netRank_reach {width height : Int32} {h : List StreamEvent}
    (hr : (streamMachine scale width height).Reach anyStep r h) :
    r.net.rank ≤ maxNaluSize + 8 := by
  refine hr.invariant (fun r _ => r.net.rank ≤ maxNaluSize + 8) ?_ ?_
  · rintro r ⟨flip, rfl⟩
    exact le_add_left (show NetThread.top.rank ≤ 8 by decide)
  · intro r h a r' es hle _ hs
    exact netRank_step hle (streamStep_cases hs)

theorem Stopping.rank_le (hI : Stopping r) (hnet : r.net.rank ≤ maxNaluSize + 8) :
    r.rank ≤ stopBound := by
  have hdecode : r.decode.rank ≤ 7 := by cases r.decode <;> simp [DecodeThread.rank]
  have hstage := hI.running.mp hI.stopped
  simp only [LiveReceiver.rank, stopBound]
  omega

/-- A thread that holds the lock, or has been notified, can go on. -/
theorem decode_enabled (hasleep : r.decode ≠ .blocked) (hlive : r.decode ≠ .ended) :
    ∃ a : StreamAction π, a.own = true ∧ r.step scale a ≠ none := by
  by_cases hpush : ∃ nalu, r.decode = .pushNalu nalu
  · obtain ⟨nalu, hpc⟩ := hpush
    exact ⟨.pushNalu [], rfl, by simp [LiveReceiver.step, LiveReceiver.pushNaluStep, hpc]⟩
  · refine ⟨.decode, rfl, ?_⟩
    unfold LiveReceiver.step LiveReceiver.decodeStep
    cases hpc : r.decode <;> simp_all <;> grind

/-- **At rest.**  When no thread of the program can move, `stop` has returned or
waits for the network thread, and that one for its peer. -/
theorem rest_of_stopping (hI : Stopping r)
    (hrest : ∀ a : StreamAction π, a.own = true → r.step scale a = none) :
    r.stop = .returned ∨ r.net.reading = true := by
  have hstop : r.stopStep = none := hrest .stop rfl
  have hnet : r.netStep .go = none := hrest (.net .go) rfl
  have hdecode : r.decode = .blocked ∨ r.decode = .ended := by
    by_contra hnot
    rw [not_or] at hnot
    obtain ⟨a, hown, hgo⟩ : ∃ a : StreamAction π, a.own = true ∧ r.step scale a ≠ none :=
      decode_enabled hnot.1 hnot.2
    exact hgo (hrest a hown)
  have hfree : r.decode.holdsLock = false := by
    rcases hdecode with h | h <;> simp [h, DecodeThread.holdsLock]
  cases hpc : r.stop with
  | idle => exact absurd hpc hI.stage_pos
  | closeAcceptor => simp [LiveReceiver.stopStep, hpc] at hstop
  | clear => simp [LiveReceiver.stopStep, hpc, hfree] at hstop
  | notify => simp [LiveReceiver.stopStep, hpc] at hstop
  | joinNet =>
      refine Or.inr ?_
      have hlive : r.net ≠ .ended := by simpa [LiveReceiver.stopStep, hpc] using hstop
      have hclosed : r.acceptorOpen = false := hI.acceptor (by simp [hpc])
      cases hnetpc : r.net <;>
        simp_all [LiveReceiver.netStep, NetThread.reading]
  | joinDecode =>
      -- the decode thread does not sleep any more
      have hended : r.decode ≠ .ended := by simpa [LiveReceiver.stopStep, hpc] using hstop
      have hmay := hI.blocked (hdecode.resolve_right hended)
      simp [LiveReceiver.MaySleep, hpc] at hmay
  | closeCamera => simp [LiveReceiver.stopStep, hpc] at hstop
  | returned => exact Or.inl rfl

theorem net_of_decodeStep (h : r.decodeStep = some (r', es)) : r'.net = r.net := by
  unfold LiveReceiver.decodeStep at h
  repeat' split at h
  all_goals cases h
  all_goals rfl

theorem net_of_stopStep (h : r.stopStep = some (r', es)) : r'.net = r.net := by
  unfold LiveReceiver.stopStep at h
  repeat' split at h
  all_goals cases h
  all_goals rfl

/-- Without a peer nothing brings the network thread into a read or out of one,
once `stop` has been called. -/
theorem reading_step (hI : Stopping r) {a : StreamAction π} (hown : a.peerless = true)
    (hs : r.step scale a = some (r', es)) : r'.net.reading = r.net.reading := by
  cases a with
  | wakeSpuriously =>
      simp only [LiveReceiver.step] at hs
      split at hs <;> cases hs
      rfl
  | net inp =>
      cases inp with
      | go =>
          have hstopped := hI.stopped
          unfold LiveReceiver.step LiveReceiver.netStep at hs
          cases hpc : r.net <;> simp_all [NetThread.reading] <;> grind [LiveReceiver.pushBack]
      | _ => cases hown
  | decode => rw [net_of_decodeStep hs]
  | pushNalu frames =>
      simp only [LiveReceiver.step, LiveReceiver.pushNaluStep] at hs
      split at hs <;> cases hs
      rfl
  | stop => rw [net_of_stopStep hs]
  | _ => cases hown

/-- **`stop` waits for nobody but the peer.**  Once `stop` has been called, at any
point of the three threads, every run is finite, however the threads, the peer
and the condition variable behave; the program's own threads can always move on
until none of them can; and when none of them can, `stop` has returned, unless
the network thread was reading from a connected peer, which nothing interrupts:
then `stop` cannot return before that peer sends or closes, however often the
condition variable wakes the decode thread. -/
theorem stop_waits_only_for_peer (scale : SwsScale π) (width height : Int32)
    (r : LiveReceiver) (h : List StreamEvent)
    (hr : (streamMachine scale width height).Reach anyStep r h) (hcalled : r.stop ≠ .idle) :
    (∀ as r' es, (streamMachine scale width height).Run r as r' es →
        as.length ≤ stopBound) ∧
      (∃ as r' es, (∀ a ∈ as, a.own = true) ∧
        (streamMachine scale width height).Run r as r' es ∧
        (streamMachine scale width height).Rest StreamAction.own r') ∧
      ∀ as r' es, (∀ a ∈ as, a.peerless = true) →
        (streamMachine scale width height).Run r as r' es →
        (r.net.reading = true → r'.stop ≠ .returned) ∧
          ((streamMachine scale width height).Rest StreamAction.own r' →
            r.net.reading = false → r'.stop = .returned) := by
  have hI := Stopping.of_coordinated (coordinated_reach hr) hcalled
  have hbound := hI.rank_le (netRank_reach hr)
  have hwinds := windsDown scale width height
  refine ⟨fun as r' es hrun => (hwinds.length_le hI hrun).trans hbound,
    hwinds.exists_rest StreamAction.own hI, fun as r' es hown hrun => ?_⟩
  obtain ⟨hI', hread⟩ : Stopping r' ∧ r'.net.reading = r.net.reading := by
    refine hrun.invariant (fun s => Stopping s ∧ s.net.reading = r.net.reading) ?_ hown
      ⟨hI, rfl⟩
    rintro s a s' es ⟨hs, hsame⟩ ha hstep
    exact ⟨hwinds.keeps hs hstep, (reading_step hs ha hstep).trans hsame⟩
  constructor
  · intro hreading hreturned
    have hended := hI'.netEnded (by simp [hreturned])
    rw [← hread, hended] at hreading
    cases hreading
  · intro hrest hfree
    refine (rest_of_stopping hI' hrest).resolve_right ?_
    rw [hread, hfree]
    decide

end Stopping

/-- A peer connects and sends one byte of a length; then `stop` is called. -/
theorem stop_waits_only_for_peer_sample :
    ∃ r h, (streamMachine sampleScale 2 2).Reach anyStep r h ∧ r.net.reading = true ∧
      ∀ as r' es, (∀ a ∈ as, a.peerless = true) →
        (streamMachine sampleScale 2 2).Run r as r' es → r'.stop ≠ .returned := by
  obtain ⟨r, h, hr, hh⟩ := Machine.exists_reach_of_exec (streamMachine sampleScale 2 2) anyStep
    (s := { decoder := { VideoDecoder.init 2 2 with flipHorizontal := true, onFrame := true } })
    ⟨true, rfl⟩ [.net .go, .net .connection, .net .go, .net .go, .net (.data [0]), .stop]
    (fun r _ => r.net.reading && decide (r.stop = .closeAcceptor)) (by decide +kernel)
  simp only [Bool.and_eq_true, decide_eq_true_eq] at hh
  refine ⟨r, h, hr, hh.1, fun as r' es hown hrun => ?_⟩
  exact ((stop_waits_only_for_peer sampleScale 2 2 r h hr (by simp [hh.2])).2.2 as r' es hown
    hrun).1 hh.1

end Iriseus.Core
