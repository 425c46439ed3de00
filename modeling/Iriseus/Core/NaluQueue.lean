import Iriseus.Core.NaluStream
import Iriseus.Verified.Machine

/-!
# The receiver's threads: `StreamReceiver`

`acceptLoop` serves one connection after the other and enqueues the NALUs
`receiveLoop` reads; `decodeLoop` takes them out of the queue and hands them to
the decoder; `stop` clears `m_running`, outside the lock, and then the queue.
`receiverMachine` interleaves the three threads.  A critical section that reads
no atomic flag is one step; the one of `decodeLoop` reads `m_running` twice and
is taken apart, with the lock held in between.

A push that finds 120 NALUs queued drops them all.  So what was received
before the queue's content is a sequence of portions, each one NALU taken by
the decoder or one dropped backlog of 120 (`QueueExact`).

## Main results

* `enqueued_reach` — the NALUs enqueued are those `receiveLoop` reads from the
  connections, in order.
* `queue_loses_backlogs` — the queue loses only whole backlogs, and its front is
  never taken while it is empty.
-/

namespace Iriseus.Core

open Iriseus.Verified
open Iriseus.Verified.ByteStream

/-! ## Threads -/

/-- `kMaxQueueDepth`. -/
def kMaxQueueDepth : Nat := 120

/-- The network thread: `acceptLoop` with `receiveLoop` inside. -/
inductive NetPc where
  /-- `acceptLoop` is about to read `m_running`. -/
  | top
  | accept
  /-- `receiveLoop` is about to read `m_running`; `segs` is still to come. -/
  | head (segs : List Bytes)
  | readLen (segs : List Bytes)
  | readBody (segs : List Bytes) (naluSize : Nat)
  | push (segs : List Bytes) (nalu : Bytes)
  | ended
  deriving DecidableEq, Repr

/-- The decode thread; `woken` holds the lock. -/
inductive DecodePc where
  | top
  | wait
  | woken
  | pushNalu (nalu : Bytes)
  | ended
  deriving DecidableEq, Repr

/-- The thread that calls `stop`. -/
inductive StopPc where
  | idle
  | clear
  | join
  deriving DecidableEq, Repr

structure ReceiverThreads where
  running : Bool := true
  queue : List Bytes := []
  net : NetPc := .top
  decode : DecodePc := .top
  stop : StopPc := .idle
  deriving DecidableEq, Repr

inductive ReceiverEvent where
  /-- A connection is accepted; `segs` is what its socket delivers. -/
  | connected (segs : List Bytes)
  /-- A NALU is queued; `dropped` is the content the queue is cleared of. -/
  | enqueued (nalu : Bytes) (dropped : List Bytes)
  /-- `m_decoder->pushNalu(nalu)`. -/
  | decoded (nalu : Bytes)
  /-- `front()` is called on an empty queue. -/
  | frontOfEmpty
  /-- `stop` sets `m_running` to false. -/
  | stopped
  deriving DecidableEq, Repr

inductive ReceiverAction where
  /-- A step of the network thread; `conn` is what `accept` returns. -/
  | net (conn : Option (List Bytes))
  | decode
  | stop
  deriving DecidableEq, Repr

namespace ReceiverThreads

/-- No thread holds the lock. -/
def unlocked (r : ReceiverThreads) : Bool := r.decode ≠ .woken

/-- The locked section of `receiveLoop`. -/
def pushBack (r : ReceiverThreads) (nalu : Bytes) : ReceiverThreads × List ReceiverEvent :=
  if kMaxQueueDepth ≤ r.queue.length then
    ({ r with queue := [nalu] }, [.enqueued nalu r.queue])
  else ({ r with queue := r.queue ++ [nalu] }, [.enqueued nalu []])

/-- `acceptLoop` and `receiveLoop`. -/
def netStep (r : ReceiverThreads) (conn : Option (List Bytes)) :
    Option (ReceiverThreads × List ReceiverEvent) :=
  match r.net with
  | .top => some ({ r with net := if r.running then .accept else .ended }, [])
  | .accept =>
      match conn with
      | some segs => some ({ r with net := .head segs }, [.connected segs])
      | none => some ({ r with net := .ended }, [])
  | .head segs => some ({ r with net := if r.running then .readLen segs else .top }, [])
  | .readLen segs =>
      match readExact 4 segs with
      | none => some ({ r with net := .top }, [])
      | some (lenBuf, segs') =>
          let naluSize := decodeBe32 lenBuf
          if naluSize = 0 ∨ maxNaluSize < naluSize then some ({ r with net := .top }, [])
          else some ({ r with net := .readBody segs' naluSize }, [])
  | .readBody segs naluSize =>
      match readExact naluSize segs with
      | none => some ({ r with net := .top }, [])
      | some (nalu, segs') => some ({ r with net := .push segs' nalu }, [])
  | .push segs nalu =>
      if r.unlocked then some ({ r with net := .head segs }.pushBack nalu) else none
  | .ended => none

/-- `decodeLoop`. -/
def decodeStep (r : ReceiverThreads) : Option (ReceiverThreads × List ReceiverEvent) :=
  match r.decode with
  | .top => some ({ r with decode := if r.running then .wait else .ended }, [])
  | .wait =>
      -- the predicate of `s_queueCv.wait`, evaluated with the lock held
      if r.queue ≠ [] ∨ r.running = false then some ({ r with decode := .woken }, [])
      else none
  | .woken =>
      if r.running = false ∧ r.queue = [] then some ({ r with decode := .ended }, [])
      else
        match r.queue with
        | nalu :: rest => some ({ r with queue := rest, decode := .pushNalu nalu }, [])
        | [] => some ({ r with decode := .ended }, [.frontOfEmpty])
  | .pushNalu nalu => some ({ r with decode := .top }, [.decoded nalu])
  | .ended => none

/-- `stop`, up to the joins. -/
def stopStep (r : ReceiverThreads) : Option (ReceiverThreads × List ReceiverEvent) :=
  match r.stop with
  | .idle => some ({ r with running := false, stop := .clear }, [.stopped])
  | .clear => if r.unlocked then some ({ r with queue := [], stop := .join }, []) else none
  | .join => none

def step (r : ReceiverThreads) : ReceiverAction →
    Option (ReceiverThreads × List ReceiverEvent)
  | .net conn => r.netStep conn
  | .decode => r.decodeStep
  | .stop => r.stopStep

end ReceiverThreads

/-- The receiver has been started; its queue is empty. -/
def receiverMachine : Machine ReceiverThreads ReceiverAction ReceiverEvent where
  Init r := r = {}
  step := ReceiverThreads.step

/-! ## What a history says -/

/-- The NALUs received, in order. -/
def received (h : List ReceiverEvent) : List Bytes :=
  h.filterMap fun e => match e with
    | .enqueued nalu _ => some nalu
    | _ => none

/-- The NALUs handed to the decoder, in order. -/
def decoded (h : List ReceiverEvent) : List Bytes :=
  h.filterMap fun e => match e with
    | .decoded nalu => some nalu
    | _ => none

/-- What pushes cleared the queue of, in order. -/
def droppedBacklogs (h : List ReceiverEvent) : List (List Bytes) :=
  h.filterMap fun e => match e with
    | .enqueued _ [] => none
    | .enqueued _ dropped => some dropped
    | _ => none

/-- What the accepted sockets deliver, in order. -/
def connections (h : List ReceiverEvent) : List (List Bytes) :=
  h.filterMap fun e => match e with
    | .connected segs => some segs
    | _ => none

/-- A run of received NALUs that left the queue together. -/
inductive Portion where
  | taken (nalu : Bytes)
  | dropped (backlog : List Bytes)
  deriving DecidableEq, Repr

namespace Portion

def nalus : Portion → List Bytes
  | .taken nalu => [nalu]
  | .dropped backlog => backlog

def taken? : Portion → Option Bytes
  | .taken nalu => some nalu
  | .dropped _ => none

def dropped? : Portion → Option (List Bytes)
  | .taken _ => none
  | .dropped backlog => some backlog

end Portion

/-- The NALU the decode thread has taken and not yet handed over. -/
def DecodePc.hand : DecodePc → List Bytes
  | .pushNalu nalu => [nalu]
  | _ => []

/-- The queue is the end of what was received, at most 120 NALUs.  Before it
stand, in order, the NALUs the decode thread took, one by one, and the dropped
backlogs, runs of exactly 120. -/
structure QueueExact (r : ReceiverThreads) (h : List ReceiverEvent) : Prop where
  depth : r.queue.length ≤ kMaxQueueDepth
  portions : ∃ ps : List Portion, received h = ps.flatMap Portion.nalus ++ r.queue ∧
    decoded h ++ r.decode.hand = ps.filterMap Portion.taken? ∧
    droppedBacklogs h = ps.filterMap Portion.dropped?
  whole : ∀ backlog ∈ droppedBacklogs h, backlog.length = kMaxQueueDepth

/-- What the current connection will still enqueue. -/
def NetPc.pending : NetPc → List Bytes
  | .head segs => receiveLoop segs
  | .readLen segs => receiveLoop segs
  | .readBody segs naluSize =>
      match readExact naluSize segs with
      | some (nalu, segs') => nalu :: receiveLoop segs'
      | none => []
  | .push segs nalu => nalu :: receiveLoop segs
  | _ => []

/-! ## One step of each thread -/

/-- All the ways in which the receiver moves. -/
inductive ReceiverStep (r : ReceiverThreads) : ReceiverThreads → List ReceiverEvent → Prop
  /-- The network thread moves on by itself. -/
  | net {pc : NetPc} (hpending : r.running = true → pc.pending = r.net.pending) :
      ReceiverStep r { r with net := pc } []
  | connect {segs : List Bytes} (hidle : r.net.pending = []) :
      ReceiverStep r { r with net := .head segs } [.connected segs]
  | push {segs : List Bytes} {nalu : Bytes} (hpc : r.net = .push segs nalu)
      (hunlocked : r.decode ≠ .woken) (hroom : r.queue.length < kMaxQueueDepth) :
      ReceiverStep r { r with net := .head segs, queue := r.queue ++ [nalu] }
        [.enqueued nalu []]
  | overflow {segs : List Bytes} {nalu : Bytes} (hpc : r.net = .push segs nalu)
      (hunlocked : r.decode ≠ .woken) (hfull : kMaxQueueDepth ≤ r.queue.length) :
      ReceiverStep r { r with net := .head segs, queue := [nalu] } [.enqueued nalu r.queue]
  /-- The decode thread goes to its next loop test, to waiting or to its end. -/
  | decode {pc : DecodePc} (hhand : r.decode.hand = []) (hnext : pc.hand = [])
      (hawake : pc ≠ .woken) : ReceiverStep r { r with decode := pc } []
  | wake (hwait : r.decode = .wait) (hready : r.queue ≠ [] ∨ r.running = false) :
      ReceiverStep r { r with decode := .woken } []
  | take {nalu : Bytes} {rest : List Bytes} (hpc : r.decode = .woken)
      (hqueue : r.queue = nalu :: rest) :
      ReceiverStep r { r with queue := rest, decode := .pushNalu nalu } []
  | takeEmpty (hpc : r.decode = .woken) (hrunning : r.running = true) (hempty : r.queue = []) :
      ReceiverStep r { r with decode := .ended } [.frontOfEmpty]
  | hand {nalu : Bytes} (hpc : r.decode = .pushNalu nalu) :
      ReceiverStep r { r with decode := .top } [.decoded nalu]
  | stop (hidle : r.stop = .idle) :
      ReceiverStep r { r with running := false, stop := .clear } [.stopped]
  | clear (hstop : r.stop = .clear) (hunlocked : r.decode ≠ .woken) :
      ReceiverStep r { r with queue := [], stop := .join } []

theorem netStep_cases {r r' : ReceiverThreads} {conn : Option (List Bytes)}
    {es : List ReceiverEvent} (h : r.netStep conn = some (r', es)) : ReceiverStep r r' es := by
  unfold ReceiverThreads.netStep at h
  split at h
  · rename_i hpc
    cases h
    refine .net fun hrun => ?_
    simp [hpc, hrun, NetPc.pending]
  · rename_i hpc
    split at h <;> cases h
    · exact .connect (by simp [hpc, NetPc.pending])
    · exact .net fun _ => by simp [hpc, NetPc.pending]
  · rename_i segs hpc
    cases h
    refine .net fun hrun => ?_
    simp [hpc, hrun, NetPc.pending]
  · rename_i segs hpc
    split at h
    · rename_i hend
      cases h
      exact .net fun _ => by simp [hpc, NetPc.pending, receiveLoop_end hend]
    · rename_i lenBuf segs' hlen
      simp only at h
      split at h <;> cases h
      · rename_i hbad
        exact .net fun _ => by simp [hpc, NetPc.pending, receiveLoop_body hlen, hbad]
      · rename_i hgood
        refine .net fun _ => ?_
        simp only [hpc, NetPc.pending, receiveLoop_body hlen, if_neg hgood]
        cases readExact (decodeBe32 lenBuf) segs' <;> rfl
  · rename_i segs naluSize hpc
    split at h <;> cases h <;> rename_i hread
    · exact .net fun _ => by simp [hpc, NetPc.pending, hread]
    · exact .net fun _ => by simp [hpc, NetPc.pending, hread]
  · rename_i segs nalu hpc
    split at h
    · rename_i hunlocked
      have hawake : r.decode ≠ .woken := by simpa [ReceiverThreads.unlocked] using hunlocked
      unfold ReceiverThreads.pushBack at h
      split at h <;> cases h
      · exact .overflow hpc hawake ‹_›
      · exact .push hpc hawake (Nat.lt_of_not_le ‹_›)
    · cases h
  · cases h

theorem decodeStep_cases {r r' : ReceiverThreads} {es : List ReceiverEvent}
    (h : r.decodeStep = some (r', es)) : ReceiverStep r r' es := by
  unfold ReceiverThreads.decodeStep at h
  split at h
  · rename_i hpc
    cases h
    refine .decode (by simp [hpc, DecodePc.hand]) ?_ ?_
    · split <;> rfl
    · split <;> simp
  · rename_i hpc
    split at h <;> cases h
    exact .wake hpc ‹_›
  · rename_i hpc
    split at h
    · cases h
      exact .decode (by simp [hpc, DecodePc.hand]) rfl (by simp)
    · rename_i hgo
      split at h <;> cases h
      · exact .take hpc ‹_›
      · rename_i hempty
        refine .takeEmpty hpc ?_ hempty
        cases hrun : r.running with
        | true => rfl
        | false => exact absurd ⟨hrun, hempty⟩ hgo
  · rename_i nalu hpc
    cases h
    exact .hand hpc
  · cases h

/-- **Inversion for the receiver.** -/
theorem receiverStep_cases {r r' : ReceiverThreads} {a : ReceiverAction}
    {es : List ReceiverEvent} (h : r.step a = some (r', es)) : ReceiverStep r r' es := by
  cases a with
  | net conn => exact netStep_cases h
  | decode => exact decodeStep_cases h
  | stop =>
      simp only [ReceiverThreads.step, ReceiverThreads.stopStep] at h
      split at h
      · cases h
        exact .stop ‹_›
      · split at h
        · rename_i hstop hunlocked
          cases h
          exact .clear hstop (by simpa [ReceiverThreads.unlocked] using hunlocked)
        · cases h
      · cases h

/-! ## The front of the queue -/

/-- The decode thread holds the lock only over a queue with a front, or while
the receiver is not running; `front` has not been called on an empty queue. -/
structure FrontInv (r : ReceiverThreads) (h : List ReceiverEvent) : Prop where
  woken : r.decode = .woken → r.queue ≠ [] ∨ r.running = false
  safe : .frontOfEmpty ∉ h

theorem frontInv_step {r r' : ReceiverThreads} {h es : List ReceiverEvent}
    (hI : FrontInv r h) (hs : ReceiverStep r r' es) : FrontInv r' (h ++ es) := by
  obtain ⟨hwoken, hsafe⟩ := hI
  cases hs with
  | net _ => exact ⟨hwoken, by simpa using hsafe⟩
  | connect _ => exact ⟨hwoken, by simpa using hsafe⟩
  | push _ hawake _ => exact ⟨fun h => absurd h hawake, by simpa using hsafe⟩
  | overflow _ hawake _ => exact ⟨fun h => absurd h hawake, by simpa using hsafe⟩
  | decode _ _ hawake => exact ⟨fun h => absurd h hawake, by simpa using hsafe⟩
  | wake _ hready => exact ⟨fun _ => hready, by simpa using hsafe⟩
  | take _ _ => exact ⟨by simp, by simpa using hsafe⟩
  | takeEmpty hpc hrunning hempty =>
      rcases hwoken hpc with hfront | hstopped
      · exact absurd hempty hfront
      · rw [hrunning] at hstopped
        cases hstopped
  | hand _ => exact ⟨by simp, by simpa using hsafe⟩
  | stop _ => exact ⟨fun _ => Or.inr rfl, by simpa using hsafe⟩
  | clear _ hawake => exact ⟨fun h => absurd h hawake, by simpa using hsafe⟩

theorem frontInv_reach {ok : Machine.StepCond ReceiverThreads ReceiverAction ReceiverEvent}
    {r : ReceiverThreads} {h : List ReceiverEvent} (hr : receiverMachine.Reach ok r h) :
    FrontInv r h := by
  refine Machine.Reach.invariant _ ?_ ?_ hr
  · rintro r rfl
    exact ⟨by simp, by simp⟩
  · intro r h a r' es hI _ hs
    exact frontInv_step hI (receiverStep_cases hs)

/-! ## Backlogs -/

section Histories

variable (h es : List ReceiverEvent)

@[simp] theorem received_append : received (h ++ es) = received h ++ received es :=
  List.filterMap_append

@[simp] theorem decoded_append : decoded (h ++ es) = decoded h ++ decoded es :=
  List.filterMap_append

@[simp] theorem droppedBacklogs_append :
    droppedBacklogs (h ++ es) = droppedBacklogs h ++ droppedBacklogs es :=
  List.filterMap_append

@[simp] theorem connections_append :
    connections (h ++ es) = connections h ++ connections es :=
  List.filterMap_append

end Histories

/-- Until `stop` is called the receiver runs and the queue is exact. -/
structure RunningInv (r : ReceiverThreads) (h : List ReceiverEvent) : Prop where
  running : r.running = true
  idle : r.stop = .idle
  queue : QueueExact r h
  pending : received h ++ r.net.pending = (connections h).flatMap receiveLoop

/-- A step of the network thread outside the lock leaves the queue exact. -/
theorem QueueExact.frame {r r' : ReceiverThreads} {h es : List ReceiverEvent}
    (hq : QueueExact r h) (hqueue : r'.queue = r.queue)
    (htaken : decoded es ++ r'.decode.hand = r.decode.hand) (hreceived : received es = [])
    (hdropped : droppedBacklogs es = []) : QueueExact r' (h ++ es) := by
  obtain ⟨ps, hps, hdec, hdrop⟩ := hq.portions
  refine
    { depth := by rw [hqueue]; exact hq.depth
      portions := ⟨ps, ?_, ?_, ?_⟩
      whole := by simpa [hdropped] using hq.whole }
  · rw [received_append, hreceived, List.append_nil, hqueue, hps]
  · rw [decoded_append, List.append_assoc, htaken, hdec]
  · rw [droppedBacklogs_append, hdropped, List.append_nil, hdrop]

/-- A push that finds room. -/
theorem QueueExact.push {r : ReceiverThreads} {h : List ReceiverEvent} {segs : List Bytes}
    {nalu : Bytes} (hq : QueueExact r h) (hroom : r.queue.length < kMaxQueueDepth) :
    QueueExact { r with net := .head segs, queue := r.queue ++ [nalu] }
      (h ++ [.enqueued nalu []]) := by
  obtain ⟨ps, hps, hdec, hdrop⟩ := hq.portions
  refine
    { depth := by simpa using Nat.succ_le_of_lt hroom
      portions := ⟨ps, ?_, ?_, ?_⟩
      whole := by simpa [droppedBacklogs] using hq.whole }
  · simp [received, ← List.append_assoc, ← hps]
  · simpa [decoded] using hdec
  · simpa [droppedBacklogs] using hdrop

/-- A push that finds the queue full drops what is queued as one backlog. -/
theorem QueueExact.overflow {r : ReceiverThreads} {h : List ReceiverEvent}
    {segs : List Bytes} {nalu : Bytes} (hq : QueueExact r h)
    (hfull : kMaxQueueDepth ≤ r.queue.length) :
    QueueExact { r with net := .head segs, queue := [nalu] }
      (h ++ [.enqueued nalu r.queue]) := by
  obtain ⟨ps, hps, hdec, hdrop⟩ := hq.portions
  have hlen : r.queue.length = kMaxQueueDepth := Nat.le_antisymm hq.depth hfull
  have hblock : droppedBacklogs [.enqueued nalu r.queue] = [r.queue] := by
    cases hqueue : r.queue with
    | nil => simp [hqueue, kMaxQueueDepth] at hlen
    | cons n ns => rfl
  refine
    { depth := by simp [kMaxQueueDepth]
      portions := ⟨ps ++ [.dropped r.queue], ?_, ?_, ?_⟩
      whole := ?_ }
  · simp [received, Portion.nalus, ← hps]
  · simpa [decoded, Portion.taken?, List.filterMap_cons] using hdec
  · simp [hblock, hdrop, Portion.dropped?]
  · intro backlog hmem
    rw [droppedBacklogs_append, hblock, List.mem_append, List.mem_singleton] at hmem
    rcases hmem with hmem | rfl
    · exact hq.whole backlog hmem
    · exact hlen

/-- The decode thread takes the front. -/
theorem QueueExact.take {r : ReceiverThreads} {h : List ReceiverEvent} {nalu : Bytes}
    {rest : List Bytes} (hq : QueueExact r h) (hpc : r.decode = .woken)
    (hqueue : r.queue = nalu :: rest) :
    QueueExact { r with queue := rest, decode := .pushNalu nalu } (h ++ []) := by
  obtain ⟨ps, hps, hdec, hdrop⟩ := hq.portions
  have hdepth := hq.depth
  rw [hqueue] at hps hdepth
  rw [hpc] at hdec
  rw [List.append_nil]
  refine
    { depth := Nat.le_of_succ_le hdepth
      portions := ⟨ps ++ [.taken nalu], ?_, ?_, ?_⟩
      whole := hq.whole }
  · simp [hps, Portion.nalus]
  · simpa [DecodePc.hand, Portion.taken?] using hdec
  · simpa [Portion.dropped?, List.filterMap_cons] using hdrop

/-- **One step** before `stop` is called. -/
theorem runningInv_step {r r' : ReceiverThreads} {h es : List ReceiverEvent}
    (hI : RunningInv r h) (hs : ReceiverStep r r' es) (hgo : .stopped ∉ es) :
    RunningInv r' (h ++ es) := by
  obtain ⟨hrun, hidle, hq, hpend⟩ := hI
  cases hs with
  | net hpending =>
      exact
        { running := hrun, idle := hidle
          queue := hq.frame rfl rfl rfl rfl
          pending := by simpa [hpending hrun] using hpend }
  | connect hnone =>
      refine
        { running := hrun, idle := hidle
          queue := hq.frame rfl rfl rfl rfl
          pending := ?_ }
      rw [hnone, List.append_nil] at hpend
      simp [received, connections, NetPc.pending] at hpend ⊢
      rw [hpend]
  | push hpc _ hroom =>
      refine { running := hrun, idle := hidle, queue := hq.push hroom, pending := ?_ }
      rw [hpc] at hpend
      simpa [received, connections, NetPc.pending] using hpend
  | overflow hpc _ hfull =>
      refine { running := hrun, idle := hidle, queue := hq.overflow hfull, pending := ?_ }
      rw [hpc] at hpend
      simpa [received, connections, NetPc.pending] using hpend
  | decode hhand hnext _ =>
      exact
        { running := hrun, idle := hidle
          queue := hq.frame rfl (by simp [hhand, hnext, decoded]) rfl rfl
          pending := by simpa using hpend }
  | wake hwait _ =>
      exact
        { running := hrun, idle := hidle
          queue := hq.frame rfl (by simp [hwait, DecodePc.hand, decoded]) rfl rfl
          pending := by simpa using hpend }
  | take hpc hqueue =>
      exact
        { running := hrun, idle := hidle
          queue := hq.take hpc hqueue
          pending := by simpa using hpend }
  | takeEmpty hpc _ _ =>
      exact
        { running := hrun, idle := hidle
          queue := hq.frame rfl (by simp [hpc, DecodePc.hand, decoded]) rfl rfl
          pending := by simpa [received, connections] using hpend }
  | hand hpc =>
      exact
        { running := hrun, idle := hidle
          queue := hq.frame rfl (by simp [hpc, DecodePc.hand, decoded]) rfl rfl
          pending := by simpa [received, connections] using hpend }
  | stop _ => simp at hgo
  | clear hstop _ => simp [hidle] at hstop

theorem runningInv_reach {ok : Machine.StepCond ReceiverThreads ReceiverAction ReceiverEvent}
    {r : ReceiverThreads} {h : List ReceiverEvent} (hr : receiverMachine.Reach ok r h)
    (hgo : .stopped ∉ h) : RunningInv r h := by
  refine Machine.Reach.invariant (m := receiverMachine)
    (fun r h => .stopped ∉ h → RunningInv r h) ?_ ?_ hr hgo
  · rintro r rfl -
    exact
      { running := rfl
        idle := rfl
        queue :=
          { depth := Nat.zero_le _
            portions := ⟨[], rfl, rfl, rfl⟩
            whole := by simp [droppedBacklogs] }
        pending := rfl }
  · intro r h a r' es hI _ hs hgo
    rw [List.mem_append, not_or] at hgo
    exact runningInv_step (hI hgo.1) (receiverStep_cases hs) hgo.2

/-- Until `stop` is called, the NALUs enqueued are those that `receiveLoop`
reads from the connections, in order, up to what the current one still
brings. -/
theorem enqueued_reach {ok : Machine.StepCond ReceiverThreads ReceiverAction ReceiverEvent}
    {r : ReceiverThreads} {h : List ReceiverEvent} (hr : receiverMachine.Reach ok r h)
    (hgo : .stopped ∉ h) :
    received h ++ r.net.pending = (connections h).flatMap receiveLoop :=
  (runningInv_reach hr hgo).pending

/-- **The queue loses only whole backlogs.**  In every interleaving, until
`stop` is called: at most 120 NALUs are queued; the decoder is handed NALUs in
the order received, each once; and what was received and is neither taken nor
queued are runs of exactly 120 consecutive NALUs, each dropped by a push that
found 120 queued.  And `stop` at any point included, the front of an empty
queue is never taken. -/
theorem queue_loses_backlogs (r : ReceiverThreads) (h : List ReceiverEvent) :
    receiverMachine.Reach Machine.anyStep r h →
      (.stopped ∉ h → QueueExact r h) ∧ .frontOfEmpty ∉ h := by
  intro hr
  exact ⟨fun hgo => (runningInv_reach hr hgo).queue, (frontInv_reach hr).safe⟩

/-! ## A concrete run -/

/-- A peer sends 120 NALUs and then one more, and the decode thread only comes
to move afterwards. -/
def sampleReception : List ReceiverAction :=
  [.net none, .net (some (List.replicate 120 [0, 0, 0, 1, 7] ++ [[0, 0, 0, 1], [8]]))]
    ++ List.replicate 484 (.net none) ++ List.replicate 4 .decode

/-- The last push finds 120 queued and drops them. -/
theorem queue_loses_backlogs_sampleReception :
    ∃ r h, receiverMachine.Reach Machine.anyStep r h ∧
      decide (h = [.connected (List.replicate 120 [0, 0, 0, 1, 7] ++ [[0, 0, 0, 1], [8]])] ++
        List.replicate 120 (.enqueued [7] []) ++
        [.enqueued [8] (List.replicate 120 [7]), .decoded [8]]) = true ∧
      QueueExact r h ∧ .frontOfEmpty ∉ h := by
  obtain ⟨r, h, hr, hh⟩ := Machine.exists_reach_of_exec receiverMachine Machine.anyStep
    (s := ({} : ReceiverThreads)) rfl sampleReception
    (fun _ h => decide (h =
      [.connected (List.replicate 120 [0, 0, 0, 1, 7] ++ [[0, 0, 0, 1], [8]])] ++
        List.replicate 120 (.enqueued [7] []) ++
        [.enqueued [8] (List.replicate 120 [7]), .decoded [8]])) (by decide +kernel)
  have hexact := queue_loses_backlogs r h hr
  refine ⟨r, h, hr, hh, hexact.1 ?_, hexact.2⟩
  rw [decide_eq_true_iff] at hh
  simp [hh]

end Iriseus.Core
