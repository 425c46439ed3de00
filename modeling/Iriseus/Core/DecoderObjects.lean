import Iriseus.Core.VideoDecoder
import Iriseus.Verified.Api

/-!
# The decoder's objects

`VideoDecoder` holds three objects of FFmpeg by pointers: the codec's context, a frame and
the scaler.  Every NALU is copied into a packet of its own.  Any of these may be missing
when memory is short or the codec is not there; the scaler comes and goes with the size
of the frames.

`ffmpeg` is the other side: the objects that exist.  It refuses calls on objects that do
not, through null pointers, to a context that is not open, the scaling of a frame of
another size than the scaler's, and a copy into a packet without room.

## Main results

* `decoder_life` — the calls of a decoder are in order as long as its packets have room,
  and nothing is left of it.
-/

namespace Iriseus.Core

open Iriseus.Verified

/-! ## The calls -/

/-- The calls of the decoder.  A pointer that may be null is an `Option`. -/
inductive FfmpegCall where
  | allocContext (ctx : Nat)
  /-- `avcodec_open2`, and whether it succeeds. -/
  | openContext (ctx : Nat) (opens : Bool)
  | freeContext (ctx : Nat)
  | allocFrame (frame : Nat)
  | freeFrame (frame : Nat)
  | allocPacket (pkt : Nat)
  /-- `av_new_packet`, and whether it finds memory for the data. -/
  | newPacket (pkt : Option Nat) (size : Nat) (fits : Bool)
  /-- `memcpy` into the data of the packet. -/
  | fillPacket (pkt : Option Nat) (size : Nat)
  | sendPacket (ctx : Option Nat) (pkt : Option Nat)
  | receiveFrame (ctx frame : Option Nat)
  | freePacket (pkt : Nat)
  | getScaler (sws : Nat) (arguments : SwsContext)
  | scale (sws : Option Nat) (width height format : Int32)
  | freeScaler (sws : Nat)
  deriving DecidableEq, Repr

/-! ## The other side -/

/-- The objects that exist: contexts and whether they are open, packets with the size of
their data, scalers with their arguments. -/
structure FfmpegObjects where
  contexts : List (Nat × Bool) := []
  frames : List Nat := []
  packets : List (Nat × Option Nat) := []
  scalers : List (Nat × SwsContext) := []
  deriving DecidableEq, Repr

namespace FfmpegObjects

variable (o : FfmpegObjects)

/-- The pointer leads to one of the objects. -/
def pointsTo {β : Type} (objects : List (Nat × β)) (test : β → Bool) (p : Option Nat) :
    Bool :=
  p.any fun id => objects.any fun entry => entry.1 == id && test entry.2

def call : FfmpegCall → Option FfmpegObjects
  | .allocContext ctx => some { o with contexts := (ctx, false) :: o.contexts }
  | .openContext ctx opens =>
      if (ctx, false) ∈ o.contexts then
        some { o with contexts := o.contexts.map fun c => if c.1 = ctx then (ctx, opens) else c }
      else none
  | .freeContext ctx =>
      if pointsTo o.contexts (fun _ => true) (some ctx) then
        some { o with contexts := o.contexts.filter fun c => c.1 ≠ ctx }
      else none
  | .allocFrame frame => some { o with frames := frame :: o.frames }
  | .freeFrame frame =>
      if frame ∈ o.frames then some { o with frames := o.frames.erase frame } else none
  | .allocPacket pkt => some { o with packets := (pkt, none) :: o.packets }
  | .newPacket pkt size fits =>
      if pointsTo o.packets (· == none) pkt then
        some { o with
          packets := o.packets.map fun p =>
            if some p.1 = pkt then (p.1, if fits then some size else none) else p }
      else none
  | .fillPacket pkt size =>
      if pointsTo o.packets (fun room => room.any (size ≤ ·)) pkt then some o else none
  | .sendPacket ctx pkt =>
      if pointsTo o.contexts id ctx && pointsTo o.packets Option.isSome pkt then some o else none
  | .receiveFrame ctx frame =>
      if pointsTo o.contexts id ctx && frame.any (· ∈ o.frames) then some o else none
  | .freePacket pkt =>
      if pointsTo o.packets (fun _ => true) (some pkt) then
        some { o with packets := o.packets.filter fun p => p.1 ≠ pkt }
      else none
  | .getScaler sws arguments => some { o with scalers := (sws, arguments) :: o.scalers }
  | .scale sws width height format =>
      if pointsTo o.scalers (fun s => s.srcWidth == width && s.srcHeight == height &&
          s.srcFormat == format) sws then some o else none
  | .freeScaler sws =>
      if pointsTo o.scalers (fun _ => true) (some sws) then
        some { o with scalers := o.scalers.filter fun s => s.1 ≠ sws }
      else none

end FfmpegObjects

def ffmpeg : Api FfmpegObjects FfmpegCall where
  call := FfmpegObjects.call

/-! ## The decoder -/

/-- The decoder's members with the objects that its pointers lead to.  `nextObject` is the
object that FFmpeg makes next. -/
structure LiveDecoder where
  members : VideoDecoder
  ctx : Option Nat := none
  frame : Option Nat := none
  sws : Option Nat := none
  nextObject : Nat := 0
  deriving DecidableEq, Repr

/-- What FFmpeg answers to `init`. -/
structure InitAnswers where
  found : Bool := true
  allocatesContext : Bool := true
  opens : Bool := true
  allocatesFrame : Bool := true
  deriving DecidableEq, Repr

/-- A frame that the codec delivers, whether `sws_getContext` succeeds if it is called for
it, and the flip flag at that moment. -/
structure CodecFrame (π : Type) where
  frame : AVFrame π
  created : Bool
  flip : Bool
  deriving DecidableEq, Repr

/-- A NALU of `size` bytes, and what FFmpeg answers while it is decoded. -/
structure PushedNalu (π : Type) where
  size : Nat
  allocates : Bool := true
  fits : Bool := true
  sends : Bool := true
  frames : List (CodecFrame π) := []
  deriving DecidableEq, Repr

namespace LiveDecoder

/-- A new decoder, `init`, and whether it succeeds. -/
def init (width height : Int32) (ans : InitAnswers) :
    LiveDecoder × List FfmpegCall × Bool :=
  let d : LiveDecoder := { members := .init width height }
  if !ans.found then (d, [], false)
  else if !ans.allocatesContext then (d, [], false)
  else if !ans.opens then
    ({ d with ctx := some 0, nextObject := 1 }, [.allocContext 0, .openContext 0 false], false)
  else if !ans.allocatesFrame then
    ({ d with ctx := some 0, nextObject := 1 }, [.allocContext 0, .openContext 0 true], false)
  else
    ({ d with ctx := some 0, frame := some 1, nextObject := 2 },
      [.allocContext 0, .openContext 0 true, .allocFrame 1], true)

variable {π : Type}

/-- The frame has a size, and this or its format is new. -/
def reconfigures (d : VideoDecoder) (frame : AVFrame π) : Bool :=
  decide (frame.width ≠ d.srcWidth ∨ frame.height ≠ d.srcHeight ∨ frame.format ≠ d.lastFormat) &&
    decide (0 < frame.width ∧ 0 < frame.height)

/-- The loop of `decode`, before the conversion. -/
def adapt (d : LiveDecoder) (f : CodecFrame π) : LiveDecoder × List FfmpegCall :=
  let members := { d.members with flipHorizontal := f.flip }.adapt f.frame f.created
  if reconfigures d.members f.frame then
    let freed := d.sws.toList.map .freeScaler
    match members.sws with
    | some arguments =>
        ({ d with members := members, sws := some d.nextObject, nextObject := d.nextObject + 1 },
          freed ++ [.getScaler d.nextObject arguments])
    | none => ({ d with members := members, sws := none }, freed)
  else ({ d with members := members }, [])

/-- The calls of `convertToRgb`. -/
def scaleCalls (sws : Option Nat) (es : List (DecoderEvent π)) : List FfmpegCall :=
  es.filterMap fun
    | .swsScale _ frame => some (.scale sws frame.width frame.height frame.format)
    | .onFrame _ _ _ => none

/-- One round of the loop of `decode`. -/
def decodeFrame (scale : SwsScale π) (d : LiveDecoder) (f : CodecFrame π) :
    LiveDecoder × List FfmpegCall :=
  let a := d.adapt f
  let r := a.1.members.convertToRgb scale f.frame
  ({ a.1 with members := r.1 },
    .receiveFrame d.ctx d.frame :: a.2 ++ scaleCalls a.1.sws r.2)

/-- `decode`: the loop ends with the call that has no frame. -/
def decode (scale : SwsScale π) (d : LiveDecoder) (pkt : Option Nat) (p : PushedNalu π) :
    LiveDecoder × List FfmpegCall :=
  if p.sends then
    let r := Api.perform (decodeFrame scale) d p.frames
    (r.1, .sendPacket d.ctx pkt :: r.2 ++ [.receiveFrame r.1.ctx r.1.frame])
  else (d, [.sendPacket d.ctx pkt])

def pushNalu (scale : SwsScale π) (d : LiveDecoder) (p : PushedNalu π) :
    LiveDecoder × List FfmpegCall :=
  let pkt := if p.allocates then some d.nextObject else none
  let r := { d with nextObject := d.nextObject + 1 }.decode scale pkt p
  (r.1, pkt.toList.map .allocPacket ++
    [.newPacket pkt p.size p.fits, .fillPacket pkt p.size] ++ r.2 ++
    pkt.toList.map .freePacket)

/-- The destructor. -/
def destroy (d : LiveDecoder) : List FfmpegCall :=
  d.sws.toList.map .freeScaler ++ d.frame.toList.map .freeFrame ++
    d.ctx.toList.map .freeContext

/-- The calls of a decoder that is made, given its callback, used if `init` has succeeded,
and destroyed. -/
def life (scale : SwsScale π) (width height : Int32) (ans : InitAnswers) (onFrame : Bool)
    (nalus : List (PushedNalu π)) : List FfmpegCall :=
  let r := init width height ans
  if r.2.2 then
    let s := Api.perform (pushNalu scale)
      { r.1 with members := { r.1.members with onFrame := onFrame } } nalus
    r.2.1 ++ s.2 ++ s.1.destroy
  else r.2.1 ++ r.1.destroy

end LiveDecoder

/-! ## What the decoder owns -/

namespace LiveDecoder

variable {π : Type}

/-- The scaler that exists, if both the pointer and the arguments say so. -/
def scaler (d : LiveDecoder) : List (Nat × SwsContext) :=
  match d.sws, d.members.sws with
  | some sws, some arguments => [(sws, arguments)]
  | _, _ => []

/-- The objects of a decoder that is ready, beside some packets. -/
def owned (packets : List (Nat × Option Nat)) (d : LiveDecoder) : FfmpegObjects where
  contexts := d.ctx.toList.map (·, true)
  frames := d.frame.toList
  packets := packets
  scalers := d.scaler

/-- `init` has succeeded; and the scaler is for frames of the current size and format. -/
structure Ready (d : LiveDecoder) : Prop where
  ctx : ∃ ctx, d.ctx = some ctx
  frame : ∃ frame, d.frame = some frame
  sws : d.sws.isSome = d.members.sws.isSome
  current : ∀ arguments, d.members.sws = some arguments →
    0 < d.members.srcWidth → 0 < d.members.srcHeight →
    arguments.srcWidth = d.members.srcWidth ∧ arguments.srcHeight = d.members.srcHeight ∧
      arguments.srcFormat = d.members.lastFormat

/-- `adapt` has made the decoder ready for a frame. -/
structure AdaptedTo (d : LiveDecoder) (frame : AVFrame π) : Prop where
  ready : d.Ready
  width : d.members.srcWidth = frame.width
  height : d.members.srcHeight = frame.height
  format : d.members.lastFormat = frame.format

variable {d : LiveDecoder}

/-- The old scaler is freed. -/
theorem freeScaler_run (packets : List (Nat × Option Nat)) (hready : d.Ready) :
    ffmpeg.run (d.owned packets) (d.sws.toList.map .freeScaler) =
      some { d.owned packets with scalers := [] } := by
  have hsws := hready.sws
  cases hs : d.sws with
  | none => simp [owned, scaler, hs]
  | some sws =>
      rw [hs, Option.isSome_some] at hsws
      obtain ⟨arguments, ha⟩ := Option.isSome_iff_exists.mp hsws.symm
      simp [owned, scaler, hs, ha, Api.run_cons, ffmpeg, FfmpegObjects.call,
        FfmpegObjects.pointsTo]

/-- A frame for which there is nothing to do, or which is empty. -/
theorem adapt_same {d : VideoDecoder} {frame : AVFrame π} (created : Bool)
    (hsame : reconfigures d frame = false) :
    (d.adapt frame created).sws = d.sws ∧ (d.adapt frame created).srcWidth = frame.width ∧
      (d.adapt frame created).srcHeight = frame.height ∧
      (d.adapt frame created).lastFormat = frame.format ∧
      (d.adapt frame created = d ∨ ¬(0 < frame.width ∧ 0 < frame.height)) := by
  unfold VideoDecoder.adapt
  split
  · rename_i hnew
    have hempty : ¬(0 < frame.width ∧ 0 < frame.height) := by
      simpa [reconfigures, hnew] using hsame
    dsimp only
    rw [if_neg hempty]
    exact ⟨rfl, rfl, rfl, rfl, Or.inr hempty⟩
  · rename_i hold
    simp only [not_or, not_not] at hold
    exact ⟨rfl, hold.1.symm, hold.2.1.symm, hold.2.2.symm, Or.inl rfl⟩

/-- A frame of a new size or format. -/
theorem adapt_new {d : VideoDecoder} {frame : AVFrame π} (created : Bool)
    (hnew : reconfigures d frame = true) :
    (d.adapt frame created).srcWidth = frame.width ∧
      (d.adapt frame created).srcHeight = frame.height ∧
      (d.adapt frame created).lastFormat = frame.format ∧
      ∀ arguments, (d.adapt frame created).sws = some arguments →
        arguments.srcWidth = frame.width ∧ arguments.srcHeight = frame.height ∧
          arguments.srcFormat = frame.format := by
  simp only [reconfigures, Bool.and_eq_true, decide_eq_true_eq] at hnew
  unfold VideoDecoder.adapt
  rw [if_pos hnew.1]
  dsimp only
  rw [if_pos hnew.2]
  refine ⟨rfl, rfl, rfl, fun arguments ha => ?_⟩
  simp only [swsGetContext, Option.ite_none_right_eq_some, Option.some.injEq] at ha
  obtain ⟨-, rfl⟩ := ha
  exact ⟨rfl, rfl, rfl⟩

theorem adapt_run (packets : List (Nat × Option Nat)) (hready : d.Ready) (f : CodecFrame π) :
    ffmpeg.run (d.owned packets) (d.adapt f).2 = some ((d.adapt f).1.owned packets) ∧
      (d.adapt f).1.AdaptedTo f.frame ∧ (d.adapt f).1.ctx = d.ctx ∧
      (d.adapt f).1.frame = d.frame := by
  have hflag : reconfigures { d.members with flipHorizontal := f.flip } f.frame =
      reconfigures d.members f.frame := rfl
  unfold adapt
  cases hre : reconfigures d.members f.frame with
  | true =>
      obtain ⟨hw, hh, hf, hfor⟩ := adapt_new f.created (hflag.trans hre)
      have hfreed := freeScaler_run packets hready
      rw [if_pos rfl]
      cases hsws : ({ d.members with flipHorizontal := f.flip }.adapt f.frame f.created).sws with
      | none =>
          refine ⟨hfreed.trans ?_, ⟨⟨hready.ctx, hready.frame, ?_, fun a ha => ?_⟩, hw, hh, hf⟩,
            rfl, rfl⟩
          · rfl
          · simp [hsws]
          · simp [hsws] at ha
      | some arguments =>
          refine ⟨?_, ⟨⟨hready.ctx, hready.frame, ?_, fun a ha _ _ => ?_⟩, hw, hh, hf⟩, rfl, rfl⟩
          · rw [Api.run_append, hfreed]
            simp [Api.run_cons, ffmpeg, FfmpegObjects.call, owned, scaler, hsws]
          · simp [hsws]
          · obtain ⟨haw, hah, haf⟩ := hfor a ha
            exact ⟨haw.trans hw.symm, hah.trans hh.symm, haf.trans hf.symm⟩
  | false =>
      obtain ⟨hsws, hw, hh, hf, hcase⟩ := adapt_same f.created (hflag.trans hre)
      rw [if_neg Bool.false_ne_true]
      refine ⟨?_, ⟨⟨hready.ctx, hready.frame, ?_, fun a ha hpw hph => ?_⟩, hw, hh, hf⟩, rfl, rfl⟩
      · simp [owned, scaler, hsws]
      · rw [hsws]
        exact hready.sws
      · rcases hcase with hsame | hempty
        · rw [hsame] at ha hpw hph ⊢
          exact hready.current a ha hpw hph
        · rw [hw] at hpw
          rw [hh] at hph
          exact absurd ⟨hpw, hph⟩ hempty

/-- The scaler is used for a frame that it is for. -/
theorem scale_run (scale : SwsScale π) (packets : List (Nat × Option Nat)) {frame : AVFrame π}
    (hadapted : d.AdaptedTo frame) :
    ffmpeg.run (d.owned packets)
        (scaleCalls d.sws (d.members.convertToRgb scale frame).2) = some (d.owned packets) ∧
      ({ d with members := (d.members.convertToRgb scale frame).1 } : LiveDecoder).Ready ∧
      ({ d with members := (d.members.convertToRgb scale frame).1 } : LiveDecoder).owned
        packets = d.owned packets := by
  obtain ⟨hready, hw, hh, hf⟩ := hadapted
  unfold VideoDecoder.convertToRgb
  split
  · exact ⟨rfl, hready, rfl⟩
  · rename_i arguments ha
    split
    · exact ⟨rfl, hready, rfl⟩
    · rename_i hshown
      simp only [not_or, Int32.not_le] at hshown
      obtain ⟨haw, hah, haf⟩ := hready.current arguments ha hshown.2.1 hshown.2.2
      have hsws := hready.sws
      rw [ha, Option.isSome_some] at hsws
      obtain ⟨sws, hs⟩ := Option.isSome_iff_exists.mp hsws
      refine ⟨?_, ⟨hready.ctx, hready.frame, hready.sws, hready.current⟩, rfl⟩
      simp [scaleCalls, Api.run_cons, ffmpeg, FfmpegObjects.call, FfmpegObjects.pointsTo, owned,
        scaler, hs, ha, haw, hah, haf, hw, hh, hf]

/-- **One frame.** -/
theorem decodeFrame_manages (scale : SwsScale π) (packets : List (Nat × Option Nat)) :
    ffmpeg.Manages Ready (owned packets) (decodeFrame scale) fun _ => true where
  keeps := fun {d} hready f =>
    (scale_run scale packets (adapt_run packets hready f).2.1).2.1
  calls := fun {d} hready f => by
    obtain ⟨hrun, hadapted, -, -⟩ := adapt_run packets hready f
    obtain ⟨hscale, -, howned⟩ := scale_run scale packets hadapted
    obtain ⟨ctx, hctx⟩ := hready.ctx
    obtain ⟨frame, hframe⟩ := hready.frame
    have hreceive : ffmpeg.call (d.owned packets) (.receiveFrame d.ctx d.frame) =
        some (d.owned packets) := by
      simp [ffmpeg, FfmpegObjects.call, FfmpegObjects.pointsTo, owned, hctx, hframe]
    rw [if_pos rfl]
    simp only [decodeFrame, List.cons_append, Api.run_cons, hreceive, Option.bind_some,
      Api.run_append, hrun, hscale, howned]

/-- The packet of the NALU has been made and has room. -/
def PushedNalu.hasRoom (p : PushedNalu π) : Bool := p.allocates && p.fits

theorem decode_ready (scale : SwsScale π) (hready : d.Ready) (pkt : Option Nat)
    (p : PushedNalu π) : (d.decode scale pkt p).1.Ready := by
  unfold decode
  split
  · exact (decodeFrame_manages scale []).perform_keeps p.frames hready
  · exact hready

theorem decode_run (scale : SwsScale π) (hready : d.Ready) (pkt size : Nat)
    (p : PushedNalu π) :
    ffmpeg.run (d.owned [(pkt, some size)]) (d.decode scale (some pkt) p).2 =
      some ((d.decode scale (some pkt) p).1.owned [(pkt, some size)]) := by
  obtain ⟨ctx, hctx⟩ := hready.ctx
  have hsend : ffmpeg.call (d.owned [(pkt, some size)]) (.sendPacket d.ctx (some pkt)) =
      some (d.owned [(pkt, some size)]) := by
    simp [ffmpeg, FfmpegObjects.call, FfmpegObjects.pointsTo, owned, hctx]
  unfold decode
  split
  · have hm := decodeFrame_manages scale [(pkt, some size)]
    have hloop := hm.run_perform p.frames hready
    rw [if_pos (List.all_eq_true.mpr fun _ _ => rfl)] at hloop
    obtain ⟨ctx', hctx'⟩ := (hm.perform_keeps p.frames hready).ctx
    obtain ⟨frame', hframe'⟩ := (hm.perform_keeps p.frames hready).frame
    dsimp only
    rw [List.cons_append, Api.run_cons, hsend, Option.bind_some, Api.run_append, hloop,
      Option.bind_some]
    simp [Api.run_cons, ffmpeg, FfmpegObjects.call, FfmpegObjects.pointsTo, owned, hctx',
      hframe']
  · rw [Api.run_cons, hsend]
    rfl

/-- The packet is made, and filled if it has room. -/
theorem openPacket_run (d : LiveDecoder) (pkt size : Nat) (fits : Bool) :
    ffmpeg.run (d.owned []) [.allocPacket pkt, .newPacket (some pkt) size fits,
        .fillPacket (some pkt) size] =
      if fits then some (d.owned [(pkt, some size)]) else none := by
  cases fits <;>
    simp [Api.run_cons, ffmpeg, FfmpegObjects.call, FfmpegObjects.pointsTo, owned]

theorem freePacket_run (d : LiveDecoder) (pkt size : Nat) :
    ffmpeg.run (d.owned [(pkt, some size)]) [.freePacket pkt] = some (d.owned []) := by
  simp [Api.run_cons, ffmpeg, FfmpegObjects.call, FfmpegObjects.pointsTo, owned]

theorem Ready.next (hready : d.Ready) :
    ({ d with nextObject := d.nextObject + 1 } : LiveDecoder).Ready :=
  ⟨hready.ctx, hready.frame, hready.sws, hready.current⟩

/-- **One NALU.** -/
theorem pushNalu_manages (scale : SwsScale π) :
    ffmpeg.Manages Ready (owned []) (pushNalu scale) PushedNalu.hasRoom where
  keeps := fun hready p => decode_ready scale hready.next _ p
  calls := fun {d} hready p => by
    cases hallocates : p.allocates with
    | false =>
        -- `av_new_packet` gets the null pointer
        simp [pushNalu, Api.run_cons, ffmpeg, FfmpegObjects.call, FfmpegObjects.pointsTo,
          PushedNalu.hasRoom, hallocates]
    | true =>
        have hcalls : (pushNalu scale d p).2 =
            [.allocPacket d.nextObject, .newPacket (some d.nextObject) p.size p.fits,
              .fillPacket (some d.nextObject) p.size] ++
            (decode scale { d with nextObject := d.nextObject + 1 } (some d.nextObject) p).2 ++
              [.freePacket d.nextObject] := by
          simp [pushNalu, hallocates]
        have hend : (pushNalu scale d p).1 =
            (decode scale { d with nextObject := d.nextObject + 1 } (some d.nextObject) p).1 := by
          simp [pushNalu, hallocates]
        rw [hcalls, hend, Api.run_append, Api.run_append, openPacket_run, PushedNalu.hasRoom,
          hallocates, Bool.true_and]
        cases p.fits with
        | false => rfl
        | true =>
            have hrun := decode_run scale hready.next d.nextObject p.size p
            rw [if_pos rfl, if_pos rfl, Option.bind_some]
            exact (congrArg (Option.bind · _) hrun).trans (freePacket_run _ _ _)

/-- What the destructor frees is all that is left. -/
theorem destroy_run (hready : d.Ready) : ffmpeg.run (d.owned []) d.destroy = some {} := by
  obtain ⟨ctx, hctx⟩ := hready.ctx
  obtain ⟨frame, hframe⟩ := hready.frame
  rw [destroy, List.append_assoc, Api.run_append, freeScaler_run [] hready, hctx, hframe]
  simp [Api.run_cons, ffmpeg, FfmpegObjects.call, FfmpegObjects.pointsTo, owned, hctx, hframe]

/-- **The life of a decoder.**  Whatever FFmpeg answers, whatever frames the codec
delivers and whatever it is set to: if the decoder cannot be initialised, or every packet
has been made and has room, its calls are in order and none of its objects is left at the
end; otherwise it makes a call that must not be made. -/
theorem decoder_life (scale : SwsScale π) (width height : Int32) (ans : InitAnswers)
    (onFrame : Bool) (nalus : List (PushedNalu π)) :
    ffmpeg.run {} (life scale width height ans onFrame nalus) =
      if (init width height ans).2.2 = false ∨ nalus.all PushedNalu.hasRoom = true then some {}
      else none := by
  obtain ⟨found, allocatesContext, opens, allocatesFrame⟩ := ans
  cases found with
  | false => rfl
  | true =>
  cases allocatesContext with
  | false => rfl
  | true =>
  cases opens with
  | false => rfl
  | true =>
  cases allocatesFrame with
  | false => rfl
  | true =>
      let d : LiveDecoder :=
        { members := { VideoDecoder.init width height with onFrame := onFrame }
          ctx := some 0, frame := some 1, nextObject := 2 }
      have hready : d.Ready := ⟨⟨0, rfl⟩, ⟨1, rfl⟩, rfl, fun _ ha => by cases ha⟩
      have hlife : life scale width height {} onFrame nalus =
          [.allocContext 0, .openContext 0 true, .allocFrame 1] ++
            (Api.perform (pushNalu scale) d nalus).2 ++
            (Api.perform (pushNalu scale) d nalus).1.destroy := rfl
      have hinit : ffmpeg.run {} [.allocContext 0, .openContext 0 true, .allocFrame 1] =
          some (d.owned []) := rfl
      have hm := pushNalu_manages scale
      rw [hlife, Api.run_append, Api.run_append, hinit, Option.bind_some,
        hm.run_perform nalus hready]
      cases nalus.all PushedNalu.hasRoom with
      | false => rfl
      | true => exact destroy_run (hm.perform_keeps nalus hready)

end LiveDecoder

end Iriseus.Core
