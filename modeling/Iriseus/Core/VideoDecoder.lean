import Iriseus.Verified.Doubles
import Iriseus.Verified.Machine
import Iriseus.Verified.Raster

/-!
# The video decoder: from decoded frames to the canvas

`VideoDecoder` shows frames of any size on a canvas of fixed size, scaled with
their aspect ratio and between black bars.  One buffer is used for all frames
and flipped in place; the scaler's context is kept until the size or the format
of the frames changes.

The codec delivers any sequence of frames, and the settings may change between
them.  `sws_getContext` may fail; `sws_scale` is a parameter: a function from a
context and a frame to the pixels of the scaled picture, which are written from
an origin with a stride.  The buffer is counted in the pixels of `Pixel24`: every
address the code forms is a multiple of their three bytes.

## Main results

* `fit_fits` — the scaled rectangle lies in the canvas, whatever the rounding.
* `frames_show_current` — what every emitted frame shows.
-/

namespace Iriseus.Core

open Iriseus.Verified
open Iriseus.Verified.Doubles
open Iriseus.Verified.Machine
open Iriseus.Verified.Raster

/-! ## The decoder -/

/-- A pixel of the canvas (BGR24). -/
structure Pixel24 where
  b : UInt8
  g : UInt8
  r : UInt8
  deriving DecidableEq, Repr

def black : Pixel24 := { b := 0, g := 0, r := 0 }

/-- A decoded frame; its picture is what `data` and `linesize` lead to. -/
structure AVFrame (π : Type) where
  width : Int32
  height : Int32
  format : Int32
  picture : π
  deriving DecidableEq, Repr

/-- A scaler with the arguments `sws_getContext` was called with; it scales
bilinearly to BGR24. -/
structure SwsContext where
  srcWidth : Int32
  srcHeight : Int32
  srcFormat : Int32
  dstWidth : Nat
  dstHeight : Nat
  deriving DecidableEq, Repr

/-- `created` says whether the call succeeds. -/
def swsGetContext (created : Bool) (srcWidth srcHeight srcFormat : Int32)
    (dstWidth dstHeight : Nat) : Option SwsContext :=
  if created then
    some
      { srcWidth := srcWidth
        srcHeight := srcHeight
        srcFormat := srcFormat
        dstWidth := dstWidth
        dstHeight := dstHeight }
  else none

/-- The pixels of the scaled picture, by column and row. -/
abbrev SwsScale (π : Type) := SwsContext → AVFrame π → Nat → Nat → Pixel24

/-- Where the scaled picture is shown. -/
structure ScaledRect where
  scaledWidth : Nat
  scaledHeight : Nat
  offsetX : Nat
  offsetY : Nat
  deriving DecidableEq, Repr

def ScaledRect.area (r : ScaledRect) : Area where
  left := r.offsetX
  top := r.offsetY
  width := r.scaledWidth
  height := r.scaledHeight

/-- `n & ~1` -/
def clearLowBit (n : Nat) : Nat := n / 2 * 2

/-- The rectangle for a size of the source, between bars above and below or at
the sides; the conversions from `int` to `double` are exact. -/
def fit (targetWidth targetHeight : Nat) (srcWidth srcHeight : Int32) : ScaledRect :=
  let srcAspect := toDouble (srcWidth.toInt / srcHeight.toInt : ℚ)
  let targetAspect := toDouble (targetWidth / targetHeight : ℚ)
  if targetAspect < srcAspect then
    let scaledHeight := clearLowBit ⌊toDouble (targetWidth / srcAspect)⌋₊
    let scaledHeight := if scaledHeight < 2 then 2 else scaledHeight
    { scaledWidth := targetWidth
      scaledHeight := scaledHeight
      offsetX := 0
      offsetY := clearLowBit ((targetHeight - scaledHeight) / 2) }
  else
    let scaledWidth := clearLowBit ⌊toDouble (targetHeight * srcAspect)⌋₊
    let scaledWidth := if scaledWidth < 2 then 2 else scaledWidth
    { scaledWidth := scaledWidth
      scaledHeight := targetHeight
      offsetX := clearLowBit ((targetWidth - scaledWidth) / 2)
      offsetY := 0 }

/-- The decoder's members but those of the codec; `onFrame` says whether a
callback is set. -/
structure VideoDecoder extends ScaledRect where
  targetWidth : Nat
  targetHeight : Nat
  srcWidth : Int32
  srcHeight : Int32
  lastFormat : Int32
  sws : Option SwsContext
  flipHorizontal : Bool
  onFrame : Bool
  rgbBuffer : Array Pixel24
  deriving DecidableEq, Repr

/-- What can be observed of the decoder: the frames it scales, with which
context, and the buffers it passes on. -/
inductive DecoderEvent (π : Type) where
  | swsScale (ctx : SwsContext) (frame : AVFrame π)
  | onFrame (rgb : Array Pixel24) (width height : Nat)
  deriving DecidableEq, Repr

namespace VideoDecoder

/-- A decoder that has been constructed, and for which `init` has succeeded. -/
def init (targetWidth targetHeight : Int32) : VideoDecoder :=
  let targetWidth := if 0 < targetWidth then targetWidth.toInt.toNat else 1920
  let targetHeight := if 0 < targetHeight then targetHeight.toInt.toNat else 1080
  { targetWidth := targetWidth
    targetHeight := targetHeight
    srcWidth := 0
    srcHeight := 0
    scaledWidth := 0
    scaledHeight := 0
    offsetX := 0
    offsetY := 0
    lastFormat := -1
    sws := none
    flipHorizontal := true
    onFrame := false
    rgbBuffer := Array.replicate (targetWidth * targetHeight) black }

/-- The loop of `decode`, before the conversion: a new size or format.
`created` says whether `sws_getContext` succeeds. -/
def adapt {π : Type} (d : VideoDecoder) (frame : AVFrame π) (created : Bool) :
    VideoDecoder :=
  if frame.width ≠ d.srcWidth ∨ frame.height ≠ d.srcHeight ∨ frame.format ≠ d.lastFormat then
    let d := { d with
      srcWidth := frame.width
      srcHeight := frame.height
      lastFormat := frame.format }
    if 0 < d.srcWidth ∧ 0 < d.srcHeight then
      let r := fit d.targetWidth d.targetHeight d.srcWidth d.srcHeight
      { d with
        toScaledRect := r
        sws := swsGetContext created d.srcWidth d.srcHeight d.lastFormat r.scaledWidth
          r.scaledHeight
        rgbBuffer := Array.replicate d.rgbBuffer.size black }
    else d
  else d

/-- `convertToRgb`: clear the buffer if there are bars, scale the frame into it,
flip it, and pass it on. -/
def convertToRgb {π : Type} (scale : SwsScale π) (d : VideoDecoder) (frame : AVFrame π) :
    VideoDecoder × List (DecoderEvent π) :=
  match d.sws with
  | none => (d, [])
  | some ctx =>
      if d.onFrame = false ∨ d.srcWidth ≤ 0 ∨ d.srcHeight ≤ 0 then (d, [])
      else
        let cleared :=
          if d.scaledWidth < d.targetWidth ∨ d.scaledHeight < d.targetHeight then
            Array.replicate d.rgbBuffer.size black
          else d.rgbBuffer
        let scaled := blit cleared (d.offsetY * d.targetWidth + d.offsetX) d.targetWidth
          ctx.dstWidth ctx.dstHeight (scale ctx frame)
        let flipped :=
          if d.flipHorizontal then
            mirrorRows scaled d.targetWidth d.toScaledRect.area d.scaledHeight
          else scaled
        ({ d with rgbBuffer := flipped },
          [.swsScale ctx frame, .onFrame flipped d.targetWidth d.targetHeight])

end VideoDecoder

/-- The codec delivers a frame, or a setting changes. -/
inductive DecoderLabel (π : Type) where
  | receiveFrame (frame : AVFrame π) (created : Bool)
  | setFlipHorizontal (flip : Bool)
  | setOnFrame (set : Bool)
  deriving DecidableEq, Repr

/-- The decoder after `init`, with any frames and settings. -/
def decoderMachine {π : Type} (scale : SwsScale π) (targetWidth targetHeight : Int32) :
    Machine VideoDecoder (DecoderLabel π) (DecoderEvent π) where
  Init d := d = .init targetWidth targetHeight
  step d a :=
    match a with
    | .receiveFrame frame created => some ((d.adapt frame created).convertToRgb scale frame)
    | .setFlipHorizontal flip => some ({ d with flipHorizontal := flip }, [])
    | .setOnFrame set => some ({ d with onFrame := set }, [])

/-! ## The rectangle -/

/-- A canvas of at least two by two pixels whose size in bytes is an `int`. -/
structure Canvas (width height : Nat) : Prop where
  two_le_width : 2 ≤ width
  two_le_height : 2 ≤ height
  bytes_lt : width * height * 3 < 2 ^ 31

example : Canvas 1920 1080 := ⟨by decide, by decide, by decide⟩

theorem Canvas.width_lt {width height : Nat} (h : Canvas width height) : width < 2 ^ 31 := by
  have hheight := h.two_le_height
  have hbytes := h.bytes_lt
  have hle : width * 1 ≤ width * height := Nat.mul_le_mul_left width (by omega)
  omega

theorem Canvas.height_lt {width height : Nat} (h : Canvas width height) :
    height < 2 ^ 31 := by
  have hwidth := h.two_le_width
  have hbytes := h.bytes_lt
  have hle : 1 * height ≤ width * height := Nat.mul_le_mul_right height (by omega)
  omega

theorem clearLowBit_le (n : Nat) : clearLowBit n ≤ n := Nat.div_mul_le_self n 2

/-- The quotient of two positive numbers of the size of an `int`. -/
theorem quotient_bounds {a b : ℚ} (ha : 1 ≤ a) (ha' : a ≤ 2 ^ 31) (hb : 1 ≤ b)
    (hb' : b ≤ 2 ^ 31) : 1 / 2 ^ 31 ≤ a / b ∧ a / b ≤ 2 ^ 31 := by
  constructor
  · rw [div_le_div_iff₀ (by positivity) (by linarith)]
    linarith
  · rw [div_le_iff₀ (by linarith)]
    linarith

/-- The aspect ratio of a source, as the code computes it. -/
theorem srcAspect_bounds {srcWidth srcHeight : Int32} (hwidth : 0 < srcWidth)
    (hheight : 0 < srcHeight) :
    1 / 2 ^ 32 ≤ toDouble (srcWidth.toInt / srcHeight.toInt : ℚ) ∧
      toDouble (srcWidth.toInt / srcHeight.toInt : ℚ) ≤ 2 ^ 32 := by
  have hint : ∀ n : Int32, 0 < n → (1 : ℚ) ≤ n.toInt ∧ (n.toInt : ℚ) ≤ 2 ^ 31 := by
    intro n hn
    have hpos : 0 < n.toInt := Int32.lt_iff_toInt_lt.mp hn
    have hlt := n.toInt_lt
    constructor
    · exact_mod_cast hpos
    · exact_mod_cast hlt.le
  obtain ⟨hw, hw'⟩ := hint srcWidth hwidth
  obtain ⟨hh, hh'⟩ := hint srcHeight hheight
  obtain ⟨hlow, hhigh⟩ := quotient_bounds hw hw' hh hh'
  have hnormal := normal_of_le (le_trans (by norm_num) hlow)
  constructor
  · refine le_trans ?_ (le_toDouble hnormal)
    linarith
  · refine le_trans (toDouble_le hnormal) ?_
    linarith

section Bars

variable {targetWidth targetHeight : Nat} {srcAspect : ℚ}

theorem Canvas.aspect_normal (hc : Canvas targetWidth targetHeight) :
    (2 : ℚ) ^ (-1022 : ℤ) ≤ (targetWidth / targetHeight : ℚ) := by
  have hw := hc.two_le_width
  have hh := hc.two_le_height
  have hw' := hc.width_lt
  have hh' := hc.height_lt
  have hlow := (quotient_bounds (a := (targetWidth : ℚ)) (b := (targetHeight : ℚ))
    (by exact_mod_cast (by omega : 1 ≤ targetWidth)) (by exact_mod_cast hw'.le)
    (by exact_mod_cast (by omega : 1 ≤ targetHeight)) (by exact_mod_cast hh'.le)).1
  exact normal_of_le (le_trans (by norm_num) hlow)

/-- A wider picture, scaled to the canvas's width, is not higher than it. -/
theorem letterbox_le (hc : Canvas targetWidth targetHeight)
    (hwider : toDouble (targetWidth / targetHeight : ℚ) < srcAspect)
    (hmax : srcAspect ≤ 2 ^ 32) : ⌊toDouble (targetWidth / srcAspect)⌋₊ ≤ targetHeight := by
  have hw : (2 : ℚ) ≤ targetWidth := by exact_mod_cast hc.two_le_width
  have hh : (2 : ℚ) ≤ targetHeight := by exact_mod_cast hc.two_le_height
  have hbelow := le_toDouble hc.aspect_normal
  have hpos : 0 < srcAspect := lt_of_le_of_lt (toDouble_nonneg (by positivity)) hwider
  refine floor_toDouble_le hc.height_lt (normal_of_le ?_) ?_
  · rw [div_le_div_iff₀ (by positivity) hpos]
    linarith
  · rw [div_le_iff₀ hpos]
    have hratio : (targetHeight : ℚ) * (targetWidth / targetHeight) = targetWidth :=
      mul_div_cancel₀ _ (by linarith)
    calc (targetWidth : ℚ)
        ≤ targetWidth * ((1 - 1 / 2 ^ 53) * (1 + 1 / 2 ^ 52)) := by
          have hone : (1 : ℚ) ≤ (1 - 1 / 2 ^ 53) * (1 + 1 / 2 ^ 52) := by norm_num
          exact le_mul_of_one_le_right (by linarith) hone
      _ = targetHeight * (targetWidth / targetHeight) *
            ((1 - 1 / 2 ^ 53) * (1 + 1 / 2 ^ 52)) := by rw [hratio]
      _ = targetHeight * (1 + 1 / 2 ^ 52) *
            (targetWidth / targetHeight * (1 - 1 / 2 ^ 53)) := by ring
      _ ≤ targetHeight * (1 + 1 / 2 ^ 52) * srcAspect := by
          gcongr
          exact le_trans hbelow hwider.le

/-- A higher picture, scaled to the canvas's height, is not wider than it. -/
theorem pillarbox_le (hc : Canvas targetWidth targetHeight)
    (hhigher : srcAspect ≤ toDouble (targetWidth / targetHeight : ℚ))
    (hmin : 1 / 2 ^ 32 ≤ srcAspect) : ⌊toDouble (targetHeight * srcAspect)⌋₊ ≤ targetWidth := by
  have hw : (2 : ℚ) ≤ targetWidth := by exact_mod_cast hc.two_le_width
  have hh : (2 : ℚ) ≤ targetHeight := by exact_mod_cast hc.two_le_height
  have habove := toDouble_le hc.aspect_normal
  have hpos : 0 < srcAspect := lt_of_lt_of_le (by positivity) hmin
  refine floor_toDouble_le hc.width_lt (normal_of_le ?_) ?_
  · calc (1 : ℚ) / 2 ^ 64 ≤ 1 * (1 / 2 ^ 32) := by norm_num
      _ ≤ targetHeight * srcAspect := by gcongr; linarith
  · have hratio : (targetHeight : ℚ) * (targetWidth / targetHeight) = targetWidth :=
      mul_div_cancel₀ _ (by linarith)
    calc (targetHeight : ℚ) * srcAspect
        ≤ targetHeight * (targetWidth / targetHeight * (1 + 1 / 2 ^ 53)) := by
          gcongr
          exact le_trans hhigher habove
      _ = targetWidth * (1 + 1 / 2 ^ 53) := by rw [← mul_assoc, hratio]
      _ ≤ targetWidth * (1 + 1 / 2 ^ 52) := by
          gcongr
          · norm_num
          · norm_num

/-- **The rectangle lies in the canvas**, whatever the size of the source, and
is not empty. -/
theorem fit_fits (hc : Canvas targetWidth targetHeight) {srcWidth srcHeight : Int32}
    (hwidth : 0 < srcWidth) (hheight : 0 < srcHeight) :
    (fit targetWidth targetHeight srcWidth srcHeight).area.Fits targetWidth targetHeight := by
  obtain ⟨hmin, hmax⟩ := srcAspect_bounds hwidth hheight
  have hw := hc.two_le_width
  have hh := hc.two_le_height
  unfold fit
  simp only
  generalize toDouble (srcWidth.toInt / srcHeight.toInt : ℚ) = srcAspect at hmin hmax ⊢
  split
  · rename_i hwider
    have hle := letterbox_le hc hwider hmax
    have heven := clearLowBit_le ⌊toDouble (targetWidth / srcAspect)⌋₊
    generalize clearLowBit ⌊toDouble (targetWidth / srcAspect)⌋₊ = even at heven ⊢
    have hscaled : (if even < 2 then 2 else even) ≤ targetHeight := by split <;> omega
    generalize (if even < 2 then 2 else even) = scaledHeight at hscaled ⊢
    have hoffset := clearLowBit_le ((targetHeight - scaledHeight) / 2)
    exact ⟨(Nat.zero_add _).le, by simp only [ScaledRect.area]; omega⟩
  · rename_i hhigher
    have hle := pillarbox_le hc (not_lt.mp hhigher) hmin
    have heven := clearLowBit_le ⌊toDouble (targetHeight * srcAspect)⌋₊
    generalize clearLowBit ⌊toDouble (targetHeight * srcAspect)⌋₊ = even at heven ⊢
    have hscaled : (if even < 2 then 2 else even) ≤ targetWidth := by split <;> omega
    generalize (if even < 2 then 2 else even) = scaledWidth at hscaled ⊢
    have hoffset := clearLowBit_le ((targetWidth - scaledWidth) / 2)
    exact ⟨by simp only [ScaledRect.area]; omega, (Nat.zero_add _).le⟩

end Bars

/-! ## What a frame shows -/

/-- The context for frames of a size and format. -/
def contextFor (targetWidth targetHeight : Nat) (width height format : Int32) :
    SwsContext where
  srcWidth := width
  srcHeight := height
  srcFormat := format
  dstWidth := (fit targetWidth targetHeight width height).scaledWidth
  dstHeight := (fit targetWidth targetHeight width height).scaledHeight

/-- The pixel `(x, y)` of the canvas that shows the frame: black outside the
rectangle for its size, and inside it the scaled frame, mirrored or not. -/
def shownPixel {π : Type} (scale : SwsScale π) (targetWidth targetHeight : Nat)
    (frame : AVFrame π) (flip : Bool) (x y : Nat) : Pixel24 :=
  let r := fit targetWidth targetHeight frame.width frame.height
  let column := x - r.offsetX
  if r.area.Contains x y then
    scale (contextFor targetWidth targetHeight frame.width frame.height frame.format) frame
      (if flip then r.scaledWidth - 1 - column else column) (y - r.offsetY)
  else black

/-- The buffer is the canvas that shows the frame. -/
structure Shows {π : Type} (scale : SwsScale π) (targetWidth targetHeight : Nat)
    (frame : AVFrame π) (flip : Bool) (rgb : Array Pixel24) : Prop where
  size : rgb.size = targetWidth * targetHeight
  pixel : ∀ x y, x < targetWidth → y < targetHeight →
    rgb[y * targetWidth + x]? =
      some (shownPixel scale targetWidth targetHeight frame flip x y)

/-- The decoder has its canvas; and if the last frame had a size, rectangle and
context are those for frames of that size and format. -/
structure DecoderInv (targetWidth targetHeight : Nat) (d : VideoDecoder) : Prop where
  width : d.targetWidth = targetWidth
  height : d.targetHeight = targetHeight
  size : d.rgbBuffer.size = targetWidth * targetHeight
  rect : 0 < d.srcWidth → 0 < d.srcHeight →
    d.toScaledRect = fit targetWidth targetHeight d.srcWidth d.srcHeight
  context : 0 < d.srcWidth → 0 < d.srcHeight → ∀ ctx, d.sws = some ctx →
    ctx = contextFor targetWidth targetHeight d.srcWidth d.srcHeight d.lastFormat

section Frames

variable {π : Type} {scale : SwsScale π} {targetWidth targetHeight : Nat} {d : VideoDecoder}
variable {frame : AVFrame π}

/-- `init` gives a decoder with an empty canvas. -/
theorem decoderInv_init (targetWidth targetHeight : Int32) :
    DecoderInv (VideoDecoder.init targetWidth targetHeight).targetWidth
      (VideoDecoder.init targetWidth targetHeight).targetHeight
      (.init targetWidth targetHeight) where
  width := rfl
  height := rfl
  size := Array.size_replicate
  rect := fun hpos => (Int32.lt_irrefl hpos).elim
  context := fun hpos => (Int32.lt_irrefl hpos).elim

/-- After `adapt` the members are those for the frame, and the settings are as
before. -/
theorem adapt_spec (hinv : DecoderInv targetWidth targetHeight d) (frame : AVFrame π)
    (created : Bool) :
    DecoderInv targetWidth targetHeight (d.adapt frame created) ∧
      (d.adapt frame created).srcWidth = frame.width ∧
      (d.adapt frame created).srcHeight = frame.height ∧
      (d.adapt frame created).lastFormat = frame.format ∧
      (d.adapt frame created).flipHorizontal = d.flipHorizontal := by
  obtain ⟨rfl, rfl, hsize, hrect, hcontext⟩ := hinv
  unfold VideoDecoder.adapt
  split
  · dsimp only
    split
    · -- a new size or format
      refine ⟨⟨rfl, rfl, ?_, fun _ _ => rfl, fun _ _ ctx hctx => ?_⟩, rfl, rfl, rfl, rfl⟩
      · simpa using hsize
      · simp only [swsGetContext, Option.ite_none_right_eq_some, Option.some.injEq] at hctx
        exact hctx.2.symm
    · -- an empty frame
      rename_i hempty
      exact ⟨⟨rfl, rfl, hsize, fun hw hh => absurd ⟨hw, hh⟩ hempty,
        fun hw hh => absurd ⟨hw, hh⟩ hempty⟩, rfl, rfl, rfl, rfl⟩
  · rename_i hsame
    simp only [not_or, not_not] at hsame
    obtain ⟨hw, hh, hf⟩ := hsame
    exact ⟨⟨rfl, rfl, hsize, hrect, hcontext⟩, hw.symm, hh.symm, hf.symm, rfl⟩

/-- A rectangle that fits and is as large as the canvas is all of it. -/
theorem contains_of_full {r : Area} (hfits : r.Fits targetWidth targetHeight)
    (hwidth : targetWidth ≤ r.width) (hheight : targetHeight ≤ r.height) {x y : Nat}
    (hx : x < targetWidth) (hy : y < targetHeight) : r.Contains x y := by
  have hright := hfits.right_le
  have hbottom := hfits.bottom_le
  exact ⟨by omega, by omega, by omega, by omega⟩

/-- The scaled picture in a buffer that is black around it. -/
theorem getElem?_scaled {rgb : Array Pixel24} {r : ScaledRect}
    (hfits : r.area.Fits targetWidth targetHeight)
    (hsize : rgb.size = targetWidth * targetHeight)
    (hblack : r.scaledWidth < targetWidth ∨ r.scaledHeight < targetHeight →
      rgb = Array.replicate (targetWidth * targetHeight) black)
    (f : Nat → Nat → Pixel24) {x y : Nat} (hx : x < targetWidth) (hy : y < targetHeight) :
    (blit rgb (r.offsetY * targetWidth + r.offsetX) targetWidth r.scaledWidth r.scaledHeight
        f)[y * targetWidth + x]? =
      some (if r.area.Contains x y then f (x - r.offsetX) (y - r.offsetY) else black) := by
  have hblit : (blit rgb (r.offsetY * targetWidth + r.offsetX) targetWidth r.scaledWidth
      r.scaledHeight f)[y * targetWidth + x]? =
      if r.area.Contains x y then some (f (x - r.offsetX) (y - r.offsetY))
      else rgb[y * targetWidth + x]? := getElem?_blit hfits hsize hx hy f
  rw [hblit]
  by_cases hin : r.area.Contains x y
  · rw [if_pos hin, if_pos hin]
  · have hbars : r.scaledWidth < targetWidth ∨ r.scaledHeight < targetHeight := by
      by_contra hfull
      simp only [not_or, not_lt] at hfull
      exact hin (contains_of_full hfits hfull.1 hfull.2 hx hy)
    rw [if_neg hin, if_neg hin, hblack hbars, Array.getElem?_replicate,
      if_pos (index_lt hx hy)]

/-- The picture in a buffer that is black around it, mirrored in place if asked
for, is what the frame is to show. -/
theorem shows_frame (scale : SwsScale π) {rgb : Array Pixel24} {r : ScaledRect}
    {ctx : SwsContext}
    (hrect : r = fit targetWidth targetHeight frame.width frame.height)
    (hctx : ctx = contextFor targetWidth targetHeight frame.width frame.height frame.format)
    (hfits : r.area.Fits targetWidth targetHeight)
    (hsize : rgb.size = targetWidth * targetHeight)
    (hblack : r.scaledWidth < targetWidth ∨ r.scaledHeight < targetHeight →
      rgb = Array.replicate (targetWidth * targetHeight) black) (flip : Bool) :
    let scaled := blit rgb (r.offsetY * targetWidth + r.offsetX) targetWidth ctx.dstWidth
      ctx.dstHeight (scale ctx frame)
    Shows scale targetWidth targetHeight frame flip
      (if flip then mirrorRows scaled targetWidth r.area r.scaledHeight else scaled) := by
  intro scaled
  have hdst : ctx.dstWidth = r.scaledWidth ∧ ctx.dstHeight = r.scaledHeight := by
    rw [hctx, hrect]
    exact ⟨rfl, rfl⟩
  have hscaled : ∀ x y, x < targetWidth → y < targetHeight →
      scaled[y * targetWidth + x]? =
        some (if r.area.Contains x y then scale ctx frame (x - r.offsetX) (y - r.offsetY)
          else black) := by
    intro x y hx hy
    simp only [scaled, hdst]
    exact getElem?_scaled hfits hsize hblack (scale ctx frame) hx hy
  have hsize' : scaled.size = targetWidth * targetHeight := (size_blit ..).trans hsize
  clear_value scaled
  cases flip with
  | false =>
      refine ⟨by simpa using hsize', fun x y hx hy => ?_⟩
      simp only [shownPixel, Bool.false_eq_true, if_false, ← hrect, ← hctx]
      exact hscaled x y hx hy
  | true =>
      refine ⟨by simpa using hsize', fun x y hx hy => ?_⟩
      have hmirror := getElem?_mirrorRows (y := y) hfits hsize' hx
      simp only [shownPixel, if_true, ← hrect, ← hctx]
      rw [show r.scaledHeight = r.area.height from rfl, hmirror]
      by_cases hin : r.area.Contains x y
      · -- the pixel comes from the other end of its row
        have hright := hfits.right_le
        obtain ⟨hleft, hlt, htop, hbottom⟩ := id hin
        simp only [ScaledRect.area] at hleft hlt htop hbottom hright
        have hx' : r.offsetX + (r.scaledWidth - 1 - (x - r.offsetX)) < targetWidth := by omega
        have hin' : r.area.Contains (r.offsetX + (r.scaledWidth - 1 - (x - r.offsetX))) y := by
          refine ⟨?_, ?_, htop, hbottom⟩ <;> simp only [ScaledRect.area] <;> omega
        have hother := hscaled _ y hx' hy
        rw [if_pos hin', Nat.add_sub_cancel_left] at hother
        rw [if_pos hin, if_pos hin]
        exact hother
      · rw [if_neg hin, if_neg hin, hscaled x y hx hy, if_neg hin]

/-- **The conversion of one frame.**  Nothing of what was in the buffer is left in
what it passes on. -/
theorem convertToRgb_shows (scale : SwsScale π) (hc : Canvas targetWidth targetHeight)
    (hinv : DecoderInv targetWidth targetHeight d) (hwidth : d.srcWidth = frame.width)
    (hheight : d.srcHeight = frame.height) (hformat : d.lastFormat = frame.format) :
    DecoderInv targetWidth targetHeight (d.convertToRgb scale frame).1 ∧
      ((d.convertToRgb scale frame).2 = [] ∨
        0 < frame.width ∧ 0 < frame.height ∧
        ∃ rgb, Shows scale targetWidth targetHeight frame d.flipHorizontal rgb ∧
          (d.convertToRgb scale frame).2 =
            [.swsScale (contextFor targetWidth targetHeight frame.width frame.height
              frame.format) frame, .onFrame rgb targetWidth targetHeight]) := by
  unfold VideoDecoder.convertToRgb
  split
  · exact ⟨hinv, Or.inl rfl⟩
  · rename_i ctx hctx
    split
    · exact ⟨hinv, Or.inl rfl⟩
    · rename_i hready
      simp only [not_or, Int32.not_le] at hready
      obtain ⟨-, hw, hh⟩ := hready
      have hrect := hinv.rect hw hh
      have hcontext := hinv.context hw hh ctx hctx
      obtain ⟨rfl, rfl, hsize, hkept, hkept'⟩ := hinv
      rw [hwidth, hheight, hformat] at hcontext
      rw [hwidth, hheight] at hrect
      rw [hwidth] at hw
      rw [hheight] at hh
      have hfits := fit_fits hc hw hh
      rw [← hrect] at hfits
      let cleared :=
        if d.scaledWidth < d.targetWidth ∨ d.scaledHeight < d.targetHeight then
          Array.replicate d.rgbBuffer.size black
        else d.rgbBuffer
      have hcleared : cleared.size = d.targetWidth * d.targetHeight := by
        simp only [cleared]
        split
        · rw [Array.size_replicate, hsize]
        · exact hsize
      have hblack : d.scaledWidth < d.targetWidth ∨ d.scaledHeight < d.targetHeight →
          cleared = Array.replicate (d.targetWidth * d.targetHeight) black := by
        intro hbars
        simp only [cleared, if_pos hbars, hsize]
      have hshows := shows_frame scale hrect hcontext hfits hcleared hblack d.flipHorizontal
      refine ⟨⟨rfl, rfl, hshows.size, hkept, hkept'⟩,
        Or.inr ⟨hw, hh, _, hshows, ?_⟩⟩
      rw [← hcontext]

/-- **The decoder keeps its canvas**, and rectangle and context up to date. -/
theorem decoder_reach {width height : Int32}
    (hc : Canvas (VideoDecoder.init width height).targetWidth
      (VideoDecoder.init width height).targetHeight) {h : List (DecoderEvent π)}
    (hr : (decoderMachine scale width height).Reach anyStep d h) :
    DecoderInv (VideoDecoder.init width height).targetWidth
      (VideoDecoder.init width height).targetHeight d := by
  refine hr.invariant (fun d _ => DecoderInv _ _ d) ?_ ?_
  · rintro d rfl
    exact decoderInv_init width height
  · rintro d h a d' es hinv - hs
    cases a with
    | receiveFrame frame created =>
        obtain ⟨hadapt, hw, hh, hf, -⟩ := adapt_spec hinv frame created
        have hkept := (convertToRgb_shows scale hc hadapt hw hh hf).1
        simp only [decoderMachine, Option.some.injEq] at hs
        rwa [hs] at hkept
    | setFlipHorizontal flip =>
        simp only [decoderMachine, Option.some.injEq, Prod.mk.injEq] at hs
        obtain ⟨rfl, -⟩ := hs
        exact ⟨hinv.width, hinv.height, hinv.size, hinv.rect, hinv.context⟩
    | setOnFrame set =>
        simp only [decoderMachine, Option.some.injEq, Prod.mk.injEq] at hs
        obtain ⟨rfl, -⟩ := hs
        exact ⟨hinv.width, hinv.height, hinv.size, hinv.rect, hinv.context⟩

/-- What a step of the decoder passes on: a canvas of the fixed size that shows
the frame just received, scaled by a context for its size and format. -/
structure ShowsCurrent (scale : SwsScale π) (targetWidth targetHeight : Nat)
    (frame : AVFrame π) (flip : Bool) (es : List (DecoderEvent π)) : Prop where
  canvas : ∀ rgb width height, .onFrame rgb width height ∈ es →
    width = targetWidth ∧ height = targetHeight ∧
      Shows scale targetWidth targetHeight frame flip rgb
  fits : (fit targetWidth targetHeight frame.width frame.height).area.Fits targetWidth
    targetHeight
  scaler : ∀ ctx frame', .swsScale ctx frame' ∈ es → frame' = frame ∧
    ctx.srcWidth = frame.width ∧ ctx.srcHeight = frame.height ∧ ctx.srcFormat = frame.format

/-- **Every emitted frame shows only the current picture**, for every sequence of
frames and settings. -/
theorem frames_show_current {width height : Int32}
    (hc : Canvas (VideoDecoder.init width height).targetWidth
      (VideoDecoder.init width height).targetHeight) {h : List (DecoderEvent π)}
    (hr : (decoderMachine scale width height).Reach anyStep d h) {a : DecoderLabel π}
    {d' : VideoDecoder} {es : List (DecoderEvent π)}
    (hs : (decoderMachine scale width height).step d a = some (d', es)) (hemits : es ≠ []) :
    ∃ frame created, a = .receiveFrame frame created ∧
      ShowsCurrent scale (VideoDecoder.init width height).targetWidth
        (VideoDecoder.init width height).targetHeight frame d.flipHorizontal es := by
  have hinv := decoder_reach hc hr
  cases a with
  | receiveFrame frame created =>
      obtain ⟨hadapt, hw, hh, hf, hflip⟩ := adapt_spec hinv frame created
      have hemitted := (convertToRgb_shows scale hc hadapt hw hh hf).2
      simp only [decoderMachine, Option.some.injEq] at hs
      rw [hs, hflip] at hemitted
      rcases hemitted with hnone | ⟨hwidth, hheight, rgb, hshows, rfl⟩
      · exact absurd hnone hemits
      · refine ⟨frame, created, rfl, ⟨?_, fit_fits hc hwidth hheight, ?_⟩⟩
        · intro rgb' width' height' hmem
          simp only [List.mem_cons, List.not_mem_nil, or_false, reduceCtorEq, false_or,
            DecoderEvent.onFrame.injEq] at hmem
          obtain ⟨rfl, rfl, rfl⟩ := hmem
          exact ⟨rfl, rfl, hshows⟩
        · intro ctx frame' hmem
          simp only [List.mem_cons, List.not_mem_nil, or_false, reduceCtorEq,
            DecoderEvent.swsScale.injEq] at hmem
          obtain ⟨rfl, rfl⟩ := hmem
          exact ⟨rfl, rfl, rfl, rfl⟩
  | setFlipHorizontal flip =>
      simp only [decoderMachine, Option.some.injEq, Prod.mk.injEq] at hs
      exact absurd hs.2.symm hemits
  | setOnFrame set =>
      simp only [decoderMachine, Option.some.injEq, Prod.mk.injEq] at hs
      exact absurd hs.2.symm hemits

end Frames

/-- A scaler that fills the picture with one value, and each pixel with its
place. -/
def sampleScale : SwsScale UInt8 := fun _ frame x y =>
  { b := frame.picture, g := UInt8.ofNat x, r := UInt8.ofNat y }

/-- A wide frame, and then one upright, on a canvas of eight by four pixels. -/
theorem frames_show_current_sample :
    ∃ (d d' : VideoDecoder) (es : List (DecoderEvent UInt8)),
      (decoderMachine sampleScale 8 4).step d
        (.receiveFrame { width := 2, height := 4, format := 0, picture := 9 } true) =
          some (d', es) ∧ (∃ rgb, .onFrame rgb 8 4 ∈ es) ∧
      ShowsCurrent sampleScale 8 4 { width := 2, height := 4, format := 0, picture := 9 }
        d.flipHorizontal es := by
  obtain ⟨d, h, hr, hh⟩ := Machine.exists_reach_of_exec (decoderMachine sampleScale 8 4)
    Machine.anyStep (rfl : VideoDecoder.init 8 4 = .init 8 4)
    [ .setOnFrame true
    , .receiveFrame { width := 4, height := 1, format := 0, picture := 7 } true ]
    (fun d _ => ((decoderMachine sampleScale 8 4).step d
      (.receiveFrame { width := 2, height := 4, format := 0, picture := 9 } true)).any
        fun (d', es) => decide (.onFrame d'.rgbBuffer 8 4 ∈ es))
    (by decide +kernel)
  simp only [Option.any_eq_true, decide_eq_true_eq] at hh
  obtain ⟨⟨d', es⟩, hs, hframe⟩ := hh
  have hc : Canvas (VideoDecoder.init 8 4).targetWidth (VideoDecoder.init 8 4).targetHeight :=
    ⟨by decide, by decide, by decide⟩
  obtain ⟨frame, created, ha, hshows⟩ :=
    frames_show_current hc hr hs (List.ne_nil_of_mem hframe)
  cases ha
  exact ⟨d, d', es, hs, ⟨_, hframe⟩, hshows⟩

end Iriseus.Core
