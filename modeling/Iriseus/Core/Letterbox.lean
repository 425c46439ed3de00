import Iriseus.Core.VideoDecoder
import Iriseus.Verified.CheckedInt
import Mathlib.Tactic.FieldSimp

/-!
# The letterbox rectangle in `int` arithmetic

`decode` places a picture between bars with divisions of doubles, truncations
and masks; `convertToRgb` computes addresses in the buffer from the rectangle.
Here both are written in the `int` arithmetic of the code, in which a value may
be negative and an operation may overflow.

The rounding of the divisions and products of doubles is a parameter: none for
exact ratios, `toDouble` for the code as it runs.

## Main results

* `letterbox_fits_canvas` — with exact ratios the rectangle fits the canvas, with
  the largest even length and even bars, and no address leaves the buffer or
  overflows.
* `fit_eq_letterbox` — the rectangle of the decoder is this one, rounded.
* `fit_addresses` — its addresses do not leave the buffer or overflow either.
-/

namespace Iriseus.Core

open Iriseus.Verified
open Iriseus.Verified.CheckedInt
open Iriseus.Verified.Doubles
open Iriseus.Verified.Raster

/-! ## The rectangle -/

/-- The members of the decoder that `decode` computes. -/
structure IntRect where
  scaledWidth : ℤ
  scaledHeight : ℤ
  offsetX : ℤ
  offsetY : ℤ
  deriving DecidableEq, Repr

/-- `static_cast<int>(x) & ~1`, and 2 if that is less. -/
def evenLength (x : ℚ) : ℤ :=
  let n := maskLowBit (truncate x)
  if n < 2 then 2 else n

/-- `((side - length) / 2) & ~1` -/
def barLength (side length : ℤ) : ℤ := maskLowBit ((side - length).tdiv 2)

/-- The branch of `decode` for a new size of the source. -/
def letterbox (round : ℚ → ℚ) (targetWidth targetHeight srcWidth srcHeight : ℤ) : IntRect :=
  let srcAspect := round (srcWidth / srcHeight)
  let targetAspect := round (targetWidth / targetHeight)
  if targetAspect < srcAspect then
    let scaledHeight := evenLength (round (targetWidth / srcAspect))
    { scaledWidth := targetWidth
      scaledHeight := scaledHeight
      offsetX := 0
      offsetY := barLength targetHeight scaledHeight }
  else
    let scaledWidth := evenLength (round (targetHeight * srcAspect))
    { scaledWidth := scaledWidth
      scaledHeight := targetHeight
      offsetX := barLength targetWidth scaledWidth
      offsetY := 0 }

example : letterbox id 1920 1080 1080 2400 =
    { scaledWidth := 486, scaledHeight := 1080, offsetX := 716, offsetY := 0 } := by
  decide +kernel

theorem two_le_evenLength (x : ℚ) : 2 ≤ evenLength x := by
  simp only [evenLength]
  split <;> omega

/-- The length does not get past a side that the exact one fits. -/
theorem evenLength_le {x : ℚ} {side : ℤ} (hx : 0 ≤ x) (hle : x ≤ side) (hside : 2 ≤ side) :
    evenLength x ≤ side := by
  have htruncate := truncate_le hx hle
  have hmask := maskLowBit_le (truncate x)
  simp only [evenLength]
  split <;> omega

/-- **The largest even length** not above the exact one, and at least 2. -/
theorem isGreatest_evenLength {x : ℚ} (hx : 0 ≤ x) :
    IsGreatest {k : ℤ | k % 2 = 0 ∧ (k : ℚ) ≤ max x 2} (evenLength x) := by
  obtain ⟨⟨heven, hle⟩, hmax⟩ := isGreatest_maskLowBit (truncate x)
  have hbelow : ∀ k : ℤ, (k : ℚ) ≤ x ↔ k ≤ truncate x := by
    intro k
    rw [truncate_of_nonneg hx, Int.le_floor]
  have htwo : ∀ k : ℤ, (k : ℚ) ≤ 2 ↔ k ≤ 2 := fun k => by norm_cast
  simp only [evenLength]
  constructor
  · change _ % 2 = 0 ∧ _ ≤ max x 2
    rw [le_max_iff, hbelow, htwo]
    split
    · exact ⟨rfl, Or.inr (le_refl 2)⟩
    · exact ⟨heven, Or.inl hle⟩
  · rintro k ⟨hk, hkle⟩
    rw [le_max_iff, hbelow, htwo] at hkle
    have hkmask : k ≤ truncate x → k ≤ maskLowBit (truncate x) := fun h => hmax ⟨hk, h⟩
    split <;> omega

/-- The bars before and after a length differ by at most 3. -/
theorem barLength_spec {side length : ℤ} (hle : length ≤ side) :
    0 ≤ barLength side length ∧ barLength side length + length ≤ side ∧
      |side - (barLength side length + length) - barLength side length| ≤ 3 := by
  unfold barLength maskLowBit
  rw [Int.tdiv_eq_ediv_of_nonneg (by omega), abs_le]
  omega

/-- No side gets shorter than 2. -/
theorem two_le_letterbox (round : ℚ → ℚ) {targetWidth targetHeight : ℤ}
    (htw : 2 ≤ targetWidth) (hth : 2 ≤ targetHeight) (srcWidth srcHeight : ℤ) :
    2 ≤ (letterbox round targetWidth targetHeight srcWidth srcHeight).scaledWidth ∧
      2 ≤ (letterbox round targetWidth targetHeight srcWidth srcHeight).scaledHeight := by
  simp only [letterbox]
  split
  · exact ⟨htw, two_le_evenLength _⟩
  · exact ⟨two_le_evenLength _, hth⟩

/-- The rectangle lies in the canvas. -/
structure InCanvas (targetWidth targetHeight : ℤ) (r : IntRect) : Prop where
  offsetX : 0 ≤ r.offsetX
  right : r.offsetX + r.scaledWidth ≤ targetWidth
  offsetY : 0 ≤ r.offsetY
  bottom : r.offsetY + r.scaledHeight ≤ targetHeight
  scaledWidth : 2 ≤ r.scaledWidth
  scaledHeight : 2 ≤ r.scaledHeight

/-- The rectangle keeps the aspect ratio of the source as well as even lengths
allow, in the middle of the canvas. -/
structure KeepsAspect (targetWidth targetHeight srcWidth srcHeight : ℤ) (r : IntRect) :
    Prop where
  /-- One side is the canvas's, the other the largest even number not above the
  length that keeps the ratio, and at least 2. -/
  sides :
    r.scaledWidth = targetWidth ∧
        IsGreatest {k : ℤ | k % 2 = 0 ∧ (k : ℚ) ≤ max (targetWidth * srcHeight / srcWidth : ℚ) 2}
          r.scaledHeight ∨
      r.scaledHeight = targetHeight ∧
        IsGreatest {k : ℤ | k % 2 = 0 ∧ (k : ℚ) ≤ max (targetHeight * srcWidth / srcHeight : ℚ) 2}
          r.scaledWidth
  besides : |targetWidth - (r.offsetX + r.scaledWidth) - r.offsetX| ≤ 3
  aboveBelow : |targetHeight - (r.offsetY + r.scaledHeight) - r.offsetY| ≤ 3

section Exact

variable {targetWidth targetHeight srcWidth srcHeight : ℤ}

/-- With exact ratios the rectangle lies in the canvas and keeps the aspect
ratio. -/
theorem letterbox_exact (htw : 2 ≤ targetWidth) (hth : 2 ≤ targetHeight)
    (hsw : 0 < srcWidth) (hsh : 0 < srcHeight) :
    InCanvas targetWidth targetHeight (letterbox id targetWidth targetHeight srcWidth srcHeight) ∧
      KeepsAspect targetWidth targetHeight srcWidth srcHeight
        (letterbox id targetWidth targetHeight srcWidth srcHeight) := by
  have htw' : (0 : ℚ) < targetWidth := by exact_mod_cast (by omega : 0 < targetWidth)
  have hth' : (0 : ℚ) < targetHeight := by exact_mod_cast (by omega : 0 < targetHeight)
  have hsw' : (0 : ℚ) < srcWidth := by exact_mod_cast hsw
  have hsh' : (0 : ℚ) < srcHeight := by exact_mod_cast hsh
  simp only [letterbox, id]
  split
  · rename_i hwider
    rw [div_lt_div_iff₀ hth' hsh'] at hwider
    have hlength : (targetWidth / (srcWidth / srcHeight) : ℚ) =
        targetWidth * srcHeight / srcWidth := div_div_eq_mul_div _ _ _
    have hnonneg : (0 : ℚ) ≤ targetWidth * srcHeight / srcWidth := by positivity
    have hfits : (targetWidth * srcHeight / srcWidth : ℚ) ≤ targetHeight := by
      rw [div_le_iff₀ hsw']
      linarith
    rw [hlength]
    have hle := evenLength_le hnonneg hfits hth
    have htwo := two_le_evenLength (targetWidth * srcHeight / srcWidth : ℚ)
    have hgreatest := isGreatest_evenLength hnonneg
    generalize evenLength (targetWidth * srcHeight / srcWidth : ℚ) = scaledHeight
      at hle htwo hgreatest ⊢
    obtain ⟨hoffset, hbottom, hbars⟩ := barLength_spec hle
    exact
      ⟨{ offsetX := le_refl 0
         right := (zero_add _).le
         offsetY := hoffset
         bottom := hbottom
         scaledWidth := htw
         scaledHeight := htwo },
        { sides := Or.inl ⟨rfl, hgreatest⟩
          besides := by simp
          aboveBelow := hbars }⟩
  · rename_i hhigher
    rw [not_lt, div_le_div_iff₀ hsh' hth'] at hhigher
    have hlength : (targetHeight * (srcWidth / srcHeight) : ℚ) =
        targetHeight * srcWidth / srcHeight := (mul_div_assoc _ _ _).symm
    have hnonneg : (0 : ℚ) ≤ targetHeight * srcWidth / srcHeight := by positivity
    have hfits : (targetHeight * srcWidth / srcHeight : ℚ) ≤ targetWidth := by
      rw [div_le_iff₀ hsh']
      linarith
    rw [hlength]
    have hle := evenLength_le hnonneg hfits htw
    have htwo := two_le_evenLength (targetHeight * srcWidth / srcHeight : ℚ)
    have hgreatest := isGreatest_evenLength hnonneg
    generalize evenLength (targetHeight * srcWidth / srcHeight : ℚ) = scaledWidth
      at hle htwo hgreatest ⊢
    obtain ⟨hoffset, hright, hbars⟩ := barLength_spec hle
    exact
      ⟨{ offsetX := hoffset
         right := hright
         offsetY := le_refl 0
         bottom := (zero_add _).le
         scaledWidth := htwo
         scaledHeight := hth },
        { sides := Or.inr ⟨rfl, hgreatest⟩
          besides := hbars
          aboveBelow := by simp }⟩

end Exact

/-! ## Addresses -/

/-- `m_targetWidth * m_targetHeight * 3` -/
def bufferSize? (targetWidth targetHeight : ℤ) : Option ℤ := do
  let pixels ← mul? targetWidth targetHeight
  mul? pixels 3

/-- `(y * m_targetWidth + x) * 3` -/
def byteOffset? (targetWidth y x : ℤ) : Option ℤ := do
  let rows ← mul? y targetWidth
  let pixel ← add? rows x
  mul? pixel 3

/-- Where `dstData[0]` starts in the buffer. -/
def rectStart? (targetWidth : ℤ) (r : IntRect) : Option ℤ :=
  byteOffset? targetWidth r.offsetY r.offsetX

/-- Where `pRow` starts. -/
def rowStart? (targetWidth : ℤ) (r : IntRect) (row : ℤ) : Option ℤ := do
  let y ← add? r.offsetY row
  byteOffset? targetWidth y r.offsetX

/-- The bytes where `pRow[x]` and `pRow[m_scaledWidth - 1 - x]` start. -/
def swapOffsets? (targetWidth : ℤ) (r : IntRect) (row x : ℤ) : Option (ℤ × ℤ) := do
  let start ← rowStart? targetWidth r row
  let last ← sub? r.scaledWidth 1
  let mirrored ← sub? last x
  return (start + x * 3, start + mirrored * 3)

/-- The three bytes of a pixel lie in the buffer. -/
def InBuffer (targetWidth targetHeight offset : ℤ) : Prop :=
  0 ≤ offset ∧ offset + 3 ≤ targetWidth * targetHeight * 3

/-- No computation of `convertToRgb` overflows, and what it addresses lies in the
buffer: where the scaled picture starts, each of its pixels, and the two pixels
of each swap. -/
structure Addresses (targetWidth targetHeight : ℤ) (r : IntRect) : Prop where
  size : bufferSize? targetWidth targetHeight = some (targetWidth * targetHeight * 3)
  linesize : mul? targetWidth 3 = some (targetWidth * 3)
  picture : ∃ start, rectStart? targetWidth r = some start ∧
    InBuffer targetWidth targetHeight start ∧
    ∀ row x, 0 ≤ row → row < r.scaledHeight → 0 ≤ x → x < r.scaledWidth →
      InBuffer targetWidth targetHeight (start + row * (targetWidth * 3) + x * 3)
  swaps : ∀ row x, 0 ≤ row → row < r.scaledHeight → 0 ≤ x → x < r.scaledWidth.tdiv 2 →
    ∃ left right, swapOffsets? targetWidth r row x = some (left, right) ∧
      InBuffer targetWidth targetHeight left ∧ InBuffer targetWidth targetHeight right

section Addresses

variable {targetWidth targetHeight : ℤ}

/-- A pixel of the canvas has its bytes in the buffer. -/
theorem inBuffer_pixel {x y : ℤ} (hx : 0 ≤ x) (hx' : x < targetWidth) (hy : 0 ≤ y)
    (hy' : y < targetHeight) :
    InBuffer targetWidth targetHeight ((y * targetWidth + x) * 3) := by
  have hrows : (y + 1) * targetWidth ≤ targetHeight * targetWidth :=
    Int.mul_le_mul_of_nonneg_right (by omega) (by omega)
  have hrow : 0 ≤ y * targetWidth := Int.mul_nonneg hy (by omega)
  rw [Int.add_mul, Int.one_mul, Int.mul_comm targetHeight] at hrows
  exact ⟨by omega, by omega⟩

/-- Its address is computed without overflow. -/
theorem byteOffset?_eq (hbytes : targetWidth * targetHeight * 3 < 2 ^ 31) {x y : ℤ}
    (hx : 0 ≤ x) (hx' : x < targetWidth) (hy : 0 ≤ y) (hy' : y < targetHeight) :
    byteOffset? targetWidth y x = some ((y * targetWidth + x) * 3) := by
  have hinside := (inBuffer_pixel hx hx' hy hy').2
  have hrow : 0 ≤ y * targetWidth := Int.mul_nonneg hy (by omega)
  have hmul : InRange (y * targetWidth) := ⟨by omega, by omega⟩
  have hadd : InRange (y * targetWidth + x) := ⟨by omega, by omega⟩
  have htimes : InRange ((y * targetWidth + x) * 3) := ⟨by omega, by omega⟩
  simp only [byteOffset?, hmul.mul?, hadd.add?, htimes.mul?, Option.bind_eq_bind,
    Option.bind_some]

/-- **A rectangle in the canvas is addressed safely.** -/
theorem InCanvas.addresses {r : IntRect} (hr : InCanvas targetWidth targetHeight r)
    (hbytes : targetWidth * targetHeight * 3 < 2 ^ 31) :
    Addresses targetWidth targetHeight r := by
  obtain ⟨hx, hright, hy, hbottom, hwidth, hheight⟩ := hr
  have hwide : targetWidth * 1 ≤ targetWidth * targetHeight :=
    Int.mul_le_mul_of_nonneg_left (by omega) (by omega)
  have hhigh : 1 * targetHeight ≤ targetWidth * targetHeight :=
    Int.mul_le_mul_of_nonneg_right (by omega) (by omega)
  refine { size := ?_, linesize := ?_, picture := ?_, swaps := ?_ }
  · have hpixels : InRange (targetWidth * targetHeight) := ⟨by omega, by omega⟩
    have hsize : InRange (targetWidth * targetHeight * 3) := ⟨by omega, by omega⟩
    simp only [bufferSize?, hpixels.mul?, hsize.mul?, Option.bind_eq_bind, Option.bind_some]
  · have hline : InRange (targetWidth * 3) := ⟨by omega, by omega⟩
    exact hline.mul?
  · refine ⟨_, byteOffset?_eq hbytes hx (by omega) hy (by omega),
      inBuffer_pixel hx (by omega) hy (by omega), ?_⟩
    intro row x hrow hrow' hcol hcol'
    have hpixel : InBuffer targetWidth targetHeight
        (((r.offsetY + row) * targetWidth + (r.offsetX + x)) * 3) :=
      inBuffer_pixel (by omega) (by omega) (by omega) (by omega)
    have hsum : ((r.offsetY + row) * targetWidth + (r.offsetX + x)) * 3 =
        (r.offsetY * targetWidth + r.offsetX) * 3 + row * (targetWidth * 3) + x * 3 := by ring
    rwa [hsum] at hpixel
  · intro row x hrow hrow' hcol hcol'
    rw [Int.tdiv_eq_ediv_of_nonneg (by omega)] at hcol'
    have hy' : InRange (r.offsetY + row) := ⟨by omega, by omega⟩
    have hlast : InRange (r.scaledWidth - 1) := ⟨by omega, by omega⟩
    have hmirrored : InRange (r.scaledWidth - 1 - x) := ⟨by omega, by omega⟩
    have hstart := byteOffset?_eq hbytes hx (by omega : r.offsetX < targetWidth)
      (by omega : 0 ≤ r.offsetY + row) (by omega)
    have hpixel : ∀ i, 0 ≤ i → i < r.scaledWidth → InBuffer targetWidth targetHeight
        (((r.offsetY + row) * targetWidth + r.offsetX) * 3 + i * 3) := by
      intro i hi hi'
      have hinside : InBuffer targetWidth targetHeight
          (((r.offsetY + row) * targetWidth + (r.offsetX + i)) * 3) :=
        inBuffer_pixel (by omega) (by omega) (by omega) (by omega)
      rwa [← Int.add_assoc, Int.add_mul (_ + _) i 3] at hinside
    refine ⟨_, _, ?_, hpixel x hcol (by omega),
      hpixel (r.scaledWidth - 1 - x) (by omega) (by omega)⟩
    simp only [swapOffsets?, rowStart?, hy'.add?, hstart, hlast.sub?, hmirrored.sub?,
      Option.bind_eq_bind, Option.bind_some, Option.pure_def]

/-- **The letterbox rectangle fits the canvas**: with exact ratios it lies in the
canvas and keeps the aspect ratio, for every size of target and source; and if
the size of the buffer is an `int`, no address leaves the buffer or overflows. -/
theorem letterbox_fits_canvas {srcWidth srcHeight : ℤ} (htw : 2 ≤ targetWidth)
    (hth : 2 ≤ targetHeight) (hsw : 0 < srcWidth) (hsh : 0 < srcHeight) :
    InCanvas targetWidth targetHeight (letterbox id targetWidth targetHeight srcWidth srcHeight) ∧
      KeepsAspect targetWidth targetHeight srcWidth srcHeight
        (letterbox id targetWidth targetHeight srcWidth srcHeight) ∧
      (targetWidth * targetHeight * 3 < 2 ^ 31 →
        Addresses targetWidth targetHeight
          (letterbox id targetWidth targetHeight srcWidth srcHeight)) := by
  obtain ⟨hcanvas, haspect⟩ := letterbox_exact htw hth hsw hsh
  exact ⟨hcanvas, haspect, hcanvas.addresses⟩

/-- A phone held upright. -/
theorem letterbox_fits_canvas_upright :
    InCanvas 1920 1080 (letterbox id 1920 1080 1080 2400) ∧
      KeepsAspect 1920 1080 1080 2400 (letterbox id 1920 1080 1080 2400) ∧
      Addresses 1920 1080 (letterbox id 1920 1080 1080 2400) := by
  obtain ⟨hcanvas, haspect, haddresses⟩ :=
    letterbox_fits_canvas (by decide : (2 : ℤ) ≤ 1920) (by decide : (2 : ℤ) ≤ 1080)
      (by decide : (0 : ℤ) < 1080) (by decide : (0 : ℤ) < 2400)
  exact ⟨hcanvas, haspect, haddresses (by decide)⟩

end Addresses

/-! ## The rectangle of the decoder -/

def ScaledRect.toInt (r : ScaledRect) : IntRect where
  scaledWidth := r.scaledWidth
  scaledHeight := r.scaledHeight
  offsetX := r.offsetX
  offsetY := r.offsetY

theorem maskLowBit_natCast (n : ℕ) : maskLowBit n = (clearLowBit n : ℕ) := by
  rw [maskLowBit, clearLowBit]
  omega

theorem evenLength_eq {x : ℚ} (hx : 0 ≤ x) :
    evenLength x = ((if clearLowBit ⌊x⌋₊ < 2 then 2 else clearLowBit ⌊x⌋₊ : ℕ) : ℤ) := by
  simp only [evenLength]
  rw [truncate_of_nonneg hx, ← Int.natCast_floor_eq_floor hx, maskLowBit_natCast]
  generalize clearLowBit ⌊x⌋₊ = n
  by_cases hsmall : n < 2
  · rw [if_pos hsmall, if_pos (by omega)]
    rfl
  · rw [if_neg hsmall, if_neg (by omega)]

theorem barLength_eq {side length : ℕ} (hle : length ≤ side) :
    barLength side length = (clearLowBit ((side - length) / 2) : ℕ) := by
  rw [barLength, Int.tdiv_eq_ediv_of_nonneg (by omega), ← maskLowBit_natCast]
  congr 1
  omega

/-- The rectangle of the decoder is the one of the code, with all operations on
doubles rounded. -/
theorem fit_eq_letterbox {targetWidth targetHeight : ℕ} (hc : Canvas targetWidth targetHeight)
    {srcWidth srcHeight : Int32} (hwidth : 0 < srcWidth) (hheight : 0 < srcHeight) :
    letterbox toDouble targetWidth targetHeight srcWidth.toInt srcHeight.toInt =
      (fit targetWidth targetHeight srcWidth srcHeight).toInt := by
  have hfits := fit_fits hc hwidth hheight
  have hpos := (srcAspect_bounds hwidth hheight).1
  unfold fit at hfits ⊢
  simp only [letterbox, Int.cast_natCast] at hfits ⊢
  generalize toDouble (srcWidth.toInt / srcHeight.toInt : ℚ) = srcAspect at hfits hpos ⊢
  have hpos' : (0 : ℚ) ≤ srcAspect := le_trans (by positivity) hpos
  split
  · rename_i hwider
    simp only [if_pos hwider] at hfits
    rw [evenLength_eq (toDouble_nonneg (by positivity))]
    have hle := hfits.bottom_le
    simp only [ScaledRect.area] at hle
    simp only [ScaledRect.toInt, barLength_eq (Nat.le_of_add_left_le hle)]
    rfl
  · rename_i hhigher
    simp only [if_neg hhigher] at hfits
    rw [evenLength_eq (toDouble_nonneg (by positivity))]
    have hle := hfits.right_le
    simp only [ScaledRect.area] at hle
    simp only [ScaledRect.toInt, barLength_eq (Nat.le_of_add_left_le hle)]
    rfl

/-- **The decoder addresses its buffer safely**, whatever the rounding. -/
theorem fit_addresses {targetWidth targetHeight : ℕ} (hc : Canvas targetWidth targetHeight)
    {srcWidth srcHeight : Int32} (hwidth : 0 < srcWidth) (hheight : 0 < srcHeight) :
    Addresses targetWidth targetHeight
      (letterbox toDouble targetWidth targetHeight srcWidth.toInt srcHeight.toInt) := by
  obtain ⟨hright, hbottom⟩ := fit_fits hc hwidth hheight
  have hbytes := hc.bytes_lt
  have htw : (2 : ℤ) ≤ targetWidth := by exact_mod_cast hc.two_le_width
  have hth : (2 : ℤ) ≤ targetHeight := by exact_mod_cast hc.two_le_height
  obtain ⟨hw, hh⟩ := two_le_letterbox toDouble htw hth srcWidth.toInt srcHeight.toInt
  rw [fit_eq_letterbox hc hwidth hheight] at hw hh ⊢
  simp only [ScaledRect.area] at hright hbottom
  have hcanvas : InCanvas targetWidth targetHeight
      (fit targetWidth targetHeight srcWidth srcHeight).toInt :=
    { offsetX := Int.natCast_nonneg _
      right := by
        simp only [ScaledRect.toInt]
        exact_mod_cast hright
      offsetY := Int.natCast_nonneg _
      bottom := by
        simp only [ScaledRect.toInt]
        exact_mod_cast hbottom
      scaledWidth := hw
      scaledHeight := hh }
  exact hcanvas.addresses (by exact_mod_cast hbytes)

end Iriseus.Core
