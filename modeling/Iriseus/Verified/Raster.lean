import Mathlib.Data.List.Basic

/-!
# Rectangles of a raster

A raster holds pixels row by row in one array; the pixel `(x, y)` of a raster
with rows of `stride` pixels lies at `y * stride + x`.  A rectangle of it is
written from an origin, row by row, or mirrored in place by swapping pixels from
both ends of each row.

## Main results

* `getElem?_blit` — the pixels after a rectangle has been written.
* `getElem?_mirrorRun`, `getElem?_mirrorRows` — the swaps reverse a run of
  pixels, and mirror a rectangle; nothing else changes.
-/

namespace Iriseus.Verified.Raster

/-- A rectangle with its upper left corner. -/
structure Area where
  left : Nat
  top : Nat
  width : Nat
  height : Nat
  deriving DecidableEq, Repr

/-- The pixel `(x, y)` lies in the rectangle. -/
def Area.Contains (r : Area) (x y : Nat) : Prop :=
  r.left ≤ x ∧ x < r.left + r.width ∧ r.top ≤ y ∧ y < r.top + r.height

instance (r : Area) (x y : Nat) : Decidable (r.Contains x y) :=
  inferInstanceAs (Decidable (_ ∧ _ ∧ _ ∧ _))

/-- The rectangle lies in a raster of the given size. -/
structure Area.Fits (r : Area) (width height : Nat) : Prop where
  right_le : r.left + r.width ≤ width
  bottom_le : r.top + r.height ≤ height

variable {α : Type}

/-- Where a rectangle starts in the array. -/
def Area.origin (r : Area) (stride : Nat) : Nat := r.top * stride + r.left

/-- Write `f` into the rectangle of `width` by `height` pixels whose first pixel
is at `origin`. -/
def blit (a : Array α) (origin stride width height : Nat) (f : Nat → Nat → α) : Array α :=
  a.mapIdx fun k p =>
    if origin ≤ k ∧ (k - origin) % stride < width ∧ (k - origin) / stride < height then
      f ((k - origin) % stride) ((k - origin) / stride)
    else p

/-- Swap the first `m` of `n` pixels from `start` with the last ones. -/
def mirrorRun (a : Array α) (start n m : Nat) : Array α :=
  (List.range m).foldl (fun a x => a.swapIfInBounds (start + x) (start + (n - 1 - x))) a

/-- Reverse each row of a rectangle in place; `m` rows of it. -/
def mirrorRows (a : Array α) (stride : Nat) (r : Area) (m : Nat) : Array α :=
  (List.range m).foldl
    (fun a row => mirrorRun a ((r.top + row) * stride + r.left) r.width (r.width / 2)) a

@[simp] theorem size_blit (a : Array α) (origin stride width height : Nat)
    (f : Nat → Nat → α) : (blit a origin stride width height f).size = a.size :=
  Array.size_mapIdx

theorem mirrorRun_succ (a : Array α) (start n m : Nat) :
    mirrorRun a start n (m + 1) =
      (mirrorRun a start n m).swapIfInBounds (start + m) (start + (n - 1 - m)) := by
  simp only [mirrorRun, List.range_succ, List.foldl_append, List.foldl_cons, List.foldl_nil]

theorem mirrorRows_succ (a : Array α) (stride : Nat) (r : Area) (m : Nat) :
    mirrorRows a stride r (m + 1) =
      mirrorRun (mirrorRows a stride r m) ((r.top + m) * stride + r.left) r.width
        (r.width / 2) := by
  simp only [mirrorRows, List.range_succ, List.foldl_append, List.foldl_cons, List.foldl_nil]

@[simp] theorem size_mirrorRun (a : Array α) (start n m : Nat) :
    (mirrorRun a start n m).size = a.size := by
  induction m with
  | zero => rfl
  | succ m ih => rw [mirrorRun_succ, Array.size_swapIfInBounds, ih]

@[simp] theorem size_mirrorRows (a : Array α) (stride : Nat) (r : Area) (m : Nat) :
    (mirrorRows a stride r m).size = a.size := by
  induction m with
  | zero => rfl
  | succ m ih => rw [mirrorRows_succ, size_mirrorRun, ih]

/-! ## One run -/

theorem getElem?_swapIfInBounds {a : Array α} {i j : Nat} (hi : i < a.size)
    (hj : j < a.size) (k : Nat) :
    (a.swapIfInBounds i j)[k]? = if k = i then a[j]? else if k = j then a[i]? else a[k]? := by
  have hswap : a.swapIfInBounds i j = a.swap i j hi hj := by
    rw [Array.swapIfInBounds, dif_pos hi, dif_pos hj]
  rw [hswap, Array.getElem?_swap, Array.getElem?_eq_getElem hi, Array.getElem?_eq_getElem hj]
  by_cases hki : k = i
  · subst hki
    by_cases hkj : j = k
    · subst hkj
      simp
    · simp [hkj]
  · simp [hki, Ne.symm hki, eq_comm]

/-- After `m` swaps both ends are reversed. -/
theorem getElem?_mirrorRun_part {a : Array α} {start n : Nat} (hfits : start + n ≤ a.size)
    (m : Nat) (hm : 2 * m ≤ n) (k : Nat) :
    (mirrorRun a start n m)[k]? =
      if start ≤ k ∧ k < start + n ∧ (k - start < m ∨ n - 1 - (k - start) < m) then
        a[start + (n - 1 - (k - start))]?
      else a[k]? := by
  induction m generalizing k with
  | zero => rw [if_neg (by omega)]; rfl
  | succ m ih =>
      have hsize := size_mirrorRun a start n m
      rw [mirrorRun_succ, getElem?_swapIfInBounds (by omega) (by omega)]
      by_cases hfirst : k = start + m
      · -- the near end
        rw [if_pos hfirst, ih (by omega), if_neg (by omega), if_pos (by omega)]
        congr 2
        omega
      · rw [if_neg hfirst]
        by_cases hlast : k = start + (n - 1 - m)
        · -- the far end
          rw [if_pos hlast, ih (by omega), if_neg (by omega), if_pos (by omega)]
          congr 2
          omega
        · rw [if_neg hlast, ih (by omega)]
          have hiff : (start ≤ k ∧ k < start + n ∧
              (k - start < m ∨ n - 1 - (k - start) < m)) ↔
              (start ≤ k ∧ k < start + n ∧
                (k - start < m + 1 ∨ n - 1 - (k - start) < m + 1)) := by omega
          simp only [hiff]

/-- **The swaps reverse the run.** -/
theorem getElem?_mirrorRun {a : Array α} {start n : Nat} (hfits : start + n ≤ a.size)
    (k : Nat) :
    (mirrorRun a start n (n / 2))[k]? =
      if start ≤ k ∧ k < start + n then a[start + (n - 1 - (k - start))]? else a[k]? := by
  rw [getElem?_mirrorRun_part hfits (n / 2) (by omega)]
  by_cases hin : start ≤ k ∧ k < start + n
  · rw [if_pos hin]
    by_cases hend : k - start < n / 2 ∨ n - 1 - (k - start) < n / 2
    · rw [if_pos ⟨hin.1, hin.2, hend⟩]
    · -- the middle of an odd number of pixels
      have hmiddle : start + (n - 1 - (k - start)) = k := by omega
      rw [if_neg fun h => hend h.2.2, hmiddle]
  · rw [if_neg hin, if_neg fun h => hin ⟨h.1, h.2.1⟩]

/-! ## Rows and columns -/

/-- Pixels of a row lie between those of the rows before and after it. -/
theorem row_of_le {stride x y x' y' : Nat} (hx : x < stride)
    (hle : y' * stride + x' ≤ y * stride + x) : y' < y ∨ y' = y ∧ x' ≤ x := by
  rcases Nat.lt_trichotomy y' y with hlt | rfl | hgt
  · exact Or.inl hlt
  · exact Or.inr ⟨rfl, by omega⟩
  · have hrow : (y + 1) * stride ≤ y' * stride := Nat.mul_le_mul_right stride hgt
    rw [Nat.succ_mul] at hrow
    omega

/-- A pixel is in a part of a row exactly if its row and its column are. -/
theorem mem_run_iff {stride x left width : Nat} (y row : Nat) (hx : x < stride)
    (hfits : left + width ≤ stride) :
    (row * stride + left ≤ y * stride + x ∧ y * stride + x < row * stride + left + width) ↔
      y = row ∧ left ≤ x ∧ x < left + width := by
  constructor
  · rintro ⟨hle, hlt⟩
    rcases row_of_le hx hle with hafter | ⟨rfl, hcol⟩
    · have hrow : (row + 1) * stride ≤ y * stride := Nat.mul_le_mul_right stride hafter
      rw [Nat.succ_mul] at hrow
      omega
    · exact ⟨rfl, hcol, by omega⟩
  · rintro ⟨rfl, hcol, hlt⟩
    omega

/-- Every pixel of a raster lies in its array. -/
theorem index_lt {width height x y : Nat} (hx : x < width) (hy : y < height) :
    y * width + x < width * height := by
  have hrow : (y + 1) * width ≤ height * width := Nat.mul_le_mul_right width hy
  rw [Nat.succ_mul] at hrow
  rw [Nat.mul_comm width height]
  omega

/-! ## Rectangles -/

/-- **Writing a rectangle.** -/
theorem getElem?_blit {a : Array α} {stride height x y : Nat} {r : Area}
    (hfits : r.Fits stride height) (hsize : a.size = stride * height) (hx : x < stride)
    (hy : y < height) (f : Nat → Nat → α) :
    (blit a (r.origin stride) stride r.width r.height f)[y * stride + x]? =
      if r.Contains x y then some (f (x - r.left) (y - r.top)) else a[y * stride + x]? := by
  have hk : y * stride + x < a.size := by
    rw [hsize]
    exact index_lt hx hy
  have hright := hfits.right_le
  have hpos : 0 < stride := by omega
  rw [blit, Array.getElem?_mapIdx, Array.getElem?_eq_getElem hk, Option.map_some, Area.origin]
  by_cases hin : r.Contains x y
  · obtain ⟨hleft, hlt, htop, hbottom⟩ := hin
    have hsub : y * stride + x - (r.top * stride + r.left) =
        (x - r.left) + (y - r.top) * stride := by
      have hmul : y * stride = (y - r.top) * stride + r.top * stride := by
        rw [← Nat.add_mul, Nat.sub_add_cancel htop]
      omega
    have hle : r.top * stride + r.left ≤ y * stride + x := by
      have hmul : r.top * stride ≤ y * stride := Nat.mul_le_mul_right stride htop
      omega
    have hcol : x - r.left < stride := by omega
    rw [hsub, Nat.add_mul_mod_self_right, Nat.add_mul_div_right _ _ hpos,
      Nat.mod_eq_of_lt hcol, Nat.div_eq_of_lt hcol, Nat.zero_add,
      if_pos ⟨hle, by omega, by omega⟩, if_pos ⟨hleft, hlt, htop, hbottom⟩]
  · rw [if_neg hin, if_neg]
    rintro ⟨hle, hcol, hrow⟩
    -- the pixel lies `j` rows and `i` columns after the origin
    generalize hi : (y * stride + x - (r.top * stride + r.left)) % stride = i at hcol
    generalize hj : (y * stride + x - (r.top * stride + r.left)) / stride = j at hrow
    have hsplit : y * stride + x = (r.top + j) * stride + (r.left + i) := by
      have hdiv := Nat.div_add_mod (y * stride + x - (r.top * stride + r.left)) stride
      rw [hi, hj, Nat.mul_comm] at hdiv
      rw [Nat.add_mul]
      omega
    have hrun := (mem_run_iff y (r.top + j) hx hright).mp
      ⟨by omega, by omega⟩
    exact hin ⟨hrun.2.1, hrun.2.2, by omega, by omega⟩

/-- After `m` rows. -/
theorem getElem?_mirrorRows_part {a : Array α} {stride height : Nat} {r : Area}
    (hfits : r.Fits stride height) (hsize : a.size = stride * height) {x y : Nat}
    (hx : x < stride) (m : Nat) (hm : m ≤ r.height) :
    (mirrorRows a stride r m)[y * stride + x]? =
      if r.left ≤ x ∧ x < r.left + r.width ∧ r.top ≤ y ∧ y < r.top + m then
        a[y * stride + (r.left + (r.width - 1 - (x - r.left)))]?
      else a[y * stride + x]? := by
  have hright := hfits.right_le
  have hbottom := hfits.bottom_le
  induction m generalizing x with
  | zero => rw [if_neg (by omega)]; rfl
  | succ m ih =>
      have hrow : (r.top + m + 1) * stride ≤ height * stride :=
        Nat.mul_le_mul_right stride (by omega)
      rw [Nat.succ_mul, Nat.mul_comm height] at hrow
      rw [mirrorRows_succ, getElem?_mirrorRun (by rw [size_mirrorRows, hsize]; omega)]
      have hiff := mem_run_iff y (r.top + m) hx hright
      by_cases hin : y = r.top + m ∧ r.left ≤ x ∧ x < r.left + r.width
      · -- this row
        rw [if_pos (hiff.mpr hin)]
        obtain ⟨rfl, hleft, hlt⟩ := hin
        have hindex : (r.top + m) * stride + r.left +
            (r.width - 1 - ((r.top + m) * stride + x - ((r.top + m) * stride + r.left))) =
            (r.top + m) * stride + (r.left + (r.width - 1 - (x - r.left))) := by omega
        rw [hindex, ih (by omega) (by omega), if_neg (by omega), if_pos (by omega)]
      · rw [if_neg (fun h => hin (hiff.mp h)), ih hx (by omega)]
        have hsame : (r.left ≤ x ∧ x < r.left + r.width ∧ r.top ≤ y ∧ y < r.top + m) ↔
            (r.left ≤ x ∧ x < r.left + r.width ∧ r.top ≤ y ∧ y < r.top + (m + 1)) := by
          omega
        simp only [hsame]

/-- **Mirroring a rectangle.** -/
theorem getElem?_mirrorRows {a : Array α} {stride height : Nat} {r : Area}
    (hfits : r.Fits stride height) (hsize : a.size = stride * height) {x y : Nat}
    (hx : x < stride) :
    (mirrorRows a stride r r.height)[y * stride + x]? =
      if r.Contains x y then
        a[y * stride + (r.left + (r.width - 1 - (x - r.left)))]?
      else a[y * stride + x]? :=
  getElem?_mirrorRows_part hfits hsize hx r.height (Nat.le_refl _)

end Iriseus.Verified.Raster
