import Iriseus.Core.FileNames
import Mathlib.Algebra.Order.BigOperators.Group.List
import Mathlib.Algebra.Order.Group.Nat

/-!
# Place markers of a text

`arg` fills the place markers of a text with the lowest number.  `pieces`
splits a text into single characters and markers, once and for all, so that
filling is a map over pieces (`arg_of_min`) and a text is read from left to right
in parts (`pieces_append`).

## Main results

* `arg_of_min` — `arg` in terms of pieces.
* `length_le_length_fillText_add` — filling shortens a text by at most three characters for
  each percent sign.
* `eq_value_of_fillText_eq_self` — filling leaves a text as it is only if every
  marker filled is spelled like the value.
-/

namespace Iriseus.Core

/-! ## Pieces -/

/-- A character of a text, or one of its place markers as it is spelled. -/
inductive Piece where
  | lit (c : Char)
  | mark (n : Nat) (spelled : List Char)
  deriving DecidableEq, Repr

namespace Piece

def spell : Piece → List Char
  | .lit c => [c]
  | .mark _ spelled => spelled

def number? : Piece → Option Nat
  | .lit _ => none
  | .mark n _ => some n

/-- The piece, with `value` for the markers numbered `n`. -/
def fill (n : Nat) (value : List Char) : Piece → List Char
  | .lit c => [c]
  | .mark n' spelled => if n' = n then value else spelled

end Piece

/-- A marker is a percent sign and one or two digits. -/
theorem marker_some {t rest : List Char} {n : Nat} (h : marker t = some (n, rest)) :
    ∃ spelled, t = spelled ++ rest ∧ spelled.length ≤ 3 ∧ 2 ≤ spelled.length ∧
      spelled.count '%' = 1 ∧ 0 < n := by
  have hdigit : ∀ c d, digitValue c = some d → c ≠ '%' := by
    rintro c d hd rfl
    simp [digitValue] at hd
  unfold marker at h
  split at h
  · rename_i c rest₀
    split at h
    · cases h
    · rename_i d hd
      have hc := hdigit c d hd
      split at h
      · rename_i c' rest'
        split at h
        · rename_i d' hd'
          have hc' := hdigit c' d' hd'
          split at h
          · cases h
          · rename_i hpos
            cases h
            exact ⟨['%', c, c'], rfl, by simp, by simp, by simp [hc, hc'], by omega⟩
        · split at h
          · cases h
          · rename_i hpos
            cases h
            exact ⟨['%', c], rfl, by simp, by simp, by simp [hc], by omega⟩
      · split at h
        · cases h
        · rename_i hpos
          cases h
          exact ⟨['%', c], rfl, by simp, by simp, by simp [hc], by omega⟩
  · cases h

theorem length_lt_of_marker {t rest : List Char} {n : Nat} (h : marker t = some (n, rest)) :
    rest.length < t.length := by
  obtain ⟨spelled, rfl, -, hlen, -⟩ := marker_some h
  rw [List.length_append]
  omega

/-- The pieces of a text, in order. -/
def pieces : List Char → List Piece
  | [] => []
  | c :: cs =>
      match _hmark : marker (c :: cs) with
      | some (n, rest) =>
          .mark n ((c :: cs).take ((c :: cs).length - rest.length)) :: pieces rest
      | none => .lit c :: pieces cs
termination_by t => t.length
decreasing_by
  · exact length_lt_of_marker _hmark
  · simp

@[simp] theorem pieces_nil : pieces [] = [] := by
  rw [pieces]

theorem pieces_mark {spelled rest : List Char} {n : Nat}
    (h : marker (spelled ++ rest) = some (n, rest)) :
    pieces (spelled ++ rest) = .mark n spelled :: pieces rest := by
  cases ht : spelled ++ rest with
  | nil =>
      rw [ht] at h
      cases h
  | cons c cs =>
      rw [ht] at h
      rw [pieces]
      split
      · rename_i h'
        rw [h, Option.some.injEq, Prod.mk.injEq] at h'
        obtain ⟨rfl, rfl⟩ := h'
        have htake : (c :: cs).take ((c :: cs).length - rest.length) = spelled := by
          rw [← ht, List.length_append, Nat.add_sub_cancel, List.take_left]
        rw [htake]
      · rename_i h'
        rw [h] at h'
        cases h'

theorem pieces_lit {c : Char} {cs : List Char} (h : marker (c :: cs) = none) :
    pieces (c :: cs) = .lit c :: pieces cs := by
  rw [pieces]
  split
  · rename_i h'
    rw [h] at h'
    cases h'
  · rfl

/-- Induction on the pieces of a text. -/
theorem pieces_induction {motive : List Char → Prop} (nil : motive [])
    (mark : ∀ spelled rest n, marker (spelled ++ rest) = some (n, rest) → motive rest →
      motive (spelled ++ rest))
    (lit : ∀ c cs, marker (c :: cs) = none → motive cs → motive (c :: cs))
    (t : List Char) : motive t := by
  induction t using pieces.induct with
  | case1 => exact nil
  | case2 c cs n rest h ih =>
      obtain ⟨spelled, heq, -⟩ := marker_some h
      rw [heq] at h ⊢
      exact mark spelled rest n h ih
  | case3 c cs h ih => exact lit c cs h ih

theorem spell_pieces (t : List Char) : (pieces t).flatMap Piece.spell = t := by
  induction t using pieces_induction with
  | nil => simp
  | mark spelled rest n h ih => rw [pieces_mark h, List.flatMap_cons, ih]; rfl
  | lit c cs h ih => rw [pieces_lit h, List.flatMap_cons, ih]; rfl

/-- What a marker looks like. -/
theorem mark_mem_pieces {t : List Char} {n : Nat} {spelled : List Char}
    (h : .mark n spelled ∈ pieces t) :
    spelled.length ≤ 3 ∧ 2 ≤ spelled.length ∧ spelled.count '%' = 1 ∧ 0 < n := by
  induction t using pieces_induction with
  | nil => simp at h
  | mark spelled' rest n' hm ih =>
      rw [pieces_mark hm, List.mem_cons] at h
      rcases h with heq | h
      · cases heq
        obtain ⟨s, hs, hspec⟩ := marker_some hm
        rw [List.append_cancel_right hs]
        exact hspec
      · exact ih h
  | lit c cs hm ih =>
      rw [pieces_lit hm, List.mem_cons] at h
      rcases h with heq | h
      · cases heq
      · exact ih h

/-! ## Filling markers -/

/-- The numbers of the markers, in order. -/
def markNumbers (t : List Char) : List Nat := (pieces t).filterMap Piece.number?

/-- The text with `value` for every marker numbered `n`. -/
def fillText (n : Nat) (value t : List Char) : List Char :=
  (pieces t).flatMap (Piece.fill n value)

theorem markers_eq (t : List Char) : ∀ fuel, t.length ≤ fuel →
    markers fuel t = markNumbers t := by
  induction t using pieces_induction with
  | nil =>
      intro fuel _
      cases fuel <;> simp [markers, markNumbers]
  | mark spelled rest n hm ih =>
      intro fuel hfuel
      have hlt := length_lt_of_marker hm
      cases ht : spelled ++ rest with
      | nil => simp [ht] at hlt
      | cons c cs =>
          cases fuel with
          | zero => simp [ht] at hfuel
          | succ fuel =>
              have hrest := ih fuel (by omega)
              rw [← ht, markNumbers, pieces_mark hm, ht]
              rw [ht] at hm
              simp [markers, hm, hrest, markNumbers, Piece.number?]
  | lit c cs hm ih =>
      intro fuel hfuel
      cases fuel with
      | zero => simp at hfuel
      | succ fuel =>
          have hrest := ih fuel (by simpa using hfuel)
          rw [markNumbers, pieces_lit hm]
          simp [markers, hm, hrest, markNumbers, Piece.number?, List.filterMap_cons]

theorem replaceMarker_eq (n : Nat) (value t : List Char) : ∀ fuel, t.length ≤ fuel →
    replaceMarker n value fuel t = fillText n value t := by
  induction t using pieces_induction with
  | nil =>
      intro fuel _
      cases fuel <;> simp [replaceMarker, fillText]
  | mark spelled rest n' hm ih =>
      intro fuel hfuel
      have hlt := length_lt_of_marker hm
      have htake : (spelled ++ rest).take ((spelled ++ rest).length - rest.length) =
          spelled := by
        rw [List.length_append, Nat.add_sub_cancel, List.take_left]
      cases ht : spelled ++ rest with
      | nil => simp [ht] at hlt
      | cons c cs =>
          cases fuel with
          | zero => simp [ht] at hfuel
          | succ fuel =>
              have hrest := ih fuel (by omega)
              rw [← ht, fillText, pieces_mark hm, List.flatMap_cons]
              rw [ht] at hm htake ⊢
              simp only [replaceMarker, hm, hrest, Piece.fill, htake]
              rfl
  | lit c cs hm ih =>
      intro fuel hfuel
      cases fuel with
      | zero => simp at hfuel
      | succ fuel =>
          have hrest := ih fuel (by simpa using hfuel)
          rw [fillText, pieces_lit hm, List.flatMap_cons]
          simp [replaceMarker, hm, hrest, fillText, Piece.fill]

/-- **`arg` in terms of pieces.** -/
theorem arg_of_min {t value : List Char} {n : Nat} (hn : (markNumbers t).min? = some n) :
    arg t value = fillText n value t := by
  rw [arg, markers_eq t _ (Nat.le_refl _), hn]
  exact replaceMarker_eq n value t _ (Nat.le_refl _)

theorem mem_markNumbers {t : List Char} {n : Nat} :
    n ∈ markNumbers t ↔ ∃ spelled, .mark n spelled ∈ pieces t := by
  simp only [markNumbers, List.mem_filterMap]
  constructor
  · rintro ⟨p, hp, hn⟩
    cases p with
    | lit c => cases hn
    | mark n' spelled =>
        cases hn
        exact ⟨spelled, hp⟩
  · rintro ⟨spelled, hp⟩
    exact ⟨_, hp, rfl⟩

theorem pos_of_mem_markNumbers {t : List Char} {n : Nat} (h : n ∈ markNumbers t) : 0 < n := by
  obtain ⟨spelled, hp⟩ := mem_markNumbers.mp h
  exact (mark_mem_pieces hp).2.2.2

/-! ## Texts in parts -/

/-- The text does not begin with a digit. -/
def NoDigitFirst (t : List Char) : Prop := ∀ c, t.head? = some c → digitValue c = none

theorem marker_append {u v : List Char} (hu : u ≠ []) (hv : NoDigitFirst v) :
    marker (u ++ v) = (marker u).map fun r => (r.1, r.2 ++ v) := by
  match u, hu with
  | [c], _ =>
      cases v with
      | nil => cases hc : marker [c] with
        | none => simp [hc]
        | some r => simp [hc]
      | cons d ds =>
          have hd : digitValue d = none := hv d rfl
          by_cases hc : c = '%'
          · subst hc
            simp [marker, hd]
          · simp [marker, hc]
  | [c, d], _ =>
      by_cases hc : c = '%'
      · subst hc
        cases hd : digitValue d with
        | none => simp [marker, hd]
        | some n =>
            cases v with
            | nil => by_cases hn : n = 0 <;> simp [marker, hd, hn]
            | cons e es =>
                have he : digitValue e = none := hv e rfl
                by_cases hn : n = 0 <;> simp [marker, hd, he, hn]
      · simp [marker, hc]
  | c :: d :: e :: rest, _ =>
      by_cases hc : c = '%'
      · subst hc
        cases hd : digitValue d with
        | none => simp [marker, hd]
        | some n =>
            cases he : digitValue e with
            | none => by_cases hn : n = 0 <;> simp [marker, hd, he, hn]
            | some m =>
                simp only [List.cons_append, marker, hd, he]
                split <;> rfl
      · simp [marker, hc]

/-- A text is read in parts, if the second does not begin with a digit. -/
theorem pieces_append {v : List Char} (hv : NoDigitFirst v) (u : List Char) :
    pieces (u ++ v) = pieces u ++ pieces v := by
  induction u using pieces_induction with
  | nil => simp
  | mark spelled rest n hm ih =>
      have hne : spelled ++ rest ≠ [] := by
        intro hnil
        rw [hnil] at hm
        cases hm
      have happ : marker (spelled ++ (rest ++ v)) = some (n, rest ++ v) := by
        rw [← List.append_assoc, marker_append hne hv, hm]
        rfl
      rw [List.append_assoc, pieces_mark happ, pieces_mark hm, ih, List.cons_append]
  | lit c cs hm ih =>
      have happ : marker (c :: (cs ++ v)) = none := by
        rw [← List.cons_append, marker_append (by simp) hv, hm]
        rfl
      rw [List.cons_append, pieces_lit happ, pieces_lit hm, ih, List.cons_append]

theorem fillText_append {v : List Char} (hv : NoDigitFirst v) (n : Nat)
    (value u : List Char) :
    fillText n value (u ++ v) = fillText n value u ++ fillText n value v := by
  rw [fillText, pieces_append hv, List.flatMap_append]
  rfl

theorem markNumbers_append {v : List Char} (hv : NoDigitFirst v) (u : List Char) :
    markNumbers (u ++ v) = markNumbers u ++ markNumbers v := by
  rw [markNumbers, pieces_append hv, List.filterMap_append]
  rfl

/-- A text without percent signs has no markers. -/
theorem pieces_of_no_percent {t : List Char} (h : '%' ∉ t) : pieces t = t.map .lit := by
  induction t with
  | nil => simp
  | cons c cs ih =>
      rw [List.mem_cons, not_or] at h
      have hm : marker (c :: cs) = none := by
        unfold marker
        split
        · rename_i heq
          cases heq
          exact absurd rfl h.1
        · rfl
      rw [pieces_lit hm, ih h.2, List.map_cons]

theorem fillText_of_no_percent {t : List Char} (h : '%' ∉ t) (n : Nat)
    (value : List Char) : fillText n value t = t := by
  rw [fillText, pieces_of_no_percent h]
  induction t with
  | nil => rfl
  | cons c cs ih =>
      rw [List.mem_cons, not_or] at h
      rw [List.map_cons, List.flatMap_cons, ih h.2]
      rfl

theorem markNumbers_of_no_percent {t : List Char} (h : '%' ∉ t) : markNumbers t = [] := by
  rw [markNumbers, pieces_of_no_percent h, List.filterMap_eq_nil_iff]
  intro p hp
  obtain ⟨c, -, rfl⟩ := List.mem_map.mp hp
  rfl

/-! ## What filling changes -/

/-- Without markers of the number filled, or with a value spelled like them,
nothing changes. -/
theorem fillText_eq_self {n : Nat} {value t : List Char}
    (h : ∀ spelled, .mark n spelled ∈ pieces t → spelled = value) :
    fillText n value t = t := by
  have hfill : ∀ p ∈ pieces t, Piece.fill n value p = p.spell := by
    intro p hp
    cases p with
    | lit c => rfl
    | mark n' spelled =>
        simp only [Piece.fill, Piece.spell]
        split
        · rename_i heq
          exact (h spelled (heq ▸ hp)).symm
        · rfl
  rw [fillText, List.flatMap_def, List.map_congr_left hfill, ← List.flatMap_def,
    spell_pieces]

/-- Filling shortens a text by at most three characters for each percent
sign. -/
theorem length_le_length_fillText_add (n : Nat) (value t : List Char) :
    t.length ≤ (fillText n value t).length + 3 * t.count '%' := by
  induction t using pieces_induction with
  | nil => simp
  | mark spelled rest n' hm ih =>
      have hmem : .mark n' spelled ∈ pieces (spelled ++ rest) := by
        rw [pieces_mark hm]
        exact List.mem_cons_self
      obtain ⟨hlen, -, hcount, -⟩ := mark_mem_pieces hmem
      rw [fillText, pieces_mark hm, List.flatMap_cons, List.length_append,
        List.length_append, List.count_append, hcount]
      rw [fillText] at ih
      omega
  | lit c cs hm ih =>
      rw [fillText, pieces_lit hm, List.flatMap_cons, List.length_append, List.count_cons]
      rw [fillText] at ih
      simp only [Piece.fill, List.length_cons, List.length_nil]
      omega

/-- A filled marker leaves its value in the text. -/
theorem length_value_le {n : Nat} (value : List Char) {t : List Char} (h : n ∈ markNumbers t) :
    value.length ≤ (fillText n value t).length := by
  obtain ⟨spelled, hp⟩ := mem_markNumbers.mp h
  obtain ⟨before, after, hsplit⟩ := List.append_of_mem hp
  rw [fillText, hsplit, List.flatMap_append, List.flatMap_cons]
  simp only [Piece.fill, if_true, List.length_append]
  omega

/-- Filling brings in the percent signs of the value only. -/
theorem count_fillText_le {n : Nat} {value : List Char} (hvalue : '%' ∉ value)
    (t : List Char) : (fillText n value t).count '%' ≤ t.count '%' := by
  induction t using pieces_induction with
  | nil => simp [fillText]
  | mark spelled rest n' hm ih =>
      rw [fillText, pieces_mark hm, List.flatMap_cons, List.count_append, List.count_append]
      rw [fillText] at ih
      have hfill : (Piece.fill n value (.mark n' spelled)).count '%' ≤ spelled.count '%' := by
        simp only [Piece.fill]
        split
        · rw [List.count_eq_zero.mpr hvalue]
          exact Nat.zero_le _
        · exact Nat.le_refl _
      omega
  | lit c cs hm ih =>
      rw [fillText, pieces_lit hm, List.flatMap_cons, List.count_append]
      rw [fillText] at ih
      simp only [Piece.fill, List.count_cons, List.count_nil]
      omega

/-- Two maps over pieces of which one never gives the longer text agree piece by
piece if they agree on the whole. -/
private theorem eq_of_flatMap_eq {f g : Piece → List Char} {ps : List Piece}
    (hle : ∀ p ∈ ps, (f p).length ≤ (g p).length) (h : ps.flatMap f = ps.flatMap g) :
    ∀ p ∈ ps, f p = g p := by
  induction ps with
  | nil => simp
  | cons q ps ih =>
      rw [List.flatMap_cons, List.flatMap_cons] at h
      have hq := hle q List.mem_cons_self
      have hps : ∀ p ∈ ps, (f p).length ≤ (g p).length :=
        fun p hp => hle p (List.mem_cons_of_mem _ hp)
      have hsum : (ps.flatMap f).length ≤ (ps.flatMap g).length := by
        rw [List.length_flatMap, List.length_flatMap]
        exact List.sum_le_sum hps
      have htotal := congrArg List.length h
      rw [List.length_append, List.length_append] at htotal
      obtain ⟨hhead, htail⟩ := List.append_inj h (by omega)
      intro p hp
      rcases List.mem_cons.mp hp with rfl | hp
      · exact hhead
      · exact ih hps htail p hp

/-- Filling leaves a text as it is only if every marker filled is spelled like
the value: the markers have two or three characters, so no other value makes
up for what another marker loses. -/
theorem eq_value_of_fillText_eq_self {n : Nat} {value t spelled : List Char}
    (h : fillText n value t = t) (hp : .mark n spelled ∈ pieces t) : spelled = value := by
  have hsame : (pieces t).flatMap (Piece.fill n value) = (pieces t).flatMap Piece.spell := by
    rw [spell_pieces]
    exact h
  have hpoint : Piece.fill n value (.mark n spelled) = spelled := by
    by_cases hshort : value.length ≤ 2
    · refine eq_of_flatMap_eq ?_ hsame _ hp
      intro p hp
      cases p with
      | lit c => exact Nat.le_refl _
      | mark n' s =>
          have hlen := (mark_mem_pieces hp).2.1
          simp only [Piece.fill, Piece.spell]
          split <;> omega
    · refine (eq_of_flatMap_eq ?_ hsame.symm _ hp).symm
      intro p hp
      cases p with
      | lit c => exact Nat.le_refl _
      | mark n' s =>
          have hlen := (mark_mem_pieces hp).1
          simp only [Piece.fill, Piece.spell]
          split <;> omega
  simpa [Piece.fill] using hpoint.symm

end Iriseus.Core
