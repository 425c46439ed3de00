import Iriseus.Core.EndToEnd
import Iriseus.Core.PlaceMarkers
import Mathlib.Data.List.TakeWhile
import Mathlib.Data.Set.Finite.Lattice

/-!
# Names for files that collide

When the target of an upload exists, `handleConnection` tries the numbered
names `base (1).ext`, `base (2).ext`, … until one is free.  Each is built by
filling the markers of a template one after the other, in a text that already
contains the peer's base name; a marker in the base name is filled as well.

A name without such markers is numbered as intended (`candidateName_clean`).
With them no candidate but finitely many is the numbered name
(`candidateName_ne`).  Whatever the name, candidates grow without bound
(`digits_le_candidateName`), so the loop ends.

## Main results

* `resolve_ends` — the loop ends for every name.
* `collision_names_right` — it finds the right name for every set of files
  exactly when the base name has no marker that the template's values fill.
-/

namespace Iriseus.Core

open Iriseus.Verified
open Iriseus.Verified.ByteStream
open Iriseus.Verified.Machine

/-! ## Names -/

/-- The name the loop builds with the number `count`. -/
def candidateName (name : List Char) (count : Nat) : List Char :=
  let base := completeBaseName name
  let ext := suffix name
  let digits := Nat.toDigits 10 count
  if ext ≠ [] then arg (arg (arg "%1 (%2).%3".toList base) digits) ext
  else arg (arg "%1 (%2)".toList base) digits

theorem collisionPath_eq (target : List Char) (count : Nat) :
    collisionPath target count = siblingPath target (candidateName (fileName target) count) :=
  rfl

/-- The name numbered `k`: the base name, the number in parentheses and the
extension, if there is one. -/
def numberedName (name : List Char) (k : Nat) : List Char :=
  completeBaseName name ++ [' ', '('] ++ Nat.toDigits 10 k ++ [')'] ++
    (if suffix name ≠ [] then '.' :: suffix name else [])

/-- The base name has no marker that the number or the extension would fill,
except markers of the extension that are spelled like it. -/
def CleanName (name : List Char) : Prop :=
  ∀ n spelled, .mark n spelled ∈ pieces (completeBaseName name) →
    n ≠ 1 ∧ n ≠ 2 ∧ (n = 3 → suffix name ≠ [] → spelled = suffix name)

theorem siblingPath_inj {target a b : List Char}
    (h : siblingPath target a = siblingPath target b) : a = b := by
  unfold siblingPath at h
  split at h
  · exact List.append_cancel_left h
  · exact List.append_cancel_left h

/-- The parts of a name before and after its last dot. -/
theorem name_split {name : List Char} (h : '.' ∈ name) :
    name = completeBaseName name ++ '.' :: suffix name ∧ '.' ∉ suffix name := by
  have hsplit := List.takeWhile_append_dropWhile (p := (· ≠ '.')) (l := name.reverse)
  have hdot := List.head?_dropWhile_not (· ≠ '.') name.reverse
  have htail : '.' ∉ name.reverse.takeWhile (· ≠ '.') := by
    intro hmem
    simpa using List.mem_takeWhile_imp hmem
  simp only [completeBaseName, suffix, if_pos h]
  generalize name.reverse.takeWhile (· ≠ '.') = after at *
  cases hdrop : name.reverse.dropWhile (· ≠ '.') with
  | nil =>
      rw [hdrop, List.append_nil] at hsplit
      exact absurd (List.mem_reverse.mpr h) (hsplit ▸ htail)
  | cons c before =>
      rw [hdrop] at hsplit hdot
      have hc : c = '.' := by simpa using hdot
      have hname : name = before.reverse ++ '.' :: after.reverse := by
        rw [← List.reverse_reverse name, ← hsplit, hc]
        simp
      have hlen : name.length - after.length - 1 = before.reverse.length := by
        have := congrArg List.length hname
        simp only [List.length_append, List.length_cons, List.length_reverse] at this ⊢
        omega
      refine ⟨?_, by simpa using htail⟩
      rw [hlen, hname, List.take_left]

theorem dot_notMem_suffix (name : List Char) : '.' ∉ suffix name := by
  by_cases h : '.' ∈ name
  · exact (name_split h).2
  · simp [suffix, h]

/-- Two texts split at the last occurrence of a character. -/
theorem append_cons_inj_right {c : Char} {u u' v v' : List Char} (hv : c ∉ v) (hv' : c ∉ v')
    (h : u ++ c :: v = u' ++ c :: v') : u = u' ∧ v = v' := by
  rcases List.append_eq_append_iff.mp h with ⟨t, hu, ht⟩ | ⟨t, hu, ht⟩
  · cases t with
    | nil => simpa using And.intro hu.symm ht
    | cons d t =>
        simp only [List.cons_append, List.cons.injEq] at ht
        exact absurd (by simp [ht.2, ht.1]) hv
  · cases t with
    | nil => simpa using And.intro hu ht.symm
    | cons d t =>
        simp only [List.cons_append, List.cons.injEq] at ht
        exact absurd (by simp [ht.2, ht.1]) hv'

/-! ## Digits -/

theorem isDigit_toDigits {k : Nat} {c : Char} (h : c ∈ Nat.toDigits 10 k) :
    c.isDigit = true :=
  Nat.isDigit_of_mem_toDigits (by decide) (by decide) h

theorem notMem_toDigits {c : Char} (hc : c.isDigit = false) (k : Nat) :
    c ∉ Nat.toDigits 10 k := by
  intro h
  rw [isDigit_toDigits h] at hc
  cases hc

/-- Numbers from a power of ten on have many digits. -/
theorem lt_length_toDigits {n k : Nat} (h : 10 ^ n ≤ k) :
    n < (Nat.toDigits 10 k).length := by
  by_contra hle
  cases n with
  | zero =>
      have hne : Nat.toDigits 10 k ≠ [] := by
        intro hnil
        have hval := congrArg (fun ds => Nat.ofDigitChars 10 ds 0) hnil
        simp at hval
        simp [hval] at hnil
      exact hle (List.length_pos_iff.mpr hne)
  | succ n =>
      have hlt := (Nat.length_toDigits_le_iff (b := 10) (k := n + 1) (n := k) (by decide)
        (by omega)).mp (Nat.le_of_not_lt hle)
      omega

/-! ## The template -/

section Template

variable (base ext : List Char)

/-- The base name is put into the template. -/
theorem arg_base : arg "%1 (%2)".toList base = base ++ " (%2)".toList := by
  rfl

theorem arg_base_ext : arg "%1 (%2).%3".toList base = base ++ " (%2).%3".toList := by
  rfl

theorem markNumbers_template : markNumbers " (%2)".toList = [2] := by
  rw [← markers_eq _ 5 (by decide)]
  rfl

theorem markNumbers_template_ext : markNumbers " (%2).%3".toList = [2, 3] := by
  rw [← markers_eq _ 8 (by decide)]
  rfl

theorem fill_template (value : List Char) :
    fillText 1 value " (%2)".toList = " (%2)".toList ∧
      fillText 2 value " (%2)".toList = [' ', '('] ++ value ++ [')'] := by
  simp only [← replaceMarker_eq _ _ _ 5 (show " (%2)".toList.length ≤ 5 by decide)]
  exact ⟨rfl, rfl⟩

theorem fill_template_ext (value : List Char) :
    fillText 1 value " (%2).%3".toList = " (%2).%3".toList ∧
      fillText 2 value " (%2).%3".toList = [' ', '('] ++ value ++ ").%3".toList := by
  simp only [← replaceMarker_eq _ _ _ 8 (show " (%2).%3".toList.length ≤ 8 by decide)]
  exact ⟨rfl, rfl⟩

theorem noDigitFirst_space {t : List Char} (h : t.head? = some ' ') : NoDigitFirst t := by
  intro c hc
  rw [h] at hc
  cases hc
  rfl

theorem noDigitFirst_template : NoDigitFirst " (%2)".toList := noDigitFirst_space rfl

theorem noDigitFirst_template_ext : NoDigitFirst " (%2).%3".toList := noDigitFirst_space rfl

theorem noDigitFirst_numbered (k : Nat) :
    NoDigitFirst ([' ', '('] ++ Nat.toDigits 10 k ++ ").%3".toList) := noDigitFirst_space rfl

theorem noDigitFirst_percent (t : List Char) : NoDigitFirst ('%' :: t) := by
  intro c hc
  cases hc
  rfl

/-- Once the number is in its place, the marker of the extension is left. -/
theorem numbered_template (k n : Nat) (value : List Char) :
    markNumbers ([' ', '('] ++ Nat.toDigits 10 k ++ ").%3".toList) = [3] ∧
      fillText n value ([' ', '('] ++ Nat.toDigits 10 k ++ ").%3".toList) =
        [' ', '('] ++ Nat.toDigits 10 k ++ [')', '.'] ++
          (if n = 3 then value else "%3".toList) := by
  have hsplit : [' ', '('] ++ Nat.toDigits 10 k ++ ").%3".toList =
      ([' ', '('] ++ Nat.toDigits 10 k ++ [')', '.']) ++ '%' :: ['3'] := by simp
  have hplain : '%' ∉ [' ', '('] ++ Nat.toDigits 10 k ++ [')', '.'] := by
    simp [notMem_toDigits (show Char.isDigit '%' = false by decide) k]
  have hmark : pieces ('%' :: ['3']) = [.mark 3 ['%', '3']] := by
    have hm : marker (['%', '3'] ++ []) = some (3, []) := rfl
    simpa using pieces_mark hm
  refine ⟨?_, ?_⟩
  · rw [hsplit, markNumbers_append (noDigitFirst_percent _), markNumbers_of_no_percent hplain,
      markNumbers, hmark]
    rfl
  · rw [hsplit, fillText_append (noDigitFirst_percent _), fillText_of_no_percent hplain,
      fillText, hmark]
    by_cases hn : n = 3
    · simp [Piece.fill, hn]
    · simp [Piece.fill, hn, Ne.symm hn]

/-- The number goes to the markers `%1` of the base name, if there are any. -/
theorem min_template :
    (markNumbers (base ++ " (%2)".toList)).min? =
      some (if 1 ∈ markNumbers base then 1 else 2) ∧
    (markNumbers (base ++ " (%2).%3".toList)).min? =
      some (if 1 ∈ markNumbers base then 1 else 2) := by
  have hmin : ∀ rest : List Nat, (∀ n ∈ rest, 2 ≤ n) →
      (markNumbers base ++ 2 :: rest).min? =
        some (if 1 ∈ markNumbers base then 1 else 2) := by
    intro rest hrest
    rw [List.min?_eq_some_iff]
    have hpos : ∀ n ∈ markNumbers base, 0 < n := fun n hn => pos_of_mem_markNumbers hn
    split
    · rename_i h1
      refine ⟨by simp [h1], fun n hn => ?_⟩
      rcases List.mem_append.mp hn with hn | hn
      · exact hpos n hn
      · rcases List.mem_cons.mp hn with rfl | hn
        · decide
        · exact Nat.le_of_succ_le (hrest n hn)
    · rename_i h1
      refine ⟨by simp, fun n hn => ?_⟩
      rcases List.mem_append.mp hn with hn | hn
      · have := hpos n hn
        have hne : n ≠ 1 := fun h => h1 (h ▸ hn)
        omega
      · rcases List.mem_cons.mp hn with rfl | hn
        · exact Nat.le_refl _
        · exact hrest n hn
  constructor
  · rw [markNumbers_append noDigitFirst_template, markNumbers_template]
    exact hmin [] (by simp)
  · rw [markNumbers_append noDigitFirst_template_ext, markNumbers_template_ext]
    exact hmin [3] (by simp)

end Template

/-! ## Candidates -/

section Candidates

variable {name : List Char}

/-- Without an extension. -/
theorem candidateName_plain (hext : suffix name = []) (k : Nat) :
    candidateName name k =
      if 1 ∈ markNumbers (completeBaseName name) then
        fillText 1 (Nat.toDigits 10 k) (completeBaseName name) ++ " (%2)".toList
      else
        fillText 2 (Nat.toDigits 10 k) (completeBaseName name) ++
          ([' ', '('] ++ Nat.toDigits 10 k ++ [')']) := by
  have hfill := fill_template (Nat.toDigits 10 k)
  simp only [candidateName, hext, ne_eq, not_true_eq_false, if_false]
  rw [arg_base, arg_of_min (min_template (completeBaseName name)).1,
    fillText_append noDigitFirst_template]
  split
  · rw [hfill.1]
  · rw [hfill.2]

/-- With an extension: what the last marker filled leaves. -/
theorem candidateName_ext (hext : suffix name ≠ []) (k : Nat) :
    ∃ m text, candidateName name k = fillText m (suffix name) text ∧
      (markNumbers text).min? = some m ∧
      text =
        if 1 ∈ markNumbers (completeBaseName name) then
          fillText 1 (Nat.toDigits 10 k) (completeBaseName name) ++ " (%2).%3".toList
        else
          fillText 2 (Nat.toDigits 10 k) (completeBaseName name) ++
            ([' ', '('] ++ Nat.toDigits 10 k ++ ").%3".toList) := by
  have hfill := fill_template_ext (Nat.toDigits 10 k)
  have htext : arg (arg "%1 (%2).%3".toList (completeBaseName name)) (Nat.toDigits 10 k) =
      if 1 ∈ markNumbers (completeBaseName name) then
        fillText 1 (Nat.toDigits 10 k) (completeBaseName name) ++ " (%2).%3".toList
      else
        fillText 2 (Nat.toDigits 10 k) (completeBaseName name) ++
          ([' ', '('] ++ Nat.toDigits 10 k ++ ").%3".toList) := by
    rw [arg_base_ext, arg_of_min (min_template (completeBaseName name)).2,
      fillText_append noDigitFirst_template_ext]
    split
    · rw [hfill.1]
    · rw [hfill.2]
  have hsome : ∃ m, (markNumbers (arg (arg "%1 (%2).%3".toList (completeBaseName name))
      (Nat.toDigits 10 k))).min? = some m := by
    rw [htext]
    split
    · exact ⟨_, (min_template _).2⟩
    · rw [markNumbers_append (noDigitFirst_numbered k), (numbered_template k 3 []).1]
      exact Option.isSome_iff_exists.mp (List.isSome_min?_of_mem (a := 3) (by simp))
  obtain ⟨m, hm⟩ := hsome
  refine ⟨m, _, ?_, hm, htext⟩
  simp only [candidateName, hext, ne_eq, not_false_eq_true, if_true]
  exact arg_of_min hm

/-- With the number in its place, the extension goes to the markers `%3`. -/
theorem last_marker {base : List Char} (h1 : 1 ∉ markNumbers base) (h2 : 2 ∉ markNumbers base)
    {k m : Nat}
    (hm : (markNumbers (base ++ ([' ', '('] ++ Nat.toDigits 10 k ++ ").%3".toList))).min? =
      some m) : m = 3 := by
  rw [markNumbers_append (noDigitFirst_numbered k), (numbered_template k 3 []).1,
    List.min?_eq_some_iff] at hm
  have hle : m ≤ 3 := hm.2 3 (by simp)
  rcases List.mem_append.mp hm.1 with hmem | hmem
  · have hpos := pos_of_mem_markNumbers hmem
    have hne1 : m ≠ 1 := fun h => h1 (h ▸ hmem)
    have hne2 : m ≠ 2 := fun h => h2 (h ▸ hmem)
    omega
  · simpa using hmem

/-- **A clean name is numbered as intended.** -/
theorem candidateName_clean (hclean : CleanName name) (k : Nat) :
    candidateName name k = numberedName name k := by
  have h1 : 1 ∉ markNumbers (completeBaseName name) := by
    intro h
    obtain ⟨spelled, hp⟩ := mem_markNumbers.mp h
    exact (hclean 1 spelled hp).1 rfl
  have h2 : 2 ∉ markNumbers (completeBaseName name) := by
    intro h
    obtain ⟨spelled, hp⟩ := mem_markNumbers.mp h
    exact (hclean 2 spelled hp).2.1 rfl
  have hkeep : ∀ value, fillText 2 value (completeBaseName name) = completeBaseName name :=
    fun value => fillText_eq_self fun spelled hp => absurd rfl (hclean 2 spelled hp).2.1
  by_cases hext : suffix name = []
  · rw [candidateName_plain hext, if_neg h1, hkeep]
    simp [numberedName, hext]
  · obtain ⟨m, text, hcand, hm, htext⟩ := candidateName_ext hext k
    rw [if_neg h1, hkeep] at htext
    have hthree : m = 3 := last_marker h1 h2 (htext ▸ hm)
    subst hthree
    have hbase : fillText 3 (suffix name) (completeBaseName name) = completeBaseName name :=
      fillText_eq_self fun spelled hp => (hclean 3 spelled hp).2.2 rfl hext
    rw [hcand, htext, fillText_append (noDigitFirst_numbered k), hbase,
      (numbered_template k 3 (suffix name)).2]
    simp [numberedName, hext]

/-- Candidates are at least as long as their number, up to a bound that depends
on the name only. -/
theorem digits_le_candidateName (name : List Char) (k : Nat) :
    (Nat.toDigits 10 k).length ≤
      (candidateName name k).length + 3 * ((completeBaseName name).count '%' + 2) := by
  have hplain := notMem_toDigits (show Char.isDigit '%' = false by decide) k
  by_cases hext : suffix name = []
  · rw [candidateName_plain hext]
    split
    · rename_i h1
      have := length_value_le (Nat.toDigits 10 k) h1
      rw [List.length_append]
      omega
    · simp only [List.length_append]
      omega
  · obtain ⟨m, text, hcand, -, htext⟩ := candidateName_ext hext k
    have hbound : (Nat.toDigits 10 k).length ≤ text.length ∧
        text.count '%' ≤ (completeBaseName name).count '%' + 2 := by
      have hcount := fun n => count_fillText_le (n := n) hplain (completeBaseName name)
      rw [htext]
      split
      · rename_i h1
        have hlen := length_value_le (Nat.toDigits 10 k) h1
        rw [List.length_append, List.count_append,
          show " (%2).%3".toList.count '%' = 2 by decide]
        exact ⟨by omega, Nat.add_le_add_right (hcount 1) 2⟩
      · simp only [List.length_append, List.count_append, List.count_eq_zero.mpr hplain,
          show ([' ', '('] : List Char).count '%' = 0 by decide,
          show ").%3".toList.count '%' = 1 by decide]
        have := hcount 2
        omega
    have hfilled := length_le_length_fillText_add m (suffix name) text
    rw [hcand]
    omega

/-- Two texts that end in a parenthesis without an opening one in it. -/
theorem parens_inj {u u' d d' : List Char} (hd : '(' ∉ d) (hd' : '(' ∉ d')
    (h : u ++ ([' ', '('] ++ d ++ [')']) = u' ++ ([' ', '('] ++ d' ++ [')'])) :
    u = u' ∧ d = d' := by
  have hsplit : (u ++ [' ']) ++ '(' :: (d ++ [')']) = (u' ++ [' ']) ++ '(' :: (d' ++ [')']) := by
    simpa using h
  obtain ⟨hu, hdd⟩ := append_cons_inj_right (by simp [hd]) (by simp [hd']) hsplit
  exact ⟨List.append_cancel_right hu, List.append_cancel_right hdd⟩

/-- A numbered name with an extension, split at its last dot. -/
theorem numberedName_ext_inj (hext : suffix name ≠ []) {u z : List Char} {j : Nat}
    (hz : '.' ∉ z) (h : u ++ '.' :: z = numberedName name j) :
    u = completeBaseName name ++ ([' ', '('] ++ Nat.toDigits 10 j ++ [')']) ∧
      z = suffix name := by
  refine append_cons_inj_right hz (dot_notMem_suffix name) ?_
  rw [h]
  simp [numberedName, hext]

/-- What stands in the parentheses of a numbered name is its number. -/
theorem percent_ne_digits {c : Char} {j : Nat} : ['%', c] ≠ Nat.toDigits 10 j := by
  intro h
  exact notMem_toDigits (c := '%') (by decide) j (by simp [← h])

/-- **Names with markers.**  If the base name has a marker that is filled, no
candidate from a certain number on is a numbered name: the number is missing
from the parentheses, or it stands in the base name too, or the extension
does. -/
theorem candidateName_ne (hbad : ¬CleanName name) {k : Nat} (j : Nat)
    (hk : 10 ^ (4 * (completeBaseName name).length) ≤ k) :
    candidateName name k ≠ numberedName name j := by
  intro h
  have hlong := lt_length_toDigits hk
  have hopen : ∀ n, '(' ∉ Nat.toDigits 10 n := notMem_toDigits (by decide)
  have hplain := notMem_toDigits (show Char.isDigit '%' = false by decide) k
  have hpercent : (completeBaseName name).count '%' ≤ (completeBaseName name).length :=
    List.count_le_length
  by_cases hext : suffix name = []
  · have hnum : numberedName name j =
        completeBaseName name ++ ([' ', '('] ++ Nat.toDigits 10 j ++ [')']) := by
      simp [numberedName, hext]
    rw [candidateName_plain hext, hnum] at h
    split at h
    · -- the number went to `%1`: `%2` is left in the parentheses
      have heq := parens_inj (d := ['%', '2']) (by decide) (hopen j) h
      exact percent_ne_digits heq.2
    · rename_i h1
      obtain ⟨hsame, -⟩ := parens_inj (hopen k) (hopen j) h
      have h2 : 2 ∈ markNumbers (completeBaseName name) := by
        by_contra h2
        refine hbad fun n spelled hp => ⟨?_, ?_, fun _ hne => absurd hext hne⟩
        · rintro rfl
          exact h1 (mem_markNumbers.mpr ⟨spelled, hp⟩)
        · rintro rfl
          exact h2 (mem_markNumbers.mpr ⟨spelled, hp⟩)
      -- the number stands in the base name
      have hlen := length_value_le (Nat.toDigits 10 k) h2
      rw [hsame] at hlen
      omega
  · obtain ⟨m, text, hcand, hm, htext⟩ := candidateName_ext hext k
    rw [hcand] at h
    split at htext
    · -- the number went to `%1`: the extension, or `%2`, is in the parentheses
      rw [htext, (min_template _).2, Option.some.injEq] at hm
      rw [htext, fillText_append noDigitFirst_template_ext, ← hm] at h
      split at h
      · rw [(fill_template_ext _).1] at h
        obtain ⟨hu, -⟩ := numberedName_ext_inj hext (z := ['%', '3']) (by decide)
          ((List.append_assoc _ " (%2)".toList _).trans h)
        have heq := parens_inj (d := ['%', '2']) (by decide) (hopen j) hu
        exact percent_ne_digits heq.2
      · rw [(fill_template_ext _).2] at h
        obtain ⟨hu, hz⟩ := numberedName_ext_inj hext (z := ['%', '3'])
          (u := _ ++ ([' ', '('] ++ suffix name ++ [')'])) (by decide) (by simpa using h)
        rw [← hz] at hu
        have heq := parens_inj (d := ['%', '3']) (by decide) (hopen j) hu
        exact percent_ne_digits heq.2
    · rename_i h1
      rw [htext, fillText_append (noDigitFirst_numbered k), (numbered_template k m _).2] at h
      have hz : '.' ∉ if m = 3 then suffix name else "%3".toList := by
        split
        · exact dot_notMem_suffix name
        · decide
      obtain ⟨hu, -⟩ := numberedName_ext_inj hext hz
        (u := _ ++ ([' ', '('] ++ Nat.toDigits 10 k ++ [')'])) (by simpa using h)
      obtain ⟨hsame, -⟩ := parens_inj (hopen k) (hopen j) hu
      by_cases h2 : 2 ∈ markNumbers (completeBaseName name)
      · -- the number stands in the base name
        have hvalue := length_value_le (Nat.toDigits 10 k) h2
        have hcount := count_fillText_le (n := 2) hplain (completeBaseName name)
        have hfilled := length_le_length_fillText_add m (suffix name)
          (fillText 2 (Nat.toDigits 10 k) (completeBaseName name))
        rw [hsame] at hfilled
        omega
      · -- the extension stands in the base name
        have hkeep : fillText 2 (Nat.toDigits 10 k) (completeBaseName name) =
            completeBaseName name :=
          fillText_eq_self fun spelled hp => absurd (mem_markNumbers.mpr ⟨spelled, hp⟩) h2
        rw [hkeep] at hsame htext
        have hthree : m = 3 := last_marker h1 h2 (htext ▸ hm)
        subst hthree
        refine hbad fun n spelled hp => ⟨?_, ?_, ?_⟩
        · rintro rfl
          exact h1 (mem_markNumbers.mpr ⟨spelled, hp⟩)
        · rintro rfl
          exact h2 (mem_markNumbers.mpr ⟨spelled, hp⟩)
        · rintro rfl -
          exact eq_value_of_fillText_eq_self hsame hp

end Candidates

/-! ## The loop -/

/-- The path tried as number `n`: the target itself, then the candidates. -/
def tryPath (target : String) : Nat → String
  | 0 => target
  | n + 1 => String.ofList (collisionPath target.toList (n + 1))

/-- The path in the target's directory with the name numbered `k`. -/
def numberedPath (target : String) (k : Nat) : String :=
  String.ofList (siblingPath target.toList (numberedName (fileName target.toList) k))

section Loop

variable {κ : Type} (P : Platform κ) (H : IncrementalHash)

/-- Each file has finitely many names among the paths tried. -/
def FiniteSpellings (target : String) : Prop :=
  ∀ k, {path | (∃ n, path = tryPath target n) ∧ P.qtKey path = some k}.Finite

/-- The target itself if it is free, otherwise the numbered path that is free
with the least number. -/
def RightPath (fs : FileStore κ) (target finalPath : String) : Prop :=
  if qtExists P fs target then
    ∃ k, 1 ≤ k ∧ finalPath = numberedPath target k ∧
      qtExists P fs (numberedPath target k) = false ∧
      ∀ j, 1 ≤ j → j < k → qtExists P fs (numberedPath target j) = true
  else finalPath = target

/-- The files stay as they are while the loop runs. -/
def FilesStay (fs : FileStore κ) (a : View κ × Input) : Prop := a.1.fs = fs ∧ a.2 = .go

/-- A run of the loop for session `s` picks `finalPath`. -/
def Picks (s : ActiveTransferSession) (fs : FileStore κ) (finalPath : String) : Prop :=
  ∃ h, (bodyMachine P H s).Steps (fun _ _ a => FilesStay fs a)
    (.upload (.resolve s.targetFilePath 1)) [] (.upload (.rename finalPath)) h

/-- No run of the loop goes on forever: after some number of steps a path is
picked. -/
def Resolves (s : ActiveTransferSession) (fs : FileStore κ) : Prop :=
  ∃ n, (bodyMachine P H s).Ensures (FilesStay fs)
    (fun pc _ => ∃ finalPath, pc = .upload (.rename finalPath)) n
    (.upload (.resolve s.targetFilePath 1)) []

variable {P H} {s : ActiveTransferSession} {fs : FileStore κ}

/-- A path that is tried does not exist, whatever files there are at the names
in a finite set. -/
theorem exists_free {target : String} (hspell : FiniteSpellings P target) {used : Set κ}
    (hused : used.Finite) : ∃ n, ∀ k, P.qtKey (tryPath target n) = some k → k ∉ used := by
  by_contra hall
  simp only [not_exists, not_forall, not_not] at hall
  -- all paths tried are among finitely many, so their lengths are bounded
  have hpaths : {path | ∃ n, path = tryPath target n}.Finite := by
    refine (hused.biUnion fun k _ => hspell k).subset ?_
    rintro path ⟨n, rfl⟩
    obtain ⟨k, hk, hmem⟩ := hall n
    exact Set.mem_biUnion hmem ⟨⟨n, rfl⟩, hk⟩
  obtain ⟨bound, hbound⟩ := (hpaths.image fun path => path.toList.length).bddAbove
  have hlen : ∀ n, (tryPath target n).toList.length ≤ bound :=
    fun n => hbound ⟨_, ⟨n, rfl⟩, rfl⟩
  -- but a large number does not fit
  let slack := 3 * ((completeBaseName (fileName target.toList)).count '%' + 2)
  obtain ⟨n, hn⟩ := Nat.exists_eq_succ_of_ne_zero
    (Nat.pos_iff_ne_zero.mp (Nat.pow_pos (n := bound + slack) (show 0 < 10 by decide)))
  have hdigits : bound + slack < (Nat.toDigits 10 (n + 1)).length :=
    lt_length_toDigits (Nat.le_of_eq hn)
  have hcandidate := digits_le_candidateName (fileName target.toList) (n + 1)
  have hpath : (candidateName (fileName target.toList) (n + 1)).length ≤
      (tryPath target (n + 1)).toList.length := by
    rw [tryPath, String.toList_ofList, collisionPath_eq, siblingPath]
    split <;> simp only [List.length_append] <;> omega
  have := hlen (n + 1)
  omega

/-- One round of the loop. -/
theorem resolve_step {a : View κ × Input} (ha : FilesStay fs a) (n : Nat) :
    (bodyMachine P H s).step (.upload (.resolve (tryPath s.targetFilePath n) (n + 1))) a =
      some (if qtExists P fs (tryPath s.targetFilePath n) then
          .upload (.resolve (tryPath s.targetFilePath (n + 1)) (n + 2))
        else .upload (.rename (tryPath s.targetFilePath n)), [.silent]) := by
  obtain ⟨v, inp⟩ := a
  obtain ⟨rfl, rfl⟩ := ha
  simp only [bodyMachine, serve, serveUpload]
  split <;> rfl

/-- From a path tried on, the loop ends at the latest at a free one. -/
theorem resolve_from {n d : Nat}
    (hfree : qtExists P fs (tryPath s.targetFilePath (n + d)) = false)
    (h : List (Effect κ)) :
    (bodyMachine P H s).Ensures (FilesStay fs)
      (fun pc _ => ∃ finalPath, pc = .upload (.rename finalPath)) (d + 1)
      (.upload (.resolve (tryPath s.targetFilePath n) (n + 1))) h := by
  induction d generalizing n h with
  | zero =>
      refine .next fun a ha => ⟨_, _, resolve_step ha n, .here ?_⟩
      rw [if_neg (by simpa using hfree)]
      exact ⟨_, rfl⟩
  | succ d ih =>
      refine .next fun a ha => ⟨_, _, resolve_step ha n, ?_⟩
      split
      · exact ih (by rwa [Nat.add_assoc, Nat.add_comm 1 d]) _
      · exact .here ⟨_, rfl⟩

/-- **The loop ends** for every target and every finite set of files. -/
theorem resolve_ends (hspell : FiniteSpellings P s.targetFilePath)
    (hfinite : {k | (fs.names k).isSome}.Finite) : Resolves P H s fs := by
  obtain ⟨m, hm⟩ := exists_free hspell hfinite
  refine ⟨m + 1, resolve_from (n := 0) ?_ []⟩
  rw [Nat.zero_add]
  unfold qtExists
  split
  · rename_i k hk
    simpa [FileStore.exists?] using hm k hk
  · rfl

/-- The path is the first free one of those tried. -/
def FirstFree (P : Platform κ) (fs : FileStore κ) (target finalPath : String) : Prop :=
  ∃ n, finalPath = tryPath target n ∧ qtExists P fs finalPath = false ∧
    ∀ i < n, qtExists P fs (tryPath target i) = true

/-- While the loop runs, all paths tried so far exist; after it, one has been
picked. -/
def Searching (P : Platform κ) (fs : FileStore κ) (target : String) : Pc H → Prop
  | .upload (.resolve path count) => ∃ n, path = tryPath target n ∧ count = n + 1 ∧
      ∀ i < n, qtExists P fs (tryPath target i) = true
  | .upload (.rename finalPath) => FirstFree P fs target finalPath
  | .upload (.saved _) => True
  | .upload .dropUnsaved => True
  | .failed _ => True
  | .done => True
  | _ => False

theorem searching_step {pc pc' : Pc H} {a : View κ × Input} {es : List (Effect κ)}
    (hpc : Searching P fs s.targetFilePath pc) (ha : FilesStay fs a)
    (hs : (bodyMachine P H s).step pc a = some (pc', es)) :
    Searching P fs s.targetFilePath pc' := by
  cases pc with
  | dispatch b => exact hpc.elim
  | download pc => exact hpc.elim
  | failed error =>
      simp only [bodyMachine, serve, ha.2, Option.map_some, Option.some.injEq,
        Prod.mk.injEq] at hs
      exact hs.1 ▸ trivial
  | done => simp [bodyMachine, serve] at hs
  | upload pc =>
      cases pc with
      | resolve path count =>
          obtain ⟨n, rfl, rfl, hused⟩ := hpc
          rw [resolve_step ha n, Option.some.injEq, Prod.mk.injEq] at hs
          rw [← hs.1]
          split
          · rename_i hexists
            refine ⟨n + 1, rfl, rfl, fun i hi => ?_⟩
            rcases Nat.lt_succ_iff_lt_or_eq.mp hi with hlt | rfl
            · exact hused i hlt
            · exact hexists
          · rename_i hfree
            exact ⟨n, rfl, by simpa using hfree, hused⟩
      | rename finalPath =>
          simp only [bodyMachine, serve, serveUpload, ha.2] at hs
          (repeat' split at hs) <;> cases hs <;> trivial
      | saved finalPath =>
          simp only [bodyMachine, serve, serveUpload, ha.2] at hs
          cases hs
          trivial
      | dropUnsaved =>
          simp only [bodyMachine, serve, serveUpload, ha.2] at hs
          cases hs
          trivial
      | _ => exact hpc.elim

/-- **What a run of the loop picks.** -/
theorem Picks.first {finalPath : String} (hpicks : Picks P H s fs finalPath) :
    FirstFree P fs s.targetFilePath finalPath := by
  obtain ⟨h, hrun⟩ := hpicks
  refine Machine.Steps.invariant (fun pc _ => Searching P fs s.targetFilePath pc) ?_ hrun ?_
  · intro pc _ a pc' es hpc ha hs
    exact searching_step hpc ha hs
  · exact ⟨0, rfl, rfl, by simp⟩

/-- A loop that ends picks a path. -/
theorem Resolves.picks (hends : Resolves P H s fs) :
    ∃ finalPath, Picks P H s fs finalPath := by
  obtain ⟨n, hn⟩ := hends
  let v : View κ := { fs := fs, running := true, cancelled := false }
  have hstay : FilesStay fs (v, Input.go) := ⟨rfl, rfl⟩
  obtain ⟨_, h, hrun, finalPath, rfl⟩ := hn.exists_steps hstay
  exact ⟨finalPath, h, hrun⟩

end Loop

/-! ## When the names are right -/

/-- For every finite set of files the loop ends, and it picks the right
path. -/
def CollisionNamesRight (target : String) : Prop :=
  ∀ (κ : Type) (P : Platform κ) (H : IncrementalHash) (s : ActiveTransferSession)
    (fs : FileStore κ), s.targetFilePath = target → FiniteSpellings P target → fs.WF →
    {k | (fs.names k).isSome}.Finite →
    Resolves P H s fs ∧ ∀ finalPath, Picks P H s fs finalPath → RightPath P fs target finalPath

theorem tryPath_clean {target : String} (hclean : CleanName (fileName target.toList))
    (n : Nat) : tryPath target (n + 1) = numberedPath target (n + 1) := by
  rw [tryPath, numberedPath, collisionPath_eq, candidateName_clean hclean]

/-- With a clean name the first free path is the right one. -/
theorem FirstFree.right {κ : Type} {P : Platform κ} {fs : FileStore κ}
    {target finalPath : String} (hclean : CleanName (fileName target.toList))
    (hfirst : FirstFree P fs target finalPath) : RightPath P fs target finalPath := by
  obtain ⟨n, rfl, hfree, hused⟩ := hfirst
  cases n with
  | zero => exact (if_neg (by simpa [tryPath] using hfree)).mpr rfl
  | succ n =>
      have htarget : qtExists P fs target = true := hused 0 (Nat.succ_pos n)
      refine (if_pos htarget).mpr ⟨n + 1, by omega, tryPath_clean hclean n, ?_, ?_⟩
      · rwa [← tryPath_clean hclean n]
      · intro j hj hlt
        obtain ⟨i, rfl⟩ := Nat.exists_eq_succ_of_ne_zero (Nat.pos_iff_ne_zero.mp hj)
        rw [Nat.succ_eq_add_one, ← tryPath_clean hclean i]
        exact hused (i + 1) hlt

/-- A store of empty files with the given names. -/
def filesAt (paths : List String) : FileStore String :=
  (worldWith (paths.map fun path => (path, []))).fs

theorem filesAt_wf (paths : List String) : (filesAt paths).WF := (worldWith_init _).1

theorem filesAt_names (paths : List String) (path : String) :
    ((filesAt paths).names path).isSome = decide (path ∈ paths) := by
  rw [Bool.eq_iff_iff]
  simp [filesAt, worldWith, List.findIdx?_isSome]

theorem filesAt_finite (paths : List String) :
    {path | ((filesAt paths).names path).isSome}.Finite := by
  refine (List.finite_toSet paths).subset fun path hpath => ?_
  simpa [filesAt_names] using hpath

theorem qtExists_filesAt (paths : List String) (path : String) :
    qtExists samplePlatform (filesAt paths) path = decide (path ∈ paths) :=
  filesAt_names paths path

theorem finiteSpellings_sample (target : String) : FiniteSpellings samplePlatform target := by
  refine fun k => (Set.finite_singleton k).subset ?_
  rintro path ⟨-, hpath⟩
  exact Option.some.inj hpath

/-- **Collision renaming.**  The loop finds the right path for every finite set
of files exactly when the base name of the target has no marker that the number
or the extension is put into. -/
theorem collision_names_right (target : String) :
    CollisionNamesRight target ↔ CleanName (fileName target.toList) := by
  constructor
  · intro hright
    by_contra hbad
    -- the target and so many candidates exist that no other is a numbered name
    let bound := 10 ^ (4 * (completeBaseName (fileName target.toList)).length)
    let paths := (List.range (bound + 1)).map (tryPath target)
    have hmem : ∀ i ≤ bound, tryPath target i ∈ paths := fun i hi =>
      List.mem_map.mpr ⟨i, List.mem_range.mpr (Nat.lt_succ_of_le hi), rfl⟩
    obtain ⟨hends, hall⟩ := hright String samplePlatform sha256
      (sampleSession target .mobileUploadToPc) (filesAt paths) rfl
      (finiteSpellings_sample target) (filesAt_wf paths) (filesAt_finite paths)
    obtain ⟨finalPath, hpicks⟩ := hends.picks
    obtain ⟨n, hpath, hfree, -⟩ := hpicks.first
    have htarget : qtExists samplePlatform (filesAt paths) target = true := by
      rw [qtExists_filesAt, decide_eq_true_eq]
      exact hmem 0 (Nat.zero_le _)
    have hfinal := hall finalPath hpicks
    rw [RightPath, if_pos htarget] at hfinal
    obtain ⟨k, -, hnumbered, -⟩ := hfinal
    have hlarge : bound < n := by
      by_contra hle
      rw [hpath, qtExists_filesAt, decide_eq_false_iff_not] at hfree
      exact hfree (hmem n (Nat.le_of_not_lt hle))
    obtain ⟨m, rfl⟩ := Nat.exists_eq_succ_of_ne_zero (Nat.ne_zero_of_lt hlarge)
    refine candidateName_ne hbad k (Nat.le_of_lt hlarge) ?_
    have hsame := congrArg String.toList (hpath.symm.trans hnumbered)
    rw [Nat.succ_eq_add_one, tryPath, numberedPath, String.toList_ofList,
      String.toList_ofList, collisionPath_eq] at hsame
    exact siblingPath_inj hsame
  · intro hclean κ P H s fs hs hspell hwf hfinite
    subst hs
    exact ⟨resolve_ends hspell hfinite, fun finalPath hpicks => hpicks.first.right hclean⟩

/-- A percent-encoded name: next to an existing `a%2Fb.txt` the loop picks
`a1Fb (1).txt`. -/
theorem percent_name_lost : ¬∀ target, CollisionNamesRight target := by
  intro hall
  obtain ⟨hends, hright⟩ := hall "D/a%2Fb.txt" String samplePlatform sha256
    (sampleSession "D/a%2Fb.txt" .mobileUploadToPc) (filesAt ["D/a%2Fb.txt"]) rfl
    (finiteSpellings_sample _) (filesAt_wf _) (filesAt_finite _)
  obtain ⟨finalPath, hpicks⟩ := hends.picks
  obtain ⟨n, hpath, hfree, hused⟩ := hpicks.first
  have hfinal := hright finalPath hpicks
  rw [RightPath, if_pos (by decide +kernel)] at hfinal
  obtain ⟨k, hk, hnumbered, -, hleast⟩ := hfinal
  have hfirst : n = 1 := by
    match n with
    | 0 =>
        rw [hpath, qtExists_filesAt] at hfree
        exact absurd hfree (by decide +kernel)
    | 1 => rfl
    | n + 2 => exact absurd (hused 1 (by omega)) (by decide +kernel)
  have hone : k = 1 := by
    by_contra hne
    exact absurd (hleast 1 (Nat.le_refl 1) (by omega)) (by decide +kernel)
  subst hfirst hone
  exact absurd (hpath.symm.trans hnumbered) (by decide +kernel)

end Iriseus.Core
