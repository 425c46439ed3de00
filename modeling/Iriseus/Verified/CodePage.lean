import Iriseus.Verified.ByteStream
import Mathlib.Data.List.TakeWhile

/-!
# UTF-8 text read in a narrow code page

A library that takes byte strings for text in a narrow code page, and ends
them at the first zero byte, reads UTF-8 text as another text in general.
Narrow code pages agree with ASCII, and none of them reads a text with other
characters as that text: in a single-byte page every character beyond ASCII
becomes two or more (`CodePage.ofTable`).

## Main results

* `CodePage.narrow_eq_self` — ASCII text without a zero is read as itself.
* `CodePage.narrow_ne_self` — other text without a zero is not.
-/

namespace Iriseus.Verified

open Iriseus.Verified.ByteStream

/-- The bytes of a text in UTF-8. -/
def utf8 (t : List Char) : Bytes := t.flatMap String.utf8EncodeChar

/-- The characters from 1 to 127. -/
def PlainChar (c : Char) : Prop := c ≠ '\x00' ∧ c.toNat < 128

instance (c : Char) : Decidable (PlainChar c) := inferInstanceAs (Decidable (_ ∧ _))

theorem utf8EncodeChar_of_lt {c : Char} (h : c.toNat < 128) :
    String.utf8EncodeChar c = [UInt8.ofNat c.toNat] := by
  have hle : c.val.toNat ≤ 127 := Nat.le_of_lt_succ h
  simp only [String.utf8EncodeChar, hle, if_true]
  rfl

theorem one_le_length_utf8EncodeChar (c : Char) : 1 ≤ (String.utf8EncodeChar c).length := by
  rw [String.length_utf8EncodeChar]
  exact Char.utf8Size_pos c

theorem two_le_length_utf8EncodeChar {c : Char} (h : 128 ≤ c.toNat) :
    2 ≤ (String.utf8EncodeChar c).length := by
  have hlt : ¬c.val.toNat ≤ 127 := Nat.not_le.mpr h
  simp only [String.utf8EncodeChar, hlt, if_false]
  (repeat' split) <;> simp

/-- Only the character zero has a zero byte. -/
theorem zero_notMem_utf8EncodeChar {c : Char} (h : c ≠ '\x00') :
    (0 : UInt8) ∉ String.utf8EncodeChar c := by
  have hbyte : ∀ n, n % 256 ≠ 0 → (0 : UInt8) ≠ UInt8.ofNat n := by
    intro n hn heq
    have hval := congrArg UInt8.toNat heq
    rw [UInt8.toNat_ofNat'] at hval
    exact hn hval.symm
  have hpos : c.val.toNat ≠ 0 := by
    intro hzero
    exact h (Char.ext (UInt32.toNat_inj.mp hzero))
  unfold String.utf8EncodeChar
  simp only
  split
  · rw [List.mem_singleton]
    exact hbyte c.val.toNat (by omega)
  · split
    · simp only [List.mem_cons, List.not_mem_nil, or_false, not_or]
      exact ⟨hbyte _ (by omega), hbyte _ (by omega)⟩
    · split
      · simp only [List.mem_cons, List.not_mem_nil, or_false, not_or]
        exact ⟨hbyte _ (by omega), hbyte _ (by omega), hbyte _ (by omega)⟩
      · simp only [List.mem_cons, List.not_mem_nil, or_false, not_or]
        exact ⟨hbyte _ (by omega), hbyte _ (by omega), hbyte _ (by omega),
          hbyte _ (by omega)⟩

theorem zero_notMem_utf8 {t : List Char} (h : '\x00' ∉ t) : (0 : UInt8) ∉ utf8 t := by
  intro hmem
  obtain ⟨c, hc, hbyte⟩ := List.mem_flatMap.mp hmem
  exact zero_notMem_utf8EncodeChar (fun heq => h (heq ▸ hc)) hbyte

theorem length_le_length_utf8 (t : List Char) : t.length ≤ (utf8 t).length := by
  induction t with
  | nil => exact Nat.le_refl _
  | cons c t ih =>
      have hc := one_le_length_utf8EncodeChar c
      rw [utf8, List.flatMap_cons, List.length_append, List.length_cons]
      rw [utf8] at ih
      omega

/-- Text beyond ASCII has more bytes than characters. -/
theorem length_lt_length_utf8 {t : List Char} (h : ∃ c ∈ t, 128 ≤ c.toNat) :
    t.length < (utf8 t).length := by
  obtain ⟨c, hc, hlarge⟩ := h
  obtain ⟨before, after, rfl⟩ := List.append_of_mem hc
  have hb := length_le_length_utf8 before
  have ha := length_le_length_utf8 after
  have htwo := two_le_length_utf8EncodeChar hlarge
  simp only [utf8, List.flatMap_append, List.flatMap_cons, List.length_append,
    List.length_cons] at hb ha ⊢
  omega

theorem utf8_of_lt {t : List Char} (h : ∀ c ∈ t, c.toNat < 128) :
    utf8 t = t.map fun c => UInt8.ofNat c.toNat := by
  induction t with
  | nil => rfl
  | cons c t ih =>
      rw [List.forall_mem_cons] at h
      rw [utf8, List.flatMap_cons, utf8EncodeChar_of_lt h.1, List.map_cons, ← ih h.2]
      rfl

/-- A narrow code page: how its bytes are read as text. -/
structure CodePage where
  decode : Bytes → List Char
  /-- ASCII bytes are read as ASCII characters. -/
  ascii : ∀ bs : Bytes, (∀ b ∈ bs, b.toNat < 128) → decode bs = bs.map fun b => Char.ofNat b.toNat
  /-- It is not UTF-8: no text beyond ASCII is read as itself. -/
  foreign : ∀ t : List Char, (∃ c ∈ t, 128 ≤ c.toNat) → decode (utf8 t) ≠ t

namespace CodePage

/-- A single-byte code page. -/
def ofTable (table : UInt8 → Char)
    (hascii : ∀ b : UInt8, b.toNat < 128 → table b = Char.ofNat b.toNat) : CodePage where
  decode bs := bs.map table
  ascii bs hbs := List.map_congr_left fun b hb => hascii b (hbs b hb)
  foreign t ht heq := by
    have hlen := congrArg List.length heq
    rw [List.length_map] at hlen
    exact Nat.ne_of_gt (length_lt_length_utf8 ht) hlen

/-- The characters Windows-1252 has from 0x80 to 0x9F. -/
def windows1252High : List Nat :=
  [ 0x20AC, 0x0081, 0x201A, 0x0192, 0x201E, 0x2026, 0x2020, 0x2021
  , 0x02C6, 0x2030, 0x0160, 0x2039, 0x0152, 0x008D, 0x017D, 0x008F
  , 0x0090, 0x2018, 0x2019, 0x201C, 0x201D, 0x2022, 0x2013, 0x2014
  , 0x02DC, 0x2122, 0x0161, 0x203A, 0x0153, 0x009D, 0x017E, 0x0178 ]

def windows1252 : CodePage :=
  .ofTable
    (fun b =>
      if b.toNat < 0x80 then Char.ofNat b.toNat
      else Char.ofNat (windows1252High.getD (b.toNat - 0x80) b.toNat))
    (fun _ hb => if_pos hb)

/-- A path handed over as UTF-8 and read up to its first zero byte. -/
def narrow (cp : CodePage) (t : List Char) : List Char :=
  cp.decode ((utf8 t).takeWhile (· ≠ 0))

variable (cp : CodePage)

theorem narrow_of_notMem {t : List Char} (h : '\x00' ∉ t) : cp.narrow t = cp.decode (utf8 t) := by
  rw [narrow, List.takeWhile_eq_self_iff.mpr]
  intro b hb
  have hne : b ≠ 0 := fun heq => zero_notMem_utf8 h (heq ▸ hb)
  simpa using hne

theorem narrow_eq_self {t : List Char} (h : ∀ c ∈ t, PlainChar c) : cp.narrow t = t := by
  have hlt : ∀ c ∈ t, c.toNat < 128 := fun c hc => (h c hc).2
  have hback : ∀ c ∈ t, Char.ofNat (UInt8.ofNat c.toNat).toNat = c := by
    intro c hc
    have := hlt c hc
    rw [UInt8.toNat_ofNat_of_lt' (by simp only [UInt8.size]; omega), Char.ofNat_toNat]
  rw [cp.narrow_of_notMem fun hzero => (h _ hzero).1 rfl, utf8_of_lt hlt, cp.ascii,
    List.map_map]
  · exact List.map_congr_left hback |>.trans (List.map_id t)
  · intro b hb
    obtain ⟨c, hc, rfl⟩ := List.mem_map.mp hb
    have := hlt c hc
    rwa [UInt8.toNat_ofNat_of_lt' (by simp only [UInt8.size]; omega)]

theorem narrow_ne_self {t : List Char} (hzero : '\x00' ∉ t) (h : ¬∀ c ∈ t, PlainChar c) :
    cp.narrow t ≠ t := by
  simp only [not_forall, PlainChar, not_and, Nat.not_lt] at h
  obtain ⟨c, hc, hlarge⟩ := h
  rw [cp.narrow_of_notMem hzero]
  exact cp.foreign t ⟨c, hc, hlarge fun heq => hzero (heq ▸ hc)⟩

end CodePage

end Iriseus.Verified
