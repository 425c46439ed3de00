import Iriseus.Verified.ByteStream
import Mathlib.Data.List.TakeWhile

/-!
# URL-safe base64 without padding, as libsodium codes it

`bin2base64` writes three-byte groups as four characters and a remainder of
one or two bytes as two or three characters.  `base642bin` is libsodium's
decoding loop: it reads characters of the alphabet into an accumulator,
emitting a byte whenever eight bits are there, and stops at the first other
character.  It fails when more than four bits are left over or the bits left
over are not zero.

A text of characters of the alphabet is `Canonical` when its last group is not a
single character and the bits of its last character that reach no byte are zero.

## Main results

* `base642bin_bin2base64` — decoding the text of some bytes gives them back.
* `base642bin_isSome_iff` — what is decoded: the text up to the first character
  outside the alphabet, if it is canonical.
* `bin2base64_of_base642bin` — encoding decoded bytes gives that text back.
-/

namespace Iriseus.Verified.Base64

open Iriseus.Verified.ByteStream

/-- The character of a six-bit value. -/
def byteToChar (n : Nat) : Char :=
  if n < 26 then Char.ofNat (65 + n)
  else if n < 52 then Char.ofNat (71 + n)
  else if n < 62 then Char.ofNat (n - 4)
  else if n = 62 then '-'
  else '_'

/-- The six-bit value of a character of the alphabet. -/
def charToByte (c : Char) : Option Nat :=
  if 'A' ≤ c ∧ c ≤ 'Z' then some (c.toNat - 65)
  else if 'a' ≤ c ∧ c ≤ 'z' then some (c.toNat - 71)
  else if '0' ≤ c ∧ c ≤ '9' then some (c.toNat + 4)
  else if c = '-' then some 62
  else if c = '_' then some 63
  else none

/-- `sodium_bin2base64`, without the terminating NUL. -/
def bin2base64 : Bytes → List Char
  | a :: b :: c :: rest =>
      let acc := a.toNat * 65536 + b.toNat * 256 + c.toNat
      byteToChar (acc / 262144) :: byteToChar (acc / 4096 % 64)
        :: byteToChar (acc / 64 % 64) :: byteToChar (acc % 64) :: bin2base64 rest
  | [a, b] =>
      let acc := a.toNat * 256 + b.toNat
      [byteToChar (acc / 1024), byteToChar (acc / 16 % 64), byteToChar (acc * 4 % 64)]
  | [a] => [byteToChar (a.toNat / 4), byteToChar (a.toNat * 16 % 64)]
  | [] => []

/-- The decoding loop: bits not yet emitted, their number, bytes emitted so
far, and the text still to read.  It returns what is left of each. -/
def decodeLoop : Nat → Nat → Bytes → List Char → Nat × Nat × Bytes × List Char
  | acc, accLen, out, [] => (acc, accLen, out, [])
  | acc, accLen, out, c :: rest =>
      match charToByte c with
      | none => (acc, accLen, out, c :: rest)
      | some d =>
          let acc := acc * 64 + d
          if accLen + 6 ≥ 8 then
            decodeLoop (acc % 2 ^ (accLen - 2)) (accLen - 2)
              (out ++ [UInt8.ofNat (acc / 2 ^ (accLen - 2))]) rest
          else decodeLoop acc (accLen + 6) out rest

/-- `sodium_base642bin` with no characters to ignore: the bytes and the text
after the last character read, or failure. -/
def base642bin (text : List Char) : Option (Bytes × List Char) :=
  match decodeLoop 0 0 [] text with
  | (acc, accLen, out, rest) =>
      if accLen > 4 ∨ acc ≠ 0 then none else some (out, rest)

example : bin2base64 [0x66, 0x6f, 0x6f, 0xff] = "Zm9v_w".toList := by decide

example : base642bin "Zm9v_w!".toList = some ([0x66, 0x6f, 0x6f, 0xff], ['!']) := by
  decide

/-! ## Round trip -/

theorem charToByte_byteToChar {n : Nat} (hn : n < 64) : charToByte (byteToChar n) = some n := by
  have htable : ∀ n : Fin 64, charToByte (byteToChar n) = some n.val := by decide
  exact htable ⟨n, hn⟩

/-- Fewer than eight bits are there after the character: nothing is emitted. -/
theorem decodeLoop_gather {acc accLen d : Nat} {out : Bytes} {rest : List Char}
    (hd : d < 64) (hlen : accLen + 6 < 8) :
    decodeLoop acc accLen out (byteToChar d :: rest) =
      decodeLoop (acc * 64 + d) (accLen + 6) out rest := by
  simp only [decodeLoop, charToByte_byteToChar hd]
  rw [if_neg (by omega)]

/-- With the character a byte is there: it is emitted. -/
theorem decodeLoop_emit {acc accLen d : Nat} {b : UInt8} {out : Bytes} {rest : List Char}
    (hd : d < 64) (hlen : 8 ≤ accLen + 6)
    (hbyte : (acc * 64 + d) / 2 ^ (accLen - 2) = b.toNat) :
    decodeLoop acc accLen out (byteToChar d :: rest) =
      decodeLoop ((acc * 64 + d) % 2 ^ (accLen - 2)) (accLen - 2) (out ++ [b]) rest := by
  simp only [decodeLoop, charToByte_byteToChar hd]
  rw [if_pos (by omega), hbyte, UInt8.ofNat_toNat]

/-- The loop reads the text of some bytes to its end, and no bits are left. -/
theorem decodeLoop_bin2base64 (bs out : Bytes) :
    ∃ accLen ≤ 4, decodeLoop 0 0 out (bin2base64 bs) = (0, accLen, out ++ bs, []) := by
  induction bs using bin2base64.induct generalizing out with
  | case1 a b c rest ih =>
      have ha := a.toNat_lt
      have hb := b.toNat_lt
      have hc := c.toNat_lt
      obtain ⟨accLen, hle, hrest⟩ := ih (out ++ [a] ++ [b] ++ [c])
      refine ⟨accLen, hle, ?_⟩
      simp only [bin2base64]
      rw [decodeLoop_gather (by omega) (by omega),
        decodeLoop_emit (b := a) (by omega) (by omega) (by omega),
        decodeLoop_emit (b := b) (by omega) (by omega) (by omega),
        decodeLoop_emit (b := c) (by omega) (by omega) (by omega)]
      simpa [Nat.mod_one] using hrest
  | case2 a b =>
      have ha := a.toNat_lt
      have hb := b.toNat_lt
      refine ⟨2, by omega, ?_⟩
      simp only [bin2base64]
      rw [decodeLoop_gather (by omega) (by omega),
        decodeLoop_emit (b := a) (by omega) (by omega) (by omega),
        decodeLoop_emit (b := b) (by omega) (by omega) (by omega)]
      simp only [decodeLoop]
      simp
      omega
  | case3 a =>
      have ha := a.toNat_lt
      refine ⟨4, le_rfl, ?_⟩
      simp only [bin2base64]
      rw [decodeLoop_gather (by omega) (by omega),
        decodeLoop_emit (b := a) (by omega) (by omega) (by omega)]
      simp only [decodeLoop]
      simp
      omega
  | case4 => exact ⟨0, by omega, by simp [bin2base64, decodeLoop]⟩

/-- **Round trip.** -/
theorem base642bin_bin2base64 (bs : Bytes) : base642bin (bin2base64 bs) = some (bs, []) := by
  obtain ⟨accLen, hle, hloop⟩ := decodeLoop_bin2base64 bs []
  simp only [base642bin, hloop, List.nil_append]
  rw [if_neg (by omega)]

/-! ## What is decoded -/

/-- A character of the alphabet. -/
def inAlphabet (c : Char) : Bool := (charToByte c).isSome

/-- The six bits of a character are the last of a text; those below `2 ^ spare`
reach no byte and are zero. -/
def endsAt (c : Char) (spare : Nat) : Bool :=
  match charToByte c with
  | some d => d % 2 ^ spare = 0
  | none => false

/-- No group of one character, and no spare bits but zeros. -/
def Canonical : List Char → Bool
  | _ :: _ :: _ :: _ :: rest => Canonical rest
  | [_, _, c] => endsAt c 2
  | [_, b] => endsAt b 4
  | [_] => false
  | [] => true

example : Canonical "Zm9v_w".toList = true := by decide

example : Canonical "Zm9v_x".toList = false := by decide

theorem byteToChar_charToByte {c : Char} {d : Nat} (h : charToByte c = some d) :
    d < 64 ∧ byteToChar d = c := by
  have hle : ∀ a b : Char, a ≤ b ↔ a.toNat ≤ b.toNat := fun a b => Iff.rfl
  simp only [charToByte, hle] at h
  have hself : Char.ofNat c.toNat = c := Char.ofNat_toNat c
  split at h
  · rename_i hupper
    cases h
    have hlow : 65 ≤ c.toNat := hupper.1
    have hhigh : c.toNat ≤ 90 := hupper.2
    refine ⟨by omega, ?_⟩
    rw [byteToChar, if_pos (by omega), show 65 + (c.toNat - 65) = c.toNat by omega, hself]
  · split at h
    · rename_i hlower
      cases h
      have hlow : 97 ≤ c.toNat := hlower.1
      have hhigh : c.toNat ≤ 122 := hlower.2
      refine ⟨by omega, ?_⟩
      rw [byteToChar, if_neg (by omega), if_pos (by omega),
        show 71 + (c.toNat - 71) = c.toNat by omega, hself]
    · split at h
      · rename_i hdigit
        cases h
        have hlow : 48 ≤ c.toNat := hdigit.1
        have hhigh : c.toNat ≤ 57 := hdigit.2
        refine ⟨by omega, ?_⟩
        rw [byteToChar, if_neg (by omega), if_neg (by omega), if_pos (by omega),
          show c.toNat + 4 - 4 = c.toNat by omega, hself]
      · split at h
        · rename_i hdash
          cases h
          exact ⟨by decide, hdash ▸ by decide⟩
        · split at h
          · rename_i hline
            cases h
            exact ⟨by decide, hline ▸ by decide⟩
          · cases h

/-- A character of the alphabet is the character of its value. -/
theorem exists_byteToChar {c : Char} (h : inAlphabet c = true) :
    ∃ d, d < 64 ∧ c = byteToChar d := by
  obtain ⟨d, hd⟩ := Option.isSome_iff_exists.mp h
  obtain ⟨hlt, hc⟩ := byteToChar_charToByte hd
  exact ⟨d, hlt, hc.symm⟩

theorem endsAt_byteToChar {d spare : Nat} (hd : d < 64) :
    endsAt (byteToChar d) spare = true ↔ d % 2 ^ spare = 0 := by
  simp only [endsAt, charToByte_byteToChar hd, decide_eq_true_eq]

/-- The loop stops at the first character outside the alphabet. -/
theorem decodeLoop_stop {acc accLen : Nat} {out : Bytes} {rest : List Char}
    (hrest : ∀ c ∈ rest.head?, inAlphabet c = false) :
    decodeLoop acc accLen out rest = (acc, accLen, out, rest) := by
  cases rest with
  | nil => rfl
  | cons c rest =>
      have hc : charToByte c = none := by
        simpa [inAlphabet] using hrest c rfl
      simp only [decodeLoop, hc]

theorem toNat_ofNat_byte {n : Nat} (hn : n < 256) : n = (UInt8.ofNat n).toNat := by
  rw [UInt8.toNat_ofNat', Nat.mod_eq_of_lt hn]

/-- **The loop on a text of the alphabet.**  Up to the first other character it
reads the encoding of some bytes if the text is canonical, and otherwise is left
with too many bits or with bits that are not zero. -/
theorem decodeLoop_text (text : List Char) (htext : ∀ c ∈ text, inAlphabet c = true)
    {rest : List Char} (hrest : ∀ c ∈ rest.head?, inAlphabet c = false) (out : Bytes) :
    (Canonical text = true ∧ ∃ bs accLen, accLen ≤ 4 ∧ bin2base64 bs = text ∧
      decodeLoop 0 0 out (text ++ rest) = (0, accLen, out ++ bs, rest)) ∨
    (Canonical text = false ∧ ∃ acc accLen out', (accLen > 4 ∨ acc ≠ 0) ∧
      decodeLoop 0 0 out (text ++ rest) = (acc, accLen, out', rest)) := by
  induction text using Canonical.induct generalizing out with
  | case1 c₁ c₂ c₃ c₄ text ih =>
      simp only [List.forall_mem_cons] at htext
      obtain ⟨h₁, h₂, h₃, h₄, htext⟩ := htext
      obtain ⟨d₁, hd₁, rfl⟩ := exists_byteToChar h₁
      obtain ⟨d₂, hd₂, rfl⟩ := exists_byteToChar h₂
      obtain ⟨d₃, hd₃, rfl⟩ := exists_byteToChar h₃
      obtain ⟨d₄, hd₄, rfl⟩ := exists_byteToChar h₄
      -- the three bytes of the group
      have ha := toNat_ofNat_byte (n := d₁ * 4 + d₂ / 16) (by omega)
      have hb := toNat_ofNat_byte (n := d₂ % 16 * 16 + d₃ / 4) (by omega)
      have hc := toNat_ofNat_byte (n := d₃ % 4 * 64 + d₄) (by omega)
      generalize UInt8.ofNat (d₁ * 4 + d₂ / 16) = a at ha
      generalize UInt8.ofNat (d₂ % 16 * 16 + d₃ / 4) = b at hb
      generalize UInt8.ofNat (d₃ % 4 * 64 + d₄) = c at hc
      have hgroup : decodeLoop 0 0 out
          (byteToChar d₁ :: byteToChar d₂ :: byteToChar d₃ :: byteToChar d₄ :: text ++ rest) =
            decodeLoop 0 0 (out ++ [a] ++ [b] ++ [c]) (text ++ rest) := by
        simp only [List.cons_append]
        rw [decodeLoop_gather hd₁ (by omega),
          decodeLoop_emit (b := a) hd₂ (by omega) (by omega),
          decodeLoop_emit (b := b) hd₃ (by omega) (by omega),
          decodeLoop_emit (b := c) hd₄ (by omega) (by omega)]
        simp [Nat.mod_one]
      rw [hgroup, Canonical]
      rcases ih htext (out ++ [a] ++ [b] ++ [c]) with
        ⟨hcanon, bs, accLen, hle, rfl, hloop⟩ | ⟨hcanon, hloop⟩
      · refine Or.inl ⟨hcanon, a :: b :: c :: bs, accLen, hle, ?_, by simpa using hloop⟩
        simp only [bin2base64, List.cons.injEq, and_true]
        refine ⟨?_, ?_, ?_, ?_⟩ <;> congr 1 <;> omega
      · exact Or.inr ⟨hcanon, hloop⟩
  | case2 c₁ c₂ c₃ =>
      simp only [List.forall_mem_cons] at htext
      obtain ⟨h₁, h₂, h₃, -⟩ := htext
      obtain ⟨d₁, hd₁, rfl⟩ := exists_byteToChar h₁
      obtain ⟨d₂, hd₂, rfl⟩ := exists_byteToChar h₂
      obtain ⟨d₃, hd₃, rfl⟩ := exists_byteToChar h₃
      have ha := toNat_ofNat_byte (n := d₁ * 4 + d₂ / 16) (by omega)
      have hb := toNat_ofNat_byte (n := d₂ % 16 * 16 + d₃ / 4) (by omega)
      generalize UInt8.ofNat (d₁ * 4 + d₂ / 16) = a at ha
      generalize UInt8.ofNat (d₂ % 16 * 16 + d₃ / 4) = b at hb
      have hgroup : decodeLoop 0 0 out
          (byteToChar d₁ :: byteToChar d₂ :: byteToChar d₃ :: [] ++ rest) =
            (d₃ % 4, 2, out ++ [a] ++ [b], rest) := by
        simp only [List.cons_append, List.nil_append]
        rw [decodeLoop_gather hd₁ (by omega),
          decodeLoop_emit (b := a) hd₂ (by omega) (by omega),
          decodeLoop_emit (b := b) hd₃ (by omega) (by omega), decodeLoop_stop hrest]
        simp
        omega
      rw [hgroup, Canonical]
      by_cases hends : d₃ % 4 = 0
      · refine Or.inl ⟨(endsAt_byteToChar hd₃).mpr hends, [a, b], 2, by omega, ?_, ?_⟩
        · simp only [bin2base64, List.cons.injEq, and_true]
          refine ⟨?_, ?_, ?_⟩ <;> congr 1 <;> omega
        · simp [hends]
      · refine Or.inr ⟨?_, _, _, _, Or.inr hends, rfl⟩
        rw [← Bool.not_eq_true, endsAt_byteToChar hd₃]
        exact hends
  | case3 c₁ c₂ =>
      simp only [List.forall_mem_cons] at htext
      obtain ⟨h₁, h₂, -⟩ := htext
      obtain ⟨d₁, hd₁, rfl⟩ := exists_byteToChar h₁
      obtain ⟨d₂, hd₂, rfl⟩ := exists_byteToChar h₂
      have ha := toNat_ofNat_byte (n := d₁ * 4 + d₂ / 16) (by omega)
      generalize UInt8.ofNat (d₁ * 4 + d₂ / 16) = a at ha
      have hgroup : decodeLoop 0 0 out (byteToChar d₁ :: byteToChar d₂ :: [] ++ rest) =
          (d₂ % 16, 4, out ++ [a], rest) := by
        simp only [List.cons_append, List.nil_append]
        rw [decodeLoop_gather hd₁ (by omega),
          decodeLoop_emit (b := a) hd₂ (by omega) (by omega), decodeLoop_stop hrest]
        simp
        omega
      rw [hgroup, Canonical]
      by_cases hends : d₂ % 16 = 0
      · refine Or.inl ⟨(endsAt_byteToChar hd₂).mpr hends, [a], 4, by omega, ?_, ?_⟩
        · simp only [bin2base64, List.cons.injEq, and_true]
          refine ⟨?_, ?_⟩ <;> congr 1 <;> omega
        · simp [hends]
      · refine Or.inr ⟨?_, _, _, _, Or.inr hends, rfl⟩
        rw [← Bool.not_eq_true, endsAt_byteToChar hd₂]
        exact hends
  | case4 c₁ =>
      simp only [List.forall_mem_cons] at htext
      obtain ⟨d₁, hd₁, rfl⟩ := exists_byteToChar htext.1
      refine Or.inr ⟨rfl, d₁, 6, out, Or.inl (by omega), ?_⟩
      simp only [List.cons_append, List.nil_append]
      rw [decodeLoop_gather hd₁ (by omega), decodeLoop_stop hrest]
      simp
  | case5 =>
      refine Or.inl ⟨rfl, [], 0, by omega, rfl, ?_⟩
      rw [List.nil_append, decodeLoop_stop hrest, List.append_nil]

/-- **What decoding does**: it reads the text up to the first character outside
the alphabet, gives the bytes which that text encodes if it is canonical, and
fails otherwise. -/
theorem base642bin_cases (text : List Char) :
    (Canonical (text.takeWhile inAlphabet) = true ∧
      ∃ bs, bin2base64 bs = text.takeWhile inAlphabet ∧
        base642bin text = some (bs, text.dropWhile inAlphabet)) ∨
    (Canonical (text.takeWhile inAlphabet) = false ∧ base642bin text = none) := by
  have htext : ∀ c ∈ text.takeWhile inAlphabet, inAlphabet c = true :=
    fun c hc => List.mem_takeWhile_imp hc
  have hrest : ∀ c ∈ (text.dropWhile inAlphabet).head?, inAlphabet c = false := by
    intro c hc
    have hhead := List.head?_dropWhile_not inAlphabet text
    rw [Option.mem_def.mp hc] at hhead
    simpa using hhead
  have hloop := decodeLoop_text _ htext hrest []
  rw [List.takeWhile_append_dropWhile] at hloop
  rcases hloop with ⟨hcanon, bs, accLen, hle, hbs, hloop⟩ | ⟨hcanon, acc, accLen, out, hbad, hloop⟩
  · refine Or.inl ⟨hcanon, bs, hbs, ?_⟩
    simp only [base642bin, hloop, List.nil_append]
    rw [if_neg (by omega)]
  · refine Or.inr ⟨hcanon, ?_⟩
    simp only [base642bin, hloop]
    exact if_pos hbad

/-- What is decoded. -/
theorem base642bin_isSome_iff (text : List Char) :
    (base642bin text).isSome = true ↔ Canonical (text.takeWhile inAlphabet) = true := by
  rcases base642bin_cases text with ⟨hcanon, bs, -, h⟩ | ⟨hcanon, h⟩ <;> simp [h, hcanon]

/-- Decoded bytes encode to the text that was read. -/
theorem bin2base64_of_base642bin {text rest : List Char} {bs : Bytes}
    (h : base642bin text = some (bs, rest)) :
    bin2base64 bs = text.takeWhile inAlphabet := by
  rcases base642bin_cases text with ⟨-, bs', hbs, h'⟩ | ⟨-, h'⟩
  · rw [h, Option.some.injEq, Prod.mk.injEq] at h'
    rw [h'.1, hbs]
  · rw [h] at h'
    cases h'

end Iriseus.Verified.Base64
