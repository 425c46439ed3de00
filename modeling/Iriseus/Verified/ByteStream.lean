import Mathlib.Data.List.Basic
import Mathlib.Data.Nat.Bitwise

/-!
# Byte streams: big-endian lengths, hexadecimal text, exact reads

The wire formats of this development are byte streams delivered in pieces.
A stream still to be delivered is a list of non-empty *segments*, one for
each `read_some` that could return it whole; `readExact n` is the loop that
calls `read_some` until it has `n` bytes.

## Main results

* `decodeBe32_encodeBe32` — the four-byte big-endian length survives the
  round trip for every length below `2 ^ 32`.
* `readExact_eq_some_iff`, `readExact_eq_none_iff` — an exact read sees only
  the concatenation of the segments: it returns the first `n` bytes and
  leaves the others, or fails exactly when fewer than `n` bytes are left.
-/

namespace Iriseus.Verified.ByteStream

abbrev Bytes := List UInt8

/-- A block of exactly `n` bytes (a key, a token, a binary identifier). -/
structure ByteBlock (n : Nat) where
  bytes : Bytes
  size : bytes.length = n
  deriving DecidableEq, Repr

/-! ## Four-byte big-endian lengths -/

/-- The four bytes of `n`, most significant first; each is truncated to a
byte, so `n` is taken modulo `2 ^ 32`. -/
def encodeBe32 (n : Nat) : Bytes :=
  [ UInt8.ofNat ((n >>> 24) &&& 0xFF)
  , UInt8.ofNat ((n >>> 16) &&& 0xFF)
  , UInt8.ofNat ((n >>> 8) &&& 0xFF)
  , UInt8.ofNat (n &&& 0xFF) ]

/-- The number four bytes denote, most significant first. -/
def decodeBe32 : Bytes → Nat
  | [a, b, c, d] =>
      (a.toNat <<< 24) ||| (b.toNat <<< 16) ||| (c.toNat <<< 8) ||| d.toNat
  | _ => 0

@[simp] theorem length_encodeBe32 (n : Nat) : (encodeBe32 n).length = 4 := rfl

private theorem toNat_ofNat_and (n k : Nat) :
    (UInt8.ofNat ((n >>> k) &&& 0xFF)).toNat = n / 2 ^ k % 256 := by
  have hmask : (n >>> k) &&& 0xFF = n / 2 ^ k % 256 := by
    rw [show (0xFF : Nat) = 2 ^ 8 - 1 by decide, Nat.and_two_pow_sub_one_eq_mod,
      Nat.shiftRight_eq_div_pow]
  rw [hmask, UInt8.toNat_ofNat_of_lt']
  exact Nat.mod_lt _ (by decide)

/-- Joining a high part to a low part with `|||` is addition. -/
private theorem shiftLeft_or_eq_add (hi k lo : Nat) (hlo : lo < 2 ^ k) :
    (hi <<< k) ||| lo = hi * 2 ^ k + lo := by
  rw [← Nat.shiftLeft_add_eq_or_of_lt hlo, Nat.shiftLeft_eq]

/-- The value of four bytes as a base-256 numeral. -/
theorem decodeBe32_eq (a b c d : UInt8) :
    decodeBe32 [a, b, c, d] =
      a.toNat * 2 ^ 24 + b.toNat * 2 ^ 16 + c.toNat * 2 ^ 8 + d.toNat := by
  have hb := b.toNat_lt
  have hc := c.toNat_lt
  have hd := d.toNat_lt
  have hcd : (c.toNat <<< 8) ||| d.toNat = c.toNat * 2 ^ 8 + d.toNat :=
    shiftLeft_or_eq_add _ _ _ (by omega)
  have hbcd : (b.toNat <<< 16) ||| ((c.toNat <<< 8) ||| d.toNat) =
      b.toNat * 2 ^ 16 + (c.toNat * 2 ^ 8 + d.toNat) := by
    rw [hcd]
    exact shiftLeft_or_eq_add _ _ _ (by omega)
  rw [decodeBe32, Nat.or_assoc, Nat.or_assoc, hbcd,
    shiftLeft_or_eq_add _ _ _ (by omega)]
  omega

theorem decodeBe32_encodeBe32 (n : Nat) (hn : n < 2 ^ 32) :
    decodeBe32 (encodeBe32 n) = n := by
  have h0 : (UInt8.ofNat (n &&& 0xFF)).toNat = n % 256 := by
    simpa using toNat_ofNat_and n 0
  rw [encodeBe32, decodeBe32_eq, toNat_ofNat_and, toNat_ofNat_and,
    toNat_ofNat_and, h0]
  omega

theorem decodeBe32_lt (bs : Bytes) : decodeBe32 bs < 2 ^ 32 := by
  match bs with
  | [a, b, c, d] =>
      have ha := a.toNat_lt
      have hb := b.toNat_lt
      have hc := c.toNat_lt
      have hd := d.toNat_lt
      rw [decodeBe32_eq]
      omega
  | [] | [_] | [_, _] | [_, _, _] | _ :: _ :: _ :: _ :: _ :: _ =>
      simp [decodeBe32]

/-- A chunk preceded by its length. -/
def frame (chunk : Bytes) : Bytes := encodeBe32 chunk.length ++ chunk

/-! ## Reading exactly `n` bytes -/

/-- The loop that reads until it has exactly `n` bytes.  Each iteration is one
`read_some` of at most the bytes still missing: it takes the first segment
whole when it fits and its beginning otherwise.  The end of the stream, and a
`read_some` that returns no bytes, fail. -/
def readExact : Nat → List Bytes → Option (Bytes × List Bytes)
  | 0, segs => some ([], segs)
  | _ + 1, [] => none
  | n + 1, seg :: rest =>
      if seg = [] then none
      else if seg.length ≤ n + 1 then
        match readExact (n + 1 - seg.length) rest with
        | some (bs, left) => some (seg ++ bs, left)
        | none => none
      else some (seg.take (n + 1), seg.drop (n + 1) :: rest)

/-- A successful read takes its bytes off the front of the stream. -/
theorem readExact_some (segs : List Bytes) :
    ∀ {n : Nat} {bs : Bytes} {left : List Bytes}, readExact n segs = some (bs, left) →
      bs.length = n ∧ segs.flatten = bs ++ left.flatten := by
  induction segs with
  | nil =>
      intro n bs left h
      cases n with
      | zero => cases h; exact ⟨rfl, rfl⟩
      | succ n => cases h
  | cons seg rest ih =>
      intro n bs left h
      cases n with
      | zero => cases h; exact ⟨rfl, rfl⟩
      | succ n =>
          simp only [readExact] at h
          split at h
          · cases h
          · split at h
            · rename_i hfit
              split at h
              · rename_i bs' left' hread
                cases h
                obtain ⟨hlen, hflat⟩ := ih hread
                refine ⟨?_, ?_⟩
                · rw [List.length_append, hlen]
                  omega
                · rw [List.flatten_cons, hflat, List.append_assoc]
              · cases h
            · rename_i hfit
              cases h
              refine ⟨?_, ?_⟩
              · rw [List.length_take]
                omega
              · rw [List.flatten_cons, List.flatten_cons, ← List.append_assoc,
                  List.take_append_drop]

/-- The segments a transport delivers: none of them is empty. -/
def Delivered (segs : List Bytes) : Prop := ∀ seg ∈ segs, seg ≠ []

/-- An exact read of a delivered stream with enough bytes returns the first
`n` of them and leaves the others, again delivered. -/
theorem readExact_of_le (segs : List Bytes) :
    ∀ n, Delivered segs → n ≤ segs.flatten.length →
      ∃ left, readExact n segs = some (segs.flatten.take n, left) ∧
        left.flatten = segs.flatten.drop n ∧ Delivered left := by
  induction segs with
  | nil =>
      intro n hd hn
      have hn0 : n = 0 := by simpa using hn
      subst hn0
      exact ⟨[], rfl, rfl, hd⟩
  | cons seg rest ih =>
      intro n hd hn
      have hseg : seg ≠ [] := hd seg (by simp)
      have hrest : Delivered rest := fun s hs => hd s (by simp [hs])
      cases n with
      | zero => exact ⟨seg :: rest, rfl, rfl, hd⟩
      | succ n =>
          by_cases hfit : seg.length ≤ n + 1
          · have hlen : n + 1 - seg.length ≤ rest.flatten.length := by
              simp only [List.flatten_cons, List.length_append] at hn
              omega
            obtain ⟨left, hread, hleft, hdl⟩ :=
              ih (n + 1 - seg.length) hrest hlen
            refine ⟨left, ?_, ?_, hdl⟩
            · simp [readExact, hseg, hfit, hread, List.take_append,
                List.take_of_length_le hfit]
            · simp [hleft, List.drop_append, List.drop_eq_nil_of_le hfit]
          · have hlt : n + 1 ≤ seg.length := by omega
            refine ⟨seg.drop (n + 1) :: rest, ?_, ?_, ?_⟩
            · simp [readExact, hseg, hfit, List.take_append_of_le_length hlt]
            · simp [List.drop_append_of_le_length hlt]
            · intro s hs
              rcases List.mem_cons.mp hs with rfl | hs
              · simp only [ne_eq, List.drop_eq_nil_iff]
                omega
              · exact hrest s hs

/-- An exact read of as many bytes as a prefix has returns that prefix. -/
theorem readExact_prefix {segs : List Bytes} {bs rest : Bytes} (hd : Delivered segs)
    (h : segs.flatten = bs ++ rest) :
    ∃ left, readExact bs.length segs = some (bs, left) ∧ left.flatten = rest ∧
      Delivered left := by
  have hle : bs.length ≤ segs.flatten.length := by
    rw [h, List.length_append]
    exact Nat.le_add_right _ _
  obtain ⟨left, hread, hleft, hdl⟩ := readExact_of_le segs bs.length hd hle
  refine ⟨left, ?_, ?_, hdl⟩
  · rw [hread, h, List.take_left]
  · rw [hleft, h, List.drop_left]

/-- An exact read fails once fewer than `n` bytes are left. -/
theorem readExact_of_lt (segs : List Bytes) :
    ∀ n, segs.flatten.length < n → readExact n segs = none := by
  induction segs with
  | nil =>
      intro n hn
      cases n with
      | zero => simp at hn
      | succ n => rfl
  | cons seg rest ih =>
      intro n hn
      cases n with
      | zero => simp at hn
      | succ n =>
          simp only [List.flatten_cons, List.length_append] at hn
          have hfit : seg.length ≤ n + 1 := by omega
          by_cases hseg : seg = []
          · simp [readExact, hseg]
          · simp [readExact, hseg, hfit, ih (n + 1 - seg.length) (by omega)]

theorem readExact_eq_none_iff (segs : List Bytes) (hd : Delivered segs) (n : Nat) :
    readExact n segs = none ↔ segs.flatten.length < n := by
  constructor
  · intro h
    by_contra hle
    obtain ⟨left, hread, -⟩ := readExact_of_le segs n hd (by omega)
    rw [hread] at h
    cases h
  · exact readExact_of_lt segs n

theorem readExact_eq_some_iff (segs : List Bytes) (hd : Delivered segs)
    (n : Nat) (bs : Bytes) :
    (∃ left, readExact n segs = some (bs, left)) ↔
      n ≤ segs.flatten.length ∧ bs = segs.flatten.take n := by
  constructor
  · rintro ⟨left, h⟩
    have hle : n ≤ segs.flatten.length := by
      by_contra hlt
      rw [readExact_of_lt segs n (by omega)] at h
      cases h
    obtain ⟨left', hread, -⟩ := readExact_of_le segs n hd hle
    rw [hread] at h
    exact ⟨hle, by cases h; rfl⟩
  · rintro ⟨hle, rfl⟩
    obtain ⟨left, hread, -⟩ := readExact_of_le segs n hd hle
    exact ⟨left, hread⟩

/-- What a read leaves of a delivered stream is delivered. -/
theorem Delivered.of_readExact {segs left : List Bytes} {n : Nat} {bs : Bytes}
    (hd : Delivered segs) (h : readExact n segs = some (bs, left)) : Delivered left := by
  have hle := ((readExact_eq_some_iff segs hd n bs).mp ⟨left, h⟩).1
  obtain ⟨left', hread, -, hdl⟩ := readExact_of_le segs n hd hle
  rw [h, Option.some.injEq, Prod.mk.injEq] at hread
  exact hread.2 ▸ hdl

/-! ## Lower-case hexadecimal text -/

/-- The lower-case hexadecimal digit of a number below sixteen. -/
def hexDigit (n : Nat) : Char :=
  if n < 10 then Char.ofNat (48 + n) else Char.ofNat (87 + n)

/-- Two digits for one byte, the high nibble first (`%02x`). -/
def hexByte (b : UInt8) : List Char :=
  [hexDigit (b.toNat / 16), hexDigit (b.toNat % 16)]

/-- The digits of a byte string. -/
def hexChars (bs : Bytes) : List Char := bs.flatMap hexByte

/-- Lower-case hexadecimal text of a byte string. -/
def toHex (bs : Bytes) : String := String.ofList (hexChars bs)

@[simp] theorem toList_toHex (bs : Bytes) : (toHex bs).toList = hexChars bs :=
  String.toList_ofList

@[simp] theorem hexChars_nil : hexChars [] = [] := rfl

@[simp] theorem hexChars_cons (b : UInt8) (bs : Bytes) :
    hexChars (b :: bs) = hexByte b ++ hexChars bs := rfl

theorem hexChars_append (xs ys : Bytes) :
    hexChars (xs ++ ys) = hexChars xs ++ hexChars ys := by
  simp [hexChars]

private theorem hexDigit_ne_dash_table : ∀ n < 16, hexDigit n ≠ '-' := by decide

private theorem hexDigit_lower_table : ∀ n < 16, (hexDigit n).toLower = hexDigit n := by
  decide

/-- Hexadecimal text consists of digits. -/
theorem hexDigit_of_mem {bs : Bytes} {c : Char} (hc : c ∈ hexChars bs) :
    ∃ n < 16, c = hexDigit n := by
  obtain ⟨b, -, hc⟩ := List.mem_flatMap.mp hc
  have hb := b.toNat_lt
  simp only [hexByte, List.mem_cons, List.not_mem_nil, or_false] at hc
  rcases hc with rfl | rfl
  · exact ⟨b.toNat / 16, by omega, rfl⟩
  · exact ⟨b.toNat % 16, by omega, rfl⟩

/-- Hexadecimal text has no dash. -/
theorem dash_notMem_hexChars (bs : Bytes) : '-' ∉ hexChars bs := by
  intro hc
  obtain ⟨n, hn, hdash⟩ := hexDigit_of_mem hc
  exact hexDigit_ne_dash_table n hn hdash.symm

/-- Hexadecimal text is in lower case. -/
theorem toLower_of_mem_hexChars {bs : Bytes} {c : Char} (hc : c ∈ hexChars bs) :
    c.toLower = c := by
  obtain ⟨n, hn, rfl⟩ := hexDigit_of_mem hc
  exact hexDigit_lower_table n hn

end Iriseus.Verified.ByteStream
