import Iriseus.Verified.ByteStream

/-!
# Incremental hashing

A hash function is used through `init`, `update` and `final`, so that a file
can be hashed in blocks.  The one property a user relies on is that the result
depends only on the concatenation of the blocks (`final_congr`); `digest` is
the hash of a whole byte string and `final_foldl` says that hashing in any
blocks computes it.

`sha256` is the SHA-256 instance: its state is the message absorbed so far.
-/

namespace Iriseus.Verified

open Iriseus.Verified.ByteStream

/-- A hash used in blocks, whose result depends only on their concatenation. -/
structure IncrementalHash where
  State : Type
  init : State
  update : State → Bytes → State
  final : State → Bytes
  final_congr : ∀ cs ds : List Bytes, cs.flatten = ds.flatten →
    final (cs.foldl update init) = final (ds.foldl update init)

namespace IncrementalHash

variable (H : IncrementalHash)

/-- The hash of a whole byte string. -/
def digest (bs : Bytes) : Bytes := H.final (H.update H.init bs)

/-- The state after absorbing some blocks whose concatenation is `bs`. -/
def Absorbed (st : H.State) (bs : Bytes) : Prop :=
  ∃ cs : List Bytes, cs.flatten = bs ∧ cs.foldl H.update H.init = st

theorem final_foldl (cs : List Bytes) :
    H.final (cs.foldl H.update H.init) = H.digest cs.flatten :=
  H.final_congr cs [cs.flatten] (by simp)

theorem absorbed_init : H.Absorbed H.init [] := ⟨[], rfl, rfl⟩

theorem Absorbed.update {H : IncrementalHash} {st : H.State} {bs : Bytes}
    (h : H.Absorbed st bs) (c : Bytes) : H.Absorbed (H.update st c) (bs ++ c) := by
  obtain ⟨cs, rfl, rfl⟩ := h
  exact ⟨cs ++ [c], by simp, by simp⟩

theorem Absorbed.final {H : IncrementalHash} {st : H.State} {bs : Bytes}
    (h : H.Absorbed st bs) : H.final st = H.digest bs := by
  obtain ⟨cs, rfl, rfl⟩ := h
  exact H.final_foldl cs

end IncrementalHash

/-! ## SHA-256 -/

namespace Sha256

/-- Words are numbers below `2 ^ 32`. -/
def wordMod : Nat := 2 ^ 32

def rotr (n x : Nat) : Nat := ((x >>> n) ||| (x <<< (32 - n))) % wordMod

def smallSigma0 (x : Nat) : Nat := rotr 7 x ^^^ rotr 18 x ^^^ (x >>> 3)

def smallSigma1 (x : Nat) : Nat := rotr 17 x ^^^ rotr 19 x ^^^ (x >>> 10)

def bigSigma0 (x : Nat) : Nat := rotr 2 x ^^^ rotr 13 x ^^^ rotr 22 x

def bigSigma1 (x : Nat) : Nat := rotr 6 x ^^^ rotr 11 x ^^^ rotr 25 x

def choose (x y z : Nat) : Nat := (x &&& y) ^^^ ((wordMod - 1 - x) &&& z)

def majority (x y z : Nat) : Nat := (x &&& y) ^^^ (x &&& z) ^^^ (y &&& z)

/-- Round constants: fractional parts of the cube roots of the first
sixty-four primes. -/
def roundConstants : List Nat :=
  [ 0x428a2f98, 0x71374491, 0xb5c0fbcf, 0xe9b5dba5, 0x3956c25b, 0x59f111f1
  , 0x923f82a4, 0xab1c5ed5, 0xd807aa98, 0x12835b01, 0x243185be, 0x550c7dc3
  , 0x72be5d74, 0x80deb1fe, 0x9bdc06a7, 0xc19bf174, 0xe49b69c1, 0xefbe4786
  , 0x0fc19dc6, 0x240ca1cc, 0x2de92c6f, 0x4a7484aa, 0x5cb0a9dc, 0x76f988da
  , 0x983e5152, 0xa831c66d, 0xb00327c8, 0xbf597fc7, 0xc6e00bf3, 0xd5a79147
  , 0x06ca6351, 0x14292967, 0x27b70a85, 0x2e1b2138, 0x4d2c6dfc, 0x53380d13
  , 0x650a7354, 0x766a0abb, 0x81c2c92e, 0x92722c85, 0xa2bfe8a1, 0xa81a664b
  , 0xc24b8b70, 0xc76c51a3, 0xd192e819, 0xd6990624, 0xf40e3585, 0x106aa070
  , 0x19a4c116, 0x1e376c08, 0x2748774c, 0x34b0bcb5, 0x391c0cb3, 0x4ed8aa4a
  , 0x5b9cca4f, 0x682e6ff3, 0x748f82ee, 0x78a5636f, 0x84c87814, 0x8cc70208
  , 0x90befffa, 0xa4506ceb, 0xbef9a3f7, 0xc67178f2 ]

/-- The eight chaining words. -/
structure Chain where
  a : Nat
  b : Nat
  c : Nat
  d : Nat
  e : Nat
  f : Nat
  g : Nat
  h : Nat

def initialChain : Chain :=
  ⟨0x6a09e667, 0xbb67ae85, 0x3c6ef372, 0xa54ff53a,
    0x510e527f, 0x9b05688c, 0x1f83d9ab, 0x5be0cd19⟩

/-- The big-endian words of a block. -/
def blockWords : Bytes → List Nat
  | a :: b :: c :: d :: rest => decodeBe32 [a, b, c, d] :: blockWords rest
  | _ => []

/-- Extend the schedule, kept newest first, by `n` words. -/
def extendSchedule : Nat → List Nat → List Nat
  | 0, ws => ws
  | n + 1, ws =>
      extendSchedule n
        (((smallSigma1 (ws.getD 1 0) + ws.getD 6 0
          + smallSigma0 (ws.getD 14 0) + ws.getD 15 0) % wordMod) :: ws)

def round (s : Chain) (kw : Nat × Nat) : Chain :=
  let t₁ := s.h + bigSigma1 s.e + choose s.e s.f s.g + kw.1 + kw.2
  let t₂ := bigSigma0 s.a + majority s.a s.b s.c
  ⟨(t₁ + t₂) % wordMod, s.a, s.b, s.c, (s.d + t₁) % wordMod, s.e, s.f, s.g⟩

def compress (s : Chain) (block : Bytes) : Chain :=
  let ws := (extendSchedule 48 (blockWords block).reverse).reverse
  let t := (roundConstants.zip ws).foldl round s
  ⟨(s.a + t.a) % wordMod, (s.b + t.b) % wordMod, (s.c + t.c) % wordMod,
    (s.d + t.d) % wordMod, (s.e + t.e) % wordMod, (s.f + t.f) % wordMod,
    (s.g + t.g) % wordMod, (s.h + t.h) % wordMod⟩

/-- The message, a one bit, zeros and the bit length: a multiple of 64 bytes. -/
def pad (msg : Bytes) : Bytes :=
  msg ++ [0x80] ++ List.replicate ((119 - msg.length % 64) % 64) 0
    ++ encodeBe32 (8 * msg.length / wordMod) ++ encodeBe32 (8 * msg.length)

/-- Compress the 64-byte blocks in order. -/
def compressBlocks : Nat → Bytes → Chain → Chain
  | 0, _, s => s
  | n + 1, bs, s => compressBlocks n (bs.drop 64) (compress s (bs.take 64))

def hash (msg : Bytes) : Bytes :=
  let padded := pad msg
  let s := compressBlocks (padded.length / 64) padded initialChain
  [s.a, s.b, s.c, s.d, s.e, s.f, s.g, s.h].flatMap encodeBe32

end Sha256

/-- SHA-256, keeping the absorbed message as its state. -/
def sha256 : IncrementalHash where
  State := Bytes
  init := []
  update := (· ++ ·)
  final := Sha256.hash
  final_congr := by
    intro cs ds h
    have hflat : ∀ (es : List Bytes) (acc : Bytes),
        es.foldl (· ++ ·) acc = acc ++ es.flatten := by
      intro es
      induction es with
      | nil => intro acc; simp
      | cons e es ih => intro acc; simp [ih]
    simp only [hflat, h]

example : toHex (sha256.digest [0x61, 0x62, 0x63]) =
    "ba7816bf8f01cfea414140de5dae2223b00361a396177a9cb410ff61f20015ad" := by
  decide +kernel

end Iriseus.Verified
