/-
Sha256.lean

SHA-256 of a byte string, as a function on lists of bytes that evaluates.

A message is padded to whole blocks of 64 bytes.  Each block is expanded to a
schedule of 64 words and mixed into the eight words of the state, one round a
word.
-/
import Mathlib

namespace Sha256

open List

/-- The fractional parts of the cube roots of the first 64 primes. -/
def roundConstants : List UInt32 :=
  [0x428a2f98, 0x71374491, 0xb5c0fbcf, 0xe9b5dba5, 0x3956c25b, 0x59f111f1,
   0x923f82a4, 0xab1c5ed5, 0xd807aa98, 0x12835b01, 0x243185be, 0x550c7dc3,
   0x72be5d74, 0x80deb1fe, 0x9bdc06a7, 0xc19bf174, 0xe49b69c1, 0xefbe4786,
   0x0fc19dc6, 0x240ca1cc, 0x2de92c6f, 0x4a7484aa, 0x5cb0a9dc, 0x76f988da,
   0x983e5152, 0xa831c66d, 0xb00327c8, 0xbf597fc7, 0xc6e00bf3, 0xd5a79147,
   0x06ca6351, 0x14292967, 0x27b70a85, 0x2e1b2138, 0x4d2c6dfc, 0x53380d13,
   0x650a7354, 0x766a0abb, 0x81c2c92e, 0x92722c85, 0xa2bfe8a1, 0xa81a664b,
   0xc24b8b70, 0xc76c51a3, 0xd192e819, 0xd6990624, 0xf40e3585, 0x106aa070,
   0x19a4c116, 0x1e376c08, 0x2748774c, 0x34b0bcb5, 0x391c0cb3, 0x4ed8aa4a,
   0x5b9cca4f, 0x682e6ff3, 0x748f82ee, 0x78a5636f, 0x84c87814, 0x8cc70208,
   0x90befffa, 0xa4506ceb, 0xbef9a3f7, 0xc67178f2]

/-- The eight working words. -/
structure State where
  a : UInt32
  b : UInt32
  c : UInt32
  d : UInt32
  e : UInt32
  f : UInt32
  g : UInt32
  h : UInt32

/-- The fractional parts of the square roots of the first eight primes. -/
def State.initial : State :=
  ⟨0x6a09e667, 0xbb67ae85, 0x3c6ef372, 0xa54ff53a,
   0x510e527f, 0x9b05688c, 0x1f83d9ab, 0x5be0cd19⟩

variable (x : UInt32)

def rotr (n : UInt32) : UInt32 := (x >>> n) ||| (x <<< (32 - n))

/-! ### The message schedule -/

def smallSigma0 : UInt32 := rotr x 7 ^^^ rotr x 18 ^^^ (x >>> 3)

def smallSigma1 : UInt32 := rotr x 17 ^^^ rotr x 19 ^^^ (x >>> 10)

/-- The next word from the sixteen before it, youngest first. -/
def nextWord (ws : List UInt32) : UInt32 :=
  smallSigma1 (ws.getD 1 0) + ws.getD 6 0 + smallSigma0 (ws.getD 14 0) + ws.getD 15 0

/-- The schedule, youngest word first, extended by `n` words. -/
def extend : ℕ → List UInt32 → List UInt32
  | 0, ws => ws
  | n + 1, ws => extend n (nextWord ws :: ws)

/-- Four bytes a word, the first byte the most significant. -/
def words : List UInt8 → List UInt32
  | a :: b :: c :: d :: l =>
    ((a.toUInt32 <<< 24) ||| (b.toUInt32 <<< 16) ||| (c.toUInt32 <<< 8) ||| d.toUInt32) :: words l
  | _ => []

def schedule (block : List UInt8) : List UInt32 := (extend 48 (words block).reverse).reverse

/-! ### Compression -/

def bigSigma0 : UInt32 := rotr x 2 ^^^ rotr x 13 ^^^ rotr x 22

def bigSigma1 : UInt32 := rotr x 6 ^^^ rotr x 11 ^^^ rotr x 25

def choose (y z : UInt32) : UInt32 := (x &&& y) ^^^ (~~~x &&& z)

def majority (y z : UInt32) : UInt32 := (x &&& y) ^^^ (x &&& z) ^^^ (y &&& z)

variable (s : State)

/-- One round, with the sum of its constant and its word of the schedule. -/
def State.round (kw : UInt32) : State :=
  let t₁ := s.h + bigSigma1 s.e + choose s.e s.f s.g + kw
  let t₂ := bigSigma0 s.a + majority s.a s.b s.c
  ⟨t₁ + t₂, s.a, s.b, s.c, s.d + t₁, s.e, s.f, s.g⟩

def State.add (t : State) : State :=
  ⟨s.a + t.a, s.b + t.b, s.c + t.c, s.d + t.d, s.e + t.e, s.f + t.f, s.g + t.g, s.h + t.h⟩

def compress (block : List UInt8) : State :=
  s.add ((zipWith (· + ·) roundConstants (schedule block)).foldl State.round s)

/-! ### Messages -/

/-- The `w` low bytes of `n`, most significant first. -/
def bigEndian : ℕ → ℕ → List UInt8
  | 0, _ => []
  | w + 1, n => bigEndian w (n / 256) ++ [UInt8.ofNat n]

/-- A one bit, zeros up to the last eight bytes of a block, and the length in
bits. -/
def pad (l : List UInt8) : List UInt8 :=
  l ++ 128 :: (replicate ((119 - l.length % 64) % 64) 0 ++ bigEndian 8 (8 * l.length))

/-- Mix in `n` blocks. -/
def absorb : ℕ → State → List UInt8 → State
  | 0, s, _ => s
  | n + 1, s, l => absorb n (compress s (l.take 64)) (l.drop 64)

def State.bytes : List UInt8 :=
  [s.a, s.b, s.c, s.d, s.e, s.f, s.g, s.h].flatMap fun w => bigEndian 4 w.toNat

/-- The 32 bytes of the digest. -/
def sum256 (l : List UInt8) : List UInt8 :=
  (absorb ((pad l).length / 64) State.initial (pad l)).bytes

theorem length_bigEndian (w n : ℕ) : (bigEndian w n).length = w := by
  induction w generalizing n with
  | zero => rfl
  | succ w ih => rw [bigEndian, length_append, ih, length_singleton]

theorem length_sum256 (l : List UInt8) : (sum256 l).length = 32 := by
  simp only [sum256, State.bytes, flatMap_cons, flatMap_nil, length_append,
    length_bigEndian, length_nil]

example : sum256 [97, 98, 99] =
    [186, 120, 22, 191, 143, 1, 207, 234, 65, 65, 64, 222, 93, 174, 34, 35,
     176, 3, 97, 163, 150, 23, 122, 156, 180, 16, 255, 97, 242, 0, 21, 173] := by
  decide +kernel

end Sha256
