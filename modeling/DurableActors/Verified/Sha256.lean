import Mathlib.Data.List.Basic

/-!
# SHA-256

The digest of a list of bytes.  Words are numbers below `2 ^ 32`, which the kernel
computes with, so that a digest can be decided.
-/

namespace DurableActors.Verified.Sha256

def roundConstants : List Nat := [
  0x428a2f98, 0x71374491, 0xb5c0fbcf, 0xe9b5dba5, 0x3956c25b, 0x59f111f1, 0x923f82a4, 0xab1c5ed5,
  0xd807aa98, 0x12835b01, 0x243185be, 0x550c7dc3, 0x72be5d74, 0x80deb1fe, 0x9bdc06a7, 0xc19bf174,
  0xe49b69c1, 0xefbe4786, 0x0fc19dc6, 0x240ca1cc, 0x2de92c6f, 0x4a7484aa, 0x5cb0a9dc, 0x76f988da,
  0x983e5152, 0xa831c66d, 0xb00327c8, 0xbf597fc7, 0xc6e00bf3, 0xd5a79147, 0x06ca6351, 0x14292967,
  0x27b70a85, 0x2e1b2138, 0x4d2c6dfc, 0x53380d13, 0x650a7354, 0x766a0abb, 0x81c2c92e, 0x92722c85,
  0xa2bfe8a1, 0xa81a664b, 0xc24b8b70, 0xc76c51a3, 0xd192e819, 0xd6990624, 0xf40e3585, 0x106aa070,
  0x19a4c116, 0x1e376c08, 0x2748774c, 0x34b0bcb5, 0x391c0cb3, 0x4ed8aa4a, 0x5b9cca4f, 0x682e6ff3,
  0x748f82ee, 0x78a5636f, 0x84c87814, 0x8cc70208, 0x90befffa, 0xa4506ceb, 0xbef9a3f7, 0xc67178f2]

/-- A sum is taken modulo the word size. -/
def word (n : Nat) : Nat := n % 0x100000000

def rotateRight (x n : Nat) : Nat := (x >>> n) ||| word (x <<< (32 - n))

/-- The eight working variables. -/
structure Working where
  a : Nat
  b : Nat
  c : Nat
  d : Nat
  e : Nat
  f : Nat
  g : Nat
  h : Nat

def Working.add (s t : Working) : Working :=
  ⟨word (s.a + t.a), word (s.b + t.b), word (s.c + t.c), word (s.d + t.d), word (s.e + t.e),
    word (s.f + t.f), word (s.g + t.g), word (s.h + t.h)⟩

/-- One round; `k` is the sum of the round's constant and word. -/
def round (s : Working) (k : Nat) : Working :=
  let t₁ := s.h + (rotateRight s.e 6 ^^^ rotateRight s.e 11 ^^^ rotateRight s.e 25) +
    ((s.e &&& s.f) ^^^ ((0xffffffff - s.e) &&& s.g)) + k
  let t₂ := (rotateRight s.a 2 ^^^ rotateRight s.a 13 ^^^ rotateRight s.a 22) +
    ((s.a &&& s.b) ^^^ (s.a &&& s.c) ^^^ (s.b &&& s.c))
  ⟨word (t₁ + t₂), s.a, s.b, s.c, word (s.d + t₁), s.e, s.f, s.g⟩

/-- The message schedule, extended by `n` words; the last word is the first of the list. -/
def schedule : Nat → List Nat → List Nat
  | 0, ws => ws.reverse
  | n + 1, ws =>
    let x := ws.getD 14 0
    let y := ws.getD 1 0
    schedule n (word ((rotateRight y 17 ^^^ rotateRight y 19 ^^^ (y >>> 10)) + ws.getD 6 0 +
      (rotateRight x 7 ^^^ rotateRight x 18 ^^^ (x >>> 3)) + ws.getD 15 0) :: ws)

/-- One block of sixteen words. -/
def compress (s : Working) (ws : List Nat) : Working :=
  s.add ((List.zipWith (· + ·) roundConstants (schedule 48 ws.reverse)).foldl round s)

def bigEndian (width n : Nat) : List UInt8 :=
  (List.range width).reverse.map fun i => .ofNat (n >>> (8 * i))

def pad (bytes : List UInt8) : List UInt8 :=
  bytes ++ 128 :: List.replicate ((119 - bytes.length % 64) % 64) 0 ++
    bigEndian 8 (8 * bytes.length)

def hash (bytes : List UInt8) : List UInt8 :=
  let words := ((pad bytes).toChunks 4).map fun chunk =>
    chunk.foldl (fun n byte => n * 256 + byte.toNat) 0
  let s := (words.toChunks 16).foldl compress ⟨0x6a09e667, 0xbb67ae85, 0x3c6ef372, 0xa54ff53a,
    0x510e527f, 0x9b05688c, 0x1f83d9ab, 0x5be0cd19⟩
  [s.a, s.b, s.c, s.d, s.e, s.f, s.g, s.h].flatMap (bigEndian 4)

theorem length_bigEndian (width n : Nat) : (bigEndian width n).length = width := by
  simp [bigEndian]

theorem length_hash (bytes : List UInt8) : (hash bytes).length = 32 := by
  simp [hash, length_bigEndian]

example : hash [] = bigEndian 32
    0xe3b0c44298fc1c149afbf4c8996fb92427ae41e4649b934ca495991b7852b855 := by decide +kernel

end DurableActors.Verified.Sha256
