import StellarRecrypt.Lib.ByteString

/-!
# Sha2 — the SHA-2 hashes, HMAC and HKDF

SHA-256 and SHA-512 are one function with parameters, on words that are natural numbers below
`2 ^ bits`.  HMAC and HKDF are over either of them.  Every new word is forced, so the kernel can
evaluate a hash of a closed message.
-/

namespace Sha2

open ByteString

/-! ## Parameters -/

/-- The three amounts of a mixing function: rotations, the last of which may be a shift. -/
structure Mix where
  r₁ : Nat
  r₂ : Nat
  r₃ : Nat

/-- What distinguishes the two word sizes. -/
structure Variant where
  bits : Nat
  rounds : Nat
  bigSigma₀ : Mix
  bigSigma₁ : Mix
  smallSigma₀ : Mix
  smallSigma₁ : Mix

def sha256 : Variant where
  bits := 32
  rounds := 64
  bigSigma₀ := ⟨2, 13, 22⟩
  bigSigma₁ := ⟨6, 11, 25⟩
  smallSigma₀ := ⟨7, 18, 3⟩
  smallSigma₁ := ⟨17, 19, 10⟩

def sha512 : Variant where
  bits := 64
  rounds := 80
  bigSigma₀ := ⟨28, 34, 39⟩
  bigSigma₁ := ⟨14, 18, 41⟩
  smallSigma₀ := ⟨1, 8, 7⟩
  smallSigma₁ := ⟨19, 61, 6⟩

/-- The first 64 bits of the fractional parts of the cube roots of the first eighty primes. -/
def cubeRoots : List Nat :=
  [0x428a2f98d728ae22, 0x7137449123ef65cd, 0xb5c0fbcfec4d3b2f, 0xe9b5dba58189dbbc,
   0x3956c25bf348b538, 0x59f111f1b605d019, 0x923f82a4af194f9b, 0xab1c5ed5da6d8118,
   0xd807aa98a3030242, 0x12835b0145706fbe, 0x243185be4ee4b28c, 0x550c7dc3d5ffb4e2,
   0x72be5d74f27b896f, 0x80deb1fe3b1696b1, 0x9bdc06a725c71235, 0xc19bf174cf692694,
   0xe49b69c19ef14ad2, 0xefbe4786384f25e3, 0x0fc19dc68b8cd5b5, 0x240ca1cc77ac9c65,
   0x2de92c6f592b0275, 0x4a7484aa6ea6e483, 0x5cb0a9dcbd41fbd4, 0x76f988da831153b5,
   0x983e5152ee66dfab, 0xa831c66d2db43210, 0xb00327c898fb213f, 0xbf597fc7beef0ee4,
   0xc6e00bf33da88fc2, 0xd5a79147930aa725, 0x06ca6351e003826f, 0x142929670a0e6e70,
   0x27b70a8546d22ffc, 0x2e1b21385c26c926, 0x4d2c6dfc5ac42aed, 0x53380d139d95b3df,
   0x650a73548baf63de, 0x766a0abb3c77b2a8, 0x81c2c92e47edaee6, 0x92722c851482353b,
   0xa2bfe8a14cf10364, 0xa81a664bbc423001, 0xc24b8b70d0f89791, 0xc76c51a30654be30,
   0xd192e819d6ef5218, 0xd69906245565a910, 0xf40e35855771202a, 0x106aa07032bbd1b8,
   0x19a4c116b8d2d0c8, 0x1e376c085141ab53, 0x2748774cdf8eeb99, 0x34b0bcb5e19b48a8,
   0x391c0cb3c5c95a63, 0x4ed8aa4ae3418acb, 0x5b9cca4f7763e373, 0x682e6ff3d6b2b8a3,
   0x748f82ee5defb2fc, 0x78a5636f43172f60, 0x84c87814a1f0ab72, 0x8cc702081a6439ec,
   0x90befffa23631e28, 0xa4506cebde82bde9, 0xbef9a3f7b2c67915, 0xc67178f2e372532b,
   0xca273eceea26619c, 0xd186b8c721c0c207, 0xeada7dd6cde0eb1e, 0xf57d4f7fee6ed178,
   0x06f067aa72176fba, 0x0a637dc5a2c898a6, 0x113f9804bef90dae, 0x1b710b35131c471b,
   0x28db77f523047d84, 0x32caab7b40c72493, 0x3c9ebe0a15c9bebc, 0x431d67c49c100d4c,
   0x4cc5d4becb3e42b6, 0x597f299cfc657e2a, 0x5fcb6fab3ad6faec, 0x6c44198c4a475817]

/-- The first 64 bits of the fractional parts of the square roots of the first eight primes. -/
def squareRoots : List Nat :=
  [0x6a09e667f3bcc908, 0xbb67ae8584caa73b, 0x3c6ef372fe94f82b, 0xa54ff53a5f1d36f1,
   0x510e527fade682d1, 0x9b05688c2b3e6c1f, 0x1f83d9abfb41bd6b, 0x5be0cd19137e2179]

namespace Variant

variable (V : Variant)

/-- The first bits of a constant. -/
def leadingBits (x : Nat) : Nat :=
  x >>> (64 - V.bits)

def wordBytes : Nat := V.bits / 8

def blockBytes : Nat := 16 * V.wordBytes

/-! ## The compression function -/

/-- Rotation to the right. -/
def rotr (n x : Nat) : Nat :=
  x >>> n ||| x <<< (V.bits - n) % 2 ^ V.bits

def bigSigma (m : Mix) (x : Nat) : Nat :=
  V.rotr m.r₁ x ^^^ V.rotr m.r₂ x ^^^ V.rotr m.r₃ x

def smallSigma (m : Mix) (x : Nat) : Nat :=
  V.rotr m.r₁ x ^^^ V.rotr m.r₂ x ^^^ x >>> m.r₃

def choose (e f g : Nat) : Nat :=
  (e &&& f) ^^^ ((2 ^ V.bits - 1 - e) &&& g)

def majority (a b c : Nat) : Nat :=
  (a &&& b) ^^^ (a &&& c) ^^^ (b &&& c)

/-- `n` further words of the message schedule, the newest in front. -/
def schedule : Nat → List Nat → List Nat
  | 0, words => words
  | n + 1, words =>
      force ((V.smallSigma V.smallSigma₁ (words.getD 1 0) + words.getD 6 0 +
        V.smallSigma V.smallSigma₀ (words.getD 14 0) + words.getD 15 0) % 2 ^ V.bits) fun w =>
      schedule n (w :: words)

/-- The eight working variables. -/
structure State where
  a : Nat
  b : Nat
  c : Nat
  d : Nat
  e : Nat
  f : Nat
  g : Nat
  h : Nat

/-- One round for each constant and schedule word. -/
def run : List Nat → List Nat → State → State
  | k :: ks, w :: ws, ⟨a, b, c, d, e, f, g, h⟩ =>
      force (h + V.bigSigma V.bigSigma₁ e + V.choose e f g + k + w) fun t =>
      force ((d + t) % 2 ^ V.bits) fun e' =>
      force ((t + V.bigSigma V.bigSigma₀ a + majority a b c) % 2 ^ V.bits) fun a' =>
      run ks ws ⟨a', a, b, c, e', e, f, g⟩
  | _, _, s => s

/-- The sum of two states, word by word. -/
def State.add (s t : State) : State :=
  force ((s.a + t.a) % 2 ^ V.bits) fun a =>
  force ((s.b + t.b) % 2 ^ V.bits) fun b =>
  force ((s.c + t.c) % 2 ^ V.bits) fun c =>
  force ((s.d + t.d) % 2 ^ V.bits) fun d =>
  force ((s.e + t.e) % 2 ^ V.bits) fun e =>
  force ((s.f + t.f) % 2 ^ V.bits) fun f =>
  force ((s.g + t.g) % 2 ^ V.bits) fun g =>
  force ((s.h + t.h) % 2 ^ V.bits) fun h =>
  ⟨a, b, c, d, e, f, g, h⟩

def compress (words : List Nat) (s : State) : State :=
  State.add V s (V.run (cubeRoots.map V.leadingBits)
    (V.schedule (V.rounds - 16) words.reverse).reverse s)

def initial : State :=
  match squareRoots.map V.leadingBits with
  | [a, b, c, d, e, f, g, h] => ⟨a, b, c, d, e, f, g, h⟩
  | _ => ⟨0, 0, 0, 0, 0, 0, 0, 0⟩

/-! ## Messages -/

/-- `k` written on `n` bytes, most significant first. -/
def beDigits (n k : Nat) : List UInt8 :=
  (leDigits n k).reverse

@[simp] theorem length_beDigits (n k : Nat) : (beDigits n k).length = n := by
  simp [beDigits]

/-- Reads `n` bytes, most significant first, and continues with the number and the rest. -/
def readWord {α : Type} : Nat → Nat → List UInt8 → (Nat → List UInt8 → α) → α
  | n + 1, acc, b :: l, k => force (acc * 256 + b.toNat) fun acc => readWord n acc l k
  | _, acc, l, k => k acc l

/-- Reads `n` words. -/
def readWords {α : Type} : Nat → List UInt8 → (List Nat → List UInt8 → α) → α
  | 0, l, k => k [] l
  | n + 1, l, k =>
      readWord V.wordBytes 0 l fun w l => readWords n l fun words l => k (w :: words) l

/-- The zeros between the end mark and the length, which complete a block. -/
def paddingZeros (len : Nat) : Nat :=
  (V.blockBytes - (len + 1 + 2 * V.wordBytes) % V.blockBytes) % V.blockBytes

/-- The message, an end mark, zeros, and the length in bits. -/
def pad (msg : List UInt8) : List UInt8 :=
  msg ++ 0x80 :: (List.replicate (V.paddingZeros msg.length) 0 ++
    beDigits (2 * V.wordBytes) (8 * msg.length))

def compressBlocks : Nat → List UInt8 → State → State
  | 0, _, s => s
  | n + 1, l, s => V.readWords 16 l fun words l => compressBlocks n l (V.compress words s)

/-- The bytes of the eight words. -/
def State.toBytes (s : State) : List UInt8 :=
  match s with
  | ⟨a, b, c, d, e, f, g, h⟩ =>
      beDigits V.wordBytes a ++ beDigits V.wordBytes b ++ beDigits V.wordBytes c ++
        beDigits V.wordBytes d ++ beDigits V.wordBytes e ++ beDigits V.wordBytes f ++
        beDigits V.wordBytes g ++ beDigits V.wordBytes h

/-- The digest of a message. -/
def hash (msg : List UInt8) : List UInt8 :=
  State.toBytes V
    (V.compressBlocks ((V.pad msg).length / V.blockBytes) (V.pad msg) V.initial)

theorem length_hash (msg : List UInt8) : (V.hash msg).length = 8 * V.wordBytes := by
  simp only [hash, State.toBytes, List.length_append, length_beDigits]
  omega

example : sha512.hash (ascii "abc") =
    [221, 175, 53, 161, 147, 97, 122, 186, 204, 65, 115, 73, 174, 32, 65, 49, 18, 230,
     250, 78, 137, 169, 126, 162, 10, 158, 238, 230, 75, 85, 211, 154, 33, 146, 153, 42,
     39, 79, 193, 168, 54, 186, 60, 35, 163, 254, 235, 189, 69, 77, 68, 35, 100, 60, 232,
     14, 42, 154, 201, 79, 165, 76, 164, 159] := by
  decide +kernel

/-! ## HMAC and HKDF -/

/-- A key of the length of a block. -/
def hmacKey (key : List UInt8) : List UInt8 :=
  let key := if V.blockBytes < key.length then V.hash key else key
  key ++ List.replicate (V.blockBytes - key.length) 0

def hmac (key msg : List UInt8) : List UInt8 :=
  V.hash ((V.hmacKey key).map (0x5c ^^^ ·) ++
    V.hash ((V.hmacKey key).map (0x36 ^^^ ·) ++ msg))

/-- The blocks of `HKDF-Expand` with counters `i, i + 1, …`, after the block `prev`. -/
def hkdfBlocks (prk info : List UInt8) : Nat → Nat → List UInt8 → List UInt8
  | 0, _, _ => []
  | n + 1, i, prev =>
      let block := V.hmac prk (prev ++ info ++ [UInt8.ofNat i])
      block ++ hkdfBlocks prk info n (i + 1) block

/-- `HKDF-Extract`, then `HKDF-Expand` on `n` bytes. -/
def hkdf (salt ikm info : List UInt8) (n : Nat) : List UInt8 :=
  (V.hkdfBlocks (V.hmac salt ikm) info (n / (8 * V.wordBytes) + 1) 1 []).take n

theorem length_hkdfBlocks (prk info : List UInt8) (n i : Nat) (prev : List UInt8) :
    (V.hkdfBlocks prk info n i prev).length = n * (8 * V.wordBytes) := by
  induction n generalizing i prev with
  | zero => simp [hkdfBlocks]
  | succ n ih =>
      rw [hkdfBlocks, List.length_append, ih, hmac, length_hash, Nat.add_one_mul n, Nat.add_comm]

theorem length_hkdf (hV : 0 < V.wordBytes) (salt ikm info : List UInt8) (n : Nat) :
    (V.hkdf salt ikm info n).length = n := by
  have hlt : n < (n / (8 * V.wordBytes) + 1) * (8 * V.wordBytes) :=
    (Nat.div_lt_iff_lt_mul (by omega)).1 (Nat.lt_succ_self _)
  rw [hkdf, List.length_take, length_hkdfBlocks]
  omega

example : sha256.hkdf [0, 1, 2, 3] (List.replicate 22 0x0b) [0xf0, 0xf1] 42 =
    [50, 68, 244, 189, 175, 50, 93, 42, 157, 169, 241, 60, 130, 220, 224, 163, 95, 91,
     115, 149, 132, 147, 148, 6, 176, 191, 153, 72, 237, 176, 8, 7, 132, 56, 87, 131, 233,
     195, 64, 46, 23, 175] := by
  decide +kernel

end Variant

end Sha2
