import StellarRecrypt.Lib.ByteString

/-!
# ChaChaPoly — XChaCha20-Poly1305

The stream cipher, the extended-nonce derivation, the one-time authenticator and the AEAD made of
them, on words that are natural numbers below `2 ^ 32`.  Every new word is forced, so the kernel can
evaluate a closed call.  Decryption inverts encryption because the key stream is added bit by bit.
-/

namespace ChaChaPoly

open ByteString

/-! ## The stream cipher -/

/-- Rotation to the left. -/
def rotl (n x : Nat) : Nat :=
  x <<< n % 2 ^ 32 ||| x >>> (32 - n)

def quarterRound {α : Type} (a b c d : Nat) (k : Nat → Nat → Nat → Nat → α) : α :=
  force ((a + b) % 2 ^ 32) fun a =>
  force (rotl 16 (d ^^^ a)) fun d =>
  force ((c + d) % 2 ^ 32) fun c =>
  force (rotl 12 (b ^^^ c)) fun b =>
  force ((a + b) % 2 ^ 32) fun a =>
  force (rotl 8 (d ^^^ a)) fun d =>
  force ((c + d) % 2 ^ 32) fun c =>
  force (rotl 7 (b ^^^ c)) fun b =>
  k a b c d

/-- Four words. -/
structure Row where
  x₀ : Nat
  x₁ : Nat
  x₂ : Nat
  x₃ : Nat

/-- The matrix of sixteen words. -/
structure State where
  a : Row
  b : Row
  c : Row
  d : Row

/-- A quarter round on each column, then one on each diagonal. -/
def doubleRound (s : State) : State :=
  match s with
  | ⟨⟨a₀, a₁, a₂, a₃⟩, ⟨b₀, b₁, b₂, b₃⟩, ⟨c₀, c₁, c₂, c₃⟩, ⟨d₀, d₁, d₂, d₃⟩⟩ =>
      quarterRound a₀ b₀ c₀ d₀ fun a₀ b₀ c₀ d₀ =>
      quarterRound a₁ b₁ c₁ d₁ fun a₁ b₁ c₁ d₁ =>
      quarterRound a₂ b₂ c₂ d₂ fun a₂ b₂ c₂ d₂ =>
      quarterRound a₃ b₃ c₃ d₃ fun a₃ b₃ c₃ d₃ =>
      quarterRound a₀ b₁ c₂ d₃ fun a₀ b₁ c₂ d₃ =>
      quarterRound a₁ b₂ c₃ d₀ fun a₁ b₂ c₃ d₀ =>
      quarterRound a₂ b₃ c₀ d₁ fun a₂ b₃ c₀ d₁ =>
      quarterRound a₃ b₀ c₁ d₂ fun a₃ b₀ c₁ d₂ =>
      ⟨⟨a₀, a₁, a₂, a₃⟩, ⟨b₀, b₁, b₂, b₃⟩, ⟨c₀, c₁, c₂, c₃⟩, ⟨d₀, d₁, d₂, d₃⟩⟩

def doubleRounds : Nat → State → State
  | 0, s => s
  | n + 1, s => doubleRounds n (doubleRound s)

/-- Word number `i` of a byte string, in little-endian order. -/
def word (l : List UInt8) (i : Nat) : Nat :=
  leNat ((l.drop (4 * i)).take 4)

def readRow (l : List UInt8) (i : Nat) : Row :=
  force (word l i) fun x₀ =>
  force (word l (i + 1)) fun x₁ =>
  force (word l (i + 2)) fun x₂ =>
  force (word l (i + 3)) fun x₃ =>
  ⟨x₀, x₁, x₂, x₃⟩

/-- The constant row, the key, and the sixteen bytes of counter and nonce. -/
def initial (key input : List UInt8) : State :=
  { a := ⟨0x61707865, 0x3320646e, 0x79622d32, 0x6b206574⟩
    b := readRow key 0
    c := readRow key 4
    d := readRow input 0 }

def Row.toBytes (r : Row) : List UInt8 :=
  leDigits 4 r.x₀ ++ leDigits 4 r.x₁ ++ leDigits 4 r.x₂ ++ leDigits 4 r.x₃

def Row.add (r t : Row) : Row :=
  ⟨r.x₀ + t.x₀, r.x₁ + t.x₁, r.x₂ + t.x₂, r.x₃ + t.x₃⟩

@[simp] theorem Row.length_toBytes (r : Row) : r.toBytes.length = 16 := by
  simp [toBytes]

/-- One block of the key stream. -/
def block (key nonce : List UInt8) (counter : Nat) : List UInt8 :=
  let s := initial key (leDigits 4 counter ++ nonce)
  let t := doubleRounds 10 s
  (s.a.add t.a).toBytes ++ (s.b.add t.b).toBytes ++ (s.c.add t.c).toBytes ++ (s.d.add t.d).toBytes

@[simp] theorem length_block (key nonce : List UInt8) (counter : Nat) :
    (block key nonce counter).length = 64 := by
  simp [block]

/-- `HChaCha20`: the subkey for the first sixteen bytes of an extended nonce. -/
def subkey (key nonce : List UInt8) : List UInt8 :=
  let t := doubleRounds 10 (initial key nonce)
  t.a.toBytes ++ t.d.toBytes

/-- `n` blocks of the key stream. -/
def keyStream (key nonce : List UInt8) : Nat → Nat → List UInt8
  | 0, _ => []
  | n + 1, counter => block key nonce counter ++ keyStream key nonce n (counter + 1)

theorem length_keyStream (key nonce : List UInt8) (n counter : Nat) :
    (keyStream key nonce n counter).length = 64 * n := by
  induction n generalizing counter with
  | zero => rfl
  | succ n ih =>
      rw [keyStream, List.length_append, length_block, ih]
      omega

/-- Adds a key stream bit by bit. -/
def xor (msg stream : List UInt8) : List UInt8 :=
  List.zipWith (· ^^^ ·) msg stream

theorem length_xor {msg stream : List UInt8} (h : msg.length ≤ stream.length) :
    (xor msg stream).length = msg.length := by
  rw [xor, List.length_zipWith, Nat.min_eq_left h]

/-- Adding a stream twice gives the message back. -/
theorem xor_xor {msg stream : List UInt8} (h : msg.length ≤ stream.length) :
    xor (xor msg stream) stream = msg := by
  induction msg generalizing stream with
  | nil => simp [xor]
  | cons b msg ih =>
      cases stream with
      | nil => simp at h
      | cons s stream =>
          have hle : msg.length ≤ stream.length := Nat.le_of_succ_le_succ h
          have hb : b ^^^ s ^^^ s = b := by
            rw [UInt8.xor_assoc, UInt8.xor_self, UInt8.xor_zero]
          have hrest := ih hle
          simp only [xor, List.zipWith_cons_cons, hb] at hrest ⊢
          rw [hrest]

/-- Encryption and decryption with the stream cipher, whose first block is block `1`. -/
def crypt (key nonce msg : List UInt8) : List UInt8 :=
  xor msg (keyStream key nonce ((msg.length + 63) / 64) 1)

theorem length_le_keyStream (key nonce : List UInt8) (len : Nat) :
    len ≤ (keyStream key nonce ((len + 63) / 64) 1).length := by
  rw [length_keyStream]
  omega

@[simp] theorem length_crypt (key nonce msg : List UInt8) :
    (crypt key nonce msg).length = msg.length :=
  length_xor (length_le_keyStream key nonce msg.length)

theorem crypt_crypt (key nonce msg : List UInt8) :
    crypt key nonce (crypt key nonce msg) = msg := by
  rw [crypt, length_crypt]
  exact xor_xor (length_le_keyStream key nonce msg.length)

/-! ## The authenticator -/

/-- The polynomial of the sixteen-byte chunks of a message, each with a final `1`. -/
def polyEval (r : Nat) : Nat → List UInt8 → Nat → Nat
  | 0, _, acc => acc
  | n + 1, l, acc =>
      force ((acc + leNat (l.take 16 ++ [1])) * r % (2 ^ 130 - 5)) fun acc =>
      polyEval r n (l.drop 16) acc

def poly1305 (key msg : List UInt8) : List UInt8 :=
  force (leNat (key.take 16) &&& 0x0ffffffc0ffffffc0ffffffc0fffffff) fun r =>
  force (polyEval r ((msg.length + 15) / 16) msg 0) fun acc =>
  leDigits 16 (acc + leNat (key.drop 16))

@[simp] theorem length_poly1305 (key msg : List UInt8) : (poly1305 key msg).length = 16 := by
  rw [poly1305, force_eq, force_eq, length_leDigits]

/-- Zeros up to a multiple of sixteen bytes. -/
def padded (l : List UInt8) : List UInt8 :=
  l ++ List.replicate ((16 - l.length % 16) % 16) 0

/-- The tag of associated data and a ciphertext. -/
def tag (key nonce aad ct : List UInt8) : List UInt8 :=
  poly1305 ((block key nonce 0).take 32)
    (padded aad ++ padded ct ++ leDigits 8 aad.length ++ leDigits 8 ct.length)

@[simp] theorem length_tag (key nonce aad ct : List UInt8) : (tag key nonce aad ct).length = 16 :=
  length_poly1305 _ _

/-! ## The AEAD with an extended nonce -/

/-- The block counter does not wrap around. -/
def Fits (len : Nat) : Prop :=
  len / 64 < 2 ^ 32 - 1

instance (len : Nat) : Decidable (Fits len) := by
  unfold Fits
  infer_instance

/-- The nonce of the stream cipher: four zeros and the last eight bytes. -/
def shortNonce (nonce : List UInt8) : List UInt8 :=
  List.replicate 4 0 ++ nonce.drop 16

/-- Ciphertext and tag, unless the message is too long. -/
def encrypt (key nonce msg aad : List UInt8) : Option (List UInt8) :=
  let key := subkey key (nonce.take 16)
  let nonce := shortNonce nonce
  if Fits msg.length then
    let ct := crypt key nonce msg
    some (ct ++ tag key nonce aad ct)
  else none

/-- The message of a ciphertext whose tag is right. -/
def decrypt (key nonce sealed aad : List UInt8) : Option (List UInt8) :=
  let key := subkey key (nonce.take 16)
  let nonce := shortNonce nonce
  let ct := sealed.take (sealed.length - 16)
  if 16 ≤ sealed.length ∧ Fits ct.length ∧
      sealed.drop (sealed.length - 16) = tag key nonce aad ct then
    some (crypt key nonce ct)
  else none

theorem encrypt_eq_some_iff {key nonce msg aad sealed : List UInt8} :
    encrypt key nonce msg aad = some sealed ↔ Fits msg.length ∧
      sealed = crypt (subkey key (nonce.take 16)) (shortNonce nonce) msg ++
        tag (subkey key (nonce.take 16)) (shortNonce nonce) aad
          (crypt (subkey key (nonce.take 16)) (shortNonce nonce) msg) := by
  simp only [encrypt]
  split
  · rename_i hfits
    simp only [Option.some_inj, hfits, true_and, eq_comm]
  · rename_i hfits
    simp only [hfits, false_and, reduceCtorEq]

/-- A sealed message is sixteen bytes longer than the message. -/
theorem length_encrypt {key nonce msg aad sealed : List UInt8}
    (h : encrypt key nonce msg aad = some sealed) : sealed.length = msg.length + 16 := by
  rcases encrypt_eq_some_iff.1 h with ⟨_, rfl⟩
  rw [List.length_append, length_crypt, length_tag]

/-- Decryption inverts encryption. -/
theorem decrypt_encrypt {key nonce msg aad sealed : List UInt8}
    (h : encrypt key nonce msg aad = some sealed) : decrypt key nonce sealed aad = some msg := by
  have hlen := length_encrypt h
  rcases encrypt_eq_some_iff.1 h with ⟨hfits, hsealed⟩
  have hcut : sealed.length - 16 =
      (crypt (subkey key (nonce.take 16)) (shortNonce nonce) msg).length := by
    rw [hlen, length_crypt, Nat.add_sub_cancel]
  have hct : sealed.take (sealed.length - 16) =
      crypt (subkey key (nonce.take 16)) (shortNonce nonce) msg := by
    rw [hcut, hsealed, List.take_left]
  have htag : sealed.drop (sealed.length - 16) =
      tag (subkey key (nonce.take 16)) (shortNonce nonce) aad
        (crypt (subkey key (nonce.take 16)) (shortNonce nonce) msg) := by
    rw [hcut, hsealed, List.drop_left]
  have hcond : 16 ≤ sealed.length := by
    rw [hlen]
    exact Nat.le_add_left _ _
  simp only [decrypt, hct, htag]
  rw [if_pos ⟨hcond, by rwa [length_crypt], trivial⟩, crypt_crypt]

/-- A message that decrypts is sealed again to what it came from. -/
theorem encrypt_decrypt {key nonce msg aad sealed : List UInt8}
    (h : decrypt key nonce sealed aad = some msg) : encrypt key nonce msg aad = some sealed := by
  simp only [decrypt] at h
  split at h
  · rename_i hcond
    rcases hcond with ⟨_, hfits, htag⟩
    cases h
    refine encrypt_eq_some_iff.2 ⟨by rwa [length_crypt], ?_⟩
    rw [crypt_crypt, ← htag, List.take_append_drop]
  · cases h

example : encrypt ((List.range 32).map fun i => UInt8.ofNat (0x80 + i))
    ((List.range 24).map fun i => UInt8.ofNat (0x40 + i))
    (ascii "Ladies and Gentlemen of the class of '99")
    [0x50, 0x51, 0x52, 0x53, 0xc0, 0xc1, 0xc2, 0xc3, 0xc4, 0xc5, 0xc6, 0xc7] =
    some
      [189, 109, 23, 157, 62, 131, 212, 59, 149, 118, 87, 148, 147, 192, 233, 57, 87, 42,
       23, 0, 37, 43, 250, 204, 190, 210, 144, 44, 33, 57, 108, 187, 115, 28, 127, 27, 11,
       74, 166, 68, 168, 213, 13, 149, 175, 226, 127, 183, 213, 254, 110, 5, 57, 162, 211,
       173] := by
  decide +kernel

end ChaChaPoly
