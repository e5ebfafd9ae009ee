import S5LBox.Arm.Cpu
import S5LBox.Lib.BlockHash

/-!
# The secure hash standard, SHA-256

FIPS 180-4 for messages of whole octets: the functions of section 4.1.2, the constants of section
4.2.2, padding and parsing of section 5, the initial hash value of section 5.3.3 and the hash
computation of section 6.2.

## Main definitions

* `schedule`: the words `W`.
* `compress`: the step from one hash value to the next.
* `pad`: the padded message.
* `digest`: the message digest.
-/

namespace S5LBox.Tools.Sha256.Standard

/-! ### Functions -/

/-- `ROTR`. -/
def rotr (n : Nat) (x : Word) : Word := x.rotateRight n

/-- `Ch`. -/
def ch (x y z : Word) : Word := (x &&& y) ^^^ (~~~x &&& z)

/-- `Maj`. -/
def maj (x y z : Word) : Word := (x &&& y) ^^^ (x &&& z) ^^^ (y &&& z)

/-- `Σ₀`. -/
def bigSigma0 (x : Word) : Word := rotr 2 x ^^^ rotr 13 x ^^^ rotr 22 x

/-- `Σ₁`. -/
def bigSigma1 (x : Word) : Word := rotr 6 x ^^^ rotr 11 x ^^^ rotr 25 x

/-- `σ₀`. -/
def smallSigma0 (x : Word) : Word := rotr 7 x ^^^ rotr 18 x ^^^ x >>> 3

/-- `σ₁`. -/
def smallSigma1 (x : Word) : Word := rotr 17 x ^^^ rotr 19 x ^^^ x >>> 10

/-! ### Constants -/

/-- `K`. -/
def constants : List Nat :=
  [0x428a2f98, 0x71374491, 0xb5c0fbcf, 0xe9b5dba5, 0x3956c25b, 0x59f111f1, 0x923f82a4, 0xab1c5ed5,
    0xd807aa98, 0x12835b01, 0x243185be, 0x550c7dc3, 0x72be5d74, 0x80deb1fe, 0x9bdc06a7, 0xc19bf174,
    0xe49b69c1, 0xefbe4786, 0x0fc19dc6, 0x240ca1cc, 0x2de92c6f, 0x4a7484aa, 0x5cb0a9dc, 0x76f988da,
    0x983e5152, 0xa831c66d, 0xb00327c8, 0xbf597fc7, 0xc6e00bf3, 0xd5a79147, 0x06ca6351, 0x14292967,
    0x27b70a85, 0x2e1b2138, 0x4d2c6dfc, 0x53380d13, 0x650a7354, 0x766a0abb, 0x81c2c92e, 0x92722c85,
    0xa2bfe8a1, 0xa81a664b, 0xc24b8b70, 0xc76c51a3, 0xd192e819, 0xd6990624, 0xf40e3585, 0x106aa070,
    0x19a4c116, 0x1e376c08, 0x2748774c, 0x34b0bcb5, 0x391c0cb3, 0x4ed8aa4a, 0x5b9cca4f, 0x682e6ff3,
    0x748f82ee, 0x78a5636f, 0x84c87814, 0x8cc70208, 0x90befffa, 0xa4506ceb, 0xbef9a3f7, 0xc67178f2]

/-- A hash value, or the eight working variables. -/
structure HashValue where
  a : Word
  b : Word
  c : Word
  d : Word
  e : Word
  f : Word
  g : Word
  h : Word
  deriving DecidableEq

/-- The words of a hash value. -/
def HashValue.words (v : HashValue) : List Word := [v.a, v.b, v.c, v.d, v.e, v.f, v.g, v.h]

/-- The initial hash value. -/
def initial : HashValue :=
  ⟨0x6a09e667, 0xbb67ae85, 0x3c6ef372, 0xa54ff53a, 0x510e527f, 0x9b05688c, 0x1f83d9ab, 0x5be0cd19⟩

/-! ### Padding -/

/-- How many zero octets the padding has. -/
def zeros (n : Nat) : Nat := (119 - n % 64) % 64

/-- The octets of a 64-bit number, the most significant first. -/
def octets64 (x : BitVec 64) : List Byte :=
  (List.range 8).map fun i => x.extractLsb' (56 - i * 8) 8

/-- What the padding adds to a message of `n` octets. -/
def padding (n : Nat) : List Byte :=
  0x80 :: (List.replicate (zeros n) 0 ++ octets64 (BitVec.ofNat 64 (8 * n)))

/-- The padded message. -/
def pad (message : List Byte) : List Byte := message ++ padding message.length

/-! ### Hash computation -/

/-- The `t`-th word of a block. -/
def messageWord (block : List Byte) (t : Nat) : Word :=
  block.getD (t * 4) 0 ++ block.getD (t * 4 + 1) 0 ++ block.getD (t * 4 + 2) 0 ++
    block.getD (t * 4 + 3) 0

/-- `W`. -/
def schedule (block : List Byte) (t : Nat) : Word :=
  if t < 16 then messageWord block t
  else smallSigma1 (schedule block (t - 2)) + schedule block (t - 7) +
    smallSigma0 (schedule block (t - 15)) + schedule block (t - 16)
termination_by t

/-- One step of the working variables. -/
def round (k w : Word) (v : HashValue) : HashValue :=
  let t1 := v.h + bigSigma1 v.e + ch v.e v.f v.g + k + w
  let t2 := bigSigma0 v.a + maj v.a v.b v.c
  { a := t1 + t2, b := v.a, c := v.b, d := v.c, e := v.d + t1, f := v.e, g := v.f, h := v.g }

/-- The working variables before step `t`. -/
def working (v : HashValue) (block : List Byte) : Nat → HashValue
  | 0 => v
  | t + 1 => round (BitVec.ofNat 32 (constants.getD t 0)) (schedule block t) (working v block t)

/-- The sum of hash values, word by word. -/
def HashValue.add (v w : HashValue) : HashValue :=
  ⟨v.a + w.a, v.b + w.b, v.c + w.c, v.d + w.d, v.e + w.e, v.f + w.f, v.g + w.g, v.h + w.h⟩

/-- The hash value after a block. -/
def compress (v : HashValue) (block : List Byte) : HashValue := v.add (working v block 64)

/-- The octets of a word, the most significant first. -/
def octets32 (x : Word) : List Byte :=
  [x.extractLsb' 24 8, x.extractLsb' 16 8, x.extractLsb' 8 8, x.extractLsb' 0 8]

/-- The message digest. -/
def digest (message : List Byte) : List Byte :=
  (BlockHash.absorb 64 compress initial (pad message)).1.words.flatMap octets32

end S5LBox.Tools.Sha256.Standard
