import S5LBox.Tools.Sha256Standard

/-!
# Streaming SHA-256

`sha256.c`: a context takes octets in by calls of any length, and keeps those that do not fill a
block yet. Contexts are those of the callers, who all have one; data may be `NULL`, and so may the
place for the digest.

## Main definitions

* `transform`: a block taken into the state.
* `init`, `update`, `final`: the interface.
* `sha256`: all of it at once.
-/

namespace S5LBox.Tools.Sha256

open Standard (HashValue)

/-- `IOS3_SHA256_BLOCK_SIZE`. -/
abbrev blockSize : Nat := 64

/-- `IOS3_SHA256_MAX_INPUT_BYTES`. -/
abbrev maxInputBytes : Nat := 0x1fffffffffffffff

/-- `ios3_sha256_context_t`. The words `state[0]` to `state[7]` are `state.a` to `state.h`. -/
structure Context where
  state : HashValue
  totalBytes : Nat
  block : Vector Byte blockSize
  blockUsed : Nat
  finalized : Bool

/-! ### Memory -/

/-- `memcpy(block + o, bytes, n)`. -/
def memcpy (block : Vector Byte blockSize) (o : Nat) (bytes : List Byte) (n : Nat) :
    Vector Byte blockSize :=
  Vector.ofFn fun i => if o ≤ i ∧ i < o + n then bytes.getD (i - o) 0 else block.get i

/-- `memset(block + o, 0, n)`. -/
def memset (block : Vector Byte blockSize) (o n : Nat) : Vector Byte blockSize :=
  memcpy block o (List.replicate n 0) n

/-! ### The transformation -/

/-- `SHA256_CONSTANTS`. -/
def sha256Constants : Vector Word 64 :=
  #v[0x428a2f98, 0x71374491, 0xb5c0fbcf, 0xe9b5dba5, 0x3956c25b, 0x59f111f1, 0x923f82a4, 0xab1c5ed5,
    0xd807aa98, 0x12835b01, 0x243185be, 0x550c7dc3, 0x72be5d74, 0x80deb1fe, 0x9bdc06a7, 0xc19bf174,
    0xe49b69c1, 0xefbe4786, 0x0fc19dc6, 0x240ca1cc, 0x2de92c6f, 0x4a7484aa, 0x5cb0a9dc, 0x76f988da,
    0x983e5152, 0xa831c66d, 0xb00327c8, 0xbf597fc7, 0xc6e00bf3, 0xd5a79147, 0x06ca6351, 0x14292967,
    0x27b70a85, 0x2e1b2138, 0x4d2c6dfc, 0x53380d13, 0x650a7354, 0x766a0abb, 0x81c2c92e, 0x92722c85,
    0xa2bfe8a1, 0xa81a664b, 0xc24b8b70, 0xc76c51a3, 0xd192e819, 0xd6990624, 0xf40e3585, 0x106aa070,
    0x19a4c116, 0x1e376c08, 0x2748774c, 0x34b0bcb5, 0x391c0cb3, 0x4ed8aa4a, 0x5b9cca4f, 0x682e6ff3,
    0x748f82ee, 0x78a5636f, 0x84c87814, 0x8cc70208, 0x90befffa, 0xa4506ceb, 0xbef9a3f7, 0xc67178f2]

/-- `rotate_right`. -/
def rotateRight (value : Word) (count : Nat) : Word := value >>> count ||| value <<< (32 - count)

/-- `load_be32`. -/
def loadBe32 (bytes : List Byte) : Word :=
  (bytes.getD 0 0).setWidth 32 <<< 24 ||| (bytes.getD 1 0).setWidth 32 <<< 16 |||
    (bytes.getD 2 0).setWidth 32 <<< 8 ||| (bytes.getD 3 0).setWidth 32

/-- `store_be32`. -/
def storeBe32 (value : Word) : List Byte :=
  [(value >>> 24).setWidth 8, (value >>> 16).setWidth 8, (value >>> 8).setWidth 8,
    value.setWidth 8]

/-- What the second loop of `transform` puts at `words[index]`. -/
def nextWord (words : List Word) (index : Nat) : Word :=
  let word i := words.getD i 0
  let s0 := rotateRight (word (index - 15)) 7 ^^^ rotateRight (word (index - 15)) 18 ^^^
    word (index - 15) >>> 3
  let s1 := rotateRight (word (index - 2)) 17 ^^^ rotateRight (word (index - 2)) 19 ^^^
    word (index - 2) >>> 10
  word (index - 16) + s0 + word (index - 7) + s1

/-- `words` after the first two loops of `transform`, which fill it from the front. -/
def words (block : List Byte) : List Word :=
  (List.range' 16 48).foldl (fun words index => words ++ [nextWord words index])
    ((List.range 16).map fun index => loadBe32 (block.drop (index * 4)))

/-- The body of the third loop of `transform`. -/
def round (words : List Word) (v : HashValue) (index : Nat) : HashValue :=
  let sum1 := rotateRight v.e 6 ^^^ rotateRight v.e 11 ^^^ rotateRight v.e 25
  let choose := (v.e &&& v.f) ^^^ (~~~v.e &&& v.g)
  let temp1 := v.h + sum1 + choose + sha256Constants.toList.getD index 0 + words.getD index 0
  let sum0 := rotateRight v.a 2 ^^^ rotateRight v.a 13 ^^^ rotateRight v.a 22
  let majority := (v.a &&& v.b) ^^^ (v.a &&& v.c) ^^^ (v.b &&& v.c)
  let temp2 := sum0 + majority
  { h := v.g, g := v.f, f := v.e, e := v.d + temp1, d := v.c, c := v.b, b := v.a,
    a := temp1 + temp2 }

/-- `transform`, as far as it goes to the state. -/
def transform (state : HashValue) (block : List Byte) : HashValue :=
  let v := (List.range 64).foldl (round (words block)) state
  { a := state.a + v.a, b := state.b + v.b, c := state.c + v.c, d := state.d + v.d,
    e := state.e + v.e, f := state.f + v.f, g := state.g + v.g, h := state.h + v.h }

/-! ### The interface -/

/-- `ios3_sha256_init`. -/
def init : Context where
  state :=
    { a := 0x6a09e667, b := 0xbb67ae85, c := 0x3c6ef372, d := 0xa54ff53a
      e := 0x510e527f, f := 0x9b05688c, g := 0x1f83d9ab, h := 0x5be0cd19 }
  totalBytes := 0
  block := Vector.replicate blockSize 0
  blockUsed := 0
  finalized := false

/-- The block has been filled, or it waits for more. -/
def Context.flush (context : Context) : Context :=
  if context.blockUsed = blockSize then
    { context with state := transform context.state context.block.toList, blockUsed := 0 }
  else context

/-- The part of `ios3_sha256_update` under `block_used != 0`: the context and what is left of the
bytes. -/
def Context.carry (context : Context) (bytes : List Byte) : Context × List Byte :=
  if context.blockUsed ≠ 0 then
    let available := blockSize - context.blockUsed
    let take := if bytes.length < available then bytes.length else available
    ({ context with
        block := memcpy context.block context.blockUsed bytes take
        blockUsed := context.blockUsed + take }.flush, bytes.drop take)
  else (context, bytes)

/-- The loop of `ios3_sha256_update`: the state and what is left of the bytes. -/
def wholeBlocks (state : HashValue) (bytes : List Byte) : HashValue × List Byte :=
  if _h : blockSize ≤ bytes.length then
    wholeBlocks (transform state (bytes.take blockSize)) (bytes.drop blockSize)
  else (state, bytes)
termination_by bytes.length
decreasing_by
  have hsize : blockSize = 64 := rfl
  rw [List.length_drop]
  omega

/-- The end of `ios3_sha256_update`. -/
def Context.keep (context : Context) (bytes : List Byte) : Context :=
  if bytes.length ≠ 0 then
    { context with block := memcpy context.block 0 bytes bytes.length, blockUsed := bytes.length }
  else context

/-- `ios3_sha256_update`, where `size_t` has 64 bits. -/
def update (context : Context) (data : Option (List Byte)) (length : Nat) : Bool × Context :=
  if (length ≠ 0 ∧ data.isNone) ∨ context.finalized ∨ blockSize ≤ context.blockUsed ∨
      maxInputBytes < context.totalBytes then (false, context)
  else if maxInputBytes < length then (false, context)
  else if maxInputBytes - context.totalBytes < length then (false, context)
  else if length = 0 then (true, context)
  else
    let context := { context with totalBytes := (context.totalBytes + length) % 2 ^ 64 }
    let (context, bytes) := context.carry ((data.getD []).take length)
    let (state, bytes) := wholeBlocks context.state bytes
    (true, Context.keep { context with state } bytes)

/-- The octet that `ios3_sha256_final` puts behind the message. -/
def Context.mark (context : Context) : Context :=
  { context with
    block := memcpy context.block context.blockUsed [0x80] 1
    blockUsed := context.blockUsed + 1 }

/-- The block of `ios3_sha256_final` that leaves no room for the length. -/
def Context.spill (context : Context) : Context :=
  if 56 < context.blockUsed then
    { context with
      state := transform context.state
        (memset context.block context.blockUsed (blockSize - context.blockUsed)).toList
      block := memset context.block context.blockUsed (blockSize - context.blockUsed)
      blockUsed := 0 }
  else context

/-- The last block of `ios3_sha256_final`, with the length of the message in bits. -/
def Context.lastBlock (context : Context) (totalBits : BitVec 64) : Vector Byte blockSize :=
  memcpy (memset context.block context.blockUsed (56 - context.blockUsed)) 56
    ((List.range 8).map fun index => (totalBits >>> (56 - index * 8)).setWidth 8) 8

/-- The context at the end of `ios3_sha256_final`. -/
def Context.wipe (context : Context) (state : HashValue) : Context :=
  { context with
    state, block := Vector.replicate blockSize 0, blockUsed := 0, finalized := true }

/-- `ios3_sha256_final`: what is written to the digest, if the call succeeds, and the context. -/
def final (context : Context) (hasDigest : Bool) : Option (List Byte) × Context :=
  if hasDigest = false ∨ context.finalized ∨ blockSize ≤ context.blockUsed ∨
      maxInputBytes < context.totalBytes then (none, context)
  else
    let totalBits := BitVec.ofNat 64 (context.totalBytes * 8)
    let context := context.mark.spill
    let state := transform context.state (context.lastBlock totalBits).toList
    (some (state.words.flatMap storeBe32), context.wipe state)

end S5LBox.Tools.Sha256
