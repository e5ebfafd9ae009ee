import S5LBox.Arm.Cpu
import S5LBox.Lib.Pieces

/-!
# AES

`aes.c`: the key schedule, the two directions of the cipher on a block, and decryption in the chain
of blocks.

## Main definitions

* `aesInit`: the round keys.
* `aesEncryptBlock`, `aesDecryptBlock`.
* `aesCbcDecrypt`: the blocks written one after the other.
-/

namespace S5LBox.Firmware.Aes

/-- `AES_BLOCK_SIZE`. -/
abbrev aesBlockSize : Nat := 16

/-- A block. The byte in row `r` and column `c` is at `4 * c + r`. -/
abbrev Block := Vector Byte aesBlockSize

/-- `SBOX`. -/
def sbox : List Byte :=
  [0x63, 0x7c, 0x77, 0x7b, 0xf2, 0x6b, 0x6f, 0xc5,
    0x30, 0x01, 0x67, 0x2b, 0xfe, 0xd7, 0xab, 0x76] ++
    [0xca, 0x82, 0xc9, 0x7d, 0xfa, 0x59, 0x47, 0xf0,
      0xad, 0xd4, 0xa2, 0xaf, 0x9c, 0xa4, 0x72, 0xc0] ++
    [0xb7, 0xfd, 0x93, 0x26, 0x36, 0x3f, 0xf7, 0xcc,
      0x34, 0xa5, 0xe5, 0xf1, 0x71, 0xd8, 0x31, 0x15] ++
    [0x04, 0xc7, 0x23, 0xc3, 0x18, 0x96, 0x05, 0x9a,
      0x07, 0x12, 0x80, 0xe2, 0xeb, 0x27, 0xb2, 0x75] ++
    [0x09, 0x83, 0x2c, 0x1a, 0x1b, 0x6e, 0x5a, 0xa0,
      0x52, 0x3b, 0xd6, 0xb3, 0x29, 0xe3, 0x2f, 0x84] ++
    [0x53, 0xd1, 0x00, 0xed, 0x20, 0xfc, 0xb1, 0x5b,
      0x6a, 0xcb, 0xbe, 0x39, 0x4a, 0x4c, 0x58, 0xcf] ++
    [0xd0, 0xef, 0xaa, 0xfb, 0x43, 0x4d, 0x33, 0x85,
      0x45, 0xf9, 0x02, 0x7f, 0x50, 0x3c, 0x9f, 0xa8] ++
    [0x51, 0xa3, 0x40, 0x8f, 0x92, 0x9d, 0x38, 0xf5,
      0xbc, 0xb6, 0xda, 0x21, 0x10, 0xff, 0xf3, 0xd2] ++
    [0xcd, 0x0c, 0x13, 0xec, 0x5f, 0x97, 0x44, 0x17,
      0xc4, 0xa7, 0x7e, 0x3d, 0x64, 0x5d, 0x19, 0x73] ++
    [0x60, 0x81, 0x4f, 0xdc, 0x22, 0x2a, 0x90, 0x88,
      0x46, 0xee, 0xb8, 0x14, 0xde, 0x5e, 0x0b, 0xdb] ++
    [0xe0, 0x32, 0x3a, 0x0a, 0x49, 0x06, 0x24, 0x5c,
      0xc2, 0xd3, 0xac, 0x62, 0x91, 0x95, 0xe4, 0x79] ++
    [0xe7, 0xc8, 0x37, 0x6d, 0x8d, 0xd5, 0x4e, 0xa9,
      0x6c, 0x56, 0xf4, 0xea, 0x65, 0x7a, 0xae, 0x08] ++
    [0xba, 0x78, 0x25, 0x2e, 0x1c, 0xa6, 0xb4, 0xc6,
      0xe8, 0xdd, 0x74, 0x1f, 0x4b, 0xbd, 0x8b, 0x8a] ++
    [0x70, 0x3e, 0xb5, 0x66, 0x48, 0x03, 0xf6, 0x0e,
      0x61, 0x35, 0x57, 0xb9, 0x86, 0xc1, 0x1d, 0x9e] ++
    [0xe1, 0xf8, 0x98, 0x11, 0x69, 0xd9, 0x8e, 0x94,
      0x9b, 0x1e, 0x87, 0xe9, 0xce, 0x55, 0x28, 0xdf] ++
    [0x8c, 0xa1, 0x89, 0x0d, 0xbf, 0xe6, 0x42, 0x68,
      0x41, 0x99, 0x2d, 0x0f, 0xb0, 0x54, 0xbb, 0x16]

/-- `SBOX[x]`. -/
def sub (x : Byte) : Byte := sbox.getD x.toNat 0

/-- `INV_SBOX` as `build_tables` leaves it. -/
def invSbox : List Byte :=
  (List.range 256).foldl (fun t i => t.set (sub (BitVec.ofNat 8 i)).toNat (BitVec.ofNat 8 i))
    (List.replicate 256 0)

/-- `INV_SBOX[x]`. -/
def invSub (x : Byte) : Byte := invSbox.getD x.toNat 0

/-- `xtime`. -/
def xtime (a : Byte) : Byte := a <<< 1 ^^^ (if a &&& 0x80 ≠ 0 then 0x1b else 0)

/-- The loop of `gmul`, for as many bits as `b` has. -/
def gmulLoop : Nat → Byte → Byte → Byte → Byte
  | 0, _, _, r => r
  | n + 1, a, b, r => gmulLoop n (xtime a) (b >>> 1) (if b &&& 1 ≠ 0 then r ^^^ a else r)

/-- `gmul`. -/
def gmul (a b : Byte) : Byte := gmulLoop 8 a b 0

/-- `sub_word`. -/
def subWord (w : Word) : Word :=
  (sub ((w >>> 24).setWidth 8)).setWidth 32 <<< 24 |||
    (sub ((w >>> 16).setWidth 8)).setWidth 32 <<< 16 |||
    (sub ((w >>> 8).setWidth 8)).setWidth 32 <<< 8 ||| (sub (w.setWidth 8)).setWidth 32

/-- `rot_word`. -/
def rotWord (w : Word) : Word := w <<< 8 ||| w >>> 24

/-- `aes_ctx_t`. -/
structure Ctx where
  rk : List Word
  rounds : Nat

/-- The word of the key at `4 * i`. -/
def keyWord (key : List Byte) (i : Nat) : Word :=
  (key.getD (4 * i) 0).setWidth 32 <<< 24 ||| (key.getD (4 * i + 1) 0).setWidth 32 <<< 16 |||
    (key.getD (4 * i + 2) 0).setWidth 32 <<< 8 ||| (key.getD (4 * i + 3) 0).setWidth 32

/-- The second loop of `aes_init`, for one `i`: `rk`, which is filled from the front, and `rcon`. -/
def expandKey (nk : Nat) (s : List Word × Byte) (i : Nat) : List Word × Byte :=
  let (rk, rcon) := s
  let t := rk.getD (i - 1) 0
  let (t, rcon) :=
    if i % nk = 0 then (subWord (rotWord t) ^^^ rcon.setWidth 32 <<< 24, xtime rcon)
    else if 6 < nk ∧ i % nk = 4 then (subWord t, rcon)
    else (t, rcon)
  (rk ++ [rk.getD (i - nk) 0 ^^^ t], rcon)

/-- `aes_init`. -/
def aesInit (key : List Byte) (keyBits : Nat) : Option Ctx :=
  let schedule (nk rounds : Nat) : Ctx :=
    { rk := ((List.range' nk (4 * (rounds + 1) - nk)).foldl (expandKey nk)
        ((List.range nk).map (keyWord key), 1)).1
      rounds }
  if keyBits = 128 then some (schedule 4 10)
  else if keyBits = 192 then some (schedule 6 12)
  else if keyBits = 256 then some (schedule 8 14)
  else none

/-! ### Blocks -/

/-- The byte in row `r` of a word of the round key. -/
def keyByte (w : Word) (r : Nat) : Byte := (w >>> (24 - 8 * r)).setWidth 8

/-- `add_round_key`, with the words of `rk` from `o` on. -/
def addRoundKey (rk : List Word) (o : Nat) (s : Block) : Block :=
  Vector.ofFn fun i => s.get i ^^^ keyByte (rk.getD (o + i / 4) 0) (i % 4)

/-- `SBOX` on every byte. -/
def subBytes (s : Block) : Block := s.map sub

/-- `INV_SBOX` on every byte. -/
def invSubBytes (s : Block) : Block := s.map invSub

/-- The byte in row `r` and column `c`. -/
def cell (s : Block) (c r : Nat) : Byte := s.toList.getD (4 * c + r) 0

/-- `shift_rows`: row `r` comes from `r` columns further on. -/
def shiftRows (s : Block) : Block :=
  Vector.ofFn fun i => cell s ((i / 4 + i % 4) % 4) (i % 4)

/-- `inv_shift_rows`: row `r` goes to `r` columns further on. -/
def invShiftRows (s : Block) : Block :=
  Vector.ofFn fun i => cell s ((i / 4 + (4 - i % 4)) % 4) (i % 4)

/-- `mix_columns`. -/
def mixColumns (s : Block) : Block :=
  Vector.ofFn fun i =>
    let p := cell s (i / 4)
    let x := p 0 ^^^ p 1 ^^^ p 2 ^^^ p 3
    p (i % 4) ^^^ (x ^^^ xtime (p (i % 4) ^^^ p ((i % 4 + 1) % 4)))

/-- `inv_mix_columns`. -/
def invMixColumns (s : Block) : Block :=
  Vector.ofFn fun i =>
    let p := cell s (i / 4)
    gmul (p (i % 4)) 14 ^^^ gmul (p ((i % 4 + 1) % 4)) 11 ^^^ gmul (p ((i % 4 + 2) % 4)) 13 ^^^
      gmul (p ((i % 4 + 3) % 4)) 9

/-- `aes_encrypt_block`. -/
def aesEncryptBlock (ctx : Ctx) (input : Block) : Block :=
  let s := addRoundKey ctx.rk 0 input
  let s := (List.range' 1 (ctx.rounds - 1)).foldl
    (fun s r => addRoundKey ctx.rk (4 * r) (mixColumns (shiftRows (subBytes s)))) s
  addRoundKey ctx.rk (4 * ctx.rounds) (shiftRows (subBytes s))

/-- `aes_decrypt_block`. -/
def aesDecryptBlock (ctx : Ctx) (input : Block) : Block :=
  let s := addRoundKey ctx.rk (4 * ctx.rounds) input
  let s := (List.range' 1 (ctx.rounds - 1)).reverse.foldl
    (fun s r => invMixColumns (addRoundKey ctx.rk (4 * r) (invSubBytes (invShiftRows s)))) s
  addRoundKey ctx.rk 0 (invSubBytes (invShiftRows s))

/-- Sixteen bytes as a block. -/
def blockOf (bytes : List Byte) : Block := Vector.ofFn fun i => bytes.getD i 0

/-- The loop of `aes_cbc_decrypt`, with `count` blocks left at `off`: `out` is the memory, and the
destination is at `o`. -/
def cbcLoop (ctx : Ctx) (input : List Byte) (o : Nat) :
    Nat → Nat → List Byte → List Byte → List Byte
  | 0, _, _, out => out
  | count + 1, off, prev, out =>
    let cipher := (input.drop off).take 16
    let plain := (aesDecryptBlock ctx (blockOf cipher)).toList
    let plain := List.zipWith (· ^^^ ·) plain prev
    cbcLoop ctx input o count (off + aesBlockSize) cipher (Pieces.overwrite out (o + off) plain)

/-- `aes_cbc_decrypt`: whether it succeeds, and the memory with the destination at `o`. -/
def aesCbcDecrypt (ctx : Ctx) (iv : Block) (input out : List Byte) (o len : Nat) :
    Bool × List Byte :=
  if len % aesBlockSize ≠ 0 then (false, out)
  else (true, cbcLoop ctx input o (len / aesBlockSize) 0 iv.toList out)

end S5LBox.Firmware.Aes
