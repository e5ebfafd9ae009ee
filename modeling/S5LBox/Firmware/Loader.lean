import S5LBox.Firmware.Aes
import S5LBox.Firmware.Img3

/-!
# The firmware loader

`img3_decrypt_data_iv` of `img3.c`, and the loading of an IMG3 file into the RAM of a machine by
`loader.c`. The file is not part of the RAM. A key has as many bytes as its number of bits says.

## Main definitions

* `img3DecryptDataIv`: the decrypted payload written to memory.
* `fwLoadImg3Common`: the checks, and then the payload or its decryption.
* `fwLoadImg3`, `fwLoadImg3Iv`.
-/

namespace S5LBox.Firmware.Loader

open Img3 (Image img3Parse)
open Aes (aesInit aesCbcDecrypt aesBlockSize)

/-- `fw_status_t`. -/
inductive Status
  | ok
  | errParse
  | errNoPayload
  | errDecrypt
  | errNoRoom
  | errKeyRequired
  | errInvalidArgument
  | errIvRequired
  deriving DecidableEq, Repr

/-- `s5l8900_t`, as far as the loader goes. The size of the RAM is that of `ram`. -/
structure Machine where
  ram : Option (List Byte)
  ramBase : Nat

/-- `fw_image_t`. -/
structure LoadedImage where
  ident : Nat
  identStr : List Byte
  vers : List Byte
  loadAddr : Nat
  size : Nat
  wasEncrypted : Bool
  wasSigned : Bool

/-- `img3_ident_str`. -/
def img3IdentStr (ident : Nat) : List Byte :=
  [BitVec.ofNat 8 (ident / 2 ^ 24), BitVec.ofNat 8 (ident / 2 ^ 16), BitVec.ofNat 8 (ident / 2 ^ 8),
    BitVec.ofNat 8 ident, 0]

/-- `img3_decrypt_data_iv` for an image of `buf`, with the destination at `o` of the memory `out`:
the memory, and the number of bytes written if it succeeds. -/
def img3DecryptDataIv (buf : List Byte) (img : Image) (key : Option (List Byte)) (keyBits : Nat)
    (iv : Option Aes.Block) (out : List Byte) (o outCap : Nat) : Option Nat × List Byte :=
  match img.data, key, iv with
  | some data, some key, some iv =>
    if img.kbag.present = false ∨ img.kbag.malformed ∨ keyBits ≠ img.kbag.keyBits ∨
        outCap < img.dataLen then (none, out)
    else
      match aesInit key keyBits with
      | none => (none, out)
      | some ctx =>
        let whole := img.dataLen - img.dataLen % aesBlockSize
        let tail := img.dataLen - whole
        let (ok, out) :=
          if whole ≠ 0 then aesCbcDecrypt ctx iv (buf.drop data) out o whole else (true, out)
        if ok = false then (none, out)
        else
          let out :=
            if tail ≠ 0 then Pieces.overwrite out (o + whole) ((buf.drop (data + whole)).take tail)
            else out
          (some img.dataLen, out)
  | _, _, _ => (none, out)

/-- The end of `fw_load_img3_common`. -/
def describe (img : Image) (loadAddr : Nat) : LoadedImage where
  ident := img.ident
  identStr := img3IdentStr img.ident
  vers := img.vers.take 63 ++ [0]
  loadAddr
  size := img.dataLen
  wasEncrypted := img.kbag.present
  wasSigned := img.hasShsh

/-- The part of `fw_load_img3_common` behind its checks, for a payload at `data` that goes to the
offset `off` of the RAM. -/
def place (buf : List Byte) (img : Image) (data : Nat) (key : Option (List Byte)) (keyBits : Nat)
    (iv : Option Aes.Block) (ram : List Byte) (off : Nat) : Status × List Byte :=
  if img.kbag.malformed then (.errDecrypt, ram)
  else if img.kbag.present then
    if key.isNone then (.errKeyRequired, ram)
    else if iv.isNone then (.errIvRequired, ram)
    else
      match img3DecryptDataIv buf img key keyBits iv ram off (ram.length - off) with
      | (none, ram) => (.errDecrypt, ram)
      | (some written, ram) =>
        if written ≠ img.dataLen then (.errDecrypt, ram) else (.ok, ram)
  else (.ok, Pieces.overwrite ram off ((buf.drop data).take img.dataLen))

/-- `fw_load_img3_common`: the status, the machine, and what is written to `out` on success. -/
def fwLoadImg3Common (m : Option Machine) (buf : Option (List Byte)) (key : Option (List Byte))
    (keyBits : Nat) (iv : Option Aes.Block) (loadAddr : Nat) :
    Status × Option Machine × Option LoadedImage :=
  match m, buf with
  | some ⟨some ram, ramBase⟩, some buf =>
    match img3Parse (some buf) with
    | (.ok, img) =>
      match img.data with
      | none => (.errNoPayload, m, none)
      | some data =>
        if img.dataLen = 0 then (.errNoPayload, m, none)
        else if loadAddr < ramBase then (.errNoRoom, m, none)
        else if ram.length < loadAddr - ramBase + img.dataLen then (.errNoRoom, m, none)
        else
          match place buf img data key keyBits iv ram (loadAddr - ramBase) with
          | (.ok, ram) => (.ok, some ⟨some ram, ramBase⟩, some (describe img loadAddr))
          | (st, ram) => (st, some ⟨some ram, ramBase⟩, none)
    | _ => (.errParse, m, none)
  | _, _ => (.errInvalidArgument, m, none)

/-- `fw_load_img3`. -/
def fwLoadImg3 (m : Option Machine) (buf key : Option (List Byte)) (keyBits loadAddr : Nat) :
    Status × Option Machine × Option LoadedImage :=
  fwLoadImg3Common m buf key keyBits none loadAddr

/-- `fw_load_img3_iv`. -/
def fwLoadImg3Iv (m : Option Machine) (buf key : Option (List Byte)) (keyBits : Nat)
    (iv : Option Aes.Block) (loadAddr : Nat) : Status × Option Machine × Option LoadedImage :=
  fwLoadImg3Common m buf key keyBits iv loadAddr

end S5LBox.Firmware.Loader
