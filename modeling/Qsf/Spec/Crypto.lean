import Qsf.Lib.Blocks
import Qsf.Spec.Bytes
import Qsf.Spec.Lua

/-!
# RSA of any length (`lualib/lua_crypto.c`)

OpenSSL encrypts one block; `do_rsa_encrypt` and `do_rsa_decrypt` cut a message into
blocks and collect the results in a buffer of fixed size inside the RSA object. OpenSSL is
not part of the repository (`OpenSsl`).

Sizes are C `int`s: an operation that leaves their range wraps around (`int32`). The
buffer is a list that grows when something is stored behind its end, which is memory that
does not belong to it. `RsaReturn.calls` records the calls of the primitive, for the
theorems only. `fuel` bounds the rounds of a loop, and `none` is a loop that has not ended.
-/

set_option autoImplicit false

namespace Qsf

def MAX_RSA_BUF : ℕ := 16384

/-- A primitive of OpenSSL: for a key, a length and the bytes there, the result and the
bytes it writes. -/
abbrev RSAFuncType (κ : Type) := κ → ℤ → List UInt8 → ℤ × List UInt8

/-- What the code uses of OpenSSL; `κ` are its keys. -/
structure OpenSsl (κ : Type) where
  /-- `RSA_size`. -/
  rsaSize : κ → ℕ
  rsaSize_int : ∀ key, rsaSize key < 2147483648
  rsaPublicEncrypt : RSAFuncType κ
  rsaPrivateEncrypt : RSAFuncType κ
  rsaPublicDecrypt : RSAFuncType κ
  rsaPrivateDecrypt : RSAFuncType κ
  /-- `PEM_read_bio_RSAPublicKey`, of a text written to a new BIO. -/
  pemReadPublicKey : List UInt8 → Option κ
  /-- `PEM_read_bio_RSAPrivateKey`. -/
  pemReadPrivateKey : List UInt8 → Option κ

/-- `qsfRSA`. -/
structure QsfRSA (κ : Type) where
  ctx : κ
  buf : List Cell

/-- One call of a primitive: the length it was given, and how much it wrote. -/
structure RsaCall where
  len : ℤ
  wrote : ℕ
  deriving DecidableEq

/-- A call that ended: what it returned, and the buffer after it. -/
structure RsaReturn where
  ret : ℤ
  buf : List Cell
  calls : List RsaCall

namespace RsaReturn

/-- The string that a method pushes, when the call succeeded. -/
def string (out : RsaReturn) : Option (List Cell) :=
  if 0 < out.ret then some (out.buf.take out.ret.toNat) else none

/-- The bytes of the message that went through the primitive. -/
def processed (out : RsaReturn) : ℤ := (out.calls.map RsaCall.len).sum

/-- The bytes that the primitive wrote. -/
def written (out : RsaReturn) : ℕ := (out.calls.map RsaCall.wrote).sum

end RsaReturn

/-- How the process dies. -/
inductive RsaFault
  | assertion
  | divideByZero
  deriving DecidableEq

/-- The variables of the two loops; `src` and `dst` are offsets. -/
structure RsaLoop where
  size : ℤ
  src : ℤ
  dst : ℕ
  buf : List Cell
  calls : List RsaCall

/-- The loop that `do_rsa_encrypt` and `do_rsa_decrypt` share, over blocks of `blockSize`. -/
def rsaLoop (func : ℤ → List UInt8 → ℤ × List UInt8) (data : List UInt8) (blockSize : ℤ) :
    ℕ → RsaLoop → Option RsaReturn
  | 0, _ => none
  | n + 1, s =>
    if 0 < s.size then
      let len := if blockSize < s.size then blockSize else s.size
      let out := func len ((data.drop s.src.toNat).take len.toNat)
      let buf := storeAt s.buf s.dst out.2
      let calls := s.calls ++ [⟨len, out.2.length⟩]
      if 0 < out.1 then
        rsaLoop func data blockSize n ⟨int32 (s.size - len), s.src + len, s.dst + out.1.toNat, buf, calls⟩
      else some ⟨-1, buf, calls⟩
    else some ⟨int32 s.dst, s.buf, s.calls⟩

namespace QsfRSA

variable {κ : Type} (ssl : OpenSsl κ)

/-! ## Keys -/

/-- `crypto_rsa_set_pubkey`. -/
def cryptoRsaSetPubkey (rsa : QsfRSA κ) (key : List UInt8) : Except LuaRaise (QsfRSA κ) :=
  match ssl.pemReadPublicKey (key.take (int32 key.length).toNat) with
  | some ctx => .ok { rsa with ctx := ctx }
  | none => .error (.error "set public key failed." 0)

/-- `crypto_rsa_set_key`. -/
def cryptoRsaSetKey (rsa : QsfRSA κ) (key : List UInt8) : Except LuaRaise (QsfRSA κ) :=
  match ssl.pemReadPrivateKey (key.take (int32 key.length).toNat) with
  | some ctx => .ok { rsa with ctx := ctx }
  | none => .error (.error "set private key failed." 0)

/-! ## Blocks -/

-- `assert` is compiled in, as in the debug configuration
variable (debug : Bool)

/-- `need_size` in `do_rsa_encrypt`. -/
def encryptNeedSize (modulusSize size : ℤ) : ℤ :=
  let blockSize := modulusSize - 11
  int32 (modulusSize * (size.tdiv blockSize + if 0 < size.tmod blockSize then 1 else 0))

/-- `do_rsa_encrypt`. -/
def doRsaEncrypt (fuel : ℕ) (rsa : QsfRSA κ) (func : RSAFuncType κ) (src : List UInt8) (size : ℤ) :
    Option (Except RsaFault RsaReturn) :=
  if debug && size ≤ 0 then some (.error .assertion)
  else
    let modulusSize : ℤ := ssl.rsaSize rsa.ctx
    let blockSize := modulusSize - 11
    if blockSize = 0 then some (.error .divideByZero)
    else if MAX_RSA_BUF < encryptNeedSize modulusSize size then some (.ok ⟨-2, rsa.buf, []⟩)
    else (rsaLoop (func rsa.ctx) src blockSize fuel ⟨size, 0, 0, rsa.buf, []⟩).map .ok

/-- `do_rsa_decrypt`. -/
def doRsaDecrypt (fuel : ℕ) (rsa : QsfRSA κ) (func : RSAFuncType κ) (src : List UInt8) (size : ℤ) :
    Option (Except RsaFault RsaReturn) :=
  if debug && size ≤ 0 then some (.error .assertion)
  else
    let modulusSize : ℤ := ssl.rsaSize rsa.ctx
    if modulusSize = 0 then some (.error .divideByZero)
    else if size.tmod modulusSize ≠ 0 then some (.ok ⟨-3, rsa.buf, []⟩)
    else if MAX_RSA_BUF < int32 ((modulusSize - 11) * size.tdiv modulusSize) then some (.ok ⟨-2, rsa.buf, []⟩)
    else (rsaLoop (func rsa.ctx) src modulusSize fuel ⟨size, 0, 0, rsa.buf, []⟩).map .ok

/-! ## Methods of an RSA object -/

/-- `crypto_rsa_pub_encrypt`. -/
def cryptoRsaPubEncrypt (fuel : ℕ) (rsa : QsfRSA κ) (data : List UInt8) :
    Option (Except RsaFault RsaReturn) :=
  doRsaEncrypt ssl debug fuel rsa ssl.rsaPublicEncrypt data (int32 data.length)

/-- `crypto_rsa_encrypt`. -/
def cryptoRsaEncrypt (fuel : ℕ) (rsa : QsfRSA κ) (data : List UInt8) :
    Option (Except RsaFault RsaReturn) :=
  doRsaEncrypt ssl debug fuel rsa ssl.rsaPrivateEncrypt data (int32 data.length)

/-- `crypto_rsa_pub_decrypt`. -/
def cryptoRsaPubDecrypt (fuel : ℕ) (rsa : QsfRSA κ) (data : List UInt8) :
    Option (Except RsaFault RsaReturn) :=
  doRsaDecrypt ssl debug fuel rsa ssl.rsaPublicDecrypt data (int32 data.length)

/-- `crypto_rsa_decrypt`. -/
def cryptoRsaDecrypt (fuel : ℕ) (rsa : QsfRSA κ) (data : List UInt8) :
    Option (Except RsaFault RsaReturn) :=
  doRsaDecrypt ssl debug fuel rsa ssl.rsaPrivateDecrypt data (int32 data.length)

end QsfRSA

end Qsf
