import SierraTee.Crypto.Verify
import SierraTee.Lib.Streams

/-!
# What crypto operations write (`otz_tee_crypto_api.c`)

The update and final calls again, with the buffer that their output goes to.
-/

namespace SierraTee

/-- the calls of OpenSSL that write something -/
structure OpensslOutputs extends Openssl where
  /-- `MD5_Final` and the like, with the buffer that it fills -/
  digestFinal : Algorithm → Ctx → Ctx × (Nat → UInt8)
  evpUpdateOut : Ctx → Mode → List UInt8 → List UInt8
  /-- `EVP_EncryptFinal_ex`, `EVP_DecryptFinal_ex`; whether it succeeds, and what it writes -/
  evpFinal : Ctx → Mode → Ctx × Bool × List UInt8
  /-- with the key and the initialisation vector, which it changes -/
  cts128 : Mode → Option Key → Option (List UInt8) → List UInt8 → List UInt8 × Option (List UInt8)
  /-- `none` if the call refuses the length -/
  ccm128Out : Ctx → Mode → List UInt8 → Option (List UInt8)
  gcm128Out : Ctx → Mode → List UInt8 → Option (List UInt8)

/-- `destData` and `*destLen` -/
structure Dest where
  bytes : Nat → UInt8
  len : Nat

namespace Dest
variable (d : Dest) (out : List UInt8)

def write : Dest := { d with bytes := fun i => out.getD i (d.bytes i) }

def fill : Dest := { d.write out with len := out.length }

def reported : List UInt8 := readBytes d.bytes d.len

theorem reported_fill : (d.fill out).reported = out := by
  apply List.ext_getElem
  · simp [reported, readBytes, fill]
  · intro i hi hi'
    simp [reported, readBytes, fill, write, hi']

end Dest

/-- what a call does; the lengths are those of the input that it reads and of the output that it
writes -/
structure Answer (o : OpensslOutputs) where
  result : TeecResult
  op : Operation o.toOpenssl
  dest : Dest
  read : Nat
  written : Nat

/-! ## Digests and MACs -/

def Algorithm.isDigest (a : Algorithm) : Bool :=
  [.md5, .sha1, .sha224, .sha256, .sha384, .sha512].contains a

def Algorithm.digestLength : Algorithm → Nat
  | .md5 => 16
  | .sha1 => 20
  | .sha224 => 28
  | .sha256 => 32
  | .sha384 => 48
  | .sha512 => 64
  | _ => 0

/-- the length that `TEE_DigestDoFinal` compares with, `SHA_DIGEST_LENGTH` for all but MD5 -/
def Algorithm.digestRoom : Algorithm → Nat
  | .md5 => 16
  | _ => 20

def evpMaxMdSize : Nat := 64

section
variable {o : OpensslOutputs} (op : Operation o.toOpenssl) (src : Nat → UInt8) (srcLen : Nat)
  (dest : Dest)

def leave (r : TeecResult) : Answer o := ⟨r, op, dest, 0, 0⟩

def digestLast : o.Ctx :=
  if srcLen ≠ 0 then o.digestUpdate op.algorithm op.cryptoCtxt (readBytes src srcLen)
  else op.cryptoCtxt

/-- `TEE_DigestDoFinal`; `hash` may be NULL -/
def teeDigestDoFinal (hashNull : Bool) : Answer o :=
  if hashNull then leave op dest .errorBadParameters
  else if op.operationClass ≠ .digest then leave op dest .errorBadParameters
  else if op.algorithm.isDigest then
    if dest.len < op.algorithm.digestRoom then leave op dest .errorShortBuffer
    else
      let f := o.digestFinal op.algorithm (digestLast op src srcLen)
      let hash := readBytes f.2 op.algorithm.digestLength
      ⟨.success, { op with cryptoCtxt := f.1 }, dest.fill hash, srcLen, hash.length⟩
  else leave op dest .success

/-- `HMAC_Update` with the last of the message and `HMAC_Final`; the MAC, if both succeed -/
def macRun : o.Ctx × Option (List UInt8) :=
  let u := macLast op (readBytes src srcLen)
  if u.2 = false then (u.1, none) else o.hmacFinal u.1

def teeMacComputeFinal : Answer o :=
  if op.operationClass ≠ .mac then leave op dest .errorBadParameters
  else if op.algorithm.isHmac then
    if dest.len < evpMaxMdSize then leave op dest .errorShortBuffer
    else
      let op' := { op with cryptoCtxt := (macRun op src srcLen).1 }
      match (macRun op src srcLen).2 with
      | none => ⟨.errorBadParameters, op', dest, srcLen, 0⟩
      | some mac => ⟨.success, op', dest.fill mac, srcLen, mac.length⟩
  else leave op dest .success

/-! ## Ciphers -/

/-- `EVP_EncryptUpdate` or `EVP_DecryptUpdate`, whose result is the boolean -/
def evpWrite : Answer o × Bool :=
  let data := readBytes src srcLen
  let u := o.evpUpdate op.cryptoCtxt op.mode data
  let out := o.evpUpdateOut op.cryptoCtxt op.mode data
  (⟨if u.2 then .success else .errorGeneric, { op with cryptoCtxt := u.1 }, dest.fill out, srcLen,
    out.length⟩, u.2)

/-- `CRYPTO_cts128_encrypt_block` or `CRYPTO_cts128_decrypt_block` -/
def ctsWrite : Answer o :=
  let r := o.cts128 op.mode op.keyValue op.iv (readBytes src srcLen)
  ⟨.success, { op with iv := r.2 }, { dest.write r.1 with len := srcLen }, srcLen, r.1.length⟩

/-- `TEE_CipherUpdate` -/
def teeCipherUpdateTo : Answer o :=
  if op.operationClass ≠ .cipher then leave op dest .errorBadParameters
  else if op.algorithm.isEvp then (evpWrite op src srcLen dest).1
  else if op.algorithm = .aesCts then ctsWrite op src srcLen dest
  else leave op dest .success

/-- the last part of `TEE_CipherDoFinal`; it writes to the start of `destData` again -/
def evpFinish (a : Answer o) : Answer o :=
  let f := o.evpFinal a.op.cryptoCtxt a.op.mode
  { a with
    result := if f.2.1 then .success else .errorGeneric
    op := { a.op with cryptoCtxt := f.1 }
    dest := a.dest.fill f.2.2
    written := max a.written f.2.2.length }

def teeCipherDoFinal : Answer o :=
  if op.operationClass ≠ .cipher then leave op dest .errorBadParameters
  else if op.algorithm.isEvp then
    if op.mode = .encrypt ∨ op.mode = .decrypt then
      if srcLen = 0 then evpFinish (leave op dest .success)
      else
        let u := evpWrite op src srcLen dest
        if u.2 then evpFinish u.1 else u.1
    else leave op dest .success
  else if op.algorithm = .aesCts ∧ srcLen ≠ 0 then
    if op.mode = .encrypt ∨ op.mode = .decrypt then ctsWrite op src srcLen dest
    else ⟨.success, op, { dest with len := srcLen }, 0, 0⟩
  else leave op dest .success

/-! ## Authenticated encryption -/

def aeOut (m : Mode) (data : List UInt8) : Option (List UInt8) :=
  match op.algorithm with
  | .aesCcm => o.ccm128Out op.cryptoCtxt m data
  | .aesGcm => o.gcm128Out op.cryptoCtxt m data
  | _ => none

def aeWrite (m : Mode) (n : Nat) : Answer o :=
  let op' := { op with cryptoCtxt := aeData { op with mode := m } (readBytes src n) }
  match aeOut op m (readBytes src n) with
  | none => ⟨.success, op', dest, 0, 0⟩
  | some out => ⟨.success, op', dest.write out, n, out.length⟩

/-- `TEE_AEUpdate`; the length that it passes on is `*destLen` -/
def teeAeUpdateTo : Answer o :=
  if op.operationClass ≠ .ae then leave op dest .errorBadParameters
  else if dest.len < srcLen then leave op dest .errorShortBuffer
  else if op.mode = .encrypt ∨ op.mode = .decrypt then aeWrite op src dest op.mode dest.len
  else leave op dest .success

/-- `TEE_AEEncryptFinal` for `encrypt` and `TEE_AEDecryptFinal` for `decrypt`, up to the tag -/
def aeFinal (m : Mode) : Answer o :=
  if op.operationClass ≠ .ae then leave op dest .errorBadParameters
  else if 0 < srcLen ∧ dest.len < srcLen then leave op dest .errorShortBuffer
  else if srcLen = 0 then leave op dest .success
  else aeWrite op src dest m dest.len

end

/-! ## The same calls without their output -/

section
variable {o : OpensslOutputs} (op : Operation o.toOpenssl) (src : Nat → UInt8) (srcLen : Nat)
  (dest : Dest)

theorem teeCipherUpdate_eq : teeCipherUpdate op (readBytes src srcLen)
    = { (teeCipherUpdateTo op src srcLen dest).op with iv := op.iv } := by
  unfold teeCipherUpdate teeCipherUpdateTo
  by_cases hclass : op.operationClass = .cipher
  · rw [if_neg (not_not.mpr hclass)]
    by_cases hevp : op.algorithm.isEvp = true
    · rw [if_pos ⟨hclass, hevp⟩, if_pos hevp]
      rfl
    · rw [if_neg fun h => hevp h.2, if_neg hevp]
      split_ifs <;> rfl
  · rw [if_neg fun h => hclass h.1, if_pos hclass]
    rfl

theorem teeAeUpdate_eq : teeAeUpdate op src srcLen dest.len
    = ((teeAeUpdateTo op src srcLen dest).result, (teeAeUpdateTo op src srcLen dest).op) := by
  unfold teeAeUpdate teeAeUpdateTo
  by_cases hclass : op.operationClass = .ae
  · rw [if_neg (not_not.mpr hclass), if_neg (not_not.mpr hclass)]
    by_cases hlen : dest.len < srcLen
    · rw [if_pos hlen, if_pos hlen]
      rfl
    · rw [if_neg hlen, if_neg hlen]
      split_ifs with hmode
      · unfold aeWrite
        cases aeOut op op.mode (readBytes src dest.len) <;> rfl
      · obtain ⟨henc, hdec⟩ := not_or.mp hmode
        have hdata : aeData op (readBytes src dest.len) = op.cryptoCtxt := by
          unfold aeData
          split <;> first | rfl | exact absurd ‹_› hdec | exact absurd ‹_› henc
        rw [hdata]
        rfl
  · rw [if_pos hclass, if_pos hclass]
    rfl

end

end SierraTee
