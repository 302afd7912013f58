import SierraTee.Lib.Runs
import Mathlib.Logic.Function.Basic

/-!
# Crypto operations of the TEE internal API (`otz_tee_crypto_api.c`)

A handle of an operation has an algorithm, a mode and an operation class, which
`TEE_AllocateOperation` sets and no later call changes.

* `created_fixed`  after any calls on a new handle its algorithm, mode and class are those of its
                   allocation.

A handle is never NULL here: each call refuses a NULL handle before it does anything.
-/

namespace SierraTee
open Runs

/-- `enum __TEE_CRYPTO_ALGORITHM_ID` -/
inductive Algorithm where
  | aesEcbNopad | aesCbcNopad | aesCtr | aesCts | aesXts
  | aesCbcMacNopad | aesCbcMacPkcs5 | aesCmac | aesCcm | aesGcm
  | desEcbNopad | desCbcNopad | desCbcMacNopad | desCbcMacPkcs5
  | des3EcbNopad | des3CbcNopad | des3CbcMacNopad | des3CbcMacPkcs5
  | rsassaPkcs1V15Md5 | rsassaPkcs1V15Sha1 | rsassaPkcs1V15Sha224
  | rsassaPkcs1V15Sha256 | rsassaPkcs1V15Sha384 | rsassaPkcs1V15Sha512
  | rsassaPkcs1PssMgf1Sha1 | rsassaPkcs1PssMgf1Sha224 | rsassaPkcs1PssMgf1Sha256
  | rsassaPkcs1PssMgf1Sha384 | rsassaPkcs1PssMgf1Sha512
  | rsaesPkcs1V15 | rsaesPkcs1OaepMgf1Sha1 | rsaNopad
  | dsaSha1 | dhDeriveSharedSecret
  | md5 | sha1 | sha224 | sha256 | sha384 | sha512
  | hmacMd5 | hmacSha1 | hmacSha224 | hmacSha256 | hmacSha384 | hmacSha512
  deriving DecidableEq

def Algorithm.id : Algorithm → UInt32
  | .aesEcbNopad => 0x10000010
  | .aesCbcNopad => 0x10000110
  | .aesCtr => 0x10000210
  | .aesCts => 0x10000310
  | .aesXts => 0x10000410
  | .aesCbcMacNopad => 0x30000110
  | .aesCbcMacPkcs5 => 0x30000510
  | .aesCmac => 0x30000610
  | .aesCcm => 0x40000710
  | .aesGcm => 0x40000810
  | .desEcbNopad => 0x10000011
  | .desCbcNopad => 0x10000111
  | .desCbcMacNopad => 0x30000111
  | .desCbcMacPkcs5 => 0x30000511
  | .des3EcbNopad => 0x10000013
  | .des3CbcNopad => 0x10000113
  | .des3CbcMacNopad => 0x30000113
  | .des3CbcMacPkcs5 => 0x30000513
  | .rsassaPkcs1V15Md5 => 0x70001830
  | .rsassaPkcs1V15Sha1 => 0x70002830
  | .rsassaPkcs1V15Sha224 => 0x70003830
  | .rsassaPkcs1V15Sha256 => 0x70004830
  | .rsassaPkcs1V15Sha384 => 0x70005830
  | .rsassaPkcs1V15Sha512 => 0x70006830
  | .rsassaPkcs1PssMgf1Sha1 => 0x70212930
  | .rsassaPkcs1PssMgf1Sha224 => 0x70313930
  | .rsassaPkcs1PssMgf1Sha256 => 0x70414930
  | .rsassaPkcs1PssMgf1Sha384 => 0x70515930
  | .rsassaPkcs1PssMgf1Sha512 => 0x70616930
  | .rsaesPkcs1V15 => 0x60000130
  | .rsaesPkcs1OaepMgf1Sha1 => 0x60210230
  | .rsaNopad => 0x60000030
  | .dsaSha1 => 0x70002131
  | .dhDeriveSharedSecret => 0x80000032
  | .md5 => 0x50000001
  | .sha1 => 0x50000002
  | .sha224 => 0x50000003
  | .sha256 => 0x50000004
  | .sha384 => 0x50000005
  | .sha512 => 0x50000006
  | .hmacMd5 => 0x30000001
  | .hmacSha1 => 0x30000002
  | .hmacSha224 => 0x30000003
  | .hmacSha256 => 0x30000004
  | .hmacSha384 => 0x30000005
  | .hmacSha512 => 0x30000006

def Algorithm.all : List Algorithm :=
  [.aesEcbNopad, .aesCbcNopad, .aesCtr, .aesCts, .aesXts, .aesCbcMacNopad, .aesCbcMacPkcs5,
   .aesCmac, .aesCcm, .aesGcm, .desEcbNopad, .desCbcNopad, .desCbcMacNopad, .desCbcMacPkcs5,
   .des3EcbNopad, .des3CbcNopad, .des3CbcMacNopad, .des3CbcMacPkcs5, .rsassaPkcs1V15Md5,
   .rsassaPkcs1V15Sha1, .rsassaPkcs1V15Sha224, .rsassaPkcs1V15Sha256, .rsassaPkcs1V15Sha384,
   .rsassaPkcs1V15Sha512, .rsassaPkcs1PssMgf1Sha1, .rsassaPkcs1PssMgf1Sha224,
   .rsassaPkcs1PssMgf1Sha256, .rsassaPkcs1PssMgf1Sha384, .rsassaPkcs1PssMgf1Sha512,
   .rsaesPkcs1V15, .rsaesPkcs1OaepMgf1Sha1, .rsaNopad, .dsaSha1, .dhDeriveSharedSecret, .md5,
   .sha1, .sha224, .sha256, .sha384, .sha512, .hmacMd5, .hmacSha1, .hmacSha224, .hmacSha256,
   .hmacSha384, .hmacSha512]

/-- `check_valid_algorithm`: the algorithm that an identifier names -/
def checkValidAlgorithm (algorithm : UInt32) : Option Algorithm :=
  Algorithm.all.find? fun a => a.id == algorithm

/-- `enum __TEE_OperationMode` -/
inductive Mode where
  | encrypt | decrypt | sign | verify | mac | digest | derive
  deriving DecidableEq

def checkValidMode (mode : UInt32) : Option Mode :=
  [Mode.encrypt, .decrypt, .sign, .verify, .mac, .digest, .derive][mode.toNat]?

def checkValidAlgorithmForMode : Mode → Algorithm → Bool
  | .encrypt, a | .decrypt, a =>
    [.aesEcbNopad, .aesCbcNopad, .aesCtr, .aesCts, .aesXts, .aesCcm, .aesGcm, .desEcbNopad,
     .desCbcNopad, .des3EcbNopad, .des3CbcNopad, .rsaesPkcs1V15, .rsaesPkcs1OaepMgf1Sha1,
     .rsaNopad].contains a
  | .sign, a | .verify, a =>
    [.rsassaPkcs1V15Md5, .rsassaPkcs1V15Sha1, .rsassaPkcs1V15Sha224, .rsassaPkcs1V15Sha256,
     .rsassaPkcs1V15Sha384, .rsassaPkcs1V15Sha512, .rsassaPkcs1PssMgf1Sha1,
     .rsassaPkcs1PssMgf1Sha224, .rsassaPkcs1PssMgf1Sha256, .rsassaPkcs1PssMgf1Sha384,
     .rsassaPkcs1PssMgf1Sha512, .dsaSha1].contains a
  | .mac, a =>
    [.desCbcMacNopad, .aesCbcMacNopad, .aesCbcMacPkcs5, .aesCmac, .desCbcMacPkcs5,
     .des3CbcMacNopad, .des3CbcMacPkcs5, .hmacMd5, .hmacSha1, .hmacSha224, .hmacSha256,
     .hmacSha384, .hmacSha512].contains a
  | .digest, a => [.md5, .sha1, .sha224, .sha256, .sha384, .sha512].contains a
  | .derive, a => a == .dhDeriveSharedSecret

/-- the six algorithms for which the MAC calls have a branch -/
def Algorithm.isHmac (a : Algorithm) : Bool :=
  [.hmacMd5, .hmacSha1, .hmacSha224, .hmacSha256, .hmacSha384, .hmacSha512].contains a

/-- `enum __TEE_Operation_Constants`; `other` is a word that is none of them -/
inductive OperationClass where
  | cipher | mac | ae | digest | asymmetricCipher | asymmetricSignature | keyDerivation | other
  deriving DecidableEq

inductive TeecResult where
  | success | errorGeneric | errorBadParameters | errorBadState | errorNotSupported
  | errorOutOfMemory | errorShortBuffer | errorMacInvalid
  deriving DecidableEq

/-- the calls of OpenSSL; `Ctx` is the memory behind `crypto_ctxt`, `Key` that behind
`keyValue` -/
structure Openssl where
  Ctx : Type
  Key : Type
  /-- a NULL `crypto_ctxt` -/
  nullCtx : Ctx
  /-- a key in memory that was freed or never filled -/
  freed : Key
  digestInit : Algorithm → Ctx → Option Ctx
  digestUpdate : Algorithm → Ctx → List UInt8 → Ctx
  hmacCtxInit : Ctx → Ctx
  hmacInit : Algorithm → Ctx → List UInt8 → Ctx
  hmacUpdate : Ctx → List UInt8 → Ctx × Bool
  /-- the MAC, or `none` where `HMAC_Final` returns 0 -/
  hmacFinal : Ctx → Ctx × Option (List UInt8)
  evpCtxInit : Ctx → Ctx
  evpInit : Algorithm → Ctx → Mode → Key → List UInt8 → Ctx
  evpUpdate : Ctx → Mode → List UInt8 → Ctx × Bool
  gcm128Init : Ctx → Key → Ctx
  gcm128Setiv : Ctx → List UInt8 → Ctx
  gcm128Aad : Ctx → List UInt8 → Ctx
  gcm128Encrypt : Ctx → List UInt8 → Ctx
  gcm128Decrypt : Ctx → List UInt8 → Ctx
  gcm128Finish : Ctx → List UInt8 → Int
  ccm128Init : Ctx → Nat → Nat → Key → Ctx
  ccm128Setiv : Ctx → List UInt8 → Nat → Ctx
  ccm128Aad : Ctx → List UInt8 → Ctx
  ccm128Encrypt : Ctx → List UInt8 → Ctx
  ccm128Decrypt : Ctx → List UInt8 → Ctx
  /-- the key bytes as they are -/
  rawKey : List UInt8 → Key
  evpKeyLen : Algorithm → Nat
  aesSetEncryptKey : List UInt8 → Key
  aesSetDecryptKey : List UInt8 → Key
  rsaGenerateKey : Option Key
  d2iRsaKeys : List UInt8 → Option Key
  dsaGenerateParameters : Option Key
  rsaVerify : Algorithm → List UInt8 → List UInt8 → Option Key → Int
  dsaVerify : List UInt8 → List UInt8 → Option Key → Int

/-- `struct __TEE_OperationHandle`; `cryptoCipher` is named by the algorithm whose cipher it is -/
structure Operation (o : Openssl) where
  algorithm : Algorithm
  operationClass : OperationClass
  mode : Mode
  maxKeySize : Nat
  keySize : Nat
  keyValue : Option o.Key
  cryptoCtxt : o.Ctx
  iv : Option (List UInt8)
  cryptoCipher : Option Algorithm
  ivLen : Nat
  aadLen : Nat

section
variable {o : Openssl}

/-! ## Allocation -/

/-- `handleDigestAlloc`; `ctxt` is the result of its `sw_malloc` -/
def handleDigestAlloc (op : Operation o) (ctxt : Option o.Ctx) : TeecResult × Operation o :=
  match ctxt.bind (o.digestInit op.algorithm) with
  | none => (.errorOutOfMemory, op)
  | some c => (.success, { op with cryptoCtxt := c })

def handleMacAlloc (op : Operation o) (ctxt : Option o.Ctx) : TeecResult × Operation o :=
  if op.algorithm.isHmac then
    match ctxt with
    | none => (.errorOutOfMemory, op)
    | some c => (.success, { op with cryptoCtxt := o.hmacCtxInit c })
  else (.success, op)

/-- the algorithms with an EVP cipher -/
def Algorithm.isEvp (a : Algorithm) : Bool :=
  [.aesEcbNopad, .aesCbcNopad, .aesCtr, .aesXts, .desEcbNopad, .desCbcNopad, .des3EcbNopad,
   .des3CbcNopad].contains a

def handleCipherAlloc (op : Operation o) (ctxt : Option o.Ctx) : TeecResult × Operation o :=
  if op.algorithm.isEvp then
    let op1 := { op with cryptoCipher := some op.algorithm }
    match ctxt with
    | none => (.errorOutOfMemory, op1)
    | some c => (.success, { op1 with cryptoCtxt := o.evpCtxInit c, keyValue := none })
  else if op.algorithm = .aesCts then
    (.success, { op with cryptoCtxt := o.nullCtx, cryptoCipher := none })
  else if op.algorithm = .aesCcm ∨ op.algorithm = .aesGcm then
    match ctxt with
    | none => (.errorOutOfMemory, op)
    | some c => (.success, { op with cryptoCtxt := c, keyValue := none, cryptoCipher := none })
  else (.success, op)

/-- the operation class that `TEE_AllocateOperation` gives; a key derivation gets none and keeps
the word that the memory of the handle holds -/
def classOf (mode : Mode) (a : Algorithm) (old : OperationClass) : OperationClass :=
  match mode with
  | .digest => .digest
  | .mac => .mac
  | .decrypt | .encrypt =>
    if a = .aesCcm ∨ a = .aesGcm then .ae
    else if a = .rsaesPkcs1V15 ∨ a = .rsaNopad then .asymmetricCipher
    else .cipher
  | .sign | .verify => .asymmetricSignature
  | .derive => old

def modeAlloc (mode : Mode) (op : Operation o) (ctxt : Option o.Ctx) : TeecResult × Operation o :=
  match mode with
  | .digest => handleDigestAlloc op ctxt
  | .mac => handleMacAlloc op ctxt
  | .decrypt | .encrypt =>
    let r := handleCipherAlloc op ctxt
    if op.algorithm = .rsaesPkcs1V15 ∨ op.algorithm = .rsaNopad then
      (r.1, { r.2 with cryptoCtxt := o.nullCtx })
    else r
  | .sign | .verify => (.success, { op with cryptoCtxt := o.nullCtx })
  | .derive => (.success, op)

/-- `TEE_AllocateOperation`; `handle` is the uncleared memory that `sw_malloc` gives for the
handle, `ctxt` that for the context -/
def teeAllocateOperation (handle : Option (Operation o)) (ctxt : Option o.Ctx)
    (algorithm mode maxKeySize : UInt32) : TeecResult × Option (Operation o) :=
  match checkValidAlgorithm algorithm, checkValidMode mode with
  | some a, some m =>
    if checkValidAlgorithmForMode m a then
      match handle with
      | none => (.errorOutOfMemory, none)
      | some block =>
        let r := modeAlloc m { block with algorithm := a } ctxt
        if r.1 = .success then
          (.success, some { r.2 with
            operationClass := classOf m a block.operationClass
            mode := m
            maxKeySize := maxKeySize.toNat })
        else (r.1, none)
    else (.errorNotSupported, none)
  | _, _ => (.errorNotSupported, none)

/-! ## Keys -/

def swRsaKeylen : Nat := 1024
def swDsaKeylen : Nat := 1024

/-- `fillRSAKeys`; `malloc` tells whether its allocation succeeds -/
def fillRsaKeys (op : Operation o) (key : Option (List UInt8)) (malloc : Bool) :
    TeecResult × Operation o :=
  let op1 := { op with keySize := swRsaKeylen, maxKeySize := swRsaKeylen }
  match key with
  | none =>
    match o.rsaGenerateKey with
    | none => (.errorGeneric, { op1 with keyValue := none, maxKeySize := 0, keySize := 0 })
    | some k => (.success, { op1 with keyValue := some k })
  | some data =>
    if !malloc then (.errorOutOfMemory, { op1 with keyValue := none })
    else if data.length ≠ swRsaKeylen then
      (.errorBadParameters, { op1 with keyValue := some o.freed, maxKeySize := 0, keySize := 0 })
    else
      match o.d2iRsaKeys data with
      | none =>
        (.errorBadParameters, { op1 with keyValue := some o.freed, maxKeySize := 0, keySize := 0 })
      | some k => (.success, { op1 with keyValue := some k })

def setCipherKey (op : Operation o) (data : List UInt8) (malloc : Bool) :
    TeecResult × Operation o :=
  if op.cryptoCipher.any fun c => data.length ≠ o.evpKeyLen c then (.errorBadParameters, op)
  else if !malloc then (.errorOutOfMemory, { op with keyValue := none })
  else (.success, { op with keyValue := some (o.rawKey data), keySize := data.length })

def setAesKey (op : Operation o) (data : List UInt8) (malloc : Bool) : TeecResult × Operation o :=
  if !malloc then (.errorOutOfMemory, { op with keyValue := none })
  else
    let k := match op.mode with
      | .decrypt => o.aesSetDecryptKey data
      | .encrypt => o.aesSetEncryptKey data
      | _ => o.freed
    (.success, { op with keyValue := some k, keySize := data.length })

def setSignatureKey (op : Operation o) (key : Option (List UInt8)) (malloc : Bool) :
    TeecResult × Operation o :=
  if op.algorithm = .rsassaPkcs1V15Md5 ∨ op.algorithm = .rsassaPkcs1V15Sha1 then
    fillRsaKeys op key malloc
  else if op.algorithm = .dsaSha1 then
    match o.dsaGenerateParameters with
    | none => (.errorBadParameters, { op with keyValue := none, keySize := 0, maxKeySize := 0 })
    | some k =>
      (.success, { op with keyValue := some k, keySize := swDsaKeylen, maxKeySize := swDsaKeylen })
  else (.success, op)

def andThen (r : TeecResult × Operation o) (next : Operation o → TeecResult × Operation o) :
    TeecResult × Operation o :=
  if r.1 = .success then next r.2 else r

/-- `TEE_SetOperationKey`; only an RSA key may be NULL, elsewhere a NULL key has no bytes here -/
def teeSetOperationKey (op : Operation o) (key : Option (List UInt8)) (malloc malloc2 : Bool) :
    TeecResult × Operation o :=
  if op.mode = .digest then (.errorBadParameters, op)
  else
    let data := key.getD []
    andThen (if op.operationClass = .cipher then setCipherKey op data malloc else (.success, op))
      fun op1 =>
    andThen (if op1.operationClass = .ae ∨ op1.algorithm = .aesCts then setAesKey op1 data malloc2
      else (.success, op1)) fun op2 =>
    andThen (if op2.operationClass = .asymmetricCipher ∧
        (op2.algorithm = .rsaesPkcs1V15 ∨ op2.algorithm = .rsaNopad) then
      fillRsaKeys op2 key malloc else (.success, op2)) fun op3 =>
    if op3.operationClass = .asymmetricSignature then setSignatureKey op3 key malloc
    else (.success, op3)

/-! ## Init and update calls -/

def readBytes (p : Nat → UInt8) (n : Nat) : List UInt8 := (List.range n).map p

def teeDigestUpdate (op : Operation o) (chunk : List UInt8) : Operation o :=
  if op.operationClass = .digest then
    { op with cryptoCtxt := o.digestUpdate op.algorithm op.cryptoCtxt chunk }
  else op

def teeCipherInit (op : Operation o) (iv : List UInt8) (malloc : Bool) : Operation o :=
  if op.operationClass ≠ .cipher then op
  else
    match op.keyValue with
    | none => op
    | some k =>
      if op.algorithm = .aesCts then
        if malloc then { op with iv := some iv, ivLen := iv.length } else { op with iv := none }
      else if op.algorithm.isEvp then
        match op.cryptoCipher with
        | none => op
        | some c => { op with cryptoCtxt := o.evpInit c op.cryptoCtxt op.mode k iv }
      else op

/-- `TEE_CipherUpdate`, which changes the context only -/
def teeCipherUpdate (op : Operation o) (src : List UInt8) : Operation o :=
  if op.operationClass = .cipher ∧ op.algorithm.isEvp then
    { op with cryptoCtxt := (o.evpUpdate op.cryptoCtxt op.mode src).1 }
  else op

/-- `TEE_MACInit`; `iv` is NULL or the key of the HMAC -/
def teeMacInit (op : Operation o) (iv : Option (List UInt8)) : Operation o :=
  if op.operationClass ≠ .mac then op
  else
    match iv with
    | none => op
    | some key =>
      if op.algorithm.isHmac then
        { op with cryptoCtxt := o.hmacInit op.algorithm op.cryptoCtxt key }
      else op

def teeMacUpdate (op : Operation o) (chunk : List UInt8) : Operation o :=
  if op.operationClass = .mac ∧ op.algorithm.isHmac then
    { op with cryptoCtxt := (o.hmacUpdate op.cryptoCtxt chunk).1 }
  else op

/-- the tag lengths, in bits, that `TEE_AEInit` accepts -/
def tagLenOk (a : Algorithm) (tagLen : Nat) : Bool :=
  match a with
  | .aesGcm => [96, 104, 112, 120, 128].contains tagLen
  | .aesCcm => [32, 48, 64, 96, 112, 128].contains tagLen
  | _ => true

def teeAeInit (op : Operation o) (nonce : List UInt8) (tagLen aadLen payloadLen : Nat) :
    TeecResult × Operation o :=
  if op.operationClass ≠ .ae then (.errorBadParameters, op)
  else
    match op.keyValue with
    | none => (.errorBadParameters, op)
    | some k =>
      if !tagLenOk op.algorithm tagLen then (.errorNotSupported, op)
      else
        let c := match op.algorithm with
          | .aesGcm => o.gcm128Setiv (o.gcm128Init op.cryptoCtxt k) nonce
          | .aesCcm =>
            o.ccm128Setiv (o.ccm128Init op.cryptoCtxt nonce.length payloadLen k) nonce payloadLen
          | _ => op.cryptoCtxt
        (.success, { op with cryptoCtxt := c, aadLen := aadLen })

def teeAeUpdateAad (op : Operation o) (aad : List UInt8) : Operation o :=
  if op.operationClass ≠ .ae then op
  else
    match op.algorithm with
    | .aesGcm => { op with cryptoCtxt := o.gcm128Aad op.cryptoCtxt aad }
    | .aesCcm => { op with cryptoCtxt := o.ccm128Aad op.cryptoCtxt aad }
    | _ => op

def aeData (op : Operation o) (data : List UInt8) : o.Ctx :=
  match op.algorithm, op.mode with
  | .aesCcm, .decrypt => o.ccm128Decrypt op.cryptoCtxt data
  | .aesCcm, .encrypt => o.ccm128Encrypt op.cryptoCtxt data
  | .aesGcm, .decrypt => o.gcm128Decrypt op.cryptoCtxt data
  | .aesGcm, .encrypt => o.gcm128Encrypt op.cryptoCtxt data
  | _, _ => op.cryptoCtxt

/-- `TEE_AEUpdate`; the length it passes on is `*destLen`, not `srcLen` -/
def teeAeUpdate (op : Operation o) (src : Nat → UInt8) (srcLen destLen : Nat) :
    TeecResult × Operation o :=
  if op.operationClass ≠ .ae then (.errorBadParameters, op)
  else if destLen < srcLen then (.errorShortBuffer, op)
  else (.success, { op with cryptoCtxt := aeData op (readBytes src destLen) })

/-- a call on a handle before the final one -/
inductive OperationCall where
  | setOperationKey (key : Option (List UInt8)) (malloc malloc2 : Bool)
  | digestUpdate (chunk : List UInt8)
  | cipherInit (iv : List UInt8) (malloc : Bool)
  | cipherUpdate (src : List UInt8)
  | macInit (iv : Option (List UInt8))
  | macUpdate (chunk : List UInt8)
  | aeInit (nonce : List UInt8) (tagLen aadLen payloadLen : Nat)
  | aeUpdateAad (aad : List UInt8)
  | aeUpdate (src : Nat → UInt8) (srcLen destLen : Nat)

def callStep (op : Operation o) : OperationCall → Option (Operation o)
  | .setOperationKey key malloc malloc2 => some (teeSetOperationKey op key malloc malloc2).2
  | .digestUpdate chunk => some (teeDigestUpdate op chunk)
  | .cipherInit iv malloc => some (teeCipherInit op iv malloc)
  | .cipherUpdate src => some (teeCipherUpdate op src)
  | .macInit iv => some (teeMacInit op iv)
  | .macUpdate chunk => some (teeMacUpdate op chunk)
  | .aeInit nonce tagLen aadLen payloadLen => some (teeAeInit op nonce tagLen aadLen payloadLen).2
  | .aeUpdateAad aad => some (teeAeUpdateAad op aad)
  | .aeUpdate src srcLen destLen => some (teeAeUpdate op src srcLen destLen).2

/-! ## What the calls leave alone -/

/-- what `TEE_AllocateOperation` sets once and for all -/
def Operation.kind (op : Operation o) : Algorithm × Mode × OperationClass :=
  (op.algorithm, op.mode, op.operationClass)

theorem fillRsaKeys_kind (op : Operation o) (key : Option (List UInt8)) (malloc : Bool) :
    (fillRsaKeys op key malloc).2.kind = op.kind := by
  unfold fillRsaKeys
  cases key with
  | none => cases o.rsaGenerateKey <;> rfl
  | some data =>
    cases malloc with
    | false => rfl
    | true =>
      show (if data.length ≠ swRsaKeylen then _ else _ : TeecResult × Operation o).2.kind = _
      split
      · rfl
      · cases o.d2iRsaKeys data <;> rfl

theorem setCipherKey_kind (op : Operation o) (data : List UInt8) (malloc : Bool) :
    (setCipherKey op data malloc).2.kind = op.kind := by
  unfold setCipherKey
  split
  · rfl
  · cases malloc <;> rfl

theorem setAesKey_kind (op : Operation o) (data : List UInt8) (malloc : Bool) :
    (setAesKey op data malloc).2.kind = op.kind := by
  unfold setAesKey
  cases malloc <;> rfl

theorem setSignatureKey_kind (op : Operation o) (key : Option (List UInt8)) (malloc : Bool) :
    (setSignatureKey op key malloc).2.kind = op.kind := by
  unfold setSignatureKey
  split
  · exact fillRsaKeys_kind op key malloc
  · split
    · cases o.dsaGenerateParameters <;> rfl
    · rfl

theorem andThen_kind {op : Operation o} {r : TeecResult × Operation o}
    {next : Operation o → TeecResult × Operation o} (hr : r.2.kind = op.kind)
    (hn : ∀ p, (next p).2.kind = p.kind) : (andThen r next).2.kind = op.kind := by
  unfold andThen
  split
  · rw [hn r.2, hr]
  · exact hr

theorem ite_kind {op : Operation o} {p : Prop} [Decidable p] {r : TeecResult × Operation o}
    (hr : r.2.kind = op.kind) : (if p then r else (.success, op)).2.kind = op.kind := by
  split
  · exact hr
  · rfl

theorem teeSetOperationKey_kind (op : Operation o) (key : Option (List UInt8))
    (malloc malloc2 : Bool) : (teeSetOperationKey op key malloc malloc2).2.kind = op.kind := by
  unfold teeSetOperationKey
  split
  · rfl
  · apply andThen_kind (ite_kind (setCipherKey_kind op _ malloc))
    intro op1
    apply andThen_kind (ite_kind (setAesKey_kind op1 _ malloc2))
    intro op2
    apply andThen_kind (ite_kind (fillRsaKeys_kind op2 key malloc))
    intro op3
    exact ite_kind (setSignatureKey_kind op3 key malloc)

theorem callStep_kind {op op' : Operation o} {c : OperationCall} (h : callStep op c = some op') :
    op'.kind = op.kind := by
  cases c with
  | setOperationKey key malloc malloc2 =>
    cases h
    exact teeSetOperationKey_kind op key malloc malloc2
  | digestUpdate chunk =>
    cases h
    unfold teeDigestUpdate
    split <;> rfl
  | cipherInit iv malloc =>
    cases h
    unfold teeCipherInit
    repeat' split
    all_goals rfl
  | cipherUpdate src =>
    cases h
    unfold teeCipherUpdate
    split <;> rfl
  | macInit iv =>
    cases h
    unfold teeMacInit
    repeat' split
    all_goals rfl
  | macUpdate chunk =>
    cases h
    unfold teeMacUpdate
    split <;> rfl
  | aeInit nonce tagLen aadLen payloadLen =>
    cases h
    unfold teeAeInit
    repeat' split
    all_goals rfl
  | aeUpdateAad aad =>
    cases h
    unfold teeAeUpdateAad
    repeat' split
    all_goals rfl
  | aeUpdate src srcLen destLen =>
    cases h
    unfold teeAeUpdate
    repeat' split
    all_goals rfl

theorem modeAlloc_algorithm (m : Mode) (op : Operation o) (ctxt : Option o.Ctx) :
    (modeAlloc m op ctxt).2.algorithm = op.algorithm := by
  have hc : (handleCipherAlloc op ctxt).2.algorithm = op.algorithm := by
    unfold handleCipherAlloc
    repeat' split
    all_goals rfl
  have hcipher : ∀ p : Prop, [Decidable p] → (if p then ((handleCipherAlloc op ctxt).1,
      { (handleCipherAlloc op ctxt).2 with cryptoCtxt := o.nullCtx })
      else handleCipherAlloc op ctxt).2.algorithm = op.algorithm := by
    intro p _
    split <;> exact hc
  cases m with
  | encrypt => exact hcipher _
  | decrypt => exact hcipher _
  | sign => rfl
  | verify => rfl
  | mac =>
    show (handleMacAlloc op ctxt).2.algorithm = _
    unfold handleMacAlloc
    repeat' split
    all_goals rfl
  | digest =>
    show (handleDigestAlloc op ctxt).2.algorithm = _
    unfold handleDigestAlloc
    split <;> rfl
  | derive => rfl

structure Creates (algorithm mode : UInt32) (a : Algorithm) (m : Mode) (block op : Operation o) :
    Prop where
  algorithm_valid : checkValidAlgorithm algorithm = some a
  mode_valid : checkValidMode mode = some m
  suits : checkValidAlgorithmForMode m a = true
  kind_eq : op.kind = (a, m, classOf m a block.operationClass)

theorem teeAllocateOperation_creates {handle : Option (Operation o)} {ctxt : Option o.Ctx}
    {algorithm mode maxKeySize : UInt32} {op : Operation o}
    (h : teeAllocateOperation handle ctxt algorithm mode maxKeySize = (.success, some op)) :
    ∃ a m block, handle = some block ∧ Creates algorithm mode a m block op := by
  unfold teeAllocateOperation at h
  split at h
  next a m ha hm =>
    split at h
    next hs =>
      cases handle with
      | none => simp at h
      | some block =>
        simp only at h
        split at h
        next _ =>
          refine ⟨a, m, block, rfl, ha, hm, hs, ?_⟩
          simp only [Prod.mk.injEq, true_and, Option.some.injEq] at h
          rw [← h]
          show ((modeAlloc m _ ctxt).2.algorithm, m, _) = _
          rw [modeAlloc_algorithm]
        next _ => simp at h
    next _ => simp at h
  next _ => simp at h

theorem created_fixed {op op' : Operation o} {calls : List OperationCall}
    (h : run callStep op calls = some op') : op'.kind = op.kind := by
  have hkeep : ∀ (p : Operation o) c p', p.kind = op.kind → True → callStep p c = some p' →
      p'.kind = op.kind := fun p c p' hp _ hs => (callStep_kind hs).trans hp
  have hok : Along callStep (fun _ _ => True) op calls := along_true callStep op calls
  exact run_invariant (fun p => p.kind = op.kind) hkeep rfl hok h

end

end SierraTee
