import SierraTee.Crypto.Operation
import SierraTee.Common.Memory

/-!
# Verification of MACs, tags and signatures (`otz_tee_crypto_api.c`)

The three final calls that accept or reject what the caller supplies.  Each gives, besides its
result, the checks it made.

* `macCompare_sound_iff`    `TEE_MACCompareFinal` checks the six HMAC algorithms only;
* `aeDecrypt_sound_iff`     `TEE_AEDecryptFinal` accepts whatever `CRYPTO_gcm128_finish` says, and
                            does not look at the tag of AES-CCM at all;
* `verifyDigest_sound_iff`  `TEE_AsymmetricVerifyDigest` takes an error for a match and has nine
                            algorithms without a check;
* `verification_sound_iff`  the three of them, for every handle that can be created.
-/

namespace SierraTee
open Runs

inductive Check where
  | memcmp (computed given : List UInt8)
  | gcmFinish (tag : List UInt8) (ret : Int)
  | rsaVerify (digest signature : List UInt8) (ret : Int)
  | dsaVerify (digest signature : List UInt8) (ret : Int)

def Check.Matches (supplied : List UInt8) : Check → Prop
  | .memcmp computed given => given = supplied ∧ computed = given
  | .gcmFinish tag ret => tag = supplied ∧ ret = 0
  | .rsaVerify _ signature ret => signature = supplied ∧ ret = 1
  | .dsaVerify _ signature ret => signature = supplied ∧ ret = 1

structure Verdict (o : Openssl) where
  result : TeecResult
  op : Operation o
  checks : List Check

/-- success only if what was supplied was checked and matched -/
def Verdict.Sound {o : Openssl} (v : Verdict o) (supplied : List UInt8) : Prop :=
  v.result = .success → ∃ c ∈ v.checks, c.Matches supplied

/-- what the code relies on: a MAC is not empty, and a signature check gives 1, 0 or -1 -/
structure Openssl.Documented (o : Openssl) : Prop where
  mac_nonempty : ∀ c tag, (o.hmacFinal c).2 = some tag → tag ≠ []
  rsaVerify_range : ∀ a d s k, o.rsaVerify a d s k = 1 ∨ o.rsaVerify a d s k = 0 ∨
    o.rsaVerify a d s k = -1
  dsaVerify_range : ∀ d s k, o.dsaVerify d s k = 1 ∨ o.dsaVerify d s k = 0 ∨
    o.dsaVerify d s k = -1

section
variable {o : Openssl}

/-! ## The final calls -/

def tempOutput (tag : List UInt8) (i : Int) : UInt8 := tag.getD i.toNat 0

/-- `macLen` bytes from the pointer `mac` on -/
def suppliedMac (mac : Int → UInt8) (macLen : Nat) : List UInt8 :=
  readBytes (fun i => mac i) macLen

def macLast (op : Operation o) (message : List UInt8) : o.Ctx × Bool :=
  if message.length > 0 then o.hmacUpdate op.cryptoCtxt message else (op.cryptoCtxt, true)

/-- what `TEE_MACCompareFinal` does with the result of `HMAC_Final` -/
def compareMac (op : Operation o) (computed : Option (List UInt8)) (mac : Int → UInt8)
    (macLen : Nat) : Verdict o :=
  match computed with
  | none => ⟨.errorBadParameters, op, []⟩
  | some tag =>
    if macLen ≠ tag.length then ⟨.errorMacInvalid, op, []⟩
    else if swMemcmp (tempOutput tag) mac macLen ≠ 0 then
      ⟨.errorMacInvalid, op, [.memcmp tag (suppliedMac mac macLen)]⟩
    else ⟨.success, op, [.memcmp tag (suppliedMac mac macLen)]⟩

def teeMacCompareFinal (op : Operation o) (message : List UInt8) (mac : Int → UInt8)
    (macLen : Nat) : Verdict o :=
  if op.operationClass ≠ .mac then ⟨.errorBadParameters, op, []⟩
  else if op.algorithm.isHmac then
    let u := macLast op message
    if u.2 = false then ⟨.errorBadParameters, { op with cryptoCtxt := u.1 }, []⟩
    else
      let f := o.hmacFinal u.1
      compareMac { op with cryptoCtxt := f.1 } f.2 mac macLen
  else ⟨.success, op, []⟩

/-- the context with which `TEE_AEDecryptFinal` finishes; the data has the length `*destLen` -/
def aeLast (op : Operation o) (src : Nat → UInt8) (srcLen destLen : Nat) : o.Ctx :=
  if srcLen = 0 then op.cryptoCtxt
  else
    match op.algorithm with
    | .aesCcm => o.ccm128Decrypt op.cryptoCtxt (readBytes src destLen)
    | .aesGcm => o.gcm128Decrypt op.cryptoCtxt (readBytes src destLen)
    | _ => op.cryptoCtxt

/-- the call of `CRYPTO_gcm128_finish`, whose result is not looked at -/
def tagChecks (op : Operation o) (c : o.Ctx) (tag : List UInt8) : List Check :=
  if op.algorithm = .aesGcm then [.gcmFinish tag (o.gcm128Finish c tag)] else []

def teeAeDecryptFinal (op : Operation o) (src : Nat → UInt8) (srcLen destLen : Nat)
    (tag : List UInt8) : Verdict o :=
  if op.operationClass ≠ .ae then ⟨.errorBadParameters, op, []⟩
  else if srcLen > 0 ∧ destLen < srcLen then ⟨.errorShortBuffer, op, []⟩
  else
    let c := aeLast op src srcLen destLen
    ⟨.success, { op with cryptoCtxt := c }, tagChecks op c tag⟩

/-- the algorithms that `TEE_AsymmetricVerifyDigest` lists without a check -/
def Algorithm.isUncheckedSignature (a : Algorithm) : Bool :=
  [.rsassaPkcs1V15Sha224, .rsassaPkcs1V15Sha256, .rsassaPkcs1V15Sha384, .rsassaPkcs1V15Sha512,
   .rsassaPkcs1PssMgf1Sha1, .rsassaPkcs1PssMgf1Sha224, .rsassaPkcs1PssMgf1Sha256,
   .rsassaPkcs1PssMgf1Sha384, .rsassaPkcs1PssMgf1Sha512].contains a

def signatureCheck (op : Operation o) (digest signature : List UInt8) : Option (Int × Check) :=
  match op.algorithm with
  | .rsassaPkcs1V15Md5 | .rsassaPkcs1V15Sha1 =>
    let ret := o.rsaVerify op.algorithm digest signature op.keyValue
    some (ret, .rsaVerify digest signature ret)
  | .dsaSha1 =>
    let ret := o.dsaVerify digest signature op.keyValue
    some (ret, .dsaVerify digest signature ret)
  | _ => none

def teeAsymmetricVerifyDigest (op : Operation o) (digest signature : List UInt8) : Verdict o :=
  if op.operationClass ≠ .asymmetricSignature then ⟨.errorBadParameters, op, []⟩
  else
    match signatureCheck op digest signature with
    | some (ret, check) =>
      if ret = 0 then ⟨.errorBadState, op, [check]⟩ else ⟨.success, op, [check]⟩
    | none =>
      if op.algorithm.isUncheckedSignature then ⟨.success, op, []⟩
      else ⟨.errorBadParameters, op, []⟩

/-! ## When they are sound -/

theorem sound_of_result_ne {v : Verdict o} {supplied : List UInt8} (h : v.result ≠ .success) :
    v.Sound supplied := fun hs => absurd hs h

theorem not_sound_nil {v : Verdict o} {supplied : List UInt8} (h : v.result = .success)
    (hc : v.checks = []) : ¬ v.Sound supplied := by
  intro hs
  obtain ⟨c, hmem, -⟩ := hs h
  rw [hc] at hmem
  exact absurd hmem (by simp)

theorem sound_singleton {v : Verdict o} {supplied : List UInt8} {c : Check}
    (h : v.result = .success) (hc : v.checks = [c]) : v.Sound supplied ↔ c.Matches supplied := by
  unfold Verdict.Sound
  rw [hc]
  refine ⟨fun hs => ?_, fun hm _ => ⟨c, by simp, hm⟩⟩
  obtain ⟨c', hmem, hm⟩ := hs h
  rw [List.mem_singleton] at hmem
  exact hmem ▸ hm

theorem suppliedMac_eq {tag : List UInt8} {mac : Int → UInt8}
    (h : ∀ i < tag.length, tempOutput tag i = mac i) : tag = suppliedMac mac tag.length := by
  apply List.ext_getElem
  · simp [suppliedMac, readBytes]
  · intro i hi _
    have hb := h i hi
    unfold tempOutput at hb
    rw [Int.toNat_natCast] at hb
    simpa [suppliedMac, readBytes, hi] using hb

theorem compareMac_sound {op : Operation o} {computed : Option (List UInt8)}
    {mac : Int → UInt8} {macLen : Nat} (hne : ∀ tag, computed = some tag → tag ≠ []) :
    (compareMac op computed mac macLen).Sound (suppliedMac mac macLen) := by
  unfold compareMac
  cases computed with
  | none => exact sound_of_result_ne (by simp)
  | some tag =>
    have hpos : 0 < tag.length := List.length_pos_iff.mpr (hne tag rfl)
    by_cases hl : macLen = tag.length
    · subst hl
      by_cases hd : swMemcmp (tempOutput tag) mac tag.length = 0
      · have htag := suppliedMac_eq ((swMemcmp_eq_zero_iff hpos).1 hd)
        simp only [ne_eq, not_true_eq_false, if_false, hd]
        exact (sound_singleton (c := .memcmp tag _) rfl rfl).2 ⟨rfl, htag⟩
      · simp only [ne_eq, not_true_eq_false, if_false, hd, not_false_eq_true, if_true]
        exact sound_of_result_ne (by simp)
    · simp only [ne_eq, hl, not_false_eq_true, if_true]
      exact sound_of_result_ne (by simp)

theorem macCompare_sound_iff (hdoc : o.Documented) (op : Operation o) (message : List UInt8)
    (mac : Int → UInt8) (macLen : Nat) :
    (teeMacCompareFinal op message mac macLen).Sound (suppliedMac mac macLen) ↔
      (op.operationClass = .mac → op.algorithm.isHmac = true) := by
  unfold teeMacCompareFinal
  by_cases hk : op.operationClass = .mac
  · rw [if_neg (not_not.mpr hk)]
    by_cases ha : op.algorithm.isHmac = true
    · rw [if_pos ha]
      refine ⟨fun _ _ => ha, fun _ => ?_⟩
      cases hu : (macLast op message).2 with
      | false =>
        simp only [hu, if_true]
        exact sound_of_result_ne (by simp)
      | true =>
        simp only [hu, Bool.true_eq_false, if_false]
        exact compareMac_sound (hdoc.mac_nonempty _)
    · rw [if_neg ha]
      exact ⟨fun hs => absurd hs (not_sound_nil rfl rfl), fun hi => absurd (hi hk) ha⟩
  · rw [if_pos hk]
    exact ⟨fun _ he => absurd he hk, fun _ => sound_of_result_ne (by simp)⟩

theorem aeDecrypt_sound_iff (op : Operation o) (src : Nat → UInt8) (srcLen destLen : Nat)
    (tag : List UInt8) :
    (teeAeDecryptFinal op src srcLen destLen tag).Sound tag ↔
      (op.operationClass = .ae → ¬ (srcLen > 0 ∧ destLen < srcLen) →
        op.algorithm = .aesGcm ∧ o.gcm128Finish (aeLast op src srcLen destLen) tag = 0) := by
  unfold teeAeDecryptFinal
  by_cases hk : op.operationClass = .ae
  · rw [if_neg (not_not.mpr hk)]
    by_cases hshort : srcLen > 0 ∧ destLen < srcLen
    · rw [if_pos hshort]
      exact ⟨fun _ _ hn => absurd hshort hn, fun _ => sound_of_result_ne (by simp)⟩
    · rw [if_neg hshort]
      by_cases ha : op.algorithm = .aesGcm
      · apply (sound_singleton rfl (if_pos ha)).trans
        exact ⟨fun hm _ _ => ⟨ha, hm.2⟩, fun hi => ⟨rfl, (hi hk hshort).2⟩⟩
      · refine ⟨fun hs => absurd hs (not_sound_nil rfl (if_neg ha)), fun hi => ?_⟩
        exact absurd (hi hk hshort).1 ha
  · rw [if_pos hk]
    exact ⟨fun _ he => absurd he hk, fun _ => sound_of_result_ne (by simp)⟩

theorem signatureCheck_spec (hdoc : o.Documented) {op : Operation o}
    {digest signature : List UInt8} {r : Int × Check}
    (h : signatureCheck op digest signature = some r) :
    op.algorithm.isUncheckedSignature = false ∧ (r.1 = 1 ∨ r.1 = 0 ∨ r.1 = -1) ∧
      (r.2.Matches signature ↔ r.1 = 1) := by
  have hrsa : ∀ a, let ret := o.rsaVerify a digest signature op.keyValue
      (ret = 1 ∨ ret = 0 ∨ ret = -1) ∧
        ((Check.rsaVerify digest signature ret).Matches signature ↔ ret = 1) :=
    fun a => ⟨hdoc.rsaVerify_range _ _ _ _, ⟨fun hm => hm.2, fun h1 => ⟨rfl, h1⟩⟩⟩
  unfold signatureCheck at h
  split at h
  next ha =>
    cases h
    exact ⟨by rw [ha]; rfl, hrsa _⟩
  next ha =>
    cases h
    exact ⟨by rw [ha]; rfl, hrsa _⟩
  next ha =>
    cases h
    exact ⟨by rw [ha]; rfl, hdoc.dsaVerify_range _ _ _, ⟨fun hm => hm.2, fun h1 => ⟨rfl, h1⟩⟩⟩
  next => exact absurd h (by simp)

theorem verifyDigest_sound_iff (hdoc : o.Documented) (op : Operation o)
    (digest signature : List UInt8) :
    (teeAsymmetricVerifyDigest op digest signature).Sound signature ↔
      (op.operationClass = .asymmetricSignature → op.algorithm.isUncheckedSignature = false ∧
        ∀ r, signatureCheck op digest signature = some r → r.1 ≠ -1) := by
  unfold teeAsymmetricVerifyDigest
  by_cases hk : op.operationClass = .asymmetricSignature
  · rw [if_neg (not_not.mpr hk)]
    cases hs : signatureCheck op digest signature with
    | none =>
      by_cases ha : op.algorithm.isUncheckedSignature = true
      · simp only [ha, if_true]
        refine ⟨fun hv => absurd hv (not_sound_nil rfl rfl), fun hi => ?_⟩
        exact absurd (hi hk).1 (by simp)
      · simp only [ha]
        exact ⟨fun _ _ => ⟨by simp, fun r hr => absurd hr (by simp)⟩,
          fun _ => sound_of_result_ne (by simp)⟩
    | some r =>
      obtain ⟨ha, hrange, hmatch⟩ := signatureCheck_spec hdoc hs
      by_cases h0 : r.1 = 0
      · simp only [h0, if_true]
        refine ⟨fun _ _ => ⟨ha, fun r' hr' => ?_⟩, fun _ => sound_of_result_ne (by simp)⟩
        cases hr'
        omega
      · simp only [h0, if_false]
        apply (sound_singleton rfl rfl).trans
        rw [hmatch]
        refine ⟨fun h1 _ => ⟨ha, fun r' hr' => ?_⟩, fun hi => ?_⟩
        · cases hr'
          omega
        · have hn := (hi hk).2 r rfl
          omega
  · rw [if_pos hk]
    exact ⟨fun _ he => absurd he hk, fun _ => sound_of_result_ne (by simp)⟩

/-! ## Every handle -/

/-- `CRYPTO_gcm128_finish` finds the tag right for the data given so far and the last data -/
def TagRight (op : Operation o) (src : Nat → UInt8) (srcLen destLen : Nat) (tag : List UInt8) :
    Prop :=
  o.gcm128Finish (if srcLen = 0 then op.cryptoCtxt
    else o.gcm128Decrypt op.cryptoCtxt (readBytes src destLen)) tag = 0

/-- the check of OpenSSL for a signature, where the algorithm has one, ends without an error -/
def NoVerifyError (op : Operation o) (a : Algorithm) (digest signature : List UInt8) : Prop :=
  (a = .rsassaPkcs1V15Md5 ∨ a = .rsassaPkcs1V15Sha1 →
    o.rsaVerify a digest signature op.keyValue ≠ -1) ∧
  (a = .dsaSha1 → o.dsaVerify digest signature op.keyValue ≠ -1)

theorem tagRight_iff {op : Operation o} (ha : op.algorithm = .aesGcm) (src : Nat → UInt8)
    (srcLen destLen : Nat) (tag : List UInt8) :
    o.gcm128Finish (aeLast op src srcLen destLen) tag = 0 ↔ TagRight op src srcLen destLen tag := by
  unfold aeLast TagRight
  rw [ha]

theorem noVerifyError_iff (op : Operation o) (digest signature : List UInt8) :
    (∀ r, signatureCheck op digest signature = some r → r.1 ≠ -1) ↔
      NoVerifyError op op.algorithm digest signature := by
  unfold signatureCheck NoVerifyError
  cases op.algorithm <;> simp

/-- **Verification**: for every handle that `TEE_AllocateOperation` creates and any calls on it,
exactly when the three final calls report success only after a check that matched. -/
theorem verification_sound_iff (hdoc : o.Documented) {block op op' : Operation o}
    {ctxt : Option o.Ctx} {algorithm mode maxKeySize : UInt32} {a : Algorithm} {m : Mode}
    (ha : checkValidAlgorithm algorithm = some a) (hm : checkValidMode mode = some m)
    (hnew : teeAllocateOperation (some block) ctxt algorithm mode maxKeySize
      = (.success, some op))
    {calls : List OperationCall} (hrun : run callStep op calls = some op') :
    (∀ message mac macLen,
      (teeMacCompareFinal op' message mac macLen).Sound (suppliedMac mac macLen) ↔
        (classOf m a block.operationClass = .mac → a.isHmac = true)) ∧
    (∀ src srcLen destLen tag, (teeAeDecryptFinal op' src srcLen destLen tag).Sound tag ↔
        (classOf m a block.operationClass = .ae → ¬ (srcLen > 0 ∧ destLen < srcLen) →
          a = .aesGcm ∧ TagRight op' src srcLen destLen tag)) ∧
    (∀ digest signature, (teeAsymmetricVerifyDigest op' digest signature).Sound signature ↔
        (classOf m a block.operationClass = .asymmetricSignature →
          a.isUncheckedSignature = false ∧ NoVerifyError op' a digest signature)) := by
  obtain ⟨a', m', block', hb, hc⟩ := teeAllocateOperation_creates hnew
  cases hb
  cases ha.symm.trans hc.algorithm_valid
  cases hm.symm.trans hc.mode_valid
  have hkind : op'.kind = (a, m, classOf m a block.operationClass) :=
    (created_fixed hrun).trans hc.kind_eq
  have hk : op'.operationClass = classOf m a block.operationClass :=
    congrArg (fun k => k.2.2) hkind
  have hal : op'.algorithm = a := congrArg (fun k => k.1) hkind
  rw [← hk, ← hal]
  refine ⟨fun message mac macLen => macCompare_sound_iff hdoc op' message mac macLen,
    fun src srcLen destLen tag => ?_, fun digest signature => ?_⟩
  · apply (aeDecrypt_sound_iff op' src srcLen destLen tag).trans
    refine imp_congr_right fun _ => imp_congr_right fun _ => and_congr_right fun hg => ?_
    exact tagRight_iff hg src srcLen destLen tag
  · apply (verifyDigest_sound_iff hdoc op' digest signature).trans
    refine imp_congr_right fun _ => and_congr_right fun _ => ?_
    exact noVerifyError_iff op' digest signature

end

/-! ## AES-CMAC -/

/-- an OpenSSL that keeps the data it is given, and to which no tag and no signature is right -/
def idleOpenssl : Openssl where
  Ctx := List UInt8
  Key := List UInt8
  nullCtx := []
  freed := []
  digestInit := fun _ _ => some []
  digestUpdate := fun _ c data => c ++ data
  hmacCtxInit := fun _ => []
  hmacInit := fun _ _ key => key
  hmacUpdate := fun c data => (c ++ data, true)
  hmacFinal := fun c => (c, some (0 :: c))
  evpCtxInit := fun _ => []
  evpInit := fun _ _ _ _ _ => []
  evpUpdate := fun c _ data => (c ++ data, true)
  gcm128Init := fun _ _ => []
  gcm128Setiv := fun c _ => c
  gcm128Aad := fun c data => c ++ data
  gcm128Encrypt := fun c data => c ++ data
  gcm128Decrypt := fun c data => c ++ data
  gcm128Finish := fun _ _ => -1
  ccm128Init := fun _ _ _ _ => []
  ccm128Setiv := fun c _ _ => c
  ccm128Aad := fun c data => c ++ data
  ccm128Encrypt := fun c data => c ++ data
  ccm128Decrypt := fun c data => c ++ data
  rawKey := id
  evpKeyLen := fun _ => 16
  aesSetEncryptKey := id
  aesSetDecryptKey := id
  rsaGenerateKey := none
  d2iRsaKeys := fun _ => none
  dsaGenerateParameters := none
  rsaVerify := fun _ _ _ _ => 0
  dsaVerify := fun _ _ _ => 0

theorem idleOpenssl_documented : idleOpenssl.Documented where
  mac_nonempty := by
    intro c tag h
    cases h
    simp
  rsaVerify_range := fun _ _ _ _ => Or.inr (Or.inl rfl)
  dsaVerify_range := fun _ _ _ => Or.inr (Or.inl rfl)

/-- memory for a handle, all zero -/
def zeroBlock : Operation idleOpenssl :=
  ⟨.aesEcbNopad, .other, .encrypt, 0, 0, none, [], none, none, 0, 0⟩

/-- a handle for AES-CMAC -/
def cmacHandle : Operation idleOpenssl :=
  ⟨.aesCmac, .mac, .mac, 128, 0, none, [], none, none, 0, 0⟩

theorem cmacHandle_created :
    teeAllocateOperation (some zeroBlock) none 0x30000610 4 128 = (.success, some cmacHandle) :=
  rfl

/-- the theorem at a handle for AES-CMAC that was given a key and a message -/
theorem verification_sound_iff_cmac :
    (teeMacCompareFinal cmacHandle [] (fun _ => 0) 16).Sound (suppliedMac (fun _ => 0) 16) ↔
      (classOf .mac .aesCmac .other = .mac → Algorithm.aesCmac.isHmac = true) :=
  (verification_sound_iff (o := idleOpenssl) idleOpenssl_documented (a := .aesCmac) (m := .mac)
    (by decide +kernel) rfl cmacHandle_created (show run callStep cmacHandle
      [.macInit (some [1, 2, 3]), .macUpdate [4, 5]] = some cmacHandle from rfl)).1 []
    (fun _ => 0) 16

/-- a MAC of zeros is accepted for AES-CMAC, without a comparison, under any key and message -/
theorem macCompare_accepts_cmac :
    teeAllocateOperation (some zeroBlock) none 0x30000610 4 128 = (.success, some cmacHandle) ∧
    run callStep cmacHandle [.macInit (some [1, 2, 3]), .macUpdate [4, 5]] = some cmacHandle ∧
    (teeMacCompareFinal cmacHandle [] (fun _ => 0) 16).result = .success ∧
    ¬ (teeMacCompareFinal cmacHandle [] (fun _ => 0) 16).Sound (suppliedMac (fun _ => 0) 16) :=
  ⟨cmacHandle_created, rfl, rfl, not_sound_nil rfl rfl⟩

end SierraTee
