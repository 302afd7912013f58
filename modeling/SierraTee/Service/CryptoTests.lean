import SierraTee.Crypto.Streaming

/-!
# The chains of calls behind the crypto service (`crypto_tests.c`)

* `testDigestApi_cases` and the like   when the chains succeed, and when they fail.
-/

namespace SierraTee

structure ApiMemory (o : OpensslOutputs) where
  handle : Option (Operation o.toOpenssl)
  ctxt : Option o.Ctx
  /-- `local_buf`, `keyObj.dataPtr` and `keyValue` -/
  localBuf : Bool
  keyObj : Bool
  keyValue : Bool

/-- `wild`: `TEE_FreeOperation` is called with a pointer that was never set -/
inductive ApiOutcome where
  | ok (out : List UInt8)
  | failed
  | wild
  deriving DecidableEq

section
variable {o : OpensslOutputs} (mem : ApiMemory o) (a : Algorithm) (key data : List UInt8)

/-- `TEE_AllocateOperation`, and what is done with the handle -/
def withOperation (mode maxKeySize : UInt32) (f : Operation o.toOpenssl → ApiOutcome) : ApiOutcome :=
  match teeAllocateOperation mem.handle mem.ctxt a.id mode maxKeySize with
  | (.success, some op) => f op
  | _ => .wild

def resultBuf : Dest := ⟨fun _ => 0, 256⟩

def Answer.outcome (f : Answer o) : ApiOutcome :=
  if f.result = .success then .ok f.dest.reported else .failed

def testDigestApi : ApiOutcome :=
  withOperation mem a 5 0 fun op =>
    (teeDigestDoFinal (teeDigestUpdate op data) (pointTo []) 0 resultBuf false).outcome

def testHmacApi : ApiOutcome :=
  withOperation mem a 4 16 fun op =>
    (teeMacComputeFinal (teeMacUpdate (teeMacInit op (some key)) data) (pointTo []) 0
      resultBuf).outcome

/-- `compare_hmac_values`; `mac` is the result of `test_hmac_api`, or what is there in its place -/
def compareHmacValues (mac : List UInt8) : ApiOutcome :=
  withOperation mem a 4 16 fun op =>
    if (teeMacCompareFinal (teeMacUpdate (teeMacInit op (some key)) data) []
        (fun i => pointTo mac i.toNat) mac.length).result = .success then .ok mac
    else .failed

def cipherEncrypt : UInt32 := 2

def cipherMode (choice : UInt32) : UInt32 := if choice = cipherEncrypt then 0 else 1

/-- the calls of `test_cipher_api` on its handle; no initialisation vector is one without bytes -/
def cipherCalls (iv : List UInt8) (op : Operation o.toOpenssl) : ApiOutcome :=
  if mem.keyObj = false then .failed
  else
    let r := teeSetOperationKey op (some key) mem.keyValue mem.keyValue
    if r.1 ≠ .success then .failed
    else
      let u := teeCipherUpdateTo (teeCipherInit r.2 iv true) (pointTo data) data.length resultBuf
      if u.result ≠ .success then .failed
      else
        let f := teeCipherDoFinal u.op (pointTo []) 0 resultBuf
        if f.result ≠ .success then .failed
        else .ok (u.dest.reported ++ f.dest.reported)

def testCipherApi (choice : UInt32) (iv : List UInt8) : ApiOutcome :=
  if mem.localBuf = false then .failed
  else withOperation mem a (cipherMode choice) 16 (cipherCalls mem key data iv)

end

section
variable {o : OpensslOutputs} (mem : ApiMemory o) {a : Algorithm} {key data : List UInt8}

theorem checkValidAlgorithm_id (a : Algorithm) : checkValidAlgorithm a.id = some a := by
  cases a <;> decide +kernel

/-! ## Allocation -/

def allocated (block : Operation o.toOpenssl) (r : Operation o.toOpenssl) (a : Algorithm) (m : Mode)
    (maxKeySize : UInt32) : Operation o.toOpenssl :=
  { r with
    operationClass := classOf m a block.operationClass
    mode := m
    maxKeySize := maxKeySize.toNat }

theorem withOperation_eq {mode maxKeySize : UInt32} {m : Mode} (hm : checkValidMode mode = some m)
    (hs : checkValidAlgorithmForMode m a = true) (f : Operation o.toOpenssl → ApiOutcome) :
    withOperation mem a mode maxKeySize f = match mem.handle with
      | none => .wild
      | some block =>
        if (modeAlloc m { block with algorithm := a } mem.ctxt).1 = .success then
          f (allocated block (modeAlloc m { block with algorithm := a } mem.ctxt).2 a m maxKeySize)
        else .wild := by
  unfold withOperation teeAllocateOperation
  simp only [checkValidAlgorithm_id, hm, hs, if_true]
  cases mem.handle with
  | none => rfl
  | some block =>
    dsimp only
    by_cases hr : (modeAlloc m { block with algorithm := a } mem.ctxt).1 = .success
    · rw [if_pos hr, if_pos hr]
      rfl
    · rw [if_neg hr, if_neg hr]
      split
      next h => exact nomatch (Prod.mk.inj h).2
      next => rfl

def Allocates (mem : ApiMemory o) (a : Algorithm) : Prop :=
  mem.handle.isSome ∧ ∃ c, mem.ctxt = some c ∧ (a.isDigest = true → (o.digestInit a c).isSome)

/-! ## Digests -/

theorem suits_digest (h : a.isDigest = true) : checkValidAlgorithmForMode .digest a = true := by
  cases a <;> first | rfl | exact absurd h (by decide)

theorem withOperation_digest (h : a.isDigest = true) (f : Operation o.toOpenssl → ApiOutcome) :
    (∃ op, Allocates mem a ∧ op.operationClass = .digest ∧ op.algorithm = a ∧
        withOperation mem a 5 0 f = f op) ∨
      (¬ Allocates mem a ∧ withOperation mem a 5 0 f = .wild) := by
  rw [withOperation_eq mem rfl (suits_digest h)]
  unfold Allocates modeAlloc handleDigestAlloc
  cases mem.handle with
  | none => exact Or.inr ⟨fun h1 => absurd h1.1 (by simp), rfl⟩
  | some block =>
    cases hc : mem.ctxt with
    | none => exact Or.inr ⟨fun h1 => absurd h1.2 (by simp), rfl⟩
    | some c =>
      dsimp only
      rw [Option.bind_some]
      cases hi : o.digestInit a c with
      | none => exact Or.inr ⟨fun ⟨_, c', hc', h1⟩ => by cases hc'; simp [hi, h] at h1, rfl⟩
      | some c' => exact Or.inl ⟨_, ⟨rfl, c, rfl, fun _ => by simp [hi]⟩, rfl, rfl, rfl⟩

theorem digestDoFinal_ok {op : Operation o.toOpenssl} (h : a.isDigest = true)
    (hclass : op.operationClass = .digest) (halg : op.algorithm = a) :
    ∃ out, (teeDigestDoFinal op (pointTo []) 0 resultBuf false).outcome = .ok out := by
  subst halg
  have hroom : ¬ resultBuf.len < op.algorithm.digestRoom := by
    unfold Algorithm.digestRoom
    split <;> decide
  unfold teeDigestDoFinal
  rw [if_neg Bool.false_ne_true, if_neg (not_not.mpr hclass), if_pos h, if_neg hroom]
  exact ⟨_, if_pos rfl⟩

theorem testDigestApi_cases (h : a.isDigest = true) (data : List UInt8) :
    (Allocates mem a ∧ ∃ out, testDigestApi mem a data = .ok out) ∨
      (¬ Allocates mem a ∧ testDigestApi mem a data = .wild) := by
  unfold testDigestApi
  obtain ⟨op, h1, h2, h3, h4⟩ | h1 := withOperation_digest mem h _
  · refine Or.inl ⟨h1, ?_⟩
    rw [h4]
    have hclass : (teeDigestUpdate op data).operationClass = .digest := by
      rw [teeDigestUpdate, if_pos h2]
      exact h2
    have halg : (teeDigestUpdate op data).algorithm = a := by
      rw [teeDigestUpdate, if_pos h2]
      exact h3
    exact digestDoFinal_ok h hclass halg
  · exact Or.inr h1

/-! ## MACs -/

/-- the MAC that the HMAC calls of OpenSSL give in a context made of `c` -/
def hmacRun (a : Algorithm) (c : o.Ctx) (key data : List UInt8) : Option (List UInt8) :=
  (o.hmacFinal (o.hmacUpdate (o.hmacInit a (o.hmacCtxInit c) key) data).1).2

theorem suits_hmac (h : a.isHmac = true) : checkValidAlgorithmForMode .mac a = true := by
  cases a <;> first | rfl | exact absurd h (by decide)

theorem hmac_not_digest (h : a.isHmac = true) : a.isDigest = false := by
  cases a <;> first | rfl | exact absurd h (by decide)

theorem withOperation_hmac (h : a.isHmac = true) (f : Operation o.toOpenssl → ApiOutcome) :
    (∃ c op, Allocates mem a ∧ mem.ctxt = some c ∧ op.operationClass = .mac ∧ op.algorithm = a ∧
        op.cryptoCtxt = o.hmacCtxInit c ∧ withOperation mem a 4 16 f = f op) ∨
      (¬ Allocates mem a ∧ withOperation mem a 4 16 f = .wild) := by
  rw [withOperation_eq mem rfl (suits_hmac h)]
  unfold Allocates modeAlloc handleMacAlloc
  cases mem.handle with
  | none => exact Or.inr ⟨fun h1 => absurd h1.1 (by simp), rfl⟩
  | some block =>
    dsimp only
    rw [if_pos h]
    cases hc : mem.ctxt with
    | none => exact Or.inr ⟨fun h1 => absurd h1.2 (by simp), rfl⟩
    | some c =>
      refine Or.inl ⟨c, _, ⟨rfl, c, rfl, fun hd => ?_⟩, rfl, rfl, rfl, rfl, rfl⟩
      rw [hmac_not_digest h] at hd
      cases hd

theorem macReady {op : Operation o.toOpenssl} {c : o.Ctx} (h : a.isHmac = true)
    (hclass : op.operationClass = .mac) (halg : op.algorithm = a)
    (hctxt : op.cryptoCtxt = o.hmacCtxInit c) : teeMacUpdate (teeMacInit op (some key)) data
      = { op with
          cryptoCtxt := (o.hmacUpdate (o.hmacInit a (o.hmacCtxInit c) key) data).1 } := by
  subst halg
  have hinit : teeMacInit op (some key)
      = { op with cryptoCtxt := o.hmacInit op.algorithm op.cryptoCtxt key } := by
    rw [teeMacInit, if_neg (not_not.mpr hclass)]
    exact if_pos h
  rw [hinit, teeMacUpdate, if_pos ⟨hclass, h⟩, hctxt]

theorem testHmacApi_cases (h : a.isHmac = true) (key data : List UInt8) :
    (∃ c, Allocates mem a ∧ mem.ctxt = some c ∧ testHmacApi mem a key data =
        match hmacRun a c key data with
        | some mac => .ok mac
        | none => .failed) ∨
      (¬ Allocates mem a ∧ testHmacApi mem a key data = .wild) := by
  unfold testHmacApi
  obtain ⟨c, op, h1, h2, h3, h4, h5, h6⟩ | h1 := withOperation_hmac mem h _
  · refine Or.inl ⟨c, h1, h2, ?_⟩
    rw [h6, macReady h h3 h4 h5]
    subst h4
    unfold teeMacComputeFinal
    rw [if_neg (not_not.mpr h3), if_pos h, if_neg (by decide)]
    have hrun (op' : Operation o.toOpenssl) : (macRun op' (pointTo []) 0).2
        = (o.hmacFinal op'.cryptoCtxt).2 := rfl
    rw [hrun]
    unfold hmacRun
    dsimp only
    cases (o.hmacFinal (o.hmacUpdate (o.hmacInit op.algorithm (o.hmacCtxInit c) key) data).1).2 with
    | none => rfl
    | some mac =>
      unfold Answer.outcome
      rw [if_pos rfl, Dest.reported_fill]
  · exact Or.inr h1

theorem compareMac_success (hdoc : ∀ c tag, (o.hmacFinal c).2 = some tag → tag ≠ [])
    (op : Operation o.toOpenssl) (c : o.Ctx) (mac : List UInt8) :
    (compareMac op (o.hmacFinal c).2 (fun i => pointTo mac i.toNat) mac.length).result = .success ↔
      (o.hmacFinal c).2 = some mac := by
  unfold compareMac
  cases hf : (o.hmacFinal c).2 with
  | none => simp
  | some tag =>
    have hpos : 0 < tag.length := List.length_pos_iff.mpr (hdoc c tag hf)
    dsimp only
    by_cases hl : mac.length = tag.length
    · rw [if_neg (not_not.mpr hl), hl, Option.some.injEq]
      by_cases hd : swMemcmp (tempOutput tag) (fun i => pointTo mac i.toNat) tag.length = 0
      · rw [if_neg (not_not.mpr hd)]
        have htag := suppliedMac_eq ((swMemcmp_eq_zero_iff hpos).1 hd)
        have hmac : suppliedMac (fun i => pointTo mac i.toNat) tag.length = mac := by
          rw [← hl]
          exact readBytes_pointTo mac
        exact ⟨fun _ => htag.trans hmac, fun _ => rfl⟩
      · rw [if_pos hd]
        refine ⟨fun h => (by cases h), fun h => absurd ?_ hd⟩
        rw [h, swMemcmp_eq_zero_iff (h ▸ hpos)]
        intro i _
        rfl
    · rw [if_pos hl, Option.some.injEq]
      exact ⟨fun h => (by cases h), fun h => absurd (congrArg List.length h).symm hl⟩

theorem compareHmacValues_cases (hdoc : ∀ c tag, (o.hmacFinal c).2 = some tag → tag ≠ [])
    (h : a.isHmac = true) (key data mac : List UInt8) :
    (∃ c, Allocates mem a ∧ mem.ctxt = some c ∧ compareHmacValues mem a key data mac =
        if hmacRun a c key data = some mac then .ok mac else .failed) ∨
      (¬ Allocates mem a ∧ compareHmacValues mem a key data mac = .wild) := by
  unfold compareHmacValues
  obtain ⟨c, op, h1, h2, h3, h4, h5, h6⟩ | h1 := withOperation_hmac mem h _
  · refine Or.inl ⟨c, h1, h2, ?_⟩
    rw [h6, macReady h h3 h4 h5]
    subst h4
    unfold teeMacCompareFinal
    rw [if_neg (not_not.mpr h3), if_pos h]
    unfold hmacRun
    exact if_congr (compareMac_success hdoc ..) rfl rfl
  · exact Or.inr h1

theorem compareHmacValues_ok {key data mac out : List UInt8}
    (h : compareHmacValues mem a key data mac = .ok out) : out = mac := by
  unfold compareHmacValues withOperation at h
  split at h
  · dsimp only at h
    split_ifs at h
    cases h
    rfl
  · cases h

/-! ## Ciphers -/

def cipherStart (a : Algorithm) (m : Mode) (c : o.Ctx) (key iv : List UInt8) : o.Ctx :=
  o.evpInit a (o.evpCtxInit c) m (o.rawKey key) iv

/-- what the calls after the allocation need: memory, a key of the length of the cipher, and EVP
calls that succeed -/
structure CipherRuns (mem : ApiMemory o) (a : Algorithm) (m : Mode) (c : o.Ctx)
    (key data iv : List UInt8) : Prop where
  keyObj : mem.keyObj = true
  key_length : key.length = o.evpKeyLen a
  keyValue : mem.keyValue = true
  update : (o.evpUpdate (cipherStart a m c key iv) m data).2 = true
  final : (o.evpFinal (o.evpUpdate (cipherStart a m c key iv) m data).1 m).2.1 = true

def cipherText (a : Algorithm) (m : Mode) (c : o.Ctx) (key data iv : List UInt8) : List UInt8 :=
  o.evpUpdateOut (cipherStart a m c key iv) m data ++
    (o.evpFinal (o.evpUpdate (cipherStart a m c key iv) m data).1 m).2.2

def modeOf (choice : UInt32) : Mode := if choice = cipherEncrypt then .encrypt else .decrypt

theorem checkValidMode_cipherMode (choice : UInt32) :
    checkValidMode (cipherMode choice) = some (modeOf choice) := by
  unfold cipherMode modeOf
  split <;> rfl

theorem modeOf_cases (choice : UInt32) : modeOf choice = .encrypt ∨ modeOf choice = .decrypt := by
  unfold modeOf
  split
  · exact Or.inl rfl
  · exact Or.inr rfl

theorem evp_suits {m : Mode} (h : a.isEvp = true) (hm : m = .encrypt ∨ m = .decrypt) :
    checkValidAlgorithmForMode m a = true := by
  obtain rfl | rfl := hm <;> cases a <;> first | rfl | exact absurd h (by decide)

theorem evp_not_digest (h : a.isEvp = true) : a.isDigest = false := by
  cases a <;> first | rfl | exact absurd h (by decide)

theorem withOperation_cipher {m : Mode} (h : a.isEvp = true) (hm : m = .encrypt ∨ m = .decrypt)
    {mode : UInt32} (hmode : checkValidMode mode = some m)
    (f : Operation o.toOpenssl → ApiOutcome) :
    (∃ c op, Allocates mem a ∧ mem.ctxt = some c ∧ SetUp a m (o.evpCtxInit c) op ∧
        op.cryptoCipher = some a ∧ withOperation mem a mode 16 f = f op) ∨
      (¬ Allocates mem a ∧ withOperation mem a mode 16 f = .wild) := by
  rw [withOperation_eq mem hmode (evp_suits h hm)]
  unfold Allocates
  cases mem.handle with
  | none => exact Or.inr ⟨fun h1 => absurd h1.1 (by simp), rfl⟩
  | some block =>
    obtain ⟨hclass, -, h1, h2⟩ := classOf_evp h hm block.operationClass
    have halloc : modeAlloc m { block with algorithm := a } mem.ctxt
        = handleCipherAlloc { block with algorithm := a } mem.ctxt := by
      obtain rfl | rfl := hm <;> exact if_neg (not_or.mpr ⟨h1, h2⟩)
    dsimp only
    rw [halloc]
    unfold handleCipherAlloc
    rw [if_pos h]
    cases hc : mem.ctxt with
    | none => exact Or.inr ⟨fun h1 => absurd h1.2 (by simp), rfl⟩
    | some c =>
      refine Or.inl ⟨c, _, ⟨rfl, c, rfl, fun hd => ?_⟩, rfl, ⟨rfl, hclass, rfl, rfl⟩, rfl, rfl⟩
      rw [evp_not_digest h] at hd
      cases hd

theorem setKey_result {op : Operation o.toOpenssl} (h : op.algorithm.isEvp = true)
    (hm : op.mode = .encrypt ∨ op.mode = .decrypt) (hclass : op.operationClass = .cipher)
    (hcipher : op.cryptoCipher = some a) (malloc : Bool) :
    (teeSetOperationKey op (some key) malloc malloc).1 = .success ↔
      key.length = o.evpKeyLen a ∧ malloc = true := by
  have hdigest : op.mode ≠ .digest := by
    obtain h | h := hm <;> rw [h] <;> decide
  have hcts : op.algorithm ≠ .aesCts := fun he => by
    rw [he] at h
    exact absurd h (by decide)
  unfold teeSetOperationKey
  rw [if_neg hdigest]
  dsimp only [Option.getD_some]
  rw [if_pos hclass]
  unfold setCipherKey
  rw [hcipher, Option.any_some]
  by_cases hl : key.length = o.evpKeyLen a
  · rw [if_neg (by simp [hl])]
    cases malloc with
    | false => simp [andThen]
    | true => simp [andThen, hclass, hcts, hl]
  · rw [if_pos (by simp [hl])]
    simp [andThen, hl]

theorem update_result {op : Operation o.toOpenssl} {m : Mode} {c : o.Ctx} (hop : SetUp a m c op)
    (h : a.isEvp = true) (x : List UInt8) (d : Dest) :
    (teeCipherUpdateTo op (pointTo x) x.length d).result = .success ↔ (o.evpUpdate c m x).2 = true := by
  obtain ⟨rfl, h2, rfl, rfl⟩ := hop
  unfold teeCipherUpdateTo
  rw [if_neg (not_not.mpr h2), if_pos h]
  unfold evpWrite
  rw [readBytes_pointTo]
  cases hu : (o.evpUpdate op.cryptoCtxt op.mode x).2 <;> simp [hu]

theorem final_result {op : Operation o.toOpenssl} {m : Mode} {c : o.Ctx} (hop : SetUp a m c op)
    (h : a.isEvp = true) (hm : m = .encrypt ∨ m = .decrypt) (d : Dest) :
    ((teeCipherDoFinal op (pointTo []) 0 d).result = .success ↔ (o.evpFinal c m).2.1 = true) ∧
      (teeCipherDoFinal op (pointTo []) 0 d).dest.reported = (o.evpFinal c m).2.2 := by
  obtain ⟨rfl, h2, rfl, rfl⟩ := hop
  unfold teeCipherDoFinal
  rw [if_neg (not_not.mpr h2), if_pos h, if_pos hm, if_pos rfl]
  unfold evpFinish leave
  refine ⟨?_, Dest.reported_fill ..⟩
  cases hf : (o.evpFinal op.cryptoCtxt op.mode).2.1 <;> simp [hf]

theorem cipherCalls_cases {op : Operation o.toOpenssl} {m : Mode} {c : o.Ctx} (h : a.isEvp = true)
    (hm : m = .encrypt ∨ m = .decrypt) (hop : SetUp a m (o.evpCtxInit c) op)
    (hcipher : op.cryptoCipher = some a) (key data iv : List UInt8) :
    CipherRuns mem a m c key data iv ∧
        cipherCalls mem key data iv op = .ok (cipherText a m c key data iv) ∨
      ¬ CipherRuns mem a m c key data iv ∧ cipherCalls mem key data iv op = .failed := by
  obtain ⟨h1, h2, h3, h4⟩ := hop
  unfold cipherCalls
  by_cases hobj : mem.keyObj = false
  · rw [if_pos hobj]
    exact Or.inr ⟨fun hr => by simp [hr.keyObj] at hobj, rfl⟩
  rw [if_neg hobj]
  have hkey : (teeSetOperationKey op (some key) mem.keyValue mem.keyValue).1 = .success ↔
      key.length = o.evpKeyLen a ∧ mem.keyValue = true :=
    setKey_result (h1 ▸ h) (h3 ▸ hm) h2 hcipher mem.keyValue
  by_cases hk : (teeSetOperationKey op (some key) mem.keyValue mem.keyValue).1 = .success
  · obtain ⟨op1, hop1⟩ : ∃ p, teeSetOperationKey op (some key) mem.keyValue mem.keyValue
        = (.success, p) := ⟨_, Prod.ext hk rfl⟩
    obtain ⟨hlen, hmem⟩ := hkey.1 hk
    have hset := setKey_evp (h1 ▸ h) (h3 ▸ hm) h2 hop1
    have hready : SetUp a m (o.evpCtxInit c) op1 := by
      rw [hset]
      exact ⟨h1, h2, h3, h4⟩
    have hinit : SetUp a m (cipherStart a m c key iv) (teeCipherInit op1 iv true) :=
      cipherInit_evp hready h (by rw [hset]) (by rw [hset]; exact hcipher)
    rw [hop1]
    dsimp only
    rw [if_neg (not_not.mpr rfl)]
    have hupdate := update_result hinit h data resultBuf
    by_cases hu : (o.evpUpdate (cipherStart a m c key iv) m data).2 = true
    · obtain ⟨hr, hout, hup⟩ := update_ready hinit h data resultBuf hu
      rw [if_neg (not_not.mpr hr)]
      obtain ⟨hfinal, hlast⟩ := final_result hup h hm resultBuf
      by_cases hf : (o.evpFinal (o.evpUpdate (cipherStart a m c key iv) m data).1 m).2.1 = true
      · rw [if_neg (not_not.mpr (hfinal.2 hf)), hout, hlast]
        exact Or.inl ⟨⟨Bool.not_eq_false _ ▸ hobj, hlen, hmem, hu, hf⟩, rfl⟩
      · rw [if_pos fun he => hf (hfinal.1 he)]
        exact Or.inr ⟨fun hr => hf hr.final, rfl⟩
    · rw [if_pos fun he => hu (hupdate.1 he)]
      exact Or.inr ⟨fun hr => hu hr.update, rfl⟩
  · dsimp only
    rw [if_pos hk]
    exact Or.inr ⟨fun hr => hk (hkey.2 ⟨hr.key_length, hr.keyValue⟩), rfl⟩

theorem testCipherApi_cases (h : a.isEvp = true) (key data : List UInt8) (choice : UInt32)
    (iv : List UInt8) :
    (mem.localBuf = false ∧ testCipherApi mem a key data choice iv = .failed) ∨
      (∃ c, mem.localBuf = true ∧ Allocates mem a ∧ mem.ctxt = some c ∧
        (CipherRuns mem a (modeOf choice) c key data iv ∧ testCipherApi mem a key data choice iv
            = .ok (cipherText a (modeOf choice) c key data iv) ∨
          ¬ CipherRuns mem a (modeOf choice) c key data iv ∧
            testCipherApi mem a key data choice iv = .failed)) ∨
      (mem.localBuf = true ∧ ¬ Allocates mem a ∧ testCipherApi mem a key data choice iv = .wild) := by
  unfold testCipherApi
  cases mem.localBuf with
  | false => exact Or.inl ⟨rfl, rfl⟩
  | true =>
    right
    rw [if_neg (by decide)]
    have hm := modeOf_cases choice
    obtain ⟨c, op, h1, h2, h3, h4, h5⟩ | h1 :=
      withOperation_cipher mem h hm (checkValidMode_cipherMode choice) _
    · refine Or.inl ⟨c, rfl, h1, h2, ?_⟩
      rw [h5]
      exact cipherCalls_cases mem h hm h3 h4 key data iv
    · exact Or.inr ⟨rfl, h1⟩

end

end SierraTee
