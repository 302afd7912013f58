import SierraTee.Service.Request

/-!
# The crypto service (`crypto_task.c`)

The three handlers decode their parameters, copy them into buffers of 256 bytes (the HMAC key
into one of 16), let the TEE crypto API compute a result and write it to the response.

* `digest_safe_iff`, `hmac_safe_iff`, `cipher_safe_iff`   exactly when a handler is safe.

The loops of the source over the parameters end with a `break` and run exactly once.  Unmapping
a reference touches no buffer and is left out, as are the reads of a key or an initialisation
vector over the length just copied.
-/

namespace SierraTee
open Word Traced

def cryptBufLen : Nat := 256
def hmacKeyLen : Nat := 16

def digestCmds : List UInt32 := [5, 6, 7, 8, 9, 10]
def hmacCmds : List UInt32 := [11, 12, 13, 14, 15, 16]
/-- `OTZ_CRYPT_CMD_ID_CIPHER_AES_128_CBC` to `_DES3_CBC` -/
def cipherCmds : List UInt32 := [17, 18, 19, 20, 21, 22, 23, 24]

section
variable (r : ServiceRequest)

/-! ## The handlers -/

/-- decode an array or a reference, refuse a length from `bound` on and copy the parameter into
a buffer of `size` bytes; lengths are compared as `int` and copied as `sw_uint` -/
def takeCopy (bound : Int) (size : Nat) (offset : Int) (pos : Nat) :
    Traced SmcError Access Decoded := do
  let d ← decodeParam r r.request offset pos
  require (d.type = otzEncArray ∨ d.type = otzMemRef) .einvalArg
  require (toInt d.outLen < bound) .enomem
  touch [d.access r.request d.outLen.toNat, ⟨.own size, 0, d.outLen.toNat⟩]
  pure d

def takeWord (offset : Int) (pos : Nat) : Traced SmcError Access Decoded := do
  let d ← decodeParam r r.request offset pos
  require (d.type = otzEncArray ∨ d.type = otzMemRef) .einvalArg
  touch [d.access r.request 4]
  pure d

/-- the TEE crypto API on the data, or the data itself where the API fails; the new
`crypto_data->len` -/
def compute (data : Decoded) : Traced SmcError Access Int := do
  touch [⟨.own cryptBufLen, 0, data.outLen.toNat⟩]
  match r.computed with
  | some n => do
    touch [⟨.own cryptBufLen, 0, n⟩]
    pure (n : Int)
  | none => do
    touch [⟨.own cryptBufLen, 0, data.outLen.toNat⟩]
    pure (toInt data.outLen)

/-- write `len` bytes of the result to the response parameter -/
def respond (len : Int) : Traced SmcError Access Int := do
  let d ← decodeParam r r.response 0 otzMaxReqParams
  require (d.type = otzEncArray ∨ d.type = otzMemRef) .einvalArg
  require (len ≤ toInt d.outLen) .enomem
  touch [⟨.own cryptBufLen, 0, toUint len⟩, d.access r.response (toUint len)]
  take [⟨.slot d.outLen.toNat, 0, toUint len⟩]
  updateResponseLen d.pos
  pure len

/-- `process_otz_crypto_digest_cmd`; the result is `*ret_res_buf_len` -/
def processOtzCryptoDigestCmd (svcCmdId : UInt32) : Traced SmcError Access Int := do
  require (r.malloc = true) .enomem
  let d ← takeCopy r cryptBufLen cryptBufLen 0 0
  let len ← if svcCmdId ∈ digestCmds then compute r d else pure (cryptBufLen : Int)
  respond r len

def computeHmac (data : Decoded) : Traced SmcError Access Int := do
  let len ← compute r data
  touch [⟨.own cryptBufLen, 0, toUint len⟩]
  if r.macEqual then pure len
  else do
    touch [⟨.own cryptBufLen, 0, data.outLen.toNat⟩]
    pure (toInt data.outLen)

def processOtzCryptoHmacCmd (svcCmdId : UInt32) : Traced SmcError Access Int := do
  require (r.malloc = true) .enomem
  let key ← takeCopy r (hmacKeyLen + 1) hmacKeyLen 0 0
  let d ← takeCopy r cryptBufLen cryptBufLen key.offset key.pos
  let len ← if svcCmdId ∈ hmacCmds then computeHmac r d else pure (cryptBufLen : Int)
  respond r len

/-- key and data of `process_otz_crypto_cipher_cmd`, and its result -/
def cipherRest (svcCmdId : UInt32) (offset : Int) (pos : Nat) : Traced SmcError Access Int := do
  let key ← takeCopy r (cryptBufLen + 1) cryptBufLen offset pos
  let d ← takeCopy r cryptBufLen cryptBufLen key.offset key.pos
  let len ← if svcCmdId ∈ cipherCmds then compute r d else pure (cryptBufLen : Int)
  respond r len

def processOtzCryptoCipherCmd (svcCmdId : UInt32) : Traced SmcError Access Int := do
  require (r.malloc = true) .enomem
  let choice ← takeWord r 0 0
  let present ← takeWord r choice.offset choice.pos
  if present.word r r.request = 1 then do
    let iv ← takeCopy r (cryptBufLen + 1) cryptBufLen present.offset present.pos
    cipherRest r svcCmdId iv.offset iv.pos
  else cipherRest r svcCmdId present.offset present.pos

/-! ## What they ask of the request -/

/-- a parameter that `takeCopy` does not refuse has a length that is not negative, and so many
bytes are behind it -/
def CopyOk (bound : Int) (offset : Int) (pos : Nat) (next : Prop) : Prop :=
  AddressInside r r.request offset pos ∧
  (Available r r.request offset pos → toInt (r.metaData pos).len < bound →
    0 ≤ toInt (r.metaData pos).len ∧
    Reachable r r.request offset pos (r.metaData pos).len.toNat ∧ next)

def TakeWordOk (offset : Int) (pos : Nat) (next : Prop) : Prop :=
  AddressInside r r.request offset pos ∧
  (Available r r.request offset pos → Reachable r r.request offset pos 4 ∧ next)

/-- a response parameter that is long enough for `len` bytes is in the response, or in a mapped
reference; then what is owed for the parameters before holds -/
def RespondOk (owed : Prop) (len : Int) : Prop :=
  AddressInside r r.response 0 otzMaxReqParams ∧
  (Available r r.response 0 otzMaxReqParams → len ≤ toInt (r.metaData otzMaxReqParams).len →
    Reachable r r.response 0 otzMaxReqParams (toUint len) ∧
    ArrayInside r r.response 0 otzMaxReqParams ∧ owed)

def resultLen (dataLen : UInt32) : Int :=
  match r.computed with
  | some n => n
  | none => toInt dataLen

def hmacLen (dataLen : UInt32) : Int := if r.macEqual then resultLen r dataLen else toInt dataLen

def DigestOk (svcCmdId : UInt32) : Prop :=
  r.malloc = true → CopyOk r cryptBufLen 0 0
    (RespondOk r True
      (if svcCmdId ∈ digestCmds then resultLen r (r.metaData 0).len else cryptBufLen))

def HmacOk (svcCmdId : UInt32) : Prop :=
  r.malloc = true → CopyOk r (hmacKeyLen + 1) 0 0
    (CopyOk r cryptBufLen (nextOffset r 0 0) 1
      (RespondOk r True
        (if svcCmdId ∈ hmacCmds then hmacLen r (r.metaData 1).len else cryptBufLen)))

def CipherRestOk (owed : Prop) (svcCmdId : UInt32) (offset : Int) (pos : Nat) : Prop :=
  CopyOk r (cryptBufLen + 1) offset pos
    (CopyOk r cryptBufLen (nextOffset r offset pos) (pos + 1)
      (RespondOk r owed
        (if svcCmdId ∈ cipherCmds then resultLen r (r.metaData (pos + 1)).len else cryptBufLen)))

def CipherOk (svcCmdId : UInt32) : Prop :=
  r.malloc = true → TakeWordOk r 0 0 (TakeWordOk r (nextOffset r 0 0) 1
    (let owed := ArrayInside r r.request 0 0 ∧ ArrayInside r r.request (nextOffset r 0 0) 1
     let offset := nextOffset r (nextOffset r 0 0) 1
     if wordBehind r r.request (nextOffset r 0 0) 1 = 1 then
       CopyOk r (cryptBufLen + 1) offset 2 (CipherRestOk r owed svcCmdId (nextOffset r offset 2) 3)
     else CipherRestOk r owed svcCmdId offset 2))

end

section
variable {r : ServiceRequest} {owed next : Prop} {offset : Int} {pos : Nat} {α : Type}

/-! ## Each block -/

theorem DecodesTo.type_ok {b : ParamArea} {d : Decoded} (h : DecodesTo r b offset pos d) :
    d.type = otzEncArray ∨ d.type = otzMemRef := by
  rw [h.type_eq]
  split
  · exact Or.inl rfl
  · exact Or.inr rfl

theorem safeAfter_available (b : ParamArea) (f : Decoded → Traced SmcError Access α)
    (hf : ∀ d, DecodesTo r b offset pos d →
      (SafeAfter (Inside r) (owed ∧ ArrayInside r b offset pos) (f d) ↔ next)) :
    SafeAfter (Inside r) owed (decodeParam r b offset pos >>= fun d =>
      require (d.type = otzEncArray ∨ d.type = otzMemRef) .einvalArg >>= fun _ => f d) ↔
    AddressInside r b offset pos ∧ (Available r b offset pos → next) := by
  rw [safeAfter_bind, decodeParam_touched]
  refine and_congr_right fun _ => ⟨fun h ha => ?_, fun h d hd => ?_⟩
  · obtain ⟨d, hd⟩ := ha.decodesTo
    have h1 := h d hd.result
    rw [safeAfter_require, hd.taken_iff] at h1
    exact (hf d hd).1 (h1 hd.type_ok)
  · rw [safeAfter_require]
    intro htype
    by_cases ha : Available r b offset pos
    · obtain ⟨d', hd'⟩ := ha.decodesTo
      cases hd.symm.trans hd'.result
      rw [hd'.taken_iff]
      exact (hf d hd').2 (h ha)
    · obtain ⟨h1, -⟩ := not_available ha hd
      rw [decodeParam_uint32 h1] at hd
      cases hd
      have hne : ¬ (otzEncUint32 = otzEncArray ∨ otzEncUint32 = otzMemRef) := by decide
      exact absurd htype hne

theorem toInt_eq (w : UInt32) (h : 0 ≤ toInt w) : toInt w = w.toNat := by
  unfold toInt toInt32 at *
  have hw := w.toNat_lt
  split at h
  · rw [if_pos (by assumption)]
  · omega

theorem inside_own_iff {bound : Int} {size : Nat} {w : UInt32} (hb : bound ≤ size + 1)
    (hs : size < 2 ^ 31) (hw : toInt w < bound) :
    Inside r ⟨.own size, 0, w.toNat⟩ ↔ 0 ≤ toInt w := by
  show w.toNat = 0 ∨ 0 + w.toNat ≤ size ↔ _
  have hlt := w.toNat_lt
  by_cases h0 : 0 ≤ toInt w
  · have he := toInt_eq w h0
    refine ⟨fun _ => h0, fun _ => Or.inr ?_⟩
    omega
  · refine ⟨fun h => ?_, fun h => absurd h h0⟩
    unfold toInt toInt32 at h0
    split at h0
    · omega
    · omega

theorem safeAfter_takeCopy {bound : Int} {size : Nat} (hb : bound ≤ size + 1) (hs : size < 2 ^ 31)
    (f : Decoded → Traced SmcError Access α)
    (hf : ∀ d, DecodesTo r r.request offset pos d → 0 ≤ toInt (r.metaData pos).len →
      toInt (r.metaData pos).len < bound → (SafeAfter (Inside r) owed (f d) ↔ next)) :
    SafeAfter (Inside r) owed (takeCopy r bound size offset pos >>= f) ↔
      CopyOk r bound offset pos next := by
  unfold takeCopy CopyOk
  simp only [bind_assoc, pure_bind]
  apply safeAfter_available
  intro d hd
  rw [safeAfter_require, hd.outLen_eq]
  refine imp_congr_right fun hlt => ?_
  rw [safeAfter_touch, List.forall_mem_cons, List.forall_mem_singleton, hd.access_iff,
    inside_own_iff hb hs hlt]
  constructor
  · rintro ⟨⟨hr, h0⟩, hrest⟩
    have howed : owed ∧ ArrayInside r r.request offset pos ↔ owed :=
      ⟨fun h => h.1, fun h => ⟨h, hr.1⟩⟩
    rw [safeAfter_congr howed] at hrest
    exact ⟨h0, hr, (hf d hd h0 hlt).1 hrest⟩
  · rintro ⟨h0, hr, hn⟩
    have howed : owed ∧ ArrayInside r r.request offset pos ↔ owed :=
      ⟨fun h => h.1, fun h => ⟨h, hr.1⟩⟩
    rw [safeAfter_congr howed]
    exact ⟨⟨hr, h0⟩, (hf d hd h0 hlt).2 hn⟩

theorem safeAfter_takeWord (f : Decoded → Traced SmcError Access α)
    (hf : ∀ d, DecodesTo r r.request offset pos d →
      (SafeAfter (Inside r) (owed ∧ ArrayInside r r.request offset pos) (f d) ↔ next)) :
    SafeAfter (Inside r) owed (takeWord r offset pos >>= f) ↔ TakeWordOk r offset pos next := by
  unfold takeWord TakeWordOk
  simp only [bind_assoc, pure_bind]
  apply safeAfter_available
  intro d hd
  rw [safeAfter_touch, List.forall_mem_singleton, hd.access_iff, hf d hd]

/-- the output of the TEE crypto API fits the buffer it is given -/
def OutputFits (r : ServiceRequest) : Prop := ∀ n, r.computed = some n → n ≤ cryptBufLen

theorem toUint_of_nonneg {x : Int} {n : Nat} (h0 : 0 ≤ x) (hx : x ≤ n) (hn : n < 2 ^ 32) :
    toUint x = x.toNat := by
  unfold toUint
  rw [Int.emod_eq_of_lt h0 (by omega)]

theorem inside_own_of_le {n : Nat} (h : n ≤ cryptBufLen) : Inside r ⟨.own cryptBufLen, 0, n⟩ :=
  Or.inr (by show 0 + n ≤ cryptBufLen; omega)

theorem resultLen_range (hfit : OutputFits r) {w : UInt32} (h0 : 0 ≤ toInt w)
    (hlt : toInt w < cryptBufLen) : 0 ≤ resultLen r w ∧ resultLen r w ≤ cryptBufLen := by
  unfold resultLen
  cases hc : r.computed with
  | none => exact ⟨h0, hlt.le⟩
  | some n =>
    have hn := hfit n hc
    exact ⟨Int.natCast_nonneg n, Int.ofNat_le.mpr hn⟩

theorem safeAfter_compute (hfit : OutputFits r) {d : Decoded} (h0 : 0 ≤ toInt d.outLen)
    (hlt : toInt d.outLen < cryptBufLen) (f : Int → Traced SmcError Access α) :
    SafeAfter (Inside r) owed (compute r d >>= f) ↔
      SafeAfter (Inside r) owed (f (resultLen r d.outLen)) := by
  have hd : Inside r ⟨.own cryptBufLen, 0, d.outLen.toNat⟩ := by
    apply inside_own_of_le
    have he := toInt_eq d.outLen h0
    omega
  unfold compute resultLen
  cases hc : r.computed with
  | none =>
    simp only [bind_assoc, pure_bind]
    rw [safeAfter_touch, safeAfter_touch, List.forall_mem_singleton]
    exact ⟨fun h => h.2.2, fun h => ⟨hd, hd, h⟩⟩
  | some n =>
    simp only [bind_assoc, pure_bind]
    rw [safeAfter_touch, safeAfter_touch, List.forall_mem_singleton, List.forall_mem_singleton]
    exact ⟨fun h => h.2.2, fun h => ⟨hd, inside_own_of_le (hfit n hc), h⟩⟩

theorem safeAfter_computeHmac (hfit : OutputFits r) {d : Decoded} (h0 : 0 ≤ toInt d.outLen)
    (hlt : toInt d.outLen < cryptBufLen) (f : Int → Traced SmcError Access α) :
    SafeAfter (Inside r) owed (computeHmac r d >>= f) ↔
      SafeAfter (Inside r) owed (f (hmacLen r d.outLen)) := by
  have hd : Inside r ⟨.own cryptBufLen, 0, d.outLen.toNat⟩ := by
    apply inside_own_of_le
    have he := toInt_eq d.outLen h0
    omega
  obtain ⟨hr0, hr1⟩ := resultLen_range hfit h0 hlt
  have hres : Inside r ⟨.own cryptBufLen, 0, toUint (resultLen r d.outLen)⟩ := by
    apply inside_own_of_le
    rw [toUint_of_nonneg hr0 hr1 (by decide)]
    omega
  unfold computeHmac hmacLen
  simp only [bind_assoc]
  rw [safeAfter_compute hfit h0 hlt, safeAfter_touch, List.forall_mem_singleton]
  by_cases hm : r.macEqual = true
  · simp only [hm, if_true, pure_bind]
    exact ⟨fun h => h.2, fun h => ⟨hres, h⟩⟩
  · simp only [hm, Bool.false_eq_true, if_false, bind_assoc, pure_bind]
    rw [safeAfter_touch, List.forall_mem_singleton]
    exact ⟨fun h => h.2.2, fun h => ⟨hres, hd, h⟩⟩

theorem hmacLen_range (hfit : OutputFits r) {w : UInt32} (h0 : 0 ≤ toInt w)
    (hlt : toInt w < cryptBufLen) : 0 ≤ hmacLen r w ∧ hmacLen r w ≤ cryptBufLen := by
  unfold hmacLen
  split
  · exact resultLen_range hfit h0 hlt
  · exact ⟨h0, hlt.le⟩

theorem safeAfter_updateResponseLen (hpos : pos ≤ otzMaxReqParams + otzMaxResParams)
    (f : Unit → Traced SmcError Access α) :
    SafeAfter (Inside r) owed (updateResponseLen pos >>= f) ↔
      SafeAfter (Inside r) owed (f ()) := by
  unfold updateResponseLen
  rw [bind_assoc, safeAfter_require, safeAfter_touch, List.forall_mem_singleton]
  have hin : Inside r ⟨.metaTable, pos - 1, 1⟩ := by
    refine Or.inr ?_
    show pos - 1 + 1 ≤ otzMaxReqParams + otzMaxResParams
    have h16 : otzMaxReqParams + otzMaxResParams = 16 := rfl
    omega
  exact ⟨fun h => (h hpos).2, fun h _ => ⟨hin, h⟩⟩

theorem safeAfter_respond {len : Int} (h0 : 0 ≤ len) (hle : len ≤ cryptBufLen) :
    SafeAfter (Inside r) owed (respond r len) ↔ RespondOk r owed len := by
  unfold respond RespondOk
  apply safeAfter_available
  intro d hd
  rw [safeAfter_require, hd.outLen_eq]
  refine imp_congr_right fun hlen => ?_
  have hcount : toUint len = len.toNat := toUint_of_nonneg h0 hle (by decide)
  have hown : Inside r ⟨.own cryptBufLen, 0, toUint len⟩ := by
    apply inside_own_of_le
    rw [hcount]
    omega
  have hslot : Inside r ⟨.slot (r.metaData otzMaxReqParams).len.toNat, 0, toUint len⟩ := by
    refine Or.inr ?_
    show 0 + toUint len ≤ (r.metaData otzMaxReqParams).len.toNat
    have he := toInt_eq _ (h0.trans hlen)
    omega
  rw [safeAfter_touch, List.forall_mem_cons, List.forall_mem_singleton, hd.access_iff,
    safeAfter_take, List.forall_mem_singleton, hd.pos_eq,
    safeAfter_updateResponseLen (by decide)]
  apply (and_congr_right fun _ => safeAfter_ret len).trans
  exact ⟨fun h => ⟨h.1.2, h.2.1.2, h.2.1.1⟩, fun h => ⟨⟨hown, h.1⟩, ⟨⟨h.2.2, h.2.1⟩, hslot⟩⟩⟩

/-! ## The handlers -/

theorem cryptBufLen_range : (0 : Int) ≤ (cryptBufLen : Int) ∧ (cryptBufLen : Int) ≤ cryptBufLen :=
  ⟨by decide, le_refl _⟩

theorem digest_safe_iff (hfit : OutputFits r) (svcCmdId : UInt32) :
    Safe (Inside r) (processOtzCryptoDigestCmd r svcCmdId) ↔ DigestOk r svcCmdId := by
  unfold Safe processOtzCryptoDigestCmd DigestOk
  rw [safeAfter_require]
  refine imp_congr_right fun _ => ?_
  apply safeAfter_takeCopy (by decide) (by decide)
  intro d hd h0 hlt
  rw [← hd.outLen_eq] at h0 hlt ⊢
  by_cases hc : svcCmdId ∈ digestCmds
  · rw [if_pos hc, if_pos hc, safeAfter_compute hfit h0 hlt]
    obtain ⟨hr0, hr1⟩ := resultLen_range hfit h0 hlt
    exact safeAfter_respond hr0 hr1
  · rw [if_neg hc, if_neg hc, pure_bind]
    exact safeAfter_respond cryptBufLen_range.1 cryptBufLen_range.2

theorem hmac_safe_iff (hfit : OutputFits r) (svcCmdId : UInt32) :
    Safe (Inside r) (processOtzCryptoHmacCmd r svcCmdId) ↔ HmacOk r svcCmdId := by
  unfold Safe processOtzCryptoHmacCmd HmacOk
  rw [safeAfter_require]
  refine imp_congr_right fun _ => ?_
  apply safeAfter_takeCopy (by decide) (by decide)
  intro key hkey _ _
  rw [hkey.offset_eq, hkey.pos_eq]
  apply safeAfter_takeCopy (by decide) (by decide)
  intro d hd h0 hlt
  rw [← hd.outLen_eq] at h0 hlt ⊢
  by_cases hc : svcCmdId ∈ hmacCmds
  · rw [if_pos hc, if_pos hc, safeAfter_computeHmac hfit h0 hlt]
    obtain ⟨hr0, hr1⟩ := hmacLen_range hfit h0 hlt
    exact safeAfter_respond hr0 hr1
  · rw [if_neg hc, if_neg hc, pure_bind]
    exact safeAfter_respond cryptBufLen_range.1 cryptBufLen_range.2

theorem cipherRest_safe_iff (hfit : OutputFits r) (svcCmdId : UInt32) :
    SafeAfter (Inside r) owed (cipherRest r svcCmdId offset pos) ↔
      CipherRestOk r owed svcCmdId offset pos := by
  unfold cipherRest CipherRestOk
  apply safeAfter_takeCopy (by decide) (by decide)
  intro key hkey _ _
  rw [hkey.offset_eq, hkey.pos_eq]
  apply safeAfter_takeCopy (by decide) (by decide)
  intro d hd h0 hlt
  rw [← hd.outLen_eq] at h0 hlt ⊢
  by_cases hc : svcCmdId ∈ cipherCmds
  · rw [if_pos hc, if_pos hc, safeAfter_compute hfit h0 hlt]
    obtain ⟨hr0, hr1⟩ := resultLen_range hfit h0 hlt
    exact safeAfter_respond hr0 hr1
  · rw [if_neg hc, if_neg hc, pure_bind]
    exact safeAfter_respond cryptBufLen_range.1 cryptBufLen_range.2

theorem cipher_safe_iff (hfit : OutputFits r) (svcCmdId : UInt32) :
    Safe (Inside r) (processOtzCryptoCipherCmd r svcCmdId) ↔ CipherOk r svcCmdId := by
  unfold Safe processOtzCryptoCipherCmd CipherOk
  rw [safeAfter_require]
  refine imp_congr_right fun _ => ?_
  apply safeAfter_takeWord
  intro choice hchoice
  rw [hchoice.offset_eq, hchoice.pos_eq]
  apply safeAfter_takeWord
  intro present hpresent
  rw [hpresent.offset_eq, hpresent.pos_eq, hpresent.word_eq]
  have howed : (True ∧ ArrayInside r r.request 0 0) ∧
      ArrayInside r r.request (nextOffset r 0 0) (0 + 1) ↔
      ArrayInside r r.request 0 0 ∧ ArrayInside r r.request (nextOffset r 0 0) 1 :=
    ⟨fun h => ⟨h.1.2, h.2⟩, fun h => ⟨⟨trivial, h.1⟩, h.2⟩⟩
  rw [safeAfter_congr howed]
  simp only
  by_cases hw : wordBehind r r.request (nextOffset r 0 0) (0 + 1) = 1
  · rw [if_pos hw, if_pos hw]
    apply safeAfter_takeCopy (by decide) (by decide)
    intro iv hiv _ _
    rw [hiv.offset_eq, hiv.pos_eq]
    exact cipherRest_safe_iff hfit svcCmdId
  · rw [if_neg hw, if_neg hw]
    exact cipherRest_safe_iff hfit svcCmdId

end

end SierraTee
