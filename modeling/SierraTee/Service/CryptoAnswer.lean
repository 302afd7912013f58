import SierraTee.Service.Crypto
import SierraTee.Service.CryptoTests

/-!
# What the crypto service answers (`crypto_task.c`)

The handlers of the crypto service again, with the bytes of their parameters and the chains of
calls on them.

* `crypto_answers_iff`  the requests that are answered with what the calls compute.
-/

namespace SierraTee
open Word Traced

/-- how a handler ends without a response -/
inductive Stop where
  | smc (e : SmcError)
  /-- a copy of a negative length, or a pointer that was never set -/
  | undefined

/-- a request and what it meets -/
structure CryptoRequest (o : OpensslOutputs) extends ServiceRequest where
  /-- the memory behind references -/
  byteAt : UInt32 → UInt8
  mem : ApiMemory o
  /-- for `compare_hmac_values` -/
  mem2 : ApiMemory o
  /-- the uncleared `response` of a new buffer -/
  oldResponse : Nat → UInt8

/-- `ret_val`, and what was written to the response parameter -/
structure CmdAnswer where
  result : Except Stop Unit
  response : Option (List UInt8)

structure Piece (α : Type) where
  offset : Int
  pos : Nat
  value : α

/-- what the handlers do with the result of a chain of calls: the plaintext takes the place of the
output where one fails -/
def ApiOutcome.orData (data : List UInt8) : ApiOutcome → Except Stop (List UInt8)
  | .ok out => .ok out
  | .failed => .ok data
  | .wild => .error .undefined

def ApiOutcome.output : ApiOutcome → Option (List UInt8)
  | .ok out => some out
  | _ => none

def digestAlgorithm (svcCmdId : UInt32) : Option Algorithm :=
  (digestCmds.zip [.md5, .sha1, .sha224, .sha256, .sha384, .sha512]).lookup svcCmdId

def hmacAlgorithm (svcCmdId : UInt32) : Option Algorithm :=
  (hmacCmds.zip [.hmacMd5, .hmacSha1, .hmacSha224, .hmacSha256, .hmacSha384, .hmacSha512]).lookup
    svcCmdId

def cipherAlgorithm (svcCmdId : UInt32) : Option Algorithm :=
  (cipherCmds.zip [.aesCbcNopad, .aesEcbNopad, .aesCtr, .aesXts, .desEcbNopad, .desCbcNopad,
    .des3EcbNopad, .des3CbcNopad]).lookup svcCmdId

section
variable {o : OpensslOutputs} (r : CryptoRequest o)

/-! ## Parameters -/

def Decoded.content (d : Decoded) : List UInt8 :=
  match d.outData with
  | .inRequest offset => readBytes (fun i => r.reqBuf (toUint offset + i)) d.outLen.toNat
  | .mapped addr | .address addr =>
    readBytes (fun i => r.byteAt (addr + UInt32.ofNat i)) d.outLen.toNat

def takeBytes (bound : Int) (size : Nat) (offset : Int) (pos : Nat) :
    Except Stop (Piece (List UInt8)) :=
  match (takeCopy r.toServiceRequest bound size offset pos).result with
  | .error e => .error (.smc e)
  | .ok d => if toInt d.outLen < 0 then .error .undefined else .ok ⟨d.offset, d.pos, d.content r⟩

def takeNumber (offset : Int) (pos : Nat) : Except Stop (Piece UInt32) :=
  match (takeWord r.toServiceRequest offset pos).result with
  | .error e => .error (.smc e)
  | .ok d => .ok ⟨d.offset, d.pos, d.word r.toServiceRequest r.request⟩

def getBuffers : Except Stop Unit := if r.malloc then .ok () else .error (.smc .enomem)

def digestParams : Except Stop (List UInt8) := do
  getBuffers r
  let d ← takeBytes r cryptBufLen cryptBufLen 0 0
  pure d.value

/-- the key and the data -/
def hmacParams : Except Stop (List UInt8 × List UInt8) := do
  getBuffers r
  let key ← takeBytes r (hmacKeyLen + 1) hmacKeyLen 0 0
  let d ← takeBytes r cryptBufLen cryptBufLen key.offset key.pos
  pure (key.value, d.value)

structure CipherParams where
  choice : UInt32
  iv : List UInt8
  key : List UInt8
  data : List UInt8

def cipherKeyData (choice : UInt32) (iv : List UInt8) (offset : Int) (pos : Nat) :
    Except Stop CipherParams := do
  let key ← takeBytes r (cryptBufLen + 1) cryptBufLen offset pos
  let d ← takeBytes r cryptBufLen cryptBufLen key.offset key.pos
  pure ⟨choice, iv, key.value, d.value⟩

def cipherParams : Except Stop CipherParams := do
  getBuffers r
  let choice ← takeNumber r 0 0
  let present ← takeNumber r choice.offset choice.pos
  if present.value = 1 then do
    let iv ← takeBytes r (cryptBufLen + 1) cryptBufLen present.offset present.pos
    cipherKeyData r choice.value iv.value iv.offset iv.pos
  else cipherKeyData r choice.value [] present.offset present.pos

/-! ## The handlers -/

/-- the response is written before `update_response_len` is called -/
def writeResponse (out : List UInt8) : CmdAnswer :=
  match (decodeParam r.toServiceRequest r.response 0 otzMaxReqParams).result with
  | .error e => ⟨.error (.smc e), none⟩
  | .ok d =>
    if ¬ (d.type = otzEncArray ∨ d.type = otzMemRef) then ⟨.error (.smc .einvalArg), none⟩
    else if toInt d.outLen < out.length then ⟨.error (.smc .enomem), none⟩
    else
      match (updateResponseLen d.pos).result with
      | .error e => ⟨.error (.smc e), some out⟩
      | .ok _ => ⟨.ok (), some out⟩

def finish : Except Stop (List UInt8) → CmdAnswer
  | .error e => ⟨.error e, none⟩
  | .ok out => writeResponse r out

def untouched : List UInt8 := readBytes r.oldResponse cryptBufLen

def command {π : Type} (params : Except Stop π) (plain : π → List UInt8)
    (calls : π → Option ApiOutcome) : CmdAnswer :=
  finish r <| params >>= fun p =>
    match calls p with
    | none => .ok (untouched r)
    | some c => c.orData (plain p)

def digestCalls (svcCmdId : UInt32) (data : List UInt8) : Option ApiOutcome :=
  (digestAlgorithm svcCmdId).map fun a => testDigestApi r.mem a data

def CryptoRequest.processOtzCryptoDigestCmd (svcCmdId : UInt32) : CmdAnswer :=
  command r (digestParams r) id (digestCalls r svcCmdId)

def hmacResponse (a : Algorithm) (key data : List UInt8) : Except Stop (List UInt8) := do
  let mac ← (testHmacApi r.mem a key data).orData data
  (compareHmacValues r.mem2 a key data mac).orData data

def CryptoRequest.processOtzCryptoHmacCmd (svcCmdId : UInt32) : CmdAnswer :=
  finish r <| hmacParams r >>= fun p =>
    match hmacAlgorithm svcCmdId with
    | none => .ok (untouched r)
    | some a => hmacResponse r a p.1 p.2

def cipherChain (svcCmdId : UInt32) (p : CipherParams) : Option ApiOutcome :=
  (cipherAlgorithm svcCmdId).map fun a => testCipherApi r.mem a p.key p.data p.choice p.iv

def CryptoRequest.processOtzCryptoCipherCmd (svcCmdId : UInt32) : CmdAnswer :=
  command r (cipherParams r) CipherParams.data (cipherChain r svcCmdId)

/-! ## What is asked of them -/

def hmacOutcome (a : Algorithm) (key data : List UInt8) : ApiOutcome :=
  match testHmacApi r.mem a key data with
  | .ok mac => compareHmacValues r.mem2 a key data mac
  | .failed => if compareHmacValues r.mem2 a key data data = .wild then .wild else .failed
  | .wild => .wild

def hmacCalls (svcCmdId : UInt32) (p : List UInt8 × List UInt8) : Option ApiOutcome :=
  (hmacAlgorithm svcCmdId).map fun a => hmacOutcome r a p.1 p.2

/-- the calls are made on the plaintext, and give the output or fail -/
def Calls {π : Type} (params : Except Stop π) (plain : π → List UInt8)
    (calls : π → Option ApiOutcome) (data : List UInt8) (out : Option (List UInt8)) : Prop :=
  ∃ p c, params = .ok p ∧ plain p = data ∧ calls p = some c ∧ c.output = out

/-- success only with the output of the calls; an error, and not the plaintext in the response, if
one of them fails -/
structure FaithfulAnswer (calls : List UInt8 → Option (List UInt8) → Prop) (a : CmdAnswer) :
    Prop where
  ends : a.result ≠ .error .undefined
  success : a.result = .ok () → ∃ data out, calls data (some out) ∧ a.response = some out
  failure : ∀ data, calls data none →
    (∃ e, a.result = .error (.smc e)) ∧ a.response ≠ some data

/-! ## When they do it -/

def Copyable (bound : Int) (offset : Int) (pos : Nat) : Prop :=
  Available r.toServiceRequest r.request offset pos ∧ toInt (r.metaData pos).len < bound

def bytesBehind (offset : Int) (pos : Nat) : List UInt8 :=
  if (r.metaData pos).type = otzEncArray then
    readBytes (fun i => r.reqBuf (toUint offset + i)) (r.metaData pos).len.toNat
  else if (r.metaData pos).type = otzMemRef then
    readBytes (fun i => r.byteAt ((r.mapToNs (r.request.address offset)).getD 0 + UInt32.ofNat i))
      (r.metaData pos).len.toNat
  else readBytes (fun i => r.byteAt (r.request.address offset + UInt32.ofNat i))
    (r.metaData pos).len.toNat

/-- a parameter that is copied has a length that is not negative, and the rest holds of its bytes -/
def CopiedAnd (bound : Int) (offset : Int) (pos : Nat) (next : List UInt8 → Prop) : Prop :=
  Copyable r bound offset pos → 0 ≤ toInt (r.metaData pos).len ∧ next (bytesBehind r offset pos)

def Refuses (n : Nat) : Prop :=
  ¬ (Available r.toServiceRequest r.response 0 otzMaxReqParams ∧
    (n : Int) ≤ toInt (r.metaData otzMaxReqParams).len)

/-- the requests for a digest that are answered so -/
def DigestFits (svcCmdId : UInt32) : Prop :=
  r.malloc = true → CopiedAnd r cryptBufLen 0 0 fun _ =>
    match digestAlgorithm svcCmdId with
    | none => Refuses r cryptBufLen
    | some a => Allocates r.mem a

def MacAgrees (a : Algorithm) (key data : List UInt8) : Prop :=
  ∃ c c2 mac, r.mem.ctxt = some c ∧ r.mem2.ctxt = some c2 ∧ hmacRun a c key data = some mac ∧
    hmacRun a c2 key data = some mac

/-- those for an HMAC -/
def HmacFits (svcCmdId : UInt32) : Prop :=
  r.malloc = true → CopiedAnd r (hmacKeyLen + 1) 0 0 fun key =>
    CopiedAnd r cryptBufLen (nextOffset r.toServiceRequest 0 0) 1 fun data =>
      match hmacAlgorithm svcCmdId with
      | none => Refuses r cryptBufLen
      | some a => Allocates r.mem a ∧ Allocates r.mem2 a ∧
        (MacAgrees r a key data ∨ Refuses r data.length)

def CipherFitsWith (svcCmdId choice : UInt32) (iv : List UInt8) (offset : Int) (pos : Nat) : Prop :=
  CopiedAnd r (cryptBufLen + 1) offset pos fun key =>
    CopiedAnd r cryptBufLen (nextOffset r.toServiceRequest offset pos) (pos + 1) fun data =>
      match cipherAlgorithm svcCmdId with
      | none => Refuses r cryptBufLen
      | some a => (r.mem.localBuf = true → Allocates r.mem a) ∧
        ((r.mem.localBuf = true ∧ ∃ c, r.mem.ctxt = some c ∧
          CipherRuns r.mem a (modeOf choice) c key data iv) ∨ Refuses r data.length)

/-- those for a cipher -/
def CipherFits (svcCmdId : UInt32) : Prop :=
  let offset1 := nextOffset r.toServiceRequest 0 0
  let offset2 := nextOffset r.toServiceRequest offset1 1
  let choice := wordBehind r.toServiceRequest r.request 0 0
  r.malloc = true → Available r.toServiceRequest r.request 0 0 →
    Available r.toServiceRequest r.request offset1 1 →
    if wordBehind r.toServiceRequest r.request offset1 1 = 1 then
      CopiedAnd r (cryptBufLen + 1) offset2 2 fun iv =>
        CipherFitsWith r svcCmdId choice iv (nextOffset r.toServiceRequest offset2 2) 3
    else CipherFitsWith r svcCmdId choice [] offset2 2

def Post {α : Type} (P : α → Prop) : Except Stop α → Prop
  | .ok a => P a
  | .error (.smc _) => True
  | .error .undefined => False

def CallsFit (data : List UInt8) : Option ApiOutcome → Prop
  | none => Refuses r cryptBufLen
  | some (.ok _) => True
  | some .failed => Refuses r data.length
  | some .wild => False

end

section
variable {o : OpensslOutputs} {r : CryptoRequest o} {offset : Int} {pos : Nat} {α β π : Type}

/-! ## One step after the other -/

theorem post_bind (P : β → Prop) (x : Except Stop α) (f : α → Except Stop β) :
    Post P (x >>= f) ↔ Post (fun a => Post P (f a)) x := by
  cases x with
  | ok a => exact Iff.rfl
  | error e => cases e <;> exact Iff.rfl

theorem post_pure (P : α → Prop) (a : α) : Post P (pure a) ↔ P a := Iff.rfl

theorem post_getBuffers (P : Unit → Prop) : Post P (getBuffers r) ↔ (r.malloc = true → P ()) := by
  unfold getBuffers
  by_cases hm : r.malloc = true
  · rw [if_pos hm]
    exact ⟨fun h _ => h, fun h => h hm⟩
  · rw [if_neg hm]
    exact ⟨fun _ h => absurd h hm, fun _ => trivial⟩

theorem type_of_not_available {q : ServiceRequest} {b : ParamArea} {d : Decoded}
    (ha : ¬ Available q b offset pos) (hd : (decodeParam q b offset pos).result = .ok d) :
    ¬ (d.type = otzEncArray ∨ d.type = otzMemRef) := by
  obtain ⟨h1, -⟩ := not_available ha hd
  rw [decodeParam_uint32 h1] at hd
  cases hd
  show ¬ (otzEncUint32 = otzEncArray ∨ otzEncUint32 = otzMemRef)
  decide

theorem available_cases (q : ServiceRequest) (b : ParamArea)
    (f : Decoded → Traced SmcError Access α) :
    (∃ d, Available q b offset pos ∧ DecodesTo q b offset pos d ∧
        (decodeParam q b offset pos >>= fun d =>
          require (d.type = otzEncArray ∨ d.type = otzMemRef) .einvalArg >>= fun _ => f d).result
          = (f d).result) ∨
      (¬ Available q b offset pos ∧
        ∃ e, (decodeParam q b offset pos >>= fun d =>
          require (d.type = otzEncArray ∨ d.type = otzMemRef) .einvalArg >>= fun _ => f d).result
          = .error e) := by
  by_cases ha : Available q b offset pos
  · obtain ⟨d, hd⟩ := ha.decodesTo
    refine Or.inl ⟨d, ha, hd, ?_⟩
    rw [result_bind, hd.result]
    show (require (d.type = otzEncArray ∨ d.type = otzMemRef) _ >>= _).result = _
    rw [result_bind, result_require, if_pos hd.type_ok]
    rfl
  · refine Or.inr ⟨ha, ?_⟩
    rw [result_bind]
    cases hd : (decodeParam q b offset pos).result with
    | error e => exact ⟨e, rfl⟩
    | ok d =>
      refine ⟨.einvalArg, ?_⟩
      show (require (d.type = otzEncArray ∨ d.type = otzMemRef) _ >>= _).result = _
      rw [result_bind, result_require, if_neg (type_of_not_available ha hd)]
      rfl

theorem takeCopy_cases (bound : Int) (size : Nat) :
    (∃ d, DecodesTo r.toServiceRequest r.request offset pos d ∧ Copyable r bound offset pos ∧
        (takeCopy r.toServiceRequest bound size offset pos).result = .ok d) ∨
      (¬ Copyable r bound offset pos ∧
        ∃ e, (takeCopy r.toServiceRequest bound size offset pos).result = .error e) := by
  unfold takeCopy
  obtain ⟨d, ha, hd, hres⟩ | ⟨ha, e, hres⟩ := available_cases r.toServiceRequest r.request _
  · rw [hres, result_bind, result_require, hd.outLen_eq]
    by_cases hb : toInt (r.metaData pos).len < bound
    · rw [if_pos hb]
      exact Or.inl ⟨d, hd, ⟨ha, hb⟩, rfl⟩
    · rw [if_neg hb]
      exact Or.inr ⟨fun h => hb h.2, .enomem, rfl⟩
  · exact Or.inr ⟨fun h => ha h.1, e, hres⟩

theorem DecodesTo.content_eq {d : Decoded}
    (hd : DecodesTo r.toServiceRequest r.request offset pos d)
    (ha : Available r.toServiceRequest r.request offset pos) :
    d.content r = bytesBehind r offset pos := by
  have hres := hd.result
  unfold bytesBehind
  obtain h2 | ⟨h3, hm⟩ | h4 := ha
  · rw [decodeParam_array h2] at hres
    cases hres
    rw [if_pos h2]
    rfl
  · obtain ⟨addr, ha⟩ := Option.isSome_iff_exists.mp hm
    rw [decodeParam_memRef h3 ha] at hres
    cases hres
    rw [if_neg (by rw [h3]; decide), if_pos h3, ha]
    rfl
  · rw [decodeParam_secure h4] at hres
    cases hres
    rw [if_neg (by rw [h4]; decide), if_neg (by rw [h4]; decide)]
    rfl

theorem post_takeBytes (P : Piece (List UInt8) → Prop) (bound : Int) (size : Nat) :
    Post P (takeBytes r bound size offset pos) ↔ CopiedAnd r bound offset pos fun x =>
      P ⟨nextOffset r.toServiceRequest offset pos, pos + 1, x⟩ := by
  unfold takeBytes CopiedAnd
  obtain ⟨d, hd, hcopy, hres⟩ | ⟨hcopy, e, hres⟩ := takeCopy_cases (r := r) bound size
  · rw [hres]
    dsimp only
    rw [hd.outLen_eq, hd.offset_eq, hd.pos_eq, hd.content_eq hcopy.1]
    by_cases hneg : toInt (r.metaData pos).len < 0
    · rw [if_pos hneg]
      exact ⟨fun h => h.elim, fun h => absurd (h hcopy).1 (by omega)⟩
    · rw [if_neg hneg]
      exact ⟨fun h _ => ⟨by omega, h⟩, fun h => (h hcopy).2⟩
  · rw [hres]
    exact ⟨fun _ h => absurd h hcopy, fun _ => trivial⟩

theorem post_takeNumber (P : Piece UInt32 → Prop) :
    Post P (takeNumber r offset pos) ↔ (Available r.toServiceRequest r.request offset pos →
      P ⟨nextOffset r.toServiceRequest offset pos, pos + 1,
        wordBehind r.toServiceRequest r.request offset pos⟩) := by
  unfold takeNumber takeWord
  obtain ⟨d, ha, hd, hres⟩ | ⟨ha, e, hres⟩ := available_cases r.toServiceRequest r.request _
  · rw [hres]
    show P ⟨d.offset, d.pos, d.word r.toServiceRequest r.request⟩ ↔ _
    rw [hd.offset_eq, hd.pos_eq, hd.word_eq]
    exact ⟨fun h _ => h, fun h => h ha⟩
  · rw [hres]
    exact ⟨fun _ h => absurd h ha, fun _ => trivial⟩

theorem writeResponse_cases (out : List UInt8) :
    (¬ Refuses r out.length ∧ writeResponse r out = ⟨.ok (), some out⟩) ∨
      (Refuses r out.length ∧ ∃ e, writeResponse r out = ⟨.error (.smc e), none⟩) := by
  unfold writeResponse Refuses
  by_cases ha : Available r.toServiceRequest r.response 0 otzMaxReqParams
  · obtain ⟨d, hd⟩ := ha.decodesTo
    rw [hd.result]
    dsimp only
    rw [if_neg (not_not.mpr hd.type_ok), hd.outLen_eq, hd.pos_eq]
    by_cases hlen : toInt (r.metaData otzMaxReqParams).len < out.length
    · rw [if_pos hlen]
      exact Or.inr ⟨fun h => absurd h.2 (by omega), .enomem, rfl⟩
    · rw [if_neg hlen]
      exact Or.inl ⟨fun h => h ⟨ha, by omega⟩, rfl⟩
  · refine Or.inr ⟨fun h => ha h.1, ?_⟩
    cases hd : (decodeParam r.toServiceRequest r.response 0 otzMaxReqParams).result with
    | error e => exact ⟨e, rfl⟩
    | ok d =>
      dsimp only
      rw [if_pos (type_of_not_available ha hd)]
      exact ⟨.einvalArg, rfl⟩

/-! ## A handler -/

theorem faithful_error {calls : List UInt8 → Option (List UInt8) → Prop} {e : SmcError} :
    FaithfulAnswer calls ⟨.error (.smc e), none⟩ :=
  ⟨fun h => (by cases h), fun h => (by cases h), fun _ _ => ⟨⟨e, rfl⟩, fun h => (by cases h)⟩⟩

theorem untouched_length : (untouched r).length = cryptBufLen := by
  simp [untouched, readBytes]

theorem faithful_command_iff (params : Except Stop π) (plain : π → List UInt8)
    (calls : π → Option ApiOutcome) :
    FaithfulAnswer (Calls params plain calls) (command r params plain calls) ↔
      Post (fun p => CallsFit r (plain p) (calls p)) params := by
  unfold command
  cases params with
  | error e =>
    cases e with
    | smc e => exact ⟨fun _ => trivial, fun _ => faithful_error⟩
    | undefined => exact ⟨fun h => absurd rfl h.ends, fun h => h.elim⟩
  | ok p =>
    show FaithfulAnswer _ (finish r (match calls p with
      | none => .ok (untouched r)
      | some c => c.orData (plain p))) ↔ CallsFit r (plain p) (calls p)
    cases hc : calls p with
    | none =>
      show FaithfulAnswer _ (writeResponse r (untouched r)) ↔ Refuses r cryptBufLen
      obtain ⟨h1, h2⟩ | ⟨h1, e, h2⟩ := writeResponse_cases (r := r) (untouched r)
      · rw [untouched_length] at h1
        rw [h2]
        refine ⟨fun h => ?_, fun h => absurd h h1⟩
        obtain ⟨data, out, ⟨p', c, hp, -, hc', -⟩, -⟩ := h.success rfl
        cases hp
        rw [hc] at hc'
        cases hc'
      · rw [untouched_length] at h1
        rw [h2]
        exact ⟨fun _ => h1, fun _ => faithful_error⟩
    | some c =>
      cases c with
      | ok out =>
        refine ⟨fun _ => trivial, fun _ => ?_⟩
        show FaithfulAnswer _ (writeResponse r out)
        obtain ⟨-, h2⟩ | ⟨-, e, h2⟩ := writeResponse_cases (r := r) out
        · rw [h2]
          refine ⟨fun h => (by cases h), fun _ => ⟨plain p, out, ⟨p, _, rfl, rfl, hc, rfl⟩, rfl⟩, ?_⟩
          rintro data ⟨p', c, hp, -, hc', hout⟩
          cases hp
          cases hc.symm.trans hc'
          cases hout
        · rw [h2]
          exact faithful_error
      | failed =>
        show FaithfulAnswer _ (writeResponse r (plain p)) ↔ Refuses r (plain p).length
        obtain ⟨h1, h2⟩ | ⟨h1, e, h2⟩ := writeResponse_cases (r := r) (plain p)
        · rw [h2]
          refine ⟨fun h => ?_, fun h => absurd h h1⟩
          exact absurd rfl (h.failure (plain p) ⟨p, _, rfl, rfl, hc, rfl⟩).2
        · rw [h2]
          exact ⟨fun _ => h1, fun _ => faithful_error⟩
      | wild => exact ⟨fun h => absurd rfl h.ends, fun h => h.elim⟩

theorem mem_of_lookup_zip {ids : List UInt32} {as : List Algorithm} {i : UInt32} {a : Algorithm}
    (h : (ids.zip as).lookup i = some a) : a ∈ as := by
  obtain ⟨l1, l2, hl, -⟩ := List.lookup_eq_some_iff.mp h
  have hmem : (i, a) ∈ ids.zip as := by
    rw [hl]
    exact List.mem_append_right _ List.mem_cons_self
  exact (List.of_mem_zip hmem).2

theorem digestAlgorithm_isDigest {svcCmdId : UInt32} {a : Algorithm}
    (h : digestAlgorithm svcCmdId = some a) : a.isDigest = true :=
  List.elem_eq_true_of_mem (mem_of_lookup_zip h)

theorem hmacAlgorithm_isHmac {svcCmdId : UInt32} {a : Algorithm}
    (h : hmacAlgorithm svcCmdId = some a) : a.isHmac = true :=
  List.elem_eq_true_of_mem (mem_of_lookup_zip h)

theorem cipherAlgorithm_isEvp {svcCmdId : UInt32} {a : Algorithm}
    (h : cipherAlgorithm svcCmdId = some a) : a.isEvp = true := by
  have hall : ∀ a ∈ [Algorithm.aesCbcNopad, .aesEcbNopad, .aesCtr, .aesXts, .desEcbNopad,
      .desCbcNopad, .des3EcbNopad, .des3CbcNopad], a.isEvp = true := by decide
  exact hall a (mem_of_lookup_zip h)

theorem copiedAnd_congr {bound : Int} {P Q : List UInt8 → Prop} (h : ∀ x, P x ↔ Q x) :
    CopiedAnd r bound offset pos P ↔ CopiedAnd r bound offset pos Q :=
  imp_congr_right fun _ => and_congr_right fun _ => h _

/-! ## Digests -/

theorem digest_faithful_iff (svcCmdId : UInt32) :
    FaithfulAnswer (Calls (digestParams r) id (digestCalls r svcCmdId))
      (r.processOtzCryptoDigestCmd svcCmdId) ↔ DigestFits r svcCmdId := by
  unfold CryptoRequest.processOtzCryptoDigestCmd DigestFits
  rw [faithful_command_iff, digestParams, post_bind, post_getBuffers]
  refine imp_congr_right fun _ => ?_
  rw [post_bind, post_takeBytes]
  refine copiedAnd_congr fun data => ?_
  rw [post_pure]
  unfold digestCalls
  cases ha : digestAlgorithm svcCmdId with
  | none => exact Iff.rfl
  | some a =>
    rw [Option.map_some]
    obtain ⟨h1, out, h2⟩ | ⟨h1, h2⟩ :=
      testDigestApi_cases r.mem (digestAlgorithm_isDigest ha) data
    · rw [id, h2]
      exact ⟨fun _ => h1, fun _ => trivial⟩
    · rw [id, h2]
      exact ⟨fun h => h.elim, fun h => absurd h h1⟩

/-! ## MACs -/

theorem hmacResponse_eq (a : Algorithm) (key data : List UInt8) :
    hmacResponse r a key data = (hmacOutcome r a key data).orData data := by
  unfold hmacResponse hmacOutcome
  cases testHmacApi r.mem a key data with
  | ok mac => rfl
  | failed =>
    show (compareHmacValues r.mem2 a key data data).orData data = _
    cases hc : compareHmacValues r.mem2 a key data data with
    | ok mac =>
      rw [compareHmacValues_ok r.mem2 hc]
      rfl
    | failed => rfl
    | wild => rfl
  | wild => rfl

theorem hmac_eq_command (svcCmdId : UInt32) : r.processOtzCryptoHmacCmd svcCmdId
    = command r (hmacParams r) Prod.snd (hmacCalls r svcCmdId) := by
  unfold CryptoRequest.processOtzCryptoHmacCmd command
  congr 2
  funext p
  unfold hmacCalls
  cases hmacAlgorithm svcCmdId with
  | none => rfl
  | some a => exact hmacResponse_eq a p.1 p.2

theorem hmacOutcome_fits (hdoc : o.toOpenssl.Documented) {a : Algorithm} (ha : a.isHmac = true)
    (key data : List UInt8) : CallsFit r data (some (hmacOutcome r a key data)) ↔
      Allocates r.mem a ∧ Allocates r.mem2 a ∧ (MacAgrees r a key data ∨ Refuses r data.length) := by
  unfold hmacOutcome MacAgrees
  obtain ⟨c, h1, h2, h3⟩ | ⟨h1, h3⟩ := testHmacApi_cases r.mem ha key data
  · rw [h3]
    cases hrun : hmacRun a c key data with
    | some mac =>
      dsimp only
      obtain ⟨c2, h4, h5, h6⟩ | ⟨h4, h6⟩ := compareHmacValues_cases r.mem2
        hdoc.mac_nonempty ha key data mac
      · rw [h6]
        by_cases hsame : hmacRun a c2 key data = some mac
        · rw [if_pos hsame]
          exact ⟨fun _ => ⟨h1, h4, Or.inl ⟨c, c2, mac, h2, h5, hrun, hsame⟩⟩, fun _ => trivial⟩
        · rw [if_neg hsame]
          refine ⟨fun h => ⟨h1, h4, Or.inr h⟩, fun h => h.2.2.resolve_left ?_⟩
          rintro ⟨c', c2', mac', hc, hc2, hm, hm2⟩
          cases h2.symm.trans hc
          cases h5.symm.trans hc2
          cases hrun.symm.trans hm
          exact hsame hm2
      · rw [h6]
        exact ⟨fun h => h.elim, fun h => absurd h.2.1 h4⟩
    | none =>
      dsimp only
      have hnone : ¬ MacAgrees r a key data := by
        rintro ⟨c', c2', mac', hc, -, hm, -⟩
        cases h2.symm.trans hc
        rw [hrun] at hm
        cases hm
      obtain ⟨c2, h4, h5, h6⟩ | ⟨h4, h6⟩ := compareHmacValues_cases r.mem2
        hdoc.mac_nonempty ha key data data
      · rw [h6, if_neg (by split <;> simp)]
        exact ⟨fun h => ⟨h1, h4, Or.inr h⟩, fun h => h.2.2.resolve_left hnone⟩
      · rw [h6, if_pos rfl]
        exact ⟨fun h => h.elim, fun h => absurd h.2.1 h4⟩
  · rw [h3]
    exact ⟨fun h => h.elim, fun h => absurd h.1 h1⟩

theorem hmac_faithful_iff (hdoc : o.toOpenssl.Documented) (svcCmdId : UInt32) :
    FaithfulAnswer (Calls (hmacParams r) Prod.snd (hmacCalls r svcCmdId))
      (r.processOtzCryptoHmacCmd svcCmdId) ↔ HmacFits r svcCmdId := by
  unfold HmacFits
  rw [hmac_eq_command, faithful_command_iff, hmacParams, post_bind, post_getBuffers]
  refine imp_congr_right fun _ => ?_
  rw [post_bind, post_takeBytes]
  refine copiedAnd_congr fun key => ?_
  rw [post_bind, post_takeBytes]
  refine copiedAnd_congr fun data => ?_
  rw [post_pure]
  unfold hmacCalls
  cases ha : hmacAlgorithm svcCmdId with
  | none => exact Iff.rfl
  | some a => exact hmacOutcome_fits hdoc (hmacAlgorithm_isHmac ha) key data

/-! ## Ciphers -/

theorem cipherChain_fits (svcCmdId : UInt32) (p : CipherParams) :
    CallsFit r p.data (cipherChain r svcCmdId p) ↔
      match cipherAlgorithm svcCmdId with
      | none => Refuses r cryptBufLen
      | some a => (r.mem.localBuf = true → Allocates r.mem a) ∧
        ((r.mem.localBuf = true ∧ ∃ c, r.mem.ctxt = some c ∧
          CipherRuns r.mem a (modeOf p.choice) c p.key p.data p.iv) ∨ Refuses r p.data.length) := by
  unfold cipherChain
  cases ha : cipherAlgorithm svcCmdId with
  | none => exact Iff.rfl
  | some a =>
    rw [Option.map_some]
    dsimp only
    obtain ⟨h1, h2⟩ | ⟨c, h1, h2, h3, h4⟩ | ⟨h1, h2, h3⟩ := testCipherApi_cases r.mem
      (cipherAlgorithm_isEvp ha) p.key p.data p.choice p.iv
    · rw [h2, h1]
      refine ⟨fun h => ⟨fun h3 => (by cases h3), Or.inr h⟩, fun h => h.2.resolve_left fun h3 => ?_⟩
      exact absurd h3.1 (by decide)
    · obtain ⟨h4, h5⟩ | ⟨h4, h5⟩ := h4
      · rw [h5]
        exact ⟨fun _ => ⟨fun _ => h2, Or.inl ⟨h1, c, h3, h4⟩⟩, fun _ => trivial⟩
      · rw [h5]
        refine ⟨fun h => ⟨fun _ => h2, Or.inr h⟩, fun h => h.2.resolve_left ?_⟩
        rintro ⟨-, c', hc, hr⟩
        cases h3.symm.trans hc
        exact h4 hr
    · rw [h3]
      exact ⟨fun h => h.elim, fun h => absurd (h.1 h1) h2⟩

theorem cipherKeyData_fits (svcCmdId choice : UInt32) (iv : List UInt8) :
    Post (fun p => CallsFit r p.data (cipherChain r svcCmdId p))
      (cipherKeyData r choice iv offset pos) ↔ CipherFitsWith r svcCmdId choice iv offset pos := by
  unfold cipherKeyData CipherFitsWith
  rw [post_bind, post_takeBytes]
  refine copiedAnd_congr fun key => ?_
  rw [post_bind, post_takeBytes]
  refine copiedAnd_congr fun data => ?_
  rw [post_pure]
  exact cipherChain_fits svcCmdId ⟨choice, iv, key, data⟩

theorem cipher_faithful_iff (svcCmdId : UInt32) :
    FaithfulAnswer (Calls (cipherParams r) CipherParams.data (cipherChain r svcCmdId))
      (r.processOtzCryptoCipherCmd svcCmdId) ↔ CipherFits r svcCmdId := by
  unfold CryptoRequest.processOtzCryptoCipherCmd CipherFits
  rw [faithful_command_iff, cipherParams, post_bind, post_getBuffers]
  refine imp_congr_right fun _ => ?_
  rw [post_bind, post_takeNumber]
  refine imp_congr_right fun _ => ?_
  rw [post_bind, post_takeNumber]
  refine imp_congr_right fun _ => ?_
  by_cases hw : wordBehind r.toServiceRequest r.request (nextOffset r.toServiceRequest 0 0) 1 = 1
  · dsimp only
    rw [if_pos hw, if_pos hw, post_bind, post_takeBytes]
    exact copiedAnd_congr fun iv => cipherKeyData_fits ..
  · dsimp only
    rw [if_neg hw, if_neg hw]
    exact cipherKeyData_fits ..

/-! ## All of them -/

/-- a handler answers with what the calls compute exactly if the request fits -/
theorem crypto_answers_iff (hdoc : o.toOpenssl.Documented) (r : CryptoRequest o)
    (svcCmdId : UInt32) :
    (FaithfulAnswer (Calls (digestParams r) id (digestCalls r svcCmdId))
      (r.processOtzCryptoDigestCmd svcCmdId) ↔ DigestFits r svcCmdId) ∧
    (FaithfulAnswer (Calls (hmacParams r) Prod.snd (hmacCalls r svcCmdId))
      (r.processOtzCryptoHmacCmd svcCmdId) ↔ HmacFits r svcCmdId) ∧
    (FaithfulAnswer (Calls (cipherParams r) CipherParams.data (cipherChain r svcCmdId))
      (r.processOtzCryptoCipherCmd svcCmdId) ↔ CipherFits r svcCmdId) :=
  ⟨digest_faithful_iff svcCmdId, hmac_faithful_iff hdoc svcCmdId, cipher_faithful_iff svcCmdId⟩

end

/-! ## A block of AES and keys of two lengths -/

theorem ecbOpenssl_documented : ecbOpenssl.toOpenssl.Documented where
  mac_nonempty := by
    intro c tag h
    cases h
    simp
  rsaVerify_range := fun _ _ _ _ => Or.inr (Or.inl rfl)
  dsaVerify_range := fun _ _ _ => Or.inr (Or.inl rfl)

/-- the request to encrypt the known block without an initialisation vector, as four arrays -/
def blockRequest (key : List UInt8) : CryptoRequest ecbOpenssl where
  reqBufLen := 64
  resBufLen := 64
  reqBuf := pointTo ([2, 0, 0, 0] ++ [0, 0, 0, 0] ++ key ++ knownPlain)
  resBuf := fun _ => 0
  metaData := fun pos =>
    if pos ≤ 1 then ⟨otzEncArray, 4, 0⟩
    else if pos = 2 then ⟨otzEncArray, UInt32.ofNat key.length, 0⟩
    else ⟨otzEncArray, 16, 0⟩
  mapToNs := fun _ => none
  wordAt := fun _ => 0
  malloc := true
  oldLen := 0
  oldData := fun _ => 0
  printBuffer := fun _ => 0
  computed := some 16
  macEqual := true
  byteAt := fun _ => 0
  mem := ⟨some ⟨.aesEcbNopad, .other, .encrypt, 0, 0, none, ([] : List UInt8), none, none, 0, 0⟩,
    some ([] : List UInt8), true, true, true⟩
  mem2 := ⟨none, none, true, true, true⟩
  oldResponse := fun _ => 0

/-- with a key of 16 bytes the block is encrypted -/
example : ((blockRequest knownKey).processOtzCryptoCipherCmd 18).response = some knownCipher := by
  decide +kernel

theorem crypto_answers_iff_block :
    FaithfulAnswer (Calls (cipherParams (blockRequest knownKey)) CipherParams.data
        (cipherChain (blockRequest knownKey) 18))
      ((blockRequest knownKey).processOtzCryptoCipherCmd 18) ↔
      CipherFits (blockRequest knownKey) 18 :=
  (crypto_answers_iff ecbOpenssl_documented (blockRequest knownKey) 18).2.2

/-- with a key of 5 bytes the block comes back as it is, with success -/
theorem cipher_returns_plaintext :
    ((blockRequest [1, 2, 3, 4, 5]).processOtzCryptoCipherCmd 18).result = .ok () ∧
    ((blockRequest [1, 2, 3, 4, 5]).processOtzCryptoCipherCmd 18).response = some knownPlain ∧
    ¬ FaithfulAnswer (Calls (cipherParams (blockRequest [1, 2, 3, 4, 5])) CipherParams.data
        (cipherChain (blockRequest [1, 2, 3, 4, 5]) 18))
      ((blockRequest [1, 2, 3, 4, 5]).processOtzCryptoCipherCmd 18) := by
  have hresponse : ((blockRequest [1, 2, 3, 4, 5]).processOtzCryptoCipherCmd 18).response
      = some knownPlain := by decide +kernel
  refine ⟨rfl, hresponse, fun h => (h.failure knownPlain ?_).2 hresponse⟩
  refine ⟨⟨2, [], [1, 2, 3, 4, 5], knownPlain⟩, .failed, ?_, rfl, ?_, rfl⟩
  · rfl
  · decide +kernel

end SierraTee
