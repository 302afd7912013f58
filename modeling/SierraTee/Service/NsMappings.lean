import SierraTee.Lib.Holdings
import SierraTee.Service.Echo

/-!
# What a request maps (`task_control.c`, `crypto_task.c`, `echo_task.c`, `drm_task.c`, `test_suite/`)

`process_otzapi` maps the command and its buffers, the handlers of the services map the references
among their parameters, and all of it is to be unmapped at the end.

* `processOtzapi_iff`  the requests that are balanced.

The loops over the parameters end with a `break` and run once.  Copies outside a buffer, the print
that overruns its buffer and what a negative length of an array then does are not in this model.
-/

namespace SierraTee.NsMappings
open SierraTee Word Traced Holdings

/-- what `map_to_ns` maps for a call, or a pointer that it did not give -/
inductive NsMapping where
  | command
  | request
  | response
  | metaTable
  /-- the reference with this entry of the meta table -/
  | param (pos : Nat)
  | unmapped (p : OutData)
  deriving DecidableEq

abbrev NsUse := Use NsMapping

/-- a step of a handler, with its calls of `map_to_ns` that succeed and of `unmap_from_ns` -/
abbrev Handler (α : Type) := Traced SmcError NsUse α

def outMapping (d : Decoded) : NsMapping :=
  match d.outData with
  | .mapped _ => .param (d.pos - 1)
  | p => .unmapped p

/-- `if(type == OTZ_MEM_REF) free_decoded_data(out_buf)` -/
def freeDecodedData (d : Decoded) : Handler Unit :=
  if d.type = otzMemRef then touch [.release (outMapping d)] else ret ()

def updateResponseLen (pos : Nat) : Handler Unit :=
  require (pos ≤ otzMaxReqParams + otzMaxResParams) .einvalArg

section
variable (r : ServiceRequest)

/-- `decode_data` -/
def decode (b : ParamArea) (offset : Int) (pos : Nat) : Handler Decoded :=
  match (decodeParam r b offset pos).result with
  | .error e => fail e
  | .ok d => ⟨.ok d, if d.mapped then [.acquire (.param pos)] else [], []⟩

def takeParam (b : ParamArea) (types : List Nat) (fits : UInt32 → Bool) (offset : Int) (pos : Nat) :
    Handler Decoded := do
  let d ← decode r b offset pos
  require (d.type ∈ types) .einvalArg
  require (fits d.outLen = true) .enomem
  pure d

def takeFreed (b : ParamArea) (types : List Nat) (fits : UInt32 → Bool) (offset : Int) (pos : Nat) :
    Handler Decoded := do
  let d ← takeParam r b types fits offset pos
  freeDecodedData d
  pure d

def anyLen (_ : UInt32) : Bool := true

def shorter (bound : Int) (len : UInt32) : Bool := toInt len < bound

def room (len : Int) (outLen : UInt32) : Bool := len ≤ toInt outLen

def arrayOrRef : List Nat := [otzEncArray, otzMemRef]

/-! ## The crypto service -/

def respond (len : Int) : Handler Unit := do
  let d ← takeParam r r.response arrayOrRef (room len) 0 otzMaxReqParams
  updateResponseLen d.pos
  freeDecodedData d

def digestLen (svcCmdId len : UInt32) : Int :=
  if svcCmdId ∈ digestCmds then resultLen r len else cryptBufLen

def processOtzCryptoDigestCmd (svcCmdId : UInt32) : Handler Unit := do
  require (r.malloc = true) .enomem
  let d ← takeFreed r r.request arrayOrRef (shorter cryptBufLen) 0 0
  respond r (digestLen r svcCmdId d.outLen)

def hmacCmdLen (svcCmdId len : UInt32) : Int :=
  if svcCmdId ∈ hmacCmds then hmacLen r len else cryptBufLen

def processOtzCryptoHmacCmd (svcCmdId : UInt32) : Handler Unit := do
  require (r.malloc = true) .enomem
  let key ← takeFreed r r.request arrayOrRef (shorter (hmacKeyLen + 1)) 0 0
  let d ← takeFreed r r.request arrayOrRef (shorter cryptBufLen) key.offset key.pos
  respond r (hmacCmdLen r svcCmdId d.outLen)

def cipherLen (svcCmdId len : UInt32) : Int :=
  if svcCmdId ∈ cipherCmds then resultLen r len else cryptBufLen

def cipherRest (svcCmdId : UInt32) (offset : Int) (pos : Nat) : Handler Unit := do
  let key ← takeFreed r r.request arrayOrRef (shorter (cryptBufLen + 1)) offset pos
  let d ← takeFreed r r.request arrayOrRef (shorter cryptBufLen) key.offset key.pos
  respond r (cipherLen r svcCmdId d.outLen)

def processOtzCryptoCipherCmd (svcCmdId : UInt32) : Handler Unit := do
  require (r.malloc = true) .enomem
  let choice ← takeFreed r r.request arrayOrRef anyLen 0 0
  let present ← takeFreed r r.request arrayOrRef anyLen choice.offset choice.pos
  if present.word r r.request = 1 then do
    let iv ← takeFreed r r.request arrayOrRef (shorter (cryptBufLen + 1)) present.offset present.pos
    cipherRest r svcCmdId iv.offset iv.pos
  else cipherRest r svcCmdId present.offset present.pos

/-! ## The echo service -/

def answer : Handler Unit :=
  if r.resBufLen ≠ 0 then do
    let d ← takeParam r r.response [otzEncArray] anyLen 0 otzMaxReqParams
    updateResponseLen d.pos
  else pure ()

def processOtzEchoSendCmd : Handler Unit := do
  require (r.malloc = true) .enomem
  if r.reqBufLen ≠ 0 then do
    let d0 ← takeParam r r.request [otzEncUint32] anyLen 0 0
    let _ ← takeParam r r.request [otzEncArray] anyLen d0.offset d0.pos
    answer r
  else answer r

def refAnswer : Handler Unit :=
  if r.resBufLen ≠ 0 then do
    let d ← takeFreed r r.response [otzMemRef] anyLen 0 otzMaxReqParams
    updateResponseLen d.pos
  else pure ()

def processOtzEchoSendCmdSharedBuf : Handler Unit := do
  require (r.malloc = true) .enomem
  if r.reqBufLen ≠ 0 then do
    let d0 ← takeParam r r.request [otzEncUint32] anyLen 0 0
    let _ ← takeFreed r r.request [otzMemRef] anyLen d0.offset d0.pos
    refAnswer r
  else refAnswer r

def ipiAnswer : Handler Unit :=
  if r.resBufLen ≠ 0 then do
    let d ← takeParam r r.response [otzMemRef] anyLen 0 otzMaxReqParams
    updateResponseLen d.pos
  else pure ()

def processOtzEchoIpiSendCmd : Handler Unit := do
  require (r.malloc = true) .enomem
  if r.reqBufLen ≠ 0 then do
    let _ ← takeParam r r.request [otzMemRef] anyLen 0 0
    ipiAnswer r
  else ipiAnswer r

/-! ## The other services -/

def drmAnswer : Handler Unit :=
  if r.resBufLen ≠ 0 then do
    let d ← takeParam r r.response [otzMemRef] anyLen 0 otzMaxReqParams
    updateResponseLen d.pos
    freeDecodedData d
  else pure ()

def processOtzDrmSendCmdSharedBuf : Handler Unit := do
  require (r.malloc = true) .enomem
  if r.reqBufLen ≠ 0 then do
    let d0 ← takeParam r r.request [otzEncUint32] anyLen 0 0
    let _ ← takeFreed r r.request [otzMemRef] anyLen d0.offset d0.pos
    drmAnswer r
  else drmAnswer r

/-- `process_otz_test_suite_mutex`; between the parameters and the response it takes a mutex and
releases it -/
def processOtzTestSuiteMutex : Handler Unit := do
  require (r.malloc = true) .enomem
  let d0 ← takeParam r r.request [otzEncUint32] anyLen 0 0
  let _ ← takeFreed r r.request [otzMemRef] (shorter dataBufLen) d0.offset d0.pos
  let d ← takeParam r r.response [otzMemRef] (room (toInt (d0.word r r.request))) 0 otzMaxReqParams
  updateResponseLen d.pos
  freeDecodedData d

/-- `process_otz_test_suite_async`; it may first wait for an event -/
def processOtzTestSuiteAsync : Handler Unit := processOtzEchoSendCmd r

end

/-! ## The services -/

def smcSuccess : Nat := 0
def smcError : Nat := 3
def smcEinvalArg : Nat := 4
def smcEopnotsupp : Nat := 6
def smcEnomem : Nat := 7

def SmcError.code : SmcError → Nat
  | .einvalArg => smcEinvalArg
  | .enomem => smcEnomem

structure Processed where
  ret : Nat
  uses : List NsUse

def handled (h : Handler Unit) : Processed :=
  ⟨match h.result with
    | .ok _ => smcSuccess
    | .error e => SmcError.code e, h.touched⟩

def processOtzCryptoSvc (svcCmdId : UInt32) (r : ServiceRequest) : Processed :=
  if r.reqBufLen = 0 ∨ r.resBufLen = 0 then ⟨smcSuccess, []⟩
  else if svcCmdId ∈ digestCmds then handled (processOtzCryptoDigestCmd r svcCmdId)
  else if svcCmdId ∈ hmacCmds then handled (processOtzCryptoHmacCmd r svcCmdId)
  else if svcCmdId ∈ cipherCmds then handled (processOtzCryptoCipherCmd r svcCmdId)
  else if svcCmdId ∈ ([1, 2, 3, 4] : List UInt32) then ⟨smcError, []⟩
  else ⟨smcEopnotsupp, []⟩

def processOtzEchoSvc (svcCmdId : UInt32) (r : ServiceRequest) : Processed :=
  if svcCmdId = 1 then handled (processOtzEchoSendCmd r)
  else if svcCmdId = 2 ∨ svcCmdId = 3 then handled (processOtzEchoSendCmdSharedBuf r)
  else if svcCmdId = 4 then handled (processOtzEchoIpiSendCmd r)
  else ⟨smcEopnotsupp, []⟩

/-- `process_otz_drm_svc`; its first command takes the same parameters as that of the echo service -/
def processOtzDrmSvc (svcCmdId : UInt32) (r : ServiceRequest) : Processed :=
  if svcCmdId = 1 then handled (processOtzEchoSendCmd r)
  else if svcCmdId = 2 then handled (processOtzDrmSendCmdSharedBuf r)
  else ⟨smcEopnotsupp, []⟩

/-- `process_otz_test_user_svc`; `OTZ_TEST_SUITE_CMD_ID_SHM` takes no parameters -/
def processOtzTestUserSvc (svcCmdId : UInt32) (r : ServiceRequest) : Processed :=
  if svcCmdId = 1 then ⟨smcSuccess, []⟩
  else if svcCmdId = 2 then handled (processOtzTestSuiteMutex r)
  else ⟨smcEopnotsupp, []⟩

def processOtzTestSuiteSvc (svcCmdId : UInt32) (r : ServiceRequest) : Processed :=
  if svcCmdId = 1 then handled (processOtzTestSuiteAsync r) else ⟨smcEopnotsupp, []⟩

/-- the services that are configured; the one of the kernel check is not there -/
inductive Service where
  | crypto
  | echo
  | drm
  | testUser
  | testSuite
  | ffmpegTest

def Service.process : Service → UInt32 → ServiceRequest → Processed
  | .crypto => processOtzCryptoSvc
  | .echo => processOtzEchoSvc
  | .drm => processOtzDrmSvc
  | .testUser => processOtzTestUserSvc
  | .testSuite => processOtzTestSuiteSvc
  | .ffmpegTest => fun _ _ => ⟨smcSuccess, []⟩

/-! ## `process_otzapi` -/

def otzCmdTypeNsToSecure : UInt32 := 1

/-- `tls->params`, with what is behind them -/
structure ApiCall extends ServiceRequest where
  /-- `tls->params` is not `NULL` -/
  params : Bool
  cmdType : UInt32
  cmdPhys : UInt32
  id : UInt32
  context : UInt32
  reqBufPhys : UInt32
  respBufPhys : UInt32
  metaDataPhys : UInt32

/-- what `process_otzapi` returns, whether the command is completed, and what it maps and unmaps -/
structure ApiResult where
  ret : Nat
  complete : Bool
  uses : List NsUse

def unmapBuffer (m : NsMapping) : Option UInt32 → List NsUse
  | none => []
  | some p => if p ≠ 0 then [.release m] else []

section
variable (t : ApiCall)

/-- a buffer is mapped if it is not empty; `none` is a failure -/
def mapBuffer (len phys : UInt32) : Option (Option UInt32) :=
  if 0 < len then (t.mapToNs phys).map some else some none

def mappedBuffer (m : NsMapping) (p : Option UInt32) : List NsUse :=
  if p.isSome then [.acquire m] else []

def callProcess (process : Option Service) : Processed :=
  match process with
  | none => ⟨smcSuccess, []⟩
  | some svc => svc.process (t.id &&& 0x3ff) t.toServiceRequest

/-- behind `handle_err1`, for a request of the normal world -/
def handleErr1 (ret : Nat) (complete : Bool) (uses : List NsUse) : ApiResult :=
  ⟨ret, complete, uses ++ [.release .command]⟩

def handleErr2 (reqBuf resBuf metaData : Option UInt32) (ret : Nat) (complete : Bool)
    (uses : List NsUse) : ApiResult :=
  handleErr1 ret complete (uses ++ unmapBuffer .request reqBuf ++ unmapBuffer .response resBuf ++
    unmapBuffer .metaTable metaData)

def processOtzapi (sessionId : UInt32) (process : Option Service) : ApiResult :=
  if t.params = false then ⟨smcEnomem, false, []⟩
  else if t.cmdType = otzCmdTypeNsToSecure then
    match t.mapToNs t.cmdPhys with
    | none => ⟨smcEnomem, false, []⟩
    | some _ =>
      match mapBuffer t t.reqBufLen t.reqBufPhys with
      | none => handleErr1 smcEnomem false [.acquire .command]
      | some reqBuf =>
        let uses := [.acquire .command] ++ mappedBuffer .request reqBuf
        match mapBuffer t t.resBufLen t.respBufPhys with
        | none => handleErr2 reqBuf none none smcEnomem false uses
        | some resBuf =>
          let uses := uses ++ mappedBuffer .response resBuf
          match t.mapToNs t.metaDataPhys with
          | none => handleErr2 reqBuf resBuf none smcEnomem false uses
          | some metaData =>
            let uses := uses ++ [.acquire .metaTable]
            if t.context ≠ sessionId then ⟨smcEinvalArg, true, uses⟩
            else
              let h := callProcess t process
              handleErr2 reqBuf resBuf (some metaData) h.ret (h.ret = smcSuccess) (uses ++ h.uses)
  else if t.context ≠ sessionId then ⟨smcEinvalArg, true, []⟩
  else ⟨(callProcess t process).ret, (callProcess t process).ret = smcSuccess,
    (callProcess t process).uses⟩

end

/-! ## What is asked of it -/

/-- every mapping is undone by exactly one unmap, and nothing else is unmapped -/
def Balanced (a : ApiResult) : Prop := Holdings.Settled a.uses

/-! ## When it does it -/

section
variable (r : ServiceRequest)

def decodedType (type : Nat) : Nat := if type = otzSecureMemRef then otzMemRef else type

def Decodes (b : ParamArea) (offset : Int) (pos : Nat) : Prop :=
  (r.metaData pos).type = otzEncUint32 ∨ Available r b offset pos

def Taken (b : ParamArea) (types : List Nat) (fits : UInt32 → Bool) (offset : Int) (pos : Nat) :
    Prop :=
  Decodes r b offset pos ∧ decodedType (r.metaData pos).type ∈ types ∧
    fits (r.metaData pos).len = true

/-- a reference that can be mapped is taken and given back, and one that is not mapped is not; and
the rest holds if the parameter is taken -/
def TakeOk (b : ParamArea) (types : List Nat) (fits : UInt32 → Bool) (frees : Bool) (offset : Int)
    (pos : Nat) (next : Prop) : Prop :=
  ((r.metaData pos).type = otzMemRef → (r.mapToNs (b.address offset)).isSome →
      Taken r b types fits offset pos ∧ frees = true) ∧
    ((r.metaData pos).type = otzSecureMemRef →
      ¬ (Taken r b types fits offset pos ∧ frees = true)) ∧
    (Taken r b types fits offset pos → next)

def RespondOk (len : Int) : Prop :=
  TakeOk r r.response arrayOrRef (room len) true 0 otzMaxReqParams True

def DigestOk (svcCmdId : UInt32) : Prop :=
  r.malloc = true → TakeOk r r.request arrayOrRef (shorter cryptBufLen) true 0 0
    (RespondOk r (digestLen r svcCmdId (r.metaData 0).len))

def HmacOk (svcCmdId : UInt32) : Prop :=
  r.malloc = true → TakeOk r r.request arrayOrRef (shorter (hmacKeyLen + 1)) true 0 0
    (TakeOk r r.request arrayOrRef (shorter cryptBufLen) true (nextOffset r 0 0) 1
      (RespondOk r (hmacCmdLen r svcCmdId (r.metaData 1).len)))

def CipherRestOk (svcCmdId : UInt32) (offset : Int) (pos : Nat) : Prop :=
  TakeOk r r.request arrayOrRef (shorter (cryptBufLen + 1)) true offset pos
    (TakeOk r r.request arrayOrRef (shorter cryptBufLen) true (nextOffset r offset pos) (pos + 1)
      (RespondOk r (cipherLen r svcCmdId (r.metaData (pos + 1)).len)))

def CipherOk (svcCmdId : UInt32) : Prop :=
  let offset1 := nextOffset r 0 0
  let offset2 := nextOffset r offset1 1
  r.malloc = true → TakeOk r r.request arrayOrRef anyLen true 0 0
    (TakeOk r r.request arrayOrRef anyLen true offset1 1
      (if wordBehind r r.request offset1 1 = 1 then
        TakeOk r r.request arrayOrRef (shorter (cryptBufLen + 1)) true offset2 2
          (CipherRestOk r svcCmdId (nextOffset r offset2 2) 3)
      else CipherRestOk r svcCmdId offset2 2))

def AnswerOk (type : Nat) (frees : Bool) : Prop :=
  r.resBufLen ≠ 0 → TakeOk r r.response [type] anyLen frees 0 otzMaxReqParams True

def SendOk (type : Nat) (frees : Bool) : Prop :=
  r.malloc = true →
    if r.reqBufLen ≠ 0 then TakeOk r r.request [otzEncUint32] anyLen false 0 0
      (TakeOk r r.request [type] anyLen frees 4 1 (AnswerOk r type frees))
    else AnswerOk r type frees

def EchoIpiOk : Prop :=
  r.malloc = true →
    if r.reqBufLen ≠ 0 then
      TakeOk r r.request [otzMemRef] anyLen false 0 0 (AnswerOk r otzMemRef false)
    else AnswerOk r otzMemRef false

def MutexOk : Prop :=
  r.malloc = true → TakeOk r r.request [otzEncUint32] anyLen false 0 0
    (TakeOk r r.request [otzMemRef] (shorter dataBufLen) true 4 1
      (TakeOk r r.response [otzMemRef] (room (toInt (r.request.word 0))) true 0 otzMaxReqParams
        True))

def Service.Ok (svcCmdId : UInt32) : Service → Prop
  | .crypto =>
    if r.reqBufLen = 0 ∨ r.resBufLen = 0 then True
    else if svcCmdId ∈ digestCmds then DigestOk r svcCmdId
    else if svcCmdId ∈ hmacCmds then HmacOk r svcCmdId
    else if svcCmdId ∈ cipherCmds then CipherOk r svcCmdId
    else True
  | .echo =>
    if svcCmdId = 1 then SendOk r otzEncArray false
    else if svcCmdId = 2 ∨ svcCmdId = 3 then SendOk r otzMemRef true
    else if svcCmdId = 4 then EchoIpiOk r
    else True
  | .drm =>
    if svcCmdId = 1 then SendOk r otzEncArray false
    else if svcCmdId = 2 then SendOk r otzMemRef true
    else True
  | .testUser => if svcCmdId = 1 then True else if svcCmdId = 2 then MutexOk r else True
  | .testSuite => if svcCmdId = 1 then SendOk r otzEncArray false else True
  | .ffmpegTest => True

end

def HandlerOk (t : ApiCall) (process : Option Service) : Prop :=
  ∀ svc ∈ process, svc.Ok t.toServiceRequest (t.id &&& 0x3ff)

/-- no buffer is mapped at address 0; and if everything can be mapped, the session is the right one
and the parameters are those of the command -/
def ApiOk (t : ApiCall) (sessionId : UInt32) (process : Option Service) : Prop :=
  t.params = true →
    if t.cmdType = otzCmdTypeNsToSecure then
      (t.mapToNs t.cmdPhys).isSome → ∀ reqBuf, mapBuffer t t.reqBufLen t.reqBufPhys = some reqBuf →
        reqBuf ≠ some 0 ∧ ∀ resBuf, mapBuffer t t.resBufLen t.respBufPhys = some resBuf →
          resBuf ≠ some 0 ∧ ∀ metaData, t.mapToNs t.metaDataPhys = some metaData →
            metaData ≠ 0 ∧ t.context = sessionId ∧ HandlerOk t process
    else t.context = sessionId → HandlerOk t process

section
variable {r : ServiceRequest} {b : ParamArea} {offset : Int} {pos n : Nat} {us : List NsUse}
  {ok next : Prop} {types : List Nat} {fits : UInt32 → Bool}

/-! ## A parameter -/

structure DecodedAs (r : ServiceRequest) (b : ParamArea) (offset : Int) (pos : Nat) (d : Decoded) :
    Prop where
  result : (decodeParam r b offset pos).result = .ok d
  type_eq : d.type = decodedType (r.metaData pos).type
  offset_eq : d.offset = nextOffset r offset pos
  pos_eq : d.pos = pos + 1
  outLen_eq : d.outLen = (r.metaData pos).len
  mapped_iff : d.mapped = true ↔ (r.metaData pos).type = otzMemRef
  memRef : (r.metaData pos).type = otzMemRef → outMapping d = .param pos
  secure : (r.metaData pos).type = otzSecureMemRef → ∃ p, outMapping d = .unmapped p
  word_uint32 : (r.metaData pos).type = otzEncUint32 → d.word r b = b.word offset
  word_behind : (r.metaData pos).type ≠ otzEncUint32 → d.word r b = wordBehind r b offset pos

theorem Decodes.decodedAs (h : Decodes r b offset pos) : ∃ d, DecodedAs r b offset pos d := by
  rcases h with h1 | h
  · have hne3 : ¬ (r.metaData pos).type = otzMemRef := by rw [h1]; decide
    have hne2 : ¬ (r.metaData pos).type = otzEncArray := by rw [h1]; decide
    have htype : decodedType (r.metaData pos).type = otzEncUint32 := by rw [h1]; decide
    refine ⟨_, congrArg Traced.result (decodeParam_uint32 h1), htype.symm, (if_neg hne2).symm, rfl,
      rfl, iff_of_false Bool.false_ne_true hne3, fun h3 => absurd h3 hne3, fun _ => ⟨_, rfl⟩,
      fun _ => rfl, fun hn => absurd h1 hn⟩
  · obtain ⟨d, hd⟩ := h.decodesTo
    have hres := hd.result
    have hn1 : (r.metaData pos).type ≠ otzEncUint32 := by
      intro h1
      rcases h with h2 | ⟨h3, -⟩ | h4
      · cases h1.symm.trans h2
      · cases h1.symm.trans h3
      · cases h1.symm.trans h4
    have htype : d.type = decodedType (r.metaData pos).type := by
      rw [hd.type_eq]
      unfold decodedType
      rcases h with h2 | ⟨h3, -⟩ | h4
      · rw [h2]; decide
      · rw [h3]; decide
      · rw [h4]; decide
    refine ⟨d, hres, htype, hd.offset_eq, hd.pos_eq, hd.outLen_eq, ?_, ?_, ?_,
      fun h1 => absurd h1 hn1, fun _ => hd.word_eq⟩
    · rcases h with h2 | ⟨h3, hm⟩ | h4
      · rw [decodeParam_array h2] at hres
        cases hres
        exact iff_of_false Bool.false_ne_true (by rw [h2]; decide)
      · obtain ⟨addr, ha⟩ := Option.isSome_iff_exists.mp hm
        rw [decodeParam_memRef h3 ha] at hres
        cases hres
        exact iff_of_true rfl h3
      · rw [decodeParam_secure h4] at hres
        cases hres
        exact iff_of_false Bool.false_ne_true (by rw [h4]; decide)
    · intro h3
      rcases h with h2 | ⟨-, hm⟩ | h4
      · cases h3.symm.trans h2
      · obtain ⟨addr, ha⟩ := Option.isSome_iff_exists.mp hm
        rw [decodeParam_memRef h3 ha] at hres
        cases hres
        rfl
      · cases h3.symm.trans h4
    · intro h4
      rw [decodeParam_secure h4] at hres
      cases hres
      exact ⟨_, rfl⟩

theorem Decodes.mapped (h : Decodes r b offset pos) (h3 : (r.metaData pos).type = otzMemRef) :
    (r.mapToNs (b.address offset)).isSome := by
  rcases h with h1 | h2 | ⟨-, hm⟩ | h4
  · cases h3.symm.trans h1
  · cases h3.symm.trans h2
  · exact hm
  · cases h3.symm.trans h4

theorem not_decodes (h : ¬ Decodes r b offset pos) :
    ∃ e, (decodeParam r b offset pos).result = .error e := by
  cases hd : (decodeParam r b offset pos).result with
  | error e => exact ⟨e, rfl⟩
  | ok d => exact absurd (Or.inl (not_available (fun ha => h (Or.inr ha)) hd).1) h

/-! ## A handler from a parameter on -/

def Later (n : Nat) : NsMapping → Prop
  | .param p => n ≤ p
  | .unmapped _ => True
  | _ => False

/-- the uses of a handler from the parameter `n` on, and when they are settled -/
structure Walk (n : Nat) (us : List NsUse) (ok : Prop) : Prop where
  later : ∀ m ∈ used us, Later n m
  settled_iff : Holdings.Settled us ↔ ok

theorem walk_nil : Walk n [] True :=
  ⟨fun _ hm => absurd hm List.not_mem_nil, iff_of_true settled_nil trivial⟩

theorem walk_require (p : Prop) [Decidable p] (e : SmcError) {f : Unit → Handler Unit}
    (hf : Walk n (f ()).touched ok) : Walk n (require p e >>= f).touched (p → ok) := by
  rw [touched_require]
  by_cases hp : p
  · rw [if_pos hp]
    exact ⟨hf.later, hf.settled_iff.trans ⟨fun h _ => h, fun h => h hp⟩⟩
  · rw [if_neg hp]
    exact ⟨walk_nil.later, iff_of_true settled_nil fun h => absurd h hp⟩

theorem walk_congr {ok' : Prop} (h : ok ↔ ok') (hw : Walk n us ok) : Walk n us ok' :=
  ⟨hw.later, hw.settled_iff.trans h⟩

theorem Walk.mono {k : Nat} (h : Walk n us ok) (hk : k ≤ n) : Walk k us ok := by
  refine ⟨fun m hm => ?_, h.settled_iff⟩
  have hl := h.later m hm
  cases m with
  | param p => exact hk.trans hl
  | unmapped p => trivial
  | _ => exact hl

theorem Walk.not_mem (h : Walk (pos + 1) us ok) : NsMapping.param pos ∉ used us := by
  intro hm
  have hle : pos + 1 ≤ pos := h.later _ hm
  omega

theorem walk_mapped (hw : Walk (pos + 1) us next) (frees : Bool) :
    Walk pos (.acquire (.param pos) :: ((if frees then [.release (.param pos)] else []) ++ us))
      (frees = true ∧ next) := by
  have hlater : ∀ m ∈ used us, Later pos m := (hw.mono (Nat.le_succ pos)).later
  cases frees with
  | true =>
    refine ⟨?_, ?_⟩
    · intro m hm
      rcases List.mem_cons.mp hm with rfl | hm
      · exact le_refl pos
      · rcases List.mem_cons.mp hm with rfl | hm
        · exact le_refl pos
        · exact hlater m hm
    · exact (settled_pair hw.not_mem).trans
        (hw.settled_iff.trans ⟨fun h => ⟨rfl, h⟩, fun h => h.2⟩)
  | false =>
    refine ⟨?_, ?_⟩
    · intro m hm
      rcases List.mem_cons.mp hm with rfl | hm
      · exact le_refl pos
      · exact hlater m hm
    · exact iff_of_false (not_settled_acquire hw.not_mem) fun h => Bool.false_ne_true h.1

/-- **A parameter and the rest** of a handler, which begins with `free_decoded_data` if the parameter
is given back -/
theorem walk_take (frees : Bool) {f : Decoded → Handler Unit}
    (hf : ∀ d, DecodedAs r b offset pos d → Taken r b types fits offset pos →
      ∃ us, (f d).touched =
          (if frees = true ∧ d.type = otzMemRef then [.release (outMapping d)] else []) ++ us ∧
        Walk (pos + 1) us next) :
    Walk pos (takeParam r b types fits offset pos >>= f).touched
      (TakeOk r b types fits frees offset pos next) := by
  unfold takeParam TakeOk
  rw [bind_assoc]
  by_cases hdec : Decodes r b offset pos
  · obtain ⟨d, hd⟩ := hdec.decodedAs
    have hdecode : decode r b offset pos =
        ⟨.ok d, if d.mapped then [.acquire (.param pos)] else [], []⟩ := by
      unfold decode
      rw [hd.result]
    rw [hdecode, touched_bind_ok rfl]
    dsimp only
    rw [bind_assoc, touched_require, hd.type_eq]
    simp only [bind_assoc, pure_bind, touched_require, hd.outLen_eq]
    by_cases htaken : Taken r b types fits offset pos
    · obtain ⟨us, htouched, hw⟩ := hf d hd htaken
      rw [if_pos htaken.2.1, if_pos htaken.2.2, htouched, hd.type_eq]
      by_cases h3 : (r.metaData pos).type = otzMemRef
      · have hne : (r.metaData pos).type ≠ otzSecureMemRef := by rw [h3]; decide
        have hm := hdec.mapped h3
        have htype : decodedType (r.metaData pos).type = otzMemRef := by rw [h3]; decide
        rw [if_pos (hd.mapped_iff.mpr h3), htype, hd.memRef h3]
        simp only [and_true]
        refine walk_congr ?_ (walk_mapped hw frees)
        constructor
        · intro h
          exact ⟨fun _ _ => ⟨htaken, h.1⟩, fun h4 => absurd h4 hne, fun _ => h.2⟩
        · intro h
          exact ⟨(h.1 h3 hm).2, h.2.2 htaken⟩
      · rw [if_neg fun hm => h3 (hd.mapped_iff.mp hm), List.nil_append]
        by_cases h4 : (r.metaData pos).type = otzSecureMemRef
        · have htype : decodedType (r.metaData pos).type = otzMemRef := by rw [h4]; decide
          rw [htype]
          cases frees with
          | true =>
            obtain ⟨p, hp⟩ := hd.secure h4
            rw [hp]
            refine ⟨fun m hm => ?_, ?_⟩
            · rcases List.mem_cons.mp hm with rfl | hm
              · trivial
              · exact (hw.mono (Nat.le_succ pos)).later m hm
            · exact iff_of_false not_settled_release fun hx => hx.2.1 h4 ⟨htaken, rfl⟩
          | false =>
            refine walk_congr ?_ (hw.mono (Nat.le_succ pos))
            exact ⟨fun h => ⟨fun h3' => absurd h3' h3, fun _ hx => Bool.false_ne_true hx.2,
              fun _ => h⟩, fun h => h.2.2 htaken⟩
        · have htype : decodedType (r.metaData pos).type ≠ otzMemRef := by
            unfold decodedType
            rw [if_neg h4]
            exact h3
          rw [if_neg fun hx => htype hx.2, List.nil_append]
          refine walk_congr ?_ (hw.mono (Nat.le_succ pos))
          exact ⟨fun h => ⟨fun h3' => absurd h3' h3, fun h4' => absurd h4' h4, fun _ => h⟩,
            fun h => h.2.2 htaken⟩
    · have hrest : (if decodedType (r.metaData pos).type ∈ types then
          (if fits (r.metaData pos).len = true then (f d).touched else []) else []) = [] := by
        by_cases htype : decodedType (r.metaData pos).type ∈ types
        · rw [if_pos htype]
          exact if_neg fun hfits => htaken ⟨hdec, htype, hfits⟩
        · exact if_neg htype
      rw [hrest, List.append_nil]
      by_cases h3 : (r.metaData pos).type = otzMemRef
      · have hm := hdec.mapped h3
        rw [if_pos (hd.mapped_iff.mpr h3)]
        refine walk_congr ?_ (walk_mapped walk_nil false)
        exact iff_of_false (fun hx => Bool.false_ne_true hx.1) fun hx => htaken (hx.1 h3 hm).1
      · rw [if_neg fun hm => h3 (hd.mapped_iff.mp hm)]
        refine walk_congr ?_ walk_nil
        exact iff_of_true trivial ⟨fun h3' => absurd h3' h3, fun _ hx => htaken hx.1,
          fun hx => absurd hx htaken⟩
  · obtain ⟨e, he⟩ := not_decodes hdec
    have hdecode : decode r b offset pos = fail e := by
      unfold decode
      rw [he]
    rw [hdecode]
    refine walk_congr (iff_of_true trivial ⟨fun h3 hm => ?_, fun _ hx => hdec hx.1.1,
      fun hx => absurd hx.1 hdec⟩) walk_nil
    exact absurd (Or.inr (Or.inr (Or.inl ⟨h3, hm⟩))) hdec

theorem touched_free (d : Decoded) (f : Unit → Handler Unit) : (freeDecodedData d >>= f).touched =
    (if d.type = otzMemRef then [.release (outMapping d)] else []) ++ (f ()).touched := by
  unfold freeDecodedData
  by_cases h : d.type = otzMemRef
  · rw [if_pos h, if_pos h]
    exact touched_touch _ f
  · rw [if_neg h, if_neg h]
    exact touched_bind_ok rfl f

theorem walk_takeFreed {f : Decoded → Handler Unit}
    (hf : ∀ d, DecodedAs r b offset pos d → Taken r b types fits offset pos →
      Walk (pos + 1) (f d).touched next) :
    Walk pos (takeFreed r b types fits offset pos >>= f).touched
      (TakeOk r b types fits true offset pos next) := by
  unfold takeFreed
  simp only [bind_assoc, pure_bind]
  refine walk_take true fun d hd htaken => ⟨(f d).touched, ?_, hf d hd htaken⟩
  rw [touched_free]
  simp

theorem walk_takeKept {f : Decoded → Handler Unit}
    (hf : ∀ d, DecodedAs r b offset pos d → Taken r b types fits offset pos →
      Walk (pos + 1) (f d).touched next) :
    Walk pos (takeParam r b types fits offset pos >>= f).touched
      (TakeOk r b types fits false offset pos next) :=
  walk_take false fun d hd htaken => ⟨(f d).touched, by simp, hf d hd htaken⟩

theorem touched_update {d : Decoded} (hd : DecodedAs r b offset otzMaxReqParams d)
    (f : Unit → Handler Unit) : (updateResponseLen d.pos >>= f).touched = (f ()).touched := by
  unfold updateResponseLen
  rw [touched_require, hd.pos_eq]
  exact if_pos (by decide)

theorem touched_update_last (pos : Nat) : (updateResponseLen pos).touched = [] := by
  unfold updateResponseLen require
  split <;> rfl

theorem walk_response : Walk otzMaxReqParams (takeParam r b types fits offset otzMaxReqParams >>=
    fun d => updateResponseLen d.pos >>= fun _ => freeDecodedData d).touched
      (TakeOk r b types fits true offset otzMaxReqParams True) := by
  refine walk_take true fun d hd _ => ⟨[], ?_, walk_nil⟩
  rw [touched_update hd, List.append_nil]
  unfold freeDecodedData
  by_cases h : d.type = otzMemRef
  · rw [if_pos h, if_pos ⟨rfl, h⟩]
    rfl
  · rw [if_neg h, if_neg fun hx => h hx.2]
    rfl

/-! ## The handlers -/

theorem respond_walk (len : Int) : Walk otzMaxReqParams (respond r len).touched (RespondOk r len) :=
  walk_response

theorem digest_walk (svcCmdId : UInt32) :
    Walk 0 (processOtzCryptoDigestCmd r svcCmdId).touched (DigestOk r svcCmdId) := by
  refine walk_require _ _ (walk_takeFreed fun d hd _ => ?_)
  rw [hd.outLen_eq]
  exact (respond_walk _).mono (by decide)

theorem hmac_walk (svcCmdId : UInt32) :
    Walk 0 (processOtzCryptoHmacCmd r svcCmdId).touched (HmacOk r svcCmdId) := by
  refine walk_require _ _ (walk_takeFreed fun key hkey _ => ?_)
  rw [hkey.offset_eq, hkey.pos_eq]
  refine walk_takeFreed fun d hd _ => ?_
  rw [hd.outLen_eq]
  exact (respond_walk _).mono (by decide)

theorem cipherRest_walk (svcCmdId : UInt32) (offset : Int) (hpos : pos + 2 ≤ otzMaxReqParams) :
    Walk pos (cipherRest r svcCmdId offset pos).touched (CipherRestOk r svcCmdId offset pos) := by
  refine walk_takeFreed fun key hkey _ => ?_
  rw [hkey.offset_eq, hkey.pos_eq]
  refine walk_takeFreed fun d hd _ => ?_
  rw [hd.outLen_eq]
  exact (respond_walk _).mono hpos

theorem cipher_walk (svcCmdId : UInt32) :
    Walk 0 (processOtzCryptoCipherCmd r svcCmdId).touched (CipherOk r svcCmdId) := by
  refine walk_require _ _ (walk_takeFreed fun choice hchoice _ => ?_)
  rw [hchoice.offset_eq, hchoice.pos_eq]
  refine walk_takeFreed fun present hpresent htaken => ?_
  have hword : present.word r r.request = wordBehind r r.request (nextOffset r 0 0) 1 := by
    refine hpresent.word_behind fun h1 => ?_
    have htype := htaken.2.1
    rw [h1] at htype
    exact absurd htype (by decide)
  rw [hword, hpresent.offset_eq, hpresent.pos_eq]
  by_cases h1 : wordBehind r r.request (nextOffset r 0 0) 1 = 1
  · rw [if_pos h1, if_pos h1]
    refine walk_takeFreed fun iv hiv _ => ?_
    rw [hiv.offset_eq, hiv.pos_eq]
    exact cipherRest_walk svcCmdId _ (by decide)
  · rw [if_neg h1, if_neg h1]
    exact cipherRest_walk svcCmdId _ (by decide)

theorem number_next {d : Decoded} (hd : DecodedAs r b 0 0 d)
    (htaken : Taken r b [otzEncUint32] fits 0 0) :
    (r.metaData 0).type = otzEncUint32 ∧ d.offset = 4 ∧ d.pos = 1 := by
  have htype : (r.metaData 0).type = otzEncUint32 := by
    have hmem := List.mem_singleton.mp htaken.2.1
    unfold decodedType at hmem
    by_cases h4 : (r.metaData 0).type = otzSecureMemRef
    · rw [if_pos h4] at hmem
      exact absurd hmem (by decide)
    · rw [if_neg h4] at hmem
      exact hmem
  refine ⟨htype, ?_, hd.pos_eq⟩
  rw [hd.offset_eq]
  unfold nextOffset
  rw [if_neg (by rw [htype]; decide)]
  rfl

theorem walk_ite {p : Prop} [Decidable p] {x y : Handler Unit} {okx oky : Prop}
    (hx : Walk n x.touched okx) (hy : Walk n y.touched oky) :
    Walk n (if p then x else y).touched (if p then okx else oky) := by
  by_cases hp : p
  · rw [if_pos hp, if_pos hp]
    exact hx
  · rw [if_neg hp, if_neg hp]
    exact hy

theorem walk_answer {x : Handler Unit} (h : Walk otzMaxReqParams x.touched ok) :
    Walk otzMaxReqParams (if r.resBufLen ≠ 0 then x else pure ()).touched (r.resBufLen ≠ 0 → ok) := by
  refine walk_congr ?_ (walk_ite h walk_nil)
  by_cases h0 : r.resBufLen ≠ 0
  · rw [if_pos h0]
    exact ⟨fun hx _ => hx, fun hx => hx h0⟩
  · rw [if_neg h0]
    exact iff_of_true trivial fun hx => absurd hx h0

theorem answer_walk : Walk otzMaxReqParams (answer r).touched (AnswerOk r otzEncArray false) :=
  walk_answer (walk_takeKept fun d _ _ => by
    rw [touched_update_last]
    exact walk_nil)

theorem refAnswer_walk : Walk otzMaxReqParams (refAnswer r).touched (AnswerOk r otzMemRef true) :=
  walk_answer (walk_takeFreed fun d _ _ => by
    rw [touched_update_last]
    exact walk_nil)

theorem ipiAnswer_walk : Walk otzMaxReqParams (ipiAnswer r).touched (AnswerOk r otzMemRef false) :=
  walk_answer (walk_takeKept fun d _ _ => by
    rw [touched_update_last]
    exact walk_nil)

theorem drmAnswer_walk : Walk otzMaxReqParams (drmAnswer r).touched (AnswerOk r otzMemRef true) :=
  walk_answer walk_response

theorem echoSend_walk : Walk 0 (processOtzEchoSendCmd r).touched (SendOk r otzEncArray false) := by
  refine walk_require _ _ (walk_ite (walk_takeKept fun d0 hd0 htaken => ?_)
    (answer_walk.mono (by decide)))
  obtain ⟨-, hoffset, hpos⟩ := number_next hd0 htaken
  rw [hoffset, hpos]
  exact walk_takeKept fun d _ _ => answer_walk.mono (by decide)

theorem echoShared_walk :
    Walk 0 (processOtzEchoSendCmdSharedBuf r).touched (SendOk r otzMemRef true) := by
  refine walk_require _ _ (walk_ite (walk_takeKept fun d0 hd0 htaken => ?_)
    (refAnswer_walk.mono (by decide)))
  obtain ⟨-, hoffset, hpos⟩ := number_next hd0 htaken
  rw [hoffset, hpos]
  exact walk_takeFreed fun d _ _ => refAnswer_walk.mono (by decide)

theorem echoIpi_walk : Walk 0 (processOtzEchoIpiSendCmd r).touched (EchoIpiOk r) :=
  walk_require _ _ (walk_ite (walk_takeKept fun _ _ _ => ipiAnswer_walk.mono (by decide))
    (ipiAnswer_walk.mono (by decide)))

theorem drmShared_walk :
    Walk 0 (processOtzDrmSendCmdSharedBuf r).touched (SendOk r otzMemRef true) := by
  refine walk_require _ _ (walk_ite (walk_takeKept fun d0 hd0 htaken => ?_)
    (drmAnswer_walk.mono (by decide)))
  obtain ⟨-, hoffset, hpos⟩ := number_next hd0 htaken
  rw [hoffset, hpos]
  exact walk_takeFreed fun d _ _ => drmAnswer_walk.mono (by decide)

theorem mutex_walk : Walk 0 (processOtzTestSuiteMutex r).touched (MutexOk r) := by
  refine walk_require _ _ (walk_takeKept fun d0 hd0 htaken => ?_)
  obtain ⟨htype, hoffset, hpos⟩ := number_next hd0 htaken
  rw [hoffset, hpos, hd0.word_uint32 htype]
  exact walk_takeFreed fun d _ _ => walk_response.mono (by decide)

/-! ## The services -/

theorem walk_case {p : Prop} [Decidable p] {x y : Processed} {okx oky : Prop}
    (hx : Walk n x.uses okx) (hy : Walk n y.uses oky) :
    Walk n (if p then x else y).uses (if p then okx else oky) := by
  by_cases hp : p
  · rw [if_pos hp, if_pos hp]
    exact hx
  · rw [if_neg hp, if_neg hp]
    exact hy

theorem walk_none (ret : Nat) : Walk n (Processed.mk ret []).uses True := walk_nil

theorem crypto_walk (svcCmdId : UInt32) :
    Walk 0 (processOtzCryptoSvc svcCmdId r).uses (Service.crypto.Ok r svcCmdId) := by
  refine walk_case (walk_none _) (walk_case (digest_walk svcCmdId) ?_)
  refine walk_case (hmac_walk svcCmdId) (walk_case (cipher_walk svcCmdId) ?_)
  by_cases hp : svcCmdId ∈ ([1, 2, 3, 4] : List UInt32)
  · rw [if_pos hp]
    exact walk_none _
  · rw [if_neg hp]
    exact walk_none _

theorem process_walk (svc : Service) (svcCmdId : UInt32) (r : ServiceRequest) :
    Walk 0 (svc.process svcCmdId r).uses (svc.Ok r svcCmdId) := by
  cases svc with
  | crypto => exact crypto_walk svcCmdId
  | echo =>
    exact walk_case echoSend_walk (walk_case echoShared_walk (walk_case echoIpi_walk (walk_none _)))
  | drm => exact walk_case echoSend_walk (walk_case drmShared_walk (walk_none _))
  | testUser => exact walk_case (walk_none _) (walk_case mutex_walk (walk_none _))
  | testSuite => exact walk_case echoSend_walk (walk_none _)
  | ffmpegTest => exact walk_none _

end

/-! ## The whole call -/

section
variable {t : ApiCall} {hs : List NsUse} {ok : Prop} {p : Option UInt32} {m : NsMapping}

theorem buffer_cases (p : Option UInt32) (m : NsMapping) :
    (p ≠ some 0 ∧ mappedBuffer m p = [] ∧ unmapBuffer m p = []) ∨
      (p = some 0 ∧ mappedBuffer m p = [.acquire m] ∧ unmapBuffer m p = []) ∨
        (p ≠ some 0 ∧ mappedBuffer m p = [.acquire m] ∧ unmapBuffer m p = [.release m]) := by
  cases p with
  | none => exact Or.inl ⟨Option.some_ne_none 0 ∘ Eq.symm, rfl, rfl⟩
  | some x =>
    by_cases h0 : x = 0
    · rw [h0]
      exact Or.inr (Or.inl ⟨rfl, rfl, rfl⟩)
    · exact Or.inr (Or.inr ⟨fun h => h0 (Option.some.inj h), rfl, if_pos h0⟩)

theorem mappedBuffer_none (m : NsMapping) : mappedBuffer m none = [] := rfl

theorem buffers_settled (reqBuf resBuf metaData : Option UInt32) :
    Holdings.Settled ([.acquire .command] ++ mappedBuffer .request reqBuf ++ mappedBuffer .response resBuf ++
      mappedBuffer .metaTable metaData ++ (unmapBuffer .request reqBuf ++
        unmapBuffer .response resBuf ++ unmapBuffer .metaTable metaData ++ [.release .command])) ↔
      reqBuf ≠ some 0 ∧ resBuf ≠ some 0 ∧ metaData ≠ some 0 := by
  rcases buffer_cases reqBuf .request with ⟨h1, h2, h3⟩ | ⟨h1, h2, h3⟩ | ⟨h1, h2, h3⟩ <;>
    rcases buffer_cases resBuf .response with ⟨h4, h5, h6⟩ | ⟨h4, h5, h6⟩ | ⟨h4, h5, h6⟩ <;>
      rcases buffer_cases metaData .metaTable with ⟨h7, h8, h9⟩ | ⟨h7, h8, h9⟩ | ⟨h7, h8, h9⟩ <;>
        rw [h2, h3, h5, h6, h8, h9] <;> simp only [h1, h4, h7, ne_eq, not_true, not_false_iff,
          and_false, and_true] <;> decide

theorem Walk.apart {n : Nat} (hw : Walk n hs ok) {l : List NsUse}
    (hl : ∀ m ∈ used l, ∀ k, ¬ Later k m) : ∀ m ∈ used hs, m ∉ used l :=
  fun m hm hm' => hl m hm' n (hw.later m hm)

theorem used_mapped (p : Option UInt32) {q : NsMapping} (hq : q ∈ used (mappedBuffer m p)) : q = m := by
  rcases buffer_cases p m with ⟨-, h, -⟩ | ⟨-, h, -⟩ | ⟨-, h, -⟩
  · rw [h] at hq
    cases hq
  · rw [h] at hq
    exact List.mem_singleton.mp hq
  · rw [h] at hq
    exact List.mem_singleton.mp hq

theorem used_unmapped (p : Option UInt32) {q : NsMapping} (hq : q ∈ used (unmapBuffer m p)) :
    q = m := by
  rcases buffer_cases p m with ⟨-, -, h⟩ | ⟨-, -, h⟩ | ⟨-, -, h⟩
  · rw [h] at hq
    cases hq
  · rw [h] at hq
    cases hq
  · rw [h] at hq
    exact List.mem_singleton.mp hq

theorem call_settled (hw : Walk 0 hs ok) (reqBuf resBuf metaData : Option UInt32) :
    Holdings.Settled ([.acquire .command] ++ mappedBuffer .request reqBuf ++ mappedBuffer .response resBuf ++
      mappedBuffer .metaTable metaData ++ hs ++ (unmapBuffer .request reqBuf ++
        unmapBuffer .response resBuf ++ unmapBuffer .metaTable metaData ++ [.release .command])) ↔
      (reqBuf ≠ some 0 ∧ resBuf ≠ some 0 ∧ metaData ≠ some 0) ∧ ok := by
  have hapart := hw.apart (l := [.acquire .command] ++ mappedBuffer .request reqBuf ++
      mappedBuffer .response resBuf ++ mappedBuffer .metaTable metaData ++
        (unmapBuffer .request reqBuf ++ unmapBuffer .response resBuf ++
          unmapBuffer .metaTable metaData ++ [.release .command])) fun q hq k => by
    simp only [mem_used_append] at hq
    rcases hq with (((hq | hq) | hq) | hq) | ((hq | hq) | hq) | hq
    · cases List.mem_singleton.mp hq
      exact not_false
    · cases used_mapped _ hq
      exact not_false
    · cases used_mapped _ hq
      exact not_false
    · cases used_mapped _ hq
      exact not_false
    · cases used_unmapped _ hq
      exact not_false
    · cases used_unmapped _ hq
      exact not_false
    · cases used_unmapped _ hq
      exact not_false
    · cases List.mem_singleton.mp hq
      exact not_false
  rw [settled_insert hapart, hw.settled_iff, buffers_settled, and_comm]

theorem callProcess_walk (t : ApiCall) (process : Option Service) :
    Walk 0 (callProcess t process).uses (HandlerOk t process) := by
  cases process with
  | none => exact walk_congr (iff_of_true trivial fun svc h => nomatch h) walk_nil
  | some svc =>
    refine walk_congr ?_ (process_walk svc (t.id &&& 0x3ff) t.toServiceRequest)
    exact ⟨fun h svc' hs => Option.mem_some.mp hs ▸ h, fun h => h svc rfl⟩

theorem settled_called (hw : Walk 0 hs ok) (reqBuf resBuf metaData : Option UInt32) (ret : Nat)
    (complete : Bool) : Holdings.Settled (handleErr2 reqBuf resBuf metaData ret complete
      ([.acquire .command] ++ mappedBuffer .request reqBuf ++ mappedBuffer .response resBuf ++
        mappedBuffer .metaTable metaData ++ hs)).uses ↔
      (reqBuf ≠ some 0 ∧ resBuf ≠ some 0 ∧ metaData ≠ some 0) ∧ ok := by
  rw [← call_settled hw]
  unfold handleErr2 handleErr1
  simp only [List.append_assoc]

theorem settled_handleErr2 (reqBuf resBuf metaData : Option UInt32) (ret : Nat) (complete : Bool) :
    Holdings.Settled (handleErr2 reqBuf resBuf metaData ret complete ([.acquire .command] ++
      mappedBuffer .request reqBuf ++ mappedBuffer .response resBuf ++
        mappedBuffer .metaTable metaData)).uses ↔
      reqBuf ≠ some 0 ∧ resBuf ≠ some 0 ∧ metaData ≠ some 0 := by
  rw [← buffers_settled]
  unfold handleErr2 handleErr1
  simp only [List.append_assoc]

/-- **What a request maps** is undone, each mapping by one unmap, exactly if no buffer is at address 0
and, once everything is mapped, the session is the right one and the parameters are those that the
handler of the command gives back. -/
theorem processOtzapi_iff (t : ApiCall) (sessionId : UInt32) (process : Option Service) :
    Balanced (processOtzapi t sessionId process) ↔ ApiOk t sessionId process := by
  have hcall := callProcess_walk t process
  unfold Balanced processOtzapi ApiOk
  cases hparams : t.params with
  | false => exact iff_of_true settled_nil fun h => nomatch h
  | true =>
    rw [if_neg Bool.noConfusion, imp_iff_right rfl]
    by_cases htype : t.cmdType = otzCmdTypeNsToSecure
    · rw [if_pos htype, if_pos htype]
      cases hcmd : t.mapToNs t.cmdPhys with
      | none => exact iff_of_true settled_nil fun h => nomatch h
      | some cmd =>
        rw [Option.isSome_some, imp_iff_right rfl]
        dsimp only
        cases hreq : mapBuffer t t.reqBufLen t.reqBufPhys with
        | none =>
          have hcommand : Holdings.Settled (handleErr1 smcEnomem false [Use.acquire .command]).uses := by decide
          exact iff_of_true hcommand fun reqBuf h => nomatch h
        | some reqBuf =>
          simp only [Option.some.injEq, forall_eq']
          cases hres : mapBuffer t t.resBufLen t.respBufPhys with
          | none =>
            have hreqs := settled_handleErr2 reqBuf none none smcEnomem false
            simp only [mappedBuffer_none, List.append_nil] at hreqs
            refine hreqs.trans ?_
            exact ⟨fun h => ⟨h.1, fun resBuf h => nomatch h⟩,
              fun h => ⟨h.1, Option.some_ne_none 0 ∘ Eq.symm, Option.some_ne_none 0 ∘ Eq.symm⟩⟩
          | some resBuf =>
            simp only [Option.some.injEq, forall_eq']
            cases hmeta : t.mapToNs t.metaDataPhys with
            | none =>
              have hress := settled_handleErr2 reqBuf resBuf none smcEnomem false
              simp only [mappedBuffer_none, List.append_nil] at hress
              refine hress.trans ?_
              exact ⟨fun h => ⟨h.1, h.2.1, fun metaData h => nomatch h⟩,
                fun h => ⟨h.1, h.2.1, Option.some_ne_none 0 ∘ Eq.symm⟩⟩
            | some metaData =>
              simp only [Option.some.injEq, forall_eq']
              by_cases hctx : t.context ≠ sessionId
              · rw [if_pos hctx]
                refine iff_of_false ?_ fun h => hctx h.2.2.2.1
                show ¬ Holdings.Settled (.acquire .command :: (mappedBuffer .request reqBuf ++
                  mappedBuffer .response resBuf ++ mappedBuffer .metaTable (some metaData)))
                apply not_settled_acquire
                intro hm
                simp only [mem_used_append] at hm
                rcases hm with (hm | hm) | hm
                · cases used_mapped _ hm
                · cases used_mapped _ hm
                · cases used_mapped _ hm
              · rw [if_neg hctx]
                refine (settled_called hcall reqBuf resBuf (some metaData) _ _).trans ?_
                have hmeta0 : some metaData ≠ some 0 ↔ metaData ≠ 0 := not_congr Option.some_inj
                rw [hmeta0, and_assoc, and_assoc, and_iff_right (not_not.mp hctx)]
    · rw [if_neg htype, if_neg htype]
      by_cases hctx : t.context ≠ sessionId
      · rw [if_pos hctx]
        exact iff_of_true settled_nil fun h => absurd h hctx
      · rw [if_neg hctx, imp_iff_right (not_not.mp hctx)]
        exact hcall.settled_iff

end

def otherSession : ApiCall where
  toServiceRequest := { arrayRequest 32 with mapToNs := some }
  params := true
  cmdType := otzCmdTypeNsToSecure
  cmdPhys := 0x1000
  id := 5
  context := 1
  reqBufPhys := 0x2000
  respBufPhys := 0x3000
  metaDataPhys := 0x4000

/-- the command and its buffers stay mapped -/
theorem other_session_stays_mapped : ¬ ∀ (t : ApiCall) (sessionId : UInt32) (process : Option Service),
    t.cmdType = otzCmdTypeNsToSecure → Balanced (processOtzapi t sessionId process) := by
  intro h
  have hbal : Holdings.Settled (processOtzapi otherSession 2 (some .crypto)).uses :=
    h otherSession 2 (some .crypto) rfl
  exact absurd hbal (by decide)

end SierraTee.NsMappings
