import SierraTee.Otzc.Agreement
import SierraTee.Otzc.Commands
import SierraTee.Params.Invoke

/-!
# An invocation and the contexts of the driver (`otz_tee_api.c`, `otz_client_main.c`)

The driver makes the encode context of an invocation in the first encode call, or in the call that
sends a command without parameters, and writes its id back into the command of the client.  The
client releases the context by this id when it leaves `TEEC_InvokeCommand`, after a failure too.

* `invoke_balanced_iff`      the invocations that leave no context behind, and the session as
                             before;
* `close_after_invocations`  what unbalanced invocations leave is freed when the session is closed.
-/

namespace SierraTee
open Bytes

/-! ## What the kernel gives -/

def EncodeCall.io : EncodeCall → CallIo
  | .uint32 io .. => io
  | .array io .. => io
  | .memRef io .. => io

def EncodeCall.found : EncodeCall → EncodeCall
  | .uint32 io t data usr => .uint32 { io with copyIn := true, prepare := 0, copyOut := true } t data usr
  | .array io t len data usr =>
    .array { io with copyIn := true, prepare := 0, copyOut := true } t len data usr
  | .memRef io t len shared => .memRef { io with prepare := 0 } t len shared

def EncodeCall.isMemRef : EncodeCall → Bool
  | .memRef .. => true
  | _ => false

namespace Invocation
open FlatMemory (Word)
open Keyed Invoke
open Otzc (DevFile SessionIds EncodeCmd EncodeAlloc Encode Session Worlds noEncode
  findSession firstSession modifySession otzClientPrepareEncode otzClientKernelSendCmd
  commandEncode findSession_of_first findSession_cases)

/-- the ids of the contexts that the driver has, which are their addresses -/
def encodeIds (files : List DevFile) : List Word :=
  files.flatMap fun f => f.servicesList.flatMap fun v => v.sessionsList.flatMap fun z =>
    z.encodeList.map Encode.encodeId

/-- the memory for a context, its meta table and its buffers.  One call of an invocation asks for the
first two; the kernel does not give the address of a block that is in use. -/
structure ContextMemory (files : List DevFile) where
  context : Option { w : Word // w ≠ noEncode ∧ w ∉ encodeIds files }
  metaAddr : Option Word
  reqBuffer : Word
  resBuffer : Word

/-- the outcomes of the kernel calls in an invocation: of the encode calls, of the call that sends the
command, of the decode calls and of the release.  The result of the search for the context is not
one of them. -/
structure InvokeIo (files : List DevFile) where
  memory : ContextMemory files
  encode : EncodeIo
  sendIn : Bool
  sendOut : Bool
  decode : Fin 4 → Bool → DecodeIo
  releaseIn : Bool

def ContextMemory.alloc {files : List DevFile} (m : ContextMemory files) : EncodeAlloc :=
  ⟨m.context.map Subtype.val, m.metaAddr⟩

def ContextMemory.fill {files : List DevFile} (m : ContextMemory files) (c : OtzcEncode)
    (e : Encode) : Encode :=
  { e with
    kerReqDataAddr := if c.kerReqDataAddr.isSome then m.reqBuffer else 0
    encReqOffset := BitVec.ofNat 32 c.encReqOffset
    kerResDataAddr := if c.kerResDataAddr.isSome then m.resBuffer else 0
    encResOffset := BitVec.ofNat 32 c.encResOffset }

/-! ## The session of the client -/

/-- what an invocation reads and writes of `TEEC_Session`.  The session is open; `device` is the id
that the driver has for the file behind `device->fd`. -/
structure TeecSession where
  device : Word
  serviceId : Word
  sessionId : Word
  operationCnt : Int

def TeecSession.ids (s : TeecSession) : SessionIds := ⟨s.device, s.serviceId, s.sessionId⟩

def TeecSession.begin (s : TeecSession) : TeecSession := { s with operationCnt := s.operationCnt + 1 }

def TeecSession.finish (s : TeecSession) : TeecSession := { s with operationCnt := s.operationCnt - 1 }

theorem TeecSession.finish_begin (s : TeecSession) : s.begin.finish = s := by
  cases s
  simp [TeecSession.begin, TeecSession.finish]

def TeecSession.command (s : TeecSession) (commandId encodeId : Word) : EncodeCmd :=
  ⟨encodeId, s.serviceId, s.sessionId, commandId⟩

/-- `TEEC_CloseSession`: whether the session is closed, and the two sides behind it -/
def teecCloseSession (s : TeecSession) (copyIn closes : Bool) (w : Worlds) : Bool × Worlds :=
  if s.operationCnt ≠ 0 then (false, w)
  else
    let r := w.otzClientSessionClose s.ids copyIn closes
    (r.2 = 0, r.1)

/-! ## The calls of the driver -/

/-- the lists of the driver, the id in the command of the client, and the content of the context with
this id -/
structure Command where
  files : List DevFile
  encodeId : Word
  context : OtzcEncode

def Command.content (t : Command) : OtzcEncode :=
  if t.encodeId = noEncode then freshEncode else t.context

section
variable {files : List DevFile} (io : InvokeIo files) (s : TeecSession) (commandId : Word)

def setContent (m : ContextMemory files) (encodeId : Word) (c : OtzcEncode) (z : Session) :
    Session :=
  { z with encodeList := modify (fun e => e.encodeId = encodeId) (m.fill c) z.encodeList }

/-- an encode call behind the search, which has given the context `e` -/
def encodeInto (t : Command) (k : EncodeCall) (e : Encode) (files' : List DevFile) :
    Int × Command :=
  let r := encodeCall t.content k.found
  (if k.io.copyOut then r.ret else -efault,
    { files := modifySession s.ids (setContent io.memory e.encodeId r.ctx) files'
      encodeId := if k.io.copyOut then e.encodeId else t.encodeId
      context := r.ctx })

/-- an encode call of any kind.  A memory reference is copied back behind a failed search too, if it
had an id. -/
def encode (t : Command) (k : EncodeCall) : Int × Command :=
  if !k.io.copyIn then (-efault, t)
  else
    match otzClientPrepareEncode s.device (s.command commandId t.encodeId) io.memory.alloc
        t.files with
    | (ret, none) =>
      (if k.isMemRef ∧ t.encodeId ≠ noEncode ∧ k.io.copyOut = false then -efault else ret, t)
    | (_, some (e, files')) => encodeInto io s t k e files'

structure Sent where
  ret : Int
  command : Command
  served : Option Invoke.Service

/-- `otz_client_send_cmd` behind the call of the kernel, which has left `r`; `v` is what the service
leaves if it was called -/
def sendBack (t : Command) (v : Invoke.Service) (r : Otzc.Sent) : Sent :=
  let served := r.call.map fun _ => v
  if r.ret ≠ 0 then ⟨r.ret, { t with files := r.files }, served⟩
  else if !io.sendOut then ⟨-efault, { t with files := r.files }, served⟩
  else ⟨0, ⟨r.files, (r.call.map Otzc.SecureCall.encId).getD t.encodeId, t.content⟩, served⟩

/-- `otz_client_send_cmd`; `service` is what `otz_smc_call` returns and what the service leaves -/
def send (service : OtzcEncode → Int × Invoke.Service) (t : Command) : Sent :=
  if !io.sendIn then ⟨-efault, t, none⟩
  else sendBack io t (service t.content).2 (otzClientKernelSendCmd s.device
    (s.command commandId t.encodeId) io.memory.alloc t.files fun _ => (service t.content).1)

/-- `otz_client_operation_release` -/
def operationRelease (t : Command) : List DevFile × Int :=
  if !io.releaseIn then (t.files, -efault)
  else
    match findSession s.ids t.files with
    | none => (t.files, -einval)
    | some _ =>
      if t.encodeId = noEncode then (t.files, 0)
      else (modifySession s.ids (fun z =>
        { z with encodeList := z.encodeList.eraseP fun e => e.encodeId = t.encodeId }) t.files, 0)

/-! ## `TEEC_InvokeCommand` -/

def encodeAll (t : Command) : List EncodeCall → Int × Command
  | [] => (0, t)
  | k :: ks =>
    let r := encode io s commandId t k
    if ioctl r.1 ≠ 0 then (ioctl r.1, r.2) else encodeAll r.2 ks

variable (sp : Space) (op : TeecOperation) (cl : Invoke.Client)

def encodeLoop (t : Command) : List (Fin 4) → Int × Command
  | [] => (0, t)
  | i :: is =>
    match paramCalls sp io.encode op cl i with
    | .error e => (e, t)
    | .ok ks =>
      let r := encodeAll io s commandId t ks
      if r.1 ≠ 0 then r else encodeLoop r.2 is

def newCommand (files : List DevFile) : Command := ⟨files, noEncode, freshEncode⟩

structure Answer where
  ret : Int
  client : Invoke.Client
  command : Command

variable (service : OtzcEncode → (UInt32 → UInt8) → Int × Invoke.Service)

def perform (t : Command) : Answer :=
  let r := send io s commandId (fun c => service c cl.mem) t
  match r.served with
  | none => ⟨sendResult r.ret, cl, r.command⟩
  | some v =>
    let cl1 : Invoke.Client := { cl with mem := v.mem }
    if sendResult r.ret ≠ 0 then ⟨sendResult r.ret, cl1, r.command⟩
    else
      let d := decodeParams sp io.decode op (v.response t.content)
        (firstDecoding cl1 (encData op cl)) (List.finRange 4)
      ⟨d.1, d.2.client, r.command⟩

def answer : Answer :=
  let r := encodeLoop io s commandId sp op cl (newCommand files) (List.finRange 4)
  if r.1 ≠ 0 then ⟨r.1, cl, r.2⟩ else perform io s commandId sp op cl service r.2

/-- what `TEEC_InvokeCommand` returns, and what there is behind it -/
structure Result where
  ret : Int
  session : Option TeecSession
  client : Invoke.Client
  files : List DevFile

/-- `TEEC_InvokeCommand`.  It reads `operation->paramTypes` whether or not there is an operation;
`none` is the read through the null pointer. -/
def teecInvokeCommand (session : Option TeecSession) (operation : Option TeecOperation) :
    Option Result :=
  match session with
  | none => some ⟨teecErrorBadParameters, none, cl, files⟩
  | some s =>
    if operation.any fun op => !op.started then
      some ⟨teecErrorNotImplemented, some s, cl, files⟩
    else
      operation.map fun op =>
        let r := answer io s.begin commandId sp op cl service
        ⟨r.ret, some s.begin.finish, r.client, (operationRelease io s.begin r.command).1⟩

end

/-! ## What an invocation has to keep -/

/-- `TEEC_CloseSession` is not refused, and the driver has the session -/
def CanClose (s : TeecSession) (files : List DevFile) : Prop :=
  s.operationCnt = 0 ∧ (findSession s.ids files).isSome

/-- **The invocation is balanced**: the session, with its count of operations, is as before; the
driver has no context that was not there before, and commands and the close still get to the
session. -/
structure Balanced (s : TeecSession) (files : List DevFile) (r : Result) : Prop where
  session : r.session = some s
  noContext : ∀ w ∈ encodeIds r.files, w ∈ encodeIds files
  usable : (firstSession s.ids files).isSome → (firstSession s.ids r.files).isSome
  closable : CanClose s files → CanClose s r.files

def firstCall (sp : Space) (io : EncodeIo) (op : TeecOperation) (cl : Invoke.Client) :
    List (Fin 4) → Except Int (Option EncodeCall)
  | [] => .ok none
  | i :: is =>
    match paramCalls sp io op cl i with
    | .error e => .error e
    | .ok [] => firstCall sp io op cl is
    | .ok (k :: _) => .ok (some k)

def OperationFits {files : List DevFile} (io : InvokeIo files) (s : TeecSession) (sp : Space)
    (op : TeecOperation) (cl : Invoke.Client)
    (service : OtzcEncode → (UInt32 → UInt8) → Int × Invoke.Service) : Prop :=
  match firstCall sp io.encode op cl (List.finRange 4) with
  | .error _ => True
  | .ok (some k) => k.io.copyIn → (findSession s.ids files).isSome → io.memory.alloc.fresh.isSome →
    k.io.copyOut ∧ io.releaseIn
  | .ok none => io.sendIn → (firstSession s.ids files).isSome → io.memory.alloc.fresh.isSome →
    (service freshEncode cl.mem).1 = 0 ∧ io.sendOut ∧ io.releaseIn

/-- an operation is given; it is not started, or it fits -/
def InvokeFits {files : List DevFile} (io : InvokeIo files) (s : TeecSession) (sp : Space)
    (cl : Invoke.Client) (service : OtzcEncode → (UInt32 → UInt8) → Int × Invoke.Service)
    (operation : Option TeecOperation) : Prop :=
  ∃ op, operation = some op ∧ (op.started → OperationFits io s sp op cl service)

/-! ## A context that has been made -/

def addEncode (e : Encode) (z : Session) : Session := { z with encodeList := z.encodeList ++ [e] }

section
variable {files files' : List DevFile} {i : SessionIds} {w : Word} {z : Session} {e : Encode}

/-- a context with the id `w` has been appended to the session -/
def Appended (files : List DevFile) (i : SessionIds) (w : Word) (files' : List DevFile) : Prop :=
  ∃ e, e.encodeId = w ∧ files' = modifySession i (addEncode e) files

theorem addEncode_sessionId (e : Encode) (z : Session) :
    (addEncode e z).sessionId = z.sessionId := rfl

theorem mem_encodeIds (h : findSession i files = some z) (he : e ∈ z.encodeList) :
    e.encodeId ∈ encodeIds files := by
  obtain ⟨f, v, ⟨hf, -⟩, ⟨hv, -⟩, hz, -⟩ := findSession_cases h
  refine List.mem_flatMap.mpr ⟨f, List.mem_of_find?_eq_some hf, ?_⟩
  refine List.mem_flatMap.mpr ⟨v, List.mem_of_find?_eq_some hv, ?_⟩
  exact List.mem_flatMap.mpr ⟨z, List.mem_of_find?_eq_some hz, List.mem_map_of_mem he⟩

theorem findSession_append (h : findSession i files = some z) :
    findSession i (modifySession i (addEncode e) files) = some (addEncode e z) := by
  rw [Otzc.findSession_modifySession (addEncode_sessionId e), h]
  rfl

theorem other_ids (h : findSession i files = some z) (hw : w ∉ encodeIds files) :
    ∀ x ∈ z.encodeList, decide (x.encodeId = w) = false := by
  intro x hx
  refine decide_eq_false fun heq => hw ?_
  rw [← heq]
  exact mem_encodeIds h hx

theorem Appended.mem (h : findSession i files = some z) (ha : Appended files i w files') :
    w ∈ encodeIds files' := by
  obtain ⟨e, rfl, rfl⟩ := ha
  exact mem_encodeIds (findSession_append h) (List.mem_append_right _ (List.mem_singleton_self e))

theorem Appended.find (h : findSession i files = some z) (hw : w ∉ encodeIds files)
    (ha : Appended files i w files') : ∃ z' e, findSession i files' = some z' ∧
      (z'.encodeList.find? fun x => x.encodeId = w) = some e ∧ e.encodeId = w := by
  obtain ⟨e, he, rfl⟩ := ha
  exact ⟨addEncode e z, e, findSession_append h,
    find_append_single (other_ids h hw) (decide_eq_true he), he⟩

theorem Appended.fill (h : findSession i files = some z) (hw : w ∉ encodeIds files)
    (ha : Appended files i w files') {m : ContextMemory files} {c : OtzcEncode} :
    Appended files i w (modifySession i (setContent m w c) files') := by
  obtain ⟨e, he, rfl⟩ := ha
  refine ⟨m.fill c e, he, ?_⟩
  rw [Otzc.modifySession_modifySession (addEncode_sessionId e)]
  refine Otzc.modifySession_congr h ?_
  show Session.mk z.sessionId (modify _ _ (z.encodeList ++ [e])) = _
  rw [modify_append_single (other_ids h hw) (decide_eq_true he)]
  rfl

theorem Appended.free (h : findSession i files = some z) (hw : w ∉ encodeIds files)
    (ha : Appended files i w files') :
    modifySession i (fun z =>
      { z with encodeList := z.encodeList.eraseP fun e => e.encodeId = w }) files' = files := by
  obtain ⟨e, he, rfl⟩ := ha
  rw [Otzc.modifySession_modifySession (addEncode_sessionId e)]
  refine (Otzc.modifySession_congr h ?_).trans Otzc.modifySession_id
  show Session.mk z.sessionId ((z.encodeList ++ [e]).eraseP _) = z
  rw [eraseP_append_single (other_ids h hw) (decide_eq_true he)]

end

/-! ## The calls of the driver -/

section
variable {files : List DevFile} {io : InvokeIo files} {s : TeecSession} {commandId w : Word}
  {t : Command} {k : EncodeCall} {z : Session} {e : Encode}

theorem fresh_id {m : ContextMemory files} (h : m.alloc.fresh = some e) :
    e.encodeId ≠ noEncode ∧ e.encodeId ∉ encodeIds files := by
  obtain ⟨w, hw, h⟩ := Option.bind_eq_some_iff.mp h
  obtain ⟨a, -, h⟩ := Option.bind_eq_some_iff.mp h
  obtain ⟨x, -, rfl⟩ := Option.map_eq_some_iff.mp hw
  cases h
  exact x.property

theorem ioctl_of_neg {ret : Int} (h : ret < 0) : ioctl ret ≠ 0 := by
  unfold ioctl
  rw [if_pos h]
  decide

variable (commandId) in
theorem prepare_appended {a : EncodeAlloc} (h : findSession s.ids files = some z)
    (hw : w ∉ encodeIds files) (hne : w ≠ noEncode) (ha : Appended files s.ids w t.files)
    (hid : t.encodeId = w) : ∃ e, e.encodeId = w ∧
      otzClientPrepareEncode s.device (s.command commandId t.encodeId) a t.files
        = (0, some (e, t.files)) := by
  obtain ⟨z', e, hz, hfind, he⟩ := ha.find h hw
  have hz' : findSession ((s.command commandId t.encodeId).ids s.device) t.files = some z' := hz
  have hid' : (s.command commandId t.encodeId).encodeId = w := hid
  refine ⟨e, he, ?_⟩
  simp only [otzClientPrepareEncode, hz', hid']
  rw [if_neg hne, hfind]

theorem prepare_new {a : EncodeAlloc} (h : findSession s.ids files = some z)
    (he : a.fresh = some e) :
    otzClientPrepareEncode s.device (s.command commandId noEncode) a files
      = (0, some (e, modifySession s.ids (addEncode e) files)) := by
  have hz : findSession ((s.command commandId noEncode).ids s.device) files = some z := h
  simp only [otzClientPrepareEncode, hz, he]
  rfl

variable (commandId) in
theorem prepare_refused {a : EncodeAlloc}
    (hno : ¬((findSession s.ids files).isSome ∧ a.fresh.isSome)) : ∃ ret : Int, ret < 0 ∧
      otzClientPrepareEncode s.device (s.command commandId noEncode) a files = (ret, none) := by
  cases h : findSession ((s.command commandId noEncode).ids s.device) files with
  | none => exact ⟨Otzc.eInval, by decide, by simp only [otzClientPrepareEncode, h]⟩
  | some z =>
    cases he : a.fresh with
    | none =>
      refine ⟨eNomem, by decide, ?_⟩
      simp only [otzClientPrepareEncode, h, he]
      rfl
    | some e => exact absurd ⟨Option.isSome_of_eq_some h, Option.isSome_of_eq_some he⟩ hno

theorem encode_of_found {files' : List DevFile} (hin : k.io.copyIn = true)
    (h : otzClientPrepareEncode s.device (s.command commandId t.encodeId) io.memory.alloc t.files
      = (0, some (e, files'))) :
    encode io s commandId t k = encodeInto io s t k e files' := by
  unfold encode
  rw [hin, if_neg (by decide), h]

structure Known (files : List DevFile) (s : TeecSession) (w : Word) (t : Command) : Prop where
  files : Appended files s.ids w t.files
  encodeId : t.encodeId = w

theorem encode_known (h : findSession s.ids files = some z) (hw : w ∉ encodeIds files)
    (hne : w ≠ noEncode) (hk : Known files s w t) :
    Known files s w (encode io s commandId t k).2 := by
  cases hin : k.io.copyIn with
  | false =>
    unfold encode
    rw [hin, if_pos (by decide)]
    exact hk
  | true =>
    obtain ⟨e, he, hp⟩ := prepare_appended commandId h hw hne hk.files hk.encodeId
    rw [encode_of_found hin hp]
    refine ⟨?_, ?_⟩
    · show Appended files s.ids w (modifySession s.ids (setContent _ e.encodeId _) t.files)
      rw [he]
      exact hk.files.fill h hw
    · show (if k.io.copyOut = true then e.encodeId else t.encodeId) = w
      rw [he, hk.encodeId, ite_self]

inductive FirstCall (io : InvokeIo files) (s : TeecSession) (k : EncodeCall) (r : Int × Command) :
    Prop where
  /-- no context is made -/
  | refused (hno : ¬(k.io.copyIn ∧ (findSession s.ids files).isSome ∧ io.memory.alloc.fresh.isSome))
      (hret : r.1 ≠ 0) (ht : r.2 = newCommand files)
  /-- a context is made and its id is copied to the client -/
  | known {z : Session} {e : Encode} (hin : k.io.copyIn = true) (hout : k.io.copyOut = true)
      (h : findSession s.ids files = some z) (he : io.memory.alloc.fresh = some e)
      (hk : Known files s e.encodeId r.2)
  /-- a context is made and the client does not know it -/
  | lost {z : Session} {e : Encode} (hin : k.io.copyIn = true) (hout : k.io.copyOut = false)
      (h : findSession s.ids files = some z) (he : io.memory.alloc.fresh = some e)
      (hret : r.1 ≠ 0) (ha : Appended files s.ids e.encodeId r.2.files)
      (hid : r.2.encodeId = noEncode)

theorem encode_first : FirstCall io s k (ioctl (encode io s commandId (newCommand files) k).1,
    (encode io s commandId (newCommand files) k).2) := by
  by_cases hm : k.io.copyIn ∧ (findSession s.ids files).isSome ∧ io.memory.alloc.fresh.isSome
  · obtain ⟨hin, hz, he⟩ := hm
    obtain ⟨z, hz⟩ := Option.isSome_iff_exists.mp hz
    obtain ⟨e, he⟩ := Option.isSome_iff_exists.mp he
    obtain ⟨-, hw⟩ := fresh_id he
    rw [encode_of_found (t := newCommand files) hin (prepare_new hz he)]
    have hfiles : Appended files s.ids e.encodeId
        (encodeInto io s (newCommand files) k e (modifySession s.ids (addEncode e) files)).2.files :=
      Appended.fill hz hw ⟨e, rfl, rfl⟩
    cases hout : k.io.copyOut with
    | true =>
      refine .known hin hout hz he ⟨hfiles, ?_⟩
      show (if k.io.copyOut = true then e.encodeId else noEncode) = e.encodeId
      rw [hout, if_pos rfl]
    | false =>
      refine .lost hin hout hz he ?_ hfiles ?_
      · show ioctl (if k.io.copyOut = true then _ else -efault) ≠ 0
        rw [hout, if_neg (by decide)]
        decide
      · show (if k.io.copyOut = true then e.encodeId else noEncode) = noEncode
        rw [hout, if_neg (by decide)]
  · cases hin : k.io.copyIn with
    | false =>
      have he : encode io s commandId (newCommand files) k = (-efault, newCommand files) := by
        unfold encode
        rw [hin, if_pos (by decide)]
      rw [he]
      have hneg : -efault < 0 := by decide
      exact .refused hm (ioctl_of_neg hneg) rfl
    | true =>
      obtain ⟨ret, hneg, hp⟩ := prepare_refused (a := io.memory.alloc) commandId fun h => hm ⟨hin, h⟩
      have he : encode io s commandId (newCommand files) k = (ret, newCommand files) := by
        unfold encode
        rw [hin, if_neg (by decide)]
        show (match otzClientPrepareEncode s.device (s.command commandId noEncode) _ files with
          | (ret, none) => _ | (_, some (e, files')) => _) = _
        rw [hp]
        exact Prod.ext (if_neg fun h => h.2.1 rfl) rfl
      rw [he]
      exact .refused hm (ioctl_of_neg hneg) rfl

theorem FirstCall.andThen {r : Int × Command} {rest : Command → Int × Command}
    (h : FirstCall io s k r) (hrest : ∀ {z w t}, findSession s.ids files = some z →
      w ∉ encodeIds files → w ≠ noEncode → Known files s w t → Known files s w (rest t).2) :
    FirstCall io s k (if r.1 ≠ 0 then r else rest r.2) := by
  split_ifs with h0
  · exact h
  · cases h with
    | refused _ hret _ => exact absurd hret h0
    | known hin hout hz he hk =>
      obtain ⟨hne, hw⟩ := fresh_id he
      exact .known hin hout hz he (hrest hz hw hne hk)
    | lost _ _ _ _ hret _ _ => exact absurd hret h0

variable (io commandId) in
theorem encodeAll_known (h : findSession s.ids files = some z) (hw : w ∉ encodeIds files)
    (hne : w ≠ noEncode) (ks : List EncodeCall) (hk : Known files s w t) :
    Known files s w (encodeAll io s commandId t ks).2 := by
  induction ks generalizing t with
  | nil => exact hk
  | cons k ks ih =>
    have h1 : Known files s w (encode io s commandId t k).2 := encode_known h hw hne hk
    unfold encodeAll
    dsimp only
    split_ifs
    · exact h1
    · exact ih h1

end

/-! ## The loops -/

section
variable {files : List DevFile} {io : InvokeIo files} {s : TeecSession} {commandId w : Word}
  {t : Command} {k : EncodeCall} {z : Session} {e : Encode}
  {sp : Space} {op : TeecOperation} {cl : Invoke.Client}

theorem encodeLoop_known (h : findSession s.ids files = some z) (hw : w ∉ encodeIds files)
    (hne : w ≠ noEncode) (is : List (Fin 4)) (hk : Known files s w t) :
    Known files s w (encodeLoop io s commandId sp op cl t is).2 := by
  induction is generalizing t with
  | nil => exact hk
  | cons i is ih =>
    unfold encodeLoop
    cases paramCalls sp io.encode op cl i with
    | error e => exact hk
    | ok ks =>
      have h1 := encodeAll_known io commandId h hw hne ks hk
      dsimp only
      split_ifs
      · exact h1
      · exact ih h1

theorem checkParent_error {parent : Option TeecSharedMemory} {r : Int}
    (h : checkParent parent = .error r) : r ≠ 0 := by
  cases parent with
  | none =>
    cases h
    decide
  | some m =>
    unfold checkParent at h
    dsimp only at h
    split_ifs at h
    cases h
    decide

theorem paramCalls_error {i : Fin 4} {r : Int} (h : paramCalls sp io.encode op cl i = .error r) :
    r ≠ 0 := by
  unfold paramCalls at h
  cases hp : op.params i with
  | none =>
    rw [hp] at h
    cases h
  | value d =>
    rw [hp] at h
    cases h
  | memrefTemp d buffer =>
    rw [hp] at h
    dsimp only at h
    split_ifs at h
    cases h
    decide
  | memrefWhole parent =>
    rw [hp] at h
    dsimp only at h
    cases hc : checkParent parent with
    | error e =>
      rw [hc] at h
      cases h
      exact checkParent_error hc
    | ok m =>
      rw [hc] at h
      cases h
  | memrefPartial d parent offset =>
    rw [hp] at h
    dsimp only at h
    cases hc : checkParent parent with
    | error e =>
      rw [hc] at h
      cases h
      exact checkParent_error hc
    | ok m =>
      rw [hc] at h
      change (if _ then _ else if _ then _ else _ : Except Int (List EncodeCall)) = _ at h
      split_ifs at h
      · cases h
        decide
      · cases h
        decide

variable (io s commandId sp op cl) in
/-- **The encode loop**: the first call decides what becomes of the context. -/
theorem encodeLoop_first (is : List (Fin 4)) :
    match firstCall sp io.encode op cl is with
    | .error r => r ≠ 0 ∧ encodeLoop io s commandId sp op cl (newCommand files) is
        = (r, newCommand files)
    | .ok none => encodeLoop io s commandId sp op cl (newCommand files) is = (0, newCommand files)
    | .ok (some k) => FirstCall io s k (encodeLoop io s commandId sp op cl (newCommand files) is) := by
  induction is with
  | nil => rfl
  | cons i is ih =>
    unfold firstCall encodeLoop
    cases hp : paramCalls sp io.encode op cl i with
    | error r => exact ⟨paramCalls_error hp, rfl⟩
    | ok ks =>
      cases ks with
      | nil => exact ih
      | cons k ks =>
        have hall : FirstCall io s k (encodeAll io s commandId (newCommand files) (k :: ks)) :=
          encode_first.andThen fun hz hw hne hk => encodeAll_known io commandId hz hw hne ks hk
        exact hall.andThen fun hz hw hne hk => encodeLoop_known hz hw hne is hk

/-! ## The command is sent -/

theorem commandEncode_known {a : EncodeAlloc} {r : Encode × List DevFile} (hne : w ≠ noEncode)
    (hid : t.encodeId = w)
    (h : commandEncode s.device (s.command commandId t.encodeId) a t.files = some r) :
    r.1.encodeId = w ∧ r.2 = t.files := by
  unfold commandEncode at h
  have hid' : (s.command commandId t.encodeId).encodeId ≠ noEncode := hid.symm ▸ hne
  rw [if_neg hid'] at h
  obtain ⟨e, he, rfl⟩ := Option.map_eq_some_iff.mp h
  obtain ⟨⟨_, _, _, hid'⟩, -⟩ := Otzc.searchEncode_names he
  exact ⟨hid'.trans hid, rfl⟩

variable (service : OtzcEncode → Int × Invoke.Service)

theorem send_known (hne : w ≠ noEncode) (hk : Known files s w t) :
    Known files s w (send io s commandId service t).command := by
  unfold send
  split_ifs
  · exact hk
  · cases hc : commandEncode s.device (s.command commandId t.encodeId) io.memory.alloc t.files with
    | none =>
      rw [Otzc.sendCmd_none _ hc]
      exact hk
    | some r =>
      obtain ⟨he, hfiles⟩ := commandEncode_known hne hk.encodeId hc
      have hkept : Known files s w { t with files := r.2 } :=
        ⟨by rw [hfiles]; exact hk.files, hk.encodeId⟩
      rw [Otzc.sendCmd_some _ hc]
      unfold sendBack
      dsimp only
      split_ifs
      · exact hkept
      · exact hkept
      · exact ⟨hkept.files, he⟩

inductive FirstSend (io : InvokeIo files) (s : TeecSession) (ret : Int) (t : Command) : Prop where
  | refused (hno : ¬(io.sendIn ∧ (firstSession s.ids files).isSome ∧
      io.memory.alloc.fresh.isSome)) (ht : t = newCommand files)
  | known {z : Session} {e : Encode} (hin : io.sendIn = true)
      (hfirst : (firstSession s.ids files).isSome) (hret : ret = 0 ∧ io.sendOut = true)
      (h : findSession s.ids files = some z) (he : io.memory.alloc.fresh = some e)
      (hk : Known files s e.encodeId t)
  | lost {z : Session} {e : Encode} (hin : io.sendIn = true)
      (hfirst : (firstSession s.ids files).isSome) (hout : ¬(ret = 0 ∧ io.sendOut = true))
      (h : findSession s.ids files = some z) (he : io.memory.alloc.fresh = some e)
      (ha : Appended files s.ids e.encodeId t.files) (hid : t.encodeId = noEncode)

theorem commandEncode_new {a : EncodeAlloc} (hfirst : firstSession s.ids files = some z)
    (he : a.fresh = some e) :
    commandEncode s.device (s.command commandId noEncode) a files
      = some (e, modifySession s.ids (addEncode e) files) := by
  refine (if_pos rfl).trans ?_
  show (firstSession s.ids files).bind _ = _
  rw [hfirst, prepare_new (findSession_of_first hfirst) he]
  rfl

theorem commandEncode_refused {a : EncodeAlloc}
    (hno : ¬((firstSession s.ids files).isSome ∧ a.fresh.isSome)) :
    commandEncode s.device (s.command commandId noEncode) a files = none := by
  refine (if_pos rfl).trans ?_
  show (firstSession s.ids files).bind _ = _
  cases hfirst : firstSession s.ids files with
  | none => rfl
  | some z =>
    have hfresh : ¬((findSession s.ids files).isSome ∧ a.fresh.isSome) :=
      fun h => hno ⟨by rw [hfirst]; rfl, h.2⟩
    obtain ⟨ret, -, hp⟩ := prepare_refused commandId hfresh
    rw [Option.bind_some, hp]

theorem send_first : FirstSend io s (service freshEncode).1
    (send io s commandId service (newCommand files)).command := by
  by_cases hm : io.sendIn ∧ (firstSession s.ids files).isSome ∧ io.memory.alloc.fresh.isSome
  · obtain ⟨hin, hfirst, he⟩ := hm
    obtain ⟨z, hz⟩ := Option.isSome_iff_exists.mp hfirst
    obtain ⟨e, he⟩ := Option.isSome_iff_exists.mp he
    have hfind := findSession_of_first hz
    have hfiles : Appended files s.ids e.encodeId (modifySession s.ids (addEncode e) files) :=
      ⟨e, rfl, rfl⟩
    have hc : commandEncode s.device (s.command commandId (newCommand files).encodeId)
        io.memory.alloc (newCommand files).files = _ := commandEncode_new hz he
    unfold send
    rw [hin, if_neg (by decide), Otzc.sendCmd_some _ hc]
    unfold sendBack
    dsimp only
    split_ifs with hret hout
    · exact .lost hin hfirst (fun h => hret h.1) hfind he hfiles rfl
    · exact .lost hin hfirst (fun h => by rw [h.2] at hout; cases hout) hfind he hfiles rfl
    · exact .known hin hfirst ⟨not_not.mp hret, by simpa using hout⟩ hfind he ⟨hfiles, rfl⟩
  · refine .refused hm ?_
    unfold send
    split_ifs with hin
    · rfl
    · have hc : commandEncode s.device (s.command commandId (newCommand files).encodeId)
          io.memory.alloc (newCommand files).files = none :=
        commandEncode_refused fun h => hm ⟨by simpa using hin, h⟩
      rw [Otzc.sendCmd_none _ hc]
      rfl

/-! ## The release -/

theorem release_none (io : InvokeIo files) (hid : t.encodeId = noEncode) :
    (operationRelease io s t).1 = t.files := by
  unfold operationRelease
  cases io.releaseIn with
  | false => rfl
  | true =>
    rw [if_neg (by decide)]
    cases findSession s.ids t.files with
    | none => rfl
    | some z =>
      dsimp only
      rw [if_pos hid]

theorem release_known (h : findSession s.ids files = some z) (hw : w ∉ encodeIds files)
    (hne : w ≠ noEncode) (hk : Known files s w t) (hin : io.releaseIn = true) :
    (operationRelease io s t).1 = files := by
  obtain ⟨z', -, hz', -⟩ := hk.files.find h hw
  unfold operationRelease
  rw [hin, if_neg (by decide), hz']
  dsimp only
  rw [if_neg (hk.encodeId.symm ▸ hne), hk.encodeId]
  exact hk.files.free h hw

/-! ## The whole invocation -/

inductive Behind (files : List DevFile) (i : SessionIds) (fits : Prop) (files' : List DevFile) :
    Prop where
  | kept (h : fits) (hfiles : files' = files)
  | left {z : Session} {w : Word} (h : ¬fits) (hz : findSession i files = some z)
      (hw : w ∉ encodeIds files) (ha : Appended files i w files')

theorem FirstCall.behind {r : Int × Command} (h : FirstCall io s k r) :
    Behind files s.ids (k.io.copyIn → (findSession s.ids files).isSome →
      io.memory.alloc.fresh.isSome → k.io.copyOut ∧ io.releaseIn) (operationRelease io s r.2).1 := by
  cases h with
  | refused hno hret ht =>
    rw [ht]
    exact .kept (fun h1 h2 h3 => absurd ⟨h1, h2, h3⟩ hno) (release_none io rfl)
  | @known z e hin hout hz he hk =>
    obtain ⟨hne, hw⟩ := fresh_id he
    cases hrel : io.releaseIn with
    | true => exact .kept (fun _ _ _ => ⟨hout, rfl⟩) (release_known hz hw hne hk hrel)
    | false =>
      refine .left (fun h => ?_) hz hw (w := e.encodeId) ?_
      · exact Bool.false_ne_true (h hin (by rw [hz]; rfl) (by rw [he]; rfl)).2
      · unfold operationRelease
        rw [hrel, if_pos (by decide)]
        exact hk.files
  | @lost z e hin hout hz he hret ha hid =>
    obtain ⟨hne, hw⟩ := fresh_id he
    refine .left (fun h => ?_) hz hw (w := e.encodeId) ?_
    · have h1 := (h hin (by rw [hz]; rfl) (by rw [he]; rfl)).1
      rw [hout] at h1
      cases h1
    · rw [release_none io hid]
      exact ha

theorem FirstSend.behind {ret : Int} (h : FirstSend io s ret t) :
    Behind files s.ids (io.sendIn → (firstSession s.ids files).isSome →
      io.memory.alloc.fresh.isSome → ret = 0 ∧ io.sendOut ∧ io.releaseIn)
      (operationRelease io s t).1 := by
  cases h with
  | refused hno ht =>
    rw [ht]
    exact .kept (fun h1 h2 h3 => absurd ⟨h1, h2, h3⟩ hno) (release_none io rfl)
  | @known z e hin hfirst hret hz he hk =>
    obtain ⟨hne, hw⟩ := fresh_id he
    cases hrel : io.releaseIn with
    | true =>
      exact .kept (fun _ _ _ => ⟨hret.1, hret.2, rfl⟩) (release_known hz hw hne hk hrel)
    | false =>
      refine .left (fun h => ?_) hz hw (w := e.encodeId) ?_
      · exact Bool.false_ne_true (h hin hfirst (by rw [he]; rfl)).2.2
      · unfold operationRelease
        rw [hrel, if_pos (by decide)]
        exact hk.files
  | @lost z e hin hfirst hout hz he ha hid =>
    obtain ⟨-, hw⟩ := fresh_id he
    refine .left (fun h => ?_) hz hw (w := e.encodeId) ?_
    · obtain ⟨h1, h2, -⟩ := h hin hfirst (by rw [he]; rfl)
      exact hout ⟨h1, h2⟩
    · rw [release_none io hid]
      exact ha

variable {deliver : OtzcEncode → (UInt32 → UInt8) → Int × Invoke.Service}

theorem perform_command : (perform io s commandId sp op cl deliver t).command
    = (send io s commandId (fun c => deliver c cl.mem) t).command := by
  unfold perform
  dsimp only
  cases (send io s commandId (fun c => deliver c cl.mem) t).served with
  | none => rfl
  | some v =>
    dsimp only
    split_ifs
    · rfl
    · rfl

/-- **Behind an invocation** the driver has a context more exactly if the operation does not fit. -/
theorem answer_behind : Behind files s.ids (OperationFits io s sp op cl deliver)
    (operationRelease io s (answer io s commandId sp op cl deliver).command).1 := by
  have hloop := encodeLoop_first io s commandId sp op cl (List.finRange 4)
  unfold OperationFits answer
  cases hf : firstCall sp io.encode op cl (List.finRange 4) with
  | error r =>
    rw [hf] at hloop
    obtain ⟨hr, hloop⟩ := hloop
    rw [hloop]
    dsimp only
    rw [if_pos hr]
    exact .kept trivial (release_none io rfl)
  | ok first =>
    rw [hf] at hloop
    cases first with
    | none =>
      dsimp only at hloop ⊢
      rw [hloop, if_neg (not_not.mpr rfl), perform_command]
      have hsend : FirstSend io s (deliver freshEncode cl.mem).1
          (send io s commandId (fun c => deliver c cl.mem) (newCommand files)).command :=
        send_first fun c => deliver c cl.mem
      exact hsend.behind
    | some k =>
      have hrest : ∀ {z w t}, findSession s.ids files = some z → w ∉ encodeIds files →
          w ≠ noEncode → Known files s w t →
          Known files s w (perform io s commandId sp op cl deliver t).command := by
        intro z w t _ _ hne hk
        rw [perform_command]
        exact send_known _ hne hk
      let rest : Command → Int × Command := fun t =>
        (0, (perform io s commandId sp op cl deliver t).command)
      have hall : FirstCall io s k
          (let r := encodeLoop io s commandId sp op cl (newCommand files) (List.finRange 4)
          if r.1 ≠ 0 then r else rest r.2) := hloop.andThen hrest
      have hb := hall.behind
      dsimp only at hb ⊢
      split_ifs at hb ⊢
      · exact hb
      · exact hb

theorem operationFits_begin :
    OperationFits io s.begin sp op cl deliver = OperationFits io s sp op cl deliver := rfl

theorem Behind.kept_iff {fits : Prop} {files' : List DevFile} (h : Behind files s.ids fits files') :
    files' = files ↔ fits := by
  cases h with
  | kept hf hfiles => exact iff_of_true hfiles hf
  | left hf hz hw ha =>
    refine iff_of_false (fun heq => hw ?_) hf
    rw [heq] at ha
    exact ha.mem hz

theorem Behind.noContext_iff {fits : Prop} {files' : List DevFile} (h : Behind files s.ids fits files') :
    (∀ w ∈ encodeIds files', w ∈ encodeIds files) ↔ files' = files := by
  cases h with
  | kept hf hfiles =>
    rw [hfiles]
    exact iff_of_true (fun _ hw => hw) rfl
  | left hf hz hw ha =>
    refine iff_of_false (fun hall => hw (hall _ (ha.mem hz))) fun heq => hw ?_
    rw [heq] at ha
    exact ha.mem hz

end

section
variable {files : List DevFile} (io : InvokeIo files) (s : TeecSession) (commandId : Word)
  (sp : Space) (cl : Invoke.Client)
  (service : OtzcEncode → (UInt32 → UInt8) → Int × Invoke.Service)
  (operation : Option TeecOperation)

/-- **An invocation is balanced exactly if it is given an operation that is not started, or whose
context comes to be known to the client and is released.** -/
theorem invoke_balanced_iff :
    (∃ r, teecInvokeCommand io commandId sp cl service (some s) operation = some r ∧
      Balanced s files r) ↔ InvokeFits io s sp cl service operation := by
  cases operation with
  | none =>
    refine iff_of_false ?_ ?_
    · rintro ⟨r, hr, -⟩
      cases hr
    · rintro ⟨op, hop, -⟩
      cases hop
  | some op =>
    cases hstarted : op.started with
    | false =>
      refine iff_of_true ⟨⟨teecErrorNotImplemented, some s, cl, files⟩, ?_, ?_⟩ ⟨op, rfl, ?_⟩
      · show (if (!op.started) = true then _ else _) = _
        rw [hstarted]
        rfl
      · exact ⟨rfl, fun _ hw => hw, id, id⟩
      · rw [hstarted]
        nofun
    | true =>
      have hb : Behind files s.begin.ids (OperationFits io s.begin sp op cl service)
          (operationRelease io s.begin (answer io s.begin commandId sp op cl service).command).1 :=
        answer_behind
      rw [operationFits_begin] at hb
      have hinvoke : teecInvokeCommand io commandId sp cl service (some s) (some op)
          = some ⟨(answer io s.begin commandId sp op cl service).ret, some s.begin.finish,
            (answer io s.begin commandId sp op cl service).client,
            (operationRelease io s.begin (answer io s.begin commandId sp op cl service).command).1⟩ := by
        show (if (!op.started) = true then _ else _) = _
        rw [hstarted]
        rfl
      rw [hinvoke, s.finish_begin]
      have hfits : InvokeFits io s sp cl service (some op) ↔ OperationFits io s sp op cl service := by
        constructor
        · rintro ⟨op', hop, h⟩
          cases hop
          exact h hstarted
        · exact fun h => ⟨op, rfl, fun _ => h⟩
      rw [hfits, ← hb.kept_iff]
      constructor
      · rintro ⟨r, hr, hbal⟩
        cases hr
        exact hb.noContext_iff.mp hbal.noContext
      · intro hfiles
        exact ⟨_, rfl, rfl, hb.noContext_iff.mpr hfiles, fun h => hfiles.symm ▸ h,
          fun h => hfiles.symm ▸ h⟩

end

/-! ## The close behind the invocations -/

/-- a run of invocations, each with the session that the one before has left -/
inductive Invoked : TeecSession → List DevFile → TeecSession → List DevFile → Prop where
  | refl (s : TeecSession) (files : List DevFile) : Invoked s files s files
  | step {s s1 s' : TeecSession} {files files' : List DevFile} {r : Result} (io : InvokeIo files)
      (commandId : Word) (sp : Space) (cl : Invoke.Client)
      (service : OtzcEncode → (UInt32 → UInt8) → Int × Invoke.Service)
      (operation : Option TeecOperation)
      (hr : teecInvokeCommand io commandId sp cl service (some s) operation = some r)
      (hs : r.session = some s1) (h : Invoked s1 r.files s' files') : Invoked s files s' files'

section
variable {files files' : List DevFile} {i : SessionIds} {s s' : TeecSession}

theorem closeSession_modify {g : Session → Session} (hg : ∀ z, (g z).sessionId = z.sessionId)
    (secure : List Word) (closes : Bool) :
    (Worlds.mk (Otzc.modifySession i g files) secure).closeSession i closes
      = (Worlds.mk files secure).closeSession i closes := by
  unfold Otzc.Worlds.closeSession Otzc.modifyService Otzc.modifySession
  congr 1
  rw [modify_modify (by intro f; rfl)]
  congr 1
  funext f
  rw [modify_modify (by intro v; rfl)]
  congr 2
  funext v
  rw [eraseP_modify (by intro z; rw [hg])]

theorem Behind.close {fits : Prop} (h : Behind files i fits files') (secure : List Word) (closes : Bool) :
    (Worlds.mk files' secure).otzClientSessionClose i true closes
      = (Worlds.mk files secure).otzClientSessionClose i true closes := by
  cases h with
  | kept _ hfiles => rw [hfiles]
  | left _ hz _ ha =>
    obtain ⟨e, -, rfl⟩ := ha
    unfold Otzc.Worlds.otzClientSessionClose
    rw [findSession_append hz, hz, closeSession_modify (addEncode_sessionId e)]
    rfl

/-- **The close.** Whatever a run of invocations has left in the driver, the session is as it was,
and closing it does what closing it before the run would have done. -/
theorem close_after_invocations (h : Invoked s files s' files') (secure : List Word) (closes : Bool)
    (h0 : s.operationCnt = 0) : s' = s ∧
      teecCloseSession s' true closes ⟨files', secure⟩ = teecCloseSession s true closes ⟨files, secure⟩ := by
  induction h with
  | refl s files => exact ⟨rfl, rfl⟩
  | @step s s1 s' files files' r io commandId sp cl service operation hr hs _ ih =>
    unfold teecInvokeCommand at hr
    dsimp only at hr
    split_ifs at hr
    · cases hr
      cases hs
      exact ih h0
    · obtain ⟨op, -, rfl⟩ := Option.map_eq_some_iff.mp hr
      dsimp only at hs ih
      rw [s.finish_begin] at hs
      cases hs
      obtain ⟨heq, hclose⟩ := ih h0
      refine ⟨heq, hclose.trans ?_⟩
      have hb : Behind files s.begin.ids (OperationFits io s.begin sp op cl service)
          (operationRelease io s.begin (answer io s.begin commandId sp op cl service).command).1 :=
        answer_behind
      have hids : s.begin.ids = s.ids := rfl
      rw [hids] at hb
      unfold teecCloseSession
      rw [if_neg (not_not.mpr h0), if_neg (not_not.mpr h0)]
      dsimp only
      rw [hb.close]

end

/-! ## A context that is left behind -/

/-- one file with one service and one session -/
def oneSession : List DevFile := [⟨1, [⟨7, [⟨3, []⟩]⟩]⟩]

def openSession : TeecSession := ⟨1, 7, 3, 0⟩

def fineIo : InvokeIo oneSession where
  memory := ⟨some ⟨0x1000, by decide⟩, some 0x2000, 0x3000, 0x4000⟩
  encode := fun _ _ _ => ⟨true, 0, some fun _ => 0, true⟩
  sendIn := true
  sendOut := true
  decode := fun _ _ => ⟨true, 0, true⟩
  releaseIn := true

def emptyOperation : TeecOperation := ⟨0x8000, true, fun _ => .none, by decide, by decide⟩

def emptySpace : Space := ⟨id, fun _ => 0, fun _ => 0, [], [], fun _ => true, fun _ => 0⟩

def emptyClient : Invoke.Client := ⟨fun _ => 0, fun _ => 0, fun _ => 0⟩

def refusingService (c : OtzcEncode) (mem : UInt32 → UInt8) : Int × Invoke.Service :=
  (1, Invoke.Service.start c mem)

/-- without parameters the client does not learn the id of the context of a refused command -/
theorem refused_context_kept : ¬ ∀ (files : List DevFile) (io : InvokeIo files) (s : TeecSession)
    (commandId : Word) (sp : Space) (cl : Invoke.Client)
    (service : OtzcEncode → (UInt32 → UInt8) → Int × Invoke.Service)
    (operation : Option TeecOperation),
    ∃ r, teecInvokeCommand io commandId sp cl service (some s) operation = some r ∧
      Balanced s files r := by
  intro h
  obtain ⟨r, hr, hb⟩ := h oneSession fineIo openSession 5 emptySpace emptyClient refusingService
    (some emptyOperation)
  have hmem : 0x1000 ∈ encodeIds r.files := by
    cases hr
    decide +kernel
  have hnot : (0x1000 : Word) ∉ encodeIds oneSession := by decide
  exact hnot (hb.noContext _ hmem)

/-- the context of a refused command goes with its session -/
theorem close_after_refused : ∃ s' files', Invoked openSession oneSession s' files' ∧
    0x1000 ∈ encodeIds files' ∧ teecCloseSession s' true true ⟨files', [3]⟩ =
      teecCloseSession openSession true true ⟨oneSession, [3]⟩ := by
  have h : Invoked openSession oneSession openSession _ := .step fineIo 5 emptySpace emptyClient
    refusingService (some emptyOperation) rfl rfl (.refl _ _)
  exact ⟨_, _, h, by decide +kernel, (close_after_invocations h [3] true rfl).2⟩

end Invocation
end SierraTee
