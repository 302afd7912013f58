import SierraTee.Lib.Keyed
import SierraTee.Notify.DeviceFile

/-!
# The sessions of the driver (`otz_client_main.c`)
-/

namespace SierraTee
namespace Otzc
open FlatMemory Keyed

def eInval : Int := -22

/-! ## What the driver keeps -/

/-- `otzc_encode`, with its buffers by their addresses; 0 is NULL -/
structure Encode where
  encodeId : Word
  kerReqDataAddr : Word
  encReqOffset : Word
  kerResDataAddr : Word
  encResOffset : Word
  metaAddr : Word
  sendWaitFlag : Bool

/-- `otzc_session` -/
structure Session where
  sessionId : Word
  encodeList : List Encode

/-- `otzc_service` -/
structure Service where
  serviceId : Word
  sessionsList : List Session

/-- `otzc_dev_file` -/
structure DevFile where
  devFileId : Word
  servicesList : List Service

structure SessionIds where
  devFileId : Word
  serviceId : Word
  sessionId : Word

section
variable (i : SessionIds)

/-- the session that the loops of a search for `i` come to, if none of them is left too early -/
def findSession (files : List DevFile) : Option Session := do
  let f ← files.find? fun f => f.devFileId = i.devFileId
  let v ← f.servicesList.find? fun v => v.serviceId = i.serviceId
  v.sessionsList.find? fun z => z.sessionId = i.sessionId

def findService (dev svc : Word) (files : List DevFile) : Option Service := do
  let f ← files.find? fun f => f.devFileId = dev
  f.servicesList.find? fun v => v.serviceId = svc

/-- the session that the loops of a command and of a notification come to: the loop over the sessions
is left in its first round -/
def firstSession (files : List DevFile) : Option Session := do
  let f ← files.find? fun f => f.devFileId = i.devFileId
  let v ← f.servicesList.find? fun v => v.serviceId = i.serviceId
  let z ← v.sessionsList.head?
  if z.sessionId = i.sessionId then some z else none

def searchEncode (encId : Word) (files : List DevFile) : Option Encode :=
  (firstSession i files).bind fun z => z.encodeList.find? fun e => e.encodeId = encId

def modifySession (g : Session → Session) (files : List DevFile) : List DevFile :=
  modify (fun f => f.devFileId = i.devFileId) (fun f =>
    { f with
      servicesList := modify (fun v => v.serviceId = i.serviceId) (fun v =>
        { v with sessionsList := modify (fun z => z.sessionId = i.sessionId) g v.sessionsList })
          f.servicesList }) files

end

/-! ## A command -/

/-- `struct otz_client_encode_cmd` -/
structure EncodeCmd where
  encodeId : Word
  serviceId : Word
  sessionId : Word
  cmdId : Word

def EncodeCmd.ids (enc : EncodeCmd) (devFileId : Word) : SessionIds :=
  ⟨devFileId, enc.serviceId, enc.sessionId⟩

def noEncode : Word := 0xFFFFFFFF

/-- the arguments of `otz_smc_call`; `waitData` is the context whose wait data is handed over -/
structure SecureCall where
  devFileId : Word
  svcId : Word
  cmdId : Word
  context : Word
  encId : Word
  cmdBuf : Word
  cmdLen : Word
  respBuf : Word
  respLen : Word
  metaData : Word
  waitData : Word

/-- the memory of a new context and of its meta data, by their addresses -/
structure EncodeAlloc where
  context : Option Word
  metaAddr : Option Word

def EncodeAlloc.fresh (a : EncodeAlloc) : Option Encode := do
  let c ← a.context
  let m ← a.metaAddr
  some { encodeId := c, kerReqDataAddr := 0, encReqOffset := 0, kerResDataAddr := 0,
         encResOffset := 0, metaAddr := m, sendWaitFlag := false }

section
variable (devFileId : Word) (enc : EncodeCmd) (a : EncodeAlloc) (files : List DevFile)

/-- `otz_client_prepare_encode`: the result, and the context with the lists -/
def otzClientPrepareEncode : Int × Option (Encode × List DevFile) :=
  match findSession (enc.ids devFileId) files with
  | none => (eInval, none)
  | some z =>
    let found := if enc.encodeId = noEncode then none
      else z.encodeList.find? fun e => e.encodeId = enc.encodeId
    match found with
    | some e => (0, some (e, files))
    | none =>
      match a.fresh with
      | none => (eNomem, none)
      | some e => (0, some (e, modifySession (enc.ids devFileId) (fun z =>
          { z with encodeList := z.encodeList ++ [e] }) files))

def commandEncode : Option (Encode × List DevFile) :=
  if enc.encodeId = noEncode then
    (firstSession (enc.ids devFileId) files).bind fun _ =>
      (otzClientPrepareEncode devFileId enc a files).2
  else (searchEncode (enc.ids devFileId) enc.encodeId files).map fun e => (e, files)

/-- the call for the context `e`; its id is in the command when it has been made just now -/
def EncodeCmd.call (e : Encode) : SecureCall where
  devFileId := devFileId
  svcId := enc.serviceId
  cmdId := enc.cmdId
  context := enc.sessionId
  encId := e.encodeId
  cmdBuf := e.kerReqDataAddr
  cmdLen := e.encReqOffset
  respBuf := e.kerResDataAddr
  respLen := e.encResOffset
  metaData := e.metaAddr
  waitData := e.encodeId

structure Sent where
  files : List DevFile
  call : Option SecureCall
  ret : Int

/-- `otz_client_kernel_send_cmd`; `smc` is the result of `otz_smc_call` -/
def otzClientKernelSendCmd (smc : SecureCall → Int) : Sent :=
  match commandEncode devFileId enc a files with
  | none => ⟨files, none, eInval⟩
  | some r => ⟨r.2, some (enc.call devFileId r.1), smc (enc.call devFileId r.1)⟩

end

/-! ## A notification -/

section
variable (files : List DevFile)

def notifyIds (d : OtzcNotifyData) : SessionIds := ⟨d.devFileId, d.serviceId, d.sessionId⟩

/-- `ipi_secure_notify`: the lists, and whether the queue of the context is woken up -/
def ipiSecureNotify (d : Option OtzcNotifyData) : List DevFile × Bool :=
  match d with
  | none => (files, false)
  | some d =>
    match searchEncode (notifyIds d) d.encId files with
    | none => (files, false)
    | some e =>
      if e.sendWaitFlag then (files, false)
      else (modifySession (notifyIds d) (fun z =>
        { z with
          encodeList := modify (fun e => e.encodeId = d.encId) (fun e =>
            { e with sendWaitFlag := true }) z.encodeList }) files, true)

end

/-! ## The contexts that are named -/

section
variable (i : SessionIds) (encId : Word) (files files' : List DevFile)

def NamesSession (z : Session) : Prop :=
  ∃ f ∈ files, f.devFileId = i.devFileId ∧ ∃ v ∈ f.servicesList, v.serviceId = i.serviceId ∧
    z ∈ v.sessionsList ∧ z.sessionId = i.sessionId

def NamesEncode (e : Encode) : Prop :=
  ∃ z, NamesSession i files z ∧ e ∈ z.encodeList ∧ e.encodeId = encId

/-- one session with these ids has been changed along `r`, and nothing else -/
def AtSession (r : Session → Session → Prop) : Prop :=
  Changed (fun f => f.devFileId = i.devFileId) (fun f f' =>
    f'.devFileId = f.devFileId ∧ Changed (fun v => v.serviceId = i.serviceId) (fun v v' =>
      v'.serviceId = v.serviceId ∧ Changed (fun z => z.sessionId = i.sessionId) r
        v.sessionsList v'.sessionsList) f.servicesList f'.servicesList) files files'

/-- one context with these ids has been changed along `r`, and nothing else -/
def AtEncode (r : Encode → Encode → Prop) : Prop :=
  AtSession i files files' fun z z' => z'.sessionId = z.sessionId ∧
    Changed (fun e => e.encodeId = encId) r z.encodeList z'.encodeList

end

section
variable {i : SessionIds} {encId : Word} {files files' : List DevFile} {z : Session}
  {r : Session → Session → Prop} {g : Session → Session}

theorem findSession_cases (h : findSession i files = some z) : ∃ f v,
    (files.find? (fun f => f.devFileId = i.devFileId) = some f ∧ f.devFileId = i.devFileId) ∧
    (f.servicesList.find? (fun v => v.serviceId = i.serviceId) = some v ∧
      v.serviceId = i.serviceId) ∧
    v.sessionsList.find? (fun z => z.sessionId = i.sessionId) = some z ∧
      z.sessionId = i.sessionId := by
  obtain ⟨f, hf, h⟩ := Option.bind_eq_some_iff.mp h
  obtain ⟨v, hv, hz⟩ := Option.bind_eq_some_iff.mp h
  have h1 := List.find?_some hf
  have h2 := List.find?_some hv
  have h3 := List.find?_some hz
  exact ⟨f, v, ⟨hf, of_decide_eq_true h1⟩, ⟨hv, of_decide_eq_true h2⟩, hz, of_decide_eq_true h3⟩

theorem findSession_names (h : findSession i files = some z) : NamesSession i files z := by
  obtain ⟨f, v, ⟨hf, h1⟩, ⟨hv, h2⟩, hz, h3⟩ := findSession_cases h
  exact ⟨f, List.mem_of_find?_eq_some hf, h1, v, List.mem_of_find?_eq_some hv, h2,
    List.mem_of_find?_eq_some hz, h3⟩

theorem findSession_of_first (h : firstSession i files = some z) : findSession i files = some z := by
  obtain ⟨f, hf, h⟩ := Option.bind_eq_some_iff.mp h
  obtain ⟨v, hv, h⟩ := Option.bind_eq_some_iff.mp h
  obtain ⟨z', hz, h⟩ := Option.bind_eq_some_iff.mp h
  split_ifs at h with hid
  cases h
  obtain ⟨zs, hzs⟩ := List.head?_eq_some_iff.mp hz
  refine Option.bind_eq_some_iff.mpr ⟨f, hf, Option.bind_eq_some_iff.mpr ⟨v, hv, ?_⟩⟩
  rw [hzs, List.find?_cons, decide_eq_true hid]

theorem modifySession_at (h : findSession i files = some z) (hr : r z (g z)) :
    AtSession i files (modifySession i g files) r := by
  obtain ⟨f, v, ⟨hf, h1⟩, ⟨hv, h2⟩, hz, h3⟩ := findSession_cases h
  refine modify_changed hf h1 ⟨rfl, ?_⟩
  refine modify_changed hv h2 ⟨rfl, ?_⟩
  exact modify_changed hz h3 hr

theorem findSession_modifySession (hg : ∀ z, (g z).sessionId = z.sessionId) :
    findSession i (modifySession i g files) = (findSession i files).map g := by
  unfold findSession modifySession
  rw [find_modify (by intro f; rfl)]
  cases files.find? (fun f => f.devFileId = i.devFileId) with
  | none => rfl
  | some f =>
    show ((modify _ _ f.servicesList).find? _).bind _ = _
    rw [find_modify (by intro v; rfl)]
    show _ = Option.map g ((f.servicesList.find? fun v => v.serviceId = i.serviceId).bind _)
    cases f.servicesList.find? (fun v => v.serviceId = i.serviceId) with
    | none => rfl
    | some v => exact find_modify fun z => by rw [hg]

theorem modifySession_modifySession {g' : Session → Session}
    (hg : ∀ z, (g z).sessionId = z.sessionId) :
    modifySession i g' (modifySession i g files) = modifySession i (fun z => g' (g z)) files := by
  unfold modifySession
  rw [modify_modify (by intro f; rfl)]
  congr 1
  funext f
  dsimp only
  rw [modify_modify (by intro v; rfl)]
  congr 2
  funext v
  dsimp only
  rw [modify_modify fun z => by rw [hg]]

theorem modifySession_congr {g' : Session → Session} (h : findSession i files = some z)
    (hg : g z = g' z) : modifySession i g files = modifySession i g' files := by
  obtain ⟨f, v, ⟨hf, -⟩, ⟨hv, -⟩, hz, -⟩ := findSession_cases h
  refine modify_congr hf ?_
  rw [modify_congr hv]
  rw [modify_congr hz hg]

theorem modifySession_id : modifySession i id files = files := by
  have hv : (fun v : Service =>
      ({ v with sessionsList := modify (fun z => z.sessionId = i.sessionId) id v.sessionsList } :
        Service)) = id := by
    funext v
    rw [modify_id]
    rfl
  have hf : (fun f : DevFile =>
      ({ f with servicesList := modify (fun v => v.serviceId = i.serviceId) id f.servicesList } :
        DevFile)) = id := by
    funext f
    rw [modify_id]
    rfl
  unfold modifySession
  rw [hv, hf, modify_id]

theorem AtSession.self (h : NamesSession i files z) (hr : r z z) : AtSession i files files r := by
  obtain ⟨f, hf, h1, v, hv, h2, hz, h3⟩ := h
  exact Changed.self hf h1 ⟨rfl, Changed.self hv h2 ⟨rfl, Changed.self hz h3 hr⟩⟩

theorem AtSession.names (h : AtSession i files files' r) :
    ∃ z, NamesSession i files z ∧ ∃ z', r z z' := by
  obtain ⟨f, hf, h1, f', -, hv⟩ := h.exists
  obtain ⟨v, hv, h2, v', -, hz⟩ := hv.exists
  obtain ⟨z, hz, h3, z', hr⟩ := hz.exists
  exact ⟨z, ⟨f, hf, h1, v, hv, h2, hz, h3⟩, z', hr⟩

variable {e : Encode} {q : Encode → Encode → Prop}

theorem AtEncode.self (h : NamesEncode i encId files e) (hq : q e e) :
    AtEncode i encId files files q := by
  obtain ⟨z, hz, he, hid⟩ := h
  exact AtSession.self hz ⟨rfl, Changed.self he hid hq⟩

theorem AtEncode.names (h : AtEncode i encId files files' q) :
    ∃ e, NamesEncode i encId files e ∧ ∃ e', q e e' := by
  obtain ⟨z, hz, z', -, he⟩ := AtSession.names h
  obtain ⟨e, he, hid, e', hq⟩ := he.exists
  exact ⟨e, ⟨z, hz, he, hid⟩, e', hq⟩

end

end Otzc
end SierraTee
