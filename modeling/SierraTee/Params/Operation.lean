import SierraTee.Params.Encode
import Mathlib.Data.List.FinRange

/-!
# An operation of the client API and its encoding (`otz_tee_api.c`)

`TEEC_InvokeCommand` goes through the four parameters of an operation and makes the encode calls
of each, at most four for a value and two for a memory reference.  A reference to a block that
`TEEC_AllocateSharedMemory` made is passed as an address, every other reference as an array.
-/

namespace SierraTee
namespace Invoke
open Word Bytes

/-! ## parameters -/

inductive Transfer where
  | input
  | output
  | inout

namespace Transfer

def hasInput : Transfer → Bool
  | .output => false
  | _ => true

def hasOutput : Transfer → Bool
  | .input => false
  | _ => true

end Transfer

/-- `TEEC_SharedMemory`.  The two calls that make one accept no other flags; a pointer one past
the end of the block does not wrap around. -/
structure TeecSharedMemory where
  buffer : UInt32
  size : UInt32
  flags : Transfer
  allocated : Bool
  inSpace : buffer.toNat + size.toNat < 2 ^ 32

/-- `TEEC_Parameter` with its type; `none` stands for every type that is not one of the ten -/
inductive TeecParameter where
  | none
  | value (d : Transfer)
  | memrefTemp (d : Transfer) (buffer : UInt32)
  | memrefWhole (parent : Option TeecSharedMemory)
  | memrefPartial (d : Transfer) (parent : Option TeecSharedMemory) (offset : UInt32)

/-- `TEEC_Operation` at the address `addr` of the client; `started`, `paramTypes` and the four
parameters of twelve bytes each take 56 bytes -/
structure TeecOperation where
  addr : UInt32
  started : Bool
  params : Fin 4 → TeecParameter
  notNull : addr ≠ 0
  inSpace : addr.toNat + 56 < 2 ^ 32

/-- `&operation->params[i].value.a`, or `.b` for the second field -/
def TeecOperation.valueAddr (op : TeecOperation) (i : Fin 4) (second : Bool) : UInt32 :=
  op.addr + UInt32.ofNat (8 + 12 * i.val + if second then 4 else 0)

/-- what the parameters refer to: the value fields by their addresses, the size fields of the
memory references, and the bytes of the buffers by their physical addresses.  The operation itself
does not lie in a buffer. -/
structure Client where
  words : UInt32 → UInt32
  size : Fin 4 → UInt32
  mem : UInt32 → UInt8

/-- `otzc_shared_mem`; `kAddr` is the physical address of the block -/
structure OtzcSharedMem where
  index : UInt32
  kAddr : UInt32
  uAddr : UInt32

/-- what stands behind the addresses -/
structure Space where
  /-- the physical byte of a user address -/
  page : UInt32 → UInt32
  /-- how many bytes `copy_from_user` can read from a user address -/
  readable : UInt32 → Nat
  /-- how many bytes `copy_to_user` can write from a user address -/
  writable : UInt32 → Nat
  sessionSharedMem : List OtzcSharedMem
  devSharedMem : List OtzcSharedMem
  /-- whether `map_ns_section_entry` succeeds for a physical address -/
  mapNsSectionEntry : UInt32 → Bool
  /-- how many bytes the service can write from a mapped address -/
  nsWritable : UInt32 → Nat

def Space.mapToNs (sp : Space) (physAddr : UInt32) : Option UInt32 :=
  if sp.mapNsSectionEntry physAddr then some physAddr else none

/-- the search of `otz_client_kernel_encode_mem_ref`: the session's list, then the device file's -/
def Space.findSharedMem (sp : Space) (data : UInt32) : Option OtzcSharedMem :=
  (sp.sessionSharedMem.find? fun s => s.index = data).orElse fun _ =>
    sp.devSharedMem.find? fun s => s.index = data

def Space.sharedAddr (sp : Space) (data offset : UInt32) : Option (UInt32 × UInt32) :=
  (sp.findSharedMem data).map fun s => (s.kAddr + offset, s.uAddr + offset)

/-- the bytes that `copy_from_user` can read at a user address -/
def Space.readFrom (sp : Space) (cl : Client) (addr : UInt32) : List UInt8 :=
  (List.range (sp.readable addr)).map fun k => cl.mem (sp.page (addr + UInt32.ofNat k))

/-! ## the encode calls of a parameter -/

def teecErrorAccessDenied : Int := toInt32 0xFFFF0001
def teecErrorExcessData : Int := toInt32 0xFFFF0004
def teecErrorBadFormat : Int := toInt32 0xFFFF0005
def teecErrorBadParameters : Int := toInt32 0xFFFF0006
def teecErrorNotImplemented : Int := toInt32 0xFFFF0009
def teecErrorNoData : Int := toInt32 0xFFFF000B

def teecValueUndef : UInt32 := 0xFFFFFFFF

/-- what `ioctl` returns for a driver function that returns `ret` -/
def ioctl (ret : Int) : Int := if ret < 0 then -1 else ret

/-- the outcomes of the kernel calls in an encode call, by the parameter, the field of a value and
the direction of the call -/
abbrev EncodeIo := Fin 4 → Bool → ParamType → CallIo

def dirCalls (d : Transfer) (call : ParamType → EncodeCall) : List EncodeCall :=
  match d with
  | .input => [call .paramIn]
  | .output => [call .paramOut]
  | .inout => [call .paramIn, call .paramOut]

section
variable (sp : Space) (io : EncodeIo) (op : TeecOperation) (cl : Client) (i : Fin 4)

def valueCalls (d : Transfer) (second : Bool) : List EncodeCall :=
  dirCalls d fun t =>
    .uint32 (io i second t) t (cl.words (op.valueAddr i second)) (op.valueAddr i second)

def arrayCalls (d : Transfer) (len buffer : UInt32) : List EncodeCall :=
  dirCalls d fun t => .array (io i false t) t len (sp.readFrom cl buffer) buffer

def blockCalls (m : TeecSharedMemory) (d : Transfer) (len offset : UInt32) : List EncodeCall :=
  if m.allocated then
    dirCalls d fun t => .memRef (io i false t) t len (sp.sharedAddr m.buffer offset)
  else arrayCalls sp io cl i d len (m.buffer + offset)

def checkParent : Option TeecSharedMemory → Except Int TeecSharedMemory
  | none => .error teecErrorNoData
  | some m => if m.buffer = 0 then .error teecErrorNoData else .ok m

def allows (m : TeecSharedMemory) (d : Transfer) : Bool :=
  (!d.hasInput || m.flags.hasInput) && (!d.hasOutput || m.flags.hasOutput)

/-- `enc.data` after the calls of parameter `i`, if there are any -/
def paramData : Option UInt32 :=
  match op.params i with
  | .none => none
  | .value _ => some (op.valueAddr i (cl.words (op.valueAddr i true) ≠ teecValueUndef))
  | .memrefTemp _ buffer => some buffer
  | .memrefWhole parent => parent.map fun m => m.buffer
  | .memrefPartial _ parent offset =>
    parent.map fun m => if m.allocated then m.buffer else m.buffer + offset

/-- the encode calls of parameter `i`; the sum in the check of a partial reference is one of
32 bits -/
def paramCalls : Except Int (List EncodeCall) :=
  match op.params i with
  | .none => .ok []
  | .value d =>
    .ok (valueCalls io op cl i d false ++
      if cl.words (op.valueAddr i true) ≠ teecValueUndef then valueCalls io op cl i d true else [])
  | .memrefTemp d buffer =>
    if buffer = 0 ∨ cl.size i = 0 then .error teecErrorNoData
    else .ok (arrayCalls sp io cl i d (cl.size i) buffer)
  | .memrefWhole parent =>
    (checkParent parent).bind fun m => .ok (blockCalls sp io cl i m m.flags m.size 0)
  | .memrefPartial d parent offset =>
    (checkParent parent).bind fun m =>
      if !allows m d then .error teecErrorBadFormat
      else if m.size < offset + cl.size i then .error teecErrorExcessData
      else .ok (blockCalls sp io cl i m d (cl.size i) offset)

end

/-! ## the encode loop -/

def encodeCalls (c : OtzcEncode) : List EncodeCall → Except Int OtzcEncode
  | [] => .ok c
  | k :: ks =>
    if (encodeCall c k).ret = 0 then encodeCalls (encodeCall c k).ctx ks
    else .error (ioctl (encodeCall c k).ret)

section
variable (sp : Space) (io : EncodeIo) (op : TeecOperation) (cl : Client)

def encodeParams (c : OtzcEncode) : List (Fin 4) → Except Int OtzcEncode
  | [] => .ok c
  | i :: is =>
    (paramCalls sp io op cl i).bind fun ks =>
      (encodeCalls c ks).bind fun c' => encodeParams c' is

/-- the encode loop of `TEEC_InvokeCommand` -/
def encodeOperation : Except Int OtzcEncode :=
  encodeParams sp io op cl freshEncode (List.finRange 4)

/-- `enc.data` after the encode loop -/
def encData : UInt32 :=
  (List.finRange 4).foldl (fun data i => (paramData op cl i).getD data) 0

/-- the calls of an operation whose parameters pass their checks -/
def operationCalls : List EncodeCall :=
  (List.finRange 4).flatMap fun i => (paramCalls sp io op cl i).toOption.getD []

end

end Invoke
end SierraTee
