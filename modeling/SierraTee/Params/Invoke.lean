import SierraTee.Lib.Writes
import SierraTee.Params.Decode
import SierraTee.Params.Operation

/-!
# The invocation of a command (`otz_tee_api.c`, `otz_client_main.c`, `task_control.c`)

After the parameters are encoded the driver hands the response area and the meta table to the
service.  The service takes one output parameter after the other from the area with
`decode_data`, writes to each and reports the lengths with `update_response_len`.  Then
`TEEC_InvokeCommand` goes through the parameters once more and has the driver decode the outputs.
-/

namespace SierraTee
open Function
namespace Invoke
open Word Bytes Runs Writes

/-! ## the service -/

/-- `update_response_len` on the response lengths of the meta table -/
def updateResponseLen (retLen : Nat → UInt32) (pos : Nat) (len : UInt32) : Option (Nat → UInt32) :=
  if pos ≤ otzMaxReqParams + otzMaxResParams then some (update retLen (pos - 1) len)
  else none

/-- a service in the middle of its walk -/
structure Service where
  /-- the response area -/
  area : Nat → UInt8
  /-- the memory of the normal world, by physical addresses -/
  mem : UInt32 → UInt8
  /-- `ret_len` of the entries of the meta table -/
  retLen : Nat → UInt32
  offset : Int
  pos : Nat
  /-- what `decode_data` has given -/
  decoded : List Decoded
  /-- what has been written to each output parameter -/
  written : Nat → Option (List UInt8)

inductive ServiceCall where
  /-- `decode_data` for the next output parameter -/
  | decode
  /-- these bytes are all that is written to output parameter `k`, and they are reported -/
  | write (k : Nat) (bytes : List UInt8)

namespace Service
variable (sp : Space) (c : OtzcEncode) (s : Service)

def start (mem : UInt32 → UInt8) : Service where
  area := c.kerResDataAddr.getD fun _ => 0
  mem := mem
  retLen := fun _ => 0
  offset := 0
  pos := otzMaxReqParams
  decoded := []
  written := fun _ => none

def decode : Option Service :=
  if s.pos < c.encResPos then
    (decodeData sp.mapToNs otz1kSize s.area c.metaData s.offset s.pos).map fun d =>
      { s with offset := d.offset, pos := d.pos, decoded := s.decoded ++ [d] }
  else none

def putMapped (addr : UInt32) (bytes : List UInt8) : Option Service :=
  if bytes.length ≤ sp.nsWritable addr then
    some { s with mem := applyWrites s.mem (block (fun x => addr + UInt32.ofNat x) bytes) }
  else none

/-- the bytes go to `*out_data`; `none` is a write outside the response area or a fault -/
def put (d : Decoded) (bytes : List UInt8) : Option Service :=
  match d.outData with
  | .inRequest offset =>
    if 0 ≤ offset ∧ offset + bytes.length ≤ otz1kSize then
      some { s with area := store otz1kSize s.area offset.toNat bytes }
    else none
  | .mapped addr => s.putMapped sp addr bytes
  | .address addr => s.putMapped sp addr bytes

def report (d : Decoded) (bytes : List UInt8) : Option Service :=
  if d.type = otzEncUint32 then if bytes.length = 4 then some s else none
  else
    (updateResponseLen s.retLen d.pos (UInt32.ofNat bytes.length)).map fun r =>
      { s with retLen := r }

/-- an output parameter is written once, and with at most `*out_len` bytes -/
def write (k : Nat) (bytes : List UInt8) : Option Service :=
  s.decoded[k]?.bind fun d =>
    if s.written k = none ∧ bytes.length ≤ (toInt d.outLen).toNat then
      (s.put sp d bytes).bind fun s1 => (s1.report d bytes).map fun s2 =>
        { s2 with written := update s.written k (some bytes) }
    else none

end Service

def serviceStep (sp : Space) (c : OtzcEncode) (s : Service) : ServiceCall → Option Service
  | .decode => s.decode sp c
  | .write k bytes => s.write sp k bytes

def Walked (sp : Space) (c : OtzcEncode) (mem : UInt32 → UInt8) (s : Service) : Prop :=
  (∃ calls, run (serviceStep sp c) (Service.start c mem) calls = some s) ∧
    ∀ k, otzMaxReqParams + k < c.encResPos → s.written k ≠ none

/-! ## the decode calls of the driver -/

/-- the outcomes of the kernel calls inside a decode call: the copies of the command from and to
the client, and the search for the context -/
structure DecodeIo where
  copyIn : Bool
  prepare : Int
  copyOut : Bool

/-- the decode position of the context, `enc.data` and `enc.len` of the client, and what the
operation refers to -/
structure Decoding where
  client : Client
  decResPos : Nat
  decOffset : Nat
  data : UInt32
  len : UInt32

/-- the frame of the decode calls; a command that is not copied back is as it was -/
def withDecodeContext (io : DecodeIo) (s : Decoding) (body : Int × Decoding) : Int × Decoding :=
  if !io.copyIn then (-efault, s)
  else if io.prepare ≠ 0 then (io.prepare, s)
  else if body.1 ≠ 0 then body
  else if !io.copyOut then (-efault, { body.2 with data := s.data, len := s.len })
  else body

/-- the response that the service leaves: the context, the area and the reported lengths -/
structure Response where
  ctx : OtzcEncode
  area : Nat → UInt8
  retLen : Nat → UInt32

def Service.response (s : Service) (c : OtzcEncode) : Response := ⟨c, s.area, s.retLen⟩

section
variable (sp : Space) (r : Response)

def AtType (s : Decoding) (type : Nat) : Prop :=
  s.decResPos ≤ r.ctx.encResPos ∧ (r.ctx.metaData s.decResPos).type = type

instance (s : Decoding) (type : Nat) : Decidable (AtType r s type) :=
  inferInstanceAs (Decidable (_ ∧ _))

/-- the user address of the parameter, or `dec.data` as it is -/
def usrAddrOr (s : Decoding) : UInt32 :=
  if (r.ctx.metaData s.decResPos).usrAddr ≠ 0 then (r.ctx.metaData s.decResPos).usrAddr else s.data

/-- `otz_client_decode_uint32`; a parameter of another type is left alone -/
def otzClientDecodeUint32 (io : DecodeIo) (s : Decoding) : Int × Decoding :=
  withDecodeContext io s <|
    if AtType r s otzEncUint32 then
      (0, { s with
        client := { s.client with
          words := update s.client.words (usrAddrOr r s)
            (ofBytes fun k => r.area (s.decOffset + k)) }
        data := usrAddrOr r s
        decOffset := u32 (s.decOffset + 4)
        decResPos := s.decResPos + 1 })
    else (0, s)

/-- `copy_to_user` of `n` bytes of the area; it writes as far as it can -/
def copyToUser (s : Decoding) (n : Nat) : Client :=
  { s.client with
    mem := applyWrites s.client.mem (block (fun x => sp.page (usrAddrOr r s + UInt32.ofNat x))
      (((List.range n).map fun x => r.area (s.decOffset + x)).take
        (sp.writable (usrAddrOr r s)))) }

def otzClientDecodeArraySpace (io : DecodeIo) (s : Decoding) : Int × Decoding :=
  withDecodeContext io s <|
    let retLen := r.retLen s.decResPos
    let m := r.ctx.metaData s.decResPos
    if AtType r s otzEncArray then
      if toInt retLen ≤ toInt m.len then
        if sp.writable (usrAddrOr r s) < retLen.toNat then
          (-efault, { s with client := copyToUser sp r s retLen.toNat })
        else
          (0, { client := copyToUser sp r s retLen.toNat
                decResPos := s.decResPos + 1
                decOffset := u32 (s.decOffset + m.len.toNat)
                data := usrAddrOr r s
                len := retLen })
      else (-efault, s)
    else if AtType r s otzMemRef then
      if toInt retLen ≤ toInt m.len then
        (0, { client := s.client
              decResPos := s.decResPos + 1
              decOffset := u32 (s.decOffset + 4)
              data := m.usrAddr
              len := retLen })
      else (-efault, s)
    else (-einval, s)

end

/-! ## the decode loop of the client -/

section
variable (sp : Space) (io : Fin 4 → Bool → DecodeIo) (op : TeecOperation) (r : Response)

/-- a field of a value; the client stores what it finds at `enc.data` once more -/
def decodeField (i : Fin 4) (second : Bool) (s : Decoding) : Int × Decoding :=
  let t := otzClientDecodeUint32 r (io i second) { s with len := 4 }
  if ioctl t.1 ≠ 0 then (ioctl t.1, t.2)
  else
    (0, { t.2 with
      client := { t.2.client with
        words := update t.2.client.words (op.valueAddr i second)
          (t.2.client.words t.2.data) } })

def decodeValue (i : Fin 4) (s : Decoding) : Int × Decoding :=
  let t := decodeField io op r i false s
  if t.1 ≠ 0 then t
  else if t.2.client.words (op.valueAddr i true) ≠ teecValueUndef then
    decodeField io op r i true t.2
  else t

def decodeReference (i : Fin 4) (s : Decoding) : Int × Decoding :=
  let t := otzClientDecodeArraySpace sp r (io i false) s
  if ioctl t.1 ≠ 0 then (ioctl t.1, t.2)
  else (0, { t.2 with client := { t.2.client with
    size := update t.2.client.size i t.2.len } })

def TeecParameter.hasOutput : TeecParameter → Bool
  | .none => false
  | .value d => d.hasOutput
  | .memrefTemp d _ => d.hasOutput
  | .memrefWhole parent => (parent.map fun m => m.flags.hasOutput).getD false
  | .memrefPartial d _ _ => d.hasOutput

def TeecParameter.isValue : TeecParameter → Bool
  | .value _ => true
  | _ => false

def decodeParam (i : Fin 4) (s : Decoding) : Int × Decoding :=
  if !(op.params i).hasOutput then (0, s)
  else if (op.params i).isValue then decodeValue io op r i s
  else decodeReference sp io r i s

def decodeParams (s : Decoding) : List (Fin 4) → Int × Decoding
  | [] => (0, s)
  | i :: is =>
    let t := decodeParam sp io op r i s
    if t.1 ≠ 0 then t else decodeParams t.2 is

end

/-! ## `TEEC_InvokeCommand` -/

/-- the result of the invocation for the result of the driver's `send` -/
def sendResult (ret : Int) : Int :=
  if ioctl ret = -efault then teecErrorAccessDenied
  else if ioctl ret = -einval then teecErrorBadParameters
  else ioctl ret

def firstDecoding (client : Client) (data : UInt32) : Decoding :=
  ⟨client, otzMaxReqParams, 0, data, 0⟩

/-- `TEEC_InvokeCommand` with an operation; `service` is what the driver's `send` returns for the
encoded parameters and what the service leaves -/
def teecInvokeCommand (sp : Space) (io : EncodeIo) (dio : Fin 4 → Bool → DecodeIo)
    (service : OtzcEncode → (UInt32 → UInt8) → Int × Service) (op : TeecOperation)
    (cl : Client) : Int × Client :=
  if !op.started then (teecErrorNotImplemented, cl)
  else
    match encodeOperation sp io op cl with
    | .error e => (e, cl)
    | .ok c =>
      let r := service c cl.mem
      let cl1 : Client := { cl with mem := r.2.mem }
      if sendResult r.1 ≠ 0 then (sendResult r.1, cl1)
      else
        let t := decodeParams sp dio op (r.2.response c) (firstDecoding cl1 (encData op cl))
          (List.finRange 4)
        (t.1, t.2.client)

end Invoke
end SierraTee
