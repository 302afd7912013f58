import SierraTee.Params.Encode

/-!
# The secure side's `decode_data` (`task_control.c`)

`decode_data` takes one parameter from the request buffer.  Its out parameters are a pointer and
a length; a pointer into the request buffer is given by its offset.  `none` is a read outside
the request buffer or an error of the decoder.
-/

namespace SierraTee
open Word Bytes

inductive OutData where
  /-- `data + offset` -/
  | inRequest (offset : Int)
  /-- a mapped address of the normal world -/
  | mapped (addr : UInt32)
  /-- an address that is used as it is -/
  | address (addr : UInt32)
  deriving DecidableEq

/-- the out parameters of `decode_data`; `outLen` is the word of an `int` -/
structure Decoded where
  type : Nat
  offset : Int
  pos : Nat
  mapped : Bool
  outData : OutData
  outLen : UInt32

def toInt (w : UInt32) : Int := toInt32 w.toNat

/-- `decode_data`; `size` is the size of the request area `data`, and a memory reference is read
at `(sw_uint *)data + temp_offset` -/
def decodeData (mapToNs : UInt32 → Option UInt32) (size : Nat) (data : Nat → UInt8)
    (metaData : Nat → OtzcEncodeMeta) (offset : Int) (pos : Nat) : Option Decoded :=
  let m := metaData pos
  if m.type = otzEncUint32 then
    some ⟨otzEncUint32, offset + 4, pos + 1, false, .inRequest offset, m.len⟩
  else if m.type = otzEncArray then
    some ⟨otzEncArray, offset + toInt m.len, pos + 1, false, .inRequest offset, m.len⟩
  else if m.type = otzMemRef then do
    let phys ← loadWord size data (4 * offset)
    let addr ← mapToNs phys
    some ⟨otzMemRef, offset + 4, pos + 1, true, .mapped addr, m.len⟩
  else if m.type = otzSecureMemRef then do
    let addr ← loadWord size data (4 * offset)
    some ⟨otzMemRef, offset + 4, pos + 1, false, .address addr, m.len⟩
  else none

/-- a parameter as the service sees it: the word, the bytes or the address behind `*out_data`,
with `*out_len` -/
inductive Received where
  | uint32 (value len : UInt32)
  | array (bytes : List UInt8) (len : UInt32)
  | memRef (addr len : UInt32)
  deriving DecidableEq

def receive (size : Nat) (data : Nat → UInt8) (d : Decoded) : Option Received :=
  match d.outData with
  | .inRequest offset =>
    if d.type = otzEncUint32 then (loadWord size data offset).map fun v => .uint32 v d.outLen
    else (load size data offset d.outLen.toNat).map fun bytes => .array bytes d.outLen
  | .mapped addr => some (.memRef addr d.outLen)
  | .address addr => some (.memRef addr d.outLen)

theorem receive_uint32 (size : Nat) (data : Nat → UInt8) (o next : Int) (pos : Nat)
    (mapped : Bool) (l : UInt32) :
    receive size data ⟨otzEncUint32, next, pos, mapped, .inRequest o, l⟩
      = (loadWord size data o).map fun v => .uint32 v l := by
  unfold receive
  exact if_pos rfl

theorem receive_array (size : Nat) (data : Nat → UInt8) (o next : Int) (pos : Nat)
    (mapped : Bool) (l : UInt32) :
    receive size data ⟨otzEncArray, next, pos, mapped, .inRequest o, l⟩
      = (load size data o l.toNat).map fun bytes => .array bytes l := by
  unfold receive
  have hne : ¬ otzEncArray = otzEncUint32 := by decide
  exact if_neg hne

/-- `decode_data` once for each of `n` parameters: what they give, and the last offset and
position -/
def decodeAll (mapToNs : UInt32 → Option UInt32) (size : Nat) (data : Nat → UInt8)
    (metaData : Nat → OtzcEncodeMeta) :
    Nat → Int → Nat → Option (List Received × Int × Nat)
  | 0, offset, pos => some ([], offset, pos)
  | n + 1, offset, pos =>
    (decodeData mapToNs size data metaData offset pos).bind fun d =>
      (receive size data d).bind fun r =>
        (decodeAll mapToNs size data metaData n d.offset d.pos).map fun t => (r :: t.1, t.2)

end SierraTee
