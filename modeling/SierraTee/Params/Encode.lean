import SierraTee.Lib.Word
import SierraTee.Lib.Bytes
import SierraTee.Lib.Runs

/-!
# The driver's encode calls (`otz_client_main.c`)

An encode context has a request and a response buffer of 1 KB each and a meta table of sixteen
entries, twelve for the request and four for the response.  The three encode calls append one
parameter.  They share one body, `encodeReq` for input parameters and `encodeRes` for output
parameters; a call gives it the length, the type and the place of its data.

A reply lists, besides the result and the new context, the ranges of the buffer that the call
writes or reserves and the entries of the meta table it fills.
-/

namespace SierraTee
open Word Bytes

def otz1kSize : Nat := 1024
def otzMaxReqParams : Nat := 12
def otzMaxResParams : Nat := 4

def otzEncUint32 : Nat := 1
def otzEncArray : Nat := 2
def otzMemRef : Nat := 3
def otzSecureMemRef : Nat := 4

def enomem : Int := 12
def efault : Int := 14
def einval : Int := 22

/-- `struct otzc_encode_meta` without the response length, which the encoder does not set -/
structure OtzcEncodeMeta where
  type : Nat
  len : UInt32
  usrAddr : UInt32

/-- `otzc_encode`; a buffer that is not allocated yet is `none` -/
structure OtzcEncode where
  kerReqDataAddr : Option (Nat → UInt8)
  kerResDataAddr : Option (Nat → UInt8)
  encReqOffset : Nat
  encResOffset : Nat
  encReqPos : Nat
  encResPos : Nat
  metaData : Nat → OtzcEncodeMeta

/-- the context that `otz_client_prepare_encode` makes -/
def freshEncode : OtzcEncode where
  kerReqDataAddr := none
  kerResDataAddr := none
  encReqOffset := 0
  encResOffset := 0
  encReqPos := 0
  encResPos := otzMaxReqParams
  metaData := fun _ => ⟨0, 0, 0⟩

structure Extent where
  start : Nat
  len : Nat

structure Reply where
  ret : Int
  ctx : OtzcEncode
  /-- ranges of the buffer that are written or reserved -/
  used : List Extent
  /-- entries of the meta table that are filled -/
  slots : List Nat

def refuse (ret : Int) (c : OtzcEncode) : Reply := ⟨ret, c, [], []⟩

/-- what a call appends: `size` is what the offset goes up by, `place` the byte offset of the
data, `bytes` the data that is stored there, `complete` whether all of it is the client's -/
structure ParamData where
  size : UInt32
  type : Nat
  len : UInt32
  place : Nat → Nat
  bytes : List UInt8
  complete : Bool
  usrAddr : Option UInt32

def ParamData.entry (p : ParamData) (old : OtzcEncodeMeta) : OtzcEncodeMeta :=
  ⟨p.type, p.len, p.usrAddr.getD old.usrAddr⟩

/-- an input parameter; `kmalloc` is the result of an allocation of the buffer -/
def encodeReq (c : OtzcEncode) (kmalloc : Option (Nat → UInt8)) (p : ParamData) : Reply :=
  match c.kerReqDataAddr.orElse fun _ => kmalloc with
  | none => refuse (-enomem) c
  | some buf =>
    let off := c.encReqOffset
    if u32 (off + p.size.toNat) ≤ otz1kSize ∧ c.encReqPos < otzMaxReqParams then
      let c1 := { c with kerReqDataAddr := some (store otz1kSize buf (p.place off) p.bytes) }
      let written : Extent := ⟨p.place off, p.bytes.length⟩
      if p.complete then
        { ret := 0
          ctx := { c1 with
            encReqOffset := u32 (off + p.size.toNat)
            encReqPos := c.encReqPos + 1
            metaData := Function.update c.metaData c.encReqPos (p.entry (c.metaData c.encReqPos)) }
          used := [written, ⟨off, p.size.toNat⟩]
          slots := [c.encReqPos] }
      else ⟨-efault, c1, [written], []⟩
    else refuse (-enomem) { c with kerReqDataAddr := some buf }

def encodeRes (c : OtzcEncode) (kmalloc : Option (Nat → UInt8)) (p : ParamData) : Reply :=
  match c.kerResDataAddr.orElse fun _ => kmalloc with
  | none => refuse (-enomem) c
  | some buf =>
    let off := c.encResOffset
    if u32 (off + p.size.toNat) ≤ otz1kSize ∧
        c.encResPos < otzMaxResParams + otzMaxReqParams then
      { ret := 0
        ctx := { c with
          kerResDataAddr := some (store otz1kSize buf (p.place off) p.bytes)
          encResOffset := u32 (off + p.size.toNat)
          encResPos := c.encResPos + 1
          metaData := Function.update c.metaData c.encResPos (p.entry (c.metaData c.encResPos)) }
        used := [⟨p.place off, p.bytes.length⟩, ⟨off, p.size.toNat⟩]
        slots := [c.encResPos] }
    else refuse (-enomem) { c with kerResDataAddr := some buf }

/-- `param_type` of the request: `OTZC_PARAM_IN`, `OTZC_PARAM_OUT` or any other value -/
inductive ParamType where
  | paramIn
  | paramOut
  | other
  deriving DecidableEq

/-- the outcomes of the kernel calls inside an encode call: the copies of the command from and to
the client, the search for the context, and an allocation of a buffer -/
structure CallIo where
  copyIn : Bool
  prepare : Int
  kmalloc : Option (Nat → UInt8)
  copyOut : Bool

/-- the frame of the calls from user space: the command is copied in, the context is looked up,
and the command is copied back -/
def withUserCommand (io : CallIo) (c : OtzcEncode) (body : Reply) : Reply :=
  if !io.copyIn then refuse (-efault) c
  else if io.prepare ≠ 0 then refuse io.prepare c
  else if !io.copyOut then { body with ret := -efault }
  else body

def otzClientEncodeUint32 (c : OtzcEncode) (io : CallIo) (paramType : ParamType) (data : UInt32)
    (usrAddr : UInt32) : Reply :=
  withUserCommand io c <|
    match paramType with
    | .paramIn => encodeReq c io.kmalloc ⟨4, otzEncUint32, 4, id, wordBytes data, true, none⟩
    | .paramOut => encodeRes c io.kmalloc ⟨4, otzEncUint32, 4, id, [], true, some usrAddr⟩
    | .other => refuse 0 c

/-- `copy_from_user` of `n` bytes where `data` can be read: the rest is filled with zeros -/
def copyFromUser (n : Nat) (data : List UInt8) : List UInt8 :=
  data.take n ++ List.replicate (n - data.length) 0

/-- `otz_client_encode_array`; `data` is what `copy_from_user` can read at `enc.data` -/
def otzClientEncodeArray (c : OtzcEncode) (io : CallIo) (paramType : ParamType) (len : UInt32)
    (data : List UInt8) (usrAddr : UInt32) : Reply :=
  withUserCommand io c <|
    match paramType with
    | .paramIn => encodeReq c io.kmalloc
        ⟨len, otzEncArray, len, id, copyFromUser len.toNat data, len.toNat ≤ data.length, none⟩
    | .paramOut => encodeRes c io.kmalloc ⟨len, otzEncArray, len, id, [], true, some usrAddr⟩
    | .other => refuse 0 c

/-- `otz_client_kernel_encode_mem_ref`; `shared` is the registered block that `enc->data` names:
the physical and the user address of its byte `enc->offset`.  The address goes to
`(u32 *)buffer + offset`, which is four times the offset in bytes. -/
def otzClientKernelEncodeMemRef (c : OtzcEncode) (io : CallIo) (paramType : ParamType)
    (len : UInt32) (shared : Option (UInt32 × UInt32)) : Reply :=
  if io.prepare ≠ 0 then refuse io.prepare c
  else
    match shared with
    | none => refuse (-einval) c
    | some (phys, usr) =>
      match paramType with
      | .paramIn => encodeReq c io.kmalloc
          ⟨4, otzMemRef, len, fun off => 4 * off, wordBytes phys, true, some usr⟩
      | .paramOut => encodeRes c io.kmalloc
          ⟨4, otzMemRef, len, fun off => 4 * off, wordBytes phys, true, some usr⟩
      | .other => refuse 0 c

/-- an encode call with what it is given -/
inductive EncodeCall where
  | uint32 (io : CallIo) (paramType : ParamType) (data usrAddr : UInt32)
  | array (io : CallIo) (paramType : ParamType) (len : UInt32) (data : List UInt8)
      (usrAddr : UInt32)
  | memRef (io : CallIo) (paramType : ParamType) (len : UInt32)
      (shared : Option (UInt32 × UInt32))

def encodeCall (c : OtzcEncode) : EncodeCall → Reply
  | .uint32 io t data usr => otzClientEncodeUint32 c io t data usr
  | .array io t len data usr => otzClientEncodeArray c io t len data usr
  | .memRef io t len shared => otzClientKernelEncodeMemRef c io t len shared

theorem length_copyFromUser (n : Nat) (data : List UInt8) : (copyFromUser n data).length = n := by
  unfold copyFromUser
  rw [List.length_append, List.length_take, List.length_replicate]
  omega

theorem copyFromUser_all {n : Nat} {data : List UInt8} (h : n ≤ data.length) :
    copyFromUser n data = data.take n := by
  unfold copyFromUser
  rw [Nat.sub_eq_zero_of_le h, List.replicate_zero, List.append_nil]

/-- the context after a call -/
def encodeStep (c : OtzcEncode) (k : EncodeCall) : Option OtzcEncode := some (encodeCall c k).ctx

end SierraTee
