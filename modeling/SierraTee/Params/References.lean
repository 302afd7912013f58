import SierraTee.Api.Blocks
import SierraTee.Params.Operation
import SierraTee.Params.RoundTrip

/-!
# The ranges of memory references (`otz_api.c`, `otz_tee_api.c`, `otz_client_main.c`)

A reference names a range of a shared block.  The two client APIs compare the end of the range
with the length of the block; the sum is one of 32 bits.  The driver looks the block up by its
user address and adds the offset to the physical address, without a check of its own.

* `references_inside_iff`  the ranges lie in the block exactly if the sum does not wrap around and
                           the search comes to the block.
-/

namespace SierraTee
namespace Invoke
open Word Bytes Api

/-! ## what the driver encodes -/

/-- the fields of `struct otz_client_encode_cmd` that a reference sets -/
structure MemRefCmd where
  data : UInt32
  offset : UInt32
  len : UInt32
  paramType : ParamType
  deriving DecidableEq

structure PassedRange where
  addr : UInt32
  len : UInt32
  deriving DecidableEq

section
variable (sp : Space) (c : OtzcEncode) (io : CallIo) (cmd : MemRefCmd)

/-- `otz_client_kernel_encode_mem_ref` with its search for the block -/
def encodeMemRef : Reply :=
  otzClientKernelEncodeMemRef c io cmd.paramType cmd.len (sp.sharedAddr cmd.data cmd.offset)

def passedRange : Option PassedRange :=
  if (encodeMemRef sp c io cmd).slots = [] then none
  else (sp.sharedAddr cmd.data cmd.offset).map fun a => ⟨a.1, cmd.len⟩

variable {sp c io cmd}

theorem passedRange_some {p : PassedRange} (h : passedRange sp c io cmd = some p) :
    ∃ m, sp.findSharedMem cmd.data = some m ∧ p = ⟨m.kAddr + cmd.offset, cmd.len⟩ := by
  unfold passedRange at h
  split at h
  · cases h
  · obtain ⟨a, ha, rfl⟩ := Option.map_eq_some_iff.1 h
    obtain ⟨m, hm, rfl⟩ := Option.map_eq_some_iff.1 ha
    exact ⟨m, hm, rfl⟩

end

/-! ## what an application asks for -/

/-- a registered block: it is one piece of the physical memory and of the client's, and the address
one past its end does not wrap around in either -/
structure SharedBlock where
  start : UInt32
  user : UInt32
  size : UInt32
  inMemory : start.toNat + size.toNat < 2 ^ 32
  inSpace : user.toNat + size.toNat < 2 ^ 32

def SharedBlock.tee (blk : SharedBlock) (flags : Transfer) : TeecSharedMemory where
  buffer := blk.user
  size := blk.size
  flags := flags
  allocated := true
  inSpace := blk.inSpace

/-- A reference to a block with the flags of the block first: by `otz_encode_memory_reference`, of
an operation that is `ready` for it, or as a parameter of `TEEC_InvokeCommand`. -/
inductive Reference where
  | otz (ready : Bool) (blockFlags f : MemFlags) (d : ParamDir) (offset length : UInt32)
  | memrefWhole (flags : Transfer)
  | memrefPartial (flags d : Transfer) (offset length : UInt32)

namespace Reference

def offset : Reference → UInt32
  | .otz _ _ _ _ offset _ => offset
  | .memrefWhole _ => 0
  | .memrefPartial _ _ offset _ => offset

def length (blk : SharedBlock) : Reference → UInt32
  | .otz _ _ _ _ _ length => length
  | .memrefWhole _ => blk.size
  | .memrefPartial _ _ _ length => length

def directions : Transfer → List ParamType
  | .input => [.paramIn]
  | .output => [.paramOut]
  | .inout => [.paramIn, .paramOut]

def ofDir : ParamDir → ParamType
  | .input => .paramIn
  | .output => .paramOut

/-- the commands that the API sends to the driver; none for a reference that it refuses -/
def commands (blk : SharedBlock) : Reference → List MemRefCmd
  | .otz ready blockFlags f d offset length =>
    if ready = false ∨ badReference f blockFlags d ∨ blk.size < offset + length then []
    else [⟨blk.user, offset, length, ofDir d⟩]
  | .memrefWhole flags =>
    if blk.user = 0 then []
    else (directions flags).map fun t => ⟨blk.user, 0, blk.size, t⟩
  | .memrefPartial flags d offset length =>
    if blk.user = 0 ∨ allows (blk.tee flags) d = false ∨ blk.size < offset + length then []
    else (directions d).map fun t => ⟨blk.user, offset, length, t⟩

section
variable {sp : Space} {io : EncodeIo} {op : TeecOperation} {cl : Client} {i : Fin 4}
  {blk : SharedBlock} {flags d : Transfer}

theorem commands_otz {ready : Bool} {blockFlags f : MemFlags} {dir : ParamDir}
    {offset length : UInt32} : (otz ready blockFlags f dir offset length).commands blk
      = if ready = false ∨ badReference f blockFlags dir ∨ blk.size < offset + length then []
        else [⟨blk.user, offset, length, ofDir dir⟩] := rfl

theorem commands_whole : (memrefWhole flags).commands blk
    = if blk.user = 0 then []
      else (directions flags).map fun t => ⟨blk.user, 0, blk.size, t⟩ := rfl

theorem commands_partial {offset length : UInt32} :
    (memrefPartial flags d offset length).commands blk
      = if blk.user = 0 ∨ allows (blk.tee flags) d = false ∨ blk.size < offset + length then []
        else (directions d).map fun t => ⟨blk.user, offset, length, t⟩ := rfl

end

end Reference

/-! ## where the ranges lie -/

structure InsideBlock (blk : SharedBlock) (offset : UInt32) (p : PassedRange) : Prop where
  starts : p.addr.toNat = blk.start.toNat + offset.toNat
  ends : p.addr.toNat + p.len.toNat ≤ blk.start.toNat + blk.size.toNat

/-- every range that the driver encodes for the reference lies in the block -/
def StaysInside (sp : Space) (blk : SharedBlock) (ref : Reference) : Prop :=
  ∀ cmd ∈ ref.commands blk, ∀ c io p, passedRange sp c io cmd = some p →
    InsideBlock blk ref.offset p

/-- if the API accepts the reference and the driver finds a block at the user address, it is this
block, and the offset and the length do not add up to 2^32 or more -/
def ReferenceOk (sp : Space) (blk : SharedBlock) (ref : Reference) : Prop :=
  ref.commands blk ≠ [] → ∀ m, sp.findSharedMem blk.user = some m →
    m.kAddr = blk.start ∧ ref.offset.toNat + (ref.length blk).toNat < 2 ^ 32

section
variable {sp : Space} {blk : SharedBlock} {ref : Reference} {cmd : MemRefCmd}

theorem Reference.commands_spec (h : cmd ∈ ref.commands blk) :
    cmd.data = blk.user ∧ cmd.offset = ref.offset ∧ cmd.len = ref.length blk ∧
      ¬ blk.size < ref.offset + ref.length blk ∧ cmd.paramType ≠ .other := by
  have hdir : ∀ {d : Transfer} {t : ParamType}, t ∈ directions d → t ≠ .other := by
    intro d t ht he
    subst he
    cases d <;> simp [directions] at ht
  cases ref with
  | otz ready blockFlags f d offset length =>
    rw [Reference.commands_otz] at h
    split at h
    · cases h
    · next hc =>
      obtain rfl := List.mem_singleton.1 h
      refine ⟨rfl, rfl, rfl, fun hs => hc (Or.inr (Or.inr hs)), ?_⟩
      cases d <;> exact ParamType.noConfusion
  | memrefWhole flags =>
    rw [Reference.commands_whole] at h
    split at h
    · cases h
    · obtain ⟨t, ht, rfl⟩ := List.mem_map.1 h
      refine ⟨rfl, rfl, rfl, ?_, hdir ht⟩
      show ¬ blk.size < 0 + blk.size
      rw [UInt32.zero_add]
      exact UInt32.lt_irrefl _
  | memrefPartial flags d offset length =>
    rw [Reference.commands_partial] at h
    split at h
    · cases h
    · next hc =>
      obtain ⟨t, ht, rfl⟩ := List.mem_map.1 h
      exact ⟨rfl, rfl, rfl, fun hs => hc (Or.inr (Or.inr hs)), hdir ht⟩

theorem insideBlock_of_check {offset len : UInt32} (hc : ¬ blk.size < offset + len)
    (hw : offset.toNat + len.toNat < 2 ^ 32) : InsideBlock blk offset ⟨blk.start + offset, len⟩ := by
  have hsum : (offset + len).toNat = offset.toNat + len.toNat := by
    rw [UInt32.toNat_add]
    exact Nat.mod_eq_of_lt hw
  have hle : offset.toNat + len.toNat ≤ blk.size.toNat := by
    rw [← hsum]
    exact Nat.le_of_not_lt hc
  have hmem := blk.inMemory
  have hadd : (blk.start + offset).toNat = blk.start.toNat + offset.toNat := by
    rw [UInt32.toNat_add]
    exact Nat.mod_eq_of_lt (by omega)
  refine ⟨hadd, ?_⟩
  show (blk.start + offset).toNat + len.toNat ≤ _
  omega

theorem InsideBlock.of_range {offset len k : UInt32}
    (h : InsideBlock blk offset ⟨k + offset, len⟩) :
    k = blk.start ∧ offset.toNat + len.toNat < 2 ^ 32 := by
  have h1 : (k + offset).toNat = blk.start.toNat + offset.toNat := h.starts
  have h2 : (k + offset).toNat + len.toNat ≤ blk.start.toNat + blk.size.toNat := h.ends
  have hsize := blk.size.toNat_lt
  refine ⟨?_, by omega⟩
  have heq : k + offset = blk.start + offset := by
    apply UInt32.toNat_inj.1
    rw [h1, UInt32.toNat_add]
    have := (k + offset).toNat_lt
    exact (Nat.mod_eq_of_lt (by omega)).symm
  exact (UInt32.add_left_inj offset).1 heq

theorem exists_passedRange {m : OtzcSharedMem} (hm : sp.findSharedMem cmd.data = some m)
    (ht : cmd.paramType ≠ .other) :
    passedRange sp freshEncode plainIo cmd = some ⟨m.kAddr + cmd.offset, cmd.len⟩ := by
  have hshared : sp.sharedAddr cmd.data cmd.offset
      = some (m.kAddr + cmd.offset, m.uAddr + cmd.offset) := congrArg _ hm
  have hslots : (encodeMemRef sp freshEncode plainIo cmd).slots ≠ [] := by
    unfold encodeMemRef
    rw [hshared]
    cases hd : cmd.paramType with
    | paramIn => exact List.cons_ne_nil 0 []
    | paramOut => exact List.cons_ne_nil 12 []
    | other => exact absurd hd ht
  unfold passedRange
  rw [if_neg hslots, hshared]
  rfl

end

/-- **The ranges of references**: for every block and every reference of an application, what the
driver passes on lies in the block and starts at the offset if and only if the reference is
refused, or the search comes to the block and its sum does not wrap around. -/
theorem references_inside_iff (sp : Space) (blk : SharedBlock) (ref : Reference) :
    StaysInside sp blk ref ↔ ReferenceOk sp blk ref := by
  constructor
  · intro h hne m hm
    obtain ⟨cmd, hcmd⟩ := List.exists_mem_of_ne_nil _ hne
    obtain ⟨hdata, hoff, hlen, -, ht⟩ := Reference.commands_spec hcmd
    have hin := h cmd hcmd freshEncode plainIo _ (exists_passedRange (by rw [hdata]; exact hm) ht)
    rw [hoff, hlen] at hin
    exact hin.of_range
  · intro h cmd hcmd c io p hp
    obtain ⟨hdata, hoff, hlen, hcheck, -⟩ := Reference.commands_spec hcmd
    obtain ⟨m, hm, rfl⟩ := passedRange_some hp
    rw [hdata] at hm
    obtain ⟨hk, hw⟩ := h (List.ne_nil_of_mem hcmd) m hm
    rw [hk, hoff, hlen]
    exact insideBlock_of_check hcheck hw

def onePage : SharedBlock := ⟨0x10000000, 0x40000000, 4096, by decide, by decide⟩

def oneBlockSpace : Space where
  page := id
  readable := fun _ => 0
  writable := fun _ => 0
  sessionSharedMem := [⟨0x40000000, 0x10000000, 0x40000000⟩]
  devSharedMem := []
  mapNsSectionEntry := fun _ => true
  nsWritable := fun _ => 0

/-- **The defect**: eight bytes at the offset 2^32 - 4 end at the offset 4 for the check; the
driver passes the eight bytes from four in front of the block on. -/
theorem reference_before_block : ¬ ∀ sp blk ref, StaysInside sp blk ref := by
  intro h
  let ref : Reference := .otz true .serviceRw .serviceRw .input 0xFFFFFFFC 8
  let cmd : MemRefCmd := ⟨0x40000000, 0xFFFFFFFC, 8, .paramIn⟩
  have hin : InsideBlock onePage 0xFFFFFFFC ⟨0x0FFFFFFC, 8⟩ :=
    h oneBlockSpace onePage ref cmd (by decide +kernel) freshEncode plainIo _ (by decide +kernel)
  exact absurd hin.starts (by decide)

end Invoke
end SierraTee
