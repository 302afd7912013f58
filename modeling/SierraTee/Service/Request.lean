import SierraTee.Params.Decode
import SierraTee.Lib.Traced

/-!
# A request as a service handler gets it

The handlers of the crypto and the echo service decode the parameters of a request one after
another, copy them into buffers of their own and write a result to the response.  What they
touch is recorded.
-/

namespace SierraTee
open Word Bytes Traced

/-- the error codes of the handlers, `SMC_EINVAL_ARG` and `SMC_ENOMEM` -/
inductive SmcError where
  | einvalArg | enomem

inductive Spot where
  | request
  | response
  /-- a reference that `map_to_ns` has mapped at `addr` -/
  | reference (addr len : UInt32)
  /-- an address that nobody has mapped for this request -/
  | unmapped (addr : UInt32)
  /-- a buffer of the handler -/
  | own (size : Nat)
  /-- the room of a response parameter -/
  | slot (size : Nat)
  | metaTable

/-- `len` units from `start` on -/
structure Access where
  spot : Spot
  start : Nat
  len : Nat

/-- a request; `reqBuf i` is the byte `i` bytes behind the start of the request buffer, in the
32-bit address space, whether or not the buffer is so long -/
structure ServiceRequest where
  reqBufLen : UInt32
  resBufLen : UInt32
  reqBuf : Nat → UInt8
  resBuf : Nat → UInt8
  metaData : Nat → OtzcEncodeMeta
  mapToNs : UInt32 → Option UInt32
  /-- the word at an address -/
  wordAt : UInt32 → UInt32
  /-- the handler gets its buffers -/
  malloc : Bool
  /-- the number in the uncleared `len` of a new buffer, and the bytes in its `data` -/
  oldLen : UInt32
  oldData : Nat → UInt8
  /-- what `print_buffer` of `sw_printf` holds before it is written -/
  printBuffer : Nat → BitVec 8
  /-- length of the output of the TEE crypto API, `none` where one of its calls fails -/
  computed : Option Nat
  /-- the MAC is found equal when it is computed again -/
  macEqual : Bool

/-- `map_to_ns` maps the section of 1 MB around an address -/
def sectionSize : Nat := 2 ^ 20

section
variable (r : ServiceRequest)

def Spot.room : Spot → Nat
  | .request => r.reqBufLen.toNat
  | .response => r.resBufLen.toNat
  | .reference addr len => min len.toNat (sectionSize - addr.toNat % sectionSize)
  | .unmapped _ => 0
  | .own size => size
  | .slot size => size
  | .metaTable => otzMaxReqParams + otzMaxResParams

/-- the access stays where it may go; an access of no bytes goes nowhere -/
def Inside (a : Access) : Prop := a.len = 0 ∨ a.start + a.len ≤ a.spot.room r

instance (a : Access) : Decidable (Inside r a) := inferInstanceAs (Decidable (_ ∨ _))

structure ParamArea where
  spot : Spot
  bytes : Nat → UInt8

def ServiceRequest.request : ParamArea := ⟨.request, r.reqBuf⟩

def ServiceRequest.response : ParamArea := ⟨.response, r.resBuf⟩

/-- `(sw_uint)x`; also how far a place `x` bytes behind another is in the 32-bit address space -/
def toUint (x : Int) : Nat := (x % 2 ^ 32).toNat

def ParamArea.address (b : ParamArea) (offset : Int) : UInt32 :=
  ofBytes fun k => b.bytes (toUint (4 * offset) + k)

def ParamArea.word (b : ParamArea) (offset : Int) : UInt32 :=
  ofBytes fun k => b.bytes (toUint offset + k)

/-- `decode_data`, with what it touches and the extent of the parameter it takes -/
def decodeParam (b : ParamArea) (offset : Int) (pos : Nat) : Traced SmcError Access Decoded :=
  let m := r.metaData pos
  if m.type = otzEncUint32 then
    ⟨.ok ⟨otzEncUint32, offset + 4, pos + 1, false, .inRequest offset, m.len⟩, [],
      [⟨b.spot, toUint offset, 4⟩]⟩
  else if m.type = otzEncArray then
    ⟨.ok ⟨otzEncArray, offset + toInt m.len, pos + 1, false, .inRequest offset, m.len⟩, [],
      [⟨b.spot, toUint offset, m.len.toNat⟩]⟩
  else if m.type = otzMemRef then
    match r.mapToNs (b.address offset) with
    | none => ⟨.error .einvalArg, [⟨b.spot, toUint (4 * offset), 4⟩], []⟩
    | some addr =>
      ⟨.ok ⟨otzMemRef, offset + 4, pos + 1, true, .mapped addr, m.len⟩,
        [⟨b.spot, toUint (4 * offset), 4⟩], []⟩
  else if m.type = otzSecureMemRef then
    ⟨.ok ⟨otzMemRef, offset + 4, pos + 1, false, .address (b.address offset), m.len⟩,
      [⟨b.spot, toUint (4 * offset), 4⟩], []⟩
  else ⟨.error .einvalArg, [], []⟩

def Decoded.access (b : ParamArea) (d : Decoded) (n : Nat) : Access :=
  match d.outData with
  | .inRequest offset => ⟨b.spot, toUint offset, n⟩
  | .mapped addr => ⟨.reference addr d.outLen, 0, n⟩
  | .address addr => ⟨.unmapped addr, 0, n⟩

def Decoded.word (b : ParamArea) (d : Decoded) : UInt32 :=
  match d.outData with
  | .inRequest offset => b.word offset
  | .mapped addr => r.wordAt addr
  | .address addr => r.wordAt addr

def updateResponseLen (pos : Nat) : Traced SmcError Access Unit := do
  require (pos ≤ otzMaxReqParams + otzMaxResParams) .einvalArg
  touch [⟨.metaTable, pos - 1, 1⟩]

end

section
variable {r : ServiceRequest} {b : ParamArea} {offset : Int} {pos : Nat}

/-! ## What a parameter asks of the request -/

def AddressInside (r : ServiceRequest) (b : ParamArea) (offset : Int) (pos : Nat) : Prop :=
  (r.metaData pos).type = otzMemRef ∨ (r.metaData pos).type = otzSecureMemRef →
    Inside r ⟨b.spot, toUint (4 * offset), 4⟩

def Available (r : ServiceRequest) (b : ParamArea) (offset : Int) (pos : Nat) : Prop :=
  (r.metaData pos).type = otzEncArray ∨
  ((r.metaData pos).type = otzMemRef ∧ (r.mapToNs (b.address offset)).isSome) ∨
  (r.metaData pos).type = otzSecureMemRef

/-- `n` bytes are behind the parameter: in the buffer, in the mapped reference, and none behind
an address that is not mapped -/
def Reachable (r : ServiceRequest) (b : ParamArea) (offset : Int) (pos : Nat) (n : Nat) : Prop :=
  ((r.metaData pos).type = otzEncArray → Inside r ⟨b.spot, toUint offset, n⟩) ∧
  ((r.metaData pos).type = otzMemRef → ∀ addr, r.mapToNs (b.address offset) = some addr →
    Inside r ⟨.reference addr (r.metaData pos).len, 0, n⟩) ∧
  ((r.metaData pos).type = otzSecureMemRef → n = 0)

def ArrayInside (r : ServiceRequest) (b : ParamArea) (offset : Int) (pos : Nat) : Prop :=
  (r.metaData pos).type = otzEncArray →
    Inside r ⟨b.spot, toUint offset, (r.metaData pos).len.toNat⟩

def nextOffset (r : ServiceRequest) (offset : Int) (pos : Nat) : Int :=
  if (r.metaData pos).type = otzEncArray then offset + toInt (r.metaData pos).len else offset + 4

def wordBehind (r : ServiceRequest) (b : ParamArea) (offset : Int) (pos : Nat) : UInt32 :=
  if (r.metaData pos).type = otzEncArray then b.word offset
  else if (r.metaData pos).type = otzMemRef then
    r.wordAt ((r.mapToNs (b.address offset)).getD 0)
  else r.wordAt (b.address offset)

theorem decodeParam_uint32 (h : (r.metaData pos).type = otzEncUint32) :
    decodeParam r b offset pos =
      ⟨.ok ⟨otzEncUint32, offset + 4, pos + 1, false, .inRequest offset, (r.metaData pos).len⟩, [],
        [⟨b.spot, toUint offset, 4⟩]⟩ := if_pos h

theorem decodeParam_array (h : (r.metaData pos).type = otzEncArray) :
    decodeParam r b offset pos =
      ⟨.ok ⟨otzEncArray, offset + toInt (r.metaData pos).len, pos + 1, false, .inRequest offset,
        (r.metaData pos).len⟩, [], [⟨b.spot, toUint offset, (r.metaData pos).len.toNat⟩]⟩ := by
  have h1 : ¬ (r.metaData pos).type = otzEncUint32 := by rw [h]; decide
  unfold decodeParam
  simp only [h1, if_false]
  exact if_pos h

theorem decodeParam_memRef (h : (r.metaData pos).type = otzMemRef) {addr : UInt32}
    (ha : r.mapToNs (b.address offset) = some addr) :
    decodeParam r b offset pos =
      ⟨.ok ⟨otzMemRef, offset + 4, pos + 1, true, .mapped addr, (r.metaData pos).len⟩,
        [⟨b.spot, toUint (4 * offset), 4⟩], []⟩ := by
  have h1 : ¬ (r.metaData pos).type = otzEncUint32 := by rw [h]; decide
  have h2 : ¬ (r.metaData pos).type = otzEncArray := by rw [h]; decide
  unfold decodeParam
  simp only [h1, h2, if_false, ha]
  exact if_pos h

theorem decodeParam_unmapped (h : (r.metaData pos).type = otzMemRef)
    (ha : r.mapToNs (b.address offset) = none) :
    decodeParam r b offset pos =
      ⟨.error .einvalArg, [⟨b.spot, toUint (4 * offset), 4⟩], []⟩ := by
  have h1 : ¬ (r.metaData pos).type = otzEncUint32 := by rw [h]; decide
  have h2 : ¬ (r.metaData pos).type = otzEncArray := by rw [h]; decide
  unfold decodeParam
  simp only [h1, h2, if_false, ha]
  exact if_pos h

theorem decodeParam_secure (h : (r.metaData pos).type = otzSecureMemRef) :
    decodeParam r b offset pos =
      ⟨.ok ⟨otzMemRef, offset + 4, pos + 1, false, .address (b.address offset),
        (r.metaData pos).len⟩, [⟨b.spot, toUint (4 * offset), 4⟩], []⟩ := by
  have h1 : ¬ (r.metaData pos).type = otzEncUint32 := by rw [h]; decide
  have h2 : ¬ (r.metaData pos).type = otzEncArray := by rw [h]; decide
  have h3 : ¬ (r.metaData pos).type = otzMemRef := by rw [h]; decide
  unfold decodeParam
  simp only [h1, h2, h3, if_false]
  exact if_pos h

theorem decodeParam_other (h1 : (r.metaData pos).type ≠ otzEncUint32)
    (h2 : (r.metaData pos).type ≠ otzEncArray) (h3 : (r.metaData pos).type ≠ otzMemRef)
    (h4 : (r.metaData pos).type ≠ otzSecureMemRef) :
    decodeParam r b offset pos = ⟨.error .einvalArg, [], []⟩ := by
  unfold decodeParam
  simp only [h1, h2, h3, h4, if_false]

theorem decodeParam_touched :
    (∀ a ∈ (decodeParam r b offset pos).touched, Inside r a) ↔ AddressInside r b offset pos := by
  have hword : (∀ a ∈ [(⟨b.spot, toUint (4 * offset), 4⟩ : Access)], Inside r a) ↔
      Inside r ⟨b.spot, toUint (4 * offset), 4⟩ := List.forall_mem_singleton
  unfold AddressInside
  by_cases h1 : (r.metaData pos).type = otzEncUint32
  · rw [decodeParam_uint32 h1, h1]
    exact ⟨fun _ h => absurd h (by decide), fun _ a ha => absurd ha List.not_mem_nil⟩
  by_cases h2 : (r.metaData pos).type = otzEncArray
  · rw [decodeParam_array h2, h2]
    exact ⟨fun _ h => absurd h (by decide), fun _ a ha => absurd ha List.not_mem_nil⟩
  by_cases h3 : (r.metaData pos).type = otzMemRef
  · cases hm : r.mapToNs (b.address offset) with
    | none =>
      rw [decodeParam_unmapped h3 hm]
      exact hword.trans ⟨fun h _ => h, fun h => h (Or.inl h3)⟩
    | some addr =>
      rw [decodeParam_memRef h3 hm]
      exact hword.trans ⟨fun h _ => h, fun h => h (Or.inl h3)⟩
  by_cases h4 : (r.metaData pos).type = otzSecureMemRef
  · rw [decodeParam_secure h4]
    exact hword.trans ⟨fun h _ => h, fun h => h (Or.inr h4)⟩
  · rw [decodeParam_other h1 h2 h3 h4]
    exact ⟨fun _ h => absurd h (by simp [h3, h4]), fun _ a ha => absurd ha List.not_mem_nil⟩

structure DecodesTo (r : ServiceRequest) (b : ParamArea) (offset : Int) (pos : Nat) (d : Decoded) :
    Prop where
  result : (decodeParam r b offset pos).result = .ok d
  offset_eq : d.offset = nextOffset r offset pos
  pos_eq : d.pos = pos + 1
  outLen_eq : d.outLen = (r.metaData pos).len
  type_eq : d.type = if (r.metaData pos).type = otzEncArray then otzEncArray else otzMemRef
  word_eq : d.word r b = wordBehind r b offset pos
  access_iff : ∀ n, Inside r (d.access b n) ↔ Reachable r b offset pos n
  taken_iff : (∀ a ∈ (decodeParam r b offset pos).taken, Inside r a) ↔ ArrayInside r b offset pos

theorem Available.decodesTo (h : Available r b offset pos) : ∃ d, DecodesTo r b offset pos d := by
  obtain h2 | ⟨h3, hm⟩ | h4 := h
  · have hne3 : ¬ (r.metaData pos).type = otzMemRef := by rw [h2]; decide
    have hne4 : ¬ (r.metaData pos).type = otzSecureMemRef := by rw [h2]; decide
    refine ⟨_, ⟨congrArg Traced.result (decodeParam_array h2), ?_, rfl, rfl, ?_, ?_, fun n => ?_,
      ?_⟩⟩
    · exact (if_pos h2).symm
    · exact (if_pos h2).symm
    · exact (if_pos h2).symm
    · exact ⟨fun h => ⟨fun _ => h, fun he => absurd he hne3, fun he => absurd he hne4⟩,
        fun h => h.1 h2⟩
    · rw [decodeParam_array h2]
      exact List.forall_mem_singleton.trans ⟨fun h _ => h, fun h => h h2⟩
  · obtain ⟨addr, ha⟩ := Option.isSome_iff_exists.mp hm
    have hne2 : ¬ (r.metaData pos).type = otzEncArray := by rw [h3]; decide
    have hne4 : ¬ (r.metaData pos).type = otzSecureMemRef := by rw [h3]; decide
    refine ⟨_, ⟨congrArg Traced.result (decodeParam_memRef h3 ha), ?_, rfl, rfl, ?_, ?_,
      fun n => ?_, ?_⟩⟩
    · exact (if_neg hne2).symm
    · exact (if_neg hne2).symm
    · unfold wordBehind
      rw [if_neg hne2, if_pos h3, ha]
      rfl
    · refine ⟨fun h => ⟨fun he => absurd he hne2, fun _ a he => ?_, fun he => absurd he hne4⟩,
        fun h => h.2.1 h3 addr ha⟩
      cases ha.symm.trans he
      exact h
    · rw [decodeParam_memRef h3 ha]
      exact ⟨fun _ he => absurd he hne2, fun _ a ha => absurd ha List.not_mem_nil⟩
  · have hne2 : ¬ (r.metaData pos).type = otzEncArray := by rw [h4]; decide
    have hne3 : ¬ (r.metaData pos).type = otzMemRef := by rw [h4]; decide
    refine ⟨_, ⟨congrArg Traced.result (decodeParam_secure h4), ?_, rfl, rfl, ?_, ?_, fun n => ?_,
      ?_⟩⟩
    · exact (if_neg hne2).symm
    · exact (if_neg hne2).symm
    · unfold wordBehind
      rw [if_neg hne2, if_neg hne3]
      rfl
    · refine ⟨fun h => ⟨fun he => absurd he hne2, fun he => absurd he hne3, fun _ => ?_⟩,
        fun h => Or.inl (h.2.2 h4)⟩
      exact h.elim id fun h => by
        have hroom : 0 + n ≤ 0 := h
        omega
    · rw [decodeParam_secure h4]
      exact ⟨fun _ he => absurd he hne2, fun _ a ha => absurd ha List.not_mem_nil⟩

theorem not_available {d : Decoded} (h : ¬ Available r b offset pos)
    (hd : (decodeParam r b offset pos).result = .ok d) : (r.metaData pos).type = otzEncUint32 ∧
      decodeParam r b offset pos = ⟨.ok d, [], [⟨b.spot, toUint offset, 4⟩]⟩ := by
  by_cases h1 : (r.metaData pos).type = otzEncUint32
  · rw [decodeParam_uint32 h1] at hd ⊢
    cases hd
    exact ⟨h1, rfl⟩
  have h2 : ¬ (r.metaData pos).type = otzEncArray := fun he => h (Or.inl he)
  have h4 : ¬ (r.metaData pos).type = otzSecureMemRef := fun he => h (Or.inr (Or.inr he))
  by_cases h3 : (r.metaData pos).type = otzMemRef
  · cases hm : r.mapToNs (b.address offset) with
    | none =>
      rw [decodeParam_unmapped h3 hm] at hd
      cases hd
    | some addr => exact absurd (Or.inr (Or.inl ⟨h3, by rw [hm]; rfl⟩)) h
  · rw [decodeParam_other h1 h2 h3 h4] at hd
    cases hd

end

end SierraTee
