import SierraTee.Params.Receive

/-!
# Bounds of the decode calls (`otz_client_main.c`)

The three decode calls take the response apart, one parameter after the other.  Each compares the
decode position with the number of responses by `<=`, so each looks at one entry more than the
encoder has filled; a call for an unsigned integer reports no error when it finds something else;
and the length that the secure side reports is compared as a signed number.

* `decode_bounded_iff`  all calls of a client stay in their bounds if and only if each `FitsDecode`.
-/

namespace SierraTee
open Function
namespace Invoke
open Word Bytes Runs

/-! ## the responses of a context -/

def OtzcEncodeMeta.room (m : OtzcEncodeMeta) : Nat :=
  if m.type = otzEncArray then m.len.toNat else 4

def offsetOf (metaData : Nat → OtzcEncodeMeta) : Nat → Nat
  | 0 => 0
  | n + 1 => u32 (offsetOf metaData n + OtzcEncodeMeta.room (metaData (otzMaxReqParams + n)))

theorem offsetOf_congr {m m' : Nat → OtzcEncodeMeta} {n : Nat}
    (h : ∀ i, i < n → m (otzMaxReqParams + i) = m' (otzMaxReqParams + i)) :
    offsetOf m n = offsetOf m' n := by
  induction n with
  | zero => rfl
  | succ n ih =>
    have hn : offsetOf m n = offsetOf m' n := ih fun i hi => h i (Nat.lt_succ_of_lt hi)
    show u32 (offsetOf m n + _) = u32 (offsetOf m' n + _)
    rw [hn, h n (Nat.lt_succ_self n)]

structure ResponseLaid (c : OtzcEncode) : Prop where
  inv : EncodeInv c
  offset : offsetOf c.metaData (c.encResPos - otzMaxReqParams) = c.encResOffset
  inside : ∀ n, otzMaxReqParams + n ≤ c.encResPos → offsetOf c.metaData n ≤ otz1kSize
  allocated : otzMaxReqParams < c.encResPos → c.kerResDataAddr ≠ none

def newEncode (m : Nat → OtzcEncodeMeta) : OtzcEncode := { freshEncode with metaData := m }

theorem newEncode_laid (m : Nat → OtzcEncodeMeta) : ResponseLaid (newEncode m) where
  inv := { freshEncode_inv with }
  offset := rfl
  inside n hn := by
    have h0 : n = 0 := by
      have : otzMaxReqParams + n ≤ otzMaxReqParams := hn
      omega
    subst h0
    exact Nat.zero_le _
  allocated h := absurd h (Nat.lt_irrefl _)

section
variable {c c' : OtzcEncode}

structure SameResponse (c c' : OtzcEncode) : Prop where
  offset : c'.encResOffset = c.encResOffset
  pos : c'.encResPos = c.encResPos
  buffer : c.kerResDataAddr ≠ none → c'.kerResDataAddr ≠ none
  entries : ∀ n, c'.metaData (otzMaxReqParams + n) = c.metaData (otzMaxReqParams + n)

theorem SameResponse.refl (c : OtzcEncode) : SameResponse c c := ⟨rfl, rfl, id, fun _ => rfl⟩

theorem ResponseLaid.same (h : ResponseLaid c) (hinv : EncodeInv c') (hs : SameResponse c c') :
    ResponseLaid c' := by
  have hoff : ∀ n, offsetOf c'.metaData n = offsetOf c.metaData n := fun n =>
    offsetOf_congr fun i _ => hs.entries i
  refine ⟨hinv, ?_, ?_, ?_⟩
  · rw [hoff, hs.pos, hs.offset, h.offset]
  · intro n hn
    rw [hoff]
    rw [hs.pos] at hn
    exact h.inside n hn
  · intro hlt
    rw [hs.pos] at hlt
    exact hs.buffer (h.allocated hlt)

variable {kmalloc : Option (Nat → UInt8)} {p : ParamData}

theorem encodeReq_sameResponse : SameResponse c (encodeReq c kmalloc p).ctx := by
  unfold encodeReq
  cases c.kerReqDataAddr.orElse fun _ => kmalloc with
  | none => exact .refl c
  | some buf =>
    dsimp only
    split
    · next hc =>
      split
      · refine ⟨rfl, rfl, id, fun n => update_of_ne ?_ _ _⟩
        have := hc.2
        omega
      · exact ⟨rfl, rfl, id, fun _ => rfl⟩
    · exact ⟨rfl, rfl, id, fun _ => rfl⟩

def ParamData.Sized (p : ParamData) : Prop :=
  ∀ old, OtzcEncodeMeta.room (SierraTee.ParamData.entry p old) = p.size.toNat

theorem ResponseLaid.encodeRes (h : ResponseLaid c) (hp : ParamData.Sized p) :
    ResponseLaid (SierraTee.encodeRes c kmalloc p).ctx := by
  have hinv : EncodeInv (SierraTee.encodeRes c kmalloc p).ctx := h.inv.encodeRes
  revert hinv
  unfold SierraTee.encodeRes
  cases hb : (c.kerResDataAddr.orElse fun _ => kmalloc) with
  | none => exact fun _ => h
  | some buf =>
    dsimp only
    split
    · next hc =>
      intro hinv
      obtain ⟨n, hn⟩ := Nat.exists_eq_add_of_le h.inv.resPos_ge
      have hend : c.encResPos - otzMaxReqParams = n := by omega
      have hoff : offsetOf c.metaData n = c.encResOffset := by
        rw [← hend]
        exact h.offset
      have hbefore : ∀ k, k ≤ n → ∀ e,
          offsetOf (update c.metaData c.encResPos e) k = offsetOf c.metaData k := by
        intro k hk e
        refine offsetOf_congr fun i hi => update_of_ne ?_ _ _
        omega
      have hnew : offsetOf (update c.metaData c.encResPos
          (SierraTee.ParamData.entry p (c.metaData c.encResPos))) (n + 1)
            = u32 (c.encResOffset + p.size.toNat) := by
        show u32 (offsetOf _ n + OtzcEncodeMeta.room _) = _
        rw [hbefore n (Nat.le_refl n), hoff, ← hn, update_self, hp]
      refine ⟨hinv, ?_, ?_, ?_⟩
      · show offsetOf _ (c.encResPos + 1 - otzMaxReqParams) = _
        rw [show c.encResPos + 1 - otzMaxReqParams = n + 1 by omega]
        exact hnew
      · intro k hk
        have hk' : otzMaxReqParams + k ≤ c.encResPos + 1 := hk
        rcases Nat.lt_or_ge n k with hlt | hle
        · have hk1 : k = n + 1 := by omega
          rw [hk1]
          show offsetOf (update c.metaData c.encResPos _) (n + 1) ≤ _
          rw [hnew]
          exact hc.1
        · show offsetOf (update c.metaData c.encResPos _) k ≤ _
          rw [hbefore k hle]
          exact h.inside k (by omega)
      · intro _ hnone
        exact absurd hnone (by simp)
    · intro hinv
      refine h.same hinv ⟨rfl, rfl, ?_, fun _ => rfl⟩
      intro _ hnone
      exact absurd hnone (by simp [refuse])

theorem sized_uint32 (place : Nat → Nat) (bytes : List UInt8) (complete : Bool)
    (usr : Option UInt32) :
    ParamData.Sized ⟨4, otzEncUint32, 4, place, bytes, complete, usr⟩ := fun _ => rfl

theorem sized_memRef (len : UInt32) (place : Nat → Nat) (bytes : List UInt8) (complete : Bool)
    (usr : Option UInt32) :
    ParamData.Sized ⟨4, otzMemRef, len, place, bytes, complete, usr⟩ := fun _ => rfl

theorem sized_array (len : UInt32) (place : Nat → Nat) (bytes : List UInt8) (complete : Bool)
    (usr : Option UInt32) :
    ParamData.Sized ⟨len, otzEncArray, len, place, bytes, complete, usr⟩ := fun _ => rfl

theorem withUserCommand_laid (h : ResponseLaid c) (io : CallIo) {body : Reply}
    (hbody : ResponseLaid body.ctx) : ResponseLaid (withUserCommand io c body).ctx := by
  unfold withUserCommand
  split
  · exact h
  split
  · exact h
  split
  · exact hbody
  · exact hbody

theorem ResponseLaid.encodeCall (h : ResponseLaid c) (k : EncodeCall) :
    ResponseLaid (SierraTee.encodeCall c k).ctx := by
  have hreq : ∀ (kmalloc : Option (Nat → UInt8)) (p : ParamData),
      ResponseLaid (encodeReq c kmalloc p).ctx :=
    fun _ _ => h.same h.inv.encodeReq encodeReq_sameResponse
  cases k with
  | uint32 io t data usr =>
    refine withUserCommand_laid h io ?_
    cases t with
    | paramIn => exact hreq _ _
    | paramOut => exact h.encodeRes (sized_uint32 _ _ _ _)
    | other => exact h
  | array io t len data usr =>
    refine withUserCommand_laid h io ?_
    cases t with
    | paramIn => exact hreq _ _
    | paramOut => exact h.encodeRes (sized_array _ _ _ _ _)
    | other => exact h
  | memRef io t len shared =>
    show ResponseLaid (otzClientKernelEncodeMemRef c io t len shared).ctx
    unfold otzClientKernelEncodeMemRef
    split
    · exact h
    cases shared with
    | none => exact h
    | some sh =>
      cases t with
      | paramIn => exact hreq _ _
      | paramOut => exact h.encodeRes (sized_memRef _ _ _ _ _)
      | other => exact h

/-- the context after any encode calls -/
def encoded (m : Nat → OtzcEncodeMeta) (encs : List EncodeCall) : OtzcEncode :=
  encs.foldl (fun c k => (SierraTee.encodeCall c k).ctx) (newEncode m)

theorem encoded_laid (m : Nat → OtzcEncodeMeta) (encs : List EncodeCall) :
    ResponseLaid (encoded m encs) := by
  induction encs using List.reverseRecOn with
  | nil => exact newEncode_laid m
  | append_singleton encs k ih =>
    unfold encoded
    rw [List.foldl_append]
    exact ih.encodeCall k

end

/-! ## the decode calls -/

def otzClientGetDecodeType (r : Response) (io : DecodeIo) (s : Decoding) : Int × Decoding :=
  withDecodeContext io s <|
    if s.decResPos ≤ r.ctx.encResPos then
      (0, { s with data := UInt32.ofNat (r.ctx.metaData s.decResPos).type })
    else (-einval, s)

inductive DecodeKind where
  | uint32
  | arraySpace
  | getType

/-- a decode call of the client with the command it passes; what `copy_to_user` can write for the
client is `sp.writable` -/
structure DecodeCall where
  kind : DecodeKind
  sp : Space
  io : DecodeIo
  data : UInt32
  len : UInt32

namespace DecodeCall

def Found (k : DecodeCall) : Prop := k.io.copyIn = true ∧ k.io.prepare = 0

instance (k : DecodeCall) : Decidable k.Found := inferInstanceAs (Decidable (_ ∧ _))

def Takes (k : DecodeCall) (type : Nat) : Prop :=
  match k.kind with
  | .uint32 => type = otzEncUint32
  | .arraySpace => type = otzEncArray ∨ type = otzMemRef
  | .getType => True

def enter (k : DecodeCall) (s : Decoding) : Decoding := { s with data := k.data, len := k.len }

end DecodeCall

section
variable (r : Response)

/-- the length that the secure side reports for the parameter at the decode position is at most
its length, as `int` -/
def LengthPasses (s : Decoding) : Prop :=
  toInt (r.retLen s.decResPos) ≤ toInt (r.ctx.metaData s.decResPos).len

instance (s : Decoding) : Decidable (LengthPasses r s) := inferInstanceAs (Decidable (_ ≤ _))

def copied (sp : Space) (s : Decoding) : Nat :=
  min (r.retLen s.decResPos).toNat (sp.writable (usrAddrOr r s))

/-- what a decode call returns and does, the entries of the meta table that it looks at, and the
bytes of the response buffer that it reads -/
structure DecodeReply where
  ret : Int
  dec : Decoding
  slots : List Nat
  reads : List Extent

def lookedAt (s : Decoding) : List Nat :=
  if s.decResPos ≤ r.ctx.encResPos then [s.decResPos] else []

def uint32Reads (s : Decoding) : List Extent :=
  if AtType r s otzEncUint32 then [⟨s.decOffset, 4⟩] else []

def arrayReads (sp : Space) (s : Decoding) : List Extent :=
  if AtType r s otzEncArray ∧ LengthPasses r s then [⟨s.decOffset, copied r sp s⟩] else []

def decode (s : Decoding) (k : DecodeCall) : DecodeReply :=
  let s1 := k.enter s
  let slots := if k.Found then lookedAt r s1 else []
  match k.kind with
  | .uint32 =>
    let t := otzClientDecodeUint32 r k.io s1
    ⟨t.1, t.2, slots, if k.Found then uint32Reads r s1 else []⟩
  | .arraySpace =>
    let t := otzClientDecodeArraySpace k.sp r k.io s1
    ⟨t.1, t.2, slots, if k.Found then arrayReads r k.sp s1 else []⟩
  | .getType =>
    let t := otzClientGetDecodeType r k.io s1
    ⟨t.1, t.2, slots, []⟩

def decodeStep (s : Decoding) (k : DecodeCall) : Option Decoding := some (decode r s k).dec

def InResponse (e : Extent) : Prop :=
  ∀ k, k < e.len → r.ctx.kerResDataAddr ≠ none ∧ e.start + k < otz1kSize

/-- the call stays inside the meta table and the response buffer, and succeeds only for a response
that has been encoded and has the type of the call -/
structure BoundedTyped (s : Decoding) (k : DecodeCall) : Prop where
  slots : ∀ i ∈ (decode r s k).slots, i < otzMaxReqParams + otzMaxResParams
  reads : ∀ e ∈ (decode r s k).reads, InResponse r e
  typed : (decode r s k).ret = 0 →
    s.decResPos < r.ctx.encResPos ∧ k.Takes (r.ctx.metaData s.decResPos).type

/-! ## what the calls do -/

variable {r} {io : DecodeIo} {s : Decoding}

theorem otzClientDecodeUint32_ret : (otzClientDecodeUint32 r io s).1 = 0 ↔ io.Good := by
  unfold otzClientDecodeUint32
  rw [withDecodeContext_iff]
  refine ⟨fun h => h.1, fun h => ⟨h, ?_⟩⟩
  split <;> rfl

theorem otzClientGetDecodeType_ret :
    (otzClientGetDecodeType r io s).1 = 0 ↔ io.Good ∧ s.decResPos ≤ r.ctx.encResPos := by
  unfold otzClientGetDecodeType
  rw [withDecodeContext_iff]
  refine and_congr_right fun _ => ?_
  split
  · next h => exact iff_of_true rfl h
  · next h => exact iff_of_false (show ¬ (-einval : Int) = 0 by decide) h

def GivesArray (r : Response) (sp : Space) (s : Decoding) : Prop :=
  LengthPasses r s ∧
    (AtType r s otzEncArray ∧ copied r sp s = (r.retLen s.decResPos).toNat ∨ AtType r s otzMemRef)

theorem not_atType_both (h : AtType r s otzEncArray) : ¬ AtType r s otzMemRef := by
  intro h'
  have : otzEncArray = otzMemRef := h.2.symm.trans h'.2
  exact absurd this (by decide)

theorem copied_eq_iff {sp : Space} :
    copied r sp s = (r.retLen s.decResPos).toNat ↔
      ¬ sp.writable (usrAddrOr r s) < (r.retLen s.decResPos).toNat := by
  unfold copied
  omega

theorem otzClientDecodeArraySpace_ret {sp : Space} :
    (otzClientDecodeArraySpace sp r io s).1 = 0 ↔ io.Good ∧ GivesArray r sp s := by
  have hfault : ¬ (-efault : Int) = 0 := by decide
  have hinval : ¬ (-einval : Int) = 0 := by decide
  unfold otzClientDecodeArraySpace
  rw [withDecodeContext_iff]
  refine and_congr_right fun _ => ?_
  unfold GivesArray
  rw [copied_eq_iff]
  by_cases ha : AtType r s otzEncArray
  · have hm := not_atType_both ha
    dsimp only
    rw [if_pos ha]
    by_cases hl : toInt (r.retLen s.decResPos) ≤ toInt (r.ctx.metaData s.decResPos).len
    · rw [if_pos hl]
      have hl' : LengthPasses r s := hl
      by_cases hw : sp.writable (usrAddrOr r s) < (r.retLen s.decResPos).toNat
      · rw [if_pos hw]
        simp [hfault, hm, hw]
      · rw [if_neg hw]
        simp [hl', ha, hw]
    · rw [if_neg hl]
      exact iff_of_false hfault fun h => hl h.1
  · dsimp only
    rw [if_neg ha]
    by_cases hm : AtType r s otzMemRef
    · rw [if_pos hm]
      by_cases hl : toInt (r.retLen s.decResPos) ≤ toInt (r.ctx.metaData s.decResPos).len
      · rw [if_pos hl]
        exact iff_of_true rfl ⟨hl, Or.inr hm⟩
      · rw [if_neg hl]
        exact iff_of_false hfault fun h => hl h.1
    · rw [if_neg hm]
      refine iff_of_false hinval fun h => ?_
      rcases h.2 with h' | h'
      · exact ha h'.1
      · exact hm h'

inductive Moved (r : Response) (s s' : Decoding) : Prop where
  | stays (pos : s'.decResPos = s.decResPos) (offset : s'.decOffset = s.decOffset)
  | past (le : s.decResPos ≤ r.ctx.encResPos) (pos : s'.decResPos = s.decResPos + 1)
      (offset : s'.decOffset
        = u32 (s.decOffset + OtzcEncodeMeta.room (r.ctx.metaData s.decResPos)))

theorem withDecodeContext_moved {body : Int × Decoding} (h : Moved r s body.2) :
    Moved r s (withDecodeContext io s body).2 := by
  unfold withDecodeContext
  split
  · exact .stays rfl rfl
  split
  · exact .stays rfl rfl
  split
  · exact h
  split
  · cases h with
    | stays hp ho => exact .stays hp ho
    | past hle hp ho => exact .past hle hp ho
  · exact h

theorem otzClientDecodeUint32_moved : Moved r s (otzClientDecodeUint32 r io s).2 := by
  refine withDecodeContext_moved ?_
  split
  · next h =>
    have hroom : OtzcEncodeMeta.room (r.ctx.metaData s.decResPos) = 4 := by
      unfold OtzcEncodeMeta.room
      rw [h.2]
      rfl
    refine .past h.1 rfl ?_
    rw [hroom]
  · exact .stays rfl rfl

theorem otzClientGetDecodeType_moved : Moved r s (otzClientGetDecodeType r io s).2 := by
  refine withDecodeContext_moved ?_
  split
  · exact .stays rfl rfl
  · exact .stays rfl rfl

theorem otzClientDecodeArraySpace_moved {sp : Space} :
    Moved r s (otzClientDecodeArraySpace sp r io s).2 := by
  refine withDecodeContext_moved ?_
  dsimp only
  split
  · next h =>
    split
    · split
      · exact .stays rfl rfl
      · refine .past h.1 rfl ?_
        have hroom : OtzcEncodeMeta.room (r.ctx.metaData s.decResPos)
            = (r.ctx.metaData s.decResPos).len.toNat := if_pos h.2
        rw [hroom]
    · exact .stays rfl rfl
  split
  · next h =>
    split
    · refine .past h.1 rfl ?_
      have hroom : OtzcEncodeMeta.room (r.ctx.metaData s.decResPos) = 4 := by
        unfold OtzcEncodeMeta.room
        rw [h.2]
        rfl
      rw [hroom]
    · exact .stays rfl rfl
  · exact .stays rfl rfl

theorem decode_moved (s : Decoding) (k : DecodeCall) : Moved r s (decode r s k).dec := by
  have hof : ∀ {s' : Decoding}, Moved r (k.enter s) s' → Moved r s s' := by
    intro s' h
    cases h with
    | stays hp ho => exact .stays hp ho
    | past hle hp ho => exact .past hle hp ho
  unfold decode
  cases k.kind with
  | uint32 => exact hof otzClientDecodeUint32_moved
  | arraySpace => exact hof otzClientDecodeArraySpace_moved
  | getType => exact hof otzClientGetDecodeType_moved

end

/-! ## when a call is right -/

section
variable (r : Response) (s : Decoding) (k : DecodeCall)

/-- In front of the last response a call for an unsigned integer finds one, or its error comes
from the copy of the command; and a length below zero, which passes the comparison as `int`, does
not make the copy run over the end of the buffer. -/
def FitsAhead : Prop :=
  match k.kind with
  | .uint32 => k.io.copyOut = true → (r.ctx.metaData s.decResPos).type = otzEncUint32
  | .arraySpace => AtType r s otzEncArray → LengthPasses r s →
      0 ≤ toInt (r.retLen s.decResPos) ∨ s.decOffset + copied r k.sp s ≤ otz1kSize
  | .getType => True

def ReadsInside : Prop :=
  match k.kind with
  | .uint32 => AtType r s otzEncUint32 → InResponse r ⟨s.decOffset, 4⟩
  | .arraySpace => AtType r s otzEncArray → LengthPasses r s →
      InResponse r ⟨s.decOffset, copied r k.sp s⟩
  | .getType => True

/-- Right behind the last response the call looks at an entry that the encoder has not filled.
The entry is in the table, and what happens to stand there makes the call neither succeed nor read
over the end. -/
structure FitsBehind : Prop where
  inTable : s.decResPos < otzMaxReqParams + otzMaxResParams
  reads : ReadsInside r s k
  fails : k.io.copyOut = true → k.kind = .arraySpace ∧ ¬ GivesArray r k.sp s

/-- the condition of a call, by the place of the decode position -/
def FitsDecode : Prop :=
  k.Found →
    (s.decResPos < r.ctx.encResPos → FitsAhead r (k.enter s) k) ∧
    (s.decResPos = r.ctx.encResPos → FitsBehind r (k.enter s) k) ∧
    (r.ctx.encResPos < s.decResPos → k.kind = .uint32 → k.io.copyOut = false)

def InStep : Prop :=
  otzMaxReqParams ≤ s.decResPos ∧
    (s.decResPos ≤ r.ctx.encResPos →
      s.decOffset = offsetOf r.ctx.metaData (s.decResPos - otzMaxReqParams))

variable {r s k}

theorem Moved.inStep {s' : Decoding} (hm : Moved r s s') (h : InStep r s) : InStep r s' := by
  cases hm with
  | stays hp ho =>
    unfold InStep
    rw [hp, ho]
    exact h
  | past hle hp ho =>
    obtain ⟨n, hn⟩ := Nat.exists_eq_add_of_le h.1
    have hoff := h.2 hle
    rw [hn, Nat.add_sub_cancel_left] at hoff
    refine ⟨by omega, fun _ => ?_⟩
    rw [ho, hp, show s.decResPos + 1 - otzMaxReqParams = n + 1 by omega, hoff, hn]
    rfl

theorem InStep.inResponse (h : InStep r s) (hl : ResponseLaid r.ctx)
    (hlt : s.decResPos < r.ctx.encResPos) {len : Nat}
    (hlen : len ≤ OtzcEncodeMeta.room (r.ctx.metaData s.decResPos))
    (hsmall : OtzcEncodeMeta.room (r.ctx.metaData s.decResPos) < 2 ^ 31) :
    InResponse r ⟨s.decOffset, len⟩ := by
  obtain ⟨n, hn⟩ := Nat.exists_eq_add_of_le h.1
  have hoff := h.2 (Nat.le_of_lt hlt)
  rw [hn, Nat.add_sub_cancel_left] at hoff
  have h1 : offsetOf r.ctx.metaData n ≤ otz1kSize := hl.inside n (by omega)
  have h2 : u32 (offsetOf r.ctx.metaData n
      + OtzcEncodeMeta.room (r.ctx.metaData (otzMaxReqParams + n))) ≤ otz1kSize :=
    hl.inside (n + 1) (by omega)
  rw [hn] at hlen hsmall
  intro x hx
  have hx' : x < len := hx
  refine ⟨hl.allocated (by have := h.1; omega), ?_⟩
  show s.decOffset + x < otz1kSize
  unfold u32 at h2
  unfold otz1kSize at *
  omega

def SucceedsAt (r : Response) (s : Decoding) (k : DecodeCall) : Prop :=
  match k.kind with
  | .uint32 => True
  | .arraySpace => GivesArray r k.sp s
  | .getType => s.decResPos ≤ r.ctx.encResPos

theorem lookedAt_bounded (hl : ResponseLaid r.ctx) :
    (∀ i ∈ lookedAt r s, i < otzMaxReqParams + otzMaxResParams) ↔
      (s.decResPos = r.ctx.encResPos → s.decResPos < otzMaxReqParams + otzMaxResParams) := by
  have hle := hl.inv.resPos_le
  unfold lookedAt
  split
  · next h =>
    simp only [List.mem_singleton, forall_eq]
    omega
  · next h =>
    refine iff_of_true ?_ fun heq => absurd heq.le h
    intro i hi
    exact absurd hi (by simp)

theorem decode_slots (hf : k.Found) : (decode r s k).slots = lookedAt r (k.enter s) := by
  unfold decode
  cases k.kind <;> exact if_pos hf

theorem decode_reads (hf : k.Found) :
    (∀ e ∈ (decode r s k).reads, InResponse r e) ↔ ReadsInside r (k.enter s) k := by
  unfold decode ReadsInside
  cases k.kind with
  | uint32 =>
    dsimp only
    rw [if_pos hf]
    unfold uint32Reads
    split
    · next h => simp only [List.mem_singleton, forall_eq, h, true_imp_iff]
    · next h => exact iff_of_true (fun e he => absurd he (by simp)) fun h' => absurd h' h
  | arraySpace =>
    dsimp only
    rw [if_pos hf]
    unfold arrayReads
    split
    · next h => simp only [List.mem_singleton, forall_eq, h.1, h.2, true_imp_iff]
    · next h =>
      exact iff_of_true (fun e he => absurd he (by simp)) fun h1 h2 => absurd ⟨h1, h2⟩ h
  | getType => exact iff_of_true (fun e he => absurd he (by simp)) trivial

theorem decode_ret :
    (decode r s k).ret = 0 ↔ k.io.Good ∧ SucceedsAt r (k.enter s) k := by
  unfold decode SucceedsAt
  cases k.kind with
  | uint32 => exact otzClientDecodeUint32_ret.trans (and_true _).symm.to_iff
  | arraySpace => exact otzClientDecodeArraySpace_ret
  | getType => exact otzClientGetDecodeType_ret

theorem boundedTyped_of_found (hl : ResponseLaid r.ctx) (hf : k.Found) :
    BoundedTyped r s k ↔
      (s.decResPos = r.ctx.encResPos → s.decResPos < otzMaxReqParams + otzMaxResParams) ∧
      ReadsInside r (k.enter s) k ∧
      (k.io.copyOut = true → SucceedsAt r (k.enter s) k →
        s.decResPos < r.ctx.encResPos ∧ k.Takes (r.ctx.metaData s.decResPos).type) := by
  have hslots : (∀ i ∈ (decode r s k).slots, i < otzMaxReqParams + otzMaxResParams) ↔
      (s.decResPos = r.ctx.encResPos → s.decResPos < otzMaxReqParams + otzMaxResParams) := by
    rw [decode_slots hf]
    exact lookedAt_bounded hl
  have hgood : k.io.Good ↔ k.io.copyOut = true :=
    ⟨fun h => h.2.2, fun h => ⟨hf.1, hf.2, h⟩⟩
  constructor
  · intro h
    refine ⟨hslots.1 h.slots, (decode_reads hf).1 h.reads, fun hc hs => ?_⟩
    exact h.typed (decode_ret.2 ⟨hgood.2 hc, hs⟩)
  · rintro ⟨h1, h2, h3⟩
    refine ⟨hslots.2 h1, (decode_reads hf).2 h2, fun hret => ?_⟩
    obtain ⟨hg, hs⟩ := decode_ret.1 hret
    exact h3 (hgood.1 hg) hs

theorem boundedTyped_of_not_found (hf : ¬ k.Found) : BoundedTyped r s k := by
  have hempty : (decode r s k).slots = [] ∧ (decode r s k).reads = [] := by
    unfold decode
    cases k.kind with
    | uint32 => exact ⟨if_neg hf, if_neg hf⟩
    | arraySpace => exact ⟨if_neg hf, if_neg hf⟩
    | getType => exact ⟨if_neg hf, rfl⟩
  refine ⟨?_, ?_, fun hret => ?_⟩
  · rw [hempty.1]
    exact fun i hi => absurd hi (by simp)
  · rw [hempty.2]
    exact fun e he => absurd he (by simp)
  · obtain ⟨hg, -⟩ := decode_ret.1 hret
    exact absurd ⟨hg.1, hg.2.1⟩ hf

theorem fitsAhead_iff (hl : ResponseLaid r.ctx) (hi : InStep r s)
    (hlt : s.decResPos < r.ctx.encResPos) :
    ReadsInside r s k ∧ (k.io.copyOut = true → SucceedsAt r s k →
      s.decResPos < r.ctx.encResPos ∧ k.Takes (r.ctx.metaData s.decResPos).type) ↔
      FitsAhead r s k := by
  unfold ReadsInside SucceedsAt FitsAhead DecodeCall.Takes
  cases k.kind with
  | uint32 =>
    dsimp only
    constructor
    · intro h hc
      exact (h.2 hc trivial).2
    · intro h
      refine ⟨fun ht => ?_, fun hc _ => ⟨hlt, h hc⟩⟩
      have hroom : OtzcEncodeMeta.room (r.ctx.metaData s.decResPos) = 4 := by
        unfold OtzcEncodeMeta.room
        rw [ht.2]
        rfl
      exact hi.inResponse hl hlt (by rw [hroom]) (by rw [hroom]; decide)
  | arraySpace =>
    dsimp only
    constructor
    · intro h ht hp
      by_cases hn : 0 ≤ toInt (r.retLen s.decResPos)
      · exact Or.inl hn
      · refine Or.inr ?_
        have hin := h.1 ht hp
        rcases Nat.eq_zero_or_pos (copied r k.sp s) with h0 | hpos
        · have := hi.2 (Nat.le_of_lt hlt)
          have hle := hl.inside (s.decResPos - otzMaxReqParams) (by have := hi.1; omega)
          omega
        · have hx := (hin (copied r k.sp s - 1) (Nat.sub_lt hpos Nat.one_pos)).2
          have hx' : s.decOffset + (copied r k.sp s - 1) < otz1kSize := hx
          omega
    · intro h
      refine ⟨fun ht hp => ?_, fun _ hg => ⟨hlt, ?_⟩⟩
      · rcases h ht hp with hn | hle
        · have hroom : OtzcEncodeMeta.room (r.ctx.metaData s.decResPos)
              = (r.ctx.metaData s.decResPos).len.toNat := if_pos ht.2
          have hp' : toInt (r.retLen s.decResPos) ≤ toInt (r.ctx.metaData s.decResPos).len := hp
          have hlen := (r.ctx.metaData s.decResPos).len.toNat_lt
          have hret := (r.retLen s.decResPos).toNat_lt
          unfold toInt toInt32 at hn hp'
          have hcop : copied r k.sp s ≤ (r.retLen s.decResPos).toNat := Nat.min_le_left _ _
          refine hi.inResponse hl hlt ?_ ?_
          · rw [hroom]
            split at hn <;> split at hp' <;> split at hp' <;> omega
          · rw [hroom]
            split at hn <;> split at hp' <;> split at hp' <;> omega
        · intro x hx
          have hx' : x < copied r k.sp s := hx
          refine ⟨hl.allocated (by have := hi.1; omega), ?_⟩
          show s.decOffset + x < otz1kSize
          omega
      · rcases hg.2 with h' | h'
        · exact Or.inl h'.1.2
        · exact Or.inr h'.2
  | getType => exact iff_of_true ⟨trivial, fun _ _ => ⟨hlt, trivial⟩⟩ trivial

/-- **One decode call**, in any context and at any position that calls lead to. -/
theorem boundedTyped_iff (hl : ResponseLaid r.ctx) (hi : InStep r s) :
    BoundedTyped r s k ↔ FitsDecode r s k := by
  by_cases hf : k.Found
  swap
  · exact iff_of_true (boundedTyped_of_not_found hf) fun h => absurd h hf
  rw [boundedTyped_of_found hl hf]
  have hin : InStep r (k.enter s) := hi
  rcases Nat.lt_trichotomy s.decResPos r.ctx.encResPos with hlt | heq | hgt
  · have hahead := fitsAhead_iff (k := k) hl hin hlt
    constructor
    · rintro ⟨-, h⟩ -
      exact ⟨fun _ => hahead.1 h, fun he => absurd he (Nat.ne_of_lt hlt),
        fun hg => absurd hg (Nat.not_lt_of_gt hlt)⟩
    · intro h
      exact ⟨fun he => absurd he (Nat.ne_of_lt hlt), hahead.2 ((h hf).1 hlt)⟩
  · have hle : (k.enter s).decResPos ≤ r.ctx.encResPos := Nat.le_of_eq heq
    constructor
    · rintro ⟨h1, h2, h3⟩ -
      refine ⟨fun hlt => absurd heq (Nat.ne_of_lt hlt), fun _ => ⟨h1 heq, h2, fun hc => ?_⟩,
        fun hg => absurd heq (Nat.ne_of_gt hg)⟩
      have hno : ¬ SucceedsAt r (k.enter s) k := fun hs =>
        absurd heq (Nat.ne_of_lt (h3 hc hs).1)
      unfold SucceedsAt at hno
      cases hk : k.kind with
      | uint32 =>
        rw [hk] at hno
        exact absurd trivial hno
      | arraySpace =>
        rw [hk] at hno
        exact ⟨rfl, hno⟩
      | getType =>
        rw [hk] at hno
        exact absurd hle hno
    · intro h
      obtain ⟨h1, h2, h3⟩ := (h hf).2.1 heq
      refine ⟨fun _ => h1, h2, fun hc hs => ?_⟩
      obtain ⟨hk, hno⟩ := h3 hc
      unfold SucceedsAt at hs
      rw [hk] at hs
      exact absurd hs hno
  · have hnot : ∀ type, ¬ AtType r (k.enter s) type := fun type h =>
      absurd h.1 (Nat.not_le_of_gt hgt)
    have hreads : ReadsInside r (k.enter s) k := by
      unfold ReadsInside
      cases k.kind with
      | uint32 => exact fun h => absurd h (hnot _)
      | arraySpace => exact fun h => absurd h (hnot _)
      | getType => trivial
    have hno : SucceedsAt r (k.enter s) k → k.kind = .uint32 := by
      unfold SucceedsAt
      cases k.kind with
      | uint32 => exact fun _ => rfl
      | arraySpace =>
        intro hg
        rcases hg.2 with h' | h'
        · exact absurd h'.1 (hnot _)
        · exact absurd h' (hnot _)
      | getType => exact fun h => absurd h (Nat.not_le_of_gt hgt)
    constructor
    · rintro ⟨-, -, h3⟩ -
      refine ⟨fun hlt => absurd hlt (Nat.not_lt_of_gt hgt), fun he => absurd he (Nat.ne_of_gt hgt),
        fun _ hk => ?_⟩
      have hs : SucceedsAt r (k.enter s) k := by
        unfold SucceedsAt
        rw [hk]
        trivial
      cases hc : k.io.copyOut with
      | false => rfl
      | true => exact absurd (h3 hc hs).1 (Nat.not_lt_of_gt hgt)
    · intro h
      refine ⟨fun he => absurd he (Nat.ne_of_gt hgt), hreads, fun hc hs => ?_⟩
      have hfalse := (h hf).2.2 hgt (hno hs)
      rw [hc] at hfalse
      exact absurd hfalse (by decide)

end

/-! ## all the calls of a client -/

/-- the decode state of a new context, before the command of a call is copied in -/
def startDecoding (cl : Client) : Decoding := firstDecoding cl 0

/-- **Decoding is bounded and typed**: for every context, every response of the secure side and
all sequences of decode calls, every call keeps to the table and the buffer and succeeds only for
a response of its type if and only if every call `FitsDecode`. -/
theorem decode_bounded_iff (m : Nat → OtzcEncodeMeta) (encs : List EncodeCall)
    (area : Nat → UInt8) (retLen : Nat → UInt32) (cl : Client) (calls : List DecodeCall) :
    let r : Response := ⟨encoded m encs, area, retLen⟩
    Along (decodeStep r) (BoundedTyped r) (startDecoding cl) calls ↔
      Along (decodeStep r) (FitsDecode r) (startDecoding cl) calls := by
  intro r
  have hl : ResponseLaid r.ctx := encoded_laid m encs
  apply along_iff (InStep r)
  · intro s k s' h _ hs
    obtain rfl := Option.some.inj hs
    exact (decode_moved s k).inStep h
  · intro s k h
    exact boundedTyped_iff hl h
  · exact ⟨Nat.le_refl _, fun _ => rfl⟩

def outputCall : EncodeCall := .uint32 plainIo .paramOut 0 0x1000

def plainDecode (kind : DecodeKind) : DecodeCall where
  kind := kind
  sp := ⟨id, fun _ => 16, fun _ => 16, [], [], fun _ => true, fun _ => 16⟩
  io := ⟨true, 0, true⟩
  data := 0
  len := 0

/-- **The defects**: after the four responses of a full context have been decoded, the type of a
fifth is asked for: the entry behind the table is read, and the call succeeds. -/
theorem decode_reads_behind_table :
    ¬ ∀ (m : Nat → OtzcEncodeMeta) (encs : List EncodeCall) (area : Nat → UInt8)
        (retLen : Nat → UInt32) (cl : Client) (calls : List DecodeCall),
      let r : Response := ⟨encoded m encs, area, retLen⟩
      Along (decodeStep r) (BoundedTyped r) (startDecoding cl) calls := by
  intro h
  let calls := List.replicate 4 (plainDecode .uint32) ++ [plainDecode .getType]
  have h5 := (h (fun _ => ⟨0, 0, 0⟩) (List.replicate 4 outputCall) (fun _ => 0) (fun _ => 0)
    ⟨fun _ => 0, fun _ => 0, fun _ => 0⟩ calls).2.2.2.2.1
  have h16 : 16 < otzMaxReqParams + otzMaxResParams := h5.slots 16 (by decide +kernel)
  exact absurd h16 (by decide)

end Invoke
end SierraTee
