import SierraTee.Params.Encode

/-!
# Bounds of the encode calls

* `withinLimits_iff`         a call stays inside its buffer, fills slots of its own kind and leaves
                             the context alone when it is over a limit, exactly when it `Fits`;
* `encode_withinLimits_iff`  the same for all sequences of calls.
-/

namespace SierraTee
open Word Bytes Runs

structure EncodeInv (c : OtzcEncode) : Prop where
  reqOffset : c.encReqOffset ≤ otz1kSize
  resOffset : c.encResOffset ≤ otz1kSize
  reqPos : c.encReqPos ≤ otzMaxReqParams
  resPos_ge : otzMaxReqParams ≤ c.encResPos
  resPos_le : c.encResPos ≤ otzMaxReqParams + otzMaxResParams

theorem freshEncode_inv : EncodeInv freshEncode := by
  constructor <;> decide

def OtzcEncode.cursor (c : OtzcEncode) : Nat × Nat × Nat × Nat :=
  (c.encReqOffset, c.encResOffset, c.encReqPos, c.encResPos)

def OverReq (c : OtzcEncode) (size : UInt32) : Prop :=
  otz1kSize < c.encReqOffset + size.toNat ∨ otzMaxReqParams ≤ c.encReqPos

def OverRes (c : OtzcEncode) (size : UInt32) : Prop :=
  otz1kSize < c.encResOffset + size.toNat ∨ otzMaxReqParams + otzMaxResParams ≤ c.encResPos

/-- the ranges lie in the buffer, the entries in the part `[lo, hi)` of the table, and a call that
is over a limit fails and leaves the cursor -/
structure InBounds (c : OtzcEncode) (r : Reply) (lo hi : Nat) (isOver : Prop) : Prop where
  inside : ∀ e ∈ r.used, e.start + e.len ≤ otz1kSize
  slots : ∀ i ∈ r.slots, lo ≤ i ∧ i < hi
  refused : isOver → r.ret ≠ 0 ∧ r.ctx.cursor = c.cursor

theorem enomem_ne : -enomem ≠ 0 := by decide
theorem efault_ne : -efault ≠ 0 := by decide

theorem inBounds_refuse {c c' : OtzcEncode} {ret : Int} {lo hi : Nat} {isOver : Prop}
    (h : isOver → ret ≠ 0 ∧ c'.cursor = c.cursor) : InBounds c (refuse ret c') lo hi isOver :=
  ⟨fun e he => absurd he (by simp [refuse]), fun i hi => absurd hi (by simp [refuse]), h⟩

section
variable {c : OtzcEncode} {kmalloc : Option (Nat → UInt8)} {p : ParamData}

/-- the data of an input parameter that passes the checks stays inside the buffer, and so does its
own place if the copy is complete -/
def ReqFits (c : OtzcEncode) (kmalloc : Option (Nat → UInt8)) (p : ParamData) : Prop :=
  (c.kerReqDataAddr.orElse fun _ => kmalloc) ≠ none →
    u32 (c.encReqOffset + p.size.toNat) ≤ otz1kSize → c.encReqPos < otzMaxReqParams →
    p.place c.encReqOffset + p.bytes.length ≤ otz1kSize ∧
      (p.complete = true → c.encReqOffset + p.size.toNat ≤ otz1kSize)

def ResFits (c : OtzcEncode) (kmalloc : Option (Nat → UInt8)) (p : ParamData) : Prop :=
  (c.kerResDataAddr.orElse fun _ => kmalloc) ≠ none →
    u32 (c.encResOffset + p.size.toNat) ≤ otz1kSize →
    c.encResPos < otzMaxResParams + otzMaxReqParams →
    p.place c.encResOffset + p.bytes.length ≤ otz1kSize ∧
      c.encResOffset + p.size.toNat ≤ otz1kSize

theorem encodeReq_inBounds_iff :
    InBounds c (encodeReq c kmalloc p) 0 otzMaxReqParams (OverReq c p.size) ↔
      ReqFits c kmalloc p := by
  unfold encodeReq ReqFits
  cases hb : (c.kerReqDataAddr.orElse fun _ => kmalloc) with
  | none =>
    simp only
    refine ⟨fun _ h => absurd rfl h, fun _ => inBounds_refuse fun _ => ⟨enomem_ne, rfl⟩⟩
  | some buf =>
    simp only
    by_cases hc : u32 (c.encReqOffset + p.size.toNat) ≤ otz1kSize ∧ c.encReqPos < otzMaxReqParams
    · rw [if_pos hc]
      by_cases hcopy : p.complete = true
      · rw [if_pos hcopy]
        constructor
        · intro h _ _ _
          refine ⟨h.inside ⟨_, _⟩ (by simp), fun _ => h.inside ⟨_, _⟩ ?_⟩
          simp
        · intro h
          obtain ⟨h1, h2⟩ := h (by simp) hc.1 hc.2
          refine ⟨fun e he => ?_, fun i hi => ?_, fun ho => ?_⟩
          · rcases List.mem_cons.1 he with rfl | he
            · exact h1
            · obtain rfl := List.mem_singleton.1 he
              exact h2 hcopy
          · obtain rfl := List.mem_singleton.1 hi
            exact ⟨Nat.zero_le _, hc.2⟩
          · rcases ho with ho | ho
            · have := h2 hcopy
              omega
            · omega
      · rw [if_neg hcopy]
        constructor
        · intro h _ _ _
          exact ⟨h.inside ⟨_, _⟩ (List.mem_singleton.2 rfl), fun hcp => absurd hcp hcopy⟩
        · intro h
          obtain ⟨h1, -⟩ := h (by simp) hc.1 hc.2
          refine ⟨fun e he => ?_, fun i hi => absurd hi (by simp), fun _ => ⟨efault_ne, rfl⟩⟩
          obtain rfl := List.mem_singleton.1 he
          exact h1
    · rw [if_neg hc]
      exact ⟨fun _ _ h1 h2 => absurd ⟨h1, h2⟩ hc, fun _ => inBounds_refuse fun _ => ⟨enomem_ne, rfl⟩⟩

theorem encodeRes_inBounds_iff (hinv : EncodeInv c) :
    InBounds c (encodeRes c kmalloc p) otzMaxReqParams (otzMaxReqParams + otzMaxResParams)
      (OverRes c p.size) ↔ ResFits c kmalloc p := by
  unfold encodeRes ResFits
  cases hb : (c.kerResDataAddr.orElse fun _ => kmalloc) with
  | none =>
    simp only
    refine ⟨fun _ h => absurd rfl h, fun _ => inBounds_refuse fun _ => ⟨enomem_ne, rfl⟩⟩
  | some buf =>
    simp only
    by_cases hc : u32 (c.encResOffset + p.size.toNat) ≤ otz1kSize ∧
        c.encResPos < otzMaxResParams + otzMaxReqParams
    · rw [if_pos hc]
      constructor
      · intro h _ _ _
        exact ⟨h.inside ⟨_, _⟩ (by simp), h.inside ⟨_, _⟩ (by simp)⟩
      · intro h
        obtain ⟨h1, h2⟩ := h (by simp) hc.1 hc.2
        refine ⟨fun e he => ?_, fun i hi => ?_, fun ho => ?_⟩
        · rcases List.mem_cons.1 he with rfl | he
          · exact h1
          · obtain rfl := List.mem_singleton.1 he
            exact h2
        · obtain rfl := List.mem_singleton.1 hi
          exact ⟨hinv.resPos_ge, by omega⟩
        · rcases ho with ho | ho
          · omega
          · omega
    · rw [if_neg hc]
      exact ⟨fun _ _ h1 h2 => absurd ⟨h1, h2⟩ hc, fun _ => inBounds_refuse fun _ => ⟨enomem_ne, rfl⟩⟩

theorem u32_small {n : Nat} (h : n ≤ otz1kSize) : u32 (n + 4) = n + 4 := by
  unfold otz1kSize at h
  exact u32_of_lt (by omega)

/-! ## any call keeps the invariant -/

theorem EncodeInv.encodeReq (h : EncodeInv c) : EncodeInv (encodeReq c kmalloc p).ctx := by
  unfold SierraTee.encodeReq
  split
  · exact h
  · simp only
    split
    · rename_i hc
      split
      · exact ⟨hc.1, h.resOffset, hc.2, h.resPos_ge, h.resPos_le⟩
      · exact { h with }
    · exact { h with }

theorem EncodeInv.encodeRes (h : EncodeInv c) : EncodeInv (encodeRes c kmalloc p).ctx := by
  unfold SierraTee.encodeRes
  split
  · exact h
  · simp only
    split
    · rename_i hc
      have h1 := h.resPos_ge
      exact ⟨h.reqOffset, hc.1, h.reqPos, by show _ ≤ c.encResPos + 1; omega,
        by show c.encResPos + 1 ≤ _; omega⟩
    · exact { h with }

theorem EncodeInv.withUserCommand {io : CallIo} {body : Reply} (h : EncodeInv c)
    (hb : EncodeInv body.ctx) : EncodeInv (withUserCommand io c body).ctx := by
  unfold SierraTee.withUserCommand
  split
  · exact h
  · split
    · exact h
    · split <;> exact hb

theorem EncodeInv.encodeCall (h : EncodeInv c) (k : EncodeCall) :
    EncodeInv (encodeCall c k).ctx := by
  cases k with
  | uint32 io t data usr =>
    apply h.withUserCommand
    cases t with
    | paramIn => exact h.encodeReq
    | paramOut => exact h.encodeRes
    | other => exact h
  | array io t len data usr =>
    apply h.withUserCommand
    cases t with
    | paramIn => exact h.encodeReq
    | paramOut => exact h.encodeRes
    | other => exact h
  | memRef io t len shared =>
    show EncodeInv (otzClientKernelEncodeMemRef c io t len shared).ctx
    unfold otzClientKernelEncodeMemRef
    split
    · exact h
    · cases shared with
      | none => exact h
      | some sh =>
        cases t with
        | paramIn => exact h.encodeReq
        | paramOut => exact h.encodeRes
        | other => exact h

/-! ## the frame of the calls from user space -/

theorem encodeReq_moves (h : (encodeReq c kmalloc p).ret = 0) :
    (encodeReq c kmalloc p).ctx.cursor ≠ c.cursor := by
  unfold encodeReq at h ⊢
  split at h
  · exact absurd h enomem_ne
  · simp only at h ⊢
    split at h
    · rename_i hc
      rw [if_pos hc]
      split at h
      · rename_i hcp
        rw [if_pos hcp]
        intro he
        have hpos : c.encReqPos + 1 = c.encReqPos := congrArg (fun q => q.2.2.1) he
        omega
      · exact absurd h efault_ne
    · exact absurd h enomem_ne

theorem encodeRes_moves (h : (encodeRes c kmalloc p).ret = 0) :
    (encodeRes c kmalloc p).ctx.cursor ≠ c.cursor := by
  unfold encodeRes at h ⊢
  split at h
  · exact absurd h enomem_ne
  · simp only at h ⊢
    split at h
    · rename_i hc
      rw [if_pos hc]
      intro he
      have hpos : c.encResPos + 1 = c.encResPos := congrArg (fun q => q.2.2.2) he
      omega
    · exact absurd h enomem_ne

theorem withUserCommand_inBounds_iff {io : CallIo} {body : Reply} {lo hi : Nat} {isOver : Prop}
    (hmove : isOver → body.ret = 0 → body.ctx.cursor ≠ c.cursor) :
    InBounds c (withUserCommand io c body) lo hi isOver ↔
      (io.copyIn = true → io.prepare = 0 → InBounds c body lo hi isOver) := by
  unfold withUserCommand
  by_cases h1 : io.copyIn = true
  · by_cases h2 : io.prepare = 0
    · have hback : InBounds c { body with ret := -efault } lo hi isOver ↔
          InBounds c body lo hi isOver :=
        ⟨fun h => ⟨h.inside, h.slots, fun ho =>
            ⟨fun hr => hmove ho hr (h.refused ho).2, (h.refused ho).2⟩⟩,
          fun h => ⟨h.inside, h.slots, fun ho => ⟨efault_ne, (h.refused ho).2⟩⟩⟩
      rw [if_neg (by simp [h1]), if_neg (by simp [h2])]
      split
      · rw [hback]
        exact ⟨fun h _ _ => h, fun h => h h1 h2⟩
      · exact ⟨fun h _ _ => h, fun h => h h1 h2⟩
    · rw [if_neg (by simp [h1]), if_pos (by simp [h2])]
      exact ⟨fun _ _ h => absurd h h2, fun _ => inBounds_refuse fun _ => ⟨h2, rfl⟩⟩
  · rw [if_pos (by simp [h1])]
    exact ⟨fun _ h => absurd h h1, fun _ => inBounds_refuse fun _ => ⟨efault_ne, rfl⟩⟩

end

/-! ## the condition of a call -/

/-- the request buffer is there or can be allocated, and a parameter of this size passes the
checks of the call -/
def PassesReq (c : OtzcEncode) (io : CallIo) (size : UInt32) : Prop :=
  (c.kerReqDataAddr.orElse fun _ => io.kmalloc) ≠ none ∧
    u32 (c.encReqOffset + size.toNat) ≤ otz1kSize ∧ c.encReqPos < otzMaxReqParams

def PassesRes (c : OtzcEncode) (io : CallIo) (size : UInt32) : Prop :=
  (c.kerResDataAddr.orElse fun _ => io.kmalloc) ≠ none ∧
    u32 (c.encResOffset + size.toNat) ≤ otz1kSize ∧
    c.encResPos < otzMaxResParams + otzMaxReqParams

/-- a memory reference that passes the checks is at an offset of at most 255, and an array that
passes them does so without a wrap of its length -/
def Fits (c : OtzcEncode) : EncodeCall → Prop
  | .uint32 _ _ _ _ => True
  | .array io .paramIn len _ _ => io.copyIn = true → io.prepare = 0 → PassesReq c io len →
      c.encReqOffset + len.toNat ≤ otz1kSize
  | .array io .paramOut len _ _ => io.copyIn = true → io.prepare = 0 → PassesRes c io len →
      c.encResOffset + len.toNat ≤ otz1kSize
  | .memRef io .paramIn _ (some _) => io.prepare = 0 → PassesReq c io 4 → c.encReqOffset ≤ 255
  | .memRef io .paramOut _ (some _) => io.prepare = 0 → PassesRes c io 4 → c.encResOffset ≤ 255
  | _ => True

/-- the direction of a call -/
def EncodeCall.paramType : EncodeCall → ParamType
  | .uint32 _ t _ _ => t
  | .array _ t _ _ _ => t
  | .memRef _ t _ _ => t

def EncodeCall.size : EncodeCall → UInt32
  | .uint32 _ _ _ _ => 4
  | .array _ _ len _ _ => len
  | .memRef _ _ _ _ => 4

/-- the call stays inside the buffer of its direction and fills entries of that direction, and if
it is over a limit it fails without moving the cursor -/
def WithinLimits (c : OtzcEncode) (k : EncodeCall) : Prop :=
  match k.paramType with
  | .paramIn => InBounds c (encodeCall c k) 0 otzMaxReqParams (OverReq c k.size)
  | .paramOut => InBounds c (encodeCall c k) otzMaxReqParams (otzMaxReqParams + otzMaxResParams)
      (OverRes c k.size)
  | .other => InBounds c (encodeCall c k) 0 0 False

section
variable {c : OtzcEncode}

theorem toNat_four : (4 : UInt32).toNat = 4 := rfl

theorem reqFits_uint32 (h : EncodeInv c) (kmalloc : Option (Nat → UInt8)) (data : UInt32) :
    ReqFits c kmalloc ⟨4, otzEncUint32, 4, id, wordBytes data, true, none⟩ := by
  intro _ hc _
  show c.encReqOffset + (wordBytes data).length ≤ otz1kSize ∧ _
  rw [toNat_four, u32_small h.reqOffset] at hc
  rw [length_wordBytes]
  exact ⟨hc, fun _ => hc⟩

theorem resFits_uint32 (h : EncodeInv c) (kmalloc : Option (Nat → UInt8)) (usr : UInt32) :
    ResFits c kmalloc ⟨4, otzEncUint32, 4, id, [], true, some usr⟩ := by
  intro _ hc _
  rw [toNat_four, u32_small h.resOffset] at hc
  exact ⟨h.resOffset, hc⟩

theorem reqFits_array (io : CallIo) (len : UInt32) (data : List UInt8) :
    ReqFits c io.kmalloc ⟨len, otzEncArray, len, id, copyFromUser len.toNat data,
        len.toNat ≤ data.length, none⟩ ↔
      (PassesReq c io len → c.encReqOffset + len.toNat ≤ otz1kSize) := by
  unfold ReqFits
  simp only [length_copyFromUser]
  constructor
  · rintro h ⟨h1, h2, h3⟩
    exact (h h1 h2 h3).1
  · intro h h1 h2 h3
    have hle := h ⟨h1, h2, h3⟩
    exact ⟨hle, fun _ => hle⟩

theorem resFits_array (io : CallIo) (hinv : EncodeInv c) (len usr : UInt32) :
    ResFits c io.kmalloc ⟨len, otzEncArray, len, id, [], true, some usr⟩ ↔
      (PassesRes c io len → c.encResOffset + len.toNat ≤ otz1kSize) := by
  constructor
  · rintro h ⟨h1, h2, h3⟩
    exact (h h1 h2 h3).2
  · intro h h1 h2 h3
    exact ⟨hinv.resOffset, h ⟨h1, h2, h3⟩⟩

theorem reqFits_memRef (io : CallIo) (len phys usr : UInt32) :
    ReqFits c io.kmalloc
        ⟨4, otzMemRef, len, fun off => 4 * off, wordBytes phys, true, some usr⟩ ↔
      (PassesReq c io 4 → c.encReqOffset ≤ 255) := by
  constructor
  · rintro h ⟨h1, h2, h3⟩
    have hle : 4 * c.encReqOffset + (wordBytes phys).length ≤ otz1kSize := (h h1 h2 h3).1
    rw [length_wordBytes] at hle
    unfold otz1kSize at hle
    omega
  · intro h h1 h2 h3
    have hle := h ⟨h1, h2, h3⟩
    show 4 * c.encReqOffset + (wordBytes phys).length ≤ otz1kSize ∧
      (_ → c.encReqOffset + 4 ≤ otz1kSize)
    rw [length_wordBytes]
    unfold otz1kSize
    omega

theorem resFits_memRef (io : CallIo) (len phys usr : UInt32) :
    ResFits c io.kmalloc
        ⟨4, otzMemRef, len, fun off => 4 * off, wordBytes phys, true, some usr⟩ ↔
      (PassesRes c io 4 → c.encResOffset ≤ 255) := by
  constructor
  · rintro h ⟨h1, h2, h3⟩
    have hle : 4 * c.encResOffset + (wordBytes phys).length ≤ otz1kSize := (h h1 h2 h3).1
    rw [length_wordBytes] at hle
    unfold otz1kSize at hle
    omega
  · intro h h1 h2 h3
    have hle := h ⟨h1, h2, h3⟩
    show 4 * c.encResOffset + (wordBytes phys).length ≤ otz1kSize ∧
      c.encResOffset + 4 ≤ otz1kSize
    rw [length_wordBytes]
    unfold otz1kSize
    omega

theorem withinLimits_iff (h : EncodeInv c) (k : EncodeCall) : WithinLimits c k ↔ Fits c k := by
  have hother : InBounds c (refuse 0 c) 0 0 False := inBounds_refuse fun hf => absurd hf id
  cases k with
  | uint32 io t data usr =>
    refine ⟨fun _ => trivial, fun _ => ?_⟩
    cases t with
    | paramIn =>
      apply (withUserCommand_inBounds_iff fun _ => encodeReq_moves).2
      exact fun _ _ => encodeReq_inBounds_iff.2 (reqFits_uint32 h _ _)
    | paramOut =>
      apply (withUserCommand_inBounds_iff fun _ => encodeRes_moves).2
      exact fun _ _ => (encodeRes_inBounds_iff h).2 (resFits_uint32 h _ _)
    | other =>
      apply (withUserCommand_inBounds_iff fun hf => absurd hf id).2
      exact fun _ _ => hother
  | array io t len data usr =>
    cases t with
    | paramIn =>
      apply (withUserCommand_inBounds_iff fun _ => encodeReq_moves).trans
      exact imp_congr_right fun _ => imp_congr_right fun _ =>
        encodeReq_inBounds_iff.trans (reqFits_array io len data)
    | paramOut =>
      apply (withUserCommand_inBounds_iff fun _ => encodeRes_moves).trans
      exact imp_congr_right fun _ => imp_congr_right fun _ =>
        (encodeRes_inBounds_iff h).trans (resFits_array io h len usr)
    | other =>
      refine ⟨fun _ => trivial, fun _ => ?_⟩
      apply (withUserCommand_inBounds_iff fun hf => absurd hf id).2
      exact fun _ _ => hother
  | memRef io t len shared =>
    by_cases hp : io.prepare = 0
    · have hok : ¬ io.prepare ≠ 0 := fun hn => hn hp
      cases shared with
      | none =>
        have he : encodeCall c (.memRef io t len none) = refuse (-einval) c := if_neg hok
        have hn : -einval ≠ 0 := by decide
        refine ⟨fun _ => by cases t <;> trivial, fun _ => ?_⟩
        unfold WithinLimits
        rw [he]
        cases t <;> exact inBounds_refuse fun _ => ⟨hn, rfl⟩
      | some sh =>
        unfold WithinLimits
        cases t with
        | paramIn =>
          have he : encodeCall c (.memRef io .paramIn len (some sh)) = encodeReq c io.kmalloc
              ⟨4, otzMemRef, len, fun off => 4 * off, wordBytes sh.1, true, some sh.2⟩ :=
            if_neg hok
          rw [he]
          apply encodeReq_inBounds_iff.trans
          exact (reqFits_memRef io len sh.1 sh.2).trans ⟨fun hf _ => hf, fun hf => hf hp⟩
        | paramOut =>
          have he : encodeCall c (.memRef io .paramOut len (some sh)) = encodeRes c io.kmalloc
              ⟨4, otzMemRef, len, fun off => 4 * off, wordBytes sh.1, true, some sh.2⟩ :=
            if_neg hok
          rw [he]
          apply (encodeRes_inBounds_iff h).trans
          exact (resFits_memRef io len sh.1 sh.2).trans ⟨fun hf _ => hf, fun hf => hf hp⟩
        | other =>
          have he : encodeCall c (.memRef io .other len (some sh)) = refuse 0 c := if_neg hok
          rw [he]
          exact ⟨fun _ => trivial, fun _ => hother⟩
    · have he : encodeCall c (.memRef io t len shared) = refuse io.prepare c := by
        show otzClientKernelEncodeMemRef c io t len shared = _
        unfold otzClientKernelEncodeMemRef
        exact if_pos (by simp [hp])
      refine ⟨fun _ => ?_, fun _ => ?_⟩
      · cases t <;> cases shared <;> first | trivial | exact fun h0 => absurd h0 hp
      · unfold WithinLimits
        rw [he]
        cases t <;> exact inBounds_refuse fun _ => ⟨hp, rfl⟩

end

/-- **Bounds of the encoder**: for all sequences of calls on a new context, every call keeps to
the buffers, the table and the limits if and only if every call `Fits` in its context. -/
theorem encode_withinLimits_iff (calls : List EncodeCall) :
    Along encodeStep WithinLimits freshEncode calls ↔ Along encodeStep Fits freshEncode calls := by
  apply along_iff EncodeInv
  · intro c k c' h _ hs
    obtain rfl := Option.some.inj hs
    exact h.encodeCall k
  · intro c k h
    exact withinLimits_iff h k
  · exact freshEncode_inv

def plainIo : CallIo := ⟨true, 0, some fun _ => 0, true⟩

/-- **The defects**: after an array of 256 bytes a memory reference is written behind the buffer
(to the bytes from 1024 on), so not every sequence of calls keeps to its limits. -/
theorem encode_overruns :
    ¬ ∀ calls : List EncodeCall, Along encodeStep WithinLimits freshEncode calls := by
  intro h
  let array : EncodeCall := .array plainIo .paramIn 256 (List.replicate 256 0) 0
  let memRef : EncodeCall := .memRef plainIo .paramIn 4 (some (0x1000, 0x2000))
  let c : OtzcEncode := (encodeCall freshEncode array).ctx
  have hc : EncodeInv c := freshEncode_inv.encodeCall array
  have hoff : c.encReqOffset = 256 := by decide +kernel
  have hbuf : (c.kerReqDataAddr.orElse fun _ => plainIo.kmalloc).isSome = true := by
    decide +kernel
  have hfit : Fits c memRef := (withinLimits_iff hc memRef).1 (h [array, memRef]).2.1
  have hle : c.encReqOffset ≤ 255 := by
    apply hfit rfl
    refine ⟨Option.isSome_iff_ne_none.1 hbuf, ?_, ?_⟩
    · rw [hoff]
      decide
    · decide +kernel
  omega

end SierraTee
