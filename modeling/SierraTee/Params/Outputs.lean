import SierraTee.Params.Invoke
import SierraTee.Params.RoundTrip

/-!
# The output parameters of an operation

* `encodeOperation_laid`  the context that the encode loop leaves describes the outputs of the
                          operation, if every call keeps to its limits.
-/

namespace SierraTee
open Function
namespace Invoke
open Word Bytes Runs

/-! ## outputs -/

structure Block where
  base : UInt32
  first : Nat
  size : Nat

def Block.addr (b : Block) (x : Nat) : UInt32 := b.base + UInt32.ofNat (b.first + x)

def Block.Has (b : Block) (x : Nat) : Prop := b.first + x < b.size

/-- an output parameter: a field of a value, a reference that is passed as an array, or one to a
block that the driver shares -/
inductive Output where
  | word (addr : UInt32)
  | array (i : Fin 4) (len usrAddr : UInt32) (block : Block)
  | memRef (i : Fin 4) (len phys usrAddr : UInt32) (block : Block)

structure Entry where
  size : UInt32
  type : Nat
  len : UInt32
  usrAddr : UInt32
  phys : Option UInt32

def Output.entry : Output → Entry
  | .word addr => ⟨4, otzEncUint32, 4, addr, none⟩
  | .array _ len usrAddr _ => ⟨len, otzEncArray, len, usrAddr, none⟩
  | .memRef _ len phys usrAddr _ => ⟨4, otzMemRef, len, usrAddr, some phys⟩

def Output.reference : Output → Option (Fin 4 × Block)
  | .word _ => none
  | .array i _ _ b => some (i, b)
  | .memRef i _ _ _ b => some (i, b)

def callEntry : EncodeCall → Option Entry
  | .uint32 _ .paramOut _ usrAddr => some ⟨4, otzEncUint32, 4, usrAddr, none⟩
  | .array _ .paramOut len _ usrAddr => some ⟨len, otzEncArray, len, usrAddr, none⟩
  | .memRef _ .paramOut len shared =>
    some ⟨4, otzMemRef, len, (shared.getD (0, 0)).2, some (shared.getD (0, 0)).1⟩
  | _ => none

section
variable (sp : Space) (io : EncodeIo) (op : TeecOperation) (cl : Client) (i : Fin 4)

def blockOutput (m : TeecSharedMemory) (len offset : UInt32) : Output :=
  if m.allocated then
    .memRef i len ((sp.sharedAddr m.buffer offset).getD (0, 0)).1
      ((sp.sharedAddr m.buffer offset).getD (0, 0)).2 ⟨m.buffer, offset.toNat, m.size.toNat⟩
  else .array i len (m.buffer + offset) ⟨m.buffer, offset.toNat, m.size.toNat⟩

def paramOutputs : List Output :=
  match op.params i with
  | .none => []
  | .value d =>
    if d.hasOutput then
      .word (op.valueAddr i false) ::
        if cl.words (op.valueAddr i true) ≠ teecValueUndef then [.word (op.valueAddr i true)]
        else []
    else []
  | .memrefTemp d buffer =>
    if d.hasOutput then [.array i (cl.size i) buffer ⟨buffer, 0, (cl.size i).toNat⟩] else []
  | .memrefWhole none => []
  | .memrefWhole (some m) => if m.flags.hasOutput then [blockOutput sp i m m.size 0] else []
  | .memrefPartial _ none _ => []
  | .memrefPartial d (some m) offset =>
    if d.hasOutput then [blockOutput sp i m (cl.size i) offset] else []

/-- the output parameters in the order in which the service finds them -/
def operationOutputs : List Output := (List.finRange 4).flatMap (paramOutputs sp op cl)

end

section
variable {sp : Space} {io : EncodeIo} {op : TeecOperation} {cl : Client} {i : Fin 4}

theorem filterMap_dirCalls (d : Transfer) (call : ParamType → EncodeCall) {e : Entry}
    (hin : callEntry (call .paramIn) = none) (hout : callEntry (call .paramOut) = some e) :
    (dirCalls d call).filterMap callEntry = if d.hasOutput then [e] else [] := by
  cases d <;> simp [dirCalls, Transfer.hasOutput, hin, hout]

theorem blockCalls_entries (m : TeecSharedMemory) (d : Transfer) (len offset : UInt32) :
    (blockCalls sp io cl i m d len offset).filterMap callEntry =
      if d.hasOutput then [(blockOutput sp i m len offset).entry] else [] := by
  unfold blockCalls blockOutput
  by_cases ha : m.allocated = true
  · rw [if_pos ha, if_pos ha]
    exact filterMap_dirCalls d _ rfl rfl
  · rw [if_neg ha, if_neg ha]
    exact filterMap_dirCalls d _ rfl rfl

theorem paramCalls_entries {ks : List EncodeCall} (h : paramCalls sp io op cl i = .ok ks) :
    ks.filterMap callEntry = (paramOutputs sp op cl i).map Output.entry := by
  unfold paramCalls at h
  unfold paramOutputs
  cases hp : op.params i with
  | none =>
    rw [hp] at h
    cases h
    rfl
  | value d =>
    rw [hp] at h
    cases h
    have hfield : ∀ second, (valueCalls io op cl i d second).filterMap callEntry =
        if d.hasOutput then [(Output.word (op.valueAddr i second)).entry] else [] :=
      fun second => filterMap_dirCalls d _ rfl rfl
    rw [List.filterMap_append, hfield]
    by_cases hb : cl.words (op.valueAddr i true) ≠ teecValueUndef
    · simp only [if_pos hb, hfield]
      cases d <;> rfl
    · simp only [if_neg hb]
      cases d <;> rfl
  | memrefTemp d buffer =>
    rw [hp] at h
    simp only at h ⊢
    split at h
    · cases h
    · cases h
      rw [arrayCalls, filterMap_dirCalls d _ rfl rfl]
      cases d.hasOutput <;> rfl
  | memrefWhole parent =>
    rw [hp] at h
    cases parent with
    | none => cases h
    | some m =>
      simp only [checkParent] at h ⊢
      split at h
      · cases h
      · cases h
        rw [blockCalls_entries]
        cases m.flags.hasOutput <;> rfl
  | memrefPartial d parent offset =>
    rw [hp] at h
    cases parent with
    | none => cases h
    | some m =>
      simp only [checkParent] at h ⊢
      split at h
      · cases h
      · simp only [Except.bind] at h
        split at h
        · cases h
        · split at h
          · cases h
          · cases h
            rw [blockCalls_entries]
            cases d.hasOutput <;> rfl

theorem blockOutput_reference (m : TeecSharedMemory) (len offset : UInt32) :
    (blockOutput sp i m len offset).reference = some (i, ⟨m.buffer, offset.toNat, m.size.toNat⟩) := by
  unfold blockOutput
  split <;> rfl

theorem paramOutputs_cases {ks : List EncodeCall} (h : paramCalls sp io op cl i = .ok ks) :
    (op.params i).hasOutput = false ∧ paramOutputs sp op cl i = [] ∨
    (op.params i).hasOutput = true ∧ (op.params i).isValue = true ∧
      paramOutputs sp op cl i = .word (op.valueAddr i false) ::
        (if cl.words (op.valueAddr i true) ≠ teecValueUndef then [.word (op.valueAddr i true)]
        else []) ∨
    (op.params i).hasOutput = true ∧ (op.params i).isValue = false ∧
      ∃ o b, paramOutputs sp op cl i = [o] ∧ o.reference = some (i, b) := by
  unfold paramCalls at h
  unfold paramOutputs
  cases hp : op.params i with
  | none => exact Or.inl ⟨rfl, rfl⟩
  | value d =>
    dsimp only
    cases hd : d.hasOutput with
    | false => exact Or.inl ⟨hd, rfl⟩
    | true => exact Or.inr (Or.inl ⟨hd, rfl, rfl⟩)
  | memrefTemp d buffer =>
    dsimp only
    cases hd : d.hasOutput with
    | false => exact Or.inl ⟨hd, rfl⟩
    | true => exact Or.inr (Or.inr ⟨hd, rfl, _, _, rfl, rfl⟩)
  | memrefWhole parent =>
    cases parent with
    | none => exact Or.inl ⟨rfl, rfl⟩
    | some m =>
      dsimp only
      cases hd : m.flags.hasOutput with
      | false => exact Or.inl ⟨hd, rfl⟩
      | true => exact Or.inr (Or.inr ⟨hd, rfl, _, _, rfl, blockOutput_reference _ _ _⟩)
  | memrefPartial d parent offset =>
    cases parent with
    | none =>
      rw [hp] at h
      cases h
    | some m =>
      dsimp only
      cases hd : d.hasOutput with
      | false => exact Or.inl ⟨hd, rfl⟩
      | true => exact Or.inr (Or.inr ⟨hd, rfl, _, _, rfl, blockOutput_reference _ _ _⟩)

theorem word_mem_paramOutputs {ks : List EncodeCall} (hks : paramCalls sp io op cl i = .ok ks)
    {a : UInt32} (h : .word a ∈ paramOutputs sp op cl i) : ∃ second, a = op.valueAddr i second := by
  obtain ⟨-, hnil⟩ | ⟨-, -, hlist⟩ | ⟨-, -, o, b, hlist, hb⟩ := paramOutputs_cases hks
  · rw [hnil] at h
    exact absurd h List.not_mem_nil
  · rw [hlist] at h
    obtain heq | h := List.mem_cons.mp h
    · exact ⟨false, Output.word.inj heq⟩
    · split at h
      · exact ⟨true, Output.word.inj (List.mem_singleton.mp h)⟩
      · exact absurd h List.not_mem_nil
  · rw [hlist] at h
    rw [← List.mem_singleton.mp h] at hb
    cases hb

end

/-! ## the response area -/

def areaOffset (es : List Entry) (k : Nat) : Nat := ((es.take k).map fun e => e.size.toNat).sum

section
variable {es es' : List Entry} {e : Entry} {k : Nat}

theorem areaOffset_zero : areaOffset es 0 = 0 := rfl

theorem areaOffset_succ (h : es[k]? = some e) :
    areaOffset es (k + 1) = areaOffset es k + e.size.toNat := by
  unfold areaOffset
  rw [List.take_add_one, h, Option.toList_some, List.map_append, List.sum_append, List.map_singleton,
    List.sum_singleton]

theorem areaOffset_mono {k' : Nat} (h : k ≤ k') : areaOffset es k ≤ areaOffset es k' := by
  induction h with
  | refl => exact Nat.le_refl _
  | step h ih =>
    refine ih.trans ?_
    rename_i n
    cases he : es[n]? with
    | some e =>
      rw [areaOffset_succ he]
      exact Nat.le_add_right _ _
    | none =>
      rw [List.getElem?_eq_none_iff] at he
      rw [areaOffset, areaOffset, List.take_of_length_le he, List.take_of_length_le (by omega)]

theorem areaOffset_append_left (h : k ≤ es.length) : areaOffset (es ++ es') k = areaOffset es k := by
  rw [areaOffset, List.take_append_of_le_length h]
  rfl

theorem areaOffset_append_right :
    areaOffset (es ++ es') (es.length + k) = areaOffset es es.length + areaOffset es' k := by
  rw [areaOffset, List.take_length_add_append, List.map_append, List.sum_append, areaOffset,
    List.take_length]
  rfl

end

structure Laid (c c' : OtzcEncode) (es : List Entry) : Prop where
  pos : c'.encResPos = c.encResPos + es.length
  offset : c'.encResOffset = c.encResOffset + areaOffset es es.length
  entry : ∀ k e, es[k]? = some e →
    c'.metaData (c.encResPos + k) = ⟨e.type, e.len, e.usrAddr⟩
  word : ∀ k e phys, es[k]? = some e → e.phys = some phys →
    c.encResOffset + areaOffset es k + 4 ≤ c'.encResOffset ∧
    4 * (c.encResOffset + areaOffset es k) + 4 ≤ otz1kSize ∧
    ∃ b, c'.kerResDataAddr = some b ∧
      ∀ j < 4, b (4 * (c.encResOffset + areaOffset es k) + j) = wordByte phys j
  earlierEntry : ∀ i, otzMaxReqParams ≤ i → i < c.encResPos → c'.metaData i = c.metaData i
  earlierArea : ∀ b, c.kerResDataAddr = some b →
    ∃ b', c'.kerResDataAddr = some b' ∧ ∀ x < 4 * c.encResOffset, b' x = b x

namespace Laid
variable {c c' c1 : OtzcEncode} {es es' : List Entry}

theorem trans (hc : otzMaxReqParams ≤ c.encResPos) (h : Laid c c1 es) (h' : Laid c1 c' es') :
    Laid c c' (es ++ es') where
  pos := by rw [h'.pos, h.pos, List.length_append, Nat.add_assoc]
  offset := by
    rw [h'.offset, h.offset, List.length_append, areaOffset_append_right, Nat.add_assoc]
  entry k e he := by
    by_cases hk : k < es.length
    · rw [List.getElem?_append_left hk] at he
      rw [h'.earlierEntry _ (by omega) (by rw [h.pos]; omega)]
      exact h.entry k e he
    · rw [List.getElem?_append_right (by omega)] at he
      have hpos : c.encResPos + k = c1.encResPos + (k - es.length) := by
        rw [h.pos]
        omega
      rw [hpos]
      exact h'.entry _ e he
  word k e phys he hp := by
    by_cases hk : k < es.length
    · rw [List.getElem?_append_left hk] at he
      rw [areaOffset_append_left (by omega)]
      obtain ⟨hle, hin, b, hb, hword⟩ := h.word k e phys he hp
      obtain ⟨b', hb', hsame⟩ := h'.earlierArea b hb
      have hgrow := h'.offset
      refine ⟨by omega, hin, b', hb', fun j hj => ?_⟩
      rw [hsame _ (by omega)]
      exact hword j hj
    · rw [List.getElem?_append_right (by omega)] at he
      have hoff : c.encResOffset + areaOffset (es ++ es') k
          = c1.encResOffset + areaOffset es' (k - es.length) := by
        have hk' : k = es.length + (k - es.length) := by omega
        rw [hk', areaOffset_append_right, h.offset, Nat.add_sub_cancel_left, Nat.add_assoc]
      rw [hoff]
      exact h'.word _ e phys he hp
  earlierEntry i hi hlt := by
    rw [h'.earlierEntry i hi (by rw [h.pos]; omega)]
    exact h.earlierEntry i hi hlt
  earlierArea b hb := by
    obtain ⟨b1, hb1, hsame1⟩ := h.earlierArea b hb
    obtain ⟨b', hb', hsame'⟩ := h'.earlierArea b1 hb1
    have hgrow := h.offset
    refine ⟨b', hb', fun x hx => ?_⟩
    rw [hsame' x (by omega)]
    exact hsame1 x hx

end Laid

/-! ## the calls -/

section
variable {c : OtzcEncode} {kmalloc : Option (Nat → UInt8)} {p : ParamData}

theorem encodeReq_laid : Laid c (encodeReq c kmalloc p).ctx [] := by
  have hsame : ∀ c' : OtzcEncode, c'.encResPos = c.encResPos → c'.encResOffset = c.encResOffset →
      c'.kerResDataAddr = c.kerResDataAddr →
      (∀ i, otzMaxReqParams ≤ i → c'.metaData i = c.metaData i) → Laid c c' [] := by
    intro c' hp ho hb hm
    refine ⟨hp, ho, fun k e he => absurd he (by simp), fun k e phys he => absurd he (by simp),
      fun i hi _ => hm i hi, fun b hb0 => ⟨b, hb.trans hb0, fun _ _ => rfl⟩⟩
  unfold encodeReq
  cases (c.kerReqDataAddr.orElse fun _ => kmalloc) with
  | none => exact hsame c rfl rfl rfl fun _ _ => rfl
  | some buf =>
    simp only
    split
    · rename_i hc
      split
      · refine hsame _ rfl rfl rfl fun i hi => update_of_ne ?_ _ _
        omega
      · exact hsame _ rfl rfl rfl fun _ _ => rfl
    · exact hsame _ rfl rfl rfl fun _ _ => rfl

structure Describes (p : ParamData) (e : Entry) : Prop where
  size : p.size = e.size
  type : p.type = e.type
  len : p.len = e.len
  usrAddr : p.usrAddr = some e.usrAddr
  address : ∀ phys, e.phys = some phys →
    p.size = 4 ∧ p.bytes = wordBytes phys ∧ ∀ off, p.place off = 4 * off
  nothing : e.phys = none → p.bytes = []

theorem encodeRes_laid {e : Entry} (h : (encodeRes c kmalloc p).ret = 0)
    (hin : ∀ x ∈ (encodeRes c kmalloc p).used, x.start + x.len ≤ otz1kSize)
    (hd : Describes p e) : Laid c (encodeRes c kmalloc p).ctx [e] := by
  unfold encodeRes at h hin ⊢
  cases hb : (c.kerResDataAddr.orElse fun _ => kmalloc) with
  | none =>
    rw [hb] at h
    exact absurd h enomem_ne
  | some buf =>
    rw [hb] at h hin
    simp only at h hin ⊢
    split at h
    · rename_i hc
      rw [if_pos hc] at hin ⊢
      have hfit : c.encResOffset + p.size.toNat ≤ otz1kSize := hin ⟨_, _⟩ (by simp)
      have hplace : p.place c.encResOffset + p.bytes.length ≤ otz1kSize := hin ⟨_, _⟩ (by simp)
      have hsum : u32 (c.encResOffset + p.size.toNat) = c.encResOffset + p.size.toNat := by
        unfold otz1kSize at hfit
        exact u32_of_lt (by omega)
      refine ⟨rfl, ?_, fun k e' he => ?_, fun k e' phys he hp => ?_, fun i hi hlt => ?_,
        fun b hb0 => ⟨_, rfl, fun x hx => ?_⟩⟩
      · have hone : areaOffset [e] [e].length = e.size.toNat := by simp [areaOffset]
        rw [hone, hsum, hd.size]
      · obtain ⟨rfl, rfl⟩ : k = 0 ∧ e = e' := by
          cases k with
          | zero => exact ⟨rfl, Option.some.inj he⟩
          | succ k => exact absurd he (by simp)
        show update _ _ _ (c.encResPos + 0) = _
        rw [Nat.add_zero, update_self]
        show OtzcEncodeMeta.mk p.type p.len (p.usrAddr.getD _) = _
        rw [hd.type, hd.len, hd.usrAddr]
        rfl
      · obtain ⟨rfl, rfl⟩ : k = 0 ∧ e = e' := by
          cases k with
          | zero => exact ⟨rfl, Option.some.inj he⟩
          | succ k => exact absurd he (by simp)
        obtain ⟨h4, hbytes, hpl⟩ := hd.address phys hp
        have hlen : p.bytes.length = 4 := by rw [hbytes, length_wordBytes]
        rw [hpl, hlen] at hplace
        simp only [areaOffset_zero, Nat.add_zero]
        refine ⟨?_, hplace, _, rfl, fun j hj => ?_⟩
        · show _ ≤ u32 (c.encResOffset + p.size.toNat)
          rw [hsum, h4]
          exact Nat.le_refl _
        · rw [hpl, store_inside (by omega) (by omega) (by omega), hbytes, Nat.add_sub_cancel_left,
            getD_wordBytes phys hj]
      · exact update_of_ne (by omega) _ _
      · have hbuf : buf = b := by
          rw [hb0] at hb
          exact (Option.some.inj hb).symm
        rw [hbuf]
        cases hp : e.phys with
        | none =>
          rw [hd.nothing hp, store_nil]
        | some phys =>
          obtain ⟨-, -, hpl⟩ := hd.address phys hp
          rw [hpl]
          exact store_outside (Or.inl hx)
    · exact absurd h enomem_ne

end

theorem withinLimits_used {c : OtzcEncode} {k : EncodeCall} (h : WithinLimits c k) :
    ∀ x ∈ (encodeCall c k).used, x.start + x.len ≤ otz1kSize := by
  unfold WithinLimits at h
  cases ht : k.paramType with
  | paramIn =>
    rw [ht] at h
    exact h.inside
  | paramOut =>
    rw [ht] at h
    exact h.inside
  | other =>
    rw [ht] at h
    exact h.inside

theorem refuse_laid (c : OtzcEncode) (ret : Int) : Laid c (refuse ret c).ctx [] :=
  ⟨rfl, rfl, fun k e he => absurd he (by simp), fun k e phys he => absurd he (by simp),
    fun _ _ _ => rfl, fun b hb => ⟨b, hb, fun _ _ => rfl⟩⟩

/-- **An accepted call** appends the entry that it makes, if any. -/
theorem encodeCall_laid {c : OtzcEncode} {k : EncodeCall} (hs : Succeeds c k)
    (hw : WithinLimits c k) : Laid c (encodeCall c k).ctx (callEntry k).toList := by
  have hin := withinLimits_used hw
  cases k with
  | uint32 io t data usr =>
    obtain ⟨he, hr⟩ := withUserCommand_ok hs
    have hcall : encodeCall c (.uint32 io t data usr) = _ := he
    rw [hcall] at hin ⊢
    cases t with
    | paramIn => exact encodeReq_laid
    | paramOut =>
      exact encodeRes_laid hr hin
        ⟨rfl, rfl, rfl, rfl, fun phys hp => absurd hp (by simp), fun _ => rfl⟩
    | other => exact refuse_laid c 0
  | array io t len data usr =>
    obtain ⟨he, hr⟩ := withUserCommand_ok hs
    have hcall : encodeCall c (.array io t len data usr) = _ := he
    rw [hcall] at hin ⊢
    cases t with
    | paramIn => exact encodeReq_laid
    | paramOut =>
      exact encodeRes_laid hr hin
        ⟨rfl, rfl, rfl, rfl, fun phys hp => absurd hp (by simp), fun _ => rfl⟩
    | other => exact refuse_laid c 0
  | memRef io t len shared =>
    have hs' : (otzClientKernelEncodeMemRef c io t len shared).ret = 0 := hs
    have hcall : encodeCall c (.memRef io t len shared)
        = otzClientKernelEncodeMemRef c io t len shared := rfl
    rw [hcall] at hin ⊢
    unfold otzClientKernelEncodeMemRef at hs' hin ⊢
    split at hs'
    · rename_i hp
      exact absurd hs' hp
    · rename_i hp
      rw [if_neg hp] at hin ⊢
      cases shared with
      | none => exact absurd hs' (by show -einval ≠ 0; decide)
      | some sh =>
        cases t with
        | paramIn => exact encodeReq_laid
        | paramOut =>
          refine encodeRes_laid hs' hin
            ⟨rfl, rfl, rfl, rfl, fun phys hphys => ?_, fun hnone => absurd hnone (by simp)⟩
          obtain rfl : sh.1 = phys := Option.some.inj hphys
          exact ⟨rfl, rfl, fun _ => rfl⟩
        | other => exact refuse_laid c 0

theorem run_laid {calls : List EncodeCall} {c c' : OtzcEncode} (hinv : EncodeInv c)
    (hacc : Along encodeStep Succeeds c calls) (hw : Along encodeStep WithinLimits c calls)
    (hrun : run encodeStep c calls = some c') : Laid c c' (calls.filterMap callEntry) := by
  induction calls generalizing c with
  | nil =>
    cases hrun
    exact refuse_laid _ 0
  | cons k calls ih =>
    obtain ⟨c1, hs, hr⟩ := run_cons_some hrun
    obtain ⟨hk, hacc'⟩ := along_cons hacc hs
    obtain ⟨hwk, hw'⟩ := along_cons hw hs
    obtain rfl := Option.some.inj hs
    have hfirst := encodeCall_laid hk hwk
    have hrest := ih (hinv.encodeCall k) hacc' hw' hr
    have hsplit : (k :: calls).filterMap callEntry
        = (callEntry k).toList ++ calls.filterMap callEntry := by
      rw [List.filterMap_cons]
      cases callEntry k <;> rfl
    rw [hsplit]
    exact hfirst.trans hinv.resPos_ge hrest

/-! ## the encode loop -/

section
variable {sp : Space} {io : EncodeIo} {op : TeecOperation} {cl : Client}

theorem encodeCalls_ok {ks : List EncodeCall} {c c' : OtzcEncode} (h : encodeCalls c ks = .ok c') :
    run encodeStep c ks = some c' ∧ Along encodeStep Succeeds c ks := by
  induction ks generalizing c with
  | nil =>
    cases h
    exact ⟨rfl, trivial⟩
  | cons k ks ih =>
    rw [encodeCalls] at h
    split at h
    · rename_i hk
      obtain ⟨hr, ha⟩ := ih h
      exact ⟨hr, hk, ha⟩
    · cases h

theorem encodeParams_ok {is : List (Fin 4)} {c c' : OtzcEncode}
    (h : encodeParams sp io op cl c is = .ok c') :
    (∀ i ∈ is, ∃ ks, paramCalls sp io op cl i = .ok ks) ∧
      let calls := is.flatMap fun i => (paramCalls sp io op cl i).toOption.getD []
      run encodeStep c calls = some c' ∧ Along encodeStep Succeeds c calls := by
  induction is generalizing c with
  | nil =>
    cases h
    exact ⟨fun i hi => absurd hi List.not_mem_nil, rfl, trivial⟩
  | cons i is ih =>
    rw [encodeParams] at h
    cases hks : paramCalls sp io op cl i with
    | error e =>
      rw [hks] at h
      cases h
    | ok ks =>
      rw [hks] at h
      cases hc : encodeCalls c ks with
      | error e =>
        simp only [Except.bind, hc] at h
        cases h
      | ok c1 =>
        simp only [Except.bind, hc] at h
        obtain ⟨hall, hrun, hacc⟩ := ih h
        obtain ⟨hrun1, hacc1⟩ := encodeCalls_ok hc
        refine ⟨fun j hj => ?_, ?_⟩
        · obtain rfl | hj := List.mem_cons.mp hj
          · exact ⟨ks, hks⟩
          · exact hall j hj
        · have hcalls : ((i :: is).flatMap fun i => (paramCalls sp io op cl i).toOption.getD [])
              = ks ++ is.flatMap fun i => (paramCalls sp io op cl i).toOption.getD [] := by
            rw [List.flatMap_cons, hks]
            rfl
          rw [hcalls]
          refine ⟨?_, ?_⟩
          · rw [run_append, hrun1]
            exact hrun
          · exact along_append hacc1 hrun1 hacc

theorem operationCalls_entries (h : ∀ i, ∃ ks, paramCalls sp io op cl i = .ok ks) :
    (operationCalls sp io op cl).filterMap callEntry
      = (operationOutputs sp op cl).map Output.entry := by
  unfold operationCalls operationOutputs
  rw [List.filterMap_flatMap, List.map_flatMap]
  congr 1
  funext i
  obtain ⟨ks, hks⟩ := h i
  rw [← paramCalls_entries hks, hks]
  rfl

theorem encodeOperation_laid {c : OtzcEncode} (h : encodeOperation sp io op cl = .ok c)
    (hw : Along encodeStep WithinLimits freshEncode (operationCalls sp io op cl)) :
    EncodeInv c ∧ Laid freshEncode c ((operationOutputs sp op cl).map Output.entry) := by
  obtain ⟨hall, hrun, hacc⟩ := encodeParams_ok h
  constructor
  · refine run_invariant EncodeInv (fun s k s' hs _ he => ?_) freshEncode_inv hacc hrun
    obtain rfl := Option.some.inj he
    exact hs.encodeCall k
  · rw [← operationCalls_entries fun i => hall i (List.mem_finRange i)]
    exact run_laid freshEncode_inv hacc hw hrun

end

end Invoke
end SierraTee
