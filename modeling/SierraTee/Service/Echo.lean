import SierraTee.Service.Crypto
import SierraTee.Common.Printing

/-!
# The echo service (`echo_task.c`)

The handlers copy a parameter of the request into a buffer of 1 KB.  Two of them take the number
of bytes from the request buffer and not from the meta table.  One prints the buffer, through a
buffer of 256 bytes.

* `echoSend_safe_iff`, `echoShared_safe_iff`, `echoIpi_safe_iff`   exactly when a handler is safe;
* `services_safe_iff`  the handlers of both services.
-/

namespace SierraTee
open Word Traced

def dataBufLen : Nat := 1024

def printBufferLen : Nat := 256

def echoFormat : Printing.Format :=
  ⟨[0x65, 0x63, 0x68, 0x6F, 0x20, 0x74, 0x61, 0x73, 0x6B, 0x20, 0x64, 0x61, 0x74, 0x61, 0x3A, 0x25,
    0x73, 0x0A], by decide⟩

section
variable (r : ServiceRequest)

/-- `sw_printf` of `echo_data->data`, of which the conversion reads no more than 257 bytes: the text
is written with its terminator -/
def printData (data : Nat → UInt8) : Traced SmcError Access Unit :=
  let string := (List.range dataBufLen).map fun k => (data k).toBitVec
  match Printing.swVsprintf r.printBuffer echoFormat [.string string] with
  | some text => touch [⟨.own printBufferLen, 0, text.length + 1⟩]
  | none => pure ()

/-- the buffer after `n` bytes of an array at `offset` have been copied into it -/
def copied (offset : Int) (n : Nat) (k : Nat) : UInt8 :=
  if k < n then r.reqBuf (toUint offset + k) else r.oldData k

/-- the response of `process_otz_echo_send_cmd`: ten bytes, whatever the length of its parameter;
the result is what is stored in `*ret_res_buf_len` -/
def answer : Traced SmcError Access (Option UInt32) :=
  if r.resBufLen ≠ 0 then do
    let d ← decodeParam r r.response 0 otzMaxReqParams
    require (d.type = otzEncArray) .einvalArg
    touch [d.access r.response 10]
    take [⟨.slot d.outLen.toNat, 0, 10⟩]
    updateResponseLen d.pos
    pure (some 10)
  else pure none

def processOtzEchoSendCmd : Traced SmcError Access (Option UInt32) := do
  require (r.malloc = true) .enomem
  if r.reqBufLen ≠ 0 then do
    let d0 ← decodeParam r r.request 0 0
    require (d0.type = otzEncUint32) .einvalArg
    touch [d0.access r.request 4]
    let d1 ← decodeParam r r.request d0.offset d0.pos
    require (d1.type = otzEncArray) .einvalArg
    touch [d1.access r.request (d0.word r r.request).toNat,
      ⟨.own dataBufLen, 0, (d0.word r r.request).toNat⟩]
    printData r (copied r d0.offset (d0.word r r.request).toNat)
    answer r
  else do
    printData r r.oldData
    answer r

/-- the response of the other two handlers: `echo_data->len` bytes behind a reference -/
def refAnswer (len : UInt32) : Traced SmcError Access (Option UInt32) :=
  if r.resBufLen ≠ 0 then do
    let d ← decodeParam r r.response 0 otzMaxReqParams
    require (d.type = otzMemRef) .einvalArg
    touch [⟨.own dataBufLen, 0, len.toNat⟩, d.access r.response len.toNat]
    updateResponseLen d.pos
    pure (some len)
  else pure none

def processOtzEchoSendCmdSharedBuf : Traced SmcError Access (Option UInt32) := do
  require (r.malloc = true) .enomem
  if r.reqBufLen ≠ 0 then do
    let d0 ← decodeParam r r.request 0 0
    require (d0.type = otzEncUint32) .einvalArg
    touch [d0.access r.request 4]
    let d1 ← decodeParam r r.request d0.offset d0.pos
    require (d1.type = otzMemRef) .einvalArg
    touch [d1.access r.request (d0.word r r.request).toNat,
      ⟨.own dataBufLen, 0, (d0.word r r.request).toNat⟩]
    refAnswer r (d0.word r r.request)
  else refAnswer r r.oldLen

def processOtzEchoIpiSendCmd : Traced SmcError Access (Option UInt32) := do
  require (r.malloc = true) .enomem
  if r.reqBufLen ≠ 0 then do
    let d ← decodeParam r r.request 0 0
    require (d.type = otzMemRef) .einvalArg
    touch [d.access r.request d.outLen.toNat, ⟨.own dataBufLen, 0, d.outLen.toNat⟩]
    refAnswer r d.outLen
  else refAnswer r r.oldLen

/-! ## What they ask of the request -/

def IsRef (b : ParamArea) (offset : Int) (pos : Nat) : Prop :=
  Available r b offset pos ∧ (r.metaData pos).type ≠ otzEncArray

def AnswerOk (owed : Prop) : Prop :=
  (r.resBufLen = 0 → owed) ∧
  (r.resBufLen ≠ 0 → AddressInside r r.response 0 otzMaxReqParams ∧
    ((r.metaData otzMaxReqParams).type = otzEncArray →
      Inside r ⟨.response, 0, 10⟩ ∧ ArrayInside r r.response 0 otzMaxReqParams ∧
      10 ≤ (r.metaData otzMaxReqParams).len.toNat ∧ owed))

/-- `len` bytes are behind a response reference, and in the buffer of the handler -/
def RefAnswerOk (len : UInt32) : Prop :=
  r.resBufLen ≠ 0 → AddressInside r r.response 0 otzMaxReqParams ∧
    (IsRef r r.response 0 otzMaxReqParams → len.toNat ≤ dataBufLen ∧
      Reachable r r.response 0 otzMaxReqParams len.toNat)

/-- at most 238 bytes are in front of the first zero, or the print buffer begins with 18 bytes that
are not zero, which are counted as printed -/
def PrintFits (data : Nat → UInt8) : Prop :=
  (((List.range dataBufLen).map fun k => (data k).toBitVec).takeWhile (· ≠ 0)).length ≤ 238 ∨
    18 ≤ swStrnlen ((List.range Printing.printTextLen).map r.printBuffer)
      Printing.printTextLen

def echoLen : UInt32 := r.request.word 0

def EchoSendOk : Prop :=
  r.malloc = true →
  (r.reqBufLen ≠ 0 → AddressInside r r.request 0 0 ∧
    ((r.metaData 0).type = otzEncUint32 → Inside r ⟨.request, 0, 4⟩ ∧
      AddressInside r r.request 4 1 ∧
      ((r.metaData 1).type = otzEncArray → Reachable r r.request 4 1 (echoLen r).toNat ∧
        (echoLen r).toNat ≤ dataBufLen ∧ PrintFits r (copied r 4 (echoLen r).toNat) ∧
          AnswerOk r (ArrayInside r r.request 4 1)))) ∧
  (r.reqBufLen = 0 → PrintFits r r.oldData ∧ AnswerOk r True)

def EchoSharedOk : Prop :=
  r.malloc = true →
  (r.reqBufLen ≠ 0 → AddressInside r r.request 0 0 ∧
    ((r.metaData 0).type = otzEncUint32 → Inside r ⟨.request, 0, 4⟩ ∧
      AddressInside r r.request 4 1 ∧
      (IsRef r r.request 4 1 → Reachable r r.request 4 1 (echoLen r).toNat ∧
        (echoLen r).toNat ≤ dataBufLen ∧ RefAnswerOk r (echoLen r)))) ∧
  (r.reqBufLen = 0 → RefAnswerOk r r.oldLen)

def EchoIpiOk : Prop :=
  r.malloc = true →
  (r.reqBufLen ≠ 0 → AddressInside r r.request 0 0 ∧
    (IsRef r r.request 0 0 → Reachable r r.request 0 0 (r.metaData 0).len.toNat ∧
      (r.metaData 0).len.toNat ≤ dataBufLen ∧ RefAnswerOk r (r.metaData 0).len)) ∧
  (r.reqBufLen = 0 → RefAnswerOk r r.oldLen)

end

section
variable {r : ServiceRequest} {owed next : Prop} {b : ParamArea} {offset : Int} {pos : Nat}
  {α : Type}

/-! ## Each block -/

theorem safeAfter_uint32 (f : Decoded → Traced SmcError Access α) :
    SafeAfter (Inside r) owed (decodeParam r b offset pos >>= fun d =>
      require (d.type = otzEncUint32) .einvalArg >>= fun _ =>
        touch [d.access b 4] >>= fun _ => f d) ↔
    AddressInside r b offset pos ∧ ((r.metaData pos).type = otzEncUint32 →
      Inside r ⟨b.spot, toUint offset, 4⟩ ∧ SafeAfter (Inside r) owed
        (f ⟨otzEncUint32, offset + 4, pos + 1, false, .inRequest offset,
          (r.metaData pos).len⟩)) := by
  rw [safeAfter_bind, decodeParam_touched]
  refine and_congr_right fun _ => ⟨fun h ht => ?_, fun h d hd => ?_⟩
  · have h1 := h _ (congrArg Traced.result (decodeParam_uint32 ht))
    rw [safeAfter_require, safeAfter_touch, List.forall_mem_singleton, decodeParam_uint32 ht,
      List.forall_mem_singleton] at h1
    obtain ⟨hin, hs⟩ := h1 rfl
    have howed : owed ∧ Inside r ⟨b.spot, toUint offset, 4⟩ ↔ owed :=
      ⟨fun h => h.1, fun h => ⟨h, hin⟩⟩
    rw [safeAfter_congr howed] at hs
    exact ⟨hin, hs⟩
  · rw [safeAfter_require]
    intro htype
    have ht : (r.metaData pos).type = otzEncUint32 := by
      by_contra hne
      by_cases ha : Available r b offset pos
      · obtain ⟨d', hd'⟩ := ha.decodesTo
        cases hd.symm.trans hd'.result
        obtain h2 | h3 := hd'.type_ok
        · cases h2.symm.trans htype
        · cases h3.symm.trans htype
      · exact hne (not_available ha hd).1
    rw [decodeParam_uint32 ht] at hd ⊢
    cases hd
    obtain ⟨hin, hs⟩ := h ht
    rw [safeAfter_touch, List.forall_mem_singleton, List.forall_mem_singleton]
    have howed : owed ∧ Inside r ⟨b.spot, toUint offset, 4⟩ ↔ owed :=
      ⟨fun h => h.1, fun h => ⟨h, hin⟩⟩
    rw [safeAfter_congr howed]
    exact ⟨hin, hs⟩

theorem safeAfter_typed {t : Nat} (ht : t ≠ otzEncUint32)
    (f : Decoded → Traced SmcError Access α)
    (hf : ∀ d, DecodesTo r b offset pos d →
      (SafeAfter (Inside r) (owed ∧ ArrayInside r b offset pos) (f d) ↔ next)) :
    SafeAfter (Inside r) owed (decodeParam r b offset pos >>= fun d =>
      require (d.type = t) .einvalArg >>= fun _ => f d) ↔
    AddressInside r b offset pos ∧ (Available r b offset pos →
      (if (r.metaData pos).type = otzEncArray then otzEncArray else otzMemRef) = t → next) := by
  rw [safeAfter_bind, decodeParam_touched]
  refine and_congr_right fun _ => ⟨fun h ha hty => ?_, fun h d hd => ?_⟩
  · obtain ⟨d, hd⟩ := ha.decodesTo
    have h1 := h d hd.result
    rw [safeAfter_require, hd.taken_iff, hd.type_eq] at h1
    exact (hf d hd).1 (h1 hty)
  · rw [safeAfter_require]
    intro htype
    by_cases ha : Available r b offset pos
    · obtain ⟨d', hd'⟩ := ha.decodesTo
      cases hd.symm.trans hd'.result
      rw [hd'.taken_iff]
      exact (hf d hd').2 (h ha (hd'.type_eq.symm.trans htype))
    · obtain ⟨h1, -⟩ := not_available ha hd
      rw [decodeParam_uint32 h1] at hd
      cases hd
      exact absurd htype.symm ht

theorem array_type_iff : (Available r b offset pos →
    (if (r.metaData pos).type = otzEncArray then otzEncArray else otzMemRef) = otzEncArray →
    next) ↔ ((r.metaData pos).type = otzEncArray → next) := by
  refine ⟨fun h ht => h (Or.inl ht) (if_pos ht), fun h _ ht => h ?_⟩
  by_contra hne
  rw [if_neg hne] at ht
  exact absurd ht (by decide)

theorem ref_type_iff : (Available r b offset pos →
    (if (r.metaData pos).type = otzEncArray then otzEncArray else otzMemRef) = otzMemRef →
    next) ↔ (IsRef r b offset pos → next) := by
  refine ⟨fun h hr => h hr.1 (if_neg hr.2), fun h ha ht => h ⟨ha, fun he => ?_⟩⟩
  rw [if_pos he] at ht
  exact absurd ht (by decide)

theorem inside_data_iff (n : Nat) : Inside r ⟨.own dataBufLen, 0, n⟩ ↔ n ≤ dataBufLen := by
  show n = 0 ∨ 0 + n ≤ dataBufLen ↔ _
  omega

def echoTokens : List Printing.Token :=
  (echoFormat.chars.take 15).map (fun c => .text [c]) ++ [.string, .text [0x0D, 0x0A]]

theorem echoTokens_measure (x : List (BitVec 8)) :
    Printing.measure echoTokens [.string x] = some (17, (x.takeWhile (· ≠ 0)).length) := by
  simp [echoTokens, echoFormat, Printing.measure, Printing.Token.measure]

theorem safeAfter_printData (data : Nat → UInt8) (f : Unit → Traced SmcError Access α) :
    SafeAfter (Inside r) owed (printData r data >>= f) ↔
      PrintFits r data ∧ SafeAfter (Inside r) owed (f ()) := by
  unfold printData PrintFits
  generalize ((List.range dataBufLen).map fun k => (data k).toBitVec) = x
  have ht : echoFormat.tokens = some echoTokens := rfl
  obtain ⟨text, htext, hlen⟩ := Printing.swVsprintf_length r.printBuffer ht (echoTokens_measure x)
  dsimp only at hlen ⊢
  rw [htext]
  dsimp only
  rw [safeAfter_touch, List.forall_mem_singleton]
  refine and_congr_left fun _ => ?_
  show text.length + 1 = 0 ∨ 0 + (text.length + 1) ≤ 256 ↔ _
  rw [hlen]
  unfold Printing.printTextLen
  omega

theorem answer_safe_iff : SafeAfter (Inside r) owed (answer r) ↔ AnswerOk r owed := by
  unfold answer AnswerOk
  by_cases h0 : r.resBufLen = 0
  · rw [if_neg (not_not.mpr h0)]
    apply (safeAfter_ret none).trans
    exact ⟨fun h => ⟨fun _ => h, fun hn => absurd h0 hn⟩, fun h => h.1 h0⟩
  · rw [if_pos h0]
    have hmain : ∀ d, DecodesTo r r.response 0 otzMaxReqParams d →
        (SafeAfter (Inside r) (owed ∧ ArrayInside r r.response 0 otzMaxReqParams)
          (touch [d.access r.response 10] >>= fun _ => take [⟨.slot d.outLen.toNat, 0, 10⟩] >>=
            fun _ => updateResponseLen d.pos >>= fun _ => pure (some (10 : UInt32))) ↔
        Reachable r r.response 0 otzMaxReqParams 10 ∧
          ArrayInside r r.response 0 otzMaxReqParams ∧
          10 ≤ (r.metaData otzMaxReqParams).len.toNat ∧ owed) := by
      intro d hd
      rw [safeAfter_touch, List.forall_mem_singleton, hd.access_iff, safeAfter_take,
        List.forall_mem_singleton, hd.pos_eq, hd.outLen_eq,
        safeAfter_updateResponseLen (by decide)]
      have hslot : Inside r ⟨.slot (r.metaData otzMaxReqParams).len.toNat, 0, 10⟩ ↔
          10 ≤ (r.metaData otzMaxReqParams).len.toNat := by
        show 10 = 0 ∨ 0 + 10 ≤ (r.metaData otzMaxReqParams).len.toNat ↔ _
        omega
      apply (and_congr_right fun _ => safeAfter_ret (some 10)).trans
      rw [hslot]
      exact ⟨fun h => ⟨h.1, h.2.1.2, h.2.2, h.2.1.1⟩, fun h => ⟨h.1, ⟨h.2.2.2, h.2.1⟩, h.2.2.1⟩⟩
    apply (safeAfter_typed (t := otzEncArray) (by decide) _ hmain).trans
    rw [array_type_iff]
    refine ⟨fun h => ⟨fun he => absurd he h0, fun _ => ⟨h.1, fun ht => ?_⟩⟩,
      fun h => ⟨(h.2 h0).1, fun ht => ?_⟩⟩
    · obtain ⟨hr, hrest⟩ := h.2 ht
      exact ⟨hr.1 ht, hrest⟩
    · obtain ⟨hr, hrest⟩ := (h.2 h0).2 ht
      refine ⟨⟨fun _ => hr, fun he => ?_, fun he => ?_⟩, hrest⟩
      · cases ht.symm.trans he
      · cases ht.symm.trans he

theorem arrayInside_of_isRef (h : IsRef r b offset pos) : ArrayInside r b offset pos :=
  fun he => absurd he h.2

theorem refAnswer_safe_iff (len : UInt32) :
    Safe (Inside r) (refAnswer r len) ↔ RefAnswerOk r len := by
  unfold Safe refAnswer RefAnswerOk
  by_cases h0 : r.resBufLen = 0
  · rw [if_neg (not_not.mpr h0)]
    apply (safeAfter_ret none).trans
    exact ⟨fun _ hn => absurd h0 hn, fun _ => trivial⟩
  · rw [if_pos h0]
    have hmain : ∀ d, DecodesTo r r.response 0 otzMaxReqParams d →
        (SafeAfter (Inside r) (True ∧ ArrayInside r r.response 0 otzMaxReqParams)
          (touch [⟨.own dataBufLen, 0, len.toNat⟩, d.access r.response len.toNat] >>= fun _ =>
            updateResponseLen d.pos >>= fun _ => pure (some len)) ↔
        (len.toNat ≤ dataBufLen ∧ Reachable r r.response 0 otzMaxReqParams len.toNat) ∧
          ArrayInside r r.response 0 otzMaxReqParams) := by
      intro d hd
      rw [safeAfter_touch, List.forall_mem_cons, List.forall_mem_singleton, hd.access_iff,
        inside_data_iff, hd.pos_eq, safeAfter_updateResponseLen (by decide)]
      apply (and_congr_right fun _ => safeAfter_ret (some len)).trans
      exact ⟨fun h => ⟨h.1, h.2.2⟩, fun h => ⟨h.1, trivial, h.2⟩⟩
    apply (safeAfter_typed (t := otzMemRef) (by decide) _ hmain).trans
    rw [ref_type_iff]
    refine ⟨fun h _ => ⟨h.1, fun hr => (h.2 hr).1⟩, fun h => ⟨(h h0).1, fun hr => ?_⟩⟩
    exact ⟨(h h0).2 hr, arrayInside_of_isRef hr⟩

/-! ## The handlers -/

theorem echoSend_safe_iff : Safe (Inside r) (processOtzEchoSendCmd r) ↔ EchoSendOk r := by
  unfold Safe processOtzEchoSendCmd EchoSendOk
  rw [safeAfter_require]
  refine imp_congr_right fun _ => ?_
  by_cases h0 : r.reqBufLen = 0
  · rw [if_neg (not_not.mpr h0), safeAfter_printData, answer_safe_iff]
    exact ⟨fun h => ⟨fun hn => absurd h0 hn, fun _ => h⟩, fun h => h.2 h0⟩
  · rw [if_pos h0, safeAfter_uint32]
    have hmain : ∀ d, DecodesTo r r.request 4 1 d →
        (SafeAfter (Inside r) (True ∧ ArrayInside r r.request 4 1)
          (touch [d.access r.request (echoLen r).toNat,
            ⟨.own dataBufLen, 0, (echoLen r).toNat⟩] >>= fun _ =>
            printData r (copied r 4 (echoLen r).toNat) >>= fun _ => answer r) ↔
        Reachable r r.request 4 1 (echoLen r).toNat ∧ (echoLen r).toNat ≤ dataBufLen ∧
          PrintFits r (copied r 4 (echoLen r).toNat) ∧
          AnswerOk r (ArrayInside r r.request 4 1)) := by
      intro d hd
      rw [safeAfter_touch, List.forall_mem_cons, List.forall_mem_singleton, hd.access_iff,
        inside_data_iff, safeAfter_printData, answer_safe_iff, and_assoc]
      rw [true_and]
    have hrest := (safeAfter_typed (t := otzEncArray) (by decide) _ hmain).trans
      (and_congr_right fun _ => array_type_iff)
    refine ⟨fun h => ⟨fun _ => ⟨h.1, fun ht => ⟨(h.2 ht).1, ?_⟩⟩, fun he => absurd he h0⟩,
      fun h => ⟨(h.1 h0).1, fun ht => ⟨((h.1 h0).2 ht).1, ?_⟩⟩⟩
    · exact hrest.1 (h.2 ht).2
    · exact hrest.2 ((h.1 h0).2 ht).2

theorem echoShared_safe_iff :
    Safe (Inside r) (processOtzEchoSendCmdSharedBuf r) ↔ EchoSharedOk r := by
  unfold Safe processOtzEchoSendCmdSharedBuf EchoSharedOk
  rw [safeAfter_require]
  refine imp_congr_right fun _ => ?_
  by_cases h0 : r.reqBufLen = 0
  · rw [if_neg (not_not.mpr h0)]
    apply (refAnswer_safe_iff r.oldLen).trans
    exact ⟨fun h => ⟨fun hn => absurd h0 hn, fun _ => h⟩, fun h => h.2 h0⟩
  · rw [if_pos h0, safeAfter_uint32]
    have hmain : ∀ d, DecodesTo r r.request 4 1 d →
        (SafeAfter (Inside r) (True ∧ ArrayInside r r.request 4 1)
          (touch [d.access r.request (echoLen r).toNat,
            ⟨.own dataBufLen, 0, (echoLen r).toNat⟩] >>= fun _ => refAnswer r (echoLen r)) ↔
        Reachable r r.request 4 1 (echoLen r).toNat ∧ (echoLen r).toNat ≤ dataBufLen ∧
          SafeAfter (Inside r) (ArrayInside r r.request 4 1) (refAnswer r (echoLen r))) := by
      intro d hd
      rw [safeAfter_touch, List.forall_mem_cons, List.forall_mem_singleton, hd.access_iff,
        inside_data_iff, and_assoc, true_and]
    have hanswer : IsRef r r.request 4 1 →
        (SafeAfter (Inside r) (ArrayInside r r.request 4 1) (refAnswer r (echoLen r)) ↔
          RefAnswerOk r (echoLen r)) := by
      intro hr
      rw [safeAfter_congr (iff_true_intro (arrayInside_of_isRef hr))]
      exact refAnswer_safe_iff (echoLen r)
    have hrest := (safeAfter_typed (t := otzMemRef) (by decide) _ hmain).trans
      (and_congr_right fun _ => ref_type_iff.trans (imp_congr_right fun hr =>
        and_congr_right fun _ => and_congr_right fun _ => hanswer hr))
    refine ⟨fun h => ⟨fun _ => ⟨h.1, fun ht => ⟨(h.2 ht).1, ?_⟩⟩, fun he => absurd he h0⟩,
      fun h => ⟨(h.1 h0).1, fun ht => ⟨((h.1 h0).2 ht).1, ?_⟩⟩⟩
    · exact hrest.1 (h.2 ht).2
    · exact hrest.2 ((h.1 h0).2 ht).2

theorem echoIpi_safe_iff : Safe (Inside r) (processOtzEchoIpiSendCmd r) ↔ EchoIpiOk r := by
  unfold Safe processOtzEchoIpiSendCmd EchoIpiOk
  rw [safeAfter_require]
  refine imp_congr_right fun _ => ?_
  by_cases h0 : r.reqBufLen = 0
  · rw [if_neg (not_not.mpr h0)]
    apply (refAnswer_safe_iff r.oldLen).trans
    exact ⟨fun h => ⟨fun hn => absurd h0 hn, fun _ => h⟩, fun h => h.2 h0⟩
  · rw [if_pos h0]
    have hmain : ∀ d, DecodesTo r r.request 0 0 d →
        (SafeAfter (Inside r) (True ∧ ArrayInside r r.request 0 0)
          (touch [d.access r.request d.outLen.toNat, ⟨.own dataBufLen, 0, d.outLen.toNat⟩] >>=
            fun _ => refAnswer r d.outLen) ↔
        Reachable r r.request 0 0 (r.metaData 0).len.toNat ∧
          (r.metaData 0).len.toNat ≤ dataBufLen ∧
          SafeAfter (Inside r) (ArrayInside r r.request 0 0)
            (refAnswer r (r.metaData 0).len)) := by
      intro d hd
      rw [safeAfter_touch, List.forall_mem_cons, List.forall_mem_singleton, hd.access_iff,
        inside_data_iff, and_assoc, true_and, hd.outLen_eq]
    have hanswer : IsRef r r.request 0 0 →
        (SafeAfter (Inside r) (ArrayInside r r.request 0 0) (refAnswer r (r.metaData 0).len) ↔
          RefAnswerOk r (r.metaData 0).len) := by
      intro hr
      rw [safeAfter_congr (iff_true_intro (arrayInside_of_isRef hr))]
      exact refAnswer_safe_iff (r.metaData 0).len
    apply (safeAfter_typed (t := otzMemRef) (by decide) _ hmain).trans
    rw [ref_type_iff]
    refine ⟨fun h => ⟨fun _ => ⟨h.1, fun hr => ?_⟩, fun he => absurd he h0⟩,
      fun h => ⟨(h.1 h0).1, fun hr => ?_⟩⟩
    · obtain ⟨h1, h2, h3⟩ := h.2 hr
      exact ⟨h1, h2, (hanswer hr).1 h3⟩
    · obtain ⟨h1, h2, h3⟩ := (h.1 h0).2 hr
      exact ⟨h1, h2, (hanswer hr).2 h3⟩

/-- **The service handlers**: exactly when a handler of the crypto or the echo service touches
only what it may and returns an error for a parameter that does not fit. -/
theorem services_safe_iff (hfit : OutputFits r) (svcCmdId : UInt32) :
    (Safe (Inside r) (processOtzCryptoDigestCmd r svcCmdId) ↔ DigestOk r svcCmdId) ∧
    (Safe (Inside r) (processOtzCryptoHmacCmd r svcCmdId) ↔ HmacOk r svcCmdId) ∧
    (Safe (Inside r) (processOtzCryptoCipherCmd r svcCmdId) ↔ CipherOk r svcCmdId) ∧
    (Safe (Inside r) (processOtzEchoSendCmd r) ↔ EchoSendOk r) ∧
    (Safe (Inside r) (processOtzEchoSendCmdSharedBuf r) ↔ EchoSharedOk r) ∧
    (Safe (Inside r) (processOtzEchoIpiSendCmd r) ↔ EchoIpiOk r) :=
  ⟨digest_safe_iff hfit svcCmdId, hmac_safe_iff hfit svcCmdId, cipher_safe_iff hfit svcCmdId,
    echoSend_safe_iff, echoShared_safe_iff, echoIpi_safe_iff⟩

end

/-- a request whose parameters are all arrays of `len` bytes, in buffers of 64 bytes -/
def arrayRequest (len : UInt32) : ServiceRequest where
  reqBufLen := 64
  resBufLen := 64
  reqBuf := fun _ => 0
  resBuf := fun _ => 0
  metaData := fun _ => ⟨otzEncArray, len, 0⟩
  mapToNs := fun _ => none
  wordAt := fun _ => 0
  malloc := true
  oldLen := 0
  oldData := fun _ => 0
  printBuffer := fun _ => 0
  computed := some 16
  macEqual := true

theorem arrayRequest_outputFits (len : UInt32) : OutputFits (arrayRequest len) := by
  intro n hn
  cases hn
  decide

/-- the theorem for an MD5 command -/
theorem services_safe_iff_md5 :
    Safe (Inside (arrayRequest 32)) (processOtzCryptoDigestCmd (arrayRequest 32) 5) ↔
      DigestOk (arrayRequest 32) 5 :=
  (services_safe_iff (arrayRequest_outputFits 32) 5).1

/-- an MD5 command with an array of length -1 copies 4294967295 bytes into the buffer of 256 -/
theorem digest_overruns :
    ¬ Safe (Inside (arrayRequest 0xffffffff))
      (processOtzCryptoDigestCmd (arrayRequest 0xffffffff) 5) := by
  rw [digest_safe_iff (arrayRequest_outputFits _)]
  intro h
  have hneg : toInt 0xffffffff = -1 := by decide
  obtain ⟨h0, -⟩ := (h rfl).2 (Or.inl rfl) (by
    show toInt 0xffffffff < _
    rw [hneg]
    decide)
  have h0' : 0 ≤ toInt 0xffffffff := h0
  rw [hneg] at h0'
  exact absurd h0' (by decide)

end SierraTee
