import SierraTee.Params.Walk

/-!
# The decode loop on a complete response

Every decode call puts the bytes of one output into the client: the word of a value field, the
bytes and the length of a reference.  Seen over the whole loop these are three lists of writes.

* `decodeParams_decodes`  a loop that goes through has received all the outputs, and it does when
                          the driver can copy what was written.
-/

namespace SierraTee
open Function
namespace Invoke
open Word Bytes Runs Writes

/-! ## what is written for an output -/

/-- the address that `enc.data` holds after an output is decoded -/
def Output.next (data : UInt32) (o : Output) : UInt32 :=
  match o with
  | .word addr => addr
  | .array _ _ usrAddr _ => if usrAddr ≠ 0 then usrAddr else data
  | .memRef _ _ _ usrAddr _ => usrAddr

def dataAfter (data : UInt32) (os : List Output) : UInt32 := os.foldl Output.next data

/-- the announced length is not a negative number, and the driver can copy `n` bytes to the user
address of an array -/
def Output.Reaches (sp : Space) (data : UInt32) (o : Output) (n : Nat) : Prop :=
  0 ≤ toInt o.entry.len ∧ match o with
    | .array _ _ _ _ => n ≤ sp.writable (o.next data)
    | _ => True

section
variable (sp : Space) (data : UInt32) (o : Output) (bs : List UInt8)

def wordWrites : List (UInt32 × UInt32) :=
  match o with
  | .word addr => [(addr, ofBytes fun x => bs.getD x 0)]
  | _ => []

def sizeWrites : List (Fin 4 × UInt32) :=
  match o.reference with
  | some (i, _) => [(i, UInt32.ofNat bs.length)]
  | none => []

def arrayWrites : List (UInt32 × UInt8) :=
  match o with
  | .array _ _ _ _ => block (fun x => sp.page (o.next data + UInt32.ofNat x)) bs
  | _ => []

end

section
variable {sp : Space} {data : UInt32} {o : Output} {bs : List UInt8}

theorem mem_wordWrites {a v : UInt32} :
    (a, v) ∈ wordWrites o bs ↔ o = .word a ∧ v = ofBytes fun x => bs.getD x 0 := by
  cases o with
  | word addr =>
    rw [wordWrites, List.mem_singleton, Prod.mk.injEq, Output.word.injEq]
    exact and_congr_left' eq_comm
  | array i len usr b => exact ⟨fun h => absurd h List.not_mem_nil, fun h => by cases h.1⟩
  | memRef i len phys usr b => exact ⟨fun h => absurd h List.not_mem_nil, fun h => by cases h.1⟩

theorem mem_sizeWrites {i : Fin 4} {v : UInt32} :
    (i, v) ∈ sizeWrites o bs ↔ (∃ b, o.reference = some (i, b)) ∧ v = UInt32.ofNat bs.length := by
  cases o with
  | word addr => exact ⟨fun h => absurd h List.not_mem_nil, fun ⟨⟨b, hb⟩, _⟩ => by cases hb⟩
  | array i' len usr b => simp [sizeWrites, Output.reference, eq_comm]
  | memRef i' len phys usr b => simp [sizeWrites, Output.reference, eq_comm]

theorem mem_arrayWrites {p : UInt32} {v : UInt8} : (p, v) ∈ arrayWrites sp data o bs ↔
    ∃ i len usr b x, o = .array i len usr b ∧ bs[x]? = some v ∧
      p = sp.page (o.next data + UInt32.ofNat x) := by
  cases o with
  | word addr =>
    exact ⟨fun h => absurd h List.not_mem_nil, fun ⟨_, _, _, _, _, h, _⟩ => by cases h⟩
  | array i len usr b =>
    rw [arrayWrites, mem_block_iff]
    constructor
    · rintro ⟨x, hx, hp⟩
      exact ⟨i, len, usr, b, x, rfl, hx, hp⟩
    · rintro ⟨-, -, -, -, x, -, hx, hp⟩
      exact ⟨x, hx, hp⟩
  | memRef i len phys usr b =>
    exact ⟨fun h => absurd h List.not_mem_nil, fun ⟨_, _, _, _, _, h, _⟩ => by cases h⟩

end

/-- the writes for a list of outputs; `f` gives those for output `k` -/
def allWrites {A B : Type} (f : Nat → Output → List (A × B)) (os : List Output) : List (A × B) :=
  (os.mapIdx f).flatten

section
variable {A B : Type} {f : Nat → Output → List (A × B)} {os : List Output} {o : Output}

theorem allWrites_concat : allWrites f (os ++ [o]) = allWrites f os ++ f os.length o := by
  rw [allWrites, List.mapIdx_concat, List.flatten_append, List.flatten_singleton]
  rfl

theorem mem_allWrites {w : A × B} :
    w ∈ allWrites f os ↔ ∃ k o, os[k]? = some o ∧ w ∈ f k o := by
  rw [allWrites, List.mem_flatten]
  constructor
  · rintro ⟨l, hl, hw⟩
    obtain ⟨k, hk, rfl⟩ := List.mem_mapIdx.mp hl
    exact ⟨k, os[k], List.getElem?_eq_getElem hk, hw⟩
  · rintro ⟨k, o, ho, hw⟩
    obtain ⟨hk, rfl⟩ := List.getElem?_eq_some_iff.mp ho
    exact ⟨_, List.mem_mapIdx.mpr ⟨k, hk, rfl⟩, hw⟩

end

/-! ## the response of a service -/

structure Answered (r : Response) (outs : List Output) (bytes : Nat → List UInt8) : Prop where
  pos : r.ctx.encResPos = otzMaxReqParams + outs.length
  entry : ∀ k o, outs[k]? = some o →
    r.ctx.metaData (otzMaxReqParams + k) = ⟨o.entry.type, o.entry.len, o.entry.usrAddr⟩
  fits : ∀ k o, outs[k]? = some o → outOffset outs k + o.entry.size.toNat ≤ otz1kSize
  announced : ∀ k o, outs[k]? = some o → (bytes k).length ≤ o.announced
  word : ∀ k o, outs[k]? = some o → o.entry.type = otzEncUint32 → (bytes k).length = 4
  area : ∀ k o, outs[k]? = some o → o.entry.phys = none →
    ∀ x b, (bytes k)[x]? = some b → r.area (outOffset outs k + x) = b
  reported : ∀ k o, outs[k]? = some o → o.entry.type ≠ otzEncUint32 →
    r.retLen (otzMaxReqParams + k) = UInt32.ofNat (bytes k).length

def Service.bytes (s : Service) (k : Nat) : List UInt8 := (s.written k).getD []

theorem Walked.answered {sp : Space} {c : OtzcEncode} {outs : List Output}
    {mem : UInt32 → UInt8} {s : Service} (h : Ready c outs) (hw : Walked sp c mem s) :
    WalkInv sp outs mem s ∧ Answered (s.response c) outs s.bytes := by
  obtain ⟨⟨calls, hr⟩, hall⟩ := hw
  have hi := WalkInv.of_run h hr
  have hwritten : ∀ k o, outs[k]? = some o → Written sp s o (outOffset outs k) k (s.bytes k) := by
    intro k o ho
    have hk : k < outs.length := (List.getElem?_eq_some_iff.mp ho).1
    have hne := hall k (by rw [h.pos]; omega)
    obtain ⟨bs, hbs⟩ := Option.ne_none_iff_exists'.mp hne
    rw [Service.bytes, hbs]
    exact (hi.written k bs hbs).2 o ho
  exact ⟨hi, h.pos, h.entry, h.fits, fun k o ho => (hwritten k o ho).length,
    fun k o ho => (hwritten k o ho).word, fun k o ho => (hwritten k o ho).area,
    fun k o ho => (hwritten k o ho).reported⟩

/-! ## the client after some outputs -/

section
variable (sp : Space) (outs : List Output) (bytes : Nat → List UInt8) (data0 : UInt32) (cl : Client)

def dataBefore (k : Nat) : UInt32 := dataAfter data0 (outs.take k)

structure Reached (n : Nat) (s : Decoding) : Prop where
  pos : s.decResPos = otzMaxReqParams + n
  offset : s.decOffset = outOffset outs n
  data : s.data = dataBefore outs data0 n
  words : s.client.words =
    applyWrites cl.words (allWrites (fun k o => wordWrites o (bytes k)) (outs.take n))
  size : s.client.size =
    applyWrites cl.size (allWrites (fun k o => sizeWrites o (bytes k)) (outs.take n))
  mem : s.client.mem = applyWrites cl.mem
    (allWrites (fun k o => arrayWrites sp (dataBefore outs data0 k) o (bytes k)) (outs.take n))
  reaches : ∀ (k : Nat) (o : Output), k < n → outs[k]? = some o →
    o.Reaches sp (dataBefore outs data0 k) (bytes k).length

end

structure Takes (sp : Space) (o : Output) (bs : List UInt8) (s s' : Decoding) : Prop where
  pos : s'.decResPos = s.decResPos + 1
  offset : s'.decOffset = s.decOffset + o.entry.size.toNat
  data : s'.data = o.next s.data
  words : s'.client.words = applyWrites s.client.words (wordWrites o bs)
  size : s'.client.size = applyWrites s.client.size (sizeWrites o bs)
  mem : s'.client.mem = applyWrites s.client.mem (arrayWrites sp s.data o bs)
  reaches : o.Reaches sp s.data bs.length

section
variable {sp : Space} {outs : List Output} {bytes : Nat → List UInt8} {data0 : UInt32} {cl : Client}
  {s s' : Decoding} {o : Output} {n : Nat}

theorem reached_start : Reached sp outs bytes data0 cl 0 (firstDecoding cl data0) :=
  ⟨rfl, rfl, rfl, rfl, rfl, rfl, fun k _ hk => absurd hk (Nat.not_lt_zero k)⟩

theorem Reached.takes (h : Reached sp outs bytes data0 cl n s) (ho : outs[n]? = some o)
    (ht : Takes sp o (bytes n) s s') : Reached sp outs bytes data0 cl (n + 1) s' := by
  have htake : outs.take (n + 1) = outs.take n ++ [o] := by
    rw [List.take_add_one, ho]
    rfl
  have hlen : (outs.take n).length = n := by
    rw [List.length_take]
    have := (List.getElem?_eq_some_iff.mp ho).1
    omega
  have hdata : dataBefore outs data0 (n + 1) = o.next (dataBefore outs data0 n) := by
    rw [dataBefore, htake, dataAfter, List.foldl_append]
    rfl
  refine ⟨by rw [ht.pos, h.pos, Nat.add_assoc], ?_, ?_, ?_, ?_, ?_, fun k o' hk ho' => ?_⟩
  · rw [ht.offset, h.offset, outOffset_succ ho]
  · rw [ht.data, h.data, hdata]
  · rw [ht.words, h.words, htake, allWrites_concat, applyWrites_append, hlen]
  · rw [ht.size, h.size, htake, allWrites_concat, applyWrites_append, hlen]
  · rw [ht.mem, h.mem, htake, allWrites_concat, applyWrites_append, hlen, h.data]
  · obtain hlt | rfl := Nat.lt_or_eq_of_le (Nat.le_of_lt_succ hk)
    · exact h.reaches k o' hlt ho'
    · rw [ho] at ho'
      obtain rfl := Option.some.inj ho'
      rw [← h.data]
      exact ht.reaches

end

/-! ## the decode calls of the driver -/

def DecodeIo.Good (io : DecodeIo) : Prop :=
  io.copyIn = true ∧ io.prepare = 0 ∧ io.copyOut = true

theorem withDecodeContext_iff {io : DecodeIo} {s : Decoding} {body : Int × Decoding} :
    (withDecodeContext io s body).1 = 0 ↔ io.Good ∧ body.1 = 0 := by
  have hne : ¬ (-efault : Int) = 0 := by decide
  unfold withDecodeContext DecodeIo.Good
  cases io.copyIn with
  | false => simp [hne]
  | true =>
    by_cases hp : io.prepare = 0
    · by_cases hb : body.1 = 0
      · cases io.copyOut <;> simp [hp, hb, hne]
      · simp [hp, hb]
    · simp [hp]

theorem withDecodeContext_eq {io : DecodeIo} {s : Decoding} {body : Int × Decoding}
    (h : (withDecodeContext io s body).1 = 0) : withDecodeContext io s body = body := by
  obtain ⟨⟨h1, h2, h3⟩, h4⟩ := withDecodeContext_iff.1 h
  simp [withDecodeContext, h1, h2, h3, h4]

theorem ioctl_eq_zero {ret : Int} : ioctl ret = 0 ↔ ret = 0 := by
  unfold ioctl
  split
  · omega
  · exact Iff.rfl

section
variable {sp : Space} {outs : List Output} {bytes : Nat → List UInt8} {r : Response}
  {op : TeecOperation} {dio : Fin 4 → Bool → DecodeIo} {s : Decoding} {n : Nat} {i : Fin 4}

theorem valueAddr_toNat (op : TeecOperation) (i : Fin 4) (second : Bool) :
    (op.valueAddr i second).toNat = op.addr.toNat + (8 + 12 * i.val + if second then 4 else 0) := by
  have h1 := op.inSpace
  have h2 := i.isLt
  rw [TeecOperation.valueAddr, UInt32.toNat_add, UInt32.toNat_ofNat']
  have h3 : (if second = true then 4 else 0) ≤ 4 := by split <;> omega
  generalize (if second = true then 4 else 0) = field at *
  omega

theorem valueAddr_ne_zero (op : TeecOperation) (i : Fin 4) (second : Bool) :
    op.valueAddr i second ≠ 0 := by
  intro h
  have h1 := valueAddr_toNat op i second
  rw [h] at h1
  have : (0 : UInt32).toNat = 0 := rfl
  omega

theorem Answered.atType (ha : Answered r outs bytes) {o : Output} (ho : outs[n]? = some o)
    (hpos : s.decResPos = otzMaxReqParams + n) (type : Nat) :
    AtType r s type ↔ o.entry.type = type := by
  have hn : n < outs.length := (List.getElem?_eq_some_iff.mp ho).1
  have hle : s.decResPos ≤ r.ctx.encResPos := by
    rw [hpos, ha.pos]
    omega
  rw [AtType, hpos, ha.entry n o ho]
  exact and_iff_right (hpos ▸ hle)

theorem Answered.usrAddrOr (ha : Answered r outs bytes) {o : Output} (ho : outs[n]? = some o)
    (hpos : s.decResPos = otzMaxReqParams + n) :
    usrAddrOr r s = if o.entry.usrAddr ≠ 0 then o.entry.usrAddr else s.data := by
  rw [Invoke.usrAddrOr, hpos, ha.entry n o ho]

theorem Answered.read (ha : Answered r outs bytes) {o : Output} (ho : outs[n]? = some o)
    (hp : o.entry.phys = none) {m : Nat} (hm : m = (bytes n).length) :
    ((List.range m).map fun x => r.area (outOffset outs n + x)) = bytes n := by
  apply List.ext_getElem
  · rw [List.length_map, List.length_range, hm]
  · intro x h1 h2
    rw [List.getElem_map, List.getElem_range]
    exact ha.area n o ho hp x _ (List.getElem?_eq_getElem h2)

theorem u32_offset {a b : Nat} (h : a + b ≤ otz1kSize) : u32 (a + b) = a + b := by
  unfold otz1kSize at h
  exact u32_of_lt (by omega)

/-! ### a field of a value -/

theorem decodeField_takes (ha : Answered r outs bytes) {second : Bool}
    (ho : outs[n]? = some (.word (op.valueAddr i second)))
    (hpos : s.decResPos = otzMaxReqParams + n) (hoff : s.decOffset = outOffset outs n)
    (h : (decodeField dio op r i second s).1 = 0) :
    Takes sp (.word (op.valueAddr i second)) (bytes n) s (decodeField dio op r i second s).2 := by
  unfold decodeField at h ⊢
  simp only at h ⊢
  split at h
  · rename_i hne
    exact absurd h hne
  · rename_i hne
    rw [if_neg hne]
    have hzero := ioctl_eq_zero.1 (not_not.1 hne)
    unfold otzClientDecodeUint32 at hzero ⊢
    rw [withDecodeContext_eq hzero]
    have hat : AtType r { s with len := 4 } otzEncUint32 := (ha.atType ho hpos _).2 rfl
    have husr : usrAddrOr r { s with len := 4 } = op.valueAddr i second :=
      (ha.usrAddrOr ho hpos).trans (if_pos (valueAddr_ne_zero op i second))
    have hfit : outOffset outs n + 4 ≤ otz1kSize := ha.fits n _ ho
    have hword : (ofBytes fun k => r.area (s.decOffset + k)) = ofBytes fun x => (bytes n).getD x 0 := by
      apply ofBytes_congr
      intro x hx
      have hlt : x < (bytes n).length := by
        rw [ha.word n _ ho rfl]
        exact hx
      rw [hoff, ha.area n _ ho rfl x _ (List.getElem?_eq_getElem hlt), List.getD_eq_getElem _ _ hlt]
    rw [if_pos hat]
    simp only [husr, hword]
    refine ⟨rfl, ?_, rfl, ?_, rfl, rfl, ?_, trivial⟩
    · show u32 (s.decOffset + 4) = s.decOffset + 4
      rw [hoff]
      exact u32_offset hfit
    · show update _ _ _ = _
      rw [update_self, update_idem]
      rfl
    · show 0 ≤ toInt 4
      decide

theorem decodeField_good {second : Bool} (hgood : (dio i second).Good) :
    (decodeField dio op r i second s).1 = 0 := by
  unfold decodeField
  have hzero : (otzClientDecodeUint32 r (dio i second) { s with len := 4 }).1 = 0 := by
    refine withDecodeContext_iff.2 ⟨hgood, ?_⟩
    split <;> rfl
  simp only
  rw [if_neg (not_not.2 (ioctl_eq_zero.2 hzero))]

/-! ### a reference -/

theorem Answered.retLen (ha : Answered r outs bytes) {o : Output} (ho : outs[n]? = some o)
    (ht : o.entry.type ≠ otzEncUint32) :
    r.retLen (otzMaxReqParams + n) = UInt32.ofNat (bytes n).length ∧
      (r.retLen (otzMaxReqParams + n)).toNat = (bytes n).length ∧
      toInt (r.retLen (otzMaxReqParams + n)) = (bytes n).length := by
  have hr := ha.reported n o ho ht
  have hann : (bytes n).length ≤ (toInt o.entry.len).toNat := ha.announced n o ho
  have hlt : (toInt o.entry.len).toNat < 2 ^ 31 := by
    have h32 := o.entry.len.toNat_lt
    unfold toInt toInt32
    split <;> omega
  have hnat : (r.retLen (otzMaxReqParams + n)).toNat = (bytes n).length := by
    rw [hr, UInt32.toNat_ofNat']
    omega
  refine ⟨hr, hnat, ?_⟩
  rw [toInt, toInt32, hnat, if_pos (by omega)]

theorem reference_type {o : Output} {b : Block} (hb : o.reference = some (i, b)) :
    o.entry.type ≠ otzEncUint32 := by
  cases o with
  | word addr => cases hb
  | array i' len usr b' =>
    show otzEncArray ≠ otzEncUint32
    decide
  | memRef i' len phys usr b' =>
    show otzMemRef ≠ otzEncUint32
    decide

theorem decodeReference_takes (ha : Answered r outs bytes) {o : Output} {b : Block}
    (ho : outs[n]? = some o) (hb : o.reference = some (i, b))
    (hpos : s.decResPos = otzMaxReqParams + n) (hoff : s.decOffset = outOffset outs n)
    (h : (decodeReference sp dio r i s).1 = 0) :
    Takes sp o (bytes n) s (decodeReference sp dio r i s).2 := by
  unfold decodeReference at h ⊢
  simp only at h ⊢
  split at h
  · rename_i hne
    exact absurd h hne
  · rename_i hne
    rw [if_neg hne]
    have hzero := ioctl_eq_zero.1 (not_not.1 hne)
    unfold otzClientDecodeArraySpace at hzero ⊢
    obtain ⟨-, hbody⟩ := withDecodeContext_iff.1 hzero
    rw [withDecodeContext_eq hzero]
    cases o with
    | word addr => cases hb
    | array i' len usr b' =>
      obtain ⟨rfl, rfl⟩ := Prod.mk.inj (Option.some.inj hb)
      obtain ⟨hr, hnat, hint⟩ := ha.retLen ho (reference_type hb)
      have hat : AtType r s otzEncArray := (ha.atType ho hpos _).2 rfl
      have hentry := ha.entry n _ ho
      have hfit : outOffset outs n + len.toNat ≤ otz1kSize := ha.fits n _ ho
      simp only [if_pos hat, hpos, hentry] at hbody ⊢
      split at hbody
      · rename_i hle
        split at hbody
        · exact absurd hbody efault_ne
        · rename_i hw
          rw [if_pos hle, if_neg hw]
          have husr : usrAddrOr r s = (Output.array i' len usr b').next s.data :=
            ha.usrAddrOr ho hpos
          refine ⟨congrArg (· + 1) hpos.symm, ?_, husr, rfl, ?_, ?_, ?_, ?_⟩
          · show u32 (s.decOffset + len.toNat) = s.decOffset + len.toNat
            rw [hoff]
            exact u32_offset hfit
          · show update s.client.size i' (r.retLen (otzMaxReqParams + n)) = _
            rw [hr]
            rfl
          · show applyWrites s.client.mem _ = _
            rw [hnat] at hw ⊢
            rw [hoff, ha.read ho rfl rfl, List.take_of_length_le (by omega), husr]
            rfl
          · show 0 ≤ toInt len
            rw [hint] at hle
            exact (Int.natCast_nonneg _).trans hle
          · show (bytes n).length ≤ sp.writable _
            rw [hnat, husr] at hw
            exact Nat.not_lt.mp hw
      · exact absurd hbody efault_ne
    | memRef i' len phys usr b' =>
      obtain ⟨rfl, rfl⟩ := Prod.mk.inj (Option.some.inj hb)
      obtain ⟨hr, -, hint⟩ := ha.retLen ho (reference_type hb)
      have hat : ¬ AtType r s otzEncArray := fun hc =>
        absurd ((ha.atType ho hpos _).1 hc) (by show otzMemRef ≠ otzEncArray; decide)
      have hat' : AtType r s otzMemRef := (ha.atType ho hpos _).2 rfl
      have hentry := ha.entry n _ ho
      have hfit : outOffset outs n + 4 ≤ otz1kSize := ha.fits n _ ho
      simp only [if_neg hat, if_pos hat', hpos, hentry] at hbody ⊢
      split at hbody
      · rename_i hle
        rw [if_pos hle]
        refine ⟨congrArg (· + 1) hpos.symm, ?_, rfl, rfl, ?_, rfl, ?_, trivial⟩
        · show u32 (s.decOffset + 4) = s.decOffset + 4
          rw [hoff]
          exact u32_offset hfit
        · show update s.client.size i' (r.retLen (otzMaxReqParams + n)) = _
          rw [hr]
          rfl
        · show 0 ≤ toInt len
          rw [hint] at hle
          exact (Int.natCast_nonneg _).trans hle
      · exact absurd hbody efault_ne

theorem decodeReference_good (ha : Answered r outs bytes) {o : Output} {b : Block}
    (ho : outs[n]? = some o) (hb : o.reference = some (i, b))
    (hpos : s.decResPos = otzMaxReqParams + n) (hgood : (dio i false).Good)
    (hreach : o.Reaches sp s.data (bytes n).length) :
    (decodeReference sp dio r i s).1 = 0 := by
  obtain ⟨hpositive, hw⟩ := hreach
  obtain ⟨-, hnat, hint⟩ := ha.retLen ho (reference_type hb)
  have hle : toInt (r.retLen (otzMaxReqParams + n)) ≤ toInt o.entry.len := by
    have hann : (bytes n).length ≤ (toInt o.entry.len).toNat := ha.announced n o ho
    omega
  have hzero : (otzClientDecodeArraySpace sp r (dio i false) s).1 = 0 := by
    refine withDecodeContext_iff.2 ⟨hgood, ?_⟩
    have hentry := ha.entry n _ ho
    cases o with
    | word addr => cases hb
    | array i' len usr b' =>
      have hat : AtType r s otzEncArray := (ha.atType ho hpos _).2 rfl
      have hwr : ¬ sp.writable (usrAddrOr r s) < (bytes n).length := by
        rw [ha.usrAddrOr ho hpos]
        exact Nat.not_lt.mpr hw
      simp only [if_pos hat, hpos, hentry]
      rw [if_pos hle, hnat, if_neg hwr]
    | memRef i' len phys usr b' =>
      have hat : ¬ AtType r s otzEncArray := fun hc =>
        absurd ((ha.atType ho hpos _).1 hc) (by show otzMemRef ≠ otzEncArray; decide)
      have hat' : AtType r s otzMemRef := (ha.atType ho hpos _).2 rfl
      simp only [if_neg hat, if_pos hat', hpos, hentry]
      rw [if_pos hle]
  unfold decodeReference
  simp only
  rw [if_neg (not_not.2 (ioctl_eq_zero.2 hzero))]

end

/-! ## the decode loop -/

section
variable {sp : Space} {io : EncodeIo} {op : TeecOperation} {cl : Client} {outs : List Output}
  {bytes : Nat → List UInt8} {r : Response} {data0 : UInt32} {cl0 : Client}
  {dio : Fin 4 → Bool → DecodeIo} {s : Decoding} {n : Nat} {i : Fin 4}

def CanDecode (sp : Space) (outs : List Output) (bytes : Nat → List UInt8) (data0 : UInt32) : Prop :=
  ∀ (k : Nat) (o : Output), outs[k]? = some o → o.Reaches sp (dataBefore outs data0 k) (bytes k).length

/-- a loop ends with `m` more outputs decoded or with an error; where everything can be decoded
there is no error -/
structure Decodes (sp : Space) (outs : List Output) (bytes : Nat → List UInt8) (data0 : UInt32)
    (cl0 : Client) (dio : Fin 4 → Bool → DecodeIo) (n : Nat) (t : Int × Decoding) : Prop where
  reached : t.1 = 0 → Reached sp outs bytes data0 cl0 n t.2
  succeeds : (∀ i second, (dio i second).Good) → CanDecode sp outs bytes data0 → t.1 = 0

theorem decodeField_decodes (ha : Answered r outs bytes)
    (hs : Reached sp outs bytes data0 cl0 n s) {second : Bool}
    (ho : outs[n]? = some (.word (op.valueAddr i second))) :
    Decodes sp outs bytes data0 cl0 dio (n + 1) (decodeField dio op r i second s) where
  reached h := hs.takes ho (decodeField_takes ha ho hs.pos hs.offset h)
  succeeds hgood _ := decodeField_good (hgood i second)

theorem decodeReference_decodes (ha : Answered r outs bytes)
    (hs : Reached sp outs bytes data0 cl0 n s) {o : Output} {b : Block} (ho : outs[n]? = some o)
    (hb : o.reference = some (i, b)) :
    Decodes sp outs bytes data0 cl0 dio (n + 1) (decodeReference sp dio r i s) where
  reached h := hs.takes ho (decodeReference_takes ha ho hb hs.pos hs.offset h)
  succeeds hgood hd := by
    refine decodeReference_good ha ho hb hs.pos (hgood i false) ?_
    rw [hs.data]
    exact hd n o ho

theorem valueAddr_inj {op : TeecOperation} {i j : Fin 4} {second second' : Bool}
    (h : op.valueAddr i second = op.valueAddr j second') : i = j ∧ second = second' := by
  have h1 := valueAddr_toNat op i second
  have h2 := valueAddr_toNat op j second'
  rw [h] at h1
  have h3 : 12 * i.val + (if second = true then 4 else 0)
      = 12 * j.val + (if second' = true then 4 else 0) := by omega
  cases second <;> cases second' <;> simp at h3 ⊢ <;> omega

theorem Reached.word_eq (hs : Reached sp outs bytes data0 cl0 n s) {a : UInt32}
    (h : .word a ∉ outs.take n) : s.client.words a = cl0.words a := by
  rw [hs.words]
  refine applyWrites_of_notMem fun w hw => ?_
  obtain ⟨k, o, ho, hmem⟩ := mem_allWrites.mp hw
  obtain ⟨rfl, -⟩ := mem_wordWrites.mp hmem
  exact h (List.mem_of_getElem? ho)

theorem decodeParam_decodes {ks : List EncodeCall} (hks : paramCalls sp io op cl0 i = .ok ks)
    (ha : Answered r outs bytes) (hs : Reached sp outs bytes data0 cl n s)
    (hwords : cl.words = cl0.words) (hfresh : .word (op.valueAddr i true) ∉ outs.take n)
    (hseg : ∀ k o, (paramOutputs sp op cl0 i)[k]? = some o → outs[n + k]? = some o) :
    Decodes sp outs bytes data0 cl dio (n + (paramOutputs sp op cl0 i).length)
      (decodeParam sp dio op r i s) := by
  obtain ⟨ho, hnil⟩ | ⟨ho, hv, hlist⟩ | ⟨ho, hv, o, b, hlist, hb⟩ := paramOutputs_cases hks
  · have he : decodeParam sp dio op r i s = (0, s) := by
      rw [decodeParam, ho]
      rfl
    rw [he, hnil]
    exact ⟨fun _ => hs, fun _ _ => rfl⟩
  · have he : decodeParam sp dio op r i s = decodeValue dio op r i s := by
      rw [decodeParam, ho, hv]
      rfl
    rw [hlist] at hseg
    have hfirst : outs[n]? = some (.word (op.valueAddr i false)) := hseg 0 _ rfl
    have h1 : Decodes sp outs bytes data0 cl dio (n + 1) (decodeField dio op r i false s) :=
      decodeField_decodes ha hs hfirst
    rw [he, hlist, decodeValue]
    by_cases hz : (decodeField dio op r i false s).1 = 0
    · have hr1 := h1.reached hz
      have hkeep : (decodeField dio op r i false s).2.client.words (op.valueAddr i true)
          = cl0.words (op.valueAddr i true) := by
        rw [← hwords]
        apply hr1.word_eq
        rw [List.take_add_one, hfirst, List.mem_append]
        rintro (hmem | hmem)
        · exact hfresh hmem
        · have heq := List.mem_singleton.mp hmem
          exact absurd (valueAddr_inj (Output.word.inj heq)).2 (by decide)
      simp only [if_neg (not_not.2 hz), hkeep]
      by_cases hundef : cl0.words (op.valueAddr i true) ≠ teecValueUndef
      · rw [if_pos hundef] at hseg ⊢
        rw [if_pos hundef]
        exact decodeField_decodes ha hr1 (hseg 1 _ rfl)
      · rw [if_neg hundef, if_neg hundef]
        exact h1
    · simp only [if_pos hz]
      exact ⟨fun h => absurd h hz, fun hg hd => absurd (h1.succeeds hg hd) hz⟩
  · have he : decodeParam sp dio op r i s = decodeReference sp dio r i s := by
      rw [decodeParam, ho, hv]
      rfl
    rw [hlist] at hseg ⊢
    rw [he]
    exact decodeReference_decodes ha hs (hseg 0 o rfl) hb

theorem decodeParams_decodes (hall : ∀ i, ∃ ks, paramCalls sp io op cl0 i = .ok ks)
    (ha : Answered r outs bytes) (hwords : cl.words = cl0.words) {before is : List (Fin 4)}
    (hnodup : (before ++ is).Nodup)
    (houts : outs = (before ++ is).flatMap (paramOutputs sp op cl0))
    (hn : n = (before.flatMap (paramOutputs sp op cl0)).length)
    (hs : Reached sp outs bytes data0 cl n s) :
    Decodes sp outs bytes data0 cl dio outs.length (decodeParams sp dio op r s is) := by
  induction is generalizing before n s with
  | nil =>
    rw [List.append_nil] at houts
    rw [houts, ← hn]
    exact ⟨fun _ => houts ▸ hs, fun _ _ => rfl⟩
  | cons i is ih =>
    obtain ⟨ks, hks⟩ := hall i
    have hsplit : outs = before.flatMap (paramOutputs sp op cl0) ++
        (paramOutputs sp op cl0 i ++ is.flatMap (paramOutputs sp op cl0)) := by
      rw [houts, List.flatMap_append, List.flatMap_cons]
    have hseg : ∀ k o, (paramOutputs sp op cl0 i)[k]? = some o → outs[n + k]? = some o := by
      intro k o ho
      rw [hsplit, hn, List.getElem?_append_right (Nat.le_add_right _ _), Nat.add_sub_cancel_left,
        List.getElem?_append_left (List.getElem?_eq_some_iff.mp ho).1]
      exact ho
    have hfresh : .word (op.valueAddr i true) ∉ outs.take n := by
      rw [hsplit, hn, List.take_left']
      · intro hmem
        obtain ⟨j, hj, hword⟩ := List.mem_flatMap.mp hmem
        obtain ⟨ksj, hksj⟩ := hall j
        obtain ⟨second, heq⟩ := word_mem_paramOutputs hksj hword
        obtain rfl := (valueAddr_inj heq).1
        exact (List.nodup_append.mp hnodup).2.2 _ hj _ List.mem_cons_self rfl
      · rfl
    have hparam : Decodes sp outs bytes data0 cl dio _ (decodeParam sp dio op r i s) :=
      decodeParam_decodes hks ha hs hwords hfresh hseg
    rw [decodeParams]
    by_cases hz : (decodeParam sp dio op r i s).1 = 0
    · simp only [if_neg (not_not.2 hz)]
      have happ : before ++ i :: is = (before ++ [i]) ++ is := by simp
      rw [happ] at hnodup houts
      refine ih hnodup houts ?_ (hparam.reached hz)
      rw [List.flatMap_append, List.length_append, ← hn, List.flatMap_singleton]
    · simp only [if_pos hz]
      exact ⟨fun h => absurd h hz, fun hg hd => absurd (hparam.succeeds hg hd) hz⟩

end

end Invoke
end SierraTee
