import SierraTee.Params.Receive

/-!
# Delivery of the response

After a successful invocation the memory of the client is the old one with two lists of writes:
those of the service to the blocks that the driver shares, and those of the driver for the arrays.

* `Succeeded.delivered`    a successful invocation delivers, if every output has its own place;
* `invoke_fill`            the service can fill every output, and the invocation succeeds;
* `response_delivery_iff`  the exact condition;
* `partial_offset_wraps`   a partial reference whose end wraps around.
-/

namespace SierraTee
namespace Invoke
open Word Bytes Runs Writes

/-! ## the property -/

/-- every output parameter holds what the service wrote for it, with its size, and no other
parameter and no other byte has changed -/
structure Delivered (sp : Space) (outs : List Output) (written : Nat → List UInt8)
    (cl cl' : Client) : Prop where
  words : ∀ k a, outs[k]? = some (.word a) → wordBytes (cl'.words a) = written k
  sizes : ∀ k o i b, outs[k]? = some o → o.reference = some (i, b) →
    (cl'.size i).toNat = (written k).length
  bytes : ∀ k o i b, outs[k]? = some o → o.reference = some (i, b) →
    ∀ x v, (written k)[x]? = some v → b.Has x ∧ cl'.mem (sp.page (b.addr x)) = v
  otherWords : ∀ a, .word a ∉ outs → cl'.words a = cl.words a
  otherSizes : ∀ i, (∀ o ∈ outs, ∀ b, o.reference ≠ some (i, b)) → cl'.size i = cl.size i
  otherBytes : ∀ p, (∀ k o i b x, outs[k]? = some o → o.reference = some (i, b) →
    x < (written k).length → sp.page (b.addr x) ≠ p) → cl'.mem p = cl.mem p

/-- a successful invocation with a service that walks the response area delivers -/
def Delivers (sp : Space) (io : EncodeIo) (op : TeecOperation) (cl : Client) : Prop :=
  ∀ c dio service cl', encodeOperation sp io op cl = .ok c →
    ((service c cl.mem).1 = 0 → Walked sp c cl.mem (service c cl.mem).2) →
    teecInvokeCommand sp io dio service op cl = (0, cl') →
    Delivered sp (operationOutputs sp op cl) (service c cl.mem).2.bytes cl cl'

/-! ## the condition -/

namespace Output

/-- the physical address at which byte `x` of an output arrives -/
def landing (sp : Space) (data : UInt32) (o : Output) (x : Nat) : UInt32 :=
  match o with
  | .word addr => sp.page addr
  | .array _ _ _ _ => sp.page (o.next data + UInt32.ofNat x)
  | .memRef _ _ phys _ _ => phys + UInt32.ofNat x

def reach (sp : Space) (data : UInt32) (o : Output) : Nat :=
  match o with
  | .word _ => 4
  | .array _ _ _ _ => min (o.capacity sp) (sp.writable (o.next data))
  | .memRef _ _ _ _ _ => o.capacity sp

end Output

/-- the service can map every shared block, and no announced length reads as a negative number;
otherwise no invocation succeeds -/
def CanSucceed (sp : Space) (outs : List Output) : Prop :=
  ∀ (k : Nat) (o : Output), outs[k]? = some o → o.Mappable sp ∧ 0 ≤ toInt o.entry.len

section
variable (sp : Space) (outs : List Output) (data0 : UInt32)

def Lands (k x : Nat) (p : UInt32) : Prop :=
  ∃ o i b, outs[k]? = some o ∧ o.reference = some (i, b) ∧
    x < o.reach sp (dataBefore outs data0 k) ∧ p = o.landing sp (dataBefore outs data0 k) x

/-- every byte that can arrive does so at its own place, and at that of no other -/
structure InPlace : Prop where
  own : ∀ k x p o i b, Lands sp outs data0 k x p → outs[k]? = some o → o.reference = some (i, b) →
    b.Has x ∧ p = sp.page (b.addr x)
  apart : ∀ k x k' x' p, Lands sp outs data0 k x p → Lands sp outs data0 k' x' p → k = k' ∧ x = x'

end

/-! ## the outputs belong to different fields and parameters -/

def Output.key : Output → UInt32 ⊕ Fin 4
  | .word addr => .inl addr
  | .array i _ _ _ => .inr i
  | .memRef i _ _ _ _ => .inr i

theorem Output.key_reference {o : Output} {i : Fin 4} {b : Block} (h : o.reference = some (i, b)) :
    o.key = .inr i := by
  cases o with
  | word addr => cases h
  | array i' len usr b' =>
    obtain ⟨rfl, -⟩ := Prod.mk.inj (Option.some.inj h)
    rfl
  | memRef i' len phys usr b' =>
    obtain ⟨rfl, -⟩ := Prod.mk.inj (Option.some.inj h)
    rfl

section
variable {sp : Space} {io : EncodeIo} {op : TeecOperation} {cl : Client}

theorem paramOutputs_keys {i : Fin 4} {ks : List EncodeCall}
    (hks : paramCalls sp io op cl i = .ok ks) :
    ((paramOutputs sp op cl i).map Output.key).Nodup ∧
      ∀ o ∈ paramOutputs sp op cl i,
        o.key = .inr i ∨ ∃ second, o.key = .inl (op.valueAddr i second) := by
  obtain ⟨-, hnil⟩ | ⟨-, -, hlist⟩ | ⟨-, -, o, b, hlist, hb⟩ := paramOutputs_cases hks
  · rw [hnil]
    exact ⟨List.nodup_nil, fun o ho => absurd ho List.not_mem_nil⟩
  · have hne : op.valueAddr i false ≠ op.valueAddr i true := by
      intro h
      exact absurd (valueAddr_inj h).2 (by decide)
    rw [hlist]
    split
    · refine ⟨?_, fun o ho => ?_⟩
      · simp [Output.key, hne]
      · obtain rfl | ho := List.mem_cons.mp ho
        · exact Or.inr ⟨false, rfl⟩
        · rw [List.mem_singleton.mp ho]
          exact Or.inr ⟨true, rfl⟩
    · refine ⟨List.nodup_singleton _, fun o ho => ?_⟩
      rw [List.mem_singleton.mp ho]
      exact Or.inr ⟨false, rfl⟩
  · rw [hlist]
    refine ⟨List.nodup_singleton _, fun o' ho => Or.inl ?_⟩
    rw [List.mem_singleton.mp ho]
    exact Output.key_reference hb

theorem operationOutputs_keys (hall : ∀ i, ∃ ks, paramCalls sp io op cl i = .ok ks) :
    ((operationOutputs sp op cl).map Output.key).Nodup := by
  rw [operationOutputs, List.map_flatMap, List.nodup_flatMap]
  refine ⟨fun i _ => ?_, (List.nodup_finRange 4).imp fun {i j} hij => ?_⟩
  · obtain ⟨ks, hks⟩ := hall i
    exact (paramOutputs_keys hks).1
  · obtain ⟨ks, hks⟩ := hall i
    obtain ⟨ks', hks'⟩ := hall j
    intro key h h'
    obtain ⟨o, ho, rfl⟩ := List.mem_map.mp h
    obtain ⟨o', ho', heq⟩ := List.mem_map.mp h'
    obtain hi | ⟨second, hi⟩ := (paramOutputs_keys hks).2 o ho <;>
      obtain hj | ⟨second', hj⟩ := (paramOutputs_keys hks').2 o' ho' <;> rw [hi, hj] at heq
    · exact hij (Sum.inr.inj heq).symm
    · cases heq
    · cases heq
    · exact hij (valueAddr_inj (Sum.inl.inj heq)).1.symm

theorem output_unique {outs : List Output} (h : (outs.map Output.key).Nodup) {k k' : Nat}
    {o o' : Output} (ho : outs[k]? = some o) (ho' : outs[k']? = some o') (hkey : o.key = o'.key) :
    k = k' := by
  have hget : ∀ {n : Nat} {o : Output}, outs[n]? = some o →
      (outs.map Output.key)[n]? = some o.key := by
    intro n o hn
    rw [List.getElem?_map, hn]
    rfl
  have hlt : k < (outs.map Output.key).length := (List.getElem?_eq_some_iff.mp (hget ho)).1
  exact (List.getElem?_inj hlt h).mp ((hget ho).trans (hkey ▸ (hget ho').symm))

end

/-! ## the client after a successful invocation -/

structure Succeeded (sp : Space) (outs : List Output) (data0 : UInt32) (mem : UInt32 → UInt8)
    (s : Service) (cl cl' : Client) : Prop where
  walk : WalkInv sp outs mem s
  written : ∀ k o, outs[k]? = some o →
    o.Mappable sp ∧ s.written k = some (s.bytes k) ∧
      Written sp s o (outOffset outs k) k (s.bytes k)
  reached : ∃ t, Reached sp outs s.bytes data0 { cl with mem := s.mem } outs.length t ∧
    t.client = cl'

section
variable {sp : Space} {io : EncodeIo} {op : TeecOperation} {cl cl' : Client} {c : OtzcEncode}
  {dio : Fin 4 → Bool → DecodeIo} {service : OtzcEncode → (UInt32 → UInt8) → Int × Service}

theorem sendResult_eq_zero {ret : Int} : sendResult ret = 0 ↔ ret = 0 := by
  have h1 : ¬ teecErrorAccessDenied = 0 := by decide
  have h2 : ¬ teecErrorBadParameters = 0 := by decide
  unfold sendResult
  by_cases he : ioctl ret = -efault
  · have hne : ¬ ret = 0 := by
      intro h
      rw [ioctl_eq_zero.2 h] at he
      exact absurd he (by decide)
    rw [if_pos he]
    exact iff_of_false h1 hne
  · by_cases hi : ioctl ret = -einval
    · have hne : ¬ ret = 0 := by
        intro h
        rw [ioctl_eq_zero.2 h] at hi
        exact absurd hi (by decide)
      rw [if_neg he, if_pos hi]
      exact iff_of_false h2 hne
    · rw [if_neg he, if_neg hi]
      exact ioctl_eq_zero

theorem loop_decodes (henc : encodeOperation sp io op cl = .ok c)
    (hready : Ready c (operationOutputs sp op cl)) {s : Service} (hw : Walked sp c cl.mem s) :
    Decodes sp (operationOutputs sp op cl) s.bytes (encData op cl) { cl with mem := s.mem } dio
      (operationOutputs sp op cl).length
      (decodeParams sp dio op (s.response c)
        (firstDecoding { cl with mem := s.mem } (encData op cl)) (List.finRange 4)) := by
  obtain ⟨hall, -⟩ := encodeParams_ok henc
  obtain ⟨-, ha⟩ := hw.answered hready
  have hwords : ({ cl with mem := s.mem } : Client).words = cl.words := rfl
  have hn : 0 = (([] : List (Fin 4)).flatMap (paramOutputs sp op cl)).length := rfl
  exact decodeParams_decodes (fun i => hall i (List.mem_finRange i)) ha hwords
    (List.nodup_finRange 4) rfl hn reached_start

theorem invoke_succeeded (hstart : op.started = true) (henc : encodeOperation sp io op cl = .ok c)
    (hready : Ready c (operationOutputs sp op cl))
    (hw : (service c cl.mem).1 = 0 → Walked sp c cl.mem (service c cl.mem).2)
    (h : teecInvokeCommand sp io dio service op cl = (0, cl')) :
    Succeeded sp (operationOutputs sp op cl) (encData op cl) cl.mem (service c cl.mem).2 cl cl' := by
  unfold teecInvokeCommand at h
  rw [hstart, henc] at h
  simp only [Bool.not_true, Bool.false_eq_true, if_false] at h
  split at h
  · rename_i hne
    exact absurd (congrArg Prod.fst h) hne
  · rename_i hzero
    have hwalk := hw (sendResult_eq_zero.1 (not_not.1 hzero))
    obtain ⟨hi, -⟩ := hwalk.answered hready
    refine ⟨hi, fun k o ho => ?_, _, (loop_decodes henc hready hwalk).reached
      (congrArg Prod.fst h), congrArg Prod.snd h⟩
    have hk := (List.getElem?_eq_some_iff.mp ho).1
    obtain ⟨bs, hbs⟩ := Option.ne_none_iff_exists'.mp (hwalk.2 k (by rw [hready.pos]; omega))
    obtain ⟨hlt, hwr⟩ := hi.written k bs hbs
    obtain ⟨o', ho', hm, -⟩ := hi.decoded k _ (List.getElem?_eq_getElem hlt)
    rw [ho] at ho'
    obtain rfl := Option.some.inj ho'
    rw [Service.bytes, hbs]
    exact ⟨hm, rfl, hwr o ho⟩

end

namespace Succeeded
variable {sp : Space} {outs : List Output} {data0 : UInt32} {s : Service} {cl cl' : Client}

theorem length_le (h : Succeeded sp outs data0 cl.mem s cl cl') {k : Nat} {o : Output}
    (ho : outs[k]? = some o) :
    (s.bytes k).length ≤ o.reach sp (dataBefore outs data0 k) := by
  obtain ⟨t, ht, -⟩ := h.reached
  obtain ⟨-, hr⟩ := ht.reaches k o (List.getElem?_eq_some_iff.mp ho).1 ho
  obtain ⟨-, -, hw⟩ := h.written k o ho
  cases o with
  | word addr => exact hw.length
  | array i len usr b => exact Nat.le_min.mpr ⟨hw.length, hr⟩
  | memRef i len phys usr b => exact Nat.le_min.mpr ⟨hw.length, hw.mapped phys rfl⟩

theorem canSucceed (h : Succeeded sp outs data0 cl.mem s cl cl') : CanSucceed sp outs := by
  intro k o ho
  obtain ⟨t, ht, -⟩ := h.reached
  exact ⟨(h.written k o ho).1, (ht.reaches k o (List.getElem?_eq_some_iff.mp ho).1 ho).1⟩

/-- **The memory of the client** is the old one with the bytes of the outputs written where they
arrive. -/
theorem mem_writes (h : Succeeded sp outs data0 cl.mem s cl cl') :
    ∃ ws, cl'.mem = applyWrites cl.mem ws ∧ ∀ p v, (p, v) ∈ ws ↔
      ∃ k x, Lands sp outs data0 k x p ∧ (s.bytes k)[x]? = some v := by
  obtain ⟨t, ht, rfl⟩ := h.reached
  obtain ⟨ws, hmem, hws⟩ := h.walk.mem
  have hlt : ∀ {k x : Nat} {o : Output} {v : UInt8}, outs[k]? = some o →
      (s.bytes k)[x]? = some v → x < o.reach sp (dataBefore outs data0 k) := fun ho hx =>
    Nat.lt_of_lt_of_le (List.getElem?_eq_some_iff.mp hx).1 (h.length_le ho)
  refine ⟨_, by rw [ht.mem, hmem, ← applyWrites_append], fun p v => ?_⟩
  rw [List.take_length, List.mem_append, hws, mem_allWrites]
  constructor
  · rintro (⟨k, o, phys, bs, x, ho, hp, hw, hx, rfl⟩ | ⟨k, o, ho, hmem⟩)
    · have hbs : (s.bytes k)[x]? = some v := by
        rw [Service.bytes, hw]
        exact hx
      cases o with
      | word addr => cases hp
      | array i len usr b => cases hp
      | memRef i len phys' usr b =>
        obtain rfl := Option.some.inj hp
        exact ⟨k, x, ⟨_, i, b, ho, rfl, hlt ho hbs, rfl⟩, hbs⟩
    · obtain ⟨i, len, usr, b, x, rfl, hx, rfl⟩ := mem_arrayWrites.mp hmem
      exact ⟨k, x, ⟨_, i, b, ho, rfl, hlt ho hx, rfl⟩, hx⟩
  · rintro ⟨k, x, ⟨o, i, b, ho, hb, -, rfl⟩, hx⟩
    cases o with
    | word addr => cases hb
    | array i' len usr b' =>
      exact Or.inr ⟨k, _, ho, mem_arrayWrites.mpr ⟨i', len, usr, b', x, rfl, hx, rfl⟩⟩
    | memRef i' len phys usr b' =>
      exact Or.inl ⟨k, _, phys, s.bytes k, x, ho, rfl, (h.written k _ ho).2.1, hx, rfl⟩

theorem delivered (h : Succeeded sp outs data0 cl.mem s cl cl')
    (hkeys : (outs.map Output.key).Nodup) (hin : InPlace sp outs data0) :
    Delivered sp outs s.bytes cl cl' := by
  obtain ⟨ws, hmem, hws⟩ := h.mem_writes
  have hlands : ∀ {k x : Nat} {o : Output} {i : Fin 4} {b : Block} {v : UInt8},
      outs[k]? = some o → o.reference = some (i, b) → (s.bytes k)[x]? = some v →
      Lands sp outs data0 k x (o.landing sp (dataBefore outs data0 k) x) := fun ho hb hx =>
    ⟨_, _, _, ho, hb, Nat.lt_of_lt_of_le (List.getElem?_eq_some_iff.mp hx).1 (h.length_le ho), rfl⟩
  obtain ⟨t, ht, rfl⟩ := h.reached
  have hwords := ht.words
  have hsize := ht.size
  rw [List.take_length] at hwords hsize
  refine ⟨fun k a ho => ?_, fun k o i b ho hb => ?_, fun k o i b ho hb x v hx => ?_,
    fun a ha => ?_, fun i hi => ?_, fun p hp => ?_⟩
  · have hval : t.client.words a = ofBytes fun x => (s.bytes k).getD x 0 := by
      rw [hwords]
      apply applyWrites_of_unique
      · exact mem_allWrites.mpr ⟨k, _, ho, mem_wordWrites.mpr ⟨rfl, rfl⟩⟩
      · intro v hv
        obtain ⟨k', o', ho', hmem'⟩ := mem_allWrites.mp hv
        obtain ⟨rfl, rfl⟩ := mem_wordWrites.mp hmem'
        rw [output_unique hkeys ho ho' rfl]
    rw [hval]
    exact wordBytes_ofBytes ((h.written k _ ho).2.2.word rfl)
  · have hval : t.client.size i = UInt32.ofNat (s.bytes k).length := by
      rw [hsize]
      apply applyWrites_of_unique
      · exact mem_allWrites.mpr ⟨k, o, ho, mem_sizeWrites.mpr ⟨⟨b, hb⟩, rfl⟩⟩
      · intro v hv
        obtain ⟨k', o', ho', hmem'⟩ := mem_allWrites.mp hv
        obtain ⟨⟨b', hb'⟩, rfl⟩ := mem_sizeWrites.mp hmem'
        have hkey : o.key = o'.key :=
          (Output.key_reference hb).trans (Output.key_reference hb').symm
        rw [output_unique hkeys ho ho' hkey]
    have hlt : (s.bytes k).length < 2 ^ 32 := by
      have h1 := (h.written k o ho).2.2.length
      have h2 := o.entry.len.toNat_lt
      have h3 : o.announced ≤ o.entry.len.toNat := by
        unfold Output.announced toInt toInt32
        split <;> omega
      omega
    rw [hval, UInt32.toNat_ofNat', Nat.mod_eq_of_lt hlt]
  · obtain ⟨hhas, hplace⟩ := hin.own k x _ o i b (hlands ho hb hx) ho hb
    refine ⟨hhas, ?_⟩
    rw [← hplace, hmem]
    apply applyWrites_of_unique
    · exact (hws _ _).2 ⟨k, x, hlands ho hb hx, hx⟩
    · intro v' hv'
      obtain ⟨k', x', hl', hx'⟩ := (hws _ _).1 hv'
      obtain ⟨rfl, rfl⟩ := hin.apart _ _ _ _ _ (hlands ho hb hx) hl'
      rw [hx] at hx'
      exact (Option.some.inj hx').symm
  · have hnot : .word a ∉ outs.take outs.length := by
      rw [List.take_length]
      exact ha
    exact ht.word_eq hnot
  · rw [hsize]
    refine applyWrites_of_notMem fun v hv => ?_
    obtain ⟨k, o, ho, hmem'⟩ := mem_allWrites.mp hv
    obtain ⟨⟨b, hb⟩, -⟩ := mem_sizeWrites.mp hmem'
    exact hi o (List.mem_of_getElem? ho) b hb
  · rw [hmem]
    refine applyWrites_of_notMem fun v hv => ?_
    obtain ⟨k, x, hl, hx⟩ := (hws _ _).1 hv
    have hl' := hl
    obtain ⟨o, i, b, ho, hb, -, -⟩ := hl'
    obtain ⟨-, hplace⟩ := hin.own k x p o i b hl ho hb
    exact hp k o i b x ho hb (List.getElem?_eq_some_iff.mp hx).1 hplace.symm

end Succeeded

/-! ## a service that fills every output -/

section
variable (sp : Space) (outs : List Output) (data0 : UInt32)

def fillBytes (f : Nat → Nat → UInt8) (k : Nat) : List UInt8 :=
  match outs[k]? with
  | some o => (List.range (o.reach sp (dataBefore outs data0 k))).map (f k)
  | none => []

variable {sp outs data0} {f : Nat → Nat → UInt8} {k x : Nat} {o : Output}

theorem length_fillBytes (ho : outs[k]? = some o) :
    (fillBytes sp outs data0 f k).length = o.reach sp (dataBefore outs data0 k) := by
  rw [fillBytes, ho, List.length_map, List.length_range]

theorem getElem?_fillBytes {v : UInt8} (ho : outs[k]? = some o) :
    (fillBytes sp outs data0 f k)[x]? = some v ↔
      x < o.reach sp (dataBefore outs data0 k) ∧ f k x = v := by
  rw [fillBytes, ho]
  simp only [List.getElem?_map, Option.map_eq_some_iff]
  constructor
  · rintro ⟨y, hy, rfl⟩
    obtain ⟨hlt, rfl⟩ := List.getElem?_eq_some_iff.mp hy
    rw [List.length_range] at hlt
    rw [List.getElem_range]
    exact ⟨hlt, rfl⟩
  · rintro ⟨hx, rfl⟩
    refine ⟨x, ?_, rfl⟩
    rw [List.getElem?_range hx]

theorem fits_fillBytes (ho : outs[k]? = some o) : FitsOutput sp o (fillBytes sp outs data0 f k) := by
  rw [FitsOutput, length_fillBytes ho]
  cases o with
  | word addr => exact ⟨Nat.le_refl 4, fun _ => rfl⟩
  | array i len usr b =>
    refine ⟨Nat.min_le_left _ _, fun ht => absurd ht ?_⟩
    show otzEncArray ≠ otzEncUint32
    decide
  | memRef i len phys usr b =>
    refine ⟨Nat.le_refl _, fun ht => absurd ht ?_⟩
    show otzMemRef ≠ otzEncUint32
    decide

theorem canDecode_fillBytes (h : CanSucceed sp outs) {bytes : Nat → List UInt8}
    (hbytes : ∀ k < outs.length, bytes k = fillBytes sp outs data0 f k) :
    CanDecode sp outs bytes data0 := by
  intro k o ho
  refine ⟨(h k o ho).2, ?_⟩
  rw [hbytes k (List.getElem?_eq_some_iff.mp ho).1, length_fillBytes ho]
  cases o with
  | word addr => trivial
  | array i len usr b => exact Nat.min_le_right _ _
  | memRef i len phys usr b => trivial

end

def goodIo : Fin 4 → Bool → DecodeIo := fun _ _ => ⟨true, 0, true⟩

section
variable {sp : Space} {io : EncodeIo} {op : TeecOperation} {cl : Client} {c : OtzcEncode}

theorem invoke_fill (hstart : op.started = true) (henc : encodeOperation sp io op cl = .ok c)
    (hready : Ready c (operationOutputs sp op cl)) (hcan : CanSucceed sp (operationOutputs sp op cl))
    (f : Nat → Nat → UInt8) :
    ∃ s cl', Walked sp c cl.mem s ∧
      teecInvokeCommand sp io goodIo (fun _ _ => (0, s)) op cl = (0, cl') ∧
      ∀ k < (operationOutputs sp op cl).length,
        s.bytes k = fillBytes sp (operationOutputs sp op cl) (encData op cl) f k := by
  obtain ⟨s, hw, hwritten⟩ : ∃ s, Walked sp c cl.mem s ∧
      ∀ k < (operationOutputs sp op cl).length,
        s.written k = some (fillBytes sp (operationOutputs sp op cl) (encData op cl) f k) :=
    walked_exists hready (fun k o ho => (hcan k o ho).1) _ fun k o ho => fits_fillBytes ho
  have hbytes : ∀ k < (operationOutputs sp op cl).length,
      s.bytes k = fillBytes sp (operationOutputs sp op cl) (encData op cl) f k := by
    intro k hk
    rw [Service.bytes, hwritten k hk]
    rfl
  have hloop : Decodes sp _ s.bytes (encData op cl) { cl with mem := s.mem } goodIo _ _ :=
    loop_decodes henc hready hw
  have hzero := hloop.succeeds (fun _ _ => ⟨rfl, rfl, rfl⟩) (canDecode_fillBytes hcan hbytes)
  have hinv : (teecInvokeCommand sp io goodIo (fun _ _ => (0, s)) op cl).1 = 0 := by
    have hsend : ¬ sendResult 0 ≠ 0 := not_not.2 (sendResult_eq_zero.2 rfl)
    unfold teecInvokeCommand
    rw [hstart, henc]
    simp only [Bool.not_true, Bool.false_eq_true, if_false, if_neg hsend]
    exact hzero
  exact ⟨s, _, hw, Prod.ext hinv rfl, hbytes⟩

theorem Delivers.fill (h : Delivers sp io op cl) (hstart : op.started = true)
    (henc : encodeOperation sp io op cl = .ok c) (hready : Ready c (operationOutputs sp op cl))
    (hcan : CanSucceed sp (operationOutputs sp op cl)) (f : Nat → Nat → UInt8) :
    ∃ (cl' : Client) (ws : List (UInt32 × UInt8)), cl'.mem = applyWrites cl.mem ws ∧
      (∀ p v, (p, v) ∈ ws → ∃ k x,
        Lands sp (operationOutputs sp op cl) (encData op cl) k x p ∧ f k x = v) ∧
      ∀ k x p o i b, Lands sp (operationOutputs sp op cl) (encData op cl) k x p →
        (operationOutputs sp op cl)[k]? = some o → o.reference = some (i, b) →
        b.Has x ∧ cl'.mem (sp.page (b.addr x)) = f k x := by
  obtain ⟨s, cl', hw, hinv, hbytes⟩ := invoke_fill hstart henc hready hcan f
  have hsucc := invoke_succeeded hstart henc hready (fun _ => hw) hinv
  obtain ⟨ws, hmem, hws⟩ := hsucc.mem_writes
  have hdel := h c goodIo _ cl' henc (fun _ => hw) hinv
  refine ⟨cl', ws, hmem, fun p v hpv => ?_, fun k x p o i b hl ho hb => ?_⟩
  · obtain ⟨k, x, hl, hx⟩ := (hws p v).1 hpv
    have hl' := hl
    obtain ⟨o, -, -, ho, -⟩ := hl'
    have hk := (List.getElem?_eq_some_iff.mp ho).1
    have hx' : (fillBytes sp _ (encData op cl) f k)[x]? = some v := hbytes k hk ▸ hx
    exact ⟨k, x, hl, ((getElem?_fillBytes ho).1 hx').2⟩
  · obtain ⟨o', i', b', ho', -, hlt, -⟩ := hl
    rw [ho] at ho'
    obtain rfl := Option.some.inj ho'
    have hk := (List.getElem?_eq_some_iff.mp ho).1
    have hx : (s.bytes k)[x]? = some (f k x) := by
      rw [hbytes k hk]
      exact (getElem?_fillBytes ho).2 ⟨hlt, rfl⟩
    exact hdel.bytes k o i b ho hb x (f k x) hx

theorem Delivers.inPlace (h : Delivers sp io op cl) (hstart : op.started = true)
    (henc : encodeOperation sp io op cl = .ok c) (hready : Ready c (operationOutputs sp op cl))
    (hcan : CanSucceed sp (operationOutputs sp op cl)) :
    InPlace sp (operationOutputs sp op cl) (encData op cl) := by
  have hown : ∀ k x p o i b, Lands sp (operationOutputs sp op cl) (encData op cl) k x p →
      (operationOutputs sp op cl)[k]? = some o → o.reference = some (i, b) →
      b.Has x ∧ p = sp.page (b.addr x) := by
    intro k x p o i b hl ho hb
    let old := cl.mem (sp.page (b.addr x))
    have hnew : old + 1 ≠ old := by
      intro heq
      have hval := congrArg UInt8.toNat heq
      rw [UInt8.toNat_add, UInt8.toNat_one] at hval
      omega
    obtain ⟨cl', ws, hmem, hws, hdel⟩ := h.fill hstart henc hready hcan
      fun k' x' => if k' = k ∧ x' = x then old + 1 else old
    obtain ⟨hhas, hval⟩ := hdel k x p o i b hl ho hb
    refine ⟨hhas, ?_⟩
    rw [if_pos ⟨rfl, rfl⟩] at hval
    obtain ⟨-, hsame⟩ | hwrite := applyWrites_cases (m := cl.mem) (l := ws) (a := sp.page (b.addr x))
    · rw [← hmem, hval] at hsame
      exact absurd hsame hnew
    · rw [← hmem, hval] at hwrite
      obtain ⟨k', x', hl', hv⟩ := hws _ _ hwrite
      by_cases hkx : k' = k ∧ x' = x
      · obtain ⟨rfl, rfl⟩ := hkx
        obtain ⟨o1, -, -, ho1, -, -, rfl⟩ := hl
        obtain ⟨o2, -, -, ho2, -, -, heq⟩ := hl'
        rw [ho1] at ho2
        obtain rfl := Option.some.inj ho2
        exact heq.symm
      · rw [if_neg hkx] at hv
        exact absurd hv.symm hnew
  refine ⟨hown, fun k x k' x' p hl hl' => ?_⟩
  obtain ⟨cl', -, -, -, hdel⟩ := h.fill hstart henc hready hcan
    fun j y => if j = k ∧ y = x then 1 else 0
  have hget := hl
  have hget' := hl'
  obtain ⟨o, i, b, ho, hb, -⟩ := hget
  obtain ⟨o', i', b', ho', hb', -⟩ := hget'
  have hval := (hdel k x p o i b hl ho hb).2
  have hval' := (hdel k' x' p o' i' b' hl' ho' hb').2
  have hplace := (hown k x p o i b hl ho hb).2
  have hplace' := (hown k' x' p o' i' b' hl' ho' hb').2
  rw [if_pos ⟨rfl, rfl⟩, ← hplace] at hval
  rw [← hplace', hval] at hval'
  by_contra hne
  rw [if_neg fun hc => hne ⟨hc.1.symm, hc.2.symm⟩] at hval'
  exact absurd hval' (by decide)

/-- **Response delivery**: no encode call leaves its buffer and every successful invocation
delivers, if and only if every encode call fits and, unless the invocation cannot succeed, every
byte that can arrive does so in its own place. -/
theorem response_delivery_iff (hstart : op.started = true)
    (henc : encodeOperation sp io op cl = .ok c) :
    Along encodeStep WithinLimits freshEncode (operationCalls sp io op cl) ∧ Delivers sp io op cl ↔
      Along encodeStep Fits freshEncode (operationCalls sp io op cl) ∧
        (CanSucceed sp (operationOutputs sp op cl) →
          InPlace sp (operationOutputs sp op cl) (encData op cl)) := by
  rw [← encode_withinLimits_iff]
  refine and_congr_right fun hw => ?_
  obtain ⟨hinv, hlaid⟩ := encodeOperation_laid henc hw
  have hready := hlaid.ready hinv
  obtain ⟨hall, -⟩ := encodeParams_ok henc
  constructor
  · intro h hcan
    exact h.inPlace hstart henc hready hcan
  · intro hin c' dio service cl' henc' hwalk hinvoke
    rw [henc] at henc'
    obtain rfl := Except.ok.inj henc'
    have hsucc := invoke_succeeded hstart henc hready hwalk hinvoke
    exact hsucc.delivered (operationOutputs_keys fun i => hall i (List.mem_finRange i))
      (hin hsucc.canSucceed)

end

/-! ## two operations -/

/-- every page is mapped to itself, but the block that the driver shares at `0x4000` -/
def plainSpace : Space where
  page a := if 0x4000 ≤ a ∧ a < 0x5000 then a + 0x60000000 else a
  readable := fun _ => 16
  writable := fun _ => 4096
  sessionSharedMem := [⟨0x4000, 0x60004000, 0x4000⟩]
  devSharedMem := []
  mapNsSectionEntry := fun _ => true
  nsWritable := fun _ => 4096

def plainEncodeIo : EncodeIo := fun _ _ _ => plainIo

theorem exists_of_isOk {e : Except Int OtzcEncode} (h : e.isOk = true) : ∃ c, e = .ok c := by
  cases e with
  | error _ => cases h
  | ok c => exact ⟨c, rfl⟩

/-- a value, a temporary buffer and a whole block that the driver shares -/
def mixedOperation : TeecOperation where
  addr := 0x1000
  started := true
  params
    | 0 => .value .inout
    | 1 => .memrefTemp .output 0x3000
    | 2 => .memrefWhole (some ⟨0x4000, 0x1000, .output, true, by decide⟩)
    | 3 => .none
  notNull := by decide
  inSpace := by decide

/-- the values are all zero, the sizes 16 -/
def plainClient : Client := ⟨fun _ => 0, fun _ => 16, fun _ => 0⟩

theorem response_delivery_iff_mixed :
    Along encodeStep WithinLimits freshEncode
        (operationCalls plainSpace plainEncodeIo mixedOperation plainClient) ∧
        Delivers plainSpace plainEncodeIo mixedOperation plainClient ↔
      Along encodeStep Fits freshEncode
        (operationCalls plainSpace plainEncodeIo mixedOperation plainClient) ∧
        (CanSucceed plainSpace (operationOutputs plainSpace mixedOperation plainClient) →
          InPlace plainSpace (operationOutputs plainSpace mixedOperation plainClient)
            (encData mixedOperation plainClient)) := by
  have hok : (encodeOperation plainSpace plainEncodeIo mixedOperation plainClient).isOk = true := by
    decide +kernel
  obtain ⟨c, henc⟩ := exists_of_isOk hok
  exact response_delivery_iff rfl henc

/-- a partial reference to a registered block of `0x1000` bytes at `0x2000`: the sum of its offset
and of its size 32 wraps around -/
def wrappedOperation : TeecOperation where
  addr := 0x1000
  started := true
  params
    | 0 => .memrefPartial .output (some ⟨0x2000, 0x1000, .output, false, by decide⟩) 0xFFFFFFF0
    | _ => .none
  notNull := by decide
  inSpace := by decide

def wrappedClient : Client := ⟨fun _ => 0, fun _ => 32, fun _ => 0⟩

/-- **The defect**: the check of the reference lets it pass, and its bytes arrive in front of the
block. -/
theorem partial_offset_wraps :
    ¬ ∀ (sp : Space) (io : EncodeIo) (op : TeecOperation) (cl : Client) (c : OtzcEncode),
      op.started = true → encodeOperation sp io op cl = .ok c →
      Along encodeStep WithinLimits freshEncode (operationCalls sp io op cl) ∧
        Delivers sp io op cl := by
  intro h
  have houts : operationOutputs plainSpace wrappedOperation wrappedClient
      = [.array 0 32 0x1FF0 ⟨0x2000, 0xFFFFFFF0, 0x1000⟩] := rfl
  have hok : (encodeOperation plainSpace plainEncodeIo wrappedOperation wrappedClient).isOk
      = true := by
    decide +kernel
  obtain ⟨c, henc⟩ := exists_of_isOk hok
  obtain ⟨hw, hdel⟩ := h plainSpace plainEncodeIo wrappedOperation wrappedClient c rfl henc
  obtain ⟨hinv, hlaid⟩ := encodeOperation_laid henc hw
  have hcan : CanSucceed plainSpace
      (operationOutputs plainSpace wrappedOperation wrappedClient) := by
    intro k o ho
    rw [houts] at ho
    obtain rfl := List.mem_singleton.mp (List.mem_of_getElem? ho)
    refine ⟨fun _ _ => rfl, ?_⟩
    show 0 ≤ toInt 32
    decide
  have hin := hdel.inPlace rfl henc (hlaid.ready hinv) hcan
  rw [houts] at hin
  have hreach : ∀ data,
      0 < (Output.array 0 32 0x1FF0 ⟨0x2000, 0xFFFFFFF0, 0x1000⟩).reach plainSpace data := by
    intro data
    show 0 < min (toInt 32).toNat 4096
    decide
  have hhas := (hin.own 0 0 _ _ _ _ ⟨_, _, _, rfl, rfl, hreach _, rfl⟩ rfl rfl).1
  have hlt : (0xFFFFFFF0 : Nat) + 0 < 0x1000 := hhas
  omega

end Invoke
end SierraTee
