import SierraTee.Params.Outputs

/-!
# The walk of a service through the response area

* `WalkInv.of_run`  every walk keeps `WalkInv`;
* `walked_exists`   a service can write any bytes of the announced lengths.
-/

namespace SierraTee
open Function
namespace Invoke
open Word Bytes Runs Writes

def outOffset (outs : List Output) (k : Nat) : Nat := areaOffset (outs.map Output.entry) k

def responseArea (c : OtzcEncode) : Nat → UInt8 := c.kerResDataAddr.getD fun _ => 0

structure Ready (c : OtzcEncode) (outs : List Output) : Prop where
  pos : c.encResPos = otzMaxReqParams + outs.length
  few : outs.length ≤ otzMaxResParams
  entry : ∀ k o, outs[k]? = some o →
    c.metaData (otzMaxReqParams + k) = ⟨o.entry.type, o.entry.len, o.entry.usrAddr⟩
  fits : ∀ k o, outs[k]? = some o → outOffset outs k + o.entry.size.toNat ≤ otz1kSize
  address : ∀ k o phys, outs[k]? = some o → o.entry.phys = some phys →
    4 * outOffset outs k + 4 ≤ otz1kSize ∧
      ∀ j < 4, responseArea c (4 * outOffset outs k + j) = wordByte phys j

section
variable {outs : List Output} {o o' : Output} {k k' : Nat}

theorem outOffset_succ (h : outs[k]? = some o) :
    outOffset outs (k + 1) = outOffset outs k + o.entry.size.toNat := by
  apply areaOffset_succ
  rw [List.getElem?_map, h]
  rfl

theorem outOffset_lt (h : outs[k]? = some o) (hk : k < k') :
    outOffset outs k + o.entry.size.toNat ≤ outOffset outs k' := by
  rw [← outOffset_succ h]
  exact areaOffset_mono hk

end

theorem Laid.ready {c : OtzcEncode} {outs : List Output} (hinv : EncodeInv c)
    (h : Laid freshEncode c (outs.map Output.entry)) : Ready c outs := by
  have hget : ∀ (k : Nat) (o : Output), outs[k]? = some o → (outs.map Output.entry)[k]? = some o.entry := by
    intro k o ho
    rw [List.getElem?_map, ho]
    rfl
  have hpos : c.encResPos = otzMaxReqParams + outs.length := by
    rw [h.pos, List.length_map]
    rfl
  have hoff : ∀ k, freshEncode.encResOffset + areaOffset (outs.map Output.entry) k
      = outOffset outs k := fun k => Nat.zero_add _
  refine ⟨hpos, ?_, fun k o ho => h.entry k _ (hget k o ho), fun k o ho => ?_,
    fun k o phys ho hp => ?_⟩
  · have := hinv.resPos_le
    omega
  · have hk : k < outs.length := (List.getElem?_eq_some_iff.mp ho).1
    have hend := h.offset
    rw [hoff, List.length_map] at hend
    have := hinv.resOffset
    have := outOffset_lt ho hk
    omega
  · obtain ⟨-, hin, b, hb, hword⟩ := h.word k _ phys (hget k o ho) hp
    rw [hoff] at hin
    refine ⟨hin, fun j hj => ?_⟩
    rw [responseArea, hb, Option.getD_some, ← hoff]
    exact hword j hj

/-! ## `decode_data` on an output -/

namespace Output

def decodedAt (o : Output) (offset k : Nat) : Decoded where
  type := o.entry.type
  offset := (offset : Int) + o.entry.size.toNat
  pos := otzMaxReqParams + k + 1
  mapped := o.entry.phys.isSome
  outData := (o.entry.phys.map OutData.mapped).getD (.inRequest offset)
  outLen := o.entry.len

def Mappable (sp : Space) (o : Output) : Prop :=
  ∀ phys, o.entry.phys = some phys → sp.mapNsSectionEntry phys = true

def announced (o : Output) : Nat := (toInt o.entry.len).toNat

end Output

section
variable {sp : Space} {c : OtzcEncode} {outs : List Output} {k : Nat} {o : Output}

theorem Ready.announced_le (h : Ready c outs) (ho : outs[k]? = some o) (hp : o.entry.phys = none) :
    o.announced ≤ o.entry.size.toNat := by
  cases o with
  | word addr => exact Nat.le_refl 4
  | array i len usr b =>
    have hfit : outOffset outs k + len.toNat ≤ otz1kSize := h.fits k _ ho
    show (toInt len).toNat ≤ len.toNat
    rw [toInt_small (by omega), Int.toNat_natCast]
  | memRef i len phys usr b => exact absurd hp (by simp [Output.entry])

theorem Ready.decodeData (h : Ready c outs) (ho : outs[k]? = some o) {area : Nat → UInt8}
    (harea : ∀ phys, o.entry.phys = some phys →
      ∀ j < 4, area (4 * outOffset outs k + j) = wordByte phys j) {d : Decoded} :
    decodeData sp.mapToNs otz1kSize area c.metaData (outOffset outs k) (otzMaxReqParams + k) = some d ↔
      o.Mappable sp ∧ d = o.decodedAt (outOffset outs k) k := by
  have hentry := h.entry k o ho
  unfold SierraTee.decodeData
  simp only [hentry]
  cases o with
  | word addr =>
    have hm : (Output.word addr).Mappable sp := fun phys hp => absurd hp (by simp [Output.entry])
    rw [and_iff_right hm]
    exact ⟨fun e => (Option.some.inj e).symm, fun e => congrArg some e.symm⟩
  | array i len usr b =>
    have hm : (Output.array i len usr b).Mappable sp :=
      fun phys hp => absurd hp (by simp [Output.entry])
    have hfit : outOffset outs k + len.toNat ≤ otz1kSize := h.fits k _ ho
    have hto : toInt len = len.toNat := toInt_small (by omega)
    rw [and_iff_right hm]
    show (some (Decoded.mk otzEncArray (outOffset outs k + toInt len) _ _ _ _)) = some d ↔ _
    rw [hto]
    exact ⟨fun e => (Option.some.inj e).symm, fun e => congrArg some e.symm⟩
  | memRef i len phys usr b =>
    obtain ⟨hin, -⟩ := h.address k _ phys ho rfl
    have hload : loadWord otz1kSize area (4 * (outOffset outs k : Int)) = some phys := by
      have hnat : (4 * (outOffset outs k : Int)).toNat = 4 * outOffset outs k := by omega
      rw [loadWord, if_pos (by omega), hnat, (ofBytes_eq_iff _ phys).2 (harea phys rfl)]
    have ht : (Output.memRef i len phys usr b).entry.type = otzMemRef := rfl
    rw [ht, if_neg (by decide), if_neg (by decide), if_pos rfl, hload]
    show (sp.mapToNs phys).bind _ = some d ↔ _
    have hmap : (Output.memRef i len phys usr b).Mappable sp ↔ sp.mapNsSectionEntry phys = true :=
      ⟨fun hm => hm phys rfl, fun hm p hp => Option.some.inj hp ▸ hm⟩
    rw [hmap, Space.mapToNs]
    by_cases hm : sp.mapNsSectionEntry phys = true
    · rw [if_pos hm, and_iff_right hm]
      exact ⟨fun e => (Option.some.inj e).symm, fun e => congrArg some e.symm⟩
    · rw [if_neg hm]
      exact ⟨fun e => absurd e (by simp), fun e => absurd e.1 hm⟩

end

/-! ## writing to an output -/

section
variable {sp : Space} {s s' : Service} {o : Output} {offset k : Nat} {bs : List UInt8}

theorem put_decodedAt : s.put sp (o.decodedAt offset k) bs =
    match o.entry.phys with
    | none =>
      if offset + bs.length ≤ otz1kSize then
        some { s with area := store otz1kSize s.area offset bs }
      else none
    | some phys => s.putMapped sp phys bs := by
  cases hp : o.entry.phys with
  | none =>
    have hout : (o.decodedAt offset k).outData = .inRequest offset := by
      rw [Output.decodedAt, hp]
      rfl
    rw [Service.put, hout]
    simp only [Int.toNat_natCast]
    by_cases hin : offset + bs.length ≤ otz1kSize
    · rw [if_pos hin, if_pos (by omega)]
    · rw [if_neg hin, if_neg (by omega)]
  | some phys =>
    have hout : (o.decodedAt offset k).outData = .mapped phys := by
      rw [Output.decodedAt, hp]
      rfl
    rw [Service.put, hout]

theorem report_decodedAt (hk : k < otzMaxResParams) : s.report (o.decodedAt offset k) bs =
    if o.entry.type = otzEncUint32 then if bs.length = 4 then some s else none
    else
      some { s with
        retLen := update s.retLen (otzMaxReqParams + k) (UInt32.ofNat bs.length) } := by
  have hpos : otzMaxReqParams + k + 1 ≤ otzMaxReqParams + otzMaxResParams := by omega
  rw [Service.report]
  show (if o.entry.type = otzEncUint32 then _ else
    (updateResponseLen s.retLen (otzMaxReqParams + k + 1) _).map _) = _
  rw [updateResponseLen, if_pos hpos]
  rfl

structure Written (sp : Space) (s : Service) (o : Output) (offset k : Nat) (bs : List UInt8) :
    Prop where
  length : bs.length ≤ o.announced
  word : o.entry.type = otzEncUint32 → bs.length = 4
  area : o.entry.phys = none → ∀ x b, bs[x]? = some b → s.area (offset + x) = b
  mapped : ∀ phys, o.entry.phys = some phys → bs.length ≤ sp.nsWritable phys
  reported : o.entry.type ≠ otzEncUint32 →
    s.retLen (otzMaxReqParams + k) = UInt32.ofNat bs.length

structure WriteStep (sp : Space) (s s' : Service) (o : Output) (offset k : Nat)
    (bs : List UInt8) : Prop where
  fresh : s.written k = none
  result : Written sp s' o offset k bs
  walk : s'.decoded = s.decoded ∧ s'.offset = s.offset ∧ s'.pos = s.pos
  area : ∀ x, s'.area x ≠ s.area x → o.entry.phys = none ∧ offset ≤ x ∧ x < offset + bs.length
  mem : s'.mem = match o.entry.phys with
    | none => s.mem
    | some phys => applyWrites s.mem (block (fun x => phys + UInt32.ofNat x) bs)
  retLen : ∀ p, p ≠ otzMaxReqParams + k → s'.retLen p = s.retLen p
  written : s'.written = update s.written k (some bs)

theorem write_step (hd : s.decoded[k]? = some (o.decodedAt offset k)) (hk : k < otzMaxResParams)
    (h : s.write sp k bs = some s') : WriteStep sp s s' o offset k bs := by
  unfold Service.write at h
  rw [hd, Option.bind_some] at h
  split at h
  · rename_i hc
    obtain ⟨s1, hput, h⟩ := Option.bind_eq_some_iff.mp h
    obtain ⟨s2, hrep, rfl⟩ := Option.map_eq_some_iff.mp h
    rw [put_decodedAt] at hput
    rw [report_decodedAt hk] at hrep
    have hreport : s2.area = s1.area ∧ s2.mem = s1.mem ∧ s2.decoded = s1.decoded ∧
        s2.offset = s1.offset ∧ s2.pos = s1.pos ∧
        (o.entry.type = otzEncUint32 → bs.length = 4) ∧
        (o.entry.type ≠ otzEncUint32 →
          s2.retLen (otzMaxReqParams + k) = UInt32.ofNat bs.length) ∧
        ∀ p, p ≠ otzMaxReqParams + k → s2.retLen p = s1.retLen p := by
      split at hrep
      · rename_i ht
        split at hrep
        · rename_i h4
          cases hrep
          exact ⟨rfl, rfl, rfl, rfl, rfl, fun _ => h4, fun hne => absurd ht hne, fun _ _ => rfl⟩
        · cases hrep
      · rename_i ht
        cases hrep
        exact ⟨rfl, rfl, rfl, rfl, rfl, fun he => absurd he ht,
          fun _ => update_self _ _ _, fun p hp => update_of_ne hp _ _⟩
    obtain ⟨ha, hm, hdec, ho, hpos, hword, hret, hother⟩ := hreport
    cases hp : o.entry.phys with
    | none =>
      rw [hp] at hput
      simp only at hput
      split at hput
      · rename_i hin
        cases hput
        refine ⟨hc.1, ⟨hc.2, hword, fun _ x b hb => ?_, fun phys hphys => ?_, hret⟩,
          ⟨hdec, ho, hpos⟩, fun x hne => ⟨hp, ?_⟩, ?_, hother, rfl⟩
        · obtain ⟨hx, rfl⟩ := List.getElem?_eq_some_iff.mp hb
          show s2.area (offset + x) = _
          rw [ha]
          show store otz1kSize s.area offset bs (offset + x) = _
          rw [store_inside (by omega) (by omega) (by omega), Nat.add_sub_cancel_left,
            List.getD_eq_getElem _ _ hx]
        · rw [hp] at hphys
          cases hphys
        · by_contra hout
          refine hne ?_
          show s2.area x = _
          rw [ha]
          exact store_outside (by omega)
        · rw [hp]
          exact hm
      · cases hput
    | some phys =>
      rw [hp] at hput
      simp only [Service.putMapped] at hput
      split at hput
      · rename_i hw
        cases hput
        refine ⟨hc.1, ⟨hc.2, hword, fun hnone => ?_, fun p hphys => ?_, hret⟩, ⟨hdec, ho, hpos⟩,
          fun x hne => absurd (congrFun ha x) hne, ?_, hother, rfl⟩
        · rw [hp] at hnone
          cases hnone
        · rw [hp] at hphys
          cases hphys
          exact hw
        · rw [hp]
          exact hm
      · cases hput
  · cases h

theorem write_isSome (hd : s.decoded[k]? = some (o.decodedAt offset k)) (hk : k < otzMaxResParams)
    (hfresh : s.written k = none) (hlen : bs.length ≤ o.announced)
    (hword : o.entry.type = otzEncUint32 → bs.length = 4)
    (harea : o.entry.phys = none → offset + bs.length ≤ otz1kSize)
    (hmapped : ∀ phys, o.entry.phys = some phys → bs.length ≤ sp.nsWritable phys) :
    ∃ s', s.write sp k bs = some s' := by
  have hput : ∃ s1, s.put sp (o.decodedAt offset k) bs = some s1 := by
    rw [put_decodedAt]
    cases hp : o.entry.phys with
    | none => exact ⟨_, if_pos (harea hp)⟩
    | some phys => exact ⟨_, if_pos (hmapped phys hp)⟩
  obtain ⟨s1, hput⟩ := hput
  have hrep : ∃ s2, s1.report (o.decodedAt offset k) bs = some s2 := by
    rw [report_decodedAt hk]
    by_cases ht : o.entry.type = otzEncUint32
    · rw [if_pos ht, if_pos (hword ht)]
      exact ⟨_, rfl⟩
    · rw [if_neg ht]
      exact ⟨_, rfl⟩
  obtain ⟨s2, hrep⟩ := hrep
  have hc : s.written k = none ∧ bs.length ≤ (toInt (o.decodedAt offset k).outLen).toNat :=
    ⟨hfresh, hlen⟩
  rw [Service.write, hd, Option.bind_some, if_pos hc, hput, Option.bind_some, hrep]
  exact ⟨_, rfl⟩

end

/-! ## the invariant of a walk -/

/-- byte `x` of what is written to a shared output goes to this physical address -/
def SharedWrite (outs : List Output) (written : Nat → Option (List UInt8)) (a : UInt32)
    (b : UInt8) : Prop :=
  ∃ k o phys bs x, outs[k]? = some o ∧ o.entry.phys = some phys ∧ written k = some bs ∧
    bs[x]? = some b ∧ a = phys + UInt32.ofNat x

theorem sharedWrite_update {outs : List Output} {written : Nat → Option (List UInt8)} {k : Nat}
    {o : Output} (hfresh : written k = none) (ho : outs[k]? = some o) (bs : List UInt8) (a : UInt32)
    (b : UInt8) :
    SharedWrite outs (update written k (some bs)) a b ↔ SharedWrite outs written a b ∨
      ∃ phys x, o.entry.phys = some phys ∧ bs[x]? = some b ∧ a = phys + UInt32.ofNat x := by
  constructor
  · rintro ⟨k', o', phys, bs', x, ho', hp, hw, hx, ha⟩
    by_cases hkk : k' = k
    · rw [hkk, update_self] at hw
      rw [hkk, ho] at ho'
      obtain rfl := Option.some.inj ho'
      obtain rfl := Option.some.inj hw
      exact Or.inr ⟨phys, x, hp, hx, ha⟩
    · rw [update_of_ne hkk] at hw
      exact Or.inl ⟨k', o', phys, bs', x, ho', hp, hw, hx, ha⟩
  · rintro (⟨k', o', phys, bs', x, ho', hp, hw, hx, ha⟩ | ⟨phys, x, hp, hx, ha⟩)
    · have hkk : k' ≠ k := by
        rintro rfl
        rw [hfresh] at hw
        cases hw
      refine ⟨k', o', phys, bs', x, ho', hp, ?_, hx, ha⟩
      rw [update_of_ne hkk]
      exact hw
    · exact ⟨k, o, phys, bs, x, ho, hp, update_self _ _ _, hx, ha⟩

structure WalkInv (sp : Space) (outs : List Output) (mem : UInt32 → UInt8) (s : Service) :
    Prop where
  count : s.decoded.length ≤ outs.length
  offset : s.offset = outOffset outs s.decoded.length
  pos : s.pos = otzMaxReqParams + s.decoded.length
  decoded : ∀ k d, s.decoded[k]? = some d → ∃ o : Output, outs[k]? = some o ∧ o.Mappable sp ∧
    d = o.decodedAt (outOffset outs k) k
  address : ∀ k o phys, s.decoded.length ≤ k → outs[k]? = some o → o.entry.phys = some phys →
    ∀ j < 4, s.area (4 * outOffset outs k + j) = wordByte phys j
  written : ∀ k bs, s.written k = some bs → k < s.decoded.length ∧
    ∀ o, outs[k]? = some o → Written sp s o (outOffset outs k) k bs
  mem : ∃ ws, s.mem = applyWrites mem ws ∧ ∀ a b, (a, b) ∈ ws ↔ SharedWrite outs s.written a b

namespace WalkInv
variable {sp : Space} {c : OtzcEncode} {outs : List Output} {mem : UInt32 → UInt8}
  {s s' : Service}

theorem start (h : Ready c outs) : WalkInv sp outs mem (Service.start c mem) where
  count := Nat.zero_le _
  offset := rfl
  pos := rfl
  decoded k d hd := absurd hd (by simp [Service.start])
  address k o phys _ ho hp := (h.address k o phys ho hp).2
  written k bs hw := absurd hw (by simp [Service.start])
  mem := by
    refine ⟨[], rfl, fun a b => ⟨fun hm => absurd hm List.not_mem_nil, ?_⟩⟩
    rintro ⟨k, o, phys, bs, x, -, -, hw, -⟩
    exact absurd hw (by simp [Service.start])

theorem decode (h : Ready c outs) (hi : WalkInv sp outs mem s) (hs : s.decode sp c = some s') :
    WalkInv sp outs mem s' := by
  unfold Service.decode at hs
  split at hs
  · rename_i hlt
    obtain ⟨d, hdec, rfl⟩ := Option.map_eq_some_iff.mp hs
    have hk : s.decoded.length < outs.length := by
      rw [hi.pos, h.pos] at hlt
      omega
    have ho : outs[s.decoded.length]? = some outs[s.decoded.length] := List.getElem?_eq_getElem hk
    rw [hi.offset, hi.pos] at hdec
    obtain ⟨hm, rfl⟩ :=
      (h.decodeData ho fun phys hp => hi.address _ _ phys (Nat.le_refl _) ho hp).1 hdec
    have hlen : (s.decoded ++ [outs[s.decoded.length].decodedAt (outOffset outs s.decoded.length)
        s.decoded.length]).length = s.decoded.length + 1 := by
      rw [List.length_append, List.length_singleton]
    refine ⟨by rw [hlen]; exact hk, ?_, ?_, fun k d hd => ?_, fun k o phys hle hko hp => ?_,
      fun k bs hw => ?_, hi.mem⟩
    · rw [hlen, outOffset_succ ho]
      exact (Int.natCast_add _ _).symm
    · rw [hlen]
      rfl
    · obtain hlt | rfl | hgt := Nat.lt_trichotomy k s.decoded.length
      · rw [List.getElem?_append_left hlt] at hd
        exact hi.decoded k d hd
      · rw [List.getElem?_append_right (Nat.le_refl _), Nat.sub_self] at hd
        exact ⟨_, ho, hm, (Option.some.inj hd).symm⟩
      · rw [List.getElem?_eq_none (by rw [hlen]; omega)] at hd
        cases hd
    · rw [hlen] at hle
      exact hi.address k o phys (by omega) hko hp
    · obtain ⟨hlt, hall⟩ := hi.written k bs hw
      refine ⟨by rw [hlen]; omega, fun o hko => ?_⟩
      exact ⟨(hall o hko).length, (hall o hko).word, (hall o hko).area, (hall o hko).mapped,
        (hall o hko).reported⟩
  · cases hs

theorem write (h : Ready c outs) (hi : WalkInv sp outs mem s) {k : Nat} {bs : List UInt8}
    (hs : s.write sp k bs = some s') : WalkInv sp outs mem s' := by
  obtain ⟨d, hd, -⟩ := Option.bind_eq_some_iff.mp hs
  obtain ⟨o, ho, -, rfl⟩ := hi.decoded k d hd
  have hk : k < s.decoded.length := (List.getElem?_eq_some_iff.mp hd).1
  have hstep := write_step hd (by have := h.few; have := hi.count; omega) hs
  obtain ⟨hdec, hoff, hpos⟩ := hstep.walk
  have hinside : ∀ x, s'.area x ≠ s.area x →
      outOffset outs k ≤ x ∧ x < outOffset outs k + o.entry.size.toNat := by
    intro x hx
    obtain ⟨hp, h1, h2⟩ := hstep.area x hx
    have h3 := h.announced_le ho hp
    have h4 := hstep.result.length
    omega
  have hold : ∀ k' bs', k' ≠ k → s'.written k' = some bs' → s.written k' = some bs' := by
    intro k' bs' hne hw
    rw [hstep.written, update_of_ne hne] at hw
    exact hw
  refine ⟨hdec ▸ hi.count, ?_, ?_, hdec ▸ hi.decoded, fun k' o' phys hle ho' hp => ?_,
    fun k' bs' hw => ?_, ?_⟩
  · rw [hoff, hdec]
    exact hi.offset
  · rw [hpos, hdec]
    exact hi.pos
  · rw [hdec] at hle
    intro j hj
    rw [← hi.address k' o' phys hle ho' hp j hj]
    by_contra hne
    have hin := hinside _ hne
    have hlt := outOffset_lt ho (Nat.lt_of_lt_of_le hk hle)
    omega
  · rw [hdec]
    by_cases hkk : k' = k
    · rw [hkk, hstep.written, update_self] at hw
      obtain rfl := Option.some.inj hw
      refine ⟨hkk ▸ hk, fun o' ho' => ?_⟩
      rw [hkk] at ho' ⊢
      rw [ho] at ho'
      obtain rfl := Option.some.inj ho'
      exact hstep.result
    · obtain ⟨hlt, hall⟩ := hi.written k' bs' (hold k' bs' hkk hw)
      refine ⟨hlt, fun o' ho' => ?_⟩
      have hb := hall o' ho'
      refine ⟨hb.length, hb.word, fun hp x b hx => ?_, hb.mapped, fun ht => ?_⟩
      · rw [← hb.area hp x b hx]
        by_contra hne
        have hin := hinside _ hne
        have h1 := (List.getElem?_eq_some_iff.mp hx).1
        have h2 := h.announced_le ho' hp
        have h3 := hb.length
        obtain hlt' | hgt := Nat.lt_or_gt_of_ne hkk
        · have := outOffset_lt ho' hlt'
          omega
        · have := outOffset_lt ho hgt
          omega
      · rw [hstep.retLen _ (by omega)]
        exact hb.reported ht
  · obtain ⟨ws, hmem, hws⟩ := hi.mem
    have hshared := fun a b => sharedWrite_update hstep.fresh ho bs a b
    rw [← hstep.written] at hshared
    rw [hstep.mem]
    cases hp : o.entry.phys with
    | none =>
      refine ⟨ws, hmem, fun a b => ?_⟩
      rw [hws, hshared, hp]
      simp
    | some phys =>
      refine ⟨ws ++ block (fun x => phys + UInt32.ofNat x) bs, ?_, fun a b => ?_⟩
      · rw [applyWrites_append, ← hmem]
      · rw [List.mem_append, hws, mem_block_iff, hshared, hp]
        refine or_congr_right ⟨fun ⟨x, hx, ha⟩ => ⟨phys, x, rfl, hx, ha⟩, ?_⟩
        rintro ⟨phys', x, hphys, hx, ha⟩
        obtain rfl := Option.some.inj hphys
        exact ⟨x, hx, ha⟩

theorem step (h : Ready c outs) (hi : WalkInv sp outs mem s) {call : ServiceCall}
    (hs : serviceStep sp c s call = some s') : WalkInv sp outs mem s' := by
  cases call with
  | decode => exact hi.decode h hs
  | write k bs => exact hi.write h hs

theorem of_run (h : Ready c outs) {calls : List ServiceCall}
    (hr : run (serviceStep sp c) (Service.start c mem) calls = some s) :
    WalkInv sp outs mem s :=
  run_invariant (WalkInv sp outs mem) (fun _ _ _ hi _ hs => hi.step h hs) (start h)
    (along_true _ _ _) hr

end WalkInv

/-! ## every choice of bytes can be written -/

section
variable {sp : Space} {c : OtzcEncode} {outs : List Output} {mem : UInt32 → UInt8}

def Output.capacity (sp : Space) (o : Output) : Nat :=
  match o.entry.phys with
  | none => o.announced
  | some phys => min o.announced (sp.nsWritable phys)

def FitsOutput (sp : Space) (o : Output) (bs : List UInt8) : Prop :=
  bs.length ≤ o.capacity sp ∧ (o.entry.type = otzEncUint32 → bs.length = 4)

theorem Output.capacity_le {o : Output} : o.capacity sp ≤ o.announced := by
  unfold Output.capacity
  cases o.entry.phys with
  | none => exact Nat.le_refl _
  | some phys => exact Nat.min_le_left _ _

theorem walk_exists (h : Ready c outs) (hmap : ∀ (k : Nat) (o : Output), outs[k]? = some o → o.Mappable sp)
    (bytes : Nat → List UInt8) (hfit : ∀ k o, outs[k]? = some o → FitsOutput sp o (bytes k))
    {n : Nat} (hn : n ≤ outs.length) :
    ∃ calls s, run (serviceStep sp c) (Service.start c mem) calls = some s ∧
      s.decoded.length = n ∧ ∀ k < n, s.written k = some (bytes k) := by
  induction n with
  | zero => exact ⟨[], _, rfl, rfl, fun k hk => absurd hk (Nat.not_lt_zero k)⟩
  | succ n ih =>
    obtain ⟨calls, s, hr, hlen, hw⟩ := ih (by omega)
    have hi := WalkInv.of_run h hr
    have hnlt : n < outs.length := hn
    have ho : outs[n]? = some outs[n] := List.getElem?_eq_getElem hnlt
    obtain ⟨s1, hs1, hdec1, hw1⟩ : ∃ s1, s.decode sp c = some s1 ∧
        s1.decoded = s.decoded ++ [outs[n].decodedAt (outOffset outs n) n] ∧
        s1.written = s.written := by
      have hlt : s.pos < c.encResPos := by
        rw [hi.pos, h.pos, hlen]
        omega
      have hd := (h.decodeData ho fun phys hp => hi.address n _ phys (by omega) ho hp).2
        ⟨hmap n _ ho, rfl⟩
      rw [Service.decode, if_pos hlt, hi.offset, hi.pos, hlen, hd]
      exact ⟨_, rfl, rfl, rfl⟩
    have hr1 := (run_snoc hr ServiceCall.decode).trans hs1
    have hget : s1.decoded[n]? = some (outs[n].decodedAt (outOffset outs n) n) := by
      rw [hdec1, List.getElem?_append_right (by omega), hlen, Nat.sub_self]
      rfl
    have hfresh : s1.written n = none := by
      rw [hw1]
      cases hwn : s.written n with
      | none => rfl
      | some bs =>
        have := (hi.written n bs hwn).1
        omega
    obtain ⟨hcap, hword⟩ := hfit n _ ho
    have hann : (bytes n).length ≤ outs[n].announced := hcap.trans Output.capacity_le
    have hfew := h.few
    have harea : outs[n].entry.phys = none →
        outOffset outs n + (bytes n).length ≤ otz1kSize := by
      intro hp
      have h1 := h.announced_le ho hp
      have h2 := h.fits n _ ho
      omega
    have hmapped : ∀ phys, outs[n].entry.phys = some phys →
        (bytes n).length ≤ sp.nsWritable phys := by
      intro phys hp
      rw [Output.capacity, hp] at hcap
      exact hcap.trans (Nat.min_le_right _ _)
    obtain ⟨s2, hs2⟩ := write_isSome hget (by omega) hfresh hann hword harea hmapped
    have hstep := write_step hget (by omega) hs2
    refine ⟨_, s2, (run_snoc hr1 (ServiceCall.write n (bytes n))).trans hs2, ?_, fun k hk => ?_⟩
    · rw [hstep.walk.1, hdec1, List.length_append, hlen, List.length_singleton]
    · rw [hstep.written, hw1]
      by_cases hkn : k = n
      · rw [hkn, update_self]
      · rw [update_of_ne hkn]
        exact hw k (by omega)

theorem walked_exists (h : Ready c outs) (hmap : ∀ (k : Nat) (o : Output), outs[k]? = some o → o.Mappable sp)
    (bytes : Nat → List UInt8) (hfit : ∀ k o, outs[k]? = some o → FitsOutput sp o (bytes k)) :
    ∃ s, Walked sp c mem s ∧ ∀ k < outs.length, s.written k = some (bytes k) := by
  obtain ⟨calls, s, hr, -, hw⟩ := walk_exists h hmap bytes hfit (Nat.le_refl _)
  refine ⟨s, ⟨⟨calls, hr⟩, fun k hk => ?_⟩, hw⟩
  rw [h.pos] at hk
  rw [hw k (by omega)]
  simp

end

end Invoke
end SierraTee
