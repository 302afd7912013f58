import SierraTee.Params.Bounds
import SierraTee.Params.Decode

/-!
# The round trip of input parameters

A value or an array is stored at the offset at which `decode_data` looks for it, and later
parameters are stored behind it.  A memory reference is stored at four times its offset, where
later values and arrays of the same request come to lie.

* `decodeAll_fill_iff`  the decoder gives back the parameters exactly when they are `Clear`;
* `roundTrip_iff`       the same for the contexts that accepted encode calls lead to.
-/

namespace SierraTee
open Word Bytes Runs

namespace Received

def size : Received → Nat
  | .uint32 _ _ => 4
  | .array _ len => len.toNat
  | .memRef _ _ => 4

def place (o : Nat) : Received → Nat
  | .memRef _ _ => 4 * o
  | _ => o

def bytes : Received → List UInt8
  | .uint32 v _ => wordBytes v
  | .array bs _ => bs
  | .memRef phys _ => wordBytes phys

def type : Received → Nat
  | .uint32 _ _ => otzEncUint32
  | .array _ _ => otzEncArray
  | .memRef _ _ => otzMemRef

def len : Received → UInt32
  | .uint32 _ l => l
  | .array _ l => l
  | .memRef _ l => l

def Complete : Received → Prop
  | .uint32 _ l => l = 4
  | .array bs l => bs.length = l.toNat
  | .memRef _ _ => True

end Received

/-- the parameter that an encode call is given -/
def EncodeCall.content : EncodeCall → Received
  | .uint32 _ _ data _ => .uint32 data 4
  | .array _ _ len data _ => .array (data.take len.toNat) len
  | .memRef _ _ len shared => .memRef (shared.map Prod.fst |>.getD 0) len

/-- the request buffer after these parameters are appended from offset `o` on -/
def fill (buf : Nat → UInt8) (o : Nat) : List Received → Nat → UInt8
  | [] => buf
  | r :: ps => fill (store otz1kSize buf (r.place o) r.bytes) (u32 (o + r.size)) ps

def endOffset (o : Nat) : List Received → Nat
  | [] => o
  | r :: ps => endOffset (u32 (o + r.size)) ps

def Accepted (o : Nat) : List Received → Prop
  | [] => True
  | r :: ps => u32 (o + r.size) ≤ otz1kSize ∧ r.Complete ∧ Accepted (u32 (o + r.size)) ps

/-- the entries of the meta table from `pos` on are those of the parameters -/
def Described (metaData : Nat → OtzcEncodeMeta) (pos : Nat) : List Received → Prop
  | [] => True
  | r :: ps => (metaData pos).type = r.type ∧ (metaData pos).len = r.len ∧
      Described metaData (pos + 1) ps

/-- the byte that the values and arrays among these parameters put at `x` -/
def laterByte (o x : Nat) : List Received → Option UInt8
  | [] => none
  | .uint32 v _ :: ps =>
    if o ≤ x ∧ x < o + 4 then some (wordByte v (x - o)) else laterByte (o + 4) x ps
  | .array bs _ :: ps =>
    if o ≤ x ∧ x < o + bs.length then some (bs.getD (x - o) 0)
    else laterByte (o + bs.length) x ps
  | .memRef _ _ :: ps => laterByte (o + 4) x ps

/-- every array ends in the buffer, and every memory reference is stored in the buffer and keeps
its bytes -/
def Clear (o : Nat) : List Received → Prop
  | [] => True
  | .uint32 _ _ :: ps => Clear (o + 4) ps
  | .array bs _ :: ps => o + bs.length ≤ otz1kSize ∧ Clear (o + bs.length) ps
  | .memRef phys _ :: ps =>
    4 * o + 4 ≤ otz1kSize ∧
      (∀ k < 4, ∀ b, laterByte (o + 4) (4 * o + k) ps = some b → b = wordByte phys k) ∧
      Clear (o + 4) ps

def NoWrap (o : Nat) : List Received → Prop
  | [] => True
  | r :: ps => o + r.size ≤ otz1kSize ∧ NoWrap (o + r.size) ps

theorem Clear.noWrap {o : Nat} {ps : List Received} (ha : Accepted o ps) (ho : o ≤ otz1kSize)
    (h : Clear o ps) : NoWrap o ps := by
  induction ps generalizing o with
  | nil => trivial
  | cons r ps ih =>
    obtain ⟨h1, h2, h3⟩ := ha
    have small : r.size = 4 → o + r.size ≤ otz1kSize := by
      intro h4
      rw [h4, u32_small ho] at h1
      rw [h4]
      exact h1
    have step : o + r.size ≤ otz1kSize → Clear (o + r.size) ps → NoWrap o (r :: ps) := by
      intro hle hc
      have e : u32 (o + r.size) = o + r.size := by
        unfold otz1kSize at hle
        exact u32_of_lt (by omega)
      rw [e] at h3
      exact ⟨hle, ih h3 hle hc⟩
    cases r with
    | uint32 v l => exact step (small rfl) h
    | array bs l =>
      have hlen : bs.length = l.toNat := h2
      obtain ⟨hle, hc⟩ := h
      rw [hlen] at hle hc
      exact step hle hc
    | memRef phys l => exact step (small rfl) h.2.2

section
variable {o x : Nat} {buf : Nat → UInt8} {ps : List Received}

theorem fill_cons {r : Received} (h : o + r.size ≤ otz1kSize) :
    fill buf o (r :: ps) = fill (store otz1kSize buf (r.place o) r.bytes) (o + r.size) ps := by
  have e : u32 (o + r.size) = o + r.size := by
    unfold otz1kSize at h
    exact u32_of_lt (by omega)
  show fill _ (u32 (o + r.size)) ps = _
  rw [e]

theorem Received.place_ge (r : Received) (o : Nat) : o ≤ r.place o := by
  cases r <;> simp only [Received.place] <;> omega

theorem fill_before (h : NoWrap o ps) (hx : x < o) : fill buf o ps x = buf x := by
  induction ps generalizing o buf with
  | nil => rfl
  | cons r ps ih =>
    rw [fill_cons h.1, ih h.2 (by omega)]
    have := r.place_ge o
    exact store_outside (Or.inl (by omega))

theorem fill_later (h : NoWrap o ps) (ha : Accepted o ps) (hx : x < 4 * o) (hs : x < otz1kSize) :
    fill buf o ps x = (laterByte o x ps).getD (buf x) := by
  induction ps generalizing o buf with
  | nil => rfl
  | cons r ps ih =>
    have hle := h.1
    have e : u32 (o + r.size) = o + r.size := by
      unfold otz1kSize at hle
      exact u32_of_lt (by omega)
    obtain ⟨-, hcomp, ha'⟩ := ha
    rw [e] at ha'
    rw [fill_cons hle]
    cases r with
    | uint32 v l =>
      have h2 : NoWrap (o + 4) ps := h.2
      have ha2 : Accepted (o + 4) ps := ha'
      show fill (store otz1kSize buf o (wordBytes v)) (o + 4) ps x = _
      rw [laterByte]
      by_cases hin : o ≤ x ∧ x < o + 4
      · have hx4 : x < o + (wordBytes v).length := by
          rw [length_wordBytes]
          exact hin.2
        rw [if_pos hin, fill_before h2 hin.2, store_inside hin.1 hx4 hs,
          getD_wordBytes v (by omega)]
        rfl
      · rw [if_neg hin, ih h2 ha2 (by omega), store_outside]
        rw [length_wordBytes]
        omega
    | array bs l =>
      have hlen : bs.length = l.toNat := hcomp
      have h2 : NoWrap (o + bs.length) ps := hlen ▸ h.2
      have ha2 : Accepted (o + bs.length) ps := hlen ▸ ha'
      show fill (store otz1kSize buf o bs) (o + l.toNat) ps x = _
      rw [laterByte, ← hlen]
      by_cases hin : o ≤ x ∧ x < o + bs.length
      · rw [if_pos hin, fill_before h2 hin.2, store_inside hin.1 hin.2 hs]
        rfl
      · rw [if_neg hin, ih h2 ha2 (by omega), store_outside]
        omega
    | memRef phys l =>
      have h2 : NoWrap (o + 4) ps := h.2
      have ha2 : Accepted (o + 4) ps := ha'
      show fill (store otz1kSize buf (4 * o) (wordBytes phys)) (o + 4) ps x = _
      rw [laterByte, ih h2 ha2 (by omega), store_outside (Or.inl hx)]

/-! ## the decoder on the filled buffer -/

variable {mapToNs : UInt32 → Option UInt32} {metaData : Nat → OtzcEncodeMeta} {pos : Nat}

theorem toInt_small {l : UInt32} (h : l.toNat ≤ otz1kSize) : toInt l = l.toNat := by
  unfold otz1kSize at h
  rw [toInt, toInt32, if_pos (by omega)]

theorem load_eq {data : Nat → UInt8} {bs : List UInt8} (hle : o + bs.length ≤ otz1kSize)
    (h : ∀ k < bs.length, data (o + k) = bs.getD k 0) :
    load otz1kSize data (o : Int) bs.length = some bs := by
  rw [load, if_pos (by omega)]
  congr 1
  apply List.ext_getElem
  · simp
  · intro k h1 h2
    rw [List.getElem_map, List.getElem_range, Int.toNat_natCast, h k h2,
      List.getD_eq_getElem _ _ h2]

theorem map_cons_iff {t : Option (List Received × Int × Nat)} {r r' : Received} {e : Int}
    {n : Nat} :
    t.map (fun t => (r' :: t.1, t.2)) = some (r :: ps, e, pos + (n + 1)) ↔
      r' = r ∧ t = some (ps, e, pos + 1 + n) := by
  have hpos : pos + (n + 1) = pos + 1 + n := by omega
  cases t with
  | none => simp
  | some t =>
    obtain ⟨rs, e', n'⟩ := t
    simp only [Option.map_some, Option.some_inj, hpos, Prod.mk.injEq, List.cons.injEq, and_assoc]

theorem decode_uint32 {data : Nat → UInt8} {v : UInt32} (hle : o + 4 ≤ otz1kSize)
    (htype : (metaData pos).type = otzEncUint32) (hlen : (metaData pos).len = 4)
    (hw : ∀ k < 4, data (o + k) = wordByte v k) :
    ∃ d, decodeData mapToNs otz1kSize data metaData o pos = some d ∧ d.offset = (o + 4 : Nat) ∧
      d.pos = pos + 1 ∧ receive otz1kSize data d = some (.uint32 v 4) := by
  refine ⟨⟨otzEncUint32, o + 4, pos + 1, false, .inRequest o, 4⟩, ?_, rfl, rfl, ?_⟩
  · rw [decodeData]
    simp only [htype, hlen]
    rfl
  · rw [receive_uint32, loadWord, if_pos (by omega), Int.toNat_natCast, (ofBytes_eq_iff _ v).2 hw]
    rfl

theorem decode_array {data : Nat → UInt8} {bs : List UInt8} {l : UInt32}
    (hbl : bs.length = l.toNat) (hle : o + bs.length ≤ otz1kSize)
    (htype : (metaData pos).type = otzEncArray) (hlen : (metaData pos).len = l)
    (hw : ∀ k < bs.length, data (o + k) = bs.getD k 0) :
    ∃ d, decodeData mapToNs otz1kSize data metaData o pos = some d ∧
      d.offset = (o + bs.length : Nat) ∧ d.pos = pos + 1 ∧
        receive otz1kSize data d = some (.array bs l) := by
  have hto : toInt l = bs.length := by
    rw [hbl]
    exact toInt_small (by omega)
  refine ⟨⟨otzEncArray, o + bs.length, pos + 1, false, .inRequest o, l⟩, ?_, rfl, rfl, ?_⟩
  · rw [decodeData]
    simp only [htype, hlen]
    rw [if_neg (by decide), if_pos trivial, hto]
  · rw [receive_array, ← hbl, load_eq hle hw]
    rfl

theorem decode_memRef (hmap : ∀ a, mapToNs a = some a) {data : Nat → UInt8} {l : UInt32}
    (htype : (metaData pos).type = otzMemRef) (hlen : (metaData pos).len = l) :
    decodeData mapToNs otz1kSize data metaData o pos
      = (loadWord otz1kSize data (4 * o)).map fun w =>
          ⟨otzMemRef, o + 4, pos + 1, true, .mapped w, l⟩ := by
  rw [decodeData]
  simp only [htype, hlen]
  rw [if_neg (by decide), if_neg (by decide), if_pos trivial]
  cases loadWord otz1kSize data (4 * o) with
  | none => rfl
  | some w =>
    show (mapToNs w).bind _ = _
    rw [hmap w]
    rfl

theorem decodeAll_fill_iff (hmap : ∀ a, mapToNs a = some a) (ha : Accepted o ps)
    (hn : NoWrap o ps) (hd : Described metaData pos ps) :
    decodeAll mapToNs otz1kSize (fill buf o ps) metaData ps.length (o : Int) pos
        = some (ps, (endOffset o ps : Int), pos + ps.length) ↔
      Clear o ps := by
  induction ps generalizing o buf pos with
  | nil => exact ⟨fun _ => trivial, fun _ => rfl⟩
  | cons r ps ih =>
    have hle := hn.1
    have e : u32 (o + r.size) = o + r.size := by
      unfold otz1kSize at hle
      exact u32_of_lt (by omega)
    obtain ⟨-, hcomp, ha'⟩ := ha
    obtain ⟨htype, hlen, hd'⟩ := hd
    rw [e] at ha'
    have hend : endOffset o (r :: ps) = endOffset (o + r.size) ps := by
      show endOffset (u32 (o + r.size)) ps = _
      rw [e]
    rw [fill_cons hle, List.length_cons, decodeAll, hend]
    have htail := @ih (o + r.size) (store otz1kSize buf (r.place o) r.bytes) (pos + 1) ha' hn.2 hd'
    generalize hfb : fill (store otz1kSize buf (r.place o) r.bytes) (o + r.size) ps = fb at *
    cases r with
    | uint32 v l =>
      obtain rfl : l = 4 := hcomp
      have hn2 : NoWrap (o + 4) ps := hn.2
      have hle4 : o + 4 ≤ otz1kSize := hle
      have hw : ∀ k < 4, fb (o + k) = wordByte v k := by
        intro k hk
        rw [← hfb]
        show fill (store otz1kSize buf o (wordBytes v)) (o + 4) ps (o + k) = _
        rw [fill_before hn2 (by omega), store_inside (by omega) (by rw [length_wordBytes]; omega)
          (by omega), Nat.add_sub_cancel_left, getD_wordBytes v hk]
      obtain ⟨d, hdec, hoff, hpos, hrec⟩ := decode_uint32 hle4 htype hlen hw
      rw [hdec, Option.bind_some, hrec, Option.bind_some, map_cons_iff, hoff, hpos]
      exact (and_iff_right rfl).trans htail
    | array bs l =>
      have hbl : bs.length = l.toNat := hcomp
      have hn2 : NoWrap (o + bs.length) ps := hbl ▸ hn.2
      have hlel : o + bs.length ≤ otz1kSize := hbl ▸ hle
      have hw : ∀ k < bs.length, fb (o + k) = bs.getD k 0 := by
        intro k hk
        rw [← hfb]
        show fill (store otz1kSize buf o bs) (o + l.toNat) ps (o + k) = _
        rw [← hbl, fill_before hn2 (by omega), store_inside (by omega) (by omega) (by omega),
          Nat.add_sub_cancel_left]
      obtain ⟨d, hdec, hoff, hpos, hrec⟩ := decode_array hbl hlel htype hlen hw
      rw [hdec, Option.bind_some, hrec, Option.bind_some, map_cons_iff, hoff, hpos]
      have hsize : (Received.array bs l).size = bs.length := hbl.symm
      rw [hsize] at htail ⊢
      exact (and_iff_right rfl).trans (htail.trans (and_iff_right hlel).symm)
    | memRef phys l =>
      have hn2 : NoWrap (o + 4) ps := hn.2
      have ha2 : Accepted (o + 4) ps := ha'
      have hw : ∀ k < 4, 4 * o + 4 ≤ otz1kSize →
          fb (4 * o + k) = (laterByte (o + 4) (4 * o + k) ps).getD (wordByte phys k) := by
        intro k hk hin
        rw [← hfb]
        show fill (store otz1kSize buf (4 * o) (wordBytes phys)) (o + 4) ps (4 * o + k) = _
        rw [fill_later hn2 ha2 (by omega) (by omega), store_inside (by omega)
          (by rw [length_wordBytes]; omega) (by omega), Nat.add_sub_cancel_left,
          getD_wordBytes phys hk]
      rw [decode_memRef hmap htype hlen, loadWord]
      by_cases hin : 4 * o + 4 ≤ otz1kSize
      · rw [if_pos (by omega), Option.map_some, Option.bind_some]
        show (((some (Received.memRef _ l)).bind _ : Option (List Received × Int × Nat)) = _) ↔ _
        rw [Option.bind_some, map_cons_iff]
        have hval : Received.memRef (ofBytes fun k => fb ((4 * (o : Int)).toNat + k)) l
            = .memRef phys l ↔ ∀ k < 4, ∀ b, laterByte (o + 4) (4 * o + k) ps = some b →
              b = wordByte phys k := by
          have hto : (4 * (o : Int)).toNat = 4 * o := by omega
          rw [Received.memRef.injEq, hto, ofBytes_eq_iff]
          constructor
          · intro h k hk b hb
            rw [← h.1 k hk, hw k hk hin, hb]
            rfl
          · intro h
            refine ⟨fun k hk => ?_, rfl⟩
            rw [hw k hk hin]
            cases hb : laterByte (o + 4) (4 * o + k) ps with
            | none => rfl
            | some b => exact h k hk b hb
        show _ ↔ 4 * o + 4 ≤ otz1kSize ∧ _ ∧ Clear (o + 4) ps
        rw [and_iff_right hin]
        exact and_congr hval htail
      · rw [if_neg (by omega)]
        refine ⟨fun h => absurd h (by simp), fun h => absurd h.1 hin⟩

theorem bind_eq_cons {d : Option Decoded} {data : Nat → UInt8} {n : Nat} {r : Received}
    {t : Int × Nat}
    (h : (d.bind fun d => (receive otz1kSize data d).bind fun r =>
      (decodeAll mapToNs otz1kSize data metaData n d.offset d.pos).map
        fun t => (r :: t.1, t.2)) = some (r :: ps, t)) :
    ∃ d', d = some d' ∧ receive otz1kSize data d' = some r ∧
      decodeAll mapToNs otz1kSize data metaData n d'.offset d'.pos = some (ps, t) := by
  obtain ⟨d', hd, h⟩ := Option.bind_eq_some_iff.1 h
  obtain ⟨r', hr, h⟩ := Option.bind_eq_some_iff.1 h
  obtain ⟨⟨rs, t'⟩, ht, h⟩ := Option.map_eq_some_iff.1 h
  cases h
  exact ⟨d', hd, hr, ht⟩

theorem decodeAll_noWrap {data : Nat → UInt8} {t : Int × Nat} (ho : o ≤ otz1kSize)
    (ha : Accepted o ps) (hd : Described metaData pos ps)
    (h : decodeAll mapToNs otz1kSize data metaData ps.length (o : Int) pos = some (ps, t)) :
    NoWrap o ps := by
  induction ps generalizing o pos with
  | nil => trivial
  | cons r ps ih =>
    obtain ⟨hle, hcomp, ha'⟩ := ha
    obtain ⟨htype, hlen, hd'⟩ := hd
    obtain ⟨d, hdec, hrec, htail⟩ := bind_eq_cons h
    have hin : o + r.size ≤ otz1kSize ∧ d.offset = (o : Int) + r.size ∧ d.pos = pos + 1 := by
      rw [decodeData] at hdec
      simp only [htype, hlen] at hdec
      cases r with
      | uint32 v l =>
        have h4 : o + 4 ≤ otz1kSize := by
          rw [show (Received.uint32 v l).size = 4 from rfl, u32_small ho] at hle
          exact hle
        rw [if_pos (by rfl)] at hdec
        cases hdec
        exact ⟨h4, rfl, rfl⟩
      | array bs l =>
        rw [show (Received.array bs l).type = otzEncArray from rfl, if_neg (by decide),
          if_pos rfl] at hdec
        cases hdec
        have hl : o + l.toNat ≤ otz1kSize := by
          rw [receive_array] at hrec
          by_contra hc
          rw [load, if_neg (by show ¬ (0 ≤ (o : Int) ∧ (o : Int) + l.toNat ≤ otz1kSize); omega)]
            at hrec
          exact absurd hrec (by simp)
        refine ⟨hl, ?_, rfl⟩
        show (o : Int) + toInt l = o + l.toNat
        rw [toInt_small (by omega)]
      | memRef phys l =>
        have h4 : o + 4 ≤ otz1kSize := by
          rw [show (Received.memRef phys l).size = 4 from rfl, u32_small ho] at hle
          exact hle
        rw [show (Received.memRef phys l).type = otzMemRef from rfl, if_neg (by decide),
          if_neg (by decide), if_pos rfl] at hdec
        obtain ⟨w, -, hdec⟩ := Option.bind_eq_some_iff.1 hdec
        obtain ⟨a, -, hdec⟩ := Option.bind_eq_some_iff.1 hdec
        cases hdec
        exact ⟨h4, rfl, rfl⟩
    obtain ⟨hin, hoff, hpos⟩ := hin
    have e : u32 (o + r.size) = o + r.size := by
      unfold otz1kSize at hin
      exact u32_of_lt (by omega)
    rw [e] at ha'
    rw [hoff, hpos, ← Int.natCast_add] at htail
    exact ⟨hin, ih hin ha' hd' htail⟩

end

/-! ## the contexts of accepted calls -/

/-- the driver accepts the call -/
def Succeeds (c : OtzcEncode) (k : EncodeCall) : Prop := (encodeCall c k).ret = 0

instance (c : OtzcEncode) (k : EncodeCall) : Decidable (Succeeds c k) :=
  inferInstanceAs (Decidable ((encodeCall c k).ret = 0))

structure Appended (c c' : OtzcEncode) (r : Received) : Prop where
  accepted : u32 (c.encReqOffset + r.size) ≤ otz1kSize ∧ r.Complete
  buffer : ∃ buf, (∀ b, c.kerReqDataAddr = some b → buf = b) ∧
    c'.kerReqDataAddr = some (store otz1kSize buf (r.place c.encReqOffset) r.bytes)
  offset : c'.encReqOffset = u32 (c.encReqOffset + r.size)
  pos : c'.encReqPos = c.encReqPos + 1
  entry : (c'.metaData c.encReqPos).type = r.type ∧ (c'.metaData c.encReqPos).len = r.len
  others : ∀ i, i ≠ c.encReqPos → c'.metaData i = c.metaData i

theorem encodeReq_appended {c : OtzcEncode} {kmalloc : Option (Nat → UInt8)} {p : ParamData}
    {r : Received} (h : (encodeReq c kmalloc p).ret = 0) (hsize : p.size.toNat = r.size)
    (hplace : p.place c.encReqOffset = r.place c.encReqOffset)
    (hbytes : p.complete = true → p.bytes = r.bytes) (htype : p.type = r.type) (hlen : p.len = r.len)
    (hcomp : p.complete = true → r.Complete) :
    Appended c (encodeReq c kmalloc p).ctx r := by
  unfold encodeReq at h ⊢
  cases hb : (c.kerReqDataAddr.orElse fun _ => kmalloc) with
  | none =>
    rw [hb] at h
    exact absurd h enomem_ne
  | some buf =>
    rw [hb] at h
    simp only at h ⊢
    split at h
    · rename_i hc
      rw [if_pos hc]
      split at h
      · rename_i hcp
        rw [if_pos hcp]
        refine ⟨⟨hsize ▸ hc.1, hcomp hcp⟩, ⟨buf, fun b hb' => ?_, ?_⟩, ?_, rfl, ?_, ?_⟩
        · rw [hb'] at hb
          exact (Option.some.inj hb).symm
        · rw [← hplace, ← hbytes hcp]
        · rw [← hsize]
        · simp only [Function.update_self]
          exact ⟨htype, hlen⟩
        · intro i hi
          exact Function.update_of_ne hi _ _
      · exact absurd h efault_ne
    · exact absurd h enomem_ne

theorem withUserCommand_ok {io : CallIo} {c : OtzcEncode} {body : Reply}
    (h : (withUserCommand io c body).ret = 0) :
    withUserCommand io c body = body ∧ body.ret = 0 := by
  unfold withUserCommand at h ⊢
  split at h
  · exact absurd h efault_ne
  · rename_i h1
    rw [if_neg h1]
    split at h
    · rename_i h2
      exact absurd h h2
    · rename_i h2
      rw [if_neg h2]
      split at h
      · exact absurd h efault_ne
      · rename_i h3
        rw [if_neg h3]
        exact ⟨rfl, h⟩

theorem encodeCall_appended {c : OtzcEncode} {k : EncodeCall} (hin : k.paramType = .paramIn)
    (h : Succeeds c k) : Appended c (encodeCall c k).ctx k.content := by
  cases k with
  | uint32 io t data usr =>
    obtain rfl : t = .paramIn := hin
    obtain ⟨he, hr⟩ := withUserCommand_ok h
    show Appended c (withUserCommand io c _).ctx _
    rw [he]
    exact encodeReq_appended hr rfl rfl (fun _ => rfl) rfl rfl fun _ => rfl
  | array io t len data usr =>
    obtain rfl : t = .paramIn := hin
    obtain ⟨he, hr⟩ := withUserCommand_ok h
    show Appended c (withUserCommand io c _).ctx _
    rw [he]
    refine encodeReq_appended hr rfl rfl (fun hcp => ?_) rfl rfl fun hcp => ?_
    · exact copyFromUser_all (of_decide_eq_true hcp)
    have hle : len.toNat ≤ data.length := of_decide_eq_true hcp
    show (data.take len.toNat).length = len.toNat
    rw [List.length_take, Nat.min_eq_left hle]
  | memRef io t len shared =>
    obtain rfl : t = .paramIn := hin
    have h' : (otzClientKernelEncodeMemRef c io .paramIn len shared).ret = 0 := h
    show Appended c (otzClientKernelEncodeMemRef c io .paramIn len shared).ctx _
    unfold otzClientKernelEncodeMemRef at h' ⊢
    split at h'
    · rename_i hp
      exact absurd h' hp
    · rename_i hp
      rw [if_neg hp]
      cases shared with
      | none => exact absurd h' (by show -einval ≠ 0; decide)
      | some sh => exact encodeReq_appended h' rfl rfl (fun _ => rfl) rfl rfl fun _ => trivial

structure AppendedAll (c c' : OtzcEncode) (ps : List Received) : Prop where
  accepted : Accepted c.encReqOffset ps
  buffer : ∃ buf, (∀ b, c.kerReqDataAddr = some b → buf = b) ∧
    (c'.kerReqDataAddr.getD fun _ => 0) = fill buf c.encReqOffset ps
  offset : c'.encReqOffset = endOffset c.encReqOffset ps
  pos : c'.encReqPos = c.encReqPos + ps.length
  described : Described c'.metaData c.encReqPos ps
  earlier : ∀ i, i < c.encReqPos → c'.metaData i = c.metaData i

theorem run_appended {calls : List EncodeCall} {c c' : OtzcEncode}
    (hin : ∀ k ∈ calls, k.paramType = .paramIn) (hacc : Along encodeStep Succeeds c calls)
    (hrun : run encodeStep c calls = some c') :
    AppendedAll c c' (calls.map EncodeCall.content) := by
  induction calls generalizing c with
  | nil =>
    cases hrun
    refine ⟨trivial, ⟨c'.kerReqDataAddr.getD fun _ => 0, fun b hb => ?_, rfl⟩, rfl, rfl, trivial,
      fun _ _ => rfl⟩
    rw [hb]
    rfl
  | cons k calls ih =>
    obtain ⟨c1, hs, hr⟩ := run_cons_some hrun
    obtain ⟨hk, hacc'⟩ := along_cons hacc hs
    obtain rfl := Option.some.inj hs
    have ha := encodeCall_appended (hin k List.mem_cons_self) hk
    have hb := ih (fun k hk => hin k (List.mem_cons_of_mem _ hk)) hacc' hr
    obtain ⟨buf, hbuf, hb1⟩ := ha.buffer
    obtain ⟨buf', hbuf', hb2⟩ := hb.buffer
    obtain rfl := hbuf' _ hb1
    rw [List.map_cons]
    refine ⟨⟨ha.accepted.1, ha.accepted.2, ha.offset ▸ hb.accepted⟩, ⟨buf, hbuf, ?_⟩, ?_, ?_,
      ⟨?_, ?_, ha.pos ▸ hb.described⟩, fun i hi => ?_⟩
    · rw [hb2, ha.offset]
      rfl
    · rw [hb.offset, ha.offset]
      rfl
    · rw [hb.pos, ha.pos, List.length_cons]
      omega
    · rw [hb.earlier _ (by rw [ha.pos]; omega)]
      exact ha.entry.1
    · rw [hb.earlier _ (by rw [ha.pos]; omega)]
      exact ha.entry.2
    · rw [hb.earlier i (by rw [ha.pos]; omega)]
      exact ha.others i (by omega)

/-- **The round trip**: after any accepted input parameters the decoder gives back exactly these
parameters, with their lengths and in their order, and ends at the encoder's offset and position,
if and only if the parameters are clear. -/
theorem roundTrip_iff {mapToNs : UInt32 → Option UInt32} (hmap : ∀ a, mapToNs a = some a)
    {calls : List EncodeCall} {c : OtzcEncode} (hin : ∀ k ∈ calls, k.paramType = .paramIn)
    (hacc : Along encodeStep Succeeds freshEncode calls)
    (hrun : run encodeStep freshEncode calls = some c) :
    decodeAll mapToNs otz1kSize (c.kerReqDataAddr.getD fun _ => 0) c.metaData calls.length 0 0
        = some (calls.map EncodeCall.content, (c.encReqOffset : Int), c.encReqPos) ↔
      Clear 0 (calls.map EncodeCall.content) := by
  have h := run_appended hin hacc hrun
  obtain ⟨buf, -, hbuf⟩ := h.buffer
  have hlen : calls.length = (calls.map EncodeCall.content).length := (List.length_map _).symm
  have hpos : c.encReqPos = 0 + (calls.map EncodeCall.content).length := h.pos
  have hoff : c.encReqOffset = endOffset 0 (calls.map EncodeCall.content) := h.offset
  have hacc0 : Accepted 0 (calls.map EncodeCall.content) := h.accepted
  have hdesc : Described c.metaData 0 (calls.map EncodeCall.content) := h.described
  have hbuf0 : (c.kerReqDataAddr.getD fun _ => 0) = fill buf 0 (calls.map EncodeCall.content) :=
    hbuf
  rw [hlen, hpos, hoff, hbuf0]
  constructor
  · intro hdec
    have hn := decodeAll_noWrap (Nat.zero_le _) hacc0 hdesc hdec
    exact (decodeAll_fill_iff hmap hacc0 hn hdesc).1 hdec
  · intro hclear
    have hn := hclear.noWrap hacc0 (Nat.zero_le _)
    exact (decodeAll_fill_iff hmap hacc0 hn hdesc).2 hclear

/-- a value and a memory reference -/
def valueAndReference : List EncodeCall :=
  [.uint32 plainIo .paramIn 7 0, .memRef plainIo .paramIn 64 (some (0x60001000, 0x2000))]

theorem roundTrip_iff_valueAndReference :
    ∃ c, run encodeStep freshEncode valueAndReference = some c ∧
      (decodeAll some otz1kSize (c.kerReqDataAddr.getD fun _ => 0) c.metaData 2 0 0
          = some ([.uint32 7 4, .memRef 0x60001000 64], (c.encReqOffset : Int), c.encReqPos) ↔
        Clear 0 [.uint32 7 4, .memRef 0x60001000 64]) := by
  have hsome : (run encodeStep freshEncode valueAndReference).isSome = true := by decide +kernel
  obtain ⟨c, hc⟩ := Option.isSome_iff_exists.1 hsome
  have hin : ∀ k ∈ valueAndReference, k.paramType = .paramIn := by
    simp [valueAndReference, EncodeCall.paramType]
  have hacc : Along encodeStep Succeeds freshEncode valueAndReference := by decide +kernel
  exact ⟨c, hc, roundTrip_iff (fun _ => rfl) hin hacc hc⟩

/-- a value, a memory reference at offset 4 (stored in the bytes 16 to 19), and three values, the
last of which is stored in the bytes 16 to 19 as well -/
def overlappingCalls : List EncodeCall :=
  [.uint32 plainIo .paramIn 1 0, .memRef plainIo .paramIn 64 (some (0x60001000, 0x2000)),
    .uint32 plainIo .paramIn 2 0, .uint32 plainIo .paramIn 3 0, .uint32 plainIo .paramIn 4 0]

def decodesBack (calls : List EncodeCall) (c : OtzcEncode) : Bool :=
  decodeAll some otz1kSize (c.kerReqDataAddr.getD fun _ => 0) c.metaData calls.length 0 0
    = some (calls.map EncodeCall.content, (c.encReqOffset : Int), c.encReqPos)

/-- **The defect**: the decoder reads the fourth value as the address of the memory reference. -/
theorem roundTrip_overlap :
    ¬ ∀ (mapToNs : UInt32 → Option UInt32) (calls : List EncodeCall) (c : OtzcEncode),
      (∀ a, mapToNs a = some a) → (∀ k ∈ calls, k.paramType = .paramIn) →
      Along encodeStep Succeeds freshEncode calls →
      run encodeStep freshEncode calls = some c →
      decodeAll mapToNs otz1kSize (c.kerReqDataAddr.getD fun _ => 0) c.metaData calls.length 0 0
        = some (calls.map EncodeCall.content, (c.encReqOffset : Int), c.encReqPos) := by
  intro h
  have hfalse : (run encodeStep freshEncode overlappingCalls).map (decodesBack overlappingCalls)
      = some false := by decide +kernel
  obtain ⟨c, hc, hno⟩ := Option.map_eq_some_iff.1 hfalse
  have hin : ∀ k ∈ overlappingCalls, k.paramType = .paramIn := by
    simp [overlappingCalls, EncodeCall.paramType]
  have hacc : Along encodeStep Succeeds freshEncode overlappingCalls := by decide +kernel
  have hyes := h some overlappingCalls c (fun _ => rfl) hin hacc hc
  rw [decodesBack, decide_eq_false_iff_not] at hno
  exact hno hyes

end SierraTee
