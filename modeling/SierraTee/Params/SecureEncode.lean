import SierraTee.Params.Decode

/-!
# Parameters between secure tasks (`task_control.c`, `secure_api.c`)

`otz_encode_data` appends a word to the request or the response area of an encode context; the
offset counts bytes and is used as a word index.

* `encode_run`           what accepted calls leave;
* `secureRoundTrip_iff`  the decoders give the values back exactly if every value is at its place.
-/

namespace SierraTee
open Function Word Bytes Runs

/-- `struct otz_secure_encode_cmd` -/
structure OtzSecureEncodeCmd where
  len : UInt32
  data : UInt32
  paramType : ParamType

/-- the request or the response part of `struct otz_secure_encode_ctx`: the buffer, the offset and
the position -/
structure EncodeArea where
  addr : Option (Nat → UInt8)
  offset : Nat
  pos : Nat

/-- `struct otz_secure_encode_ctx` -/
structure OtzSecureEncodeCtx where
  req : EncodeArea
  res : EncodeArea

def zeroCtx : OtzSecureEncodeCtx := ⟨⟨none, 0, 0⟩, ⟨none, 0, 0⟩⟩

/-- `*pmeta_data` and `*penc_context` -/
structure SecureEncoder where
  metaData : Option (Nat → OtzcEncodeMeta)
  ctx : Option OtzSecureEncodeCtx

/-- what `sw_malloc` gives in a call: a context, a meta table, and a buffer with what is in it -/
structure EncodeMalloc where
  ctx : Bool
  metaData : Bool
  buffer : Option (Nat → UInt8)

inductive EncodeFailure
  | invalid (s : SecureEncoder)
  | released

/-- a word is appended to an area whose first position is `first` and whose last is below `limit` -/
def appendWord (a : EncodeArea) (buffer : Option (Nat → UInt8)) (first limit : Nat) (data : UInt32) :
    Option EncodeArea :=
  let a := if a.addr.isNone then ⟨buffer, 0, first⟩ else a
  match a.addr with
  | none => none
  | some buf =>
    if a.offset + 4 ≤ otz1kSize ∧ a.pos < limit then
      some ⟨some (store otz1kSize buf (4 * a.offset) (wordBytes data)), a.offset + 4, a.pos + 1⟩
    else none

def otzEncodeData (s : SecureEncoder) (io : EncodeMalloc) (enc : Option OtzSecureEncodeCmd)
    (encodeType : Nat) : Except EncodeFailure SecureEncoder :=
  match enc with
  | none => .error (.invalid s)
  | some enc =>
    if encodeType ≠ otzEncUint32 ∧ encodeType ≠ otzSecureMemRef then .error (.invalid s)
    else
      match s.ctx.orElse fun _ => if io.ctx then some zeroCtx else none with
      | none => .error .released
      | some ctx =>
        match s.metaData.orElse fun _ => if io.metaData then some fun _ => ⟨0, 0, 0⟩ else none with
        | none => .error .released
        | some metaData =>
          match enc.paramType with
          | .paramIn =>
            match appendWord ctx.req io.buffer 0 otzMaxReqParams enc.data with
            | none => .error .released
            | some req => .ok ⟨some (update metaData (req.pos - 1)
                ⟨encodeType, enc.len, (metaData (req.pos - 1)).usrAddr⟩), some { ctx with req }⟩
          | .paramOut =>
            match appendWord ctx.res io.buffer otzMaxReqParams (otzMaxResParams + otzMaxReqParams)
                enc.data with
            | none => .error .released
            | some res => .ok ⟨some (update metaData (res.pos - 1)
                ⟨encodeType, enc.len, (metaData (res.pos - 1)).usrAddr⟩), some { ctx with res }⟩
          | .other => .error (.invalid ⟨some metaData, some ctx⟩)

/-- `decode_ipi_out_data`; the length of a reference is the one the other task has set -/
def decodeIpiOutData (size : Nat) (data : Nat → UInt8) (metaData : Nat → OtzcEncodeMeta)
    (retLen : Nat → UInt32) (offset : Int) (pos : Nat) : Option Decoded :=
  let m := metaData pos
  if m.type = otzEncUint32 then
    some ⟨otzEncUint32, offset + 4, pos + 1, false, .inRequest offset, m.len⟩
  else if m.type = otzSecureMemRef then do
    let addr ← loadWord size data (4 * offset)
    some ⟨otzMemRef, offset + 4, pos + 1, false, .address addr, retLen pos⟩
  else none

def decodeEach (decode : Int → Nat → Option Decoded) (size : Nat) (data : Nat → UInt8) :
    Nat → Int → Nat → Option (List Received × Int × Nat)
  | 0, offset, pos => some ([], offset, pos)
  | n + 1, offset, pos =>
    (decode offset pos).bind fun d =>
      (receive size data d).bind fun r =>
        (decodeEach decode size data n d.offset d.pos).map fun t => (r :: t.1, t.2)

theorem decodeAll_eq (mapToNs : UInt32 → Option UInt32) (size : Nat) (data : Nat → UInt8)
    (metaData : Nat → OtzcEncodeMeta) (n : Nat) (offset : Int) (pos : Nat) :
    decodeAll mapToNs size data metaData n offset pos =
      decodeEach (decodeData mapToNs size data metaData) size data n offset pos := by
  induction n generalizing offset pos with
  | zero => rfl
  | succ n ih => simp only [decodeAll, decodeEach, ih]

/-- the value of a parameter -/
def Received.value : Received → UInt32
  | .uint32 v _ => v
  | .array _ _ => 0
  | .memRef addr _ => addr

/-! ## the calls of one context -/

/-- a call of `otz_encode_data` -/
structure SecureCall where
  io : EncodeMalloc
  enc : Option OtzSecureEncodeCmd
  encodeType : Nat

def secureStep (s : SecureEncoder) (k : SecureCall) : Option SecureEncoder :=
  (otzEncodeData s k.io k.enc k.encodeType).toOption

structure SecureParam where
  type : Nat
  data : UInt32
  len : UInt32

def SecureCall.param (t : ParamType) (k : SecureCall) : Option SecureParam :=
  k.enc.bind fun enc => if enc.paramType = t then some ⟨k.encodeType, enc.data, enc.len⟩ else none

/-- the parameters of an area, in the order of the calls -/
def paramsOf (t : ParamType) (calls : List SecureCall) : List SecureParam :=
  calls.filterMap (SecureCall.param t)

/-- the buffer of an area: what the first of its calls was given -/
def bufferOf (t : ParamType) (calls : List SecureCall) : Option (Nat → UInt8) :=
  (calls.find? fun k => (k.param t).isSome).bind fun k => k.io.buffer

def slots (buf : Nat → UInt8) (ps : List SecureParam) (x : Nat) : UInt8 :=
  match ps[x / 16]? with
  | some p => if x % 16 < 4 then wordByte p.data (x % 16) else buf x
  | none => buf x

/-- the word at the place where the decoder looks for value `k` -/
def wordFound (buf : Nat → UInt8) (ps : List SecureParam) (k : Nat) : UInt32 :=
  match ps[k / 4]? with
  | some p => if k % 4 = 0 then p.data else ofBytes fun i => buf (4 * k + i)
  | none => ofBytes fun i => buf (4 * k + i)

/-- every value of type `OTZ_ENC_UINT32` is at its place: the word there is the parameter with a
fourth of its number, or what the allocation has left -/
def RightPlaces (buf : Nat → UInt8) (ps : List SecureParam) : Prop :=
  ∀ k, ∀ h : k < ps.length, ps[k].type = otzEncUint32 → wordFound buf ps k = ps[k].data

instance (buf : Nat → UInt8) (ps : List SecureParam) : Decidable (RightPlaces buf ps) :=
  inferInstanceAs (Decidable (∀ k, ∀ _ : k < ps.length, _ → _))

theorem slots_nil (buf : Nat → UInt8) : slots buf [] = buf := rfl

theorem store_slots (buf : Nat → UInt8) (ps : List SecureParam) (p : SecureParam)
    (h : 16 * ps.length + 4 ≤ otz1kSize) :
    store otz1kSize (slots buf ps) (16 * ps.length) (wordBytes p.data) = slots buf (ps ++ [p]) := by
  funext x
  have hk : otz1kSize = 1024 := rfl
  by_cases hin : 16 * ps.length ≤ x ∧ x < 16 * ps.length + 4
  · have hdiv : x / 16 = ps.length := by omega
    have hmod : x % 16 = x - 16 * ps.length := by omega
    rw [store_inside hin.1 (by rw [length_wordBytes]; exact hin.2) (by omega),
      getD_wordBytes _ (by omega), slots, hdiv, hmod, List.getElem?_concat_length]
    exact (if_pos (by omega)).symm
  · rw [store_outside (by rw [length_wordBytes]; omega), slots, slots]
    by_cases hlt : x / 16 < ps.length
    · rw [List.getElem?_append_left hlt]
    · rw [List.getElem?_eq_none (by omega)]
      by_cases heq : x / 16 = ps.length
      · rw [heq, List.getElem?_concat_length]
        exact (if_neg (by omega)).symm
      · rw [List.getElem?_eq_none (by rw [List.length_append, List.length_singleton]; omega)]

theorem loadWord_value {buf : Nat → UInt8} {ps : List SecureParam} {k : Nat}
    (h : 4 * k + 4 ≤ otz1kSize) :
    loadWord otz1kSize (slots buf ps) (4 * (k : Int)) = some (wordFound buf ps k) := by
  have hk : otz1kSize = 1024 := rfl
  rw [loadWord, if_pos (by omega), Option.some_inj]
  have hnat : (4 * (k : Int)).toNat = 4 * k := by omega
  have hdiv (i : Nat) (hi : i < 4) : (4 * k + i) / 16 = k / 4 := by omega
  rw [hnat, wordFound]
  by_cases h0 : k % 4 = 0
  · have hmod (i : Nat) (hi : i < 4) : (4 * k + i) % 16 = i := by omega
    cases hp : ps[k / 4]? with
    | none =>
      refine ofBytes_congr fun i hi => ?_
      rw [slots, hdiv i hi, hp]
    | some p =>
      change _ = if k % 4 = 0 then p.data else _
      rw [if_pos h0, ← ofBytes_wordByte p.data]
      refine ofBytes_congr fun i hi => ?_
      rw [slots, hdiv i hi, hp]
      simp only [hmod i hi, hi, if_true]
  · have hmod (i : Nat) (hi : i < 4) : ¬ (4 * k + i) % 16 < 4 := by omega
    have hsame : ofBytes (fun i => slots buf ps (4 * k + i)) =
        ofBytes fun i => buf (4 * k + i) := by
      refine ofBytes_congr fun i hi => ?_
      rw [slots, hdiv i hi]
      cases ps[k / 4]? with
      | none => rfl
      | some p => exact if_neg (hmod i hi)
    rw [hsame]
    cases ps[k / 4]? with
    | none => rfl
    | some p => exact (if_neg h0).symm

theorem loadWord_reference {buf : Nat → UInt8} {ps : List SecureParam} {k : Nat}
    (hk : k < ps.length) (h : 16 * k + 4 ≤ otz1kSize) :
    loadWord otz1kSize (slots buf ps) (4 * (4 * (k : Int))) = some ps[k].data := by
  have he : otz1kSize = 1024 := rfl
  rw [loadWord, if_pos (by omega), Option.some_inj]
  have hnat : (4 * (4 * (k : Int))).toNat = 16 * k := by omega
  rw [hnat, ← ofBytes_wordByte ps[k].data]
  refine ofBytes_congr fun i hi => ?_
  have hdiv : (16 * k + i) / 16 = k := by omega
  have hmod : (16 * k + i) % 16 = i := by omega
  rw [slots, hdiv, List.getElem?_eq_getElem hk]
  simp only [hmod, hi, if_true]

/-! ## what the calls leave -/

/-- an area after these parameters, from position `first` on, with the entries of the meta table -/
structure AreaOf (first : Nat) (buf : Option (Nat → UInt8)) (ps : List SecureParam)
    (a : EncodeArea) (metaData : Nat → OtzcEncodeMeta) : Prop where
  addr : a.addr = if ps = [] then none else buf.map fun b => slots b ps
  buffer : ps ≠ [] → buf.isSome
  offset : a.offset = 4 * ps.length
  pos : ps ≠ [] → a.pos = first + ps.length
  entry : ∀ k, ∀ h : k < ps.length,
    (metaData (first + k)).type = ps[k].type ∧ (metaData (first + k)).len = ps[k].len
  type : ∀ k, ∀ h : k < ps.length, ps[k].type = otzEncUint32 ∨ ps[k].type = otzSecureMemRef

section areas
variable {first limit : Nat} {buf : Option (Nat → UInt8)} {ps : List SecureParam}
  {a a' : EncodeArea} {metaData : Nat → OtzcEncodeMeta}

theorem AreaOf.nil (first : Nat) (metaData : Nat → OtzcEncodeMeta) :
    AreaOf first none [] ⟨none, 0, 0⟩ metaData where
  addr := rfl
  buffer h := absurd rfl h
  offset := rfl
  pos h := absurd rfl h
  entry k h := absurd h (Nat.not_lt_zero k)
  type k h := absurd h (Nat.not_lt_zero k)

theorem AreaOf.congr (h : AreaOf first buf ps a metaData) {metaData' : Nat → OtzcEncodeMeta}
    (he : ∀ k < ps.length, metaData' (first + k) = metaData (first + k)) :
    AreaOf first buf ps a metaData' where
  addr := h.addr
  buffer := h.buffer
  offset := h.offset
  pos := h.pos
  entry k hk := by
    rw [he k hk]
    exact h.entry k hk
  type := h.type

theorem AreaOf.appendWord (h : AreaOf first buf ps a metaData) (hlimit : limit ≤ first + 12)
    {buffer : Option (Nat → UInt8)} (p : SecureParam)
    (happ : appendWord a buffer first limit p.data = some a') :
    first + ps.length < limit ∧ ∃ b, (if ps = [] then buffer else buf) = some b ∧
      a' = ⟨some (slots b (ps ++ [p])), 4 * (ps.length + 1), first + ps.length + 1⟩ := by
  have hk : otz1kSize = 1024 := rfl
  unfold SierraTee.appendWord at happ
  by_cases hps : ps = []
  · have haddr : a.addr.isNone := by
      rw [h.addr, if_pos hps]
      rfl
    subst hps
    rw [if_pos haddr] at happ
    rw [if_pos rfl]
    cases buffer with
    | none => cases happ
    | some b =>
      dsimp only at happ
      split at happ
      next hfit =>
        have hst := store_slots b [] p (by rw [List.length_nil]; omega)
        rw [slots_nil] at hst
        refine ⟨by simpa using hfit.2, b, rfl, ?_⟩
        rw [← Option.some.inj happ, ← hst]
        rfl
      next => cases happ
  · have hsome := h.buffer hps
    obtain ⟨b, rfl⟩ := Option.isSome_iff_exists.mp hsome
    have haddr : a.addr = some (slots b ps) := by
      rw [h.addr, if_neg hps]
      rfl
    have hnone : ¬ a.addr.isNone := by
      rw [haddr]
      exact Bool.false_ne_true
    rw [if_neg hnone] at happ
    rw [if_neg hps]
    dsimp only at happ
    rw [haddr] at happ
    dsimp only at happ
    rw [h.offset, h.pos hps] at happ
    split at happ
    next hfit =>
      have hst := store_slots b ps p (by omega)
      have h16 : 4 * (4 * ps.length) = 16 * ps.length := by omega
      refine ⟨hfit.2, b, rfl, ?_⟩
      rw [← Option.some.inj happ, h16, hst]
      rfl
    next => cases happ

/-- **A parameter is appended** to an area and gets its entry of the meta table. -/
theorem AreaOf.append (h : AreaOf first buf ps a metaData) (hlimit : limit ≤ first + 12)
    {buffer : Option (Nat → UInt8)} {p : SecureParam}
    (hp : p.type = otzEncUint32 ∨ p.type = otzSecureMemRef)
    (happ : SierraTee.appendWord a buffer first limit p.data = some a') (usr : UInt32) :
    a'.pos - 1 = first + ps.length ∧ first + ps.length < limit ∧
      AreaOf first (if ps = [] then buffer else buf) (ps ++ [p]) a'
        (update metaData (a'.pos - 1) ⟨p.type, p.len, usr⟩) := by
  obtain ⟨hlt, b, hb, rfl⟩ := h.appendWord hlimit p happ
  have hne : ps ++ [p] ≠ [] := List.append_ne_nil_of_right_ne_nil _ (List.cons_ne_nil _ _)
  have hlen : (ps ++ [p]).length = ps.length + 1 := by
    rw [List.length_append, List.length_singleton]
  refine ⟨rfl, hlt, ?_, fun _ => by rw [hb]; rfl, by rw [hlen], fun _ => by rw [hlen]; rfl, ?_, ?_⟩
  · rw [if_neg hne, hb]
    rfl
  · intro k hk
    by_cases heq : k = ps.length
    · subst heq
      rw [Nat.add_sub_cancel, update_self, List.getElem_concat_length rfl]
      exact ⟨rfl, rfl⟩
    · rw [hlen] at hk
      rw [Nat.add_sub_cancel, update_of_ne (by omega),
        List.getElem_append_left (by omega)]
      exact h.entry k (by omega)
  · intro k hk
    by_cases heq : k = ps.length
    · subst heq
      rw [List.getElem_concat_length rfl]
      exact hp
    · rw [hlen] at hk
      rw [List.getElem_append_left (by omega)]
      exact h.type k (by omega)

end areas

/-- the context of an encoder, also before it has one -/
def SecureEncoder.theCtx (s : SecureEncoder) : OtzSecureEncodeCtx := s.ctx.getD zeroCtx

/-- the meta table of an encoder, also before it has one -/
def SecureEncoder.theMeta (s : SecureEncoder) : Nat → OtzcEncodeMeta :=
  s.metaData.getD fun _ => ⟨0, 0, 0⟩

structure EncodedBy (calls : List SecureCall) (s : SecureEncoder) : Prop where
  req : AreaOf 0 (bufferOf .paramIn calls) (paramsOf .paramIn calls) s.theCtx.req s.theMeta
  res : AreaOf otzMaxReqParams (bufferOf .paramOut calls) (paramsOf .paramOut calls) s.theCtx.res
    s.theMeta
  ins : (paramsOf .paramIn calls).length ≤ otzMaxReqParams
  outs : (paramsOf .paramOut calls).length ≤ otzMaxResParams

section calls
variable {t : ParamType} {calls : List SecureCall} {k : SecureCall} {s s' : SecureEncoder}

theorem paramsOf_append : paramsOf t (calls ++ [k]) = paramsOf t calls ++ (k.param t).toList := by
  rw [paramsOf, List.filterMap_append]
  cases h : k.param t with
  | none => simp [paramsOf, h]
  | some p => simp [paramsOf, h]

theorem find_param_none (h : paramsOf t calls = []) :
    (calls.find? fun k => (k.param t).isSome) = none := by
  rw [List.find?_eq_none]
  intro k hk hsome
  obtain ⟨p, hp⟩ := Option.isSome_iff_exists.mp hsome
  have hmem : p ∈ paramsOf t calls := List.mem_filterMap.mpr ⟨k, hk, hp⟩
  rw [h] at hmem
  exact absurd hmem List.not_mem_nil

theorem find_param_some (h : paramsOf t calls ≠ []) :
    ∃ k', (calls.find? fun k => (k.param t).isSome) = some k' := by
  obtain ⟨p, hp⟩ := List.exists_mem_of_ne_nil _ h
  obtain ⟨k, hk, hkp⟩ := List.mem_filterMap.mp hp
  have hsome : (calls.find? fun k => (k.param t).isSome).isSome := by
    rw [List.find?_isSome]
    exact ⟨k, hk, by rw [hkp]; rfl⟩
  exact Option.isSome_iff_exists.mp hsome

theorem bufferOf_append_some {p : SecureParam} (hp : k.param t = some p) :
    bufferOf t (calls ++ [k]) =
      if paramsOf t calls = [] then k.io.buffer else bufferOf t calls := by
  rw [bufferOf, List.find?_append]
  split
  next h =>
    rw [find_param_none h]
    simp [hp]
  next h =>
    obtain ⟨k', hk'⟩ := find_param_some h
    rw [bufferOf, hk']
    rfl

theorem bufferOf_append_none (hp : k.param t = none) :
    bufferOf t (calls ++ [k]) = bufferOf t calls := by
  rw [bufferOf, List.find?_append, bufferOf]
  cases calls.find? fun k => (k.param t).isSome with
  | none => simp [hp]
  | some k' => rfl

theorem getD_of_orElse {α : Type} {o : Option α} {malloc : Bool} {x y : α}
    (h : (o.orElse fun _ => if malloc then some x else none) = some y) : o.getD x = y := by
  cases o with
  | none =>
    dsimp only [Option.orElse] at h
    split at h
    · exact Option.some.inj h
    · cases h
  | some z => exact Option.some.inj h

theorem secureStep_cases (h : secureStep s k = some s') :
    ∃ enc, k.enc = some enc ∧
      (k.encodeType = otzEncUint32 ∨ k.encodeType = otzSecureMemRef) ∧
      ((enc.paramType = .paramIn ∧ ∃ req, appendWord s.theCtx.req k.io.buffer 0 otzMaxReqParams
          enc.data = some req ∧
        s' = ⟨some (update s.theMeta (req.pos - 1)
          ⟨k.encodeType, enc.len, (s.theMeta (req.pos - 1)).usrAddr⟩), some { s.theCtx with req }⟩) ∨
      (enc.paramType = .paramOut ∧ ∃ res, appendWord s.theCtx.res k.io.buffer otzMaxReqParams
          (otzMaxResParams + otzMaxReqParams) enc.data = some res ∧
        s' = ⟨some (update s.theMeta (res.pos - 1)
          ⟨k.encodeType, enc.len, (s.theMeta (res.pos - 1)).usrAddr⟩),
            some { s.theCtx with res }⟩)) := by
  unfold secureStep at h
  cases hr : otzEncodeData s k.io k.enc k.encodeType with
  | error e =>
    rw [hr] at h
    cases h
  | ok s'' =>
    rw [hr] at h
    obtain rfl : s'' = s' := Option.some.inj h
    unfold otzEncodeData at hr
    cases he : k.enc with
    | none =>
      rw [he] at hr
      cases hr
    | some enc =>
      rw [he] at hr
      dsimp only at hr
      split at hr
      · cases hr
      next htype =>
        refine ⟨enc, rfl, by omega, ?_⟩
        split at hr
        · cases hr
        next ctx hctx =>
          split at hr
          · cases hr
          next metaData hmeta =>
            have hc : s.theCtx = ctx := getD_of_orElse hctx
            have hm : s.theMeta = metaData := getD_of_orElse hmeta
            rw [hc, hm]
            split at hr
            next hin =>
              split at hr
              · cases hr
              next req hreq => exact Or.inl ⟨hin, req, hreq, (Except.ok.inj hr).symm⟩
            next hout =>
              split at hr
              · cases hr
              next res hres => exact Or.inr ⟨hout, res, hres, (Except.ok.inj hr).symm⟩
            next => cases hr

theorem encodedBy_nil : EncodedBy [] ⟨none, none⟩ where
  req := AreaOf.nil 0 _
  res := by
    have h := AreaOf.nil otzMaxReqParams (SecureEncoder.theMeta ⟨none, none⟩)
    exact h
  ins := Nat.zero_le _
  outs := Nat.zero_le _

theorem EncodedBy.step (h : EncodedBy calls s) (hstep : secureStep s k = some s') :
    EncodedBy (calls ++ [k]) s' := by
  have hmax : otzMaxReqParams = 12 := rfl
  have hmax' : otzMaxResParams = 4 := rfl
  obtain ⟨enc, henc, htype, ⟨hin, req, happ, rfl⟩ | ⟨hout, res, happ, rfl⟩⟩ :=
    secureStep_cases hstep
  · have hp : k.param .paramIn = some ⟨k.encodeType, enc.data, enc.len⟩ := by
      rw [SecureCall.param, henc]
      exact if_pos hin
    have hq : k.param .paramOut = none := by
      rw [SecureCall.param, henc]
      exact if_neg (by rw [hin]; decide)
    obtain ⟨hpos, hlt, harea⟩ := h.req.append (p := ⟨k.encodeType, enc.data, enc.len⟩)
      (by omega) htype happ (s.theMeta (req.pos - 1)).usrAddr
    have houts : (paramsOf .paramOut (calls ++ [k])) = paramsOf .paramOut calls := by
      rw [paramsOf_append, hq]
      exact List.append_nil _
    have hins : paramsOf .paramIn (calls ++ [k]) =
        paramsOf .paramIn calls ++ [⟨k.encodeType, enc.data, enc.len⟩] := by
      rw [paramsOf_append, hp]
      rfl
    constructor
    · rw [hins, bufferOf_append_some hp]
      exact harea
    · rw [houts, bufferOf_append_none hq]
      refine h.res.congr fun j _ => ?_
      exact update_of_ne (by omega) _ _
    · rw [hins, List.length_append, List.length_singleton]
      omega
    · rw [houts]
      exact h.outs
  · have hp : k.param .paramOut = some ⟨k.encodeType, enc.data, enc.len⟩ := by
      rw [SecureCall.param, henc]
      exact if_pos hout
    have hq : k.param .paramIn = none := by
      rw [SecureCall.param, henc]
      exact if_neg (by rw [hout]; decide)
    obtain ⟨hpos, hlt, harea⟩ := h.res.append (p := ⟨k.encodeType, enc.data, enc.len⟩)
      (by omega) htype happ (s.theMeta (res.pos - 1)).usrAddr
    have hins : (paramsOf .paramIn (calls ++ [k])) = paramsOf .paramIn calls := by
      rw [paramsOf_append, hq]
      exact List.append_nil _
    have houts : paramsOf .paramOut (calls ++ [k]) =
        paramsOf .paramOut calls ++ [⟨k.encodeType, enc.data, enc.len⟩] := by
      rw [paramsOf_append, hp]
      rfl
    have hfew := h.ins
    constructor
    · rw [hins, bufferOf_append_none hq]
      refine h.req.congr fun j hj => ?_
      exact update_of_ne (by omega) _ _
    · rw [houts, bufferOf_append_some hp]
      exact harea
    · rw [hins]
      exact h.ins
    · rw [houts, List.length_append, List.length_singleton]
      omega

theorem encode_run {done : List SecureCall} (h : EncodedBy done s)
    (hrun : run secureStep s calls = some s') : EncodedBy (done ++ calls) s' := by
  induction calls generalizing s done with
  | nil =>
    obtain rfl : s = s' := Option.some.inj hrun
    rw [List.append_nil]
    exact h
  | cons k calls ih =>
    obtain ⟨s₁, hstep, hrun'⟩ := run_cons_some hrun
    have h' := ih (h.step hstep) hrun'
    rw [List.append_assoc] at h'
    exact h'

end calls

/-! ## decoding -/

def valueFound (buf : Nat → UInt8) (ps : List SecureParam) (k : Nat) : UInt32 :=
  match ps[k]? with
  | some p => if p.type = otzEncUint32 then wordFound buf ps k else p.data
  | none => 0

theorem decodeEach_values {decode : Int → Nat → Option Decoded} {size : Nat} {data : Nat → UInt8}
    {first : Nat} {value : Nat → UInt32} {m : Nat}
    (hone : ∀ k < m, ∃ d r, decode (4 * (k : Int)) (first + k) = some d ∧
      d.offset = 4 * ((k + 1 : Nat) : Int) ∧ d.pos = first + (k + 1) ∧
      receive size data d = some r ∧ r.value = value k) (n k : Nat) (h : k + n = m) :
    ∃ rs, decodeEach decode size data n (4 * (k : Int)) (first + k) =
        some (rs, 4 * ((k + n : Nat) : Int), first + (k + n)) ∧
      rs.map Received.value = (List.range' k n).map value := by
  induction n generalizing k with
  | zero => exact ⟨[], rfl, rfl⟩
  | succ n ih =>
    obtain ⟨d, r, hd, hoff, hpos, hr, hval⟩ := hone k (by omega)
    obtain ⟨rs, hrs, hmap⟩ := ih (k + 1) (by omega)
    have e : k + 1 + n = k + (n + 1) := by omega
    rw [e] at hrs
    refine ⟨r :: rs, ?_, ?_⟩
    · rw [decodeEach, hd, Option.bind_some, hr, Option.bind_some, hoff, hpos, hrs]
      rfl
    · rw [List.map_cons, hmap, hval, List.range'_succ, List.map_cons]

section decode
variable {buf : Nat → UInt8} {ps : List SecureParam} {first : Nat}
  {metaData : Nat → OtzcEncodeMeta} {a : EncodeArea} {k : Nat}

theorem decodeData_area (mapToNs : UInt32 → Option UInt32)
    (h : AreaOf first (some buf) ps a metaData) (hk : k < ps.length) (hn : ps.length ≤ 12) :
    ∃ d r, decodeData mapToNs otz1kSize (slots buf ps) metaData (4 * (k : Int)) (first + k) =
        some d ∧ d.offset = 4 * ((k + 1 : Nat) : Int) ∧ d.pos = first + (k + 1) ∧
      receive otz1kSize (slots buf ps) d = some r ∧ r.value = valueFound buf ps k := by
  have he : otz1kSize = 1024 := rfl
  obtain ⟨hentry, hlen⟩ := h.entry k hk
  have hoff : 4 * (k : Int) + 4 = 4 * ((k + 1 : Nat) : Int) := by omega
  unfold decodeData valueFound
  rw [List.getElem?_eq_getElem hk]
  dsimp only
  obtain ht | ht := h.type k hk
  · rw [hentry, if_pos ht, if_pos ht]
    refine ⟨_, .uint32 (wordFound buf ps k) (metaData (first + k)).len, rfl, hoff, rfl, ?_, rfl⟩
    rw [receive_uint32, loadWord_value (by omega)]
    rfl
  · rw [hentry, ht, if_neg (by decide), if_neg (by decide), if_neg (by decide), if_pos rfl,
      if_neg (by decide), loadWord_reference hk (by omega)]
    exact ⟨_, .memRef ps[k].data (metaData (first + k)).len, rfl, hoff, rfl, rfl, rfl⟩

theorem decodeIpiOutData_area (retLen : Nat → UInt32)
    (h : AreaOf first (some buf) ps a metaData) (hk : k < ps.length) (hn : ps.length ≤ 12) :
    ∃ d r, decodeIpiOutData otz1kSize (slots buf ps) metaData retLen (4 * (k : Int)) (first + k) =
        some d ∧ d.offset = 4 * ((k + 1 : Nat) : Int) ∧ d.pos = first + (k + 1) ∧
      receive otz1kSize (slots buf ps) d = some r ∧ r.value = valueFound buf ps k := by
  have he : otz1kSize = 1024 := rfl
  obtain ⟨hentry, hlen⟩ := h.entry k hk
  have hoff : 4 * (k : Int) + 4 = 4 * ((k + 1 : Nat) : Int) := by omega
  unfold decodeIpiOutData valueFound
  rw [List.getElem?_eq_getElem hk]
  dsimp only
  obtain ht | ht := h.type k hk
  · rw [hentry, if_pos ht, if_pos ht]
    refine ⟨_, .uint32 (wordFound buf ps k) (metaData (first + k)).len, rfl, hoff, rfl, ?_, rfl⟩
    rw [receive_uint32, loadWord_value (by omega)]
    rfl
  · rw [hentry, ht, if_neg (by decide), if_pos rfl, if_neg (by decide),
      loadWord_reference hk (by omega)]
    exact ⟨_, .memRef ps[k].data (retLen (first + k)), rfl, hoff, rfl, rfl, rfl⟩

theorem values_eq_iff (buf : Nat → UInt8) (ps : List SecureParam) :
    (List.range' 0 ps.length).map (valueFound buf ps) = ps.map SecureParam.data ↔
      RightPlaces buf ps := by
  have hget (k : Nat) (hk : k < ps.length) : valueFound buf ps k =
      if ps[k].type = otzEncUint32 then wordFound buf ps k else ps[k].data := by
    rw [valueFound, List.getElem?_eq_getElem hk]
  rw [← List.range_eq_range']
  constructor
  · intro h k hk ht
    have h1 : ((List.range ps.length).map (valueFound buf ps))[k]? = some ps[k].data := by
      rw [h, List.getElem?_map, List.getElem?_eq_getElem hk]
      rfl
    rw [List.getElem?_map, List.getElem?_range hk] at h1
    have h2 := Option.some.inj h1
    rw [hget k hk, if_pos ht] at h2
    exact h2
  · intro h
    apply List.ext_getElem
    · rw [List.length_map, List.length_map, List.length_range]
    · intro k h1 h2
      rw [List.length_map] at h2
      rw [List.getElem_map, List.getElem_map, List.getElem_range, hget k h2]
      split
      next ht => exact h k h2 ht
      next => rfl

/-- **Decoding an area** gives the values back exactly if every value is at its place, and ends at
the offset of the encoder. -/
theorem area_roundTrip_iff {b : Option (Nat → UInt8)} {decode : Int → Nat → Option Decoded}
    {data : Nat → UInt8} (h : AreaOf first b ps a metaData)
    (hdata : ∀ buf, a.addr = some buf → data = buf)
    (hone : ∀ buf, b = some buf → data = slots buf ps → ∀ k < ps.length, ∃ d r,
      decode (4 * (k : Int)) (first + k) = some d ∧ d.offset = 4 * ((k + 1 : Nat) : Int) ∧
        d.pos = first + (k + 1) ∧ receive otz1kSize data d = some r ∧
          r.value = valueFound buf ps k) :
    (∃ rs : List Received, ∃ pos,
      decodeEach decode otz1kSize data ps.length 0 first = some (rs, (a.offset : Int), pos) ∧
        rs.map Received.value = ps.map SecureParam.data) ↔
      ∀ buf, b = some buf → RightPlaces buf ps := by
  by_cases hps : ps = []
  · subst hps
    constructor
    · intro _ buf _ k hk
      exact absurd hk (Nat.not_lt_zero k)
    · intro _
      have hoff : a.offset = 0 := h.offset
      exact ⟨[], first, by rw [hoff]; rfl, rfl⟩
  · obtain ⟨buf, rfl⟩ := Option.isSome_iff_exists.mp (h.buffer hps)
    have haddr : data = slots buf ps := by
      refine hdata _ ?_
      rw [h.addr, if_neg hps]
      rfl
    obtain ⟨rs, hrs, hmap⟩ := decodeEach_values (hone buf rfl haddr) ps.length 0 (Nat.zero_add _)
    have hoff : (a.offset : Int) = 4 * ((0 + ps.length : Nat) : Int) := by
      rw [h.offset]
      omega
    rw [← hoff] at hrs
    change decodeEach decode otz1kSize data ps.length 0 first = _ at hrs
    rw [hrs]
    constructor
    · rintro ⟨rs', pos, he, hval⟩ buf' hbuf
      obtain rfl := Option.some.inj hbuf
      obtain ⟨rfl, -⟩ := Prod.mk.inj (Option.some.inj he)
      rw [hmap] at hval
      exact (values_eq_iff buf ps).mp hval
    · intro hright
      exact ⟨rs, _, rfl, hmap.trans ((values_eq_iff buf ps).mpr (hright buf rfl))⟩

end decode

/-- the decoders give the values of one context back, in order, and end at the encoder's offsets -/
def SecureRoundTrip (mapToNs : UInt32 → Option UInt32) (retLen : Nat → UInt32)
    (calls : List SecureCall) (s : SecureEncoder) : Prop :=
  (∃ rs : List Received, ∃ pos, decodeAll mapToNs otz1kSize (s.theCtx.req.addr.getD fun _ => 0)
      s.theMeta (paramsOf .paramIn calls).length 0 0 = some (rs, (s.theCtx.req.offset : Int), pos) ∧
    rs.map Received.value = (paramsOf .paramIn calls).map SecureParam.data) ∧
  (∃ rs : List Received, ∃ pos,
    decodeEach (decodeIpiOutData otz1kSize (s.theCtx.res.addr.getD fun _ => 0) s.theMeta retLen)
      otz1kSize (s.theCtx.res.addr.getD fun _ => 0) (paramsOf .paramOut calls).length 0
      otzMaxReqParams = some (rs, (s.theCtx.res.offset : Int), pos) ∧
    rs.map Received.value = (paramsOf .paramOut calls).map SecureParam.data)

/-- **The round trip** of parameters between secure tasks: for all calls that succeed on one context
the decoders give the values back exactly if every value is at its place. -/
theorem secureRoundTrip_iff (mapToNs : UInt32 → Option UInt32) (retLen : Nat → UInt32)
    (calls : List SecureCall) (s : SecureEncoder)
    (hrun : run secureStep ⟨none, none⟩ calls = some s) :
    SecureRoundTrip mapToNs retLen calls s ↔
      (∀ buf, bufferOf .paramIn calls = some buf → RightPlaces buf (paramsOf .paramIn calls)) ∧
      (∀ buf, bufferOf .paramOut calls = some buf → RightPlaces buf (paramsOf .paramOut calls)) := by
  have h := encode_run encodedBy_nil hrun
  rw [List.nil_append] at h
  have hfew : (paramsOf .paramOut calls).length ≤ 12 := h.outs.trans (by decide)
  unfold SecureRoundTrip
  refine and_congr ?_ ?_
  · rw [decodeAll_eq]
    refine area_roundTrip_iff h.req (fun buf hbuf => by rw [hbuf]; rfl) fun buf hbuf hdata => ?_
    have hreq := h.req
    rw [hbuf] at hreq
    rw [hdata]
    exact fun k hk => decodeData_area mapToNs hreq hk h.ins
  · refine area_roundTrip_iff h.res (fun buf hbuf => by rw [hbuf]; rfl) fun buf hbuf hdata => ?_
    have hres := h.res
    rw [hbuf] at hres
    rw [hdata]
    exact fun k hk => decodeIpiOutData_area retLen hres hk hfew

/-- a value and a reference for the other task and a reference from it, in buffers of zeros -/
def referenceCalls : List SecureCall :=
  [⟨⟨true, true, some fun _ => 0⟩, some ⟨4, 7, .paramIn⟩, otzEncUint32⟩,
    ⟨⟨true, true, none⟩, some ⟨16, 4096, .paramIn⟩, otzSecureMemRef⟩,
    ⟨⟨true, true, some fun _ => 0⟩, some ⟨8, 8192, .paramOut⟩, otzSecureMemRef⟩]

theorem secureRoundTrip_references : ∃ s, run secureStep ⟨none, none⟩ referenceCalls = some s ∧
    SecureRoundTrip (fun _ => none) (fun _ => 0) referenceCalls s := by
  have hrun : (run secureStep ⟨none, none⟩ referenceCalls).isSome = true := by decide +kernel
  obtain ⟨s, hs⟩ := Option.isSome_iff_exists.mp hrun
  refine ⟨s, hs, (secureRoundTrip_iff _ _ referenceCalls s hs).mpr ⟨?_, ?_⟩⟩
  · intro buf hbuf
    obtain rfl : (fun _ => 0) = buf := Option.some.inj hbuf
    decide +kernel
  · intro buf hbuf
    obtain rfl : (fun _ => 0) = buf := Option.some.inj hbuf
    decide +kernel

/-- two values -/
def valueCalls : List SecureCall :=
  [⟨⟨true, true, some fun _ => 0⟩, some ⟨4, 7, .paramIn⟩, otzEncUint32⟩,
    ⟨⟨true, true, none⟩, some ⟨4, 9, .paramIn⟩, otzEncUint32⟩]

/-- the second value is read from a word that was never written -/
theorem second_value_lost : ∃ s, run secureStep ⟨none, none⟩ valueCalls = some s ∧
    ((decodeAll (fun _ => none) otz1kSize (s.theCtx.req.addr.getD fun _ => 0) s.theMeta 2 0 0).map
      fun t => t.1.map Received.value) = some [7, 0] ∧
    ¬ SecureRoundTrip (fun _ => none) (fun _ => 0) valueCalls s := by
  have hrun : ((run secureStep ⟨none, none⟩ valueCalls).bind fun s =>
      (decodeAll (fun _ => none) otz1kSize (s.theCtx.req.addr.getD fun _ => 0) s.theMeta 2 0 0).map
        fun t => t.1.map Received.value) = some [7, 0] := by decide +kernel
  obtain ⟨s, hs, hvalues⟩ := Option.bind_eq_some_iff.mp hrun
  refine ⟨s, hs, hvalues, ?_⟩
  rintro ⟨⟨rs, pos, hrs, hmap⟩, -⟩
  have hparams : (paramsOf .paramIn valueCalls).map SecureParam.data = [7, 9] := by decide
  have hlen : (paramsOf .paramIn valueCalls).length = 2 := by decide
  rw [hlen] at hrs
  rw [hrs, Option.map_some, hmap, hparams] at hvalues
  exact absurd hvalues (by decide)

end SierraTee
