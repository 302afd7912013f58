import SierraTee.Params.SecureEncode

/-!
# The blocks behind the encoder of the secure side (`task_control.c`)

`otz_encode_data` once more, with the blocks that it allocates and frees: a block is the number of
its allocation.

* `keepsAll_iff`          the calls of a run that leave no dangling pointer;
* `encodeBlocks_refines`  accepted calls leave the parameters of `otzEncodeData` in the blocks.
-/

namespace SierraTee.EncodeBlocks
open SierraTee Function Bytes Runs

/-! ## The code -/

structure AreaCell where
  addr : Option Nat
  offset : Nat
  pos : Nat

structure CtxCell where
  req : AreaCell
  res : AreaCell

def zeroCell : CtxCell := ⟨⟨none, 0, 0⟩, ⟨none, 0, 0⟩⟩

/-- the blocks and `*pmeta_data`, `*penc_context` -/
structure EncodeHeap where
  /-- the number of the next block -/
  next : Nat
  /-- the blocks that were passed to `sw_free`, in order -/
  freed : List Nat
  ctx : Nat → CtxCell
  metaData : Nat → Nat → OtzcEncodeMeta
  buffer : Nat → Nat → UInt8
  pMetaData : Option Nat
  pEncContext : Option Nat

/-- the pointers of `ipc_api`, before its first call -/
def noBlocks : EncodeHeap := ⟨0, [], fun _ => zeroCell, fun _ _ => ⟨0, 0, 0⟩, fun _ _ => 0, none, none⟩

namespace EncodeHeap
variable (s : EncodeHeap)

/-- a pointer is freed if it is not `NULL` -/
def swFree (p : Option Nat) : EncodeHeap := { s with freed := s.freed ++ p.toList }

def setCtx (c : Nat) (x : CtxCell) : EncodeHeap := { s with ctx := update s.ctx c x }

def setMetaData (m : Nat) (x : Nat → OtzcEncodeMeta) : EncodeHeap :=
  { s with metaData := update s.metaData m x }

def setBuffer (b : Nat) (x : Nat → UInt8) : EncodeHeap :=
  { s with buffer := update s.buffer b x }

/-- a new block -/
def swMalloc : EncodeHeap := { s with next := s.next + 1 }

/-- behind `ret_free_mem`, which is also the body of `otz_release_data` -/
def retFreeMem (encContext metaData : Option Nat) : EncodeHeap :=
  (match encContext with
    | some c =>
      let s := (s.swFree (s.ctx c).req.addr).setCtx c
        { s.ctx c with req := { (s.ctx c).req with addr := none } }
      let s := (s.swFree (s.ctx c).res.addr).setCtx c
        { s.ctx c with res := { (s.ctx c).res with addr := none } }
      s.swFree (some c)
    | none => s).swFree metaData

def retFunc (encContext metaData : Option Nat) : EncodeHeap :=
  { s with
    pMetaData := s.pMetaData.or metaData
    pEncContext := s.pEncContext.or encContext }

def needContext (malloc : Bool) : Option (EncodeHeap × Nat) :=
  match s.pEncContext with
  | some c => some (s, c)
  | none => if malloc then some (s.swMalloc.setCtx s.next zeroCell, s.next) else none

def needMetaData (malloc : Bool) : Option (EncodeHeap × Nat) :=
  match s.pMetaData with
  | some m => some (s, m)
  | none =>
    if malloc then some (s.swMalloc.setMetaData s.next fun _ => ⟨0, 0, 0⟩, s.next) else none

def needBuffer (malloc : Option (Nat → UInt8)) (first : Nat) (a : AreaCell) :
    Option (EncodeHeap × AreaCell × Nat) :=
  match a.addr with
  | some b => some (s, a, b)
  | none => malloc.map fun content =>
    (s.swMalloc.setBuffer s.next content, ⟨some s.next, 0, first⟩, s.next)

end EncodeHeap

/-- a word is appended to the area `a` of a context; the flag says that it was -/
def appendBlock (s : EncodeHeap) (malloc : Option (Nat → UInt8)) (a : AreaCell) (first limit : Nat)
    (data : UInt32) : EncodeHeap × AreaCell × Bool :=
  match s.needBuffer malloc first a with
  | none => (s, a, false)
  | some (s, a, b) =>
    if a.offset + 4 ≤ otz1kSize ∧ a.pos < limit then
      (s.setBuffer b (store otz1kSize (s.buffer b) (4 * a.offset) (wordBytes data)),
        ⟨a.addr, a.offset + 4, a.pos + 1⟩, true)
    else (s, a, false)

def finish (s : EncodeHeap) (c m : Nat) (ok : Bool) (pos : Nat) (encodeType : Nat) (len : UInt32) :
    EncodeHeap × Bool :=
  if ok then
    ((s.setMetaData m (update (s.metaData m) (pos - 1)
      ⟨encodeType, len, (s.metaData m (pos - 1)).usrAddr⟩)).retFunc (some c) (some m), true)
  else ((s.retFreeMem (some c) (some m)).retFunc (some c) (some m), false)

/-- `otz_encode_data`, with the flag that it returns `SW_OK` -/
def encodeBlocks (s : EncodeHeap) (io : EncodeMalloc) (enc : Option OtzSecureEncodeCmd)
    (encodeType : Nat) : EncodeHeap × Bool :=
  match enc with
  | none => (s, false)
  | some enc =>
    if encodeType ≠ otzEncUint32 ∧ encodeType ≠ otzSecureMemRef then (s, false)
    else
      match s.needContext io.ctx with
      | none => ((s.retFreeMem none s.pMetaData).retFunc none s.pMetaData, false)
      | some (s1, c) =>
        match s1.needMetaData io.metaData with
        | none => ((s1.retFreeMem (some c) none).retFunc (some c) none, false)
        | some (s2, m) =>
          match enc.paramType with
          | .paramIn =>
            let r := appendBlock s2 io.buffer (s2.ctx c).req 0 otzMaxReqParams enc.data
            finish (r.1.setCtx c { r.1.ctx c with req := r.2.1 }) c m r.2.2 r.2.1.pos encodeType enc.len
          | .paramOut =>
            let r := appendBlock s2 io.buffer (s2.ctx c).res otzMaxReqParams
              (otzMaxResParams + otzMaxReqParams) enc.data
            finish (r.1.setCtx c { r.1.ctx c with res := r.2.1 }) c m r.2.2 r.2.1.pos encodeType enc.len
          | .other => (s2.retFunc (some c) (some m), false)

/-- `otz_release_data` of the two pointers -/
def otzReleaseData (s : EncodeHeap) : EncodeHeap := s.retFreeMem s.pEncContext s.pMetaData

def encodeStep (s : EncodeHeap) (k : SecureCall) : EncodeHeap := (encodeBlocks s k.io k.enc k.encodeType).1

/-! ## What is asked of it -/

def EncodeHeap.refsOf (s : EncodeHeap) (encContext metaData : Option Nat) : List Nat :=
  (encContext.elim [] fun c => (s.ctx c).req.addr.toList ++ (s.ctx c).res.addr.toList ++ [c]) ++
    metaData.toList

def EncodeHeap.refs (s : EncodeHeap) : List Nat := s.refsOf s.pEncContext s.pMetaData

/-- a call frees nothing that is referred to behind it, so that a release frees every block once -/
structure Keeps (s : EncodeHeap) (k : SecureCall) : Prop where
  frees : ∃ l, (encodeStep s k).freed = s.freed ++ l ∧ ∀ b ∈ l, b ∉ (encodeStep s k).refs
  release : (otzReleaseData (encodeStep s k)).freed.Perm (List.range (encodeStep s k).next)

/-- every call of a run does -/
def KeepsAll : EncodeHeap → List SecureCall → Prop
  | _, [] => True
  | s, k :: calls => Keeps s k ∧ KeepsAll (encodeStep s k) calls

def AreaFits (a : AreaCell) (malloc : Option (Nat → UInt8)) (limit : Nat) : Prop :=
  match a.addr with
  | some _ => a.offset + 4 ≤ otz1kSize ∧ a.pos < limit
  | none => malloc.isSome

def ParamFits (x : CtxCell) (malloc : Option (Nat → UInt8)) : ParamType → Prop
  | .paramIn => AreaFits x.req malloc otzMaxReqParams
  | .paramOut => AreaFits x.res malloc (otzMaxResParams + otzMaxReqParams)
  | .other => True

/-- a call that does not free the blocks of the context: its arguments are refused, there is no
context and no memory for one, or everything it needs is there -/
def NoRelease (s : EncodeHeap) (k : SecureCall) : Prop :=
  match k.enc with
  | none => True
  | some enc =>
    (k.encodeType ≠ otzEncUint32 ∧ k.encodeType ≠ otzSecureMemRef) ∨
      (s.pEncContext = none ∧ k.io.ctx = false) ∨
        ((s.pMetaData = none → k.io.metaData = true) ∧
          ParamFits (s.pEncContext.elim zeroCell s.ctx) k.io.buffer enc.paramType)

structure Owns (s : EncodeHeap) (encContext metaData : Option Nat) : Prop where
  freed : s.freed = []
  refs : (s.refsOf encContext metaData).Perm (List.range s.next)

structure Clean (s : EncodeHeap) : Prop where
  owns : Owns s s.pEncContext s.pMetaData
  both : s.pMetaData = none ↔ s.pEncContext = none

section
variable {s : EncodeHeap} {k : SecureCall} {a : AreaCell} {c m : Nat} {p q : Option Nat}
  {calls : List SecureCall}

/-! ## The labels -/

theorem retFreeMem_freed (s : EncodeHeap) (p q : Option Nat) :
    (s.retFreeMem p q).freed = s.freed ++ s.refsOf p q := by
  unfold EncodeHeap.retFreeMem EncodeHeap.refsOf
  cases p with
  | none => rfl
  | some c => simp [EncodeHeap.swFree, EncodeHeap.setCtx]

theorem mem_refsOf (s : EncodeHeap) (c : Nat) (q : Option Nat) : c ∈ s.refsOf (some c) q := by
  unfold EncodeHeap.refsOf
  simp

theorem Clean.release (h : Clean s) : (otzReleaseData s).freed.Perm (List.range s.next) := by
  unfold otzReleaseData
  rw [retFreeMem_freed, h.owns.freed]
  exact h.owns.refs

theorem or_eq (h : p = none ∨ p = q) : p.or q = q := by
  rcases h with h | h
  · rw [h]
    rfl
  · rw [h]
    cases q <;> rfl

theorem retFreeMem_dangles (hp : s.pEncContext = none ∨ s.pEncContext = some c) :
    c ∈ ((s.retFreeMem (some c) q).retFunc (some c) q).freed ∧
      c ∈ ((s.retFreeMem (some c) q).retFunc (some c) q).refs := by
  constructor
  · show c ∈ (s.retFreeMem (some c) q).freed
    rw [retFreeMem_freed]
    exact List.mem_append_right _ (mem_refsOf s c q)
  · have hptr : ((s.retFreeMem (some c) q).retFunc (some c) q).pEncContext = some c := or_eq hp
    unfold EncodeHeap.refs
    rw [hptr]
    exact mem_refsOf _ c _

theorem retFreeMem_nothing (hp : s.pEncContext = none) (hq : s.pMetaData = none) :
    (s.retFreeMem none s.pMetaData).retFunc none s.pMetaData = s := by
  obtain ⟨next, freed, ctx, metaData, buffer, pMetaData, pEncContext⟩ := s
  cases hp
  cases hq
  simp [EncodeHeap.retFreeMem, EncodeHeap.retFunc, EncodeHeap.swFree]

theorem Owns.retFunc (h : Owns s (some c) (some m)) (hp : s.pEncContext = none ∨ s.pEncContext = some c)
    (hq : s.pMetaData = none ∨ s.pMetaData = some m) : Clean (s.retFunc (some c) (some m)) := by
  have hp' : (s.retFunc (some c) (some m)).pEncContext = some c := or_eq hp
  have hq' : (s.retFunc (some c) (some m)).pMetaData = some m := or_eq hq
  refine ⟨⟨h.freed, ?_⟩, ?_⟩
  · rw [hp', hq']
    exact h.refs
  · rw [hp', hq']
    simp

/-! ## The allocations -/

theorem Clean.needContext (h : Clean s) (malloc : Bool) :
    match s.needContext malloc with
    | none => s.pEncContext = none ∧ malloc = false
    | some (s1, c) => Owns s1 (some c) s.pMetaData ∧
      (s1.pEncContext = none ∨ s1.pEncContext = some c) ∧ s1.pMetaData = s.pMetaData ∧
        s1.ctx c = s.pEncContext.elim zeroCell s.ctx ∧ (s.pEncContext = none → malloc = true) := by
  unfold EncodeHeap.needContext
  cases hp : s.pEncContext with
  | some c =>
    have howns := h.owns
    rw [hp] at howns
    exact ⟨howns, Or.inr hp, rfl, rfl, fun hn => by cases hn⟩
  | none =>
    cases malloc with
    | false => exact ⟨rfl, rfl⟩
    | true =>
      have hq : s.pMetaData = none := h.both.mpr hp
      have hrefs := h.owns.refs
      rw [hp, hq] at hrefs
      refine ⟨⟨h.owns.freed, ?_⟩, Or.inl hp, rfl, update_self .., fun _ => rfl⟩
      rw [hq]
      show ((s.swMalloc.setCtx s.next zeroCell).refsOf (some s.next) none).Perm
        (List.range (s.next + 1))
      have hself : (s.swMalloc.setCtx s.next zeroCell).ctx s.next = zeroCell := update_self ..
      unfold EncodeHeap.refsOf
      rw [List.range_succ, Option.elim_some, hself]
      exact hrefs.append_right [s.next]

theorem Owns.needMetaData (h : Owns s (some c) s.pMetaData) (malloc : Bool) :
    match s.needMetaData malloc with
    | none => s.pMetaData = none ∧ malloc = false
    | some (s2, m) => Owns s2 (some c) (some m) ∧ s2.pEncContext = s.pEncContext ∧
      (s2.pMetaData = none ∨ s2.pMetaData = some m) ∧ s2.ctx = s.ctx ∧
        (s.pMetaData = none → malloc = true) := by
  unfold EncodeHeap.needMetaData
  cases hq : s.pMetaData with
  | some m =>
    rw [hq] at h
    exact ⟨h, rfl, Or.inr hq, rfl, fun hn => by cases hn⟩
  | none =>
    cases malloc with
    | false => exact ⟨rfl, rfl⟩
    | true =>
      have hrefs := h.refs
      rw [hq] at hrefs
      refine ⟨⟨h.freed, ?_⟩, rfl, Or.inl hq, rfl, fun _ => rfl⟩
      show (s.refsOf (some c) (some s.next)).Perm (List.range (s.next + 1))
      rw [List.range_succ]
      unfold EncodeHeap.refsOf at hrefs ⊢
      rw [Option.toList_none, List.append_nil] at hrefs
      exact hrefs.append_right [s.next]

theorem appendBlock_cases (s : EncodeHeap) (malloc : Option (Nat → UInt8)) (a : AreaCell)
    {first limit : Nat} (hlimit : first < limit) (data : UInt32) :
    ∃ s' a' ok, appendBlock s malloc a first limit data = (s', a', ok) ∧
      (ok = true ↔ AreaFits a malloc limit) ∧ s'.ctx = s.ctx ∧ s'.freed = s.freed ∧
        s'.pEncContext = s.pEncContext ∧ s'.pMetaData = s.pMetaData ∧
          (a'.addr = a.addr ∧ s'.next = s.next ∨
            a.addr = none ∧ a'.addr = some s.next ∧ s'.next = s.next + 1) := by
  unfold appendBlock EncodeHeap.needBuffer AreaFits
  cases ha : a.addr with
  | some b =>
    dsimp only
    by_cases hfit : a.offset + 4 ≤ otz1kSize ∧ a.pos < limit
    · rw [if_pos hfit]
      exact ⟨_, _, _, rfl, iff_of_true rfl hfit, rfl, rfl, rfl, rfl, Or.inl ⟨ha, rfl⟩⟩
    · rw [if_neg hfit]
      exact ⟨_, _, _, rfl, iff_of_false Bool.false_ne_true hfit, rfl, rfl, rfl, rfl,
        Or.inl ⟨ha, rfl⟩⟩
  | none =>
    cases malloc with
    | none => exact ⟨_, _, _, rfl, iff_of_false Bool.false_ne_true Bool.false_ne_true, rfl, rfl, rfl,
        rfl, Or.inl ⟨ha, rfl⟩⟩
    | some content =>
      have hfit : 0 + 4 ≤ otz1kSize ∧ first < limit := ⟨by decide, hlimit⟩
      rw [Option.map_some]
      dsimp only
      rw [if_pos hfit]
      exact ⟨_, _, _, rfl, iff_of_true rfl rfl, rfl, rfl, rfl, rfl, Or.inr ⟨rfl, rfl, rfl⟩⟩

theorem perm_insert {l m : List Nat} {n : Nat} (h : (l ++ m).Perm (List.range n)) :
    (l ++ n :: m).Perm (List.range (n + 1)) := by
  rw [List.range_succ]
  exact List.perm_middle.trans ((List.perm_append_singleton n (l ++ m)).symm.trans (h.append_right [n]))

theorem Owns.blocks (h : Owns s (some c) (some m)) :
    ((s.ctx c).req.addr.toList ++ (s.ctx c).res.addr.toList ++ [c] ++ [m]).Perm (List.range s.next) :=
  h.refs

theorem Owns.setCtx (h : Owns s (some c) (some m)) {s' : EncodeHeap} {x : CtxCell}
    (hfreed : s'.freed = s.freed)
    (hx : (x.req.addr.toList ++ x.res.addr.toList ++ [c] ++ [m]).Perm (List.range s'.next)) :
    Owns (s'.setCtx c x) (some c) (some m) := by
  refine ⟨hfreed.trans h.freed, ?_⟩
  show List.Perm _ (List.range s'.next)
  unfold EncodeHeap.refsOf
  rw [Option.elim_some, show (s'.setCtx c x).ctx c = x from update_self ..]
  exact hx

theorem Owns.setReq (h : Owns s (some c) (some m)) {s' : EncodeHeap} {a' : AreaCell}
    (hctx : s'.ctx = s.ctx) (hfreed : s'.freed = s.freed)
    (ha : a'.addr = (s.ctx c).req.addr ∧ s'.next = s.next ∨
      (s.ctx c).req.addr = none ∧ a'.addr = some s.next ∧ s'.next = s.next + 1) :
    Owns (s'.setCtx c { s'.ctx c with req := a' }) (some c) (some m) := by
  have hrefs := h.blocks
  rw [hctx]
  refine h.setCtx hfreed ?_
  rcases ha with ⟨haddr, hnext⟩ | ⟨hnone, haddr, hnext⟩
  · rw [haddr, hnext]
    exact hrefs
  · rw [hnone] at hrefs
    rw [haddr, hnext]
    exact perm_insert (l := []) hrefs

theorem Owns.setRes (h : Owns s (some c) (some m)) {s' : EncodeHeap} {a' : AreaCell}
    (hctx : s'.ctx = s.ctx) (hfreed : s'.freed = s.freed)
    (ha : a'.addr = (s.ctx c).res.addr ∧ s'.next = s.next ∨
      (s.ctx c).res.addr = none ∧ a'.addr = some s.next ∧ s'.next = s.next + 1) :
    Owns (s'.setCtx c { s'.ctx c with res := a' }) (some c) (some m) := by
  have hrefs := h.blocks
  rw [hctx]
  refine h.setCtx hfreed ?_
  rcases ha with ⟨haddr, hnext⟩ | ⟨hnone, haddr, hnext⟩
  · rw [haddr, hnext]
    exact hrefs
  · rw [hnone, Option.toList_none, List.append_nil, List.append_assoc] at hrefs
    rw [haddr, hnext, Option.toList_some, List.append_assoc, List.append_assoc]
    exact perm_insert hrefs

/-! ## One call -/

theorem finish_cases {s : EncodeHeap} {ok : Bool} {pos t : Nat} {len : UInt32}
    (h : ok = true → Owns s (some c) (some m)) (hp : s.pEncContext = none ∨ s.pEncContext = some c)
    (hq : s.pMetaData = none ∨ s.pMetaData = some m) :
    ok = true ∧ Clean (finish s c m ok pos t len).1 ∨
      ok = false ∧ ∃ b, b ∈ (finish s c m ok pos t len).1.freed ∧ b ∈ (finish s c m ok pos t len).1.refs := by
  cases ok with
  | true =>
    left
    refine ⟨rfl, ?_⟩
    have howns := h rfl
    exact Owns.retFunc (s := s.setMetaData m (update (s.metaData m) (pos - 1)
      ⟨t, len, (s.metaData m (pos - 1)).usrAddr⟩)) ⟨howns.freed, howns.refs⟩ hp hq
  | false => exact Or.inr ⟨rfl, c, retFreeMem_dangles hp⟩

theorem encodeStep_cases (h : Clean s) (k : SecureCall) :
    NoRelease s k ∧ Clean (encodeStep s k) ∨
      ¬ NoRelease s k ∧ ∃ b, b ∈ (encodeStep s k).freed ∧ b ∈ (encodeStep s k).refs := by
  unfold encodeStep encodeBlocks NoRelease
  cases k.enc with
  | none => exact Or.inl ⟨trivial, h⟩
  | some enc =>
    dsimp only
    by_cases htype : k.encodeType ≠ otzEncUint32 ∧ k.encodeType ≠ otzSecureMemRef
    · rw [if_pos htype]
      exact Or.inl ⟨Or.inl htype, h⟩
    · rw [if_neg htype, or_iff_right htype]
      have hneed := h.needContext k.io.ctx
      cases hctx : s.needContext k.io.ctx with
      | none =>
        rw [hctx] at hneed
        have hq := h.both.mpr hneed.1
        refine Or.inl ⟨Or.inl hneed, ?_⟩
        dsimp only
        rw [retFreeMem_nothing hneed.1 hq]
        exact h
      | some r =>
        obtain ⟨s1, c⟩ := r
        rw [hctx] at hneed
        obtain ⟨howns, hp, hq, hcell, hmalloc⟩ := hneed
        have hno : ¬ (s.pEncContext = none ∧ k.io.ctx = false) := fun hx =>
          Bool.false_ne_true (hx.2.symm.trans (hmalloc hx.1))
        rw [or_iff_right hno, ← hcell]
        rw [← hq] at howns ⊢
        have htable := howns.needMetaData k.io.metaData
        dsimp only
        cases hmeta : s1.needMetaData k.io.metaData with
        | none =>
          rw [hmeta] at htable
          exact Or.inr ⟨fun hx => Bool.false_ne_true (htable.2.symm.trans (hx.1 htable.1)), c,
            retFreeMem_dangles hp⟩
        | some r =>
          obtain ⟨s2, m⟩ := r
          rw [hmeta] at htable
          obtain ⟨howns2, hp2, hq2, hctx2, hmalloc2⟩ := htable
          rw [← hp2] at hp
          rw [and_iff_right hmalloc2, ← hctx2]
          dsimp only
          cases enc.paramType with
          | other => exact Or.inl ⟨trivial, howns2.retFunc hp hq2⟩
          | paramIn =>
            obtain ⟨s3, a', ok, happ, hok, hctx3, hfreed3, hp3, hq3, haddr⟩ := @appendBlock_cases s2
              k.io.buffer (s2.ctx c).req 0 otzMaxReqParams (by decide) enc.data
            rw [happ]
            rw [← hp3] at hp
            rw [← hq3] at hq2
            rcases @finish_cases c m (s3.setCtx c { s3.ctx c with req := a' }) ok a'.pos k.encodeType
              enc.len (fun _ => howns2.setReq hctx3 hfreed3 haddr) hp hq2 with ⟨ht, hclean⟩ | ⟨hf, hb⟩
            · exact Or.inl ⟨hok.mp ht, hclean⟩
            · exact Or.inr ⟨fun hx => Bool.false_ne_true (hf.symm.trans (hok.mpr hx)), hb⟩
          | paramOut =>
            obtain ⟨s3, a', ok, happ, hok, hctx3, hfreed3, hp3, hq3, haddr⟩ := @appendBlock_cases s2
              k.io.buffer (s2.ctx c).res otzMaxReqParams (otzMaxResParams + otzMaxReqParams)
              (by decide) enc.data
            rw [happ]
            rw [← hp3] at hp
            rw [← hq3] at hq2
            rcases @finish_cases c m (s3.setCtx c { s3.ctx c with res := a' }) ok a'.pos k.encodeType
              enc.len (fun _ => howns2.setRes hctx3 hfreed3 haddr) hp hq2 with ⟨ht, hclean⟩ | ⟨hf, hb⟩
            · exact Or.inl ⟨hok.mp ht, hclean⟩
            · exact Or.inr ⟨fun hx => Bool.false_ne_true (hf.symm.trans (hok.mpr hx)), hb⟩

/-! ## Runs -/

theorem keeps_iff (h : Clean s) (k : SecureCall) : Keeps s k ↔ NoRelease s k := by
  rcases encodeStep_cases h k with ⟨hno, hclean⟩ | ⟨hno, b, hfreed, hrefs⟩
  · refine iff_of_true ⟨⟨[], ?_, fun b hb => by cases hb⟩, hclean.release⟩ hno
    rw [hclean.owns.freed, h.owns.freed]
    rfl
  · refine iff_of_false (fun hk => ?_) hno
    obtain ⟨l, hl, hdangle⟩ := hk.frees
    rw [hl, h.owns.freed, List.nil_append] at hfreed
    exact hdangle b hfreed hrefs

theorem noBlocks_clean : Clean noBlocks := ⟨⟨rfl, List.Perm.refl _⟩, Iff.rfl⟩

theorem Clean.keeps_iff (h : Clean s) (calls : List SecureCall) :
    KeepsAll s calls ↔ Along (fun s k => some (encodeStep s k)) NoRelease s calls := by
  induction calls generalizing s with
  | nil => exact Iff.rfl
  | cons k calls ih =>
    show Keeps s k ∧ KeepsAll (encodeStep s k) calls ↔
      NoRelease s k ∧ Along (fun s k => some (encodeStep s k)) NoRelease (encodeStep s k) calls
    rw [keeps_iff h k]
    rcases encodeStep_cases h k with ⟨hno, hclean⟩ | ⟨hno, -⟩
    · rw [ih hclean]
    · exact iff_of_false (fun hx => hno hx.1) fun hx => hno hx.1

/-- **The calls of a run** leave no dangling pointer exactly if none of them frees the blocks of its
context. -/
theorem keepsAll_iff (calls : List SecureCall) : KeepsAll noBlocks calls ↔
    Along (fun s k => some (encodeStep s k)) NoRelease noBlocks calls :=
  noBlocks_clean.keeps_iff calls

/-- the first call gets a context and no meta table -/
theorem freed_context_kept : ¬ ∀ calls, KeepsAll noBlocks calls := by
  intro h
  obtain ⟨hk, -⟩ := h [⟨⟨true, false, none⟩, some ⟨0, 0, .paramIn⟩, otzEncUint32⟩]
  obtain ⟨l, hl, hdangle⟩ := hk.frees
  have hfreed : [0] = l := hl
  exact hdangle 0 (hfreed ▸ List.mem_singleton_self 0) (by decide)

/-! ## The parameters in the blocks -/

def areaView (s : EncodeHeap) (a : AreaCell) : EncodeArea := ⟨a.addr.map s.buffer, a.offset, a.pos⟩

def ctxView (s : EncodeHeap) (c : Nat) : OtzSecureEncodeCtx :=
  ⟨areaView s (s.ctx c).req, areaView s (s.ctx c).res⟩

/-- what is in the blocks of the two pointers -/
def view (s : EncodeHeap) : SecureEncoder := ⟨s.pMetaData.map s.metaData, s.pEncContext.map (ctxView s)⟩

/-- a call that returns `SW_OK` -/
def blockStep (s : EncodeHeap) (k : SecureCall) : Option EncodeHeap :=
  match encodeBlocks s k.io k.enc k.encodeType with
  | (s', true) => some s'
  | (_, false) => none

theorem areaView_congr {s s' : EncodeHeap} {a : AreaCell}
    (h : ∀ b, a.addr = some b → s'.buffer b = s.buffer b) : areaView s' a = areaView s a := by
  unfold areaView
  cases ha : a.addr with
  | none => rfl
  | some b => rw [Option.map_some, Option.map_some, h b ha]

theorem ctxView_setCtx (s : EncodeHeap) (c : Nat) (x : CtxCell) :
    ctxView (s.setCtx c x) c = ⟨areaView s x.req, areaView s x.res⟩ := by
  have hself : (s.setCtx c x).ctx c = x := update_self ..
  unfold ctxView
  rw [hself]
  rfl

theorem appendBlock_view {s s' : EncodeHeap} {malloc : Option (Nat → UInt8)} {a a' : AreaCell}
    {first limit : Nat} {data : UInt32} {ok : Bool}
    (h : appendBlock s malloc a first limit data = (s', a', ok)) :
    appendWord (areaView s a) malloc first limit data = (if ok then some (areaView s' a') else none) ∧
      (∀ b < s.next, a.addr ≠ some b → s'.buffer b = s.buffer b) ∧ s'.metaData = s.metaData := by
  unfold appendBlock EncodeHeap.needBuffer at h
  unfold appendWord areaView
  cases ha : a.addr with
  | some b =>
    rw [ha] at h
    dsimp only at h ⊢
    rw [Option.map_some, Option.isNone_some, if_neg Bool.false_ne_true]
    dsimp only
    by_cases hfit : a.offset + 4 ≤ otz1kSize ∧ a.pos < limit
    · rw [if_pos hfit] at h ⊢
      cases h
      refine ⟨?_, fun b' _ hne => update_of_ne (fun e => hne (by rw [e])) _ _, rfl⟩
      rw [ha]
      simp [EncodeHeap.setBuffer]
    · rw [if_neg hfit] at h ⊢
      cases h
      exact ⟨rfl, fun _ _ _ => rfl, rfl⟩
  | none =>
    rw [ha] at h
    rw [Option.map_none, Option.isNone_none, if_pos rfl]
    cases malloc with
    | none =>
      cases h
      exact ⟨rfl, fun _ _ _ => rfl, rfl⟩
    | some content =>
      dsimp only [Option.map_some] at h ⊢
      by_cases hfit : 0 + 4 ≤ otz1kSize ∧ first < limit
      · rw [if_pos hfit] at h ⊢
        cases h
        refine ⟨?_, fun b hb _ => ?_, rfl⟩
        · simp [EncodeHeap.setBuffer]
        · show update _ s.next _ b = _
          rw [update_of_ne hb.ne]
          exact update_of_ne hb.ne _ _
      · rw [if_neg hfit] at h ⊢
        cases h
        exact ⟨rfl, fun b hb _ => update_of_ne hb.ne _ _, rfl⟩

theorem Owns.areas (h : Owns s (some c) q) {b : Nat} :
    ((s.ctx c).res.addr = some b → b < s.next ∧ (s.ctx c).req.addr ≠ some b) ∧
      ((s.ctx c).req.addr = some b → b < s.next ∧ (s.ctx c).res.addr ≠ some b) := by
  have hnd : (s.refsOf (some c) q).Nodup := h.refs.nodup_iff.mpr List.nodup_range
  have hmem (x : Nat) (hx : x ∈ s.refsOf (some c) q) : x < s.next :=
    List.mem_range.mp (h.refs.mem_iff.mp hx)
  unfold EncodeHeap.refsOf at hnd hmem
  rw [Option.elim_some] at hnd hmem
  constructor
  all_goals
    intro hb
    rw [hb] at hnd hmem
    refine ⟨hmem b (by simp), fun hr => ?_⟩
    rw [hr] at hnd
    simp at hnd

theorem needContext_view (s : EncodeHeap) (malloc : Bool) :
    match s.needContext malloc with
    | none => ((view s).ctx.orElse fun _ => if malloc then some zeroCtx else none) = none
    | some (s1, c) =>
      ((view s).ctx.orElse fun _ => if malloc then some zeroCtx else none) = some (ctxView s1 c) ∧
        (view s).metaData = s1.pMetaData.map s1.metaData := by
  unfold EncodeHeap.needContext view
  cases s.pEncContext with
  | some c => exact ⟨rfl, rfl⟩
  | none =>
    cases malloc with
    | false => rfl
    | true => exact ⟨congrArg some (ctxView_setCtx s.swMalloc s.next zeroCell).symm, rfl⟩

theorem needMetaData_view (s : EncodeHeap) (malloc : Bool) :
    match s.needMetaData malloc with
    | none => ((s.pMetaData.map s.metaData).orElse fun _ =>
        if malloc then some fun _ => ⟨0, 0, 0⟩ else none) = none
    | some (s2, m) => ((s.pMetaData.map s.metaData).orElse fun _ =>
        if malloc then some fun _ => ⟨0, 0, 0⟩ else none) = some (s2.metaData m) ∧
          s2.buffer = s.buffer := by
  unfold EncodeHeap.needMetaData
  cases s.pMetaData with
  | some m => exact ⟨rfl, rfl⟩
  | none =>
    cases malloc with
    | false => rfl
    | true =>
      refine ⟨?_, rfl⟩
      show some _ = some (update s.metaData s.next _ s.next)
      rw [update_self]

theorem finish_view {s : EncodeHeap} {x : CtxCell} {pos t : Nat} {len : UInt32}
    (hp : s.pEncContext = none ∨ s.pEncContext = some c)
    (hq : s.pMetaData = none ∨ s.pMetaData = some m) :
    view (finish (s.setCtx c x) c m true pos t len).1 =
      ⟨some (update (s.metaData m) (pos - 1) ⟨t, len, (s.metaData m (pos - 1)).usrAddr⟩),
        some ⟨areaView s x.req, areaView s x.res⟩⟩ := by
  have hp' : (finish (s.setCtx c x) c m true pos t len).1.pEncContext = some c := or_eq hp
  have hq' : (finish (s.setCtx c x) c m true pos t len).1.pMetaData = some m := or_eq hq
  have htable : (finish (s.setCtx c x) c m true pos t len).1.metaData m = update
      (s.metaData m) (pos - 1) ⟨t, len, (s.metaData m (pos - 1)).usrAddr⟩ := update_self ..
  unfold view
  rw [hp', hq', Option.map_some, Option.map_some, htable, ← ctxView_setCtx s c x]
  rfl

theorem blockStep_view (h : Clean s) (k : SecureCall) :
    secureStep (view s) k = (blockStep s k).map view ∧ ∀ s', blockStep s k = some s' → s'.freed = [] := by
  unfold secureStep otzEncodeData blockStep encodeBlocks
  have hno {r : Option SecureEncoder} (hr : r = none) : r = (none : Option EncodeHeap).map view ∧
      ∀ s', (none : Option EncodeHeap) = some s' → s'.freed = [] := ⟨hr, fun _ h => nomatch h⟩
  cases henc : k.enc with
  | none => exact hno rfl
  | some enc =>
    dsimp only
    by_cases htype : k.encodeType ≠ otzEncUint32 ∧ k.encodeType ≠ otzSecureMemRef
    · rw [if_pos htype, if_pos htype]
      exact hno rfl
    · rw [if_neg htype, if_neg htype]
      have hneed := h.needContext k.io.ctx
      have hview := needContext_view s k.io.ctx
      cases hctx : s.needContext k.io.ctx with
      | none =>
        rw [hctx] at hview
        rw [hview]
        exact hno rfl
      | some r =>
        obtain ⟨s1, c⟩ := r
        rw [hctx] at hneed hview
        obtain ⟨howns, hp, hq, -, -⟩ := hneed
        rw [← hq] at howns
        have htable := howns.needMetaData k.io.metaData
        have hview1 := needMetaData_view s1 k.io.metaData
        rw [hview.1, hview.2]
        dsimp only
        cases hmeta : s1.needMetaData k.io.metaData with
        | none =>
          rw [hmeta] at hview1
          rw [hview1]
          exact hno rfl
        | some r =>
          obtain ⟨s2, m⟩ := r
          rw [hmeta] at hview1 htable
          obtain ⟨howns2, hp2, hq2, hctx2, -⟩ := htable
          rw [← hp2] at hp
          have hcell : ctxView s1 c = ctxView s2 c := by
            unfold ctxView areaView
            rw [hctx2, hview1.2]
          rw [hview1.1, hcell]
          dsimp only
          cases enc.paramType with
          | other => exact hno rfl
          | paramIn =>
            obtain ⟨s3, a', ok, happ, -, hctx3, hfreed3, hp3, hq3, -⟩ := @appendBlock_cases s2
              k.io.buffer (s2.ctx c).req 0 otzMaxReqParams (by decide) enc.data
            obtain ⟨hword, hother, hmeta3⟩ := appendBlock_view happ
            rw [← hp3] at hp
            rw [← hq3] at hq2
            have hres : areaView s3 (s2.ctx c).res = areaView s2 (s2.ctx c).res :=
              areaView_congr fun b hb => hother b (howns2.areas.1 hb).1 (howns2.areas.1 hb).2
            rw [happ, ctxView, hword]
            cases ok with
            | false => exact hno rfl
            | true =>
              refine ⟨?_, fun s' hs => ?_⟩
              · show _ = some (view (finish (s3.setCtx c { s3.ctx c with req := a' }) c m true a'.pos
                  k.encodeType enc.len).1)
                rw [finish_view hp hq2, hmeta3, hctx3, hres]
                rfl
              · cases hs
                exact hfreed3.trans howns2.freed
          | paramOut =>
            obtain ⟨s3, a', ok, happ, -, hctx3, hfreed3, hp3, hq3, -⟩ := @appendBlock_cases s2
              k.io.buffer (s2.ctx c).res otzMaxReqParams (otzMaxResParams + otzMaxReqParams)
              (by decide) enc.data
            obtain ⟨hword, hother, hmeta3⟩ := appendBlock_view happ
            rw [← hp3] at hp
            rw [← hq3] at hq2
            have hreq : areaView s3 (s2.ctx c).req = areaView s2 (s2.ctx c).req :=
              areaView_congr fun b hb => hother b (howns2.areas.2 hb).1 (howns2.areas.2 hb).2
            rw [happ, ctxView, hword]
            cases ok with
            | false => exact hno rfl
            | true =>
              refine ⟨?_, fun s' hs => ?_⟩
              · show _ = some (view (finish (s3.setCtx c { s3.ctx c with res := a' }) c m true a'.pos
                  k.encodeType enc.len).1)
                rw [finish_view hp hq2, hmeta3, hctx3, hreq]
                rfl
              · cases hs
                exact hfreed3.trans howns2.freed

theorem Clean.blockStep (h : Clean s) {s' : EncodeHeap} (hs : blockStep s k = some s') : Clean s' := by
  have hstep : encodeStep s k = s' := by
    unfold EncodeBlocks.blockStep at hs
    unfold encodeStep
    split at hs
    · cases hs
      rename_i heq
      rw [heq]
    · cases hs
  rcases encodeStep_cases h k with ⟨-, hclean⟩ | ⟨-, b, hfreed, -⟩
  · exact hstep ▸ hclean
  · rw [hstep, (blockStep_view h k).2 s' hs] at hfreed
    cases hfreed

/-- **The parameters.** Over any run of calls the blocks hold what the encoder without blocks makes
of the same calls, and a run is accepted with blocks if and only if it is without. -/
theorem encodeBlocks_refines (calls : List SecureCall) :
    run secureStep ⟨none, none⟩ calls = (run blockStep noBlocks calls).map view := by
  have hrun (s : EncodeHeap) (h : Clean s) :
      run secureStep (view s) calls = (run blockStep s calls).map view := by
    induction calls generalizing s with
    | nil => rfl
    | cons k calls ih =>
      rw [run_cons, run_cons, (blockStep_view h k).1]
      cases hs : EncodeBlocks.blockStep s k with
      | none => rfl
      | some s' => exact ih s' (h.blockStep hs)
  exact hrun noBlocks noBlocks_clean

end

end SierraTee.EncodeBlocks
