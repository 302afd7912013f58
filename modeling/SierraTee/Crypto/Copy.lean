import SierraTee.Crypto.Bounds
import SierraTee.Crypto.Owned
import SierraTee.Lib.Interleave

/-!
# Copies of crypto operations (`TEE_CopyOperation`)

* `act_face`    what a call does depends on the kind of the operation and its context;
* `copy_right`  the copy behaves like its source if the rest of the contexts is equal.
-/

namespace SierraTee
open Function Interleave Owned

/-- `struct __TEE_OperationHandle`, the pointers as places in the memory; `TEE_AllocateOperation` does
not set the key, and for some algorithms not the context -/
structure Handle where
  algorithm : Algorithm
  operationClass : OperationClass
  mode : Mode
  maxKeySize : Nat
  keySize : Nat
  keyValue : Pointer Nat
  cryptoCtxt : Pointer Nat
  iv : Option Nat
  cryptoCipher : Option Algorithm
  ivLen : Nat
  aadLen : Nat

structure CopyWorld (o : OpensslOutputs) where
  ctxts : Nat → o.Ctx
  keys : Nat → o.Key
  ivs : Nat → List UInt8
  dst : Handle
  src : Handle

/-- contexts and keys as their first four bytes and the rest -/
structure MemoryLayout (o : OpensslOutputs) where
  CtxFront : Type
  CtxRest : Type
  ctx : o.Ctx ≃ CtxFront × CtxRest
  KeyFront : Type
  KeyRest : Type
  key : o.Key ≃ KeyFront × KeyRest

def copyFront {α F R : Type} (e : α ≃ F × R) (dst src : α) : α := e.symm ((e src).1, (e dst).2)

section
variable {o : OpensslOutputs}

/-! ## The copy -/

def Owned.Pointer.target {α : Type} : Pointer α → Option α
  | .assigned a => some a
  | _ => none

inductive CopyOutcome (o : OpensslOutputs) where
  | panicked
  | fault
  | copied (w : CopyWorld o)

namespace CopyWorld
variable (w : CopyWorld o)

def handle : Bool → Handle
  | true => w.dst
  | false => w.src

def load (b : Bool) : Operation o.toOpenssl :=
  let p := w.handle b
  ⟨p.algorithm, p.operationClass, p.mode, p.maxKeySize, p.keySize, p.keyValue.target.map w.keys,
    (p.cryptoCtxt.target.map w.ctxts).getD o.nullCtx, p.iv.map w.ivs, p.cryptoCipher, p.ivLen, p.aadLen⟩

def store (b : Bool) (op : Operation o.toOpenssl) : CopyWorld o :=
  let p := w.handle b
  { w with
    ctxts := match p.cryptoCtxt with
      | .assigned c => update w.ctxts c op.cryptoCtxt
      | _ => w.ctxts
    ivs := match p.iv, op.iv with
      | some i, some v => update w.ivs i v
      | _, _ => w.ivs }

/-- a larger key is not copied -/
def panics : Prop := w.dst.mode ≠ w.src.mode ∨ w.dst.algorithm ≠ w.src.algorithm ∨
  (w.src.keyValue.nonNull ∧ w.src.keySize > w.dst.keySize)

instance : Decidable w.panics := inferInstanceAs (Decidable (_ ∨ _ ∨ _))

def copyKey (L : MemoryLayout o) : CopyOutcome o :=
  if w.src.keyValue.nonNull then
    match w.src.keyValue, w.dst.keyValue with
    | .assigned s, .assigned d =>
      .copied { w with keys := update w.keys d (copyFront L.key (w.keys d) (w.keys s)) }
    | _, _ => .fault
  else .copied w

/-- `TEE_CopyOperation`; a pointer has four bytes, as the first field of the handle has -/
def teeCopyOperation (L : MemoryLayout o) : CopyOutcome o :=
  if w.panics then .panicked
  else
    let w := { w with dst := { w.dst with algorithm := w.src.algorithm } }
    match w.dst.cryptoCtxt, w.src.cryptoCtxt with
    | .assigned d, .assigned s =>
      let c := copyFront L.ctx (w.ctxts d) (w.ctxts s)
      { w with ctxts := update w.ctxts d c }.copyKey L
    | _, _ => .fault

end CopyWorld

/-! ## Update and final calls -/

inductive DataCall where
  | digestUpdate (chunk : List UInt8)
  | digestDoFinal (src : Nat → UInt8) (srcLen : Nat) (hashNull : Bool) (dest : Dest)
  | cipherUpdate (src : Nat → UInt8) (srcLen : Nat) (dest : Dest)
  | cipherDoFinal (src : Nat → UInt8) (srcLen : Nat) (dest : Dest)
  | macUpdate (chunk : List UInt8)
  | macComputeFinal (src : Nat → UInt8) (srcLen : Nat) (dest : Dest)
  | macCompareFinal (message : List UInt8) (mac : Int → UInt8) (macLen : Nat)
  | aeUpdateAad (aad : List UInt8)
  | aeUpdate (src : Nat → UInt8) (srcLen : Nat) (dest : Dest)
  | aeEncryptFinal (src : Nat → UInt8) (srcLen : Nat) (dest : Dest)
  | aeDecryptFinal (src : Nat → UInt8) (srcLen : Nat) (dest : Dest)

abbrev CallResult := TeecResult × Option Dest

def Answer.given (a : Answer o) : CallResult × Operation o.toOpenssl := ((a.result, some a.dest), a.op)

def DataCall.act (op : Operation o.toOpenssl) : DataCall → CallResult × Operation o.toOpenssl
  | .digestUpdate chunk => ((.success, none), teeDigestUpdate op chunk)
  | .digestDoFinal src srcLen hashNull dest => (teeDigestDoFinal op src srcLen dest hashNull).given
  | .cipherUpdate src srcLen dest => (teeCipherUpdateTo op src srcLen dest).given
  | .cipherDoFinal src srcLen dest => (teeCipherDoFinal op src srcLen dest).given
  | .macUpdate chunk => ((.success, none), teeMacUpdate op chunk)
  | .macComputeFinal src srcLen dest => (teeMacComputeFinal op src srcLen dest).given
  | .macCompareFinal message mac macLen =>
    (((teeMacCompareFinal op message mac macLen).result, none),
      (teeMacCompareFinal op message mac macLen).op)
  | .aeUpdateAad aad => ((.success, none), teeAeUpdateAad op aad)
  | .aeUpdate src srcLen dest => (teeAeUpdateTo op src srcLen dest).given
  | .aeEncryptFinal src srcLen dest => (aeFinal op src srcLen dest .encrypt).given
  | .aeDecryptFinal src srcLen dest => (aeFinal op src srcLen dest .decrypt).given

def pairStep (b : Bool) (w : CopyWorld o) (c : DataCall) : CallResult × CopyWorld o :=
  ((c.act (w.load b)).1, w.store b (c.act (w.load b)).2)

/-- unless the copy panics, calls on both handles in any order give what they would give on the
source before the copy, as if they were alone -/
def CopyRight (w : CopyWorld o) : CopyOutcome o → Prop
  | .panicked => True
  | .fault => False
  | .copied w' => ∀ (calls : List (Bool × DataCall)) (b : Bool),
      only b (weave pairStep w' calls)
        = alone (fun op c => c.act op) (w.load false) (only b calls)

/-- the operations have contexts, which are equal behind their first four bytes, and both have keys if
the key of the source is not NULL; and the algorithm has no state but the context -/
structure CopyFits (L : MemoryLayout o) (w : CopyWorld o) (d s : Nat) : Prop where
  dst_ctxt : w.dst.cryptoCtxt = .assigned d
  src_ctxt : w.src.cryptoCtxt = .assigned s
  rest : (L.ctx (w.ctxts d)).2 = (L.ctx (w.ctxts s)).2
  key : w.src.keyValue.nonNull = true →
    ∃ s d, w.src.keyValue = .assigned s ∧ w.dst.keyValue = .assigned d
  operationClass : w.dst.operationClass = w.src.operationClass
  notCts : w.src.algorithm ≠ .aesCts

end

section
variable {o : OpensslOutputs} {op p : Operation o.toOpenssl} {src : Nat → UInt8} {srcLen : Nat}
  {dest : Dest} {w : CopyWorld o} {L : MemoryLayout o} {d s : Nat}

/-! ## What the calls depend on -/

def graft (op p : Operation o.toOpenssl) : Operation o.toOpenssl :=
  { p with
    algorithm := op.algorithm
    operationClass := op.operationClass
    mode := op.mode
    cryptoCtxt := op.cryptoCtxt }

structure OnContext (f : Operation o.toOpenssl → CallResult × Operation o.toOpenssl)
    (op p : Operation o.toOpenssl) : Prop where
  graft_eq : f (graft op p) = ((f op).1, graft (f op).2 p)
  ctxt : ∃ x, (f op).2 = { op with cryptoCtxt := x }

theorem onContext_digestDoFinal (hashNull : Bool) :
    OnContext (fun op => (teeDigestDoFinal op src srcLen dest hashNull).given) op p := by
  constructor
  · unfold teeDigestDoFinal graft
    split_ifs <;> rfl
  · unfold teeDigestDoFinal
    split_ifs <;> exact ⟨_, rfl⟩

theorem onContext_macComputeFinal :
    OnContext (fun op => (teeMacComputeFinal op src srcLen dest).given) op p := by
  have hrun : macRun (graft op p) src srcLen = macRun op src srcLen := rfl
  constructor
  · show (teeMacComputeFinal (graft op p) src srcLen dest).given = _
    unfold teeMacComputeFinal
    rw [hrun]
    unfold graft
    split_ifs
    · rfl
    · rfl
    · cases (macRun op src srcLen).2 <;> rfl
    · rfl
  · unfold teeMacComputeFinal
    split_ifs
    · exact ⟨_, rfl⟩
    · exact ⟨_, rfl⟩
    · cases (macRun op src srcLen).2 <;> exact ⟨_, rfl⟩
    · exact ⟨_, rfl⟩

theorem onContext_macCompareFinal (message : List UInt8) (mac : Int → UInt8) (macLen : Nat) :
    OnContext (fun op => (((teeMacCompareFinal op message mac macLen).result, none),
      (teeMacCompareFinal op message mac macLen).op)) op p := by
  have hlast : macLast (graft op p) message = macLast op message := rfl
  have hcompare (op p : Operation o.toOpenssl) (r : Option (List UInt8)) :
      (compareMac (graft op p) r mac macLen).result = (compareMac op r mac macLen).result ∧
      (compareMac (graft op p) r mac macLen).op = graft op p ∧
      (compareMac op r mac macLen).op = op := by
    unfold compareMac
    cases r with
    | none => exact ⟨rfl, rfl, rfl⟩
    | some tag =>
      dsimp only
      split_ifs <;> exact ⟨rfl, rfl, rfl⟩
  have hclass : (graft op p).operationClass = op.operationClass := rfl
  have halg : (graft op p).algorithm = op.algorithm := rfl
  constructor
  · show (((teeMacCompareFinal (graft op p) message mac macLen).result, none),
      (teeMacCompareFinal (graft op p) message mac macLen).op) = _
    unfold teeMacCompareFinal
    dsimp only
    rw [hlast, hclass, halg]
    split_ifs
    · rfl
    · rfl
    · obtain ⟨h1, h2, h3⟩ := hcompare
        { op with cryptoCtxt := (o.hmacFinal (macLast op message).1).1 } p
        (o.hmacFinal (macLast op message).1).2
      exact Prod.ext (Prod.ext h1 rfl) (h2.trans (congrArg (graft · p) h3).symm)
    · rfl
  · unfold teeMacCompareFinal
    dsimp only
    split_ifs
    · exact ⟨_, rfl⟩
    · exact ⟨_, rfl⟩
    · exact ⟨_, (hcompare _ op _).2.2⟩
    · exact ⟨_, rfl⟩

theorem onContext_cipherUpdate (h : op.algorithm ≠ .aesCts) :
    OnContext (fun op => (teeCipherUpdateTo op src srcLen dest).given) op p := by
  constructor
  · show (teeCipherUpdateTo (graft op p) src srcLen dest).given = _
    unfold teeCipherUpdateTo graft
    split_ifs <;> rfl
  · unfold teeCipherUpdateTo
    split_ifs <;> exact ⟨_, rfl⟩

theorem onContext_cipherDoFinal (h : op.algorithm ≠ .aesCts) :
    OnContext (fun op => (teeCipherDoFinal op src srcLen dest).given) op p := by
  have hflag : (evpWrite (graft op p) src srcLen dest).2 = (evpWrite op src srcLen dest).2 := rfl
  constructor
  · show (teeCipherDoFinal (graft op p) src srcLen dest).given = _
    unfold teeCipherDoFinal
    dsimp only
    rw [hflag]
    unfold graft
    simp only [h, false_and, if_false]
    split_ifs <;> rfl
  · unfold teeCipherDoFinal
    simp only [h, false_and, if_false]
    split_ifs <;> exact ⟨_, rfl⟩

theorem onContext_aeWrite (m : Mode) (n : Nat) :
    OnContext (fun op => (aeWrite op src dest m n).given) op p := by
  have hout : aeOut (graft op p) m (readBytes src n) = aeOut op m (readBytes src n) := rfl
  constructor
  · show (aeWrite (graft op p) src dest m n).given = _
    unfold aeWrite
    rw [hout]
    cases aeOut op m (readBytes src n) <;> rfl
  · unfold aeWrite
    cases aeOut op m (readBytes src n) <;> exact ⟨_, rfl⟩

theorem onContext_aeUpdate : OnContext (fun op => (teeAeUpdateTo op src srcLen dest).given) op p := by
  have hwrite : OnContext (fun q => (aeWrite q src dest op.mode dest.len).given) op p :=
    onContext_aeWrite _ _
  constructor
  · show (teeAeUpdateTo (graft op p) src srcLen dest).given = _
    unfold teeAeUpdateTo
    have h1 := hwrite.graft_eq
    have hmode : (graft op p).mode = op.mode := rfl
    have hclass : (graft op p).operationClass = op.operationClass := rfl
    rw [hmode, hclass]
    split_ifs
    · rfl
    · rfl
    · exact h1
    · rfl
  · unfold teeAeUpdateTo
    split_ifs
    · exact ⟨_, rfl⟩
    · exact ⟨_, rfl⟩
    · exact hwrite.ctxt
    · exact ⟨_, rfl⟩

theorem onContext_aeFinal (m : Mode) :
    OnContext (fun op => (aeFinal op src srcLen dest m).given) op p := by
  have hwrite : OnContext (fun q => (aeWrite q src dest m dest.len).given) op p :=
    onContext_aeWrite _ _
  constructor
  · show (aeFinal (graft op p) src srcLen dest m).given = _
    unfold aeFinal
    have h1 := hwrite.graft_eq
    have hclass : (graft op p).operationClass = op.operationClass := rfl
    rw [hclass]
    split_ifs
    · rfl
    · rfl
    · rfl
    · exact h1
  · unfold aeFinal
    split_ifs
    · exact ⟨_, rfl⟩
    · exact ⟨_, rfl⟩
    · exact ⟨_, rfl⟩
    · exact hwrite.ctxt

theorem onContext_act (h : op.algorithm ≠ .aesCts) (c : DataCall) :
    OnContext (fun op => c.act op) op p := by
  cases c with
  | digestUpdate chunk =>
    constructor
    · show (_, teeDigestUpdate (graft op p) chunk) = (_, graft (teeDigestUpdate op chunk) p)
      unfold teeDigestUpdate graft
      split_ifs <;> rfl
    · show ∃ x, teeDigestUpdate op chunk = _
      unfold teeDigestUpdate
      split_ifs <;> exact ⟨_, rfl⟩
  | digestDoFinal src srcLen hashNull dest => exact onContext_digestDoFinal hashNull
  | cipherUpdate src srcLen dest => exact onContext_cipherUpdate h
  | cipherDoFinal src srcLen dest => exact onContext_cipherDoFinal h
  | macUpdate chunk =>
    constructor
    · show (_, teeMacUpdate (graft op p) chunk) = (_, graft (teeMacUpdate op chunk) p)
      unfold teeMacUpdate graft
      split_ifs <;> rfl
    · show ∃ x, teeMacUpdate op chunk = _
      unfold teeMacUpdate
      split_ifs <;> exact ⟨_, rfl⟩
  | macComputeFinal src srcLen dest => exact onContext_macComputeFinal
  | macCompareFinal message mac macLen => exact onContext_macCompareFinal message mac macLen
  | aeUpdateAad aad =>
    have halg : (graft op p).algorithm = op.algorithm := rfl
    have hclass : (graft op p).operationClass = op.operationClass := rfl
    constructor
    · show (_, teeAeUpdateAad (graft op p) aad) = (_, graft (teeAeUpdateAad op aad) p)
      unfold teeAeUpdateAad
      rw [hclass, halg]
      split_ifs
      · rfl
      · cases op.algorithm <;> rfl
    · show ∃ x, teeAeUpdateAad op aad = _
      unfold teeAeUpdateAad
      split_ifs
      · exact ⟨_, rfl⟩
      · split <;> exact ⟨_, rfl⟩
  | aeUpdate src srcLen dest => exact onContext_aeUpdate
  | aeEncryptFinal src srcLen dest => exact onContext_aeFinal .encrypt
  | aeDecryptFinal src srcLen dest => exact onContext_aeFinal .decrypt

/-! ## Two handles -/

def face (op : Operation o.toOpenssl) : Operation o.toOpenssl :=
  graft op ⟨.md5, .other, .digest, 0, 0, none, o.nullCtx, none, none, 0, 0⟩

theorem act_face (h : op.algorithm ≠ .aesCts) (c : DataCall) :
    c.act (face op) = ((c.act op).1, face (c.act op).2) :=
  (onContext_act h c).graft_eq

theorem alone_face (h : op.algorithm ≠ .aesCts) (cs : List DataCall) :
    alone (fun op c => c.act op) (face op) cs = alone (fun op c => c.act op) op cs := by
  induction cs generalizing op with
  | nil => rfl
  | cons c cs ih =>
    obtain ⟨x, hx⟩ := (onContext_act (p := op) h c).ctxt
    have hx' : (c.act op).2 = { op with cryptoCtxt := x } := hx
    have hrest : alone (fun op c => c.act op) (face (c.act op).2) cs
        = alone (fun op c => c.act op) (c.act op).2 cs := ih (by rw [hx']; exact h)
    show (c.act (face op)).1 :: alone _ (c.act (face op)).2 cs = _ :: alone _ (c.act op).2 cs
    rw [act_face h, hrest]

structure ContextsApart (w : CopyWorld o) (d s : Nat) : Prop where
  dst_ctxt : w.dst.cryptoCtxt = .assigned d
  src_ctxt : w.src.cryptoCtxt = .assigned s
  ne : d ≠ s
  dst_alg : w.dst.algorithm ≠ .aesCts
  src_alg : w.src.algorithm ≠ .aesCts

def faceOf (p : Handle) (x : o.Ctx) : Operation o.toOpenssl :=
  ⟨p.algorithm, p.operationClass, p.mode, 0, 0, none, x, none, none, 0, 0⟩

theorem face_load {b : Bool} {c : Nat} (h : (w.handle b).cryptoCtxt = .assigned c) :
    face (w.load b) = faceOf (w.handle b) (w.ctxts c) := by
  unfold face graft CopyWorld.load faceOf
  simp only [h, Pointer.target, Option.map_some, Option.getD_some]

theorem store_handle (b b' : Bool) (q : Operation o.toOpenssl) :
    (w.store b q).handle b' = w.handle b' := by
  cases b' <;> rfl

theorem store_ctxts {b : Bool} {c : Nat} (h : (w.handle b).cryptoCtxt = .assigned c)
    (q : Operation o.toOpenssl) :
    (w.store b q).ctxts = update w.ctxts c q.cryptoCtxt := by
  simp only [CopyWorld.store, h]

theorem ContextsApart.places (hw : ContextsApart w d s) (b : Bool) :
    ∃ c c', (w.handle b).cryptoCtxt = .assigned c ∧
    (w.handle (!b)).cryptoCtxt = .assigned c' ∧ c' ≠ c ∧ (w.load b).algorithm ≠ .aesCts := by
  cases b with
  | true => exact ⟨d, s, hw.dst_ctxt, hw.src_ctxt, hw.ne.symm, hw.dst_alg⟩
  | false => exact ⟨s, d, hw.src_ctxt, hw.dst_ctxt, hw.ne, hw.src_alg⟩

theorem pairStep_ownViews : OwnViews pairStep (fun op c => c.act op)
    (fun b w => face (CopyWorld.load (o := o) w b)) (fun w => ContextsApart w d s) where
  result := by
    intro b w c hw
    obtain ⟨-, -, -, -, -, h⟩ := hw.places b
    rw [act_face h]
    rfl
  own := by
    intro b w call hw
    obtain ⟨c, -, hc, -, -, h⟩ := hw.places b
    obtain ⟨x, hx⟩ := (onContext_act (p := w.load b) h call).ctxt
    have hx' : (call.act (w.load b)).2 = { w.load b with cryptoCtxt := x } := hx
    rw [act_face h]
    show face ((w.store b (call.act (w.load b)).2).load b) = face (call.act (w.load b)).2
    rw [face_load (by rw [store_handle]; exact hc), store_handle, store_ctxts hc,
      update_self, hx']
    rfl
  other := by
    intro b w call hw
    obtain ⟨c, c', hc, hc', hne, -⟩ := hw.places b
    show face ((w.store b (call.act (w.load b)).2).load (!b)) = _
    rw [face_load (by rw [store_handle]; exact hc'), store_handle, store_ctxts hc,
      update_of_ne hne, face_load hc']
  ok := fun b w call hw => { hw with }

theorem copyFront_eq {α F R : Type} (e : α ≃ F × R) {x y : α} (h : (e x).2 = (e y).2) :
    copyFront e x y = y := by
  unfold copyFront
  rw [h]
  exact e.symm_apply_apply y

theorem teeCopyOperation_copied (hp : ¬ w.panics) (h : CopyFits L w d s) :
    ∃ w', w.teeCopyOperation L = .copied w' ∧ w'.src = w.src ∧ w'.dst = w.dst ∧
      w'.ctxts = update w.ctxts d (w.ctxts s) := by
  have halg : w.dst.algorithm = w.src.algorithm := by
    by_contra hne
    exact hp (Or.inr (Or.inl hne))
  have hdst : { w.dst with algorithm := w.src.algorithm } = w.dst := by rw [← halg]
  unfold CopyWorld.teeCopyOperation
  rw [if_neg hp]
  dsimp only
  rw [hdst]
  split
  next d' s' hd hs =>
    obtain rfl : d' = d := Pointer.assigned.inj (hd.symm.trans h.dst_ctxt)
    obtain rfl : s' = s := Pointer.assigned.inj (hs.symm.trans h.src_ctxt)
    rw [copyFront_eq L.ctx h.rest]
    unfold CopyWorld.copyKey
    dsimp only
    split_ifs with hkey
    · obtain ⟨k, k', hk, hk'⟩ := h.key hkey
      rw [hk, hk']
      exact ⟨_, rfl, rfl, rfl, rfl⟩
    · exact ⟨_, rfl, rfl, rfl, rfl⟩
  next hno => exact absurd h.src_ctxt (hno d s h.dst_ctxt)

/-- a copy that panics or that has nothing to add behind the first four bytes -/
theorem copy_right (hne : d ≠ s) (h : w.panics ∨ CopyFits L w d s) :
    CopyRight w (w.teeCopyOperation L) := by
  by_cases hp : w.panics
  · unfold CopyWorld.teeCopyOperation
    rw [if_pos hp]
    trivial
  have hfit := h.resolve_left hp
  obtain ⟨w', hcopy, hsrc, hdst, hctxts⟩ := teeCopyOperation_copied hp hfit
  have hkind : w.dst.algorithm = w.src.algorithm ∧ w.dst.mode = w.src.mode := by
    constructor
    · by_contra h1
      exact hp (Or.inr (Or.inl h1))
    · by_contra h1
      exact hp (Or.inl h1)
  have hapart : ContextsApart w' d s := by
    constructor
    · rw [hdst]
      exact hfit.dst_ctxt
    · rw [hsrc]
      exact hfit.src_ctxt
    · exact hne
    · rw [hdst, hkind.1]
      exact hfit.notCts
    · rw [hsrc]
      exact hfit.notCts
  have hview (b : Bool) : face (w'.load b) = face (w.load false) := by
    have hs : face (w.load false) = faceOf w.src (w.ctxts s) := face_load hfit.src_ctxt
    cases b with
    | true =>
      have hd : face (w'.load true) = faceOf w'.dst (w'.ctxts d) := face_load hapart.dst_ctxt
      rw [hd, hs, hctxts, update_self, hdst]
      unfold faceOf
      rw [hkind.1, hkind.2, hfit.operationClass]
    | false =>
      have hd : face (w'.load false) = faceOf w'.src (w'.ctxts s) := face_load hapart.src_ctxt
      rw [hd, hs, hctxts, update_of_ne hne.symm, hsrc]
  rw [hcopy]
  intro calls b
  rw [weave_alone pairStep_ownViews b w' hapart calls, hview b]
  exact alone_face hfit.notCts _

end

/-! ## MD5 -/

def md5Empty : List UInt8 :=
  [0xd4, 0x1d, 0x8c, 0xd9, 0x8f, 0x00, 0xb2, 0x04, 0xe9, 0x80, 0x09, 0x98, 0xec, 0xf8, 0x42, 0x7e]

def md5Letter : List UInt8 :=
  [0x0c, 0xc1, 0x75, 0xb9, 0xc0, 0xf1, 0xb6, 0xa8, 0x31, 0xc3, 0x99, 0xe2, 0x69, 0x77, 0x26, 0x61]

/-- the context stands for the message so far -/
def md5Openssl : OpensslOutputs :=
  { ecbOpenssl with
    digestFinal := fun _ (c : List UInt8) =>
      (c, pointTo (if c = [] then md5Empty else if c = [0x61] then md5Letter else c)) }

/-- the first word of a context is the same for all messages below 64 bytes -/
def md5Layout : MemoryLayout md5Openssl where
  CtxFront := Unit
  CtxRest := List UInt8
  ctx := (Equiv.punitProd (List UInt8)).symm
  KeyFront := Unit
  KeyRest := List UInt8
  key := (Equiv.punitProd (List UInt8)).symm

/-- a handle for MD5 with its context at `c`; the key is not set, and its word happens to be NULL -/
def md5Handle (c : Nat) : Handle :=
  ⟨.md5, .digest, .digest, 0, 0, .unset false, .assigned c, none, none, 0, 0⟩

/-- the source has got the letter, and the destination the message `m` -/
def md5World (m : List UInt8) : CopyWorld md5Openssl where
  ctxts := fun c => if c = 1 then m else [0x61]
  keys := fun _ => ([] : List UInt8)
  ivs := fun _ => []
  dst := md5Handle 1
  src := md5Handle 2

theorem copy_right_letter : CopyRight (md5World [0x61]) ((md5World [0x61]).teeCopyOperation md5Layout) :=
  copy_right (d := 1) (s := 2) (by decide)
    (Or.inr ⟨rfl, rfl, rfl, fun h => Bool.noConfusion h, rfl, by decide⟩)

/-- a new destination stays new: its digest is not that of the letter -/
theorem copy_wrong_new : ¬ (md5World []).panics ∧
    ¬ CopyRight (md5World []) ((md5World []).teeCopyOperation md5Layout) := by
  refine ⟨by decide, fun h => ?_⟩
  have h1 := h [(true, .digestDoFinal (fun _ => 0) 0 false freshDest)] true
  have h2 := congrArg (fun l => l.map fun r => r.2.map fun d => d.bytes 0) h1
  have h3 : [some (0xd4 : UInt8)] = [some 0x0c] := h2
  exact absurd h3 (by decide)

end SierraTee
