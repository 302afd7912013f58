import SierraTee.Crypto.Final

/-!
# Ciphers in chunks

* `streamed_eq`       what is reported for the last chunk is the output of the final call of EVP;
* `cipherStream_iff`  so the outputs are those of one call exactly if the last chunk is empty.
-/

namespace SierraTee
open Streams

def evpStep (o : OpensslOutputs) (m : Mode) (c : o.Ctx) (x : List UInt8) : o.Ctx × List UInt8 :=
  ((o.evpUpdate c m x).1, o.evpUpdateOut c m x)

def evpRun (o : OpensslOutputs) (a : Algorithm) (m : Mode) (key iv : List UInt8) (c : o.Ctx)
    (xs : List (List UInt8)) : o.Ctx × List UInt8 :=
  feed (evpStep o m) (o.evpInit a c m (o.rawKey key) iv) xs

/-- with blocks of `n` bytes and without padding, the updates give the whole blocks of what `T`
makes of the message -/
structure StreamsRight (o : OpensslOutputs) (a : Algorithm) (m : Mode) (key iv : List UInt8)
    (n : Nat) (T : List UInt8 → List UInt8) : Prop where
  block_pos : 0 < n
  updates : ∀ c xs x, (o.evpUpdate (evpRun o a m key iv c xs).1 m x).2 = true
  length : ∀ c xs, (evpRun o a m key iv c xs).2.length = xs.flatten.length / n * n
  output : ∀ c xs, n ∣ xs.flatten.length → (evpRun o a m key iv c xs).2 = T xs.flatten
  final : ∀ c xs, n ∣ xs.flatten.length → (o.evpFinal (evpRun o a m key iv c xs).1 m).2 = (true, [])

def pointTo (x : List UInt8) (i : Nat) : UInt8 := x.getD i 0

/-- a chunk and the last one, each with the buffer for its output; `none` if a call fails -/
def streamed {o : OpensslOutputs} (op : Operation o.toOpenssl) (last : List UInt8 × Dest) :
    List (List UInt8 × Dest) → Option (List UInt8)
  | [] =>
    let a := teeCipherDoFinal op (pointTo last.1) last.1.length last.2
    if a.result = .success then some a.dest.reported else none
  | x :: xs =>
    let a := teeCipherUpdateTo op (pointTo x.1) x.1.length x.2
    if a.result = .success then (streamed a.op last xs).map (a.dest.reported ++ ·) else none

section
variable {o : OpensslOutputs} {a : Algorithm} {m : Mode} {key iv : List UInt8} {n : Nat}
  {T : List UInt8 → List UInt8} {op op1 : Operation o.toOpenssl}

theorem readBytes_pointTo (x : List UInt8) : readBytes (pointTo x) x.length = x := by
  apply List.ext_getElem
  · simp [readBytes]
  · intro i hi hi'
    simp [readBytes, pointTo, hi']

theorem evpRun_concat (c : o.Ctx) (xs : List (List UInt8)) (x : List UInt8) :
    evpRun o a m key iv c (xs ++ [x]) = ((o.evpUpdate (evpRun o a m key iv c xs).1 m x).1,
      (evpRun o a m key iv c xs).2 ++ o.evpUpdateOut (evpRun o a m key iv c xs).1 m x) :=
  feed_concat ..

/-! ## A handle that has been set up -/

/-- a handle for the algorithm that is ready for updates; its context is `c` -/
structure SetUp (a : Algorithm) (m : Mode) (c : o.Ctx) (op : Operation o.toOpenssl) : Prop where
  algorithm : op.algorithm = a
  operationClass : op.operationClass = .cipher
  mode : op.mode = m
  ctxt : op.cryptoCtxt = c

theorem suits_evp (he : a.isEvp = true) (hs : checkValidAlgorithmForMode m a = true) :
    m = .encrypt ∨ m = .decrypt := by
  revert hs
  cases m with
  | encrypt => exact fun _ => Or.inl rfl
  | decrypt => exact fun _ => Or.inr rfl
  | sign | verify | mac | digest | derive =>
    cases a <;> first | exact absurd he (by decide) | exact fun h => absurd h (by decide)

theorem classOf_evp (he : a.isEvp = true) (hm : m = .encrypt ∨ m = .decrypt) (old : OperationClass) :
    classOf m a old = .cipher ∧ a ≠ .aesCts ∧ a ≠ .rsaesPkcs1V15 ∧ a ≠ .rsaNopad := by
  obtain rfl | rfl := hm <;> cases a <;>
    first | exact absurd he (by decide) | exact ⟨rfl, by decide, by decide, by decide⟩

theorem allocate_evp {block : Operation o.toOpenssl} {ctxt : Option o.Ctx}
    {algorithm mode maxKeySize : UInt32} (ha : checkValidAlgorithm algorithm = some a)
    (hmode : checkValidMode mode = some m) (he : a.isEvp = true)
    (hnew : teeAllocateOperation (some block) ctxt algorithm mode maxKeySize
      = (.success, some op)) :
    (m = .encrypt ∨ m = .decrypt) ∧ op.algorithm = a ∧ op.operationClass = .cipher ∧ op.mode = m ∧
      op.cryptoCipher = some a := by
  obtain ⟨a', m', block', hb, hc⟩ := teeAllocateOperation_creates hnew
  cases hb
  cases ha.symm.trans hc.algorithm_valid
  cases hmode.symm.trans hc.mode_valid
  have hm := suits_evp he hc.suits
  obtain ⟨hclass, -, h1, h2⟩ := classOf_evp he hm block.operationClass
  have hk := hc.kind_eq
  rw [hclass] at hk
  refine ⟨hm, congrArg (fun k => k.1) hk, congrArg (fun k => k.2.2) hk, congrArg (fun k => k.2.1) hk,
    ?_⟩
  have hmodeAlloc : modeAlloc m { block with algorithm := a } ctxt
      = handleCipherAlloc { block with algorithm := a } ctxt := by
    obtain rfl | rfl := hm <;> exact if_neg (not_or.mpr ⟨h1, h2⟩)
  unfold teeAllocateOperation at hnew
  simp only [ha, hmode, hc.suits, if_true, hmodeAlloc] at hnew
  unfold handleCipherAlloc at hnew
  simp only [he, if_true] at hnew
  cases ctxt with
  | none => simp at hnew
  | some c =>
    simp only [if_true, Prod.mk.injEq, true_and, Option.some.injEq] at hnew
    rw [← hnew]

theorem setCipherKey_success {data : List UInt8} {malloc : Bool}
    (h : (setCipherKey op data malloc).1 = .success) : (setCipherKey op data malloc).2
      = { op with keyValue := some (o.rawKey data), keySize := data.length } := by
  unfold setCipherKey at h ⊢
  split_ifs at h ⊢
  rfl

theorem andThen_success {r : TeecResult × Operation o.toOpenssl}
    {next : Operation o.toOpenssl → TeecResult × Operation o.toOpenssl}
    (h : andThen r next = (.success, op1)) : ∃ p, r = (.success, p) ∧ next p = (.success, op1) := by
  unfold andThen at h
  split_ifs at h with hr
  · exact ⟨r.2, Prod.ext hr rfl, h⟩
  · exact absurd (congrArg Prod.fst h) hr

theorem setKey_evp {malloc malloc2 : Bool} (he : op.algorithm.isEvp = true)
    (hm : op.mode = .encrypt ∨ op.mode = .decrypt) (hclass : op.operationClass = .cipher)
    (hkey : teeSetOperationKey op (some key) malloc malloc2 = (.success, op1)) :
    op1 = { op with keyValue := some (o.rawKey key), keySize := key.length } := by
  have hdigest : op.mode ≠ .digest := by
    obtain h | h := hm <;> rw [h] <;> decide
  have hcts : op.algorithm ≠ .aesCts := fun h => by
    rw [h] at he
    exact absurd he (by decide)
  unfold teeSetOperationKey at hkey
  rw [if_neg hdigest] at hkey
  obtain ⟨p, h1, hkey⟩ := andThen_success hkey
  rw [if_pos hclass] at h1
  have hp : p = { op with keyValue := some (o.rawKey key), keySize := key.length } := by
    have h := setCipherKey_success (congrArg Prod.fst h1)
    exact (congrArg Prod.snd h1).symm.trans h
  have hpclass : p.operationClass = .cipher := hp ▸ hclass
  have hpcts : p.algorithm ≠ .aesCts := hp ▸ hcts
  obtain ⟨p2, h2, hkey⟩ := andThen_success hkey
  rw [if_neg (by rw [hpclass]; simp [hpcts])] at h2
  cases h2
  obtain ⟨p3, h3, hkey⟩ := andThen_success hkey
  rw [if_neg (by rw [hpclass]; simp)] at h3
  cases h3
  rw [if_neg (by rw [hpclass]; simp)] at hkey
  cases hkey
  exact hp

theorem cipherInit_evp {c : o.Ctx} {k : o.Key} {malloc : Bool} (hop : SetUp a m c op)
    (he : a.isEvp = true) (hk : op.keyValue = some k) (hcipher : op.cryptoCipher = some a) :
    SetUp a m (o.evpInit a c m k iv) (teeCipherInit op iv malloc) := by
  obtain ⟨h1, h2, h3, h4⟩ := hop
  have hcts : op.algorithm ≠ .aesCts := fun h => by
    rw [← h1, h] at he
    exact absurd he (by decide)
  have hinit : teeCipherInit op iv malloc
      = { op with cryptoCtxt := o.evpInit a op.cryptoCtxt op.mode k iv } := by
    unfold teeCipherInit
    rw [if_neg (not_not.mpr h2), hk]
    show (if op.algorithm = .aesCts then _ else _) = _
    rw [if_neg hcts, if_pos (h1 ▸ he), hcipher]
  rw [hinit]
  exact ⟨h1, h2, h3, by rw [h3, h4]⟩

/-! ## The calls -/

theorem update_ready {c : o.Ctx} (hop : SetUp a m c op) (he : a.isEvp = true) (x : List UInt8)
    (d : Dest) (hu : (o.evpUpdate c m x).2 = true) :
    (teeCipherUpdateTo op (pointTo x) x.length d).result = .success ∧
      (teeCipherUpdateTo op (pointTo x) x.length d).dest.reported = o.evpUpdateOut c m x ∧
      SetUp a m (o.evpUpdate c m x).1 (teeCipherUpdateTo op (pointTo x) x.length d).op := by
  obtain ⟨rfl, h2, rfl, rfl⟩ := hop
  unfold teeCipherUpdateTo
  rw [if_neg (not_not.mpr h2), if_pos he]
  unfold evpWrite
  simp only [readBytes_pointTo, hu, if_true, Dest.reported_fill, true_and]
  exact ⟨rfl, h2, rfl, rfl⟩

theorem final_ready {c c' : o.Ctx} (hop : SetUp a m c op) (he : a.isEvp = true)
    (hm : m = .encrypt ∨ m = .decrypt) (x : List UInt8) (d : Dest)
    (hc : c' = if x = [] then c else (o.evpUpdate c m x).1)
    (hu : x ≠ [] → (o.evpUpdate c m x).2 = true) (hf : (o.evpFinal c' m).2 = (true, [])) :
    (teeCipherDoFinal op (pointTo x) x.length d).result = .success ∧
      (teeCipherDoFinal op (pointTo x) x.length d).dest.reported = [] := by
  obtain ⟨rfl, h2, rfl, rfl⟩ := hop
  unfold teeCipherDoFinal
  rw [if_neg (not_not.mpr h2), if_pos he, if_pos hm]
  by_cases hx : x = []
  · rw [if_pos hx] at hc
    rw [if_pos (by rw [hx]; rfl)]
    unfold evpFinish leave
    subst hc
    simp only [hf, if_true, Dest.reported_fill, and_self]
  · rw [if_neg hx] at hc
    rw [if_neg fun h => hx (List.length_eq_zero_iff.mp h)]
    unfold evpWrite
    simp only [readBytes_pointTo, hu hx, if_true]
    unfold evpFinish
    subst hc
    simp only [hf, if_true, Dest.reported_fill, and_self]

theorem streamed_eq (hs : StreamsRight o a m key iv n T) (he : a.isEvp = true)
    (hm : m = .encrypt ∨ m = .decrypt) (c : o.Ctx) (last : List UInt8 × Dest)
    (chunks : List (List UInt8 × Dest)) (before : List (List UInt8))
    (hn : n ∣ ((before ++ chunks.map Prod.fst).flatten ++ last.1).length)
    (hop : SetUp a m (evpRun o a m key iv c before).1 op) :
    ∃ out, streamed op last chunks = some out ∧
      (evpRun o a m key iv c before).2 ++ out
        = (evpRun o a m key iv c (before ++ chunks.map Prod.fst)).2 := by
  induction chunks generalizing op before with
  | nil =>
    rw [List.map_nil, List.append_nil] at hn ⊢
    refine ⟨[], ?_, List.append_nil _⟩
    have hf : (o.evpFinal (if last.1 = [] then (evpRun o a m key iv c before).1
        else (o.evpUpdate (evpRun o a m key iv c before).1 m last.1).1) m).2 = (true, []) := by
      by_cases hl : last.1 = []
      · rw [hl, List.append_nil] at hn
        rw [if_pos hl]
        exact hs.final c before hn
      · have h1 := hs.final c (before ++ [last.1]) (by simpa using hn)
        rw [evpRun_concat] at h1
        rwa [if_neg hl]
    obtain ⟨h1, h2⟩ := final_ready hop he hm last.1 last.2 rfl (fun _ => hs.updates c before _) hf
    unfold streamed
    simp only [h1, if_true, h2]
  | cons x xs ih =>
    obtain ⟨h1, h2, h3⟩ := update_ready hop he x.1 x.2 (hs.updates c before x.1)
    have hcons : before ++ (x :: xs).map Prod.fst = (before ++ [x.1]) ++ xs.map Prod.fst := by simp
    rw [hcons] at hn ⊢
    have hrun : evpRun o a m key iv c (before ++ [x.1]) = _ := evpRun_concat c before x.1
    obtain ⟨out, h4, h5⟩ := ih (before ++ [x.1]) hn (by rw [hrun]; exact h3)
    refine ⟨o.evpUpdateOut (evpRun o a m key iv c before).1 m x.1 ++ out, ?_, ?_⟩
    · unfold streamed
      simp only [h1, if_true, h4, h2, Option.map_some]
    · rw [← h5, hrun, List.append_assoc]

/-- the outputs of the TEE calls are the transformed message exactly if the last chunk is empty -/
theorem cipherStream_iff {block : Operation o.toOpenssl} {ctxt : Option o.Ctx}
    {algorithm mode maxKeySize : UInt32} (ha : checkValidAlgorithm algorithm = some a)
    (hmode : checkValidMode mode = some m) (he : a.isEvp = true)
    (hnew : teeAllocateOperation (some block) ctxt algorithm mode maxKeySize = (.success, some op))
    {malloc malloc2 malloc3 : Bool}
    (hkey : teeSetOperationKey op (some key) malloc malloc2 = (.success, op1))
    (hs : StreamsRight o a m key iv n T) (chunks : List (List UInt8 × Dest))
    (last : List UInt8 × Dest) (hn : n ∣ ((chunks.map Prod.fst).flatten ++ last.1).length) :
    streamed (teeCipherInit op1 iv malloc3) last chunks
      = some (T ((chunks.map Prod.fst).flatten ++ last.1)) ↔ last.1 = [] := by
  obtain ⟨hm, h1, h2, h3, h4⟩ := allocate_evp ha hmode he hnew
  have hkeyed := setKey_evp (h1 ▸ he) (h3 ▸ hm) h2 hkey
  have hready : SetUp a m op1.cryptoCtxt op1 := by
    rw [hkeyed]
    exact ⟨h1, h2, h3, rfl⟩
  have hinit : SetUp a m (evpRun o a m key iv op1.cryptoCtxt []).1 (teeCipherInit op1 iv malloc3) :=
    cipherInit_evp hready he (by rw [hkeyed]) (by rw [hkeyed]; exact h4)
  obtain ⟨out, hout, hrun⟩ := streamed_eq hs he hm op1.cryptoCtxt last chunks [] hn hinit
  rw [List.nil_append] at hrun
  have hout' : out = (evpRun o a m key iv op1.cryptoCtxt (chunks.map Prod.fst)).2 := hrun
  rw [hout, Option.some.injEq]
  constructor
  · intro h
    have h5 := hs.length op1.cryptoCtxt (chunks.map Prod.fst)
    have h6 := hs.output op1.cryptoCtxt (chunks.map Prod.fst ++ [last.1]) (by simpa using hn)
    have h7 := hs.length op1.cryptoCtxt (chunks.map Prod.fst ++ [last.1])
    rw [List.flatten_append, List.flatten_singleton] at h6 h7
    rw [h6, ← h, hout', h5, Nat.div_mul_cancel hn, List.length_append] at h7
    have hle := Nat.div_mul_le_self (chunks.map Prod.fst).flatten.length n
    exact List.length_eq_zero_iff.mp (by omega)
  · intro h
    rw [h, List.append_nil] at hn ⊢
    rw [hout']
    exact hs.output _ _ hn

end

/-! ## A block of AES -/

/-- the plaintext and the ciphertext of the known-answer test for AES-128 -/
def knownPlain : List UInt8 :=
  [0x00, 0x11, 0x22, 0x33, 0x44, 0x55, 0x66, 0x77, 0x88, 0x99, 0xaa, 0xbb, 0xcc, 0xdd, 0xee, 0xff]

def knownCipher : List UInt8 :=
  [0x69, 0xc4, 0xe0, 0xd8, 0x6a, 0x7b, 0x04, 0x30, 0xd8, 0xcd, 0xb7, 0x80, 0x70, 0xb4, 0xc5, 0x5a]

def knownKey : List UInt8 := [0, 1, 2, 3, 4, 5, 6, 7, 8, 9, 10, 11, 12, 13, 14, 15]

/-- AES under the known key, on the known block -/
def knownBlock (b : List UInt8) : List UInt8 := if b = knownPlain then knownCipher else b

/-- ECB with a buffer for what does not fill a block -/
def ecbOpenssl : OpensslOutputs :=
  { idleOpenssl with
    evpInit := fun _ _ _ _ _ => []
    evpUpdate := fun c _ x => ((bufferStep 16 knownBlock c x).1, true)
    digestFinal := fun _ c => (c, fun _ => 0)
    evpUpdateOut := fun c _ x => (bufferStep 16 knownBlock c x).2
    evpFinal := fun c _ => (c, c.isEmpty, [])
    cts128 := fun _ _ iv x => (x, iv)
    ccm128Out := fun _ _ x => some x
    gcm128Out := fun _ _ x => some x }

theorem knownBlock_length (b : List UInt8) (h : b.length = 16) : (knownBlock b).length = 16 := by
  unfold knownBlock
  split
  · rfl
  · exact h

theorem ecbOpenssl_streams (key iv : List UInt8) : StreamsRight ecbOpenssl .aesEcbNopad .encrypt key
    iv 16 (blockwise 16 knownBlock) := by
  have hrun (c : ecbOpenssl.Ctx) (xs : List (List UInt8)) :
      evpRun ecbOpenssl .aesEcbNopad .encrypt key iv c xs
        = (leftOver 16 xs.flatten, blockwise 16 knownBlock xs.flatten) :=
    feed_bufferStep knownBlock (by decide) [] (by decide) xs
  refine ⟨by decide, fun c xs x => rfl, fun c xs => ?_, fun c xs _ => ?_, fun c xs hn => ?_⟩
  · rw [hrun]
    exact blockwise_length knownBlock_length _
  · rw [hrun]
  · rw [hrun]
    have h1 : leftOver 16 xs.flatten = [] := by
      unfold leftOver
      rw [Nat.div_mul_cancel hn, List.drop_length]
    show ((leftOver 16 xs.flatten).isEmpty, ([] : List UInt8)) = (true, [])
    rw [h1]
    rfl

/-- memory for a handle, all zero, and the handle for AES-ECB with the known key -/
def ecbBlock : Operation ecbOpenssl.toOpenssl :=
  ⟨.aesEcbNopad, .other, .encrypt, 0, 0, none, ([] : List UInt8), none, none, 0, 0⟩

def ecbHandle : Operation ecbOpenssl.toOpenssl :=
  ⟨.aesEcbNopad, .cipher, .encrypt, 128, 0, none, ([] : List UInt8), none, some .aesEcbNopad, 0, 0⟩

def ecbKeyed : Operation ecbOpenssl.toOpenssl :=
  { ecbHandle with keyValue := some knownKey, keySize := 16 }

def freshDest : Dest := ⟨fun _ => 0, 256⟩

theorem ecbHandle_created :
    teeAllocateOperation (some ecbBlock) (some ([] : List UInt8)) 0x10000010 0 128
      = (.success, some ecbHandle) := rfl

theorem cipherStream_known :
    streamed (teeCipherInit ecbKeyed [] true) ([], freshDest)
        [(knownPlain.take 5, freshDest), (knownPlain.drop 5 ++ knownPlain, freshDest)]
      = some (blockwise 16 knownBlock (knownPlain ++ knownPlain)) :=
  have hkey : teeSetOperationKey ecbHandle (some knownKey) true true = (.success, ecbKeyed) := rfl
  (cipherStream_iff (a := .aesEcbNopad) (m := .encrypt) (by decide +kernel) rfl rfl
    ecbHandle_created hkey (ecbOpenssl_streams knownKey [])
    [(knownPlain.take 5, freshDest), (knownPlain.drop 5 ++ knownPlain, freshDest)] ([], freshDest)
    (by decide)).mpr rfl

/-- the block is given to the final call: nothing is reported -/
theorem lastBlock_lost :
    StreamsRight ecbOpenssl .aesEcbNopad .encrypt knownKey [] 16 (blockwise 16 knownBlock) ∧
    teeAllocateOperation (some ecbBlock) (some ([] : List UInt8)) 0x10000010 0 128
      = (.success, some ecbHandle) ∧
    teeSetOperationKey ecbHandle (some knownKey) true true = (.success, ecbKeyed) ∧
    streamed (teeCipherInit ecbKeyed [] true) (knownPlain, freshDest) [] = some [] ∧
    blockwise 16 knownBlock knownPlain = knownCipher :=
  ⟨ecbOpenssl_streams knownKey [], ecbHandle_created, rfl, rfl, by decide⟩

end SierraTee
