import SierraTee.Crypto.Final
import SierraTee.Lib.Holdings

/-!
# The memory of a crypto operation (`otz_tee_crypto_api.c`)

The calls that allocate, key, start and free an operation once more, with the pointers of its
handle and the blocks of the heap behind them.

* `sound_malloc_iff` and the like  when an operation on a field keeps the memory sound.

The objects that `RSA_generate_key` and `DSA_generate_parameters` return are blocks of the heap,
which `RSA_free` and `DSA_free` free.  What the crypto library keeps inside its contexts is its own.
-/

namespace SierraTee
namespace Owned
open Holdings

/-- a pointer in memory that is not cleared; `unset` is the word that was there before -/
inductive Pointer (α : Type) where
  | unset (nonNull : Bool)
  | null
  | assigned (a : α)
  deriving DecidableEq

def Pointer.nonNull {α : Type} : Pointer α → Bool
  | .unset b => b
  | .null => false
  | .assigned _ => true

/-- a block of the heap, by its number; `stray` is any other place -/
inductive Place where
  | block (n : Nat)
  | stray
  deriving DecidableEq

def Pointer.place : Pointer Nat → Place
  | .assigned n => .block n
  | _ => .stray

inductive OwnedField where
  | cryptoCtxt | keyValue | iv
  deriving DecidableEq

/-- the handle, which is block 0; `next` is the number of the next block -/
structure OpState where
  algorithm : Algorithm
  operationClass : OperationClass
  mode : Mode
  cryptoCipher : Pointer Algorithm
  ptr : OwnedField → Pointer Nat
  next : Nat
  uses : List (Use Place)

namespace OpState
variable (s : OpState) (f : OwnedField) (ok : Bool)

def assign (p : Pointer Nat) : OpState := { s with ptr := Function.update s.ptr f p }

def record (u : Use Place) : OpState := { s with uses := s.uses ++ [u] }

def malloc : OpState :=
  if ok then { (s.assign f (.assigned s.next)).record (.acquire (.block s.next)) with next := s.next + 1 }
  else s.assign f .null

def setNull : OpState := s.assign f .null

def deref : OpState := s.record (.access (s.ptr f).place)

def free : OpState := if s.ptr f = .null then s else s.record (.release (s.ptr f).place)

def derefCipher : OpState :=
  match s.cryptoCipher with
  | .assigned _ => s
  | _ => s.record (.access .stray)

end OpState

/-! ## Allocation -/

/-- the memory for a handle, which is not cleared: the class, and which pointers are not NULL -/
structure NewHandle where
  operationClass : OperationClass
  cryptoCipher : Bool
  nonNull : OwnedField → Bool

def newState (old : NewHandle) (a : Algorithm) (m : Mode) : OpState where
  algorithm := a
  operationClass := old.operationClass
  mode := m
  cryptoCipher := .unset old.cryptoCipher
  ptr := fun f => .unset (old.nonNull f)
  next := 1
  uses := [.acquire (.block 0)]

section
variable (s : OpState) (ctxtOk initOk : Bool)

def handleDigestAlloc : Bool × OpState :=
  if s.algorithm.isDigest then
    let s := s.malloc .cryptoCtxt ctxtOk
    if ctxtOk = false then (false, s) else (initOk, s.deref .cryptoCtxt)
  else (true, s)

def handleMacAlloc : Bool × OpState :=
  if s.algorithm.isHmac then
    let s := s.malloc .cryptoCtxt ctxtOk
    if ctxtOk = false then (false, s) else (true, s.deref .cryptoCtxt)
  else (true, s)

def handleCipherAlloc : Bool × OpState :=
  if s.algorithm.isEvp then
    let s := { s with cryptoCipher := .assigned s.algorithm }.malloc .cryptoCtxt ctxtOk
    if ctxtOk = false then (false, s) else (true, (s.deref .cryptoCtxt).setNull .keyValue)
  else if s.algorithm = .aesCts then
    (true, { s.setNull .cryptoCtxt with cryptoCipher := .null })
  else if s.algorithm = .aesCcm ∨ s.algorithm = .aesGcm then
    let s := s.malloc .cryptoCtxt ctxtOk
    if ctxtOk = false then (false, s)
    else (true, { s.setNull .keyValue with cryptoCipher := .null })
  else (true, s)

def modeAlloc : Bool × OpState :=
  match s.mode with
  | .digest => handleDigestAlloc s ctxtOk initOk
  | .mac => handleMacAlloc s ctxtOk
  | .decrypt | .encrypt =>
    let r := handleCipherAlloc s ctxtOk
    if s.algorithm = .rsaesPkcs1V15 ∨ s.algorithm = .rsaNopad then (r.1, r.2.setNull .cryptoCtxt)
    else r
  | .sign | .verify => (true, s.setNull .cryptoCtxt)
  | .derive => (true, s)

/-- `TEE_AllocateOperation`; `handle` is what `sw_malloc` gives for the handle.  Without a handle
for the caller there is only what was done on the heap -/
def teeAllocateOperation (handle : Option NewHandle) (algorithm mode : UInt32) :
    Except (List (Use Place)) OpState :=
  match checkValidAlgorithm algorithm, checkValidMode mode with
  | some a, some m =>
    if checkValidAlgorithmForMode m a then
      match handle with
      | none => .error []
      | some old =>
        let r := modeAlloc (newState old a m) ctxtOk initOk
        if r.1 then .ok { r.2 with operationClass := classOf m a old.operationClass }
        else .error r.2.uses
    else .error []
  | _, _ => .error []

end

/-! ## Keys and initialisation vectors -/

/-- what a decoding function does: it fails and leaves the object, or fails and frees it, as the
ASN.1 functions do, or it succeeds -/
inductive D2i where
  | fails | frees | succeeds
  deriving DecidableEq

structure KeyCall where
  /-- the key is NULL, which only `fillRSAKeys` asks -/
  keyNull : Bool
  dataLen : Nat
  /-- the comparison of the length with what is behind a pointer that was never set -/
  strayLen : Bool
  malloc : Bool
  malloc2 : Bool
  /-- `RSA_generate_key` or `DSA_generate_parameters` succeeds -/
  generated : Bool
  publicKey : D2i
  privateKey : D2i

section
variable (keyLen : Algorithm → Nat) (s : OpState) (k : KeyCall)

def lenOk : Bool :=
  match s.cryptoCipher with
  | .assigned c => k.dataLen = keyLen c
  | .unset true => k.strayLen
  | _ => true

def setCipherKey : Bool × OpState :=
  let s1 := if s.cryptoCipher.nonNull then s.derefCipher else s
  if lenOk keyLen s k = false then (false, s1)
  else
    let s2 := s1.malloc .keyValue k.malloc
    if k.malloc = false then (false, s2) else (true, s2.deref .keyValue)

def setAesKey : Bool × OpState :=
  let s1 := s.malloc .keyValue k.malloc2
  if k.malloc2 = false then (false, s1)
  else if s.mode = .decrypt ∨ s.mode = .encrypt then (true, s1.deref .keyValue)
  else (true, s1)

/-- `d2i_RSAPublicKey` or `d2i_RSAPrivateKey`, and `sw_free` if it fails -/
def decodeRsa (r : D2i) : Bool × OpState :=
  let s1 := s.deref .keyValue
  match r with
  | .succeeds => (true, s1)
  | .fails => (false, s1.free .keyValue)
  | .frees => (false, ((s1.free .keyValue).setNull .keyValue).free .keyValue)

def fillRsaKeys : Bool × OpState :=
  if k.keyNull then (k.generated, s.malloc .keyValue k.generated)
  else
    let s1 := s.malloc .keyValue k.malloc
    if k.malloc = false then (false, s1)
    else if k.dataLen ≠ swRsaKeylen then (false, s1.free .keyValue)
    else
      let r := decodeRsa s1 k.publicKey
      if r.1 then decodeRsa r.2 k.privateKey else r

def setSignatureKey : Bool × OpState :=
  if s.algorithm = .rsassaPkcs1V15Md5 ∨ s.algorithm = .rsassaPkcs1V15Sha1 then fillRsaKeys s k
  else if s.algorithm = .dsaSha1 then (k.generated, s.malloc .keyValue k.generated)
  else (true, s)

def thenDo (r : Bool × OpState) (next : OpState → Bool × OpState) : Bool × OpState :=
  if r.1 then next r.2 else r

/-- `TEE_SetOperationKey`; no block changes the class or the algorithm -/
def teeSetOperationKey : Bool × OpState :=
  if s.mode = .digest then (false, s)
  else
    thenDo (if s.operationClass = .cipher then setCipherKey keyLen s k else (true, s)) fun s1 =>
    thenDo (if s.operationClass = .ae ∨ s.algorithm = .aesCts then setAesKey s1 k else (true, s1))
      fun s2 =>
    thenDo (if s.operationClass = .asymmetricCipher ∧
      (s.algorithm = .rsaesPkcs1V15 ∨ s.algorithm = .rsaNopad) then fillRsaKeys s2 k
      else (true, s2)) fun s3 =>
    if s.operationClass = .asymmetricSignature then setSignatureKey s3 k else (true, s3)

def teeCipherInit (malloc : Bool) : OpState :=
  if s.operationClass ≠ .cipher then s
  else if (s.ptr .keyValue).nonNull = false then s
  else if s.algorithm = .aesCts then
    let s1 := s.malloc .iv malloc
    if malloc = false then s1 else s1.deref .iv
  else if s.algorithm.isEvp then
    if s.cryptoCipher.nonNull = false then s
    else ((s.derefCipher.deref .cryptoCtxt).deref .keyValue)
  else s

/-! ## Freeing -/

def handleDigestFree : OpState :=
  if s.algorithm.isDigest then s.deref .cryptoCtxt else s

def handleMacFree : OpState := if s.algorithm.isHmac then s.deref .cryptoCtxt else s

def freeNonNull (f : OwnedField) : OpState := if (s.ptr f).nonNull then s.free f else s

/-- `RSA_free` or `DSA_free` and then `sw_free`, of a key that is not NULL -/
def freeKeyObject : OpState :=
  if (s.ptr .keyValue).nonNull then ((s.deref .keyValue).free .keyValue).free .keyValue else s

def handleCipherFree : OpState :=
  if s.algorithm.isEvp then (freeNonNull s .keyValue).deref .cryptoCtxt
  else if s.algorithm = .aesCts ∨ s.algorithm = .aesCcm ∨ s.algorithm = .aesGcm then
    let s1 := freeNonNull (freeNonNull s .iv) .keyValue
    if (s1.ptr .cryptoCtxt).nonNull then s1.deref .cryptoCtxt else s1
  else if s.algorithm = .rsaesPkcs1V15 ∨ s.algorithm = .rsaNopad then freeKeyObject s
  else s

def freeFields : OpState :=
  let s1 : OpState := match s.operationClass with
    | .digest => handleDigestFree s
    | .mac => handleMacFree s
    | .cipher | .ae | .asymmetricCipher => handleCipherFree s
    | .asymmetricSignature =>
      if s.algorithm = .rsassaPkcs1V15Md5 ∨ s.algorithm = .rsassaPkcs1V15Sha1 then freeKeyObject s
      else if s.algorithm = .dsaSha1 then freeKeyObject s
      else s
    | _ => s
  s1.free .cryptoCtxt

/-- `TEE_FreeOperation`; what has been done on the heap then -/
def teeFreeOperation : List (Use Place) := (freeFields s).uses ++ [.release (.block 0)]

end

/-! ## Blocks in use -/

def OpState.held (s : OpState) : List Place := holding [] s.uses

def Live (s : OpState) (f : OwnedField) : Prop := ∃ n, s.ptr f = .assigned n ∧ .block n ∈ s.held

structure Shape (s : OpState) : Prop where
  below : ∀ n, .block n ∈ s.held → n < s.next
  ptrs : ∀ f n, s.ptr f = .assigned n → 0 < n ∧ n < s.next
  distinct : ∀ f g n, s.ptr f = .assigned n → s.ptr g = .assigned n → f = g
  noStray : .stray ∉ s.held
  nodup : s.held.Nodup
  self : .block 0 ∈ s.held
  /-- a number is given to one block -/
  once : ∀ p, s.uses.count (.acquire p) ≤ 1
  fresh : ∀ n, s.next ≤ n → .acquire (.block n) ∉ s.uses

structure Sound (s : OpState) : Prop where
  backed : Backed [] s.uses
  owned : ∀ n, .block n ∈ s.held → n = 0 ∨ ∃ f, s.ptr f = .assigned n

section
variable {s : OpState} {f g : OwnedField} {ok : Bool} {u : Use Place} {p : Pointer Nat} {n : Nat}

theorem held_record : (s.record u).held = holding s.held [u] := by
  unfold OpState.held OpState.record
  rw [holding_append]

theorem backed_record : Backed [] (s.record u).uses ↔ Backed [] s.uses ∧ Backed s.held [u] :=
  backed_append

theorem held_deref : (s.deref f).held = s.held := held_record

theorem held_free_null (h : s.ptr f = .null) : s.free f = s := if_pos h

theorem free_ne (h : s.ptr f ≠ .null) : s.free f = s.record (.release (s.ptr f).place) := if_neg h

theorem held_free (h : s.ptr f ≠ .null) : (s.free f).held = s.held.erase (s.ptr f).place := by
  rw [free_ne h]
  exact held_record

theorem ptr_free : (s.free f).ptr = s.ptr := by
  unfold OpState.free
  split <;> rfl

theorem next_free : (s.free f).next = s.next := by
  unfold OpState.free
  split <;> rfl

theorem held_malloc : (s.malloc f true).held = .block s.next :: s.held := by
  show holding [] (s.uses ++ [_]) = _
  rw [holding_append]
  rfl

theorem ptr_assign_self : (s.assign f p).ptr f = p := Function.update_self ..

theorem ptr_assign_ne (h : g ≠ f) : (s.assign f p).ptr g = s.ptr g := Function.update_of_ne h ..

theorem ptr_malloc_self : (s.malloc f true).ptr f = .assigned s.next := ptr_assign_self

theorem ptr_malloc_ne (h : g ≠ f) : (s.malloc f true).ptr g = s.ptr g := ptr_assign_ne h

theorem ptr_setNull_self : (s.setNull f).ptr f = .null := ptr_assign_self

theorem ptr_setNull_ne (h : g ≠ f) : (s.setNull f).ptr g = s.ptr g := ptr_assign_ne h

/-! ### The shape -/

theorem mem_record {v : Use Place} (h : v ≠ u) : v ∈ (s.record u).uses ↔ v ∈ s.uses := by
  unfold OpState.record
  rw [List.mem_append, List.mem_singleton, or_iff_left h]

theorem count_record {v : Use Place} (h : v ≠ u) : (s.record u).uses.count v = s.uses.count v := by
  unfold OpState.record
  rw [List.count_append, List.count_singleton, if_neg (by simpa using h.symm), Nat.add_zero]

theorem Shape.access (h : Shape s) (q : Place) : Shape (s.record (.access q)) := by
  obtain ⟨h1, h2, h3, h4, h5, h6, h7, h8⟩ := h
  have hheld : (s.record (.access q)).held = s.held := held_record
  rw [← hheld] at h1 h4 h5 h6
  refine ⟨h1, h2, h3, h4, h5, h6, fun r => ?_, fun n hn hm => h8 n hn ?_⟩
  · rw [count_record (by simp)]
    exact h7 r
  · exact (mem_record (by simp)).mp hm

theorem Shape.deref (h : Shape s) (f : OwnedField) : Shape (s.deref f) := h.access _

theorem Shape.derefCipher (h : Shape s) : Shape s.derefCipher := by
  unfold OpState.derefCipher
  split
  · exact h
  · exact h.access _

theorem Shape.setNull (h : Shape s) (f : OwnedField) : Shape (s.setNull f) where
  below := h.below
  ptrs := by
    intro g n hg
    by_cases hgf : g = f
    · rw [hgf, ptr_setNull_self] at hg
      cases hg
    · rw [ptr_setNull_ne hgf] at hg
      exact h.ptrs g n hg
  distinct := by
    intro g g' n hg hg'
    by_cases hgf : g = f
    · rw [hgf, ptr_setNull_self] at hg
      cases hg
    · by_cases hgf' : g' = f
      · rw [hgf', ptr_setNull_self] at hg'
        cases hg'
      · rw [ptr_setNull_ne hgf] at hg
        rw [ptr_setNull_ne hgf'] at hg'
        exact h.distinct g g' n hg hg'
  noStray := h.noStray
  nodup := h.nodup
  self := h.self
  once := h.once
  fresh := h.fresh

theorem Shape.malloc (h : Shape s) (f : OwnedField) (ok : Bool) : Shape (s.malloc f ok) := by
  cases ok with
  | false => exact h.setNull f
  | true =>
    have hnew : .block s.next ∉ s.held := fun hm => absurd (h.below _ hm) (Nat.lt_irrefl _)
    have huses : (s.malloc f true).uses = (s.record (.acquire (.block s.next))).uses := rfl
    refine ⟨fun n hn => ?_, fun g n hg => ?_, fun g g' n hg hg' => ?_, ?_, ?_, ?_, fun r => ?_,
      fun n hn hm => ?_⟩
    · rw [held_malloc, List.mem_cons] at hn
      show n < s.next + 1
      obtain hn | hn := hn
      · cases hn
        exact Nat.lt_succ_self _
      · exact (h.below n hn).trans (Nat.lt_succ_self _)
    · show 0 < n ∧ n < s.next + 1
      by_cases hgf : g = f
      · rw [hgf, ptr_malloc_self] at hg
        cases hg
        exact ⟨(Nat.zero_le _).trans_lt (h.below 0 h.self), Nat.lt_succ_self _⟩
      · rw [ptr_malloc_ne hgf] at hg
        obtain ⟨h1, h2⟩ := h.ptrs g n hg
        exact ⟨h1, h2.trans (Nat.lt_succ_self _)⟩
    · by_cases hgf : g = f
      · by_cases hgf' : g' = f
        · rw [hgf, hgf']
        · rw [hgf, ptr_malloc_self] at hg
          rw [ptr_malloc_ne hgf'] at hg'
          cases hg
          exact absurd (h.ptrs g' _ hg').2 (Nat.lt_irrefl _)
      · rw [ptr_malloc_ne hgf] at hg
        by_cases hgf' : g' = f
        · rw [hgf', ptr_malloc_self] at hg'
          cases hg'
          exact absurd (h.ptrs g _ hg).2 (Nat.lt_irrefl _)
        · rw [ptr_malloc_ne hgf'] at hg'
          exact h.distinct g g' n hg hg'
    · rw [held_malloc, List.mem_cons, not_or]
      exact ⟨fun he => (by cases he), h.noStray⟩
    · rw [held_malloc, List.nodup_cons]
      exact ⟨hnew, h.nodup⟩
    · rw [held_malloc]
      exact List.mem_cons_of_mem _ h.self
    · rw [huses]
      by_cases hr : r = .block s.next
      · subst hr
        have hzero := List.count_eq_zero.mpr (h.fresh s.next le_rfl)
        unfold OpState.record
        rw [List.count_append, hzero, List.count_singleton_self]
      · rw [count_record (by simpa using hr)]
        exact h.once r
    · have hlt : s.next < n := hn
      rw [huses, mem_record (by simp [hlt.ne'])] at hm
      exact h.fresh n hlt.le hm

theorem mem_erase_of_shape (h : Shape s) {q q' : Place} : q ∈ s.held.erase q' ↔ q ≠ q' ∧ q ∈ s.held :=
  h.nodup.mem_erase_iff

theorem Shape.free (h : Shape s) (f : OwnedField) : Shape (s.free f) := by
  by_cases hnull : s.ptr f = .null
  · rw [held_free_null hnull]
    exact h
  · refine ⟨?_, ?_, ?_, ?_, ?_, ?_, fun r => ?_, fun n hn hm => ?_⟩
    · intro n hn
      rw [held_free hnull] at hn
      rw [next_free]
      exact h.below n (List.mem_of_mem_erase hn)
    · rw [ptr_free, next_free]
      exact h.ptrs
    · rw [ptr_free]
      exact h.distinct
    · rw [held_free hnull]
      exact fun hn => h.noStray (List.mem_of_mem_erase hn)
    · rw [held_free hnull]
      exact h.nodup.erase _
    · rw [held_free hnull, mem_erase_of_shape h]
      refine ⟨fun he => ?_, h.self⟩
      cases hp : s.ptr f with
      | unset b => rw [hp] at he; cases he
      | null => rw [hp] at he; cases he
      | assigned n =>
        rw [hp] at he
        cases he
        exact absurd (h.ptrs f 0 hp).1 (Nat.lt_irrefl _)
    · rw [free_ne hnull, count_record (by simp)]
      exact h.once r
    · rw [next_free] at hn
      rw [free_ne hnull, mem_record (by simp)] at hm
      exact h.fresh n hn hm

/-! ### Pointers to blocks in use -/

theorem live_deref : Live (s.deref f) g ↔ Live s g := by
  unfold Live
  rw [held_deref]
  exact Iff.rfl

theorem live_setNull_ne (h : g ≠ f) : Live (s.setNull f) g ↔ Live s g := by
  unfold Live
  rw [ptr_setNull_ne h]
  exact Iff.rfl

theorem live_malloc_self : Live (s.malloc f true) f :=
  ⟨s.next, ptr_malloc_self, by rw [held_malloc]; exact List.mem_cons_self⟩

theorem live_malloc_ne (hs : Shape s) (h : g ≠ f) : Live (s.malloc f ok) g ↔ Live s g := by
  cases ok with
  | false => exact live_setNull_ne h
  | true =>
    unfold Live
    rw [ptr_malloc_ne h, held_malloc]
    refine exists_congr fun n => and_congr_right fun hn => ?_
    rw [List.mem_cons]
    refine ⟨fun hm => hm.resolve_left fun he => ?_, Or.inr⟩
    cases he
    exact absurd (hs.ptrs g _ hn).2 (Nat.lt_irrefl _)

theorem live_free_self (hs : Shape s) : ¬ Live (s.free f) f := by
  rintro ⟨n, hn, hm⟩
  rw [ptr_free] at hn
  rw [held_free (by rw [hn]; exact fun h => (by cases h)), hn, mem_erase_of_shape hs] at hm
  exact hm.1 rfl

theorem live_free_ne (hs : Shape s) (h : g ≠ f) : Live (s.free f) g ↔ Live s g := by
  by_cases hnull : s.ptr f = .null
  · rw [held_free_null hnull]
  · unfold Live
    rw [ptr_free, held_free hnull]
    refine exists_congr fun n => and_congr_right fun hn => ?_
    rw [mem_erase_of_shape hs]
    refine ⟨fun hm => hm.2, fun hm => ⟨fun he => h ?_, hm⟩⟩
    cases hp : s.ptr f with
    | unset b => rw [hp] at he; cases he
    | null => exact absurd hp hnull
    | assigned m =>
      rw [hp] at he
      cases he
      exact hs.distinct g f n hn hp

theorem not_live_of_ne (h : ∀ n, s.ptr f ≠ .assigned n) : ¬ Live s f := fun ⟨n, hn, _⟩ => h n hn

theorem place_mem_iff (hs : Shape s) : (s.ptr f).place ∈ s.held ↔ Live s f := by
  cases hp : s.ptr f with
  | unset b =>
    exact iff_of_false hs.noStray (not_live_of_ne (by rw [hp]; exact fun n h => (by cases h)))
  | null =>
    exact iff_of_false hs.noStray (not_live_of_ne (by rw [hp]; exact fun n h => (by cases h)))
  | assigned n =>
    refine ⟨fun h => ⟨n, hp, h⟩, fun ⟨m, hm, hin⟩ => ?_⟩
    cases hp.symm.trans hm
    exact hin

/-! ### What keeps the memory sound -/

theorem sound_deref_iff (hs : Shape s) : Sound (s.deref f) ↔ Sound s ∧ Live s f := by
  constructor
  · rintro ⟨h1, h2⟩
    obtain ⟨h3, h4⟩ := backed_record.mp h1
    rw [held_deref] at h2
    exact ⟨⟨h3, h2⟩, (place_mem_iff hs).mp h4.1⟩
  · rintro ⟨⟨h1, h2⟩, h3⟩
    refine ⟨backed_record.mpr ⟨h1, (place_mem_iff hs).mpr h3, trivial⟩, ?_⟩
    rw [held_deref]
    exact h2

theorem sound_derefCipher_iff (hs : Shape s) :
    Sound s.derefCipher ↔ Sound s ∧ ∃ c, s.cryptoCipher = .assigned c := by
  have hstray : ¬ Sound (s.record (.access .stray)) := fun h =>
    hs.noStray (backed_record.mp h.backed).2.1
  unfold OpState.derefCipher
  cases s.cryptoCipher with
  | unset b => exact iff_of_false hstray fun ⟨_, c, hc⟩ => (by cases hc)
  | null => exact iff_of_false hstray fun ⟨_, c, hc⟩ => (by cases hc)
  | assigned c => exact ⟨fun h => ⟨h, c, rfl⟩, fun h => h.1⟩

theorem sound_setNull_iff (hs : Shape s) : Sound (s.setNull f) ↔ Sound s ∧ ¬ Live s f := by
  constructor
  · rintro ⟨h1, h2⟩
    refine ⟨⟨h1, fun n hn => ?_⟩, fun ⟨n, hn, hin⟩ => ?_⟩
    · refine (h2 n hn).imp_right fun ⟨g, hg⟩ => ⟨g, ?_⟩
      by_cases hgf : g = f
      · rw [hgf, ptr_setNull_self] at hg
        cases hg
      · rwa [ptr_setNull_ne hgf] at hg
    · obtain h3 | ⟨g, hg⟩ := h2 n hin
      · exact absurd (hs.ptrs f n hn).1 (by omega)
      · by_cases hgf : g = f
        · rw [hgf, ptr_setNull_self] at hg
          cases hg
        · rw [ptr_setNull_ne hgf] at hg
          exact hgf (hs.distinct g f n hg hn)
  · rintro ⟨⟨h1, h2⟩, h3⟩
    refine ⟨h1, fun n hn => (h2 n hn).imp_right fun ⟨g, hg⟩ => ⟨g, ?_⟩⟩
    have hgf : g ≠ f := fun he => h3 ⟨n, he ▸ hg, hn⟩
    rwa [ptr_setNull_ne hgf]

theorem sound_malloc_iff (hs : Shape s) : Sound (s.malloc f ok) ↔ Sound s ∧ ¬ Live s f := by
  cases ok with
  | false => exact sound_setNull_iff hs
  | true =>
    have hback : Backed [] (s.malloc f true).uses ↔ Backed [] s.uses :=
      backed_record.trans ⟨fun h => h.1, fun h => ⟨h, trivial⟩⟩
    constructor
    · rintro ⟨h1, h2⟩
      have hback' := hback.mp h1
      refine ⟨⟨hback', fun n hn => ?_⟩, fun ⟨n, hn, hin⟩ => ?_⟩
      · refine (h2 n (by rw [held_malloc]; exact List.mem_cons_of_mem _ hn)).imp_right
          fun ⟨g, hg⟩ => ⟨g, ?_⟩
        by_cases hgf : g = f
        · rw [hgf, ptr_malloc_self] at hg
          cases hg
          exact absurd (hs.below _ hn) (Nat.lt_irrefl _)
        · rwa [ptr_malloc_ne hgf] at hg
      · obtain h3 | ⟨g, hg⟩ := h2 n (by rw [held_malloc]; exact List.mem_cons_of_mem _ hin)
        · exact absurd (hs.ptrs f n hn).1 (by omega)
        · by_cases hgf : g = f
          · rw [hgf, ptr_malloc_self] at hg
            cases hg
            exact absurd (hs.below _ hin) (Nat.lt_irrefl _)
          · rw [ptr_malloc_ne hgf] at hg
            exact hgf (hs.distinct g f n hg hn)
    · rintro ⟨⟨h1, h2⟩, h3⟩
      refine ⟨hback.mpr h1, fun n hn => ?_⟩
      rw [held_malloc, List.mem_cons] at hn
      obtain hn | hn := hn
      · cases hn
        exact Or.inr ⟨f, ptr_malloc_self⟩
      · refine (h2 n hn).imp_right fun ⟨g, hg⟩ => ⟨g, ?_⟩
        have hgf : g ≠ f := fun he => h3 ⟨n, he ▸ hg, hn⟩
        rwa [ptr_malloc_ne hgf]

theorem sound_free_iff (hs : Shape s) :
    Sound (s.free f) ↔ Sound s ∧ (s.ptr f = .null ∨ Live s f) := by
  by_cases hnull : s.ptr f = .null
  · rw [held_free_null hnull]
    exact ⟨fun h => ⟨h, Or.inl hnull⟩, fun h => h.1⟩
  · constructor
    · rintro ⟨h1, h2⟩
      rw [ptr_free, held_free hnull] at h2
      rw [free_ne hnull] at h1
      obtain ⟨h3, h4, -⟩ := backed_record.mp h1
      have hlive := (place_mem_iff hs).mp h4
      refine ⟨⟨h3, fun n hn => ?_⟩, Or.inr hlive⟩
      by_cases he : Place.block n = (s.ptr f).place
      · obtain ⟨m, hm, -⟩ := hlive
        rw [hm] at he
        cases he
        exact Or.inr ⟨f, hm⟩
      · exact h2 n ((mem_erase_of_shape hs).mpr ⟨he, hn⟩)
    · rintro ⟨⟨h1, h2⟩, h3⟩
      have hlive := h3.resolve_left hnull
      refine ⟨?_, fun n hn => ?_⟩
      · rw [free_ne hnull]
        exact backed_record.mpr ⟨h1, (place_mem_iff hs).mpr hlive, trivial⟩
      · rw [held_free hnull] at hn
        rw [ptr_free]
        exact h2 n (List.mem_of_mem_erase hn)

end

end Owned
end SierraTee
