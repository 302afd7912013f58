import SierraTee.Crypto.Owned

/-!
# The life of a crypto operation

* `life_clean_iff`  every block is freed once, and nothing but blocks in use is touched, exactly if
                    each call fits.
-/

namespace SierraTee
namespace Owned
open Holdings Runs

inductive AlgorithmKind where
  | digest | hmac | mac | evp | cts | ae | rsaCipher | oaep
  | rsaSignature | dsaSignature | otherSignature | derivation
  deriving DecidableEq

def kindOf : Algorithm → AlgorithmKind
  | .md5 | .sha1 | .sha224 | .sha256 | .sha384 | .sha512 => .digest
  | .hmacMd5 | .hmacSha1 | .hmacSha224 | .hmacSha256 | .hmacSha384 | .hmacSha512 => .hmac
  | .aesCbcMacNopad | .aesCbcMacPkcs5 | .aesCmac | .desCbcMacNopad | .desCbcMacPkcs5
  | .des3CbcMacNopad | .des3CbcMacPkcs5 => .mac
  | .aesEcbNopad | .aesCbcNopad | .aesCtr | .aesXts | .desEcbNopad | .desCbcNopad
  | .des3EcbNopad | .des3CbcNopad => .evp
  | .aesCts => .cts
  | .aesCcm | .aesGcm => .ae
  | .rsaesPkcs1V15 | .rsaNopad => .rsaCipher
  | .rsaesPkcs1OaepMgf1Sha1 => .oaep
  | .rsassaPkcs1V15Md5 | .rsassaPkcs1V15Sha1 => .rsaSignature
  | .dsaSha1 => .dsaSignature
  | .rsassaPkcs1V15Sha224 | .rsassaPkcs1V15Sha256 | .rsassaPkcs1V15Sha384
  | .rsassaPkcs1V15Sha512 | .rsassaPkcs1PssMgf1Sha1 | .rsassaPkcs1PssMgf1Sha224
  | .rsassaPkcs1PssMgf1Sha256 | .rsassaPkcs1PssMgf1Sha384 | .rsassaPkcs1PssMgf1Sha512 =>
    .otherSignature
  | .dhDeriveSharedSecret => .derivation

def AlgorithmKind.Has : AlgorithmKind → Mode → Prop
  | .digest, m => m = .digest
  | .hmac, m | .mac, m => m = .mac
  | .evp, m | .cts, m | .ae, m | .rsaCipher, m | .oaep, m => m = .encrypt ∨ m = .decrypt
  | .rsaSignature, m | .dsaSignature, m | .otherSignature, m => m = .sign ∨ m = .verify
  | .derivation, m => m = .derive

/-- the class of a handle, whose memory had the class `old` -/
def AlgorithmKind.classWord : AlgorithmKind → OperationClass → OperationClass
  | .digest, _ => .digest
  | .hmac, _ | .mac, _ => .mac
  | .evp, _ | .cts, _ | .oaep, _ => .cipher
  | .ae, _ => .ae
  | .rsaCipher, _ => .asymmetricCipher
  | .rsaSignature, _ | .dsaSignature, _ | .otherSignature, _ => .asymmetricSignature
  | .derivation, old => old

section
variable {a : Algorithm} {m : Mode}

theorem isDigest_iff : a.isDigest = true ↔ kindOf a = .digest := by cases a <;> decide

theorem isHmac_iff : a.isHmac = true ↔ kindOf a = .hmac := by cases a <;> decide

theorem isEvp_iff : a.isEvp = true ↔ kindOf a = .evp := by cases a <;> decide

theorem cts_iff : a = .aesCts ↔ kindOf a = .cts := by cases a <;> decide

theorem ae_iff : a = .aesCcm ∨ a = .aesGcm ↔ kindOf a = .ae := by cases a <;> decide

theorem rsaCipher_iff : a = .rsaesPkcs1V15 ∨ a = .rsaNopad ↔ kindOf a = .rsaCipher := by
  cases a <;> decide

theorem rsaSignature_iff :
    a = .rsassaPkcs1V15Md5 ∨ a = .rsassaPkcs1V15Sha1 ↔ kindOf a = .rsaSignature := by
  cases a <;> decide

theorem dsaSignature_iff : a = .dsaSha1 ↔ kindOf a = .dsaSignature := by cases a <;> decide

theorem kind_has (h : checkValidAlgorithmForMode m a = true) : (kindOf a).Has m := by
  cases m <;> cases a <;> first
    | exact absurd h (by decide) | exact rfl | exact Or.inl rfl | exact Or.inr rfl

theorem kind_class (h : checkValidAlgorithmForMode m a = true) (old : OperationClass) :
    classOf m a old = (kindOf a).classWord old := by
  cases m <;> cases a <;> first | rfl | exact absurd h (by decide)

end

/-! ## Calls that work on one field -/

def OpState.kind (s : OpState) : Algorithm × OperationClass × Mode × Pointer Algorithm :=
  (s.algorithm, s.operationClass, s.mode, s.cryptoCipher)

/-- from `s` to `t` only the field `f` and its blocks were worked with; this keeps the memory sound
exactly if `P` holds -/
structure Touches (f : OwnedField) (s t : OpState) (P : Prop) : Prop where
  shape : Shape t
  sound : Sound t ↔ Sound s ∧ P
  ptr : ∀ g ≠ f, t.ptr g = s.ptr g
  live : ∀ g ≠ f, Live t g ↔ Live s g
  kind : t.kind = s.kind

section
variable {s t u : OpState} {f g : OwnedField} {ok : Bool} {P Q : Prop}

theorem Touches.congr (h : Touches f s t P) (hpq : P ↔ Q) : Touches f s t Q :=
  { h with sound := h.sound.trans (and_congr_right fun _ => hpq) }

theorem Touches.trans (h : Touches f s t P) (h' : Touches f t u Q) : Touches f s u (P ∧ Q) where
  shape := h'.shape
  sound := by rw [h'.sound, h.sound, and_assoc]
  ptr := fun g hg => (h'.ptr g hg).trans (h.ptr g hg)
  live := fun g hg => (h'.live g hg).trans (h.live g hg)
  kind := h'.kind.trans h.kind

theorem Touches.andThen (h : Touches f s t P) (h' : Touches f t u Q) (hq : Q) : Touches f s u P :=
  (h.trans h').congr ⟨fun hpq => hpq.1, fun hp => ⟨hp, hq⟩⟩

theorem touches_refl (hs : Shape s) : Touches f s s True :=
  ⟨hs, ⟨fun h => ⟨h, trivial⟩, fun h => h.1⟩, fun _ _ => rfl, fun _ _ => Iff.rfl, rfl⟩

theorem touches_malloc (hs : Shape s) : Touches f s (s.malloc f ok) (¬ Live s f) where
  shape := hs.malloc f ok
  sound := sound_malloc_iff hs
  ptr := by
    intro g hg
    cases ok with
    | false => exact ptr_setNull_ne hg
    | true => exact ptr_malloc_ne hg
  live := fun g hg => live_malloc_ne hs hg
  kind := by cases ok <;> rfl

theorem touches_setNull (hs : Shape s) : Touches f s (s.setNull f) (¬ Live s f) :=
  ⟨hs.setNull f, sound_setNull_iff hs, fun _ hg => ptr_setNull_ne hg,
    fun _ hg => live_setNull_ne hg, rfl⟩

theorem touches_deref (hs : Shape s) : Touches f s (s.deref g) (Live s g) :=
  ⟨hs.deref g, sound_deref_iff hs, fun _ _ => rfl, fun _ _ => live_deref, rfl⟩

theorem touches_free (hs : Shape s) : Touches f s (s.free f) (s.ptr f = .null ∨ Live s f) where
  shape := hs.free f
  sound := sound_free_iff hs
  ptr := fun g _ => by rw [ptr_free]
  live := fun g hg => live_free_ne hs hg
  kind := by
    unfold OpState.free
    split <;> rfl

theorem malloc_key (ok : Bool) : (s.malloc f ok).ptr f = .null ∨ Live (s.malloc f ok) f := by
  cases ok with
  | false => exact Or.inl ptr_setNull_self
  | true => exact Or.inr live_malloc_self

/-! ### Keys -/

variable {k : KeyCall}

theorem setAesKey_touches (hs : Shape s) :
    Touches .keyValue s (setAesKey s k).2 (¬ Live s .keyValue) ∧
      ((setAesKey s k).2.ptr .keyValue = .null ∨ Live (setAesKey s k).2 .keyValue) := by
  unfold setAesKey
  cases k.malloc2 with
  | false =>
    rw [if_pos rfl]
    dsimp only
    exact ⟨touches_malloc hs, malloc_key false⟩
  | true =>
    have h1 : Touches .keyValue s (s.malloc .keyValue true) (¬ Live s .keyValue) := touches_malloc hs
    dsimp only
    rw [if_neg (by decide)]
    split_ifs
    · exact ⟨h1.andThen (touches_deref h1.shape) live_malloc_self,
        Or.inr (live_deref.mpr live_malloc_self)⟩
    · exact ⟨h1, Or.inr live_malloc_self⟩

theorem decodeRsa_touches (hs : Shape s) (r : D2i) :
    Touches .keyValue s (decodeRsa s r).2 (Live s .keyValue) := by
  have h1 : Touches .keyValue s (s.deref .keyValue) (Live s .keyValue) := touches_deref hs
  unfold decodeRsa
  cases r with
  | succeeds => exact h1
  | fails =>
    refine (h1.trans (touches_free h1.shape)).congr ⟨fun h => h.1, fun h => ⟨h, Or.inr ?_⟩⟩
    exact live_deref.mpr h
  | frees =>
    have h2 : Touches .keyValue s ((s.deref .keyValue).free .keyValue) (Live s .keyValue) :=
      (h1.trans (touches_free h1.shape)).congr
        ⟨fun h => h.1, fun h => ⟨h, Or.inr (live_deref.mpr h)⟩⟩
    have h3 := h2.andThen (touches_setNull h2.shape) (live_free_self h1.shape)
    exact h3.andThen (touches_free h3.shape) (Or.inl ptr_setNull_self)

theorem decodeRsa_live {r : D2i} (h : (decodeRsa s r).1 = true) (hl : Live s .keyValue) :
    Live (decodeRsa s r).2 .keyValue := by
  unfold decodeRsa at *
  cases r with
  | succeeds => exact live_deref.mpr hl
  | fails => cases h
  | frees => cases h

theorem fillRsaKeys_touches (hs : Shape s) :
    Touches .keyValue s (fillRsaKeys s k).2 (¬ Live s .keyValue) := by
  unfold fillRsaKeys
  by_cases hnull : k.keyNull = true
  · rw [if_pos hnull]
    exact touches_malloc hs
  rw [if_neg hnull]
  cases k.malloc with
  | false =>
    rw [if_pos rfl]
    dsimp only
    exact touches_malloc hs
  | true =>
    have h1 : Touches .keyValue s (s.malloc .keyValue true) (¬ Live s .keyValue) := touches_malloc hs
    have hl : Live (s.malloc .keyValue true) .keyValue := live_malloc_self
    dsimp only
    rw [if_neg (by decide)]
    by_cases hlen : k.dataLen ≠ swRsaKeylen
    · rw [if_pos hlen]
      exact h1.andThen (touches_free h1.shape) (Or.inr hl)
    · rw [if_neg hlen]
      have h2 := h1.andThen (decodeRsa_touches h1.shape k.publicKey) hl
      by_cases hp : (decodeRsa (s.malloc .keyValue true) k.publicKey).1 = true
      · rw [if_pos hp]
        exact h2.andThen (decodeRsa_touches h2.shape k.privateKey) (decodeRsa_live hp hl)
      · rw [if_neg hp]
        exact h2

theorem derefCipher_touches (hs : Shape s) :
    Touches f s s.derefCipher (∃ c, s.cryptoCipher = .assigned c) := by
  refine ⟨hs.derefCipher, sound_derefCipher_iff hs, fun g _ => ?_, fun g _ => ?_, ?_⟩
  · unfold OpState.derefCipher
    split <;> rfl
  · unfold OpState.derefCipher
    split
    · exact Iff.rfl
    · unfold Live
      rw [held_record]
      exact Iff.rfl
  · unfold OpState.derefCipher
    split <;> rfl

variable {keyLen : Algorithm → Nat}

def storeKey (s : OpState) (malloc : Bool) : OpState :=
  if malloc = false then s.malloc .keyValue malloc
  else (s.malloc .keyValue malloc).deref .keyValue

theorem storeKey_touches (hs : Shape s) (ok : Bool) :
    Touches .keyValue s (storeKey s ok) (¬ Live s .keyValue) ∧
      ((storeKey s ok).ptr .keyValue = .null ∨ Live (storeKey s ok) .keyValue) := by
  unfold storeKey
  cases ok with
  | false =>
    rw [if_pos rfl]
    exact ⟨touches_malloc hs, malloc_key false⟩
  | true =>
    have h1 : Touches .keyValue s (s.malloc .keyValue true) (¬ Live s .keyValue) := touches_malloc hs
    exact ⟨h1.andThen (touches_deref h1.shape) live_malloc_self,
      Or.inr (live_deref.mpr live_malloc_self)⟩

theorem setCipherKey_eq (keyLen : Algorithm → Nat) (s : OpState) (k : KeyCall) :
    setCipherKey keyLen s k =
      if lenOk keyLen s k = false then
        (false, if s.cryptoCipher.nonNull then s.derefCipher else s)
      else (k.malloc, storeKey (if s.cryptoCipher.nonNull then s.derefCipher else s) k.malloc) := by
  unfold setCipherKey storeKey
  cases k.malloc <;> rfl

theorem setCipherKey_assigned (hs : Shape s) {c : Algorithm} (hc : s.cryptoCipher = .assigned c) :
    Touches .keyValue s (setCipherKey keyLen s k).2 (k.dataLen = keyLen c → ¬ Live s .keyValue) ∧
      (s.ptr .keyValue = .null ∨ Live s .keyValue →
        (setCipherKey keyLen s k).2.ptr .keyValue = .null ∨
          Live (setCipherKey keyLen s k).2 .keyValue) := by
  have hderef : (if s.cryptoCipher.nonNull then s.derefCipher else s) = s := by
    rw [OpState.derefCipher, hc]
    rfl
  rw [setCipherKey_eq, hderef, lenOk, hc]
  by_cases hlen : k.dataLen = keyLen c
  · rw [if_neg (by simp [hlen])]
    obtain ⟨h1, h2⟩ := storeKey_touches hs k.malloc
    exact ⟨h1.congr ⟨fun h _ => h, fun h => h hlen⟩, fun _ => h2⟩
  · rw [if_pos (by simp [hlen])]
    exact ⟨(touches_refl hs).congr ⟨fun _ h => absurd h hlen, fun _ => trivial⟩, id⟩

theorem setCipherKey_unset (hs : Shape s) (hc : ∀ c, s.cryptoCipher ≠ .assigned c) :
    Touches .keyValue s (setCipherKey keyLen s k).2
      (s.cryptoCipher ≠ .unset true ∧ ¬ Live s .keyValue) := by
  rw [setCipherKey_eq]
  by_cases hstray : s.cryptoCipher = .unset true
  · have h1 : Touches .keyValue s s.derefCipher (∃ c, s.cryptoCipher = .assigned c) :=
      derefCipher_touches hs
    have hfalse (Q : Prop) : ((∃ c, s.cryptoCipher = .assigned c) ∧ Q) ↔
        s.cryptoCipher ≠ .unset true ∧ ¬ Live s .keyValue :=
      iff_of_false (fun h => h.1.elim hc) fun h => h.1 hstray
    have hnonNull : s.cryptoCipher.nonNull = true := by
      rw [hstray]
      rfl
    rw [if_pos hnonNull]
    split_ifs
    · exact (h1.trans (touches_refl h1.shape)).congr (hfalse _)
    · exact (h1.trans (storeKey_touches h1.shape k.malloc).1).congr (hfalse _)
  · have hnull : s.cryptoCipher.nonNull = false := by
      cases hp : s.cryptoCipher with
      | unset b =>
        cases b with
        | false => rfl
        | true => exact absurd hp hstray
      | null => rfl
      | assigned c => exact absurd hp (hc c)
    have hlen : lenOk keyLen s k = true := by
      unfold lenOk
      split
      next c h => exact absurd h (hc c)
      next h => exact absurd h hstray
      next => rfl
    rw [hlen, hnull]
    exact (storeKey_touches hs k.malloc).1.congr ⟨fun h => ⟨hstray, h⟩, fun h => h.2⟩

end

/-! ## Handles -/

def Unset (s : OpState) (f : OwnedField) : Prop := ∃ b, s.ptr f = .unset b

def Owns (s : OpState) (f : OwnedField) : Prop := s.ptr f = .null ∨ Live s f

def FieldsOk (s : OpState) : AlgorithmKind → Prop
  | .digest | .hmac => Live s .cryptoCtxt ∧ Unset s .keyValue ∧ Unset s .iv
  | .mac | .oaep | .derivation => Unset s .cryptoCtxt ∧ ∃ b, s.cryptoCipher = .unset b
  | .evp => Live s .cryptoCtxt ∧ s.cryptoCipher = .assigned s.algorithm ∧ Owns s .keyValue ∧
    Unset s .iv
  | .cts => s.ptr .cryptoCtxt = .null ∧ s.cryptoCipher = .null ∧
    (Unset s .keyValue ∨ Owns s .keyValue) ∧ (Unset s .iv ∨ Owns s .iv)
  | .ae => Live s .cryptoCtxt ∧ Owns s .keyValue ∧ Unset s .iv
  | .rsaCipher | .rsaSignature | .dsaSignature => s.ptr .cryptoCtxt = .null ∧ Unset s .iv
  | .otherSignature => s.ptr .cryptoCtxt = .null ∧ Unset s .keyValue ∧ Unset s .iv

def PointersOk (s : OpState) : Prop := FieldsOk s (kindOf s.algorithm)

/-- a handle that was allocated in memory with the class `old` -/
structure Allocated (old : OperationClass) (s : OpState) : Prop where
  shape : Shape s
  mode : (kindOf s.algorithm).Has s.mode
  operationClass : s.operationClass = (kindOf s.algorithm).classWord old
  pointers : PointersOk s

def KeyFits (keyLen : Algorithm → Nat) (s : OpState) (k : KeyCall) : Prop :=
  match kindOf s.algorithm with
  | .digest | .hmac | .mac | .otherSignature => True
  | .evp => k.dataLen = keyLen s.algorithm → ¬ Live s .keyValue
  | .cts => k.malloc = false ∧ ¬ Live s .keyValue
  | .oaep => s.cryptoCipher ≠ .unset true ∧ ¬ Live s .keyValue
  | .ae | .rsaCipher | .rsaSignature | .dsaSignature => ¬ Live s .keyValue
  | .derivation =>
    (s.operationClass = .cipher → s.cryptoCipher ≠ .unset true ∧ ¬ Live s .keyValue) ∧
    (s.operationClass = .ae → ¬ Live s .keyValue)

def InitFits (s : OpState) : Prop :=
  kindOf s.algorithm = .cts → (s.ptr .keyValue).nonNull = true → ¬ Live s .iv

/-- and when the operation is freed; nothing is left then -/
def FreeFits (s : OpState) : Prop :=
  match kindOf s.algorithm with
  | .digest | .hmac | .evp | .otherSignature => True
  | .mac | .oaep | .derivation => False
  | .cts => s.ptr .iv ≠ .unset true ∧ s.ptr .keyValue ≠ .unset true
  | .ae => s.ptr .iv ≠ .unset true
  | .rsaCipher | .rsaSignature | .dsaSignature => (s.ptr .keyValue).nonNull = false

section
variable {keyLen : Algorithm → Nat} {s t : OpState} {k : KeyCall} {old : OperationClass}
  {f : OwnedField} {P : Prop} {us : List (Use Place)}

theorem kind_fields (h : t.kind = s.kind) : t.algorithm = s.algorithm ∧
    t.operationClass = s.operationClass ∧ t.mode = s.mode ∧ t.cryptoCipher = s.cryptoCipher := by
  unfold OpState.kind at h
  simp only [Prod.mk.injEq] at h
  exact h

theorem Touches.unset (h : Touches f s t P) {g : OwnedField} (hg : g ≠ f) :
    Unset t g ↔ Unset s g := by
  unfold Unset
  rw [h.ptr g hg]

theorem thenDo_pure (next : OpState → Bool × OpState) : thenDo (true, s) next = next s := rfl

theorem thenDo_last (r : Bool × OpState) : (thenDo r fun s => (true, s)).2 = r.2 := by
  unfold thenDo
  split <;> rfl

theorem thenDo_thenDo (r : Bool × OpState) (next : OpState → Bool × OpState) :
    (thenDo r fun s => thenDo (next s) fun s => (true, s)).2 = (thenDo r next).2 := by
  unfold thenDo
  by_cases h : r.1 = true
  · rw [if_pos h, if_pos h]
    exact thenDo_last (next r.2)
  · rw [if_neg h, if_neg h]

def keyWork (keyLen : Algorithm → Nat) (s : OpState) (k : KeyCall) : OpState :=
  match kindOf s.algorithm with
  | .digest | .hmac | .mac | .otherSignature => s
  | .evp | .oaep => (setCipherKey keyLen s k).2
  | .cts => (thenDo (setCipherKey keyLen s k) fun s1 => setAesKey s1 k).2
  | .ae => (setAesKey s k).2
  | .rsaCipher | .rsaSignature => (fillRsaKeys s k).2
  | .dsaSignature => s.malloc .keyValue k.generated
  | .derivation =>
    if s.operationClass = .cipher then (setCipherKey keyLen s k).2
    else if s.operationClass = .ae then (setAesKey s k).2
    else s

theorem setKey_eq (hmode : (kindOf s.algorithm).Has s.mode)
    (hclass : s.operationClass = (kindOf s.algorithm).classWord old) :
    (teeSetOperationKey keyLen s k).2 = keyWork keyLen s k := by
  unfold keyWork teeSetOperationKey setSignatureKey
  cases hk : kindOf s.algorithm with
  | digest =>
    rw [hk] at hmode
    have hm : s.mode = .digest := hmode
    rw [if_pos hm]
  | hmac | mac =>
    rw [hk] at hmode hclass
    have hm : s.mode = .mac := hmode
    simp [hm, hclass, AlgorithmKind.classWord, cts_iff, hk, thenDo_pure]
  | evp | cts | ae | rsaCipher | oaep =>
    rw [hk] at hmode hclass
    have hm : s.mode ≠ .digest := by
      obtain h | h := hmode <;> rw [h] <;> decide
    simp [hm, hclass, AlgorithmKind.classWord, cts_iff, rsaCipher_iff, hk, thenDo_pure, thenDo_last,
      thenDo_thenDo]
  | rsaSignature | dsaSignature | otherSignature =>
    rw [hk] at hmode hclass
    have hm : s.mode ≠ .digest := by
      obtain h | h := hmode <;> rw [h] <;> decide
    simp [hm, hclass, AlgorithmKind.classWord, cts_iff, rsaCipher_iff, rsaSignature_iff,
      dsaSignature_iff, hk, thenDo_pure]
  | derivation =>
    rw [hk] at hmode
    have hm : s.mode = .derive := hmode
    cases s.operationClass <;>
      simp [hm, cts_iff, rsaCipher_iff, rsaSignature_iff, dsaSignature_iff, hk, thenDo_pure,
        thenDo_last]

theorem setCipherKey_null (hc : s.cryptoCipher = .null) :
    setCipherKey keyLen s k = (k.malloc, storeKey s k.malloc) := by
  rw [setCipherKey_eq, lenOk, hc]
  rfl

theorem ctsKey_touches (hs : Shape s) (hc : s.cryptoCipher = .null) :
    Touches .keyValue s (thenDo (setCipherKey keyLen s k) fun s1 => setAesKey s1 k).2
        (k.malloc = false ∧ ¬ Live s .keyValue) ∧
      Owns (thenDo (setCipherKey keyLen s k) fun s1 => setAesKey s1 k).2 .keyValue := by
  rw [setCipherKey_null hc]
  cases k.malloc with
  | false =>
    obtain ⟨h1, h2⟩ := storeKey_touches hs false
    exact ⟨h1.congr ⟨fun h => ⟨rfl, h⟩, fun h => h.2⟩, h2⟩
  | true =>
    have h1 := (storeKey_touches hs true).1
    have hlive : Live (storeKey s true) .keyValue := live_deref.mpr live_malloc_self
    obtain ⟨h2, h3⟩ := @setAesKey_touches (storeKey s true) k h1.shape
    refine ⟨(h1.trans h2).congr ⟨fun h => absurd hlive h.2, fun h => ?_⟩, h3⟩
    cases h.1

theorem keyWork_touches (h : Allocated old s) :
    Touches .keyValue s (keyWork keyLen s k) (KeyFits keyLen s k) := by
  have hs := h.shape
  have hp := h.pointers
  unfold PointersOk at hp
  unfold keyWork KeyFits
  cases hk : kindOf s.algorithm with
  | digest | hmac | mac | otherSignature => exact touches_refl hs
  | evp =>
    rw [hk] at hp
    exact (setCipherKey_assigned hs hp.2.1).1
  | cts =>
    rw [hk] at hp
    exact (ctsKey_touches hs hp.2.1).1
  | ae => exact (setAesKey_touches hs).1
  | rsaCipher | rsaSignature => exact fillRsaKeys_touches hs
  | dsaSignature => exact touches_malloc hs
  | oaep =>
    rw [hk] at hp
    obtain ⟨-, b, hb⟩ := hp
    exact setCipherKey_unset hs fun c hc => by cases hb.symm.trans hc
  | derivation =>
    rw [hk] at hp
    obtain ⟨-, b, hb⟩ := hp
    dsimp only
    by_cases hcipher : s.operationClass = .cipher
    · rw [if_pos hcipher]
      refine (setCipherKey_unset hs fun c hc => by cases hb.symm.trans hc).congr
        ⟨fun h => ⟨fun _ => h, fun hae => ?_⟩, fun h => h.1 hcipher⟩
      cases hcipher.symm.trans hae
    · rw [if_neg hcipher]
      by_cases hae : s.operationClass = .ae
      · rw [if_pos hae]
        exact (setAesKey_touches hs).1.congr
          ⟨fun h => ⟨fun hc => absurd hc hcipher, fun _ => h⟩, fun h => h.2 hae⟩
      · rw [if_neg hae]
        exact (touches_refl hs).congr
          ⟨fun _ => ⟨fun hc => absurd hc hcipher, fun hc => absurd hc hae⟩, fun _ => trivial⟩

theorem keyWork_pointers (h : Allocated old s) : PointersOk (keyWork keyLen s k) := by
  have ht := @keyWork_touches keyLen s k old h
  have hp := h.pointers
  obtain ⟨ha, -, -, hcipher⟩ := kind_fields ht.kind
  have hctxt := ht.ptr .cryptoCtxt (by decide)
  have hctxt' := ht.live .cryptoCtxt (by decide)
  have hiv := ht.ptr .iv (by decide)
  have hiv' := ht.live .iv (by decide)
  have hkey : keyWork keyLen s k = keyWork keyLen s k := rfl
  unfold PointersOk FieldsOk Unset Owns at hp ⊢
  rw [ha, hcipher, hctxt, hctxt', hiv, hiv']
  nth_rewrite 1 [keyWork] at hkey
  cases hk : kindOf s.algorithm with
  | digest | hmac | otherSignature =>
    rw [hk] at hp hkey
    rw [← hkey]
    exact hp
  | mac | oaep | derivation | rsaCipher | rsaSignature | dsaSignature =>
    rw [hk] at hp
    exact hp
  | evp =>
    rw [hk] at hp hkey
    obtain ⟨h1, h2, h3, h4⟩ := hp
    refine ⟨h1, h2, ?_, h4⟩
    rw [← hkey]
    exact (setCipherKey_assigned h.shape h2).2 h3
  | cts =>
    rw [hk] at hp hkey
    obtain ⟨h1, h2, -, h4⟩ := hp
    refine ⟨h1, h2, Or.inr ?_, h4⟩
    rw [← hkey]
    exact (ctsKey_touches h.shape h2).2
  | ae =>
    rw [hk] at hp hkey
    obtain ⟨h1, -, h3⟩ := hp
    refine ⟨h1, ?_, h3⟩
    rw [← hkey]
    exact (setAesKey_touches h.shape).2

theorem Allocated.setKey (h : Allocated old s) : Allocated old (teeSetOperationKey keyLen s k).2 := by
  have ht := @keyWork_touches keyLen s k old h
  obtain ⟨ha, hc, hm, -⟩ := kind_fields ht.kind
  rw [setKey_eq h.mode h.operationClass]
  refine ⟨ht.shape, ?_, ?_, keyWork_pointers h⟩
  · rw [ha, hm]
    exact h.mode
  · rw [ha, hc]
    exact h.operationClass

theorem setKey_sound_iff (h : Allocated old s) :
    Sound (teeSetOperationKey keyLen s k).2 ↔ Sound s ∧ KeyFits keyLen s k := by
  rw [setKey_eq h.mode h.operationClass]
  exact (keyWork_touches h).sound

/-! ### Initialisation vectors -/

theorem Owns.live (h : Owns s f) (hn : (s.ptr f).nonNull = true) : Live s f := by
  obtain h | h := h
  · rw [h] at hn
    cases hn
  · exact h

theorem ctsIv_touches (hs : Shape s) (ok : Bool) :
    Touches .iv s (if ok = false then s.malloc .iv ok else (s.malloc .iv ok).deref .iv)
        (¬ Live s .iv) ∧
      Owns (if ok = false then s.malloc .iv ok else (s.malloc .iv ok).deref .iv) .iv := by
  cases ok with
  | false =>
    rw [if_pos rfl]
    exact ⟨touches_malloc hs, malloc_key false⟩
  | true =>
    have h1 : Touches .iv s (s.malloc .iv true) (¬ Live s .iv) := touches_malloc hs
    exact ⟨h1.andThen (touches_deref h1.shape) live_malloc_self,
      Or.inr (live_deref.mpr live_malloc_self)⟩

theorem cipherInit_cts (hc : s.operationClass = .cipher) (hk : kindOf s.algorithm = .cts)
    (ok : Bool) : teeCipherInit s ok =
      if (s.ptr .keyValue).nonNull = false then s
      else if ok = false then s.malloc .iv ok else (s.malloc .iv ok).deref .iv := by
  unfold teeCipherInit
  rw [if_neg (not_not_intro hc), if_pos (cts_iff.mpr hk)]

theorem cipherInit_evp (hc : s.operationClass = .cipher) (hk : kindOf s.algorithm = .evp)
    {a : Algorithm} (ha : s.cryptoCipher = .assigned a) (ok : Bool) : teeCipherInit s ok =
      if (s.ptr .keyValue).nonNull = false then s
      else (s.deref .cryptoCtxt).deref .keyValue := by
  have hderef : s.derefCipher = s := by rw [OpState.derefCipher, ha]
  have hnonNull : s.cryptoCipher.nonNull = true := by
    rw [ha]
    rfl
  have hcts : s.algorithm ≠ .aesCts := by
    rw [Ne, cts_iff, hk]
    decide
  unfold teeCipherInit
  rw [if_neg (not_not_intro hc), if_neg hcts, if_pos (isEvp_iff.mpr hk), hderef, hnonNull,
    if_neg (Ne.symm Bool.false_ne_true)]

theorem cipherInit_of_ne (hcts : kindOf s.algorithm ≠ .cts) (hevp : kindOf s.algorithm ≠ .evp)
    (ok : Bool) : teeCipherInit s ok = s := by
  unfold teeCipherInit
  simp [cts_iff, isEvp_iff, hcts, hevp]

theorem pointersOk_deref (h : PointersOk s) (f : OwnedField) : PointersOk (s.deref f) := by
  unfold PointersOk FieldsOk Owns Live at *
  rw [held_deref]
  exact h

theorem ctsInit_pointers (hk : kindOf s.algorithm = .cts) (hp : PointersOk s)
    (ht : Touches .iv s t P) (ho : Owns t .iv) : PointersOk t := by
  obtain ⟨ha, -, -, hcipher⟩ := kind_fields ht.kind
  unfold PointersOk at *
  rw [hk] at hp
  rw [ha, hk]
  obtain ⟨h1, h2, h3, -⟩ := hp
  refine ⟨(ht.ptr .cryptoCtxt (by decide)).trans h1, hcipher.trans h2, ?_, Or.inr ho⟩
  unfold Unset Owns at *
  rw [ht.ptr .keyValue (by decide), ht.live .keyValue (by decide)]
  exact h3

theorem cipherInit_touches (h : Allocated old s) (ok : Bool) :
    Touches .iv s (teeCipherInit s ok) (InitFits s) ∧ PointersOk (teeCipherInit s ok) := by
  have hs := h.shape
  have hp := h.pointers
  have hc := h.operationClass
  by_cases hcts : kindOf s.algorithm = .cts
  · rw [hcts] at hc
    rw [cipherInit_cts hc hcts]
    by_cases hkey : (s.ptr .keyValue).nonNull = false
    · rw [if_pos hkey]
      refine ⟨(touches_refl hs).congr ⟨fun _ _ hn => ?_, fun _ => trivial⟩, hp⟩
      rw [hkey] at hn
      cases hn
    · rw [if_neg hkey]
      obtain ⟨h1, h2⟩ := ctsIv_touches hs ok
      have hfits : ¬ Live s .iv ↔ InitFits s :=
        ⟨fun h _ _ => h, fun h => h hcts (eq_true_of_ne_false hkey)⟩
      exact ⟨h1.congr hfits, ctsInit_pointers hcts hp h1 h2⟩
  have hfits : InitFits s := fun he => absurd he hcts
  by_cases hevp : kindOf s.algorithm = .evp
  · have hp' := hp
    unfold PointersOk at hp'
    rw [hevp] at hp' hc
    rw [cipherInit_evp hc hevp hp'.2.1]
    by_cases hkey : (s.ptr .keyValue).nonNull = false
    · rw [if_pos hkey]
      exact ⟨(touches_refl hs).congr (iff_of_true trivial hfits), hp⟩
    · rw [if_neg hkey]
      have hlive := hp'.2.2.1.live (eq_true_of_ne_false hkey)
      have h1 : Touches .iv s (s.deref .cryptoCtxt) (Live s .cryptoCtxt) := touches_deref hs
      have h2 := h1.andThen (touches_deref h1.shape) (live_deref.mpr hlive)
      exact ⟨h2.congr (iff_of_true hp'.1 hfits), pointersOk_deref (pointersOk_deref hp _) _⟩
  · rw [cipherInit_of_ne hcts hevp]
    exact ⟨(touches_refl hs).congr (iff_of_true trivial hfits), hp⟩

theorem Allocated.cipherInit (h : Allocated old s) (ok : Bool) : Allocated old (teeCipherInit s ok) := by
  obtain ⟨ht, hp⟩ := cipherInit_touches h ok
  obtain ⟨ha, hc, hm, -⟩ := kind_fields ht.kind
  refine ⟨ht.shape, ?_, ?_, hp⟩
  · rw [ha, hm]
    exact h.mode
  · rw [ha, hc]
    exact h.operationClass

/-! ### Freeing -/

theorem Touches.owns (h : Touches f s t P) {g : OwnedField} (hg : g ≠ f) : Owns t g ↔ Owns s g := by
  unfold Owns
  rw [h.ptr g hg, h.live g hg]

theorem not_live_unset (h : Unset s f) : ¬ Live s f := by
  obtain ⟨b, hb⟩ := h
  exact not_live_of_ne fun n hn => by cases hb.symm.trans hn

theorem not_owns_unset (h : Unset s f) : ¬ Owns s f := by
  rintro (hn | hl)
  · obtain ⟨b, hb⟩ := h
    cases hb.symm.trans hn
  · exact not_live_unset h hl

theorem unset_nonNull (h : Unset s f) : (s.ptr f).nonNull = true ↔ s.ptr f = .unset true := by
  obtain ⟨b, hb⟩ := h
  rw [hb]
  cases b <;> decide

theorem not_unset_of_owns (h : Owns s f) : s.ptr f ≠ .unset true := fun he =>
  not_owns_unset ⟨true, he⟩ h

theorem freeNonNull_touches (hs : Shape s) :
    Touches f s (freeNonNull s f) ((s.ptr f).nonNull = true → Live s f) ∧
      ¬ Live (freeNonNull s f) f := by
  unfold freeNonNull
  by_cases hn : (s.ptr f).nonNull = true
  · rw [if_pos hn]
    refine ⟨(touches_free hs).congr ⟨fun h _ => ?_, fun h => Or.inr (h hn)⟩, live_free_self hs⟩
    exact Owns.live h hn
  · rw [if_neg hn]
    refine ⟨(touches_refl hs).congr ⟨fun _ h => absurd h hn, fun _ => trivial⟩, ?_⟩
    refine not_live_of_ne fun n he => hn ?_
    rw [he]
    rfl

theorem nonNull_live_iff (h : Unset s f ∨ Owns s f) :
    ((s.ptr f).nonNull = true → Live s f) ↔ s.ptr f ≠ .unset true := by
  obtain h | h := h
  · rw [unset_nonNull h]
    exact ⟨fun hl he => not_live_unset h (hl he), fun hn he => absurd he hn⟩
  · exact iff_of_true h.live (not_unset_of_owns h)

theorem freeKeyObject_touches (hs : Shape s) :
    Touches .keyValue s (freeKeyObject s) ((s.ptr .keyValue).nonNull = false) ∧
      ¬ Live (freeKeyObject s) .keyValue := by
  unfold freeKeyObject
  by_cases hn : (s.ptr .keyValue).nonNull = true
  · rw [if_pos hn]
    have h1 : Touches .keyValue s (s.deref .keyValue) (Live s .keyValue) := touches_deref hs
    have h2 := h1.trans (touches_free h1.shape)
    have h3 := h2.trans (touches_free h2.shape)
    refine ⟨h3.congr (iff_of_false (fun h => ?_) fun h => ?_), live_free_self h2.shape⟩
    · obtain hnull | hlive := h.2
      · rw [ptr_free] at hnull
        have hnull' : s.ptr .keyValue = .null := hnull
        rw [hnull'] at hn
        cases hn
      · exact live_free_self h1.shape hlive
    · rw [hn] at h
      cases h
  · rw [if_neg hn]
    have hfalse : (s.ptr .keyValue).nonNull = false := eq_false_of_ne_true hn
    refine ⟨(touches_refl hs).congr (iff_of_true trivial hfalse), ?_⟩
    refine not_live_of_ne fun n he => hn ?_
    rw [he]
    rfl

def freeWork (s : OpState) : OpState :=
  match kindOf s.algorithm with
  | .digest | .hmac => s.deref .cryptoCtxt
  | .evp => (freeNonNull s .keyValue).deref .cryptoCtxt
  | .cts | .ae =>
    let s1 := freeNonNull (freeNonNull s .iv) .keyValue
    if (s1.ptr .cryptoCtxt).nonNull then s1.deref .cryptoCtxt else s1
  | .rsaCipher | .rsaSignature | .dsaSignature => freeKeyObject s
  | .mac | .oaep | .otherSignature | .derivation => s

theorem freeFields_eq (hc : s.operationClass = (kindOf s.algorithm).classWord old) :
    freeFields s = (freeWork s).free .cryptoCtxt := by
  unfold freeFields freeWork handleDigestFree handleMacFree handleCipherFree
  simp only [isDigest_iff, isHmac_iff, isEvp_iff, cts_iff, ae_iff, rsaCipher_iff, rsaSignature_iff,
    dsaSignature_iff]
  rw [hc]
  cases hk : kindOf s.algorithm with
  | derivation => cases old <;> rfl
  | _ => rfl

/-- from `s` to `t` everything that the fields own is freed; this keeps the memory sound exactly if
`P` holds -/
structure Freed (s t : OpState) (P : Prop) : Prop where
  shape : Shape t
  sound : Sound t ↔ Sound s ∧ P
  empty : P → ∀ f, ¬ Live t f

theorem freed_ctxt (hs : Shape t) (hsound : Sound t ↔ Sound s ∧ P)
    (hctxt : P → Owns t .cryptoCtxt ∧ ¬ Live t .keyValue ∧ ¬ Live t .iv) :
    Freed s (t.free .cryptoCtxt) P where
  shape := hs.free .cryptoCtxt
  sound := by
    rw [sound_free_iff hs, hsound]
    exact ⟨fun h => h.1, fun h => ⟨h, (hctxt h.2).1⟩⟩
  empty := by
    intro hp f
    obtain ⟨-, h2, h3⟩ := hctxt hp
    cases f with
    | cryptoCtxt => exact live_free_self hs
    | keyValue => exact mt (live_free_ne hs (by decide)).mp h2
    | iv => exact mt (live_free_ne hs (by decide)).mp h3

theorem freed_unset (hs : Shape s) (hu : Unset s .cryptoCtxt) : Freed s (s.free .cryptoCtxt) False where
  shape := hs.free .cryptoCtxt
  sound := (sound_free_iff hs).trans (and_congr_right fun _ => iff_of_false (not_owns_unset hu) id)
  empty := False.elim

theorem freed_key (h : Touches .keyValue s t P) (hl : ¬ Live t .keyValue)
    (ho : Owns s .cryptoCtxt) (hiv : Unset s .iv) : Freed s (t.free .cryptoCtxt) P :=
  freed_ctxt h.shape h.sound fun _ => ⟨(h.owns (by decide)).mpr ho, hl,
    mt (h.live .iv (by decide)).mp (not_live_unset hiv)⟩

theorem freeBoth_touches (hs : Shape s) (hiv : Unset s .iv ∨ Owns s .iv)
    (hkey : Unset s .keyValue ∨ Owns s .keyValue) :
    ∃ t, freeNonNull (freeNonNull s .iv) .keyValue = t ∧ Shape t ∧
      (Sound t ↔ Sound s ∧ s.ptr .iv ≠ .unset true ∧ s.ptr .keyValue ≠ .unset true) ∧
      t.ptr .cryptoCtxt = s.ptr .cryptoCtxt ∧ (Live t .cryptoCtxt ↔ Live s .cryptoCtxt) ∧
      ¬ Live t .keyValue ∧ ¬ Live t .iv := by
  obtain ⟨h1, h1'⟩ := @freeNonNull_touches s .iv hs
  obtain ⟨h2, h2'⟩ := @freeNonNull_touches (freeNonNull s .iv) .keyValue h1.shape
  refine ⟨_, rfl, h2.shape, ?_, ?_, ?_, h2', mt (h2.live .iv (by decide)).mp h1'⟩
  · rw [h2.sound, h1.sound, and_assoc, nonNull_live_iff hiv, h1.ptr .keyValue (by decide),
      h1.live .keyValue (by decide), nonNull_live_iff hkey]
  · rw [h2.ptr .cryptoCtxt (by decide), h1.ptr .cryptoCtxt (by decide)]
  · rw [h2.live .cryptoCtxt (by decide), h1.live .cryptoCtxt (by decide)]

theorem freeFields_freed (h : Allocated old s) : Freed s (freeFields s) (FreeFits s) := by
  have hs := h.shape
  have hp := h.pointers
  rw [freeFields_eq h.operationClass]
  unfold PointersOk at hp
  unfold freeWork FreeFits
  cases hk : kindOf s.algorithm with
  | digest | hmac =>
    rw [hk] at hp
    obtain ⟨h1, h2, h3⟩ := hp
    have ht : Touches .keyValue s (s.deref .cryptoCtxt) True :=
      (touches_deref hs).congr (iff_true_intro h1)
    exact freed_key ht (mt live_deref.mp (not_live_unset h2)) (Or.inr h1) h3
  | mac | oaep | derivation =>
    rw [hk] at hp
    exact freed_unset hs hp.1
  | evp =>
    rw [hk] at hp
    obtain ⟨h1, -, h3, h4⟩ := hp
    obtain ⟨ht, hl⟩ := @freeNonNull_touches s .keyValue hs
    have hctxt := (ht.live .cryptoCtxt (by decide)).mpr h1
    have ht' := (ht.andThen (touches_deref ht.shape) hctxt).congr (iff_true_intro h3.live)
    exact freed_key ht' (mt live_deref.mp hl) (Or.inr h1) h4
  | cts =>
    rw [hk] at hp
    obtain ⟨h1, -, h3, h4⟩ := hp
    obtain ⟨t, ht, hshape, hsound, hptr, -, hkey, hiv⟩ := freeBoth_touches hs h4 h3
    dsimp only
    rw [ht, hptr, h1]
    exact freed_ctxt hshape hsound fun _ => ⟨Or.inl (hptr.trans h1), hkey, hiv⟩
  | ae =>
    rw [hk] at hp
    obtain ⟨h1, h2, h3⟩ := hp
    obtain ⟨t, ht, hshape, hsound, hptr, hlive, hkey, hiv⟩ :=
      freeBoth_touches hs (Or.inl h3) (Or.inr h2)
    have hctxt : Live t .cryptoCtxt := hlive.mpr h1
    have hnonNull : (t.ptr .cryptoCtxt).nonNull = true := by
      obtain ⟨n, hn, -⟩ := hctxt
      rw [hn]
      rfl
    dsimp only
    rw [ht, if_pos hnonNull]
    refine freed_ctxt (hshape.deref _) ?_ fun _ => ⟨Or.inr (live_deref.mpr hctxt),
      mt live_deref.mp hkey, mt live_deref.mp hiv⟩
    rw [sound_deref_iff hshape, hsound]
    exact ⟨fun h => ⟨h.1.1, h.1.2.1⟩, fun h => ⟨⟨h.1, h.2, not_unset_of_owns h2⟩, hctxt⟩⟩
  | rsaCipher | rsaSignature | dsaSignature =>
    rw [hk] at hp
    obtain ⟨ht, hl⟩ := freeKeyObject_touches hs
    exact freed_key ht hl (Or.inl hp.1) hp.2
  | otherSignature =>
    rw [hk] at hp
    obtain ⟨h1, h2, h3⟩ := hp
    have ht : Touches .keyValue s s True := touches_refl hs
    exact freed_key ht (not_live_unset h2) (Or.inl h1) h3

/-! ### Allocation -/

def AlgorithmKind.HasContext : AlgorithmKind → Prop
  | .digest | .hmac | .evp | .ae => True
  | _ => False

def allocWork (s : OpState) : OpState :=
  match kindOf s.algorithm with
  | .digest | .hmac => (s.malloc .cryptoCtxt true).deref .cryptoCtxt
  | .evp =>
    (({ s with cryptoCipher := .assigned s.algorithm }.malloc .cryptoCtxt true).deref
      .cryptoCtxt).setNull .keyValue
  | .cts => { s.setNull .cryptoCtxt with cryptoCipher := .null }
  | .ae => { (s.malloc .cryptoCtxt true).setNull .keyValue with cryptoCipher := .null }
  | .rsaCipher | .rsaSignature | .dsaSignature | .otherSignature => s.setNull .cryptoCtxt
  | .mac | .oaep | .derivation => s

def ContextOk (ctxtOk initOk : Bool) (kind : AlgorithmKind) : Prop :=
  (kind.HasContext → ctxtOk = true) ∧ (kind = .digest → initOk = true)

variable {ctxtOk initOk : Bool}

theorem modeAlloc_ok (hm : (kindOf s.algorithm).Has s.mode)
    (hok : ContextOk ctxtOk initOk (kindOf s.algorithm)) :
    modeAlloc s ctxtOk initOk = (true, allocWork s) := by
  obtain ⟨h1, h2⟩ := hok
  unfold modeAlloc allocWork handleDigestAlloc handleMacAlloc handleCipherAlloc
  simp only [isDigest_iff, isHmac_iff, isEvp_iff, cts_iff, ae_iff, rsaCipher_iff]
  cases hk : kindOf s.algorithm with
  | digest =>
    rw [hk] at hm h1 h2
    rw [show s.mode = .digest from hm, h1 trivial, h2 rfl]
    rfl
  | hmac =>
    rw [hk] at hm h1
    rw [show s.mode = .mac from hm, h1 trivial]
    rfl
  | mac =>
    rw [hk] at hm
    rw [show s.mode = .mac from hm]
    rfl
  | evp | ae =>
    rw [hk] at hm h1
    obtain hm | hm := hm <;> rw [hm, h1 trivial] <;> rfl
  | cts | rsaCipher | oaep =>
    rw [hk] at hm
    obtain hm | hm := hm <;> rw [hm] <;> rfl
  | rsaSignature | dsaSignature | otherSignature =>
    rw [hk] at hm
    obtain hm | hm := hm <;> rw [hm]
  | derivation =>
    rw [hk] at hm
    rw [show s.mode = .derive from hm]

theorem modeAlloc_fails (hm : (kindOf s.algorithm).Has s.mode)
    (hok : ¬ ContextOk ctxtOk initOk (kindOf s.algorithm)) :
    (modeAlloc s ctxtOk initOk).1 = false ∧
      ∃ us, (modeAlloc s ctxtOk initOk).2.uses = s.uses ++ us ∧ ∀ q, .release q ∉ us := by
  unfold ContextOk at hok
  unfold modeAlloc handleDigestAlloc handleMacAlloc handleCipherAlloc
  simp only [isDigest_iff, isHmac_iff, isEvp_iff, cts_iff, ae_iff, rsaCipher_iff]
  have hnone : s.uses = s.uses ++ [] := (List.append_nil _).symm
  cases hk : kindOf s.algorithm with
  | digest =>
    rw [hk] at hm
    rw [show s.mode = .digest from hm]
    cases hc : ctxtOk with
    | false => exact ⟨rfl, [], hnone, fun q hq => by cases hq⟩
    | true =>
      have hi : initOk = false := by
        by_contra hi
        rw [hk] at hok
        exact hok ⟨fun _ => hc, fun _ => eq_true_of_ne_false hi⟩
      refine ⟨hi, [.acquire (.block s.next), .access (.block s.next)], ?_, fun q hq => ?_⟩
      · simp [OpState.deref, OpState.record, OpState.malloc, OpState.assign, Pointer.place]
      · simp at hq
  | hmac =>
    rw [hk] at hm hok
    have hc : ctxtOk = false := by simpa [AlgorithmKind.HasContext] using hok
    rw [show s.mode = .mac from hm, hc]
    exact ⟨rfl, [], hnone, fun q hq => by cases hq⟩
  | evp | ae =>
    rw [hk] at hm hok
    have hc : ctxtOk = false := by simpa [AlgorithmKind.HasContext] using hok
    obtain hm | hm := hm <;> rw [hm, hc] <;> exact ⟨rfl, [], hnone, fun q hq => by cases hq⟩
  | mac | cts | rsaCipher | oaep | rsaSignature | dsaSignature | otherSignature | derivation =>
    rw [hk] at hok
    exact absurd ⟨False.elim, fun he => by cases he⟩ hok

theorem newState_shape (old : NewHandle) (a : Algorithm) (m : Mode) (c : Pointer Algorithm)
    (word : OperationClass) :
    Shape { newState old a m with cryptoCipher := c, operationClass := word } ∧
      Sound { newState old a m with cryptoCipher := c, operationClass := word } := by
  refine ⟨⟨fun n hn => ?_, fun f n hn => (by cases hn), fun f g n hn => (by cases hn), fun h => ?_,
    List.pairwise_singleton _ _, List.mem_singleton_self _, fun q => List.count_le_length,
    fun n hn hm => ?_⟩, ⟨trivial, fun n hn => Or.inl ?_⟩⟩
  · cases List.mem_singleton.mp hn
    exact Nat.one_pos
  · cases List.mem_singleton.mp h
  · cases List.mem_singleton.mp hm
    exact absurd hn (Nat.not_succ_le_zero 0)
  · exact Place.block.inj (List.mem_singleton.mp hn)

theorem newContext_touches (hs : Shape s) (hu : Unset s .cryptoCtxt) :
    Touches .cryptoCtxt s ((s.malloc .cryptoCtxt true).deref .cryptoCtxt) True ∧
      Live ((s.malloc .cryptoCtxt true).deref .cryptoCtxt) .cryptoCtxt := by
  have h1 : Touches .cryptoCtxt s (s.malloc .cryptoCtxt true) True :=
    (touches_malloc hs).congr (iff_true_intro (not_live_unset hu))
  exact ⟨h1.andThen (touches_deref h1.shape) live_malloc_self, live_deref.mpr live_malloc_self⟩

theorem setNull_touches (hs : Shape s) (hu : Unset s f) : Touches f s (s.setNull f) True :=
  (touches_setNull hs).congr (iff_true_intro (not_live_unset hu))

theorem allocated_of_touches (hsound : Sound s) (ht : Touches f s t True)
    (hm : (kindOf t.algorithm).Has t.mode)
    (hc : t.operationClass = (kindOf t.algorithm).classWord old)
    (hp : FieldsOk t (kindOf t.algorithm)) : Allocated old t ∧ Sound t :=
  ⟨⟨ht.shape, hm, hc, hp⟩, ht.sound.mpr ⟨hsound, trivial⟩⟩

theorem allocWork_allocated (old : NewHandle) {a : Algorithm} {m : Mode}
    (hvalid : checkValidAlgorithmForMode m a = true) :
    Allocated old.operationClass
        { allocWork (newState old a m) with operationClass := classOf m a old.operationClass } ∧
      Sound { allocWork (newState old a m) with
        operationClass := classOf m a old.operationClass } := by
  have hm := kind_has hvalid
  have hc := kind_class hvalid old.operationClass
  have hbase (c : Pointer Algorithm) :=
    newState_shape old a m c (classOf m a old.operationClass)
  have hunset (c : Pointer Algorithm) (f : OwnedField) : Unset { newState old a m with
      cryptoCipher := c, operationClass := classOf m a old.operationClass } f := ⟨_, rfl⟩
  have hnull (c : Pointer Algorithm) := setNull_touches (hbase c).1 (hunset c .cryptoCtxt)
  unfold allocWork
  rw [show (newState old a m).algorithm = a from rfl]
  cases hk : kindOf a with
  | digest | hmac =>
    obtain ⟨hs, hsound⟩ := hbase (.unset old.cryptoCipher)
    obtain ⟨ht, hl⟩ := newContext_touches hs (hunset _ _)
    refine allocated_of_touches hsound ht hm hc ?_
    show FieldsOk _ (kindOf a)
    rw [hk]
    exact ⟨hl, (ht.unset (by decide)).mpr (hunset _ _), (ht.unset (by decide)).mpr (hunset _ _)⟩
  | mac | oaep | derivation =>
    obtain ⟨hs, hsound⟩ := hbase (.unset old.cryptoCipher)
    refine ⟨⟨hs, hm, hc, ?_⟩, hsound⟩
    show FieldsOk _ (kindOf a)
    rw [hk]
    exact ⟨hunset _ _, _, rfl⟩
  | evp =>
    obtain ⟨hs, hsound⟩ := hbase (.assigned a)
    obtain ⟨h1, hl⟩ := newContext_touches hs (hunset _ _)
    have h2 := setNull_touches h1.shape ((h1.unset (by decide)).mpr (hunset _ .keyValue))
    refine allocated_of_touches (h1.sound.mpr ⟨hsound, trivial⟩) h2 hm hc ?_
    show FieldsOk _ (kindOf a)
    rw [hk]
    exact ⟨(h2.live .cryptoCtxt (by decide)).mpr hl, rfl, Or.inl rfl,
      (h2.unset (by decide)).mpr ((h1.unset (by decide)).mpr (hunset _ _))⟩
  | cts =>
    obtain ⟨hs, hsound⟩ := hbase .null
    have ht := hnull .null
    refine allocated_of_touches hsound ht hm hc ?_
    show FieldsOk _ (kindOf a)
    rw [hk]
    exact ⟨rfl, rfl, Or.inl ((ht.unset (by decide)).mpr (hunset _ _)),
      Or.inl ((ht.unset (by decide)).mpr (hunset _ _))⟩
  | ae =>
    obtain ⟨hs, hsound⟩ := hbase .null
    have h1 := (@touches_malloc _ .cryptoCtxt true hs).congr
      (iff_true_intro (not_live_unset (hunset _ _)))
    have h2 := setNull_touches h1.shape ((h1.unset (by decide)).mpr (hunset _ .keyValue))
    refine allocated_of_touches (h1.sound.mpr ⟨hsound, trivial⟩) h2 hm hc ?_
    show FieldsOk _ (kindOf a)
    rw [hk]
    exact ⟨(h2.live .cryptoCtxt (by decide)).mpr live_malloc_self, Or.inl rfl,
      (h2.unset (by decide)).mpr ((h1.unset (by decide)).mpr (hunset _ _))⟩
  | rsaCipher | rsaSignature | dsaSignature =>
    obtain ⟨hs, hsound⟩ := hbase (.unset old.cryptoCipher)
    have ht := hnull (.unset old.cryptoCipher)
    refine allocated_of_touches hsound ht hm hc ?_
    show FieldsOk _ (kindOf a)
    rw [hk]
    exact ⟨rfl, (ht.unset (by decide)).mpr (hunset _ _)⟩
  | otherSignature =>
    obtain ⟨hs, hsound⟩ := hbase (.unset old.cryptoCipher)
    have ht := hnull (.unset old.cryptoCipher)
    refine allocated_of_touches hsound ht hm hc ?_
    show FieldsOk _ (kindOf a)
    rw [hk]
    exact ⟨rfl, (ht.unset (by decide)).mpr (hunset _ _), (ht.unset (by decide)).mpr (hunset _ _)⟩

/-! ### The whole life -/

/-- only blocks in use are touched, and each block is freed once -/
def Clean (us : List (Use Place)) : Prop := Backed [] us ∧ ReleasedOnce us

theorem clean_iff (h1 : ∀ p, us.count (.acquire p) ≤ 1) :
    Clean us ↔ Backed [] us ∧ holding [] us = [] :=
  and_congr_right fun hb => (releasedOnce_iff hb h1).trans (balanced_iff hb)

theorem clean_release_iff (hs : Shape s) :
    Clean (s.uses ++ [.release (.block 0)]) ↔ Sound s ∧ ∀ f, ¬ Live s f := by
  have hbacked : Backed [] (s.uses ++ [.release (.block 0)]) ↔ Backed [] s.uses :=
    backed_append.trans ⟨fun h => h.1, fun h => ⟨h, hs.self, trivial⟩⟩
  have hheld : holding [] (s.uses ++ [.release (.block 0)]) = s.held.erase (.block 0) := by
    rw [holding_append]
    rfl
  rw [clean_iff, hbacked, hheld]
  · constructor
    · rintro ⟨h1, h2⟩
      have hzero (n : Nat) (hn : .block n ∈ s.held) : n = 0 := by
        by_contra hne
        have hm := (mem_erase_of_shape hs).mpr ⟨fun he => hne (Place.block.inj he), hn⟩
        rw [h2] at hm
        cases hm
      refine ⟨⟨h1, fun n hn => Or.inl (hzero n hn)⟩, fun f ⟨n, hn, hm⟩ => ?_⟩
      exact absurd (hzero n hm) (hs.ptrs f n hn).1.ne'
    · rintro ⟨h1, h2⟩
      refine ⟨h1.backed, List.eq_nil_iff_forall_not_mem.mpr fun q hq => ?_⟩
      obtain ⟨hne, hm⟩ := (mem_erase_of_shape hs).mp hq
      cases q with
      | stray => exact hs.noStray hm
      | block n =>
        obtain h3 | ⟨f, hf⟩ := h1.owned n hm
        · exact hne (congrArg Place.block h3)
        · exact h2 f ⟨n, hf, hm⟩
  · intro p
    have h1 := hs.once p
    rw [List.count_append, List.count_singleton, if_neg (by simp), Nat.add_zero]
    exact h1

theorem free_clean_iff (h : Allocated old s) :
    Clean (teeFreeOperation s) ↔ Sound s ∧ FreeFits s := by
  obtain ⟨h1, h2, h3⟩ := freeFields_freed h
  unfold teeFreeOperation
  rw [clean_release_iff h1, h2]
  exact ⟨fun h => h.1, fun h => ⟨h, h3 h.2⟩⟩

/-! ### Runs -/

/-- the calls between allocation and `TEE_FreeOperation` -/
inductive OpCall where
  | setOperationKey (k : KeyCall)
  | cipherInit (malloc : Bool)

def opCall (keyLen : Algorithm → Nat) (s : OpState) : OpCall → OpState
  | .setOperationKey k => (teeSetOperationKey keyLen s k).2
  | .cipherInit malloc => teeCipherInit s malloc

/-- the memory stays sound in a call -/
def CallFits (keyLen : Algorithm → Nat) (s : OpState) : OpCall → Prop
  | .setOperationKey k => KeyFits keyLen s k
  | .cipherInit _ => InitFits s

/-- a context that is needed is allocated and initialised -/
def AllocFits (ctxtOk initOk : Bool) (handle : Option NewHandle) (algorithm mode : UInt32) : Prop :=
  ∀ a m, checkValidAlgorithm algorithm = some a → checkValidMode mode = some m →
    checkValidAlgorithmForMode m a = true → handle ≠ none → ContextOk ctxtOk initOk (kindOf a)

/-- what is done on the heap from the allocation to the end -/
def life (keyLen : Algorithm → Nat) (ctxtOk initOk : Bool) (handle : Option NewHandle)
    (algorithm mode : UInt32) (calls : List OpCall) : List (Use Place) :=
  match teeAllocateOperation ctxtOk initOk handle algorithm mode with
  | .error us => us
  | .ok s => teeFreeOperation (calls.foldl (opCall keyLen) s)

theorem Allocated.call (h : Allocated old s) (c : OpCall) : Allocated old (opCall keyLen s c) := by
  cases c with
  | setOperationKey k => exact h.setKey
  | cipherInit malloc => exact h.cipherInit malloc

theorem call_sound_iff (h : Allocated old s) (c : OpCall) :
    Sound (opCall keyLen s c) ↔ Sound s ∧ CallFits keyLen s c := by
  cases c with
  | setOperationKey k => exact setKey_sound_iff h
  | cipherInit malloc => exact (cipherInit_touches h malloc).1.sound

theorem calls_clean_iff (h : Allocated old s) (calls : List OpCall) :
    Clean (teeFreeOperation (calls.foldl (opCall keyLen) s)) ↔
      Sound s ∧ Along (fun s c => some (opCall keyLen s c)) (CallFits keyLen) s calls ∧
        FreeFits (calls.foldl (opCall keyLen) s) := by
  induction calls generalizing s with
  | nil =>
    refine (free_clean_iff h).trans (and_congr_right fun _ => ?_)
    exact ⟨fun hf => ⟨trivial, hf⟩, fun hf => hf.2⟩
  | cons c calls ih =>
    refine (ih (h.call c)).trans ?_
    rw [call_sound_iff h, and_assoc]
    exact and_congr_right fun _ => and_assoc.symm

theorem not_clean_of_fails {us : List (Use Place)} (hu : ∀ q, .release q ∉ us) :
    ¬ Clean ((.acquire (.block 0)) :: us) := fun h => by
  have h1 := h.2 (.block 0) List.mem_cons_self
  rw [List.count_cons, List.count_eq_zero.mpr (hu _)] at h1
  cases h1

theorem allocate_cases (ctxtOk initOk : Bool) (handle : Option NewHandle) (algorithm mode : UInt32) :
    (∃ us, teeAllocateOperation ctxtOk initOk handle algorithm mode = .error us ∧
      (Clean us ↔ AllocFits ctxtOk initOk handle algorithm mode)) ∨
    ∃ old s, teeAllocateOperation ctxtOk initOk handle algorithm mode = .ok s ∧ Allocated old s ∧
      Sound s ∧ AllocFits ctxtOk initOk handle algorithm mode := by
  have hnil : Clean [] := ⟨trivial, fun q hq => by cases hq⟩
  unfold teeAllocateOperation AllocFits
  cases ha : checkValidAlgorithm algorithm with
  | none => exact Or.inl ⟨_, rfl, iff_of_true hnil fun a m h => by cases h⟩
  | some a =>
    cases hm : checkValidMode mode with
    | none => exact Or.inl ⟨_, rfl, iff_of_true hnil fun a m _ h => by cases h⟩
    | some m =>
      dsimp only
      by_cases hvalid : checkValidAlgorithmForMode m a = true
      · rw [if_pos hvalid]
        cases handle with
        | none => exact Or.inl ⟨_, rfl, iff_of_true hnil fun a m _ _ _ h => absurd rfl h⟩
        | some old =>
          have hhas : (kindOf (newState old a m).algorithm).Has (newState old a m).mode :=
            kind_has hvalid
          by_cases hok : ContextOk ctxtOk initOk (kindOf a)
          · obtain ⟨h1, h2⟩ := allocWork_allocated old hvalid
            refine Or.inr ⟨old.operationClass, _, ?_, h1, h2, fun a' m' ha' hm' _ _ => ?_⟩
            · dsimp only
              rw [modeAlloc_ok hhas hok, if_pos rfl]
            · cases ha'
              exact hok
          · obtain ⟨hfalse, us, huses, hu⟩ := modeAlloc_fails hhas hok
            refine Or.inl ⟨_, ?_, iff_of_false (not_clean_of_fails hu) fun h => hok ?_⟩
            · dsimp only
              rw [hfalse, huses]
              rfl
            · exact h a m rfl rfl hvalid (Option.some_ne_none old)
      · rw [if_neg hvalid]
        refine Or.inl ⟨_, rfl, iff_of_true hnil fun a' m' ha' hm' h => ?_⟩
        cases ha'
        cases hm'
        exact absurd h hvalid

/-- **The life of an operation.**  Every block is freed once and only blocks in use are touched,
exactly if the allocation, each call on the way and the end fit. -/
theorem life_clean_iff (keyLen : Algorithm → Nat) (ctxtOk initOk : Bool) (handle : Option NewHandle)
    (algorithm mode : UInt32) (calls : List OpCall) :
    Clean (life keyLen ctxtOk initOk handle algorithm mode calls) ↔
      AllocFits ctxtOk initOk handle algorithm mode ∧
      ∀ s, teeAllocateOperation ctxtOk initOk handle algorithm mode = .ok s →
        Along (fun s c => some (opCall keyLen s c)) (CallFits keyLen) s calls ∧
        FreeFits (calls.foldl (opCall keyLen) s) := by
  unfold life
  obtain ⟨us, h, hus⟩ | ⟨old, s, h, hs, hsound, hfits⟩ :=
    allocate_cases ctxtOk initOk handle algorithm mode
  · rw [h]
    refine hus.trans ⟨fun hf => ⟨hf, fun s hs => ?_⟩, fun hf => hf.1⟩
    cases hs
  · rw [h]
    refine (calls_clean_iff hs calls).trans ⟨fun hc => ⟨hfits, fun t ht => ?_⟩, fun hc => ?_⟩
    · cases ht
      exact hc.2
    · exact ⟨hsound, hc.2 s rfl⟩

/-- the key of AES-CTS is stored twice, and the first block is lost -/
theorem cts_key_lost : ¬ ∀ keyLen ctxtOk initOk handle algorithm mode calls,
    Clean (life keyLen ctxtOk initOk handle algorithm mode calls) := fun h => by
  have h1 := h (fun _ => 16) true true (some ⟨.cipher, false, fun _ => false⟩)
    Algorithm.aesCts.id 0
    [.setOperationKey ⟨false, 16, true, true, true, true, .succeeds, .succeeds⟩, .cipherInit true]
  have h2 := h1.2 (.block 1) (by decide)
  revert h2
  decide

end

end Owned
end SierraTee
