import SierraTee.Crypto.Streaming

/-!
# How much crypto operations read and write

* `outputs_bounded_iff`  they are bounded exactly if the lengths fit (`LengthsFit`).
-/

namespace SierraTee

/-- what OpenSSL documents: data is encrypted byte for byte, and a MAC has `EVP_MAX_MD_SIZE` bytes
at most -/
structure OpensslOutputs.Sized (o : OpensslOutputs) : Prop where
  ccm128 : ∀ c m data out, o.ccm128Out c m data = some out → out.length = data.length
  gcm128 : ∀ c m data out, o.gcm128Out c m data = some out → out.length = data.length
  hmac : ∀ c mac, (o.hmacFinal c).2 = some mac → mac.length ≤ evpMaxMdSize

inductive OutputCall where
  | digestDoFinal (hashNull : Bool)
  | macComputeFinal
  | aeUpdate
  | aeEncryptFinal

section
variable {o : OpensslOutputs} (op : Operation o.toOpenssl) (src : Nat → UInt8) (srcLen : Nat)
  (dest : Dest)

def OutputCall.answer : OutputCall → Answer o
  | .digestDoFinal hashNull => teeDigestDoFinal op src srcLen dest hashNull
  | .macComputeFinal => teeMacComputeFinal op src srcLen dest
  | .aeUpdate => teeAeUpdateTo op src srcLen dest
  | .aeEncryptFinal => aeFinal op src srcLen dest .encrypt

/-- the length of what the call is to give -/
def OutputCall.outputLength : OutputCall → Nat
  | .digestDoFinal hashNull =>
    if hashNull ∨ op.operationClass ≠ .digest then 0 else op.algorithm.digestLength
  | .macComputeFinal =>
    if op.operationClass = .mac ∧ op.algorithm.isHmac then
      ((macRun op src srcLen).2.map List.length).getD 0
    else 0
  | .aeUpdate | .aeEncryptFinal => if op.operationClass = .ae then srcLen else 0

/-- the call writes and reads no more than it may, and it refuses an output that is too short -/
structure Bounded (a : Answer o) (capacity srcLen outputLength : Nat) : Prop where
  written : a.written ≤ capacity
  read : a.read ≤ srcLen
  short : capacity < outputLength → a.result = .errorShortBuffer ∧ a.written = 0

/-- the data of authenticated encryption is as long as the output has room, or OpenSSL takes none
of it -/
def AeLengthFits (m : Mode) : Prop :=
  op.operationClass = .ae → dest.len ≤ srcLen ∨ aeOut op m (readBytes src dest.len) = none

/-- the capacity is below what the code asks for, or the digest fits; a MAC always does -/
def LengthsFit : OutputCall → Prop
  | .digestDoFinal hashNull => hashNull = false → op.operationClass = .digest →
      dest.len < op.algorithm.digestRoom ∨ op.algorithm.digestLength ≤ dest.len
  | .macComputeFinal => True
  | .aeUpdate => op.mode = .encrypt ∨ op.mode = .decrypt → AeLengthFits op src srcLen dest op.mode
  | .aeEncryptFinal => srcLen = 0 ∨ AeLengthFits op src srcLen dest .encrypt

end

section
variable {o : OpensslOutputs} {op : Operation o.toOpenssl} {src : Nat → UInt8} {srcLen : Nat}
  {dest : Dest} {r : TeecResult} {capacity n : Nat}

theorem readBytes_length (p : Nat → UInt8) (n : Nat) : (readBytes p n).length = n := by
  simp [readBytes]

theorem digestLength_of_not {a : Algorithm} (h : ¬ a.isDigest = true) : a.digestLength = 0 := by
  cases a <;> first | rfl | exact absurd rfl h

/-! ## Each call -/

theorem leave_bounded {k : Nat} (h : capacity < k → r = .errorShortBuffer) :
    Bounded (leave op dest r) capacity srcLen k :=
  ⟨Nat.zero_le _, Nat.zero_le _, fun hk => ⟨h hk, rfl⟩⟩

theorem digest_bounded_iff (hashNull : Bool) :
    Bounded (teeDigestDoFinal op src srcLen dest hashNull) dest.len srcLen
        ((OutputCall.digestDoFinal hashNull).outputLength op src srcLen) ↔
      LengthsFit op src srcLen dest (.digestDoFinal hashNull) := by
  show Bounded _ _ _ (if _ then 0 else _) ↔
    (hashNull = false → op.operationClass = .digest → _)
  unfold teeDigestDoFinal
  cases hashNull with
  | true => exact ⟨fun _ h => absurd h (by decide), fun _ => leave_bounded (by simp)⟩
  | false =>
    by_cases hc : op.operationClass = .digest
    · simp only [Bool.false_eq_true, if_false, hc, ne_eq, not_true_eq_false, or_self, true_imp_iff]
      by_cases hd : op.algorithm.isDigest = true
      · rw [if_pos hd]
        split_ifs with hroom
        · exact ⟨fun _ => Or.inl hroom, fun _ => leave_bounded fun _ => rfl⟩
        · refine ⟨fun h => Or.inr ?_, fun h => ?_⟩
          · have h1 := h.written
            rwa [readBytes_length] at h1
          · have h1 := h.resolve_left hroom
            refine ⟨?_, le_refl _, fun h2 => absurd h1 (by omega)⟩
            rwa [readBytes_length]
      · rw [if_neg hd, digestLength_of_not hd]
        exact ⟨fun _ => Or.inr (Nat.zero_le _), fun _ => leave_bounded (by simp)⟩
    · simp only [Bool.false_eq_true, if_false, hc, ne_eq, not_false_eq_true, if_true, or_true]
      exact ⟨fun _ _ h => absurd h (by simp), fun _ => leave_bounded (by simp)⟩

theorem mac_bounded (hs : o.Sized) :
    Bounded (teeMacComputeFinal op src srcLen dest) dest.len srcLen
      (OutputCall.macComputeFinal.outputLength op src srcLen) := by
  show Bounded _ _ _ (if _ then _ else 0)
  have hlength (mac : List UInt8) (h : (macRun op src srcLen).2 = some mac) :
      mac.length ≤ evpMaxMdSize := by
    unfold macRun at h
    simp only at h
    split_ifs at h
    exact hs.hmac _ mac h
  unfold teeMacComputeFinal
  by_cases hc : op.operationClass = .mac
  · rw [if_neg (not_not.mpr hc)]
    by_cases hm : op.algorithm.isHmac = true
    · rw [if_pos hm, if_pos (And.intro hc hm)]
      split_ifs with hroom
      · exact leave_bounded fun _ => rfl
      · cases h : (macRun op src srcLen).2 with
        | none => exact ⟨Nat.zero_le _, le_refl _, fun h1 => absurd h1 (by simp)⟩
        | some mac =>
          have h1 := hlength mac h
          refine ⟨?_, le_refl _, fun h2 => ?_⟩
          · show mac.length ≤ dest.len
            omega
          · rw [Option.map_some, Option.getD_some] at h2
            omega
    · rw [if_neg hm, if_neg fun h => hm h.2]
      exact leave_bounded (by simp)
  · rw [if_pos hc, if_neg fun h => hc h.1]
    exact leave_bounded (by simp)

theorem aeWrite_bounded_iff (hs : o.Sized) (m : Mode) (hc : op.operationClass = .ae)
    (hle : srcLen ≤ dest.len) :
    Bounded (aeWrite op src dest m dest.len) dest.len srcLen srcLen ↔
      AeLengthFits op src srcLen dest m := by
  have hlength (out : List UInt8) (h : aeOut op m (readBytes src dest.len) = some out) :
      out.length = dest.len := by
    unfold aeOut at h
    split at h
    · rw [hs.ccm128 _ _ _ out h, readBytes_length]
    · rw [hs.gcm128 _ _ _ out h, readBytes_length]
    · cases h
  unfold AeLengthFits aeWrite
  cases h : aeOut op m (readBytes src dest.len) with
  | none =>
    exact ⟨fun _ _ => Or.inr rfl,
      fun _ => ⟨Nat.zero_le _, Nat.zero_le _, fun h1 => absurd hle (by omega)⟩⟩
  | some out =>
    refine ⟨fun h1 _ => Or.inl h1.read, fun h1 => ?_⟩
    have h2 := (h1 hc).resolve_right (by simp)
    refine ⟨?_, h2, fun h3 => absurd hle (by omega)⟩
    exact (hlength out h).le

theorem aeUpdate_bounded_iff (hs : o.Sized) :
    Bounded (teeAeUpdateTo op src srcLen dest) dest.len srcLen
        (OutputCall.aeUpdate.outputLength op src srcLen) ↔
      LengthsFit op src srcLen dest .aeUpdate := by
  show Bounded _ _ _ (if _ then srcLen else 0) ↔ (op.mode = .encrypt ∨ op.mode = .decrypt → _)
  unfold teeAeUpdateTo
  by_cases hc : op.operationClass = .ae
  · rw [if_neg (not_not.mpr hc), if_pos hc]
    split_ifs with hshort hm
    · exact ⟨fun _ _ _ => Or.inl hshort.le, fun _ => leave_bounded fun _ => rfl⟩
    · rw [aeWrite_bounded_iff hs op.mode hc (by omega)]
      exact ⟨fun h _ => h, fun h => h hm⟩
    · exact ⟨fun _ h => absurd h hm, fun _ => leave_bounded fun h => absurd h hshort⟩
  · rw [if_pos hc, if_neg hc]
    exact ⟨fun _ _ h => absurd h hc, fun _ => leave_bounded (by simp)⟩

theorem aeEncryptFinal_bounded_iff (hs : o.Sized) :
    Bounded (aeFinal op src srcLen dest .encrypt) dest.len srcLen
        (OutputCall.aeEncryptFinal.outputLength op src srcLen) ↔
      LengthsFit op src srcLen dest .aeEncryptFinal := by
  show Bounded _ _ _ (if _ then srcLen else 0) ↔ (srcLen = 0 ∨ _)
  unfold aeFinal
  by_cases hc : op.operationClass = .ae
  · rw [if_neg (not_not.mpr hc), if_pos hc]
    split_ifs with hshort h0
    · exact ⟨fun _ => Or.inr fun _ => Or.inl hshort.2.le, fun _ => leave_bounded fun _ => rfl⟩
    · exact ⟨fun _ => Or.inl h0, fun _ => leave_bounded fun h => absurd h (by omega)⟩
    · rw [aeWrite_bounded_iff hs .encrypt hc (by omega)]
      exact ⟨Or.inr, fun h => h.resolve_left h0⟩
  · rw [if_pos hc, if_neg hc]
    exact ⟨fun _ => Or.inr fun h => absurd h hc, fun _ => leave_bounded (by simp)⟩

/-- **The bounds of the outputs**, for each of the calls -/
theorem outputs_bounded_iff (hs : o.Sized) (call : OutputCall) :
    Bounded (call.answer op src srcLen dest) dest.len srcLen (call.outputLength op src srcLen) ↔
      LengthsFit op src srcLen dest call := by
  cases call with
  | digestDoFinal hashNull => exact digest_bounded_iff hashNull
  | macComputeFinal => exact ⟨fun _ => trivial, fun _ => mac_bounded hs⟩
  | aeUpdate => exact aeUpdate_bounded_iff hs
  | aeEncryptFinal => exact aeEncryptFinal_bounded_iff hs

end

/-! ## SHA-256 -/

def emptySha256 : List UInt8 :=
  [0xe3, 0xb0, 0xc4, 0x42, 0x98, 0xfc, 0x1c, 0x14, 0x9a, 0xfb, 0xf4, 0xc8, 0x99, 0x6f, 0xb9, 0x24,
   0x27, 0xae, 0x41, 0xe4, 0x64, 0x9b, 0x93, 0x4c, 0xa4, 0x95, 0x99, 0x1b, 0x78, 0x52, 0xb8, 0x55]

def sha256Openssl : OpensslOutputs :=
  { ecbOpenssl with
    digestFinal := fun _ c => (c, pointTo emptySha256)
    hmacFinal := fun c => (c, none) }

theorem sha256Openssl_sized : sha256Openssl.Sized where
  ccm128 := by
    intro c m data out h
    cases h
    rfl
  gcm128 := by
    intro c m data out h
    cases h
    rfl
  hmac := by
    intro c mac h
    cases h

/-- a new handle for SHA-256 -/
def sha256Handle : Operation sha256Openssl.toOpenssl :=
  ⟨.sha256, .digest, .digest, 0, 0, none, ([] : List UInt8), none, none, 0, 0⟩

theorem outputs_bounded_sha256 :
    Bounded ((OutputCall.digestDoFinal false).answer sha256Handle (fun _ => 0) 0 ⟨fun _ => 0, 32⟩) 32 0
      ((OutputCall.digestDoFinal false).outputLength sha256Handle (fun _ => 0) 0) :=
  (outputs_bounded_iff sha256Openssl_sized (.digestDoFinal false)).mpr
    fun _ _ => Or.inr (by decide)

/-- 20 bytes are enough for the code, but 32 are written -/
theorem sha256_overflows :
    (teeDigestDoFinal sha256Handle (fun _ => 0) 0 ⟨fun _ => 0, 20⟩ false).written = 32 ∧
    ¬ Bounded (teeDigestDoFinal sha256Handle (fun _ => 0) 0 ⟨fun _ => 0, 20⟩ false) 20 0
      ((OutputCall.digestDoFinal false).outputLength sha256Handle (fun _ => 0) 0) := by
  have h1 : (teeDigestDoFinal sha256Handle (fun _ => 0) 0 ⟨fun _ => 0, 20⟩ false).written = 32 := by
    decide
  refine ⟨h1, fun h => ?_⟩
  have h2 := h.written
  rw [h1] at h2
  exact absurd h2 (by decide)

end SierraTee
