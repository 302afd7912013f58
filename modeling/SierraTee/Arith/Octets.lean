import SierraTee.Arith.Sums

/-!
# Octet strings (`otz_tee_arith_api.c`)

`TEE_BigIntSetFromOctetString` and `TEE_BigIntConvertToOctetString`, with every word that they read
or write.  The lengths are in bytes, the pointers point to words.

* `not_octetRoundTrip`  no octet string comes back.
-/

namespace SierraTee

open BigEndian

/-- the results of the two functions -/
inductive OctetResult
  | success
  | overflow
  | shortBuffer

/-- a memory and the words that were read or written -/
structure OctetMemory where
  memory : WordMemory
  touched : List Nat

def OctetMemory.assign (s : OctetMemory) (ptr1 ptr2 iter : Nat) : OctetMemory :=
  ⟨Function.update s.memory (ptr1 + iter) (s.memory (ptr2 + iter)),
    (ptr2 + iter) :: (ptr1 + iter) :: s.touched⟩

/-- the loop of `TEE_BigIntSetFromOctetString`, from `iter` down to 1 -/
def setFromLoop (ptr1 ptr2 : Nat) : Nat → OctetMemory → OctetMemory
  | 0, s => s
  | iter + 1, s => setFromLoop ptr1 ptr2 iter (s.assign ptr1 ptr2 (iter + 1))

/-- `TEE_BigIntSetFromOctetString`; what the source says about the sign comes after the return -/
def teeBigIntSetFromOctetString (m : WordMemory) (dest buffer bufferLen : Nat) (_sign : Int) :
    OctetResult × OctetMemory :=
  if bufferLen / 4 > bigIntWords - 1 then (.overflow, ⟨m, []⟩)
  else (.success, setFromLoop (dest + bigIntWords - 1) (buffer + bufferLen / 4) bufferLen ⟨m, []⟩)

/-- the loop of `TEE_BigIntConvertToOctetString`, for the `iter` below the length -/
def convertToLoop (ptr1 ptr2 : Nat) : Nat → OctetMemory → OctetMemory
  | 0, s => s
  | n + 1, s => (convertToLoop ptr1 ptr2 n s).assign ptr1 ptr2 n

def teeBigIntConvertToOctetString (m : WordMemory) (buffer bufferLen bigInt : Nat) :
    OctetResult × OctetMemory :=
  if bufferLen / 4 < bigIntWords then (.shortBuffer, ⟨m, []⟩)
  else (.success, convertToLoop buffer bigInt bufferLen ⟨m, []⟩)

/-! ## what they are for -/

/-- the byte at offset `k` from a pointer, on a machine that has the low byte of a word first -/
def octetAt (m : WordMemory) (p k : Nat) : BitVec 8 := (m (p + k / 4) >>> (8 * (k % 4))).setWidth 8

/-- the `n` bytes at a pointer -/
def octetsAt (m : WordMemory) (p n : Nat) : List (BitVec 8) := (List.range n).map (octetAt m p)

/-- the words of a big integer and of a buffer of `n` bytes -/
def InObjects (bigInt buffer n a : Nat) : Prop :=
  (bigInt ≤ a ∧ a < bigInt + bigIntWords) ∨ (buffer ≤ a ∧ a < buffer + (n + 3) / 4)

/-- the big integer at a pointer has the magnitude that the octets denote, and the sign bit of the
first word is set exactly for a negative number -/
def SetTo (m : WordMemory) (dest : Nat) (octets : List (BitVec 8)) (negative : Bool) : Prop :=
  numberAt m dest bigIntWords % 2 ^ (32 * bigIntWords - 1) = value octets ∧
    (m dest).msb = negative

/-- what `TEE_BigIntSetFromOctetString` is for: the destination becomes the number of the octets
with the given sign, and nothing but the two objects is touched -/
structure SetsFrom (m : WordMemory) (dest buffer bufferLen : Nat) (sign : Int) (negative : Bool) :
    Prop where
  success : (teeBigIntSetFromOctetString m dest buffer bufferLen sign).1 = .success
  number : SetTo (teeBigIntSetFromOctetString m dest buffer bufferLen sign).2.memory dest
    (octetsAt m buffer bufferLen) negative
  inside : ∀ a ∈ (teeBigIntSetFromOctetString m dest buffer bufferLen sign).2.touched,
    InObjects dest buffer bufferLen a

/-- what `TEE_BigIntConvertToOctetString` is for: the octets come back in a buffer of `outLen` bytes,
and nothing but the two objects is touched -/
structure ConvertsTo (m : WordMemory) (bigInt out outLen : Nat) (octets : List (BitVec 8)) :
    Prop where
  success : (teeBigIntConvertToOctetString m out outLen bigInt).1 = .success
  octets : octetsAt (teeBigIntConvertToOctetString m out outLen bigInt).2.memory out
    octets.length = octets
  inside : ∀ a ∈ (teeBigIntConvertToOctetString m out outLen bigInt).2.touched,
    InObjects bigInt out outLen a

/-- **The purpose** of the two functions: a round trip -/
structure OctetRoundTrip (m : WordMemory) (dest buffer bufferLen : Nat) (sign : Int)
    (negative : Bool) (out outLen : Nat) : Prop where
  sets : SetsFrom m dest buffer bufferLen sign negative
  converts : ConvertsTo (teeBigIntSetFromOctetString m dest buffer bufferLen sign).2.memory dest
    out outLen (octetsAt m buffer bufferLen)

section
variable {m : WordMemory} {ptr1 ptr2 n iter : Nat} {s : OctetMemory}

theorem mem_setFromLoop {a : Nat} (h : a ∈ s.touched) :
    a ∈ (setFromLoop ptr1 ptr2 n s).touched := by
  induction n generalizing s with
  | zero => exact h
  | succ n ih => exact ih (List.mem_cons_of_mem _ (List.mem_cons_of_mem _ h))

theorem setFromLoop_touched (h1 : 1 ≤ iter) (hn : iter ≤ n) :
    ptr1 + iter ∈ (setFromLoop ptr1 ptr2 n s).touched ∧
      ptr2 + iter ∈ (setFromLoop ptr1 ptr2 n s).touched := by
  induction n generalizing s with
  | zero => omega
  | succ n ih =>
    rcases Nat.lt_or_ge n iter with hlt | hge
    · obtain rfl : iter = n + 1 := by omega
      rw [setFromLoop]
      constructor
      · apply mem_setFromLoop
        exact List.mem_cons_of_mem _ List.mem_cons_self
      · apply mem_setFromLoop
        exact List.mem_cons_self
    · exact ih hge

theorem convertToLoop_touched (hn : iter < n) :
    ptr1 + iter ∈ (convertToLoop ptr1 ptr2 n s).touched ∧
      ptr2 + iter ∈ (convertToLoop ptr1 ptr2 n s).touched := by
  induction n with
  | zero => omega
  | succ n ih =>
    rcases Nat.lt_or_ge iter n with hlt | hge
    · obtain ⟨h1, h2⟩ := ih hlt
      exact ⟨List.mem_cons_of_mem _ (List.mem_cons_of_mem _ h1),
        List.mem_cons_of_mem _ (List.mem_cons_of_mem _ h2)⟩
    · obtain rfl : iter = n := by omega
      exact ⟨List.mem_cons_of_mem _ List.mem_cons_self, List.mem_cons_self⟩

end

section
variable {m : WordMemory} {dest buffer bufferLen : Nat} {sign : Int}

theorem set_touches_outside (hlen : 1 ≤ bufferLen)
    (h : (teeBigIntSetFromOctetString m dest buffer bufferLen sign).1 = .success) :
    ∃ a ∈ (teeBigIntSetFromOctetString m dest buffer bufferLen sign).2.touched,
      ¬InObjects dest buffer bufferLen a := by
  unfold teeBigIntSetFromOctetString at h ⊢
  have hw : bigIntWords = 66 := rfl
  split_ifs at h ⊢ with hover
  obtain ⟨h1, h2⟩ := @setFromLoop_touched (dest + bigIntWords - 1) (buffer + bufferLen / 4)
    bufferLen bufferLen ⟨m, []⟩ hlen (Nat.le_refl bufferLen)
  by_cases hin : InObjects dest buffer bufferLen (dest + bigIntWords - 1 + bufferLen)
  · refine ⟨_, h2, ?_⟩
    unfold InObjects at hin ⊢
    omega
  · exact ⟨_, h1, hin⟩

theorem convert_touches_outside {out outLen : Nat}
    (h : (teeBigIntConvertToOctetString m out outLen dest).1 = .success) :
    ∃ a ∈ (teeBigIntConvertToOctetString m out outLen dest).2.touched,
      ¬InObjects dest out outLen a := by
  unfold teeBigIntConvertToOctetString at h ⊢
  have hw : bigIntWords = 66 := rfl
  split_ifs at h ⊢ with hshort
  obtain ⟨h1, h2⟩ := @convertToLoop_touched out dest outLen (outLen - 1) ⟨m, []⟩ (by omega)
  by_cases hin : InObjects dest out outLen (out + (outLen - 1))
  · refine ⟨_, h2, ?_⟩
    unfold InObjects at hin ⊢
    omega
  · exact ⟨_, h1, hin⟩

end

/-- **No octet string** makes the round trip, whatever its length, its sign and the two buffers; the
first half alone is right for no string that is not empty. -/
theorem not_octetRoundTrip (m : WordMemory) (dest buffer bufferLen : Nat) (sign : Int)
    (negative : Bool) (out outLen : Nat) :
    ¬OctetRoundTrip m dest buffer bufferLen sign negative out outLen ∧
      ¬(1 ≤ bufferLen ∧ SetsFrom m dest buffer bufferLen sign negative) := by
  constructor
  · intro h
    obtain ⟨a, ha, hout⟩ := convert_touches_outside h.converts.success
    exact hout (h.converts.inside a ha)
  · rintro ⟨hlen, h⟩
    obtain ⟨a, ha, hout⟩ := set_touches_outside hlen h.success
    exact hout (h.inside a ha)

/-- one byte at 100, the big integer at 0: the word behind it is overwritten, the last word is not -/
theorem octetRoundTrip_can_fail :
    (teeBigIntSetFromOctetString (fun _ => 7) 0 100 1 1).1 = .success ∧
      ¬SetTo (teeBigIntSetFromOctetString (fun _ => 7) 0 100 1 1).2.memory 0
        (octetsAt (fun _ => 7) 100 1) false ∧
      ¬∀ a ∈ (teeBigIntSetFromOctetString (fun _ => 7) 0 100 1 1).2.touched,
        InObjects 0 100 1 a := by
  refine ⟨rfl, ?_, ?_⟩
  · rintro ⟨h, -⟩
    revert h
    decide +kernel
  · intro h
    obtain ⟨a, ha, hout⟩ := @set_touches_outside (fun _ => 7) 0 100 1 1 (Nat.le_refl 1) rfl
    exact hout (h a ha)

end SierraTee
