import SierraTee.Common.Memory
import SierraTee.Shm.SharedMemory

/-!
# Comparisons and what they read (`sw_string_functions.c`, `sw_mem_functions.c`)

* `comparisons_right_iff`  when both are the comparisons of C, and read only what they compare.
-/

namespace SierraTee.Comparing

inductive Operand where
  | first | second

abbrev Place := Operand × Int

def both (i : Int) : List Place := [(.first, i), (.second, i)]

/-! ## Strings -/

/-- a string in memory, `len` is where its first terminator stands -/
structure CString where
  char : Nat → BitVec 8
  len : Nat
  ended : char len = 0
  noEnd : ∀ i < len, char i ≠ 0

/-- what a round of `sw_strncmp` reads: `*str1` and `*str2` only behind a difference -/
def roundReads (str1 str2 : Nat → BitVec 8) (index : Nat) : List Place :=
  both index ++
    if str1 index = str2 index then [] else if str1 0 = 0 then [(.first, 0)] else both 0

/-- `n` rounds of the loop from `index` on; `true` is `SW_OK` -/
def strncmpLoop (str1 str2 : Nat → BitVec 8) (index : Nat) : Nat → Bool × List Place
  | 0 => (true, [])
  | n + 1 =>
    if str1 index = 0 ∧ str2 index = 0 then (true, roundReads str1 str2 index)
    else if str1 index ≠ str2 index ∧ str1 0 ≠ 0 ∧ str2 0 ≠ 0 then
      (false, roundReads str1 str2 index)
    else
      let r := strncmpLoop str1 str2 (index + 1) n
      (r.1, roundReads str1 str2 index ++ r.2)

def swStrncmpAt (a b : CString) (n : Nat) : Bool × List Place := strncmpLoop a.char b.char 0 n

def InStrings (a b : CString) : Place → Prop
  | (.first, i) => 0 ≤ i ∧ i ≤ a.len
  | (.second, i) => 0 ≤ i ∧ i ≤ b.len

/-- the first `n` characters are the same, or all up to a common terminator -/
def Agree (a b : CString) (n : Nat) : Prop :=
  (∀ i < n, a.char i = b.char i) ∨ (a.len = b.len ∧ ∀ i < a.len, a.char i = b.char i)

/-- the result tells whether the operands agree, and nothing outside of them is read -/
structure StrncmpRight (a b : CString) (n : Nat) : Prop where
  result : (swStrncmpAt a b n).1 = true ↔ Agree a b n
  inside : ∀ p ∈ (swStrncmpAt a b n).2, InStrings a b p

/-! ## Buffers -/

/-- what `sw_memcmp` reads: both bytes up to where it stops, and those its result is made of -/
def memcmpReads (src dest : Int → UInt8) (length : Nat) : List Place :=
  let counter := memcmpStop src dest length
  let last : Int := if counter = length then counter - 1 else counter
  ((List.range (min (counter + 1) length)).flatMap fun i : Nat => both i) ++ both last

structure MemcmpRight (src dest : Int → UInt8) (length : Nat) : Prop where
  result : swMemcmp src dest length = 0 ↔ ∀ i < length, src i = dest i
  inside : ∀ p ∈ memcmpReads src dest length, 0 ≤ p.2 ∧ p.2 < length

section
variable {a b : CString} {i n : Nat}

/-! ## The comparison of strings -/

theorem strncmpLoop_names (x y : List (BitVec 8)) (i n : Nat) :
    (strncmpLoop (charAt x) (charAt y) i n).1 = swStrncmp x y i n := by
  induction n generalizing i with
  | zero => rfl
  | succ n ih =>
    unfold strncmpLoop swStrncmp
    split_ifs
    · rfl
    · rfl
    · exact ih (i + 1)

theorem CString.char_eq_zero_iff (hi : i ≤ a.len) : a.char i = 0 ↔ i = a.len := by
  refine ⟨fun h => ?_, fun h => h ▸ a.ended⟩
  by_contra hne
  exact a.noEnd i (by omega) h

theorem CString.head_eq_zero_iff (a : CString) : a.char 0 = 0 ↔ a.len = 0 :=
  (a.char_eq_zero_iff (Nat.zero_le _)).trans eq_comm

theorem mem_both {p : Place} {i : Int} : p ∈ both i ↔ p = (.first, i) ∨ p = (.second, i) := by
  unfold both
  rw [List.mem_cons, List.mem_singleton]

theorem roundReads_inside (ha : i ≤ a.len) (hb : i ≤ b.len) :
    ∀ p ∈ roundReads a.char b.char i, InStrings a b p := by
  have hboth (j : Nat) (hja : j ≤ a.len) (hjb : j ≤ b.len) : ∀ p ∈ both j, InStrings a b p := by
    intro p hp
    rw [mem_both] at hp
    obtain rfl | rfl := hp
    · exact ⟨Int.natCast_nonneg j, Int.ofNat_le.mpr hja⟩
    · exact ⟨Int.natCast_nonneg j, Int.ofNat_le.mpr hjb⟩
  have hhead := hboth 0 (Nat.zero_le _) (Nat.zero_le _)
  intro p hp
  obtain hp | hp := List.mem_append.mp hp
  · exact hboth i ha hb p hp
  · split_ifs at hp
    · exact absurd hp List.not_mem_nil
    · exact hhead p (List.mem_singleton.mp hp ▸ List.mem_cons_self)
    · exact hhead p hp

theorem strncmpLoop_spec (h0 : a.len = 0 ↔ b.len = 0) (ha : i ≤ a.len) (hb : i ≤ b.len) :
    ((strncmpLoop a.char b.char i n).1 = true ↔
      (∀ j, i ≤ j → j < i + n → a.char j = b.char j) ∨
        (a.len = b.len ∧ ∀ j, i ≤ j → j < a.len → a.char j = b.char j)) ∧
    ∀ p ∈ (strncmpLoop a.char b.char i n).2, InStrings a b p := by
  induction n generalizing i with
  | zero =>
    refine ⟨iff_of_true rfl (Or.inl fun j h1 h2 => ?_), fun p hp => absurd hp List.not_mem_nil⟩
    omega
  | succ n ih =>
    have hround := roundReads_inside ha hb
    have hza := CString.char_eq_zero_iff ha
    have hzb := CString.char_eq_zero_iff hb
    unfold strncmpLoop
    split_ifs with h1 h2
    · refine ⟨iff_of_true rfl (Or.inr ⟨?_, fun j hj hlt => ?_⟩), hround⟩
      · rw [← hza.mp h1.1, ← hzb.mp h1.2]
      · have hend := hza.mp h1.1
        omega
    · refine ⟨iff_of_false (fun e => by cases e) ?_, hround⟩
      rintro (h | ⟨hlen, h⟩)
      · exact h2.1 (h i le_rfl (by omega))
      · by_cases hi : i < a.len
        · exact h2.1 (h i le_rfl hi)
        · exact h1 ⟨hza.mpr (by omega), hzb.mpr (by omega)⟩
    · have heq : a.char i = b.char i := by
        by_contra hne
        have hempty : a.len = 0 ∧ b.len = 0 := by
          rw [← h0, and_self]
          by_contra hfull
          refine h2 ⟨hne, ?_, ?_⟩
          · rwa [Ne, a.head_eq_zero_iff]
          · rwa [Ne, b.head_eq_zero_iff, ← h0]
        exact h1 ⟨hza.mpr (by omega), hzb.mpr (by omega)⟩
      have hna : i ≠ a.len := fun h => h1 ⟨hza.mpr h, heq ▸ hza.mpr h⟩
      have hnb : i ≠ b.len := fun h => h1 ⟨heq ▸ hzb.mpr h, hzb.mpr h⟩
      obtain ⟨hres, hin⟩ := ih (i := i + 1) (by omega) (by omega)
      have hnext (P : Nat → Prop) : (∀ j, i ≤ j → P j → a.char j = b.char j) ↔
          ∀ j, i + 1 ≤ j → P j → a.char j = b.char j := by
        refine ⟨fun h j hj => h j (by omega), fun h j hj hP => ?_⟩
        obtain rfl | hlt := Nat.eq_or_lt_of_le hj
        · exact heq
        · exact h j hlt hP
      constructor
      · rw [hnext, hnext, show i + (n + 1) = i + 1 + n by omega]
        exact hres
      · exact fun p hp => (List.mem_append.mp hp).elim (hround p) (hin p)

theorem strncmpLoop_empty {str1 str2 : Nat → BitVec 8} (h : str1 0 = 0 ∨ str2 0 = 0) :
    (strncmpLoop str1 str2 i n).1 = true := by
  induction n generalizing i with
  | zero => rfl
  | succ n ih =>
    unfold strncmpLoop
    split_ifs with h1 h2
    · rfl
    · obtain h | h := h
      · exact absurd h h2.2.1
      · exact absurd h h2.2.2
    · exact ih

theorem strncmpRight_iff (a b : CString) (n : Nat) :
    StrncmpRight a b n ↔ n = 0 ∨ (a.len = 0 ↔ b.len = 0) := by
  constructor
  · intro h
    by_contra hne
    obtain ⟨hn, h0⟩ := not_or.mp hne
    rw [← a.head_eq_zero_iff, ← b.head_eq_zero_iff] at h0
    have hempty : a.char 0 = 0 ∨ b.char 0 = 0 := by
      by_contra hfull
      obtain ⟨h1, h2⟩ := not_or.mp hfull
      exact h0 (iff_of_false h1 h2)
    obtain hagree | ⟨hlen, -⟩ := h.result.mp (strncmpLoop_empty hempty)
    · exact h0 (by rw [hagree 0 (Nat.pos_of_ne_zero hn)])
    · exact h0 (by rw [a.head_eq_zero_iff, b.head_eq_zero_iff, hlen])
  · rintro (rfl | h0)
    · refine ⟨iff_of_true rfl (Or.inl fun i hi => ?_), fun p hp => absurd hp List.not_mem_nil⟩
      omega
    · obtain ⟨hres, hin⟩ := strncmpLoop_spec (n := n) h0 (Nat.zero_le _) (Nat.zero_le _)
      refine ⟨?_, hin⟩
      simp only [Nat.zero_le, true_imp_iff, Nat.zero_add] at hres
      exact hres

end

/-! ## The comparison of buffers -/

section
variable {src dest : Int → UInt8} {length : Nat}

variable (src dest length) in
theorem memcmpStop_le : memcmpStop src dest length ≤ length := by
  by_cases h : ∀ i < length, src i = dest i
  · exact (memcmpStop_eq h).le
  · exact (memcmpStop_ne h).1.le

theorem memcmpReads_inside (hlen : 0 < length) :
    ∀ p ∈ memcmpReads src dest length, 0 ≤ p.2 ∧ p.2 < length := by
  have hstop := memcmpStop_le src dest length
  intro p hp
  obtain hp | hp := List.mem_append.mp hp
  · obtain ⟨i, hi, hp⟩ := List.mem_flatMap.mp hp
    have hlt := List.mem_range.mp hi
    have hindex : p.2 = i := by
      obtain rfl | rfl := mem_both.mp hp <;> rfl
    omega
  · split_ifs at hp <;> obtain rfl | rfl := mem_both.mp hp <;> dsimp only <;> omega

theorem memcmpRight_iff (src dest : Int → UInt8) (length : Nat) :
    MemcmpRight src dest length ↔ length ≠ 0 := by
  constructor
  · rintro h rfl
    have hin := (h.inside (.first, -1) (List.mem_cons_self)).1
    exact absurd hin (by decide)
  · intro hlen
    have hpos := Nat.pos_of_ne_zero hlen
    exact ⟨swMemcmp_eq_zero_iff hpos, memcmpReads_inside hpos⟩

end

/-- **Comparisons.** `sw_strncmp` is right if no character is compared, or if none or both of the
strings are empty; `sw_memcmp` if a byte is compared. -/
theorem comparisons_right_iff (a b : CString) (n : Nat) (src dest : Int → UInt8) (length : Nat) :
    (StrncmpRight a b n ↔ n = 0 ∨ (a.len = 0 ↔ b.len = 0)) ∧
    (MemcmpRight src dest length ↔ length ≠ 0) :=
  ⟨strncmpRight_iff a b n, memcmpRight_iff src dest length⟩

def emptyString : CString := ⟨fun _ => 0, 0, rfl, fun _ h => absurd h (Nat.not_lt_zero _)⟩

def stringX : CString where
  char i := if i = 0 then 0x78 else 0
  len := 1
  ended := rfl
  noEnd i hi := by
    obtain rfl : i = 0 := by omega
    decide

theorem empty_equals_x : ¬ ((∀ a b n, StrncmpRight a b n) ∧
    ∀ src dest length, MemcmpRight src dest length) := by
  rintro ⟨h, -⟩
  obtain hagree | ⟨hlen, -⟩ := (h emptyString stringX 1).result.mp rfl
  · exact absurd (hagree 0 (by decide)) (by decide)
  · exact absurd hlen (by decide)

end SierraTee.Comparing
