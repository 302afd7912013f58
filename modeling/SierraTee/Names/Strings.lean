import Mathlib.Data.List.TakeWhile
import SierraTee.Common.Comparing

/-!
# Names that are compared (`sw_string_functions.c`)

* `swStrncmp_iff`  what the comparison finds, if neither of the names is empty.
-/

namespace SierraTee
namespace Names
open Comparing

/-- a string shorter than `MAX_NAME_LEN` -/
structure ObjectName where
  chars : List (BitVec 8)
  noEnd : 0 ∉ chars
  short : chars.length < maxNameLen

structure DeviceName where
  chars : List (BitVec 8)
  noEnd : 0 ∉ chars
  fits : chars.length ≤ 20
  deriving DecidableEq

section
variable {a b : List (BitVec 8)} {i k n : Nat}

theorem charAt_of_ge (h : a.length ≤ k) : charAt a k = 0 := by
  unfold charAt
  rw [List.getD_eq_getElem?_getD, List.getElem?_eq_none h]
  rfl

theorem charAt_eq (h : k < a.length) : charAt a k = a[k] := by
  unfold charAt
  rw [List.getD_eq_getElem?_getD, List.getElem?_eq_getElem h]
  rfl

theorem charAt_eq_zero_iff (ha : 0 ∉ a) : charAt a k = 0 ↔ a.length ≤ k := by
  refine ⟨fun h => ?_, charAt_of_ge⟩
  by_contra hk
  rw [charAt_eq (Nat.lt_of_not_le hk)] at h
  exact ha (h ▸ List.getElem_mem _)

theorem charAt_zero_iff (ha : 0 ∉ a) : charAt a 0 = 0 ↔ a = [] := by
  rw [charAt_eq_zero_iff ha, Nat.le_zero, List.length_eq_zero_iff]

theorem charAt_congr_iff (ha : 0 ∉ a) (hb : 0 ∉ b) : charAt a k = charAt b k ↔ a[k]? = b[k]? := by
  by_cases h1 : k < a.length
  · by_cases h2 : k < b.length
    · rw [charAt_eq h1, charAt_eq h2, List.getElem?_eq_getElem h1, List.getElem?_eq_getElem h2,
        Option.some.injEq]
    · have hb0 : charAt b k = 0 := charAt_of_ge (Nat.le_of_not_lt h2)
      rw [hb0, charAt_eq_zero_iff ha, List.getElem?_eq_getElem h1,
        List.getElem?_eq_none (Nat.le_of_not_lt h2)]
      exact iff_of_false (Nat.not_le_of_lt h1) (fun e => by cases e)
  · have ha0 : charAt a k = 0 := charAt_of_ge (Nat.le_of_not_lt h1)
    rw [ha0, eq_comm, charAt_eq_zero_iff hb, List.getElem?_eq_none (Nat.le_of_not_lt h1), eq_comm,
      List.getElem?_eq_none_iff]

theorem swStrncmp_empty (h : charAt a 0 = 0 ∨ charAt b 0 = 0) : swStrncmp a b i n = true := by
  rw [← strncmpLoop_names]
  exact strncmpLoop_empty h

def inMemory (ha : 0 ∉ a) : CString where
  char := charAt a
  len := a.length
  ended := charAt_of_ge le_rfl
  noEnd _ hi h := Nat.not_le_of_lt hi ((charAt_eq_zero_iff ha).mp h)

theorem swStrncmp_iff (ha : 0 ∉ a) (hb : 0 ∉ b) (ha0 : charAt a 0 ≠ 0) (hb0 : charAt b 0 ≠ 0) :
    swStrncmp a b 0 n = true ↔ ∀ k < n, charAt a k = charAt b k := by
  have h0 : (inMemory ha).len = 0 ↔ (inMemory hb).len = 0 := by
    rw [← CString.head_eq_zero_iff, ← CString.head_eq_zero_iff]
    exact iff_of_false ha0 hb0
  rw [← strncmpLoop_names]
  refine ((strncmpRight_iff _ _ n).mpr (Or.inr h0)).result.trans (or_iff_left_of_imp ?_)
  rintro ⟨hlen, h⟩ k -
  by_cases hk : k < a.length
  · exact h k hk
  · have hlen' : a.length = b.length := hlen
    exact (charAt_of_ge (Nat.le_of_not_lt hk)).trans (charAt_of_ge (by omega)).symm

end

/-! ## What is taken for a name -/

/-- an object with the name `stored` is taken for `x` -/
def Taken (stored x : List (BitVec 8)) : Prop := stored = [] ∨ x <+: stored

/-- a device with the name `stored` is taken for `x` -/
def DeviceTaken (stored x : List (BitVec 8)) : Prop := stored = [] ∨ x = [] ∨ stored = x.take 20

instance (stored x : List (BitVec 8)) : Decidable (Taken stored x) :=
  inferInstanceAs (Decidable (_ ∨ _))

instance (stored x : List (BitVec 8)) : Decidable (DeviceTaken stored x) :=
  inferInstanceAs (Decidable (_ ∨ _))

section
variable {a x : List (BitVec 8)}

theorem takeWhile_noEnd (hx : 0 ∉ x) : x.takeWhile (· ≠ 0) = x :=
  List.takeWhile_eq_self_iff.mpr fun _ hc => decide_eq_true fun e => hx (e ▸ hc)

theorem swStrnlen_eq (hx : 0 ∉ x) (hn : x.length < maxNameLen) : swStrnlen x maxNameLen = x.length := by
  unfold swStrnlen
  rw [takeWhile_noEnd hx]
  exact Nat.min_eq_left (Nat.le_of_lt hn)

theorem swStrncpy_eq (hx : 0 ∉ x) (hn : x.length < maxNameLen) : swStrncpy x maxNameLen = x := by
  unfold swStrncpy
  rw [takeWhile_noEnd hx, List.take_of_length_le (Nat.le_of_lt hn)]

theorem taken_iff (ha : 0 ∉ a) (hx : 0 ∉ x) (hn : x.length < maxNameLen) :
    swStrncmp a x 0 (swStrnlen x maxNameLen) = true ↔ Taken a x := by
  unfold Taken
  rw [swStrnlen_eq hx hn]
  by_cases ha0 : a = []
  · exact iff_of_true (swStrncmp_empty (Or.inl ((charAt_zero_iff ha).mpr ha0))) (Or.inl ha0)
  · by_cases hx0 : x = []
    · rw [hx0]
      exact iff_of_true rfl (Or.inr List.nil_prefix)
    · rw [swStrncmp_iff ha hx (fun e => ha0 ((charAt_zero_iff ha).mp e))
        (fun e => hx0 ((charAt_zero_iff hx).mp e)), or_iff_right ha0, List.prefix_iff_getElem?]
      constructor
      · intro h k hk
        rw [← List.getElem?_eq_getElem hk]
        exact (charAt_congr_iff ha hx).mp (h k hk)
      · intro h k hk
        refine (charAt_congr_iff ha hx).mpr ?_
        rw [List.getElem?_eq_getElem hk]
        exact h k hk

theorem deviceTaken_iff (ha : 0 ∉ a) (hfit : a.length ≤ 20) (hx : 0 ∉ x) :
    swStrncmp a x 0 20 = true ↔ DeviceTaken a x := by
  unfold DeviceTaken
  by_cases ha0 : a = []
  · exact iff_of_true (swStrncmp_empty (Or.inl ((charAt_zero_iff ha).mpr ha0))) (Or.inl ha0)
  · by_cases hx0 : x = []
    · exact iff_of_true (swStrncmp_empty (Or.inr ((charAt_zero_iff hx).mpr hx0))) (Or.inr (Or.inl hx0))
    · rw [swStrncmp_iff ha hx (fun e => ha0 ((charAt_zero_iff ha).mp e))
        (fun e => hx0 ((charAt_zero_iff hx).mp e)), or_iff_right ha0, or_iff_right hx0,
        List.ext_getElem?_iff]
      constructor
      · intro h k
        by_cases hk : k < 20
        · rw [List.getElem?_take_of_lt hk]
          exact (charAt_congr_iff ha hx).mp (h k hk)
        · rw [List.getElem?_eq_none (by omega), List.getElem?_eq_none]
          rw [List.length_take]
          omega
      · intro h k hk
        refine (charAt_congr_iff ha hx).mpr ?_
        rw [h k, List.getElem?_take_of_lt hk]

end

end Names
end SierraTee
