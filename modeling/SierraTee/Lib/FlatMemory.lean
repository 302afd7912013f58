import Mathlib.Data.BitVec

/-!
# A flat memory of 32-bit words

* `storeAll`, `loadAll`  the words of a list to and from consecutive addresses;
* `Apart`                two blocks of words have no address in common;
* `storeAll_nth`         what is stored is there;
* `storeAll_outside`     and every other address is as it was.
-/

namespace FlatMemory
open Function

abbrev Word := BitVec 32

/-- by name, so that a test for membership is the same term in every module -/
instance lawfulBEqWord : LawfulBEq Word := instLawfulBEq

/-- the word at each address; of the addresses of a word only the first is used -/
abbrev Memory := Word → Word

/-- the address of word number `i` of the block at `a` -/
def nth (a : Word) (i : Nat) : Word := a + BitVec.ofNat 32 (4 * i)

def storeAll (m : Memory) (a : Word) : List Word → Memory
  | [] => m
  | w :: l => storeAll (update m a w) (a + 4) l

def loadAll (m : Memory) (a : Word) (n : Nat) : List Word := (List.range n).map fun i => m (nth a i)

/-- `k` words at `a` and `n` words at `b` have no address in common -/
def Apart (a : Word) (k : Nat) (b : Word) (n : Nat) : Prop :=
  ∀ i < k, ∀ j < n, nth a i ≠ nth b j

section
variable {a b : Word} {m : Memory}

theorem nth_zero (a : Word) : nth a 0 = a := by simp [nth]

theorem nth_succ (a : Word) (i : Nat) : nth (a + 4) i = nth a (i + 1) := by
  unfold nth
  rw [Nat.mul_succ, Nat.add_comm (4 * i) 4, BitVec.ofNat_add, ← BitVec.add_assoc]
  rfl

theorem nth_nth (a : Word) (i j : Nat) : nth (nth a i) j = nth a (i + j) := by
  unfold nth
  rw [Nat.mul_add, BitVec.ofNat_add, ← BitVec.add_assoc]

theorem nth_injective {i j : Nat} (hi : i < 2 ^ 30) (hj : j < 2 ^ 30) (h : nth a i = nth a j) :
    i = j := by
  unfold nth at h
  have h1 : BitVec.ofNat 32 (4 * i) = BitVec.ofNat 32 (4 * j) := by simpa using h
  have h2 := congrArg BitVec.toNat h1
  rw [BitVec.toNat_ofNat, BitVec.toNat_ofNat] at h2
  omega

theorem Apart.symm {k n : Nat} (h : Apart a k b n) : Apart b n a k :=
  fun j hj i hi => (h i hi j hj).symm

theorem Apart.mono {k k' n n' : Nat} (h : Apart a k b n) (hk : k' ≤ k) (hn : n' ≤ n) :
    Apart a k' b n' :=
  fun i hi j hj => h i (by omega) j (by omega)

theorem Apart.parts (a : Word) {i k j n : Nat} (h : i + k ≤ j) (hn : j + n < 2 ^ 30) :
    Apart (nth a i) k (nth a j) n := by
  intro x hx y hy e
  rw [nth_nth, nth_nth] at e
  have h1 := nth_injective (by omega) (by omega) e
  omega

theorem Apart.shift {k n i k' : Nat} (h : Apart a k b n) (hk : i + k' ≤ k) :
    Apart (nth a i) k' b n := by
  intro x hx j hj
  rw [nth_nth]
  exact h (i + x) (by omega) j hj

theorem storeAll_append (m : Memory) (a : Word) (l l' : List Word) :
    storeAll m a (l ++ l') = storeAll (storeAll m a l) (nth a l.length) l' := by
  induction l generalizing m a with
  | nil => rw [List.nil_append, List.length_nil, nth_zero]; rfl
  | cons w l ih =>
    rw [List.cons_append, List.length_cons, ← nth_succ]
    exact ih (update m a w) (a + 4)

@[simp] theorem length_loadAll (m : Memory) (a : Word) (n : Nat) : (loadAll m a n).length = n := by
  unfold loadAll
  rw [List.length_map, List.length_range]

theorem storeAll_next {i : Nat} {l : List Word} (hi : i = l.length) (l' : List Word) :
    storeAll (storeAll m a l) (nth a i) l' = storeAll m a (l ++ l') := by
  rw [storeAll_append, hi]

theorem storeAll_outside {x : Word} {l : List Word} (h : ∀ i < l.length, x ≠ nth a i) :
    storeAll m a l x = m x := by
  induction l generalizing m a with
  | nil => rfl
  | cons w l ih =>
    have h0 : x ≠ a := by
      have h1 := h 0 (Nat.succ_pos _)
      rwa [nth_zero] at h1
    show storeAll (update m a w) (a + 4) l x = m x
    rw [ih, update_of_ne h0]
    intro i hi
    rw [nth_succ]
    exact h (i + 1) (Nat.succ_lt_succ hi)

theorem storeAll_nth {l : List Word} (h : l.length < 2 ^ 30) {i : Nat} (hi : i < l.length) :
    storeAll m a l (nth a i) = l.get ⟨i, hi⟩ := by
  induction l generalizing m a i with
  | nil => cases hi
  | cons w l ih =>
    rw [List.length_cons] at h hi
    show storeAll (update m a w) (a + 4) l (nth a i) = _
    cases i with
    | zero =>
      rw [storeAll_outside, nth_zero, update_self]
      · rfl
      · intro j hj e
        rw [nth_succ] at e
        have h1 := nth_injective (by omega) (by omega) e
        omega
    | succ i =>
      rw [← nth_succ]
      exact ih (by omega) (by omega)

theorem storeAll_apart {l : List Word} {k i : Nat} (h : Apart a k b l.length) (hi : i < k) :
    storeAll m b l (nth a i) = m (nth a i) :=
  storeAll_outside (h i hi)

theorem loadAll_congr {m' : Memory} {n : Nat} (h : ∀ i < n, m (nth a i) = m' (nth a i)) :
    loadAll m a n = loadAll m' a n :=
  List.map_congr_left fun i hi => h i (List.mem_range.mp hi)

theorem loadAll_storeAll_apart {l : List Word} {n : Nat} (h : Apart a n b l.length) :
    loadAll (storeAll m b l) a n = loadAll m a n :=
  loadAll_congr fun _ hi => storeAll_apart h hi

theorem loadAll_storeAll {l : List Word} (h : l.length < 2 ^ 30) :
    loadAll (storeAll m a l) a l.length = l := by
  refine List.ext_getElem (length_loadAll ..) fun i _ hi => ?_
  simp only [loadAll, List.getElem_map, List.getElem_range]
  exact storeAll_nth h hi

theorem loadAll_add (m : Memory) (a : Word) (k n : Nat) :
    loadAll m a (k + n) = loadAll m a k ++ loadAll m (nth a k) n := by
  unfold loadAll
  rw [List.range_add, List.map_append, List.map_map]
  refine congrArg (_ ++ ·) (List.map_congr_left fun i _ => ?_)
  rw [nth_nth]
  rfl

theorem nth_sub (a : Word) {k n : Nat} (h : k ≤ n) :
    nth a n - BitVec.ofNat 32 (4 * k) = nth a (n - k) := by
  have h1 : nth a n = nth (nth a (n - k)) k := by rw [nth_nth, Nat.sub_add_cancel h]
  rw [h1]
  unfold nth
  exact BitVec.add_sub_cancel ..

end

end FlatMemory
