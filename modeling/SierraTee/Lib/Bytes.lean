import Mathlib.Data.List.Range
import Mathlib.Tactic.IntervalCases

/-!
# Bytes and words in a memory area

A memory area is a function from offsets to bytes together with a size.  Bytes that are stored
behind the end are lost, and a load that does not stay inside gives nothing.

* `ofBytes_eq_iff`                 a word is loaded back exactly when its four bytes are there;
* `store_inside`, `store_outside`  what a store changes and what it leaves.
-/

namespace Bytes

/-- byte `k` of a word, the lowest first -/
def wordByte (w : UInt32) (k : Nat) : UInt8 := UInt8.ofNat (w.toNat / 256 ^ k)

def wordBytes (w : UInt32) : List UInt8 := (List.range 4).map (wordByte w)

/-- the word of the four bytes `b 0`, ..., `b 3` -/
def ofBytes (b : Nat → UInt8) : UInt32 :=
  UInt32.ofNat ((b 0).toNat + 256 * (b 1).toNat + 256 ^ 2 * (b 2).toNat + 256 ^ 3 * (b 3).toNat)

/-- the area after the bytes `l` are stored from `pos` on -/
def store (size : Nat) (buf : Nat → UInt8) (pos : Nat) (l : List UInt8) : Nat → UInt8 :=
  fun x => if pos ≤ x ∧ x < pos + l.length ∧ x < size then l.getD (x - pos) 0 else buf x

/-- `n` bytes from `pos` on -/
def load (size : Nat) (buf : Nat → UInt8) (pos : Int) (n : Nat) : Option (List UInt8) :=
  if 0 ≤ pos ∧ pos + n ≤ size then some ((List.range n).map fun k => buf (pos.toNat + k))
  else none

/-- the word at `pos` -/
def loadWord (size : Nat) (buf : Nat → UInt8) (pos : Int) : Option UInt32 :=
  if 0 ≤ pos ∧ pos + 4 ≤ size then some (ofBytes fun k => buf (pos.toNat + k)) else none

@[simp] theorem length_wordBytes (w : UInt32) : (wordBytes w).length = 4 := by
  simp [wordBytes]

theorem getD_wordBytes (w : UInt32) {k : Nat} (hk : k < 4) :
    (wordBytes w).getD k 0 = wordByte w k := by
  simp [wordBytes, hk]

theorem toNat_wordByte (w : UInt32) (k : Nat) :
    (wordByte w k).toNat = w.toNat / 256 ^ k % 256 := by
  rw [wordByte, UInt8.toNat_ofNat']

theorem ofBytes_wordByte (w : UInt32) : ofBytes (wordByte w) = w := by
  apply UInt32.toNat_inj.1
  have hw : w.toNat < 2 ^ 32 := w.toNat_lt
  rw [ofBytes, UInt32.toNat_ofNat', toNat_wordByte, toNat_wordByte, toNat_wordByte,
    toNat_wordByte]
  omega

theorem ofBytes_congr {b c : Nat → UInt8} (h : ∀ k < 4, b k = c k) : ofBytes b = ofBytes c := by
  rw [ofBytes, ofBytes, h 0 (by omega), h 1 (by omega), h 2 (by omega), h 3 (by omega)]

theorem wordByte_ofBytes (b : Nat → UInt8) {k : Nat} (hk : k < 4) :
    wordByte (ofBytes b) k = b k := by
  apply UInt8.toNat_inj.1
  have h0 := (b 0).toNat_lt
  have h1 := (b 1).toNat_lt
  have h2 := (b 2).toNat_lt
  have h3 := (b 3).toNat_lt
  rw [toNat_wordByte, ofBytes, UInt32.toNat_ofNat']
  interval_cases k <;> omega

/-- **A word is read back** exactly when its four bytes are there. -/
theorem ofBytes_eq_iff (b : Nat → UInt8) (w : UInt32) :
    ofBytes b = w ↔ ∀ k < 4, b k = wordByte w k := by
  constructor
  · rintro rfl k hk
    exact (wordByte_ofBytes b hk).symm
  · intro h
    rw [ofBytes_congr h]
    exact ofBytes_wordByte w

theorem wordBytes_ofBytes {l : List UInt8} (h : l.length = 4) :
    wordBytes (ofBytes fun k => l.getD k 0) = l := by
  apply List.ext_getElem
  · rw [length_wordBytes, h]
  · intro k h1 h2
    simp only [wordBytes, List.getElem_map, List.getElem_range]
    rw [wordByte_ofBytes _ (by omega), List.getD_eq_getElem?_getD, List.getElem?_eq_getElem h2,
      Option.getD_some]

section
variable {size pos x : Nat} {buf : Nat → UInt8} {l : List UInt8}

theorem store_inside (h1 : pos ≤ x) (h2 : x < pos + l.length) (h3 : x < size) :
    store size buf pos l x = l.getD (x - pos) 0 := if_pos ⟨h1, h2, h3⟩

theorem store_outside (h : x < pos ∨ pos + l.length ≤ x ∨ size ≤ x) :
    store size buf pos l x = buf x := by
  refine if_neg fun hc => ?_
  omega

theorem store_nil : store size buf pos [] = buf := by
  funext y
  refine if_neg fun hc => ?_
  rw [List.length_nil] at hc
  omega

end

end Bytes
