import SierraTee.Common.Memory
import SierraTee.Lib.FlatMemory

/-!
# The copies of the secure side, loop by loop (`sw_mem_functions.c`)

The memory has a byte at each 32-bit address.

* `swMemcpy_bytes`  the fast path is the same copy as the byte-wise one;
* `copies_exact`    both functions copy their range and nothing else.
-/

namespace SierraTee.MemFunctions
open FlatMemory WrappedCopies

/-- the byte at each address -/
abbrev ByteMemory := Word → UInt8

def copyByte (m : ByteMemory) (dst src : Word) : ByteMemory := Function.update m dst (m src)

/-- `*dst = *src` for an aligned word, which is read whole before it is written -/
def copyWord (m : ByteMemory) (dst src : Word) : ByteMemory := moveCells m dst src 4

structure CopyState where
  mem : ByteMemory
  dstTmp : Word
  srcTmp : Word
  i : Word

/-- the loop over words; it ends at its condition or at the `break` -/
def wordLoop (count : Word) : Nat → CopyState → Option CopyState
  | 0, _ => none
  | fuel + 1, s =>
    if s.i < count then
      if count - 1 < s.i + 3 then some s
      else wordLoop count fuel
        ⟨copyWord s.mem s.dstTmp s.srcTmp, s.dstTmp + 4, s.srcTmp + 4, s.i + 4⟩
    else some s

def tailLoop (count : Word) : Nat → CopyState → Option CopyState
  | 0, _ => none
  | fuel + 1, s =>
    if s.i < count then
      tailLoop count fuel ⟨copyByte s.mem s.dstTmp s.srcTmp, s.dstTmp + 1, s.srcTmp + 1, s.i + 1⟩
    else some s

/-- the generic version, from the index `i` on -/
def byteLoop (dst src count : Word) : Nat → Word → ByteMemory → Option ByteMemory
  | 0, _, _ => none
  | fuel + 1, i, m =>
    if i < count then byteLoop dst src count fuel (i + 1) (copyByte m (dst + i) (src + i)) else some m

/-- `sw_memcpy`; `none` only when the fuel does not last -/
def swMemcpy (fuel : Nat) (m : ByteMemory) (dst src count : Word) : Option ByteMemory :=
  if src &&& 3 = 0 ∧ dst &&& 3 = 0 then
    (wordLoop count fuel ⟨m, dst, src, 0⟩).bind fun s =>
      if s.i ≤ count - 1 then (tailLoop count fuel s).map CopyState.mem else some s.mem
  else byteLoop dst src count fuel 0 m

def upLoop : Nat → ByteMemory → Word → Word → Word → Option ByteMemory
  | 0, _, _, _, _ => none
  | fuel + 1, m, tmp, s, count =>
    if count = 0 then some m else upLoop fuel (copyByte m tmp s) (tmp + 1) (s + 1) (count - 1)

def downLoop : Nat → ByteMemory → Word → Word → Word → Option ByteMemory
  | 0, _, _, _, _ => none
  | fuel + 1, m, tmp, s, count =>
    if count = 0 then some m
    else downLoop fuel (copyByte m (tmp - 1) (s - 1)) (tmp - 1) (s - 1) (count - 1)

def swMemmove (fuel : Nat) (m : ByteMemory) (dest src count : Word) : Option ByteMemory :=
  if dest ≤ src then upLoop fuel m dest src count
  else downLoop fuel m (dest + count) (src + count) count

def ReadsAhead (dst src : Word) (n : Nat) : Prop :=
  ∀ j < n, j ≤ (src + BitVec.ofNat 32 j - dst).toNat

def ReadsBehind (dst src : Word) (n : Nat) : Prop :=
  ∀ j < n, n - (j + 1) ≤ (src + BitVec.ofNat 32 j - (dst + BitVec.ofNat 32 (j + 1))).toNat

def progress (m : ByteMemory) (dst src : Word) (k : Nat) : CopyState :=
  ⟨moveCells m dst src k, dst + BitVec.ofNat 32 k, src + BitVec.ofNat 32 k, BitVec.ofNat 32 k⟩

section
variable {m : ByteMemory} {dst src count : Word} {fuel n k : Nat}

theorem word_ofNat (h : k < 2 ^ 32) : (BitVec.ofNat 32 k).toNat = k := by
  rw [BitVec.toNat_ofNat, Nat.mod_eq_of_lt h]

theorem ofNat_add_one (k : Nat) : BitVec.ofNat 32 k + 1 = BitVec.ofNat 32 (k + 1) :=
  (BitVec.ofNat_add k 1).symm

/-! ## The orders of a copy -/

theorem ReadsAhead.of_disjoint (h : Disjoint dst src n) : ReadsAhead dst src n := by
  intro j hj
  by_contra hlt
  refine h (src + BitVec.ofNat 32 j - dst).toNat (by omega) j hj ?_
  rw [BitVec.ofNat_toNat, BitVec.setWidth_eq]
  exact add_sub_cancel ..

theorem ReadsAhead.of_le (h : dst ≤ src) (hs : src.toNat + n ≤ 2 ^ 32) : ReadsAhead dst src n := by
  intro j hj
  have h1 := BitVec.le_def.mp h
  have h2 := word_ofNat (k := j) (by omega)
  have h3 : (src + BitVec.ofNat 32 j).toNat = src.toNat + j := by
    rw [BitVec.toNat_add, h2, Nat.mod_eq_of_lt (by omega)]
  rw [BitVec.toNat_sub_of_le (BitVec.le_def.mpr (by omega)), h3]
  omega

theorem ReadsBehind.of_lt (h : src < dst) (hd : dst.toNat + n ≤ 2 ^ 32) : ReadsBehind dst src n := by
  intro j hj
  have h1 := BitVec.lt_def.mp h
  have e : src + BitVec.ofNat 32 j - (dst + BitVec.ofNat 32 (j + 1)) = src - (dst + 1) := by
    rw [← ofNat_add_one]
    abel
  have h2 : (dst + 1).toNat = (dst.toNat + 1) % 2 ^ 32 := BitVec.toNat_add dst 1
  rw [e, BitVec.toNat_sub, h2]
  omega

theorem ReadsAhead.next (h : ReadsAhead dst src n) (hn : n < 2 ^ 32) {l : Nat} (hk : k + l ≤ n) :
    moveCells (moveCells m dst src k) (dst + BitVec.ofNat 32 k) (src + BitVec.ofNat 32 k) l
      = moveCells m dst src (k + l) :=
  moveCells_forward (by omega) (by omega) fun j hj hl => le_trans hj (h j (by omega))

theorem ReadsBehind.next (h : ReadsBehind dst src n) (hk : k < n) :
    copyByte (moveCells m (dst + BitVec.ofNat 32 (k + 1)) (src + BitVec.ofNat 32 (k + 1))
      (n - (k + 1))) (dst + BitVec.ofNat 32 k) (src + BitVec.ofNat 32 k)
      = moveCells m (dst + BitVec.ofNat 32 k) (src + BitVec.ofNat 32 k) (n - k) := by
  rw [copyByte, ← moveCells_one, BitVec.ofNat_add, ← BitVec.add_assoc, ← BitVec.add_assoc,
    moveCells_backward (by decide), show 1 + (n - (k + 1)) = n - k by omega]
  intro j hj
  have hj0 : j = 0 := by omega
  have hk' := h k hk
  rw [BitVec.ofNat_add, ← BitVec.add_assoc] at hk'
  rw [hj0]
  simpa using hk'

/-! ## The loops -/

theorem tailLoop_eq (h : ReadsAhead dst src count.toNat) (hk : k ≤ count.toNat)
    (hf : count.toNat - k < fuel) : tailLoop count fuel (progress m dst src k)
      = some (progress m dst src count.toNat) := by
  have hlt := count.isLt
  induction fuel generalizing k with
  | zero => omega
  | succ fuel ih =>
    have hik := word_ofNat (k := k) (by omega)
    unfold tailLoop
    show (if BitVec.ofNat 32 k < count then tailLoop count fuel _ else _) = _
    split_ifs with h1
    · rw [BitVec.lt_def, hik] at h1
      have hstep : (⟨copyByte (moveCells m dst src k) (dst + BitVec.ofNat 32 k)
          (src + BitVec.ofNat 32 k), dst + BitVec.ofNat 32 k + 1, src + BitVec.ofNat 32 k + 1,
          BitVec.ofNat 32 k + 1⟩ : CopyState) = progress m dst src (k + 1) := by
        unfold progress copyByte
        rw [← moveCells_one, h.next hlt h1, BitVec.add_assoc, BitVec.add_assoc, ofNat_add_one]
      exact (congrArg _ hstep).trans (ih h1 (by omega))
    · rw [BitVec.lt_def, hik] at h1
      rw [show count.toNat = k by omega]

theorem wordLoop_eq (h : ReadsAhead dst src count.toNat) (hc : count.toNat < 2 ^ 31)
    (hk : k ≤ count.toNat) (hf : count.toNat - k < fuel) :
    ∃ l, l ≤ count.toNat ∧
      wordLoop count fuel (progress m dst src k) = some (progress m dst src l) := by
  have hlt := count.isLt
  induction fuel generalizing k with
  | zero => omega
  | succ fuel ih =>
    have hik := word_ofNat (k := k) (by omega)
    unfold wordLoop
    show ∃ l, _ ∧ (if BitVec.ofNat 32 k < count then
      if count - 1 < BitVec.ofNat 32 k + 3 then _ else wordLoop count fuel _ else _) = _
    split_ifs with h1 h2
    · exact ⟨k, hk, rfl⟩
    · rw [BitVec.lt_def, hik] at h1
      have h3 : (BitVec.ofNat 32 k + 3).toNat = k + 3 := by
        rw [BitVec.toNat_add, hik]
        exact Nat.mod_eq_of_lt (show k + 3 < 2 ^ 32 by omega)
      have h4 : (count - 1).toNat = count.toNat - 1 := by
        rw [BitVec.toNat_sub_of_le (BitVec.le_def.mpr (by simp; omega))]
        rfl
      rw [BitVec.lt_def, h3, h4] at h2
      have hstep : (⟨copyWord (moveCells m dst src k) (dst + BitVec.ofNat 32 k)
          (src + BitVec.ofNat 32 k), dst + BitVec.ofNat 32 k + 4, src + BitVec.ofNat 32 k + 4,
          BitVec.ofNat 32 k + 4⟩ : CopyState) = progress m dst src (k + 4) := by
        unfold progress copyWord
        rw [h.next hlt (by omega), BitVec.add_assoc, BitVec.add_assoc, BitVec.ofNat_add]
        rfl
      obtain ⟨l, hl, he⟩ := ih (k := k + 4) (by omega) (by omega)
      exact ⟨l, hl, (congrArg _ hstep).trans he⟩
    · exact ⟨k, hk, rfl⟩

theorem byteLoop_eq (h : ReadsAhead dst src count.toNat) (hk : k ≤ count.toNat)
    (hf : count.toNat - k < fuel) :
    byteLoop dst src count fuel (BitVec.ofNat 32 k) (moveCells m dst src k)
      = some (moveCells m dst src count.toNat) := by
  have hlt := count.isLt
  induction fuel generalizing k with
  | zero => omega
  | succ fuel ih =>
    have hik := word_ofNat (k := k) (by omega)
    unfold byteLoop
    split_ifs with h1
    · rw [BitVec.lt_def, hik] at h1
      rw [copyByte, ← moveCells_one, h.next hlt h1, ofNat_add_one]
      exact ih h1 (by omega)
    · rw [BitVec.lt_def, hik] at h1
      rw [show count.toNat = k by omega]

theorem upLoop_eq (h : ReadsAhead dst src n) (hn : n < 2 ^ 32) (hk : k ≤ n) (hf : n - k < fuel) :
    upLoop fuel (moveCells m dst src k) (dst + BitVec.ofNat 32 k) (src + BitVec.ofNat 32 k)
      (BitVec.ofNat 32 (n - k)) = some (moveCells m dst src n) := by
  induction fuel generalizing k with
  | zero => omega
  | succ fuel ih =>
    have hnk := word_ofNat (k := n - k) (by omega)
    unfold upLoop
    split_ifs with h1
    · rw [h1] at hnk
      rw [show n = k from Nat.le_antisymm (Nat.sub_eq_zero_iff_le.mp hnk.symm) hk]
    · have hpos : k < n := by
        by_contra hle
        exact h1 (by rw [show n - k = 0 by omega]; rfl)
      have hcount : BitVec.ofNat 32 (n - k) - 1 = BitVec.ofNat 32 (n - (k + 1)) := by
        rw [show n - k = n - (k + 1) + 1 by omega, ← ofNat_add_one, add_sub_cancel_right]
      rw [copyByte, ← moveCells_one, h.next hn hpos, hcount, BitVec.add_assoc, BitVec.add_assoc,
        ofNat_add_one]
      exact ih hpos (by omega)

theorem downLoop_eq (h : ReadsBehind dst src n) (hn : n < 2 ^ 32) (hk : k ≤ n) (hf : k < fuel) :
    downLoop fuel (moveCells m (dst + BitVec.ofNat 32 k) (src + BitVec.ofNat 32 k) (n - k))
      (dst + BitVec.ofNat 32 k) (src + BitVec.ofNat 32 k) (BitVec.ofNat 32 k)
      = some (moveCells m dst src n) := by
  induction fuel generalizing k with
  | zero => omega
  | succ fuel ih =>
    unfold downLoop
    cases k with
    | zero =>
      rw [if_pos (show BitVec.ofNat 32 0 = 0 from rfl)]
      simp
    | succ k =>
      have hne : BitVec.ofNat 32 (k + 1) ≠ 0 := fun h0 => by
        have := word_ofNat (k := k + 1) (by omega)
        rw [h0] at this
        cases this
      have hback (x : Word) : x + BitVec.ofNat 32 (k + 1) - 1 = x + BitVec.ofNat 32 k := by
        rw [← ofNat_add_one, ← BitVec.add_assoc, add_sub_cancel_right]
      have hcount : BitVec.ofNat 32 (k + 1) - 1 = BitVec.ofNat 32 k := by
        rw [← ofNat_add_one, add_sub_cancel_right]
      rw [if_neg hne, hback, hback, hcount, h.next hk]
      exact ih (by omega) (by omega)

/-! ## The functions -/

theorem swMemcpy_eq (h : ReadsAhead dst src count.toNat) (hc : count.toNat < 2 ^ 31)
    (hf : count.toNat < fuel) :
    swMemcpy fuel m dst src count = some (moveCells m dst src count.toNat) := by
  have hstart : (⟨m, dst, src, 0⟩ : CopyState) = progress m dst src 0 := by
    unfold progress
    rw [moveCells_zero]
    simp
  unfold swMemcpy
  split_ifs with hal
  · obtain ⟨l, hl, he⟩ := wordLoop_eq (m := m) (k := 0) h hc (Nat.zero_le _) (by omega)
    rw [hstart, he]
    show (if (BitVec.ofNat 32 l : Word) ≤ count - 1 then _ else some (moveCells m dst src l)) = _
    split_ifs with h1
    · rw [tailLoop_eq h hl (by omega)]
      rfl
    · rw [BitVec.le_def, word_ofNat (by omega)] at h1
      have h2 : (count - 1).toNat = (2 ^ 32 - 1 + count.toNat) % 2 ^ 32 := BitVec.toNat_sub count 1
      rw [show count.toNat = l by omega]
  · have hbytes := byteLoop_eq (m := m) (k := 0) h (Nat.zero_le _) (by omega)
    rw [moveCells_zero] at hbytes
    exact hbytes

theorem swMemcpy_bytes (h : ReadsAhead dst src count.toNat) (hc : count.toNat < 2 ^ 31)
    (hf : count.toNat < fuel) :
    swMemcpy fuel m dst src count = byteLoop dst src count fuel 0 m := by
  have hbytes := byteLoop_eq (m := m) (k := 0) h (Nat.zero_le _) (by omega)
  rw [moveCells_zero] at hbytes
  exact (swMemcpy_eq h hc hf).trans hbytes.symm

theorem swMemmove_eq (hd : dst.toNat + count.toNat ≤ 2 ^ 32) (hs : src.toNat + count.toNat ≤ 2 ^ 32)
    (hf : count.toNat < fuel) :
    swMemmove fuel m dst src count = some (moveCells m dst src count.toNat) := by
  have hc : BitVec.ofNat 32 count.toNat = count := by rw [BitVec.ofNat_toNat, BitVec.setWidth_eq]
  unfold swMemmove
  split_ifs with h
  · have hup := upLoop_eq (m := m) (k := 0) (ReadsAhead.of_le h hs) count.isLt (Nat.zero_le _) hf
    rw [moveCells_zero, Nat.sub_zero, hc] at hup
    simpa using hup
  · have hdown := downLoop_eq (m := m) (k := count.toNat)
      (ReadsBehind.of_lt (BitVec.not_le.mp h) hd) count.isLt le_rfl hf
    rw [Nat.sub_self, moveCells_zero, hc] at hdown
    exact hdown

/-- **The copies**: `sw_memcpy` between disjoint ranges, by words or by bytes, and `sw_memmove`
between any two ranges of the address space. -/
theorem copies_exact (m : ByteMemory) (dst src count : Word) (fuel : Nat)
    (hc : count.toNat < 2 ^ 31) (hf : count.toNat < fuel) :
    (Disjoint dst src count.toNat → ∃ m', swMemcpy fuel m dst src count = some m' ∧
      byteLoop dst src count fuel 0 m = some m' ∧ Copied m m' dst src count.toNat) ∧
    (dst.toNat + count.toNat ≤ 2 ^ 32 → src.toNat + count.toNat ≤ 2 ^ 32 →
      ∃ m', swMemmove fuel m dst src count = some m' ∧ Copied m m' dst src count.toNat) := by
  have hcopied := moveCells_copied m dst src count.isLt.le
  constructor
  · intro h
    have ha := ReadsAhead.of_disjoint h
    have hm := swMemcpy_eq (m := m) ha hc hf
    exact ⟨_, hm, (swMemcpy_bytes ha hc hf).symm.trans hm, hcopied⟩
  · intro hd hs
    exact ⟨_, swMemmove_eq hd hs hf, hcopied⟩

theorem copies_exact_seven :
    (∃ m', swMemcpy 8 (fun _ => 0) 0x1000 0x2000 7 = some m' ∧
      byteLoop 0x1000 0x2000 7 8 0 (fun _ => 0) = some m' ∧ Copied (fun _ => 0) m' 0x1000 0x2000 7) ∧
    (∃ m', swMemmove 8 (fun _ => 0) 0x1002 0x1000 7 = some m' ∧
      Copied (fun _ => 0) m' 0x1002 0x1000 7) :=
  ⟨(copies_exact (fun _ => 0) 0x1000 0x2000 7 8 (by decide) (by decide)).1 (by decide),
    (copies_exact (fun _ => 0) 0x1002 0x1000 7 8 (by decide) (by decide)).2 (by decide) (by decide)⟩

theorem swMemcpy_refines (hd : dst.toNat + count.toNat ≤ 2 ^ 32)
    (hs : src.toNat + count.toNat ≤ 2 ^ 32) (hc : count.toNat < 2 ^ 31) (hf : count.toNat < fuel)
    (h : src.toNat + count.toNat ≤ dst.toNat ∨ dst.toNat + count.toNat ≤ src.toNat) :
    swMemcpy fuel m dst src count = some fun a => SierraTee.swMemcpy
      (fun x => m (BitVec.ofNat 32 x)) dst.toNat src.toNat count.toNat a.toNat := by
  have hsub (j : Nat) (hj : j < count.toNat) : (src + BitVec.ofNat 32 j).toNat = src.toNat + j := by
    rw [BitVec.toNat_add, word_ofNat (by omega), Nat.mod_eq_of_lt (by omega)]
  have hdst := dst.isLt
  have hahead : ReadsAhead dst src count.toNat := by
    intro j hj
    rw [BitVec.toNat_sub, hsub j hj]
    omega
  rw [swMemcpy_eq hahead hc hf, SierraTee.swMemcpy_eq h]
  congr 1
  funext a
  have ha := a.isLt
  have hoff : (a - dst).toNat = (2 ^ 32 - dst.toNat + a.toNat) % 2 ^ 32 := BitVec.toNat_sub a dst
  by_cases hin : (a - dst).toNat < count.toNat
  · have hcell := hsub _ hin
    rw [BitVec.ofNat_toNat, BitVec.setWidth_eq] at hcell
    have he : a.toNat = dst.toNat + (a - dst).toNat := by omega
    rw [moveCells_inside hin, he, Copies.copyAt_inside hin, ← hcell, BitVec.ofNat_toNat,
      BitVec.setWidth_eq]
  · rw [moveCells_outside (Nat.not_lt.mp hin), Copies.copyAt_outside (by omega), BitVec.ofNat_toNat,
      BitVec.setWidth_eq]

end

theorem swMemcpy_refines_neighbour :
    swMemcpy 17 (fun a => .ofNat a.toNat) 0x1000 0x1010 16 = some fun a => SierraTee.swMemcpy
      (fun x => .ofNat (BitVec.ofNat 32 x).toNat) 0x1000 0x1010 16 a.toNat :=
  swMemcpy_refines (by decide) (by decide) (by decide) (by decide) (Or.inr (by decide))

end SierraTee.MemFunctions
