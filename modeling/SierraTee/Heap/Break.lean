import SierraTee.Lib.Runs
import Mathlib.Algebra.Order.Ring.Nat
import Mathlib.Data.Set.Lattice
import Mathlib.Order.CompletePartialOrder

/-!
# The program break (`core/global.c`, `lib/user/syscalls.c`)

All tasks share one heap of the C library.  `sw_sys_sbrk` reads the break by one system call and
sets it by a second one; another task can run between the two.

* `blocks_good_iff`  the blocks lie in the heap and no two of them meet exactly if each request is
                     answered with the break it has read.

The check `heap_end + incr > heap_top` is one on words: a request can pass it by wrapping around.
-/

namespace SierraTee.Break
open Function Runs

/-- `libc_heap_start`, `libc_heap_size` and `libc_heap_current` -/
structure LibcHeap where
  start : BitVec 32
  size : BitVec 32
  current : BitVec 32

structure SbrkArgs where
  heapLow : BitVec 32
  heapSize : BitVec 32
  prevHeapEnd : BitVec 32

/-- `sw_libc_sbrk`; without a heap `prev_heap_end` stays as it is -/
def LibcHeap.swLibcSbrk (g : LibcHeap) (prevHeapEnd : BitVec 32) : SbrkArgs :=
  if g.start = 0 then ⟨0, 0, prevHeapEnd⟩ else ⟨g.start, g.size, g.current⟩

def SbrkArgs.heapTop (a : SbrkArgs) : BitVec 32 := if a.heapLow = 0 then 0 else a.heapLow + a.heapSize

def SbrkArgs.heapEnd (a : SbrkArgs) : BitVec 32 :=
  if a.prevHeapEnd = 0 then a.heapLow else a.prevHeapEnd

/-- `sw_sys_sbrk` behind its first call: the break that it sets -/
def swSysSbrk (a : SbrkArgs) (incr : BitVec 32) : Option (BitVec 32) :=
  if a.heapEnd + incr > a.heapTop then none else some (a.heapEnd + incr)

structure Block where
  addr : BitVec 32
  length : BitVec 32

def Block.bytes (b : Block) : Set Nat := {x | b.addr.toNat ≤ x ∧ x < b.addr.toNat + b.length.toNat}

def libcHeapVa : BitVec 32 := 0xb0000000

def libcHeapSize : BitVec 32 := 1 <<< 23

def heapBytes : Set Nat := {x | libcHeapVa.toNat ≤ x ∧ x < libcHeapVa.toNat + libcHeapSize.toNat}

section
variable {T : Type*} [DecidableEq T]

/-- the heap, what the tasks between their two calls have read, and the blocks given so far -/
structure Libc (T : Type*) where
  heap : LibcHeap
  args : T → Option SbrkArgs
  blocks : List Block

inductive Act (T : Type*) where
  /-- `__sw_sbrk`, with what is in `prev_heap_end` before it -/
  | sbrk (t : T) (prevHeapEnd : BitVec 32)
  /-- the rest of `sw_sys_sbrk`, with `__sw_sbrk_update` -/
  | update (t : T) (incr : BitVec 32)

def breakStep (s : Libc T) : Act T → Option (Libc T)
  | .sbrk t prevHeapEnd =>
    some { s with args := update s.args t (some (s.heap.swLibcSbrk prevHeapEnd)) }
  | .update t incr => (s.args t).map fun a =>
    match swSysSbrk a incr with
    | none => { s with args := update s.args t none }
    | some heapEnd =>
      { heap := { s.heap with current := heapEnd }
        args := update s.args t none
        blocks := ⟨a.heapEnd, incr⟩ :: s.blocks }

/-- as `init_global` leaves it -/
def boot : Libc T := ⟨⟨libcHeapVa, libcHeapSize, 0⟩, fun _ => none, []⟩

/-- a positive `int` -/
def Grows (_ : Libc T) : Act T → Prop
  | .sbrk _ _ => True
  | .update _ incr => 0 < incr.toInt

/-- a request that is granted finds the break as it has read it, and `heap_end + incr` does not
wrap around -/
def Sound (s : Libc T) : Act T → Prop
  | .sbrk _ _ => True
  | .update t incr => ∀ a, s.args t = some a → (swSysSbrk a incr).isSome →
    a.prevHeapEnd = s.heap.current ∧ a.heapEnd.toNat + incr.toNat < 2 ^ 32

/-- the blocks lie in the heap, and no two of them share a byte -/
def Good (bs : List Block) : Prop :=
  (∀ b ∈ bs, b.bytes ⊆ heapBytes) ∧ bs.Pairwise fun b c => Disjoint b.bytes c.bytes

/-- `libc_heap_current` is 0 as long as the break is the start of the heap -/
def Marks (w : BitVec 32) (b : Nat) : Prop :=
  w = 0 ∧ b = libcHeapVa.toNat ∨ libcHeapVa.toNat < b ∧ w.toNat = b

structure Filled (s : Libc T) (hi : Nat) : Prop where
  start : s.heap.start = libcHeapVa
  size : s.heap.size = libcHeapSize
  current : Marks s.heap.current hi
  top : hi ≤ libcHeapVa.toNat + libcHeapSize.toNat
  blocks : ∀ x, (∃ b ∈ s.blocks, x ∈ b.bytes) ↔ libcHeapVa.toNat ≤ x ∧ x < hi
  apart : s.blocks.Pairwise fun b c => Disjoint b.bytes c.bytes
  args : ∀ t a, s.args t = some a → a.heapLow = libcHeapVa ∧ a.heapSize = libcHeapSize ∧
    ∃ b ≤ hi, Marks a.prevHeapEnd b

variable {s s' : Libc T} {hi : Nat} {a : SbrkArgs}

theorem Marks.eq_iff {w w' : BitVec 32} {b b' : Nat} (h : Marks w b) (h' : Marks w' b') :
    w = w' ↔ b = b' := by
  constructor
  · rintro rfl
    rcases h with ⟨h0, hb⟩ | ⟨hlt, hb⟩ <;> rcases h' with ⟨h0', hb'⟩ | ⟨hlt', hb'⟩
    · exact hb.trans hb'.symm
    · rw [h0] at hb'
      exact absurd hb' (Nat.ne_of_lt (Nat.zero_lt_of_lt hlt'))
    · rw [h0'] at hb
      exact absurd hb (Nat.ne_of_lt (Nat.zero_lt_of_lt hlt))
    · exact hb.symm.trans hb'
  · rintro rfl
    rcases h with ⟨h0, hb⟩ | ⟨hlt, hb⟩ <;> rcases h' with ⟨h0', hb'⟩ | ⟨hlt', hb'⟩
    · rw [h0, h0']
    · omega
    · omega
    · exact BitVec.eq_of_toNat_eq (hb.trans hb'.symm)

theorem Marks.heapEnd {b : Nat} (h : Marks a.prevHeapEnd b) (hlow : a.heapLow = libcHeapVa) :
    a.heapEnd.toNat = b ∧ libcHeapVa.toNat ≤ b := by
  unfold SbrkArgs.heapEnd
  rcases h with ⟨h0, hb⟩ | ⟨hlt, hb⟩
  · rw [if_pos h0, hlow]
    exact ⟨hb.symm, hb.ge⟩
  · have hne : a.prevHeapEnd ≠ 0 := by
      intro h0
      rw [h0] at hb
      exact absurd hb (Nat.ne_of_lt (Nat.zero_lt_of_lt hlt))
    rw [if_neg hne]
    exact ⟨hb, hlt.le⟩

section
omit [DecidableEq T]

theorem Filled.good (h : Filled s hi) : Good s.blocks := by
  refine ⟨fun b hb x hx => ?_, h.apart⟩
  obtain ⟨hlo, hlt⟩ := (h.blocks x).mp ⟨b, hb, hx⟩
  exact ⟨hlo, hlt.trans_le h.top⟩

theorem filled_boot : Filled (boot (T := T)) libcHeapVa.toNat where
  start := rfl
  size := rfl
  current := Or.inl ⟨rfl, rfl⟩
  top := Nat.le_add_right _ _
  blocks x := by
    constructor
    · rintro ⟨b, hb, -⟩
      exact absurd hb List.not_mem_nil
    · rintro ⟨hlo, hlt⟩
      omega
  apart := List.Pairwise.nil
  args _ _ h := nomatch h

theorem Filled.push (h : Filled s hi) {addr incr e : BitVec 32} {args : T → Option SbrkArgs}
    (haddr : addr.toNat = hi) (hpos : 0 < incr.toNat) (hsum : hi + incr.toNat = e.toNat)
    (htop : e.toNat ≤ libcHeapVa.toNat + libcHeapSize.toNat)
    (hargs : ∀ t a, args t = some a → a.heapLow = libcHeapVa ∧ a.heapSize = libcHeapSize ∧
      ∃ b ≤ e.toNat, Marks a.prevHeapEnd b) :
    Filled ⟨{ s.heap with current := e }, args, ⟨addr, incr⟩ :: s.blocks⟩ e.toNat := by
  have hnew (x : Nat) : x ∈ (⟨addr, incr⟩ : Block).bytes ↔ hi ≤ x ∧ x < e.toNat := by
    rw [← hsum, ← haddr]
    exact Iff.rfl
  have hlo : libcHeapVa.toNat ≤ hi := by
    rcases h.current with ⟨-, hb⟩ | ⟨hlt, -⟩
    · exact hb.ge
    · exact hlt.le
  refine ⟨h.start, h.size, Or.inr ⟨by omega, rfl⟩, htop, fun x => ?_, ?_, hargs⟩
  · simp only [List.mem_cons, or_and_right, exists_or, exists_eq_left, hnew, h.blocks x]
    omega
  · refine List.pairwise_cons.mpr ⟨fun c hc => Set.disjoint_left.mpr fun x hx hxc => ?_, h.apart⟩
    have hge := ((hnew x).mp hx).1
    exact absurd ((h.blocks x).mp ⟨c, hc, hxc⟩).2 (Nat.not_lt.mpr hge)

theorem Filled.stale (h : Filled s hi) {b : Block} (hlo : libcHeapVa.toNat ≤ b.addr.toNat)
    (hlt : b.addr.toNat < hi) (hlen : 0 < b.length.toNat) : ¬ Good (b :: s.blocks) := by
  intro hgood
  obtain ⟨c, hc, hx⟩ := (h.blocks _).mpr ⟨hlo, hlt⟩
  have hapart := (List.pairwise_cons.mp hgood.2).1 c hc
  exact Set.disjoint_left.mp hapart ⟨le_rfl, by omega⟩ hx

end

theorem swSysSbrk_iff (hlow : a.heapLow = libcHeapVa) (hsize : a.heapSize = libcHeapSize)
    {incr e : BitVec 32} : swSysSbrk a incr = some e ↔
      e.toNat ≤ libcHeapVa.toNat + libcHeapSize.toNat ∧ a.heapEnd + incr = e := by
  have htop : a.heapTop = 0xb0800000 := by
    unfold SbrkArgs.heapTop
    rw [hlow, hsize]
    rfl
  unfold swSysSbrk
  rw [htop, Option.ite_none_left_eq_some, Option.some_inj]
  constructor
  · rintro ⟨hle, rfl⟩
    exact ⟨BitVec.not_lt.mp hle, rfl⟩
  · rintro ⟨hle, rfl⟩
    exact ⟨BitVec.not_lt.mpr hle, rfl⟩

/-- **One system call** keeps the blocks as they should be exactly if it is a sound one. -/
theorem Filled.step (h : Filled s hi) {act : Act T} (hgrow : Grows s act)
    (hs : breakStep s act = some s') :
    (Sound s act → ∃ hi', Filled s' hi') ∧ (Good s'.blocks → Sound s act) := by
  cases act with
  | sbrk t w =>
    cases hs
    refine ⟨fun _ => ⟨hi, { h with args := fun u a ha => ?_ }⟩, fun _ => trivial⟩
    replace ha : update s.args t (some (s.heap.swLibcSbrk w)) u = some a := ha
    by_cases hu : u = t
    · subst hu
      rw [update_self, Option.some_inj] at ha
      have hstart : s.heap.start ≠ 0 := by
        rw [h.start]
        decide
      rw [← ha, LibcHeap.swLibcSbrk, if_neg hstart]
      exact ⟨h.start, h.size, hi, le_rfl, h.current⟩
    · rw [update_of_ne hu] at ha
      exact h.args u a ha
  | update t incr =>
    have hpos : 0 < incr.toNat := by
      have hint : 0 < incr.toInt := hgrow
      rw [BitVec.toInt_eq_toNat_cond] at hint
      have := incr.isLt
      split at hint <;> omega
    obtain ⟨a, ha, rfl⟩ := Option.map_eq_some_iff.mp hs
    obtain ⟨hlow, hsize, b, hb, hmark⟩ := h.args t a ha
    obtain ⟨hend, hva⟩ := hmark.heapEnd hlow
    have hargs {hi' : Nat} (hle : hi ≤ hi') (u : T) (c : SbrkArgs)
        (hc : update s.args t none u = some c) :
        c.heapLow = libcHeapVa ∧ c.heapSize = libcHeapSize ∧ ∃ b ≤ hi', Marks c.prevHeapEnd b := by
      by_cases hu : u = t
      · rw [hu, update_self] at hc
        cases hc
      · rw [update_of_ne hu] at hc
        obtain ⟨h1, h2, d, hd, h3⟩ := h.args u c hc
        exact ⟨h1, h2, d, hd.trans hle, h3⟩
    cases he : swSysSbrk a incr with
    | none =>
      refine ⟨fun _ => ⟨hi, { h with args := hargs le_rfl }⟩, fun _ c hc hsome => ?_⟩
      obtain rfl : a = c := Option.some_inj.mp (ha.symm.trans hc)
      rw [he] at hsome
      cases hsome
    | some e =>
      obtain ⟨htop, hsum⟩ := (swSysSbrk_iff hlow hsize).mp he
      have hmod := congrArg BitVec.toNat hsum
      rw [BitVec.toNat_add, hend] at hmod
      have hsound : Sound s (.update t incr) ↔ b = hi ∧ b + incr.toNat < 2 ^ 32 := by
        rw [← hmark.eq_iff h.current, ← hend]
        constructor
        · exact fun hall => hall a ha (by rw [he]; rfl)
        · intro hok c hc _
          obtain rfl : a = c := Option.some_inj.mp (ha.symm.trans hc)
          exact hok
      rw [hsound]
      constructor
      · rintro ⟨rfl, hwrap⟩
        rw [Nat.mod_eq_of_lt hwrap] at hmod
        exact ⟨e.toNat, h.push hend hpos hmod htop (hargs (by omega))⟩
      · intro hgood
        by_contra hbad
        by_cases hstale : b < hi
        · exact h.stale (b := ⟨a.heapEnd, incr⟩) (hva.trans hend.ge) (hend.trans_lt hstale) hpos hgood
        · have hlast : b + incr.toNat - 1 ∈ (⟨a.heapEnd, incr⟩ : Block).bytes := by
            show a.heapEnd.toNat ≤ _ ∧ _ < a.heapEnd.toNat + incr.toNat
            omega
          have hlt : b + incr.toNat - 1 < 0xb0800000 := (hgood.1 _ List.mem_cons_self hlast).2
          omega

theorem Good.of_step {act : Act T} (hs : breakStep s act = some s') (h : Good s'.blocks) :
    Good s.blocks := by
  cases act with
  | sbrk t w =>
    cases hs
    exact h
  | update t incr =>
    obtain ⟨a, -, rfl⟩ := Option.map_eq_some_iff.mp hs
    cases he : swSysSbrk a incr with
    | none =>
      rw [he] at h
      exact h
    | some e =>
      rw [he] at h
      exact ⟨fun b hb => h.1 b (List.mem_cons_of_mem _ hb), (List.pairwise_cons.mp h.2).2⟩

theorem Filled.run {l : List (Act T)} (h : Filled s hi) (hgrow : Along breakStep Grows s l)
    (hr : run breakStep s l = some s') : Good s'.blocks ↔ Along breakStep Sound s l := by
  induction l generalizing s hi with
  | nil =>
    cases hr
    exact iff_of_true h.good trivial
  | cons act l ih =>
    obtain ⟨s1, hs, hr1⟩ := run_cons_some hr
    obtain ⟨hg, hgl⟩ := along_cons hgrow hs
    obtain ⟨hkeep, hneed⟩ := h.step hg hs
    constructor
    · intro hgood
      have hback : Good s1.blocks :=
        run_invariant (fun s => Good s.blocks → Good s1.blocks)
          (fun _ _ _ hprev _ hstep hgood => hprev (Good.of_step hstep hgood)) id
          (along_true _ _ _) hr1 hgood
      have hsound := hneed hback
      obtain ⟨hi', h'⟩ := hkeep hsound
      exact along_of_step hsound hs ((ih h' hgl hr1).mp hgood)
    · intro hall
      obtain ⟨hsound, hl⟩ := along_cons hall hs
      obtain ⟨hi', h'⟩ := hkeep hsound
      exact (ih h' hgl hr1).mpr hl

/-- **The C heap**: whatever the order of the system calls of the tasks, the blocks lie in the heap
and apart from each other if and only if every request that is granted finds the break where it has
read it and does not wrap around. -/
theorem blocks_good_iff {s : Libc T} {l : List (Act T)} (hgrow : Along breakStep Grows boot l)
    (hr : run breakStep boot l = some s) : Good s.blocks ↔ Along breakStep Sound boot l :=
  filled_boot.run hgrow hr

/-- two tasks read the break before one of them sets it -/
def race : List (Act Bool) :=
  [.sbrk false 0, .sbrk true 0, .update false 16, .update true 16]

theorem race_not_good : ∃ s, run breakStep boot race = some s ∧ ¬ Good s.blocks := by
  have hpos : 0 < (16 : BitVec 32).toInt := by decide
  have hgrow : Along breakStep Grows boot race := ⟨trivial, trivial, hpos, hpos, trivial⟩
  refine ⟨_, rfl, fun h => ?_⟩
  have hsound := (blocks_good_iff hgrow rfl).mp h
  exact absurd (hsound.2.2.2.1 _ rfl rfl).1 (by decide)

end

end SierraTee.Break
