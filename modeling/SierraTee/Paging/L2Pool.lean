import SierraTee.Lib.Counting
import SierraTee.Paging.Pool
import Mathlib.Algebra.Order.BigOperators.Group.List
import Mathlib.Algebra.Order.Ring.Nat

/-!
# The second-level tables of all first-level ones (`page_table.c`)

The pool once more, for the entries of the kernel and of all tasks: of an entry only the address of
its second-level table is kept, as the MMU gave it, and the counters of the pages are words.

* `calls_fine`              along calls with `CallOk` no table is missing or shared;
* `wrapped_counter_shared`  a counter that wraps, and the table that two entries get.
-/

namespace SierraTee.L2Pool
open SierraTee Function FlatMemory Runs Counting

/-! ## The pool -/

inductive L1Entry where
  | fault
  | coarse (l2Base : Word)
  | other
  deriving DecidableEq

/-- the element and the page of a refill: static, or from `sw_malloc_private` and
`sw_vir_page_alloc`, which has none when it answers 0; `phys` answers `secure_vir_to_phy` while
that page is mapped -/
inductive Refill where
  | static (r : L2Ptr) (base : Word)
  | heap (r : L2Ptr) (base : Option Word) (phys : Word → Word)

/-- what does not change; `S` are the entries of all first-level tables -/
structure Config (S : Type) where
  /-- the first of `static_l2_ref` and of `static_l2_page` -/
  staticRef : L2Ptr
  staticPage : Word
  static_fits : staticPage.toNat + 4096 < 2 ^ 32
  /-- a pointer into `static_l2_ref` -/
  isStatic : L2Ptr → Bool
  /-- the entry of the kernel for an address of its heap -/
  kernelEntry : Word → S
  /-- virtual minus physical addresses of the kernel -/
  offset : Word

structure Pool (S : Type) where
  /-- `l2_pages.list`, and the fields of its elements -/
  refs : List L2Ptr
  pageBase : L2Ptr → Word
  page : L2Ptr → Fin 4 → Nat
  blkUsed : L2Ptr → Nat
  /-- the fields of `l2_pages` -/
  blkAllocated : Nat
  blkUsedAll : Nat
  entry : S → L1Entry

section
variable {S : Type} [DecidableEq S]

def Config.phyToVir (c : Config S) (pa : Word) : Word := pa + c.offset

namespace Pool
variable (c : Config S) (p : Pool S) (phys : Word → Word)

def slotBase (r : L2Ptr) (j : Fin 4) : Word := p.pageBase r + BitVec.ofNat 32 (l2PageTableSize * j)

def findFree : Option (L2Ptr × Fin 4) :=
  p.refs.findSome? fun r =>
    if p.blkUsed r = 4 then none
    else ((List.finRange 4).find? fun j => p.page r j = 0).map fun j => (r, j)

def addRef (r : L2Ptr) (base : Word) : Pool S :=
  { p with
    refs := p.refs ++ [r]
    pageBase := update p.pageBase r base
    page := update p.page r fun _ => 0
    blkUsed := update p.blkUsed r 0 }

def takeTable (r : L2Ptr) : Pool S :=
  { p with
    blkUsed := update p.blkUsed r (p.blkUsed r + 1)
    blkUsedAll := p.blkUsedAll + 1 }

/-- with `l2_pt`, which the MMU gives when it is on, and `l2_pt_vir`; `none` if the search ends
without a free table -/
def allocL2SecurePageTable : Option (Pool S × Word × Word) :=
  match p.refs with
  | [] => some ((p.addRef c.staticRef c.staticPage).takeTable c.staticRef,
      phys c.staticPage, c.staticPage)
  | _ :: _ => p.findFree.map fun x =>
    (p.takeTable x.1, phys (p.slotBase x.1 x.2), p.slotBase x.1 x.2)

local instance : NeZero 4 := ⟨by decide⟩

def findRef (base : Word) : Option (L2Ptr × Fin 4) :=
  (p.refs.find? fun r => p.pageBase r ≤ base ∧ base < p.pageBase r + 4096).map fun r =>
    (r, Fin.ofNat 4 ((base - p.pageBase r).toNat / l2PageTableSize))

def setPage (r : L2Ptr) (j : Fin 4) (n : Nat) : Pool S :=
  { p with page := update p.page r (update (p.page r) j n) }

def setEntry (s : S) (x : L1Entry) : Pool S := { p with entry := update p.entry s x }

/-- one page more in the table at `base`; without its element, in the last one -/
def countPage (base : Word) : Option (Pool S) :=
  ((p.findRef base).or (p.refs.getLast?.map fun r => (r, 0))).map fun x =>
    p.setPage x.1 x.2 ((p.page x.1 x.2 + 1) % 2 ^ 32)

def mapSmallPage (s : S) : Option (Pool S) :=
  match p.entry s with
  | .fault => (p.allocL2SecurePageTable c phys).bind fun x =>
    (x.1.setEntry s (.coarse (x.2.1 &&& pageDescPageTblMask))).countPage x.2.2
  | .coarse base => p.countPage (c.phyToVir base)
  | .other => some p

def low : Bool := uintSub p.blkAllocated p.blkUsedAll ≤ 2

def join (r : L2Ptr) (base : Word) : Pool S :=
  { p.addRef r base with blkAllocated := p.blkAllocated + 4 }

/-- the refill, with `skip` set while a page of the heap is mapped; `none` if there is no element -/
def refill : Option Refill → Option (Pool S)
  | none => none
  | some (.static r base) => some (p.join r base)
  | some (.heap r none _) => some (p.join r 0)
  | some (.heap r (some base) phys) =>
    (p.mapSmallPage c phys (c.kernelEntry base)).map fun p => p.join r base

def mapSmallPageEntry (s : S) (memory : Option Refill) : Option (Pool S) :=
  if p.entry s = .other then some p
  else (p.mapSmallPage c phys s).bind fun p => if p.low then p.refill c memory else some p

def releaseTable (s : S) (r : L2Ptr) (j : Fin 4) : Pool S :=
  if uintSub (p.page r j) 1 = 0 then
    { (p.setPage r j 0).setEntry s .fault with
      blkUsed := update p.blkUsed r (uintSub (p.blkUsed r) 1)
      blkUsedAll := uintSub p.blkUsedAll 1 }
  else p.setPage r j (uintSub (p.page r j) 1)

def dropRef (r : L2Ptr) : Pool S :=
  { p with refs := p.refs.erase r, blkAllocated := uintSub p.blkAllocated 4 }

def shrinks (r : L2Ptr) : Bool := p.blkUsed r = 0 ∧ uintSub p.blkAllocated p.blkUsedAll > 5

/-- `unmap_small_page_entry`, with `n` pages that it can give back one in the other; a page of the
heap is unmapped in the kernel -/
def unmapSmallPageEntry (n : Nat) (p : Pool S) (s : S) : Option (Pool S) :=
  match p.entry s with
  | .coarse base =>
    match p.findRef (c.phyToVir base) with
    | none => some p
    | some x =>
      if (p.releaseTable s x.1 x.2).shrinks x.1 then
        if c.isStatic x.1 then some ((p.releaseTable s x.1 x.2).dropRef x.1)
        else
          match n with
          | 0 => none
          | n + 1 => unmapSmallPageEntry n ((p.releaseTable s x.1 x.2).dropRef x.1)
            (c.kernelEntry (p.pageBase x.1))
      else some (p.releaseTable s x.1 x.2)
  | _ => some p

end Pool

/-- a call, with the answers of `secure_vir_to_phy` and the memory that it gets -/
inductive Call (S : Type) where
  | map (s : S) (phys : Word → Word) (memory : Option Refill)
  | unmap (s : S)

def step (c : Config S) (p : Pool S) : Call S → Option (Pool S)
  | .map s phys memory => p.mapSmallPageEntry c phys s memory
  | .unmap s => p.unmapSmallPageEntry c p.refs.length s

/-- `map_secure_page_table`, where some entries are sections and no page is mapped -/
def newPool (isSection : S → Bool) : Pool S where
  refs := []
  pageBase := fun _ => 0
  page := fun _ _ => 0
  blkUsed := fun _ => 0
  blkAllocated := 4
  blkUsedAll := 0
  entry := fun s => if isSection s then .other else .fault

/-! ## What a call needs -/

def Pool.uses (c : Config S) (p : Pool S) (s : S) : Nat :=
  match p.entry s with
  | .coarse base => ((p.findRef (c.phyToVir base)).map fun x => p.page x.1 x.2).getD 0
  | _ => 0

def OwnPage (p : Pool S) (r : L2Ptr) (base : Word) : Prop :=
  r ∉ p.refs ∧ base.toNat + 4096 < 2 ^ 32 ∧ ∀ q ∈ p.refs, Far (p.pageBase q) base

/-- a table that the entry takes is at the address that `secure_phy_to_vir` gives for it -/
def InPlace (c : Config S) (p : Pool S) (phys : Word → Word) (s : S) : Prop :=
  p.entry s = .fault → ∀ x ∈ p.allocL2SecurePageTable c phys,
    c.phyToVir (x.2.1 &&& pageDescPageTblMask) = x.2.2

def PageOk (c : Config S) (p : Pool S) (phys : Word → Word) (s : S) : Prop :=
  p.uses c s + 1 < 2 ^ 32 ∧ InPlace c p phys s

def RefillOk (c : Config S) (p : Pool S) : Option Refill → Prop
  | some (.static r base) => OwnPage p r base
  | some (.heap r (some base) phys) => OwnPage p r base ∧ PageOk c p phys (c.kernelEntry base)
  | _ => False

/-- the page can be entered, and a refill that is due gets its own -/
def CallOk (c : Config S) (p : Pool S) : Call S → Prop
  | .map s phys memory => PageOk c p phys s ∧
    ∀ p' ∈ p.mapSmallPage c phys s, p'.low → p.entry s ≠ .other → RefillOk c p' memory
  | .unmap _ => True

/-- the call comes to its end, with no table missing or shared -/
def Fine (c : Config S) (p : Pool S) (call : Call S) : Prop :=
  ∃ p', step c p call = some p' ∧ p'.blkUsedAll ≤ p'.blkAllocated ∧
    ∀ s s' b, p'.entry s = .coarse b → p'.entry s' = .coarse b → s = s'

/-! ## The invariant -/

def inUse (n : Nat) : Bool := n ≠ 0

structure PoolInv (c : Config S) (p : Pool S) : Prop where
  nodup : p.refs.Nodup
  fits : ∀ r ∈ p.refs, (p.pageBase r).toNat + 4096 < 2 ^ 32
  far : ∀ q ∈ p.refs, ∀ r ∈ p.refs, q = r ∨ Far (p.pageBase q) (p.pageBase r)
  tally : ∀ r ∈ p.refs, p.blkUsed r = holds inUse (p.page r)
  table : ∀ s b, p.entry s = .coarse b →
    ∃ r ∈ p.refs, ∃ j, c.phyToVir b = p.slotBase r j ∧ p.page r j ≠ 0
  own : ∀ s s' b, p.entry s = .coarse b → p.entry s' = .coarse b → s = s'
  allocated : p.blkAllocated = 4 * max 1 p.refs.length
  usedAll : p.blkUsedAll = (p.refs.map p.blkUsed).sum

variable {c : Config S} {p p' : Pool S} {r : L2Ptr} {j : Fin 4} {s : S} {base : Word}

omit [DecidableEq S] in
theorem phyToVir_inj {a b : Word} (h : c.phyToVir a = c.phyToVir b) : a = b :=
  add_right_cancel h

omit [DecidableEq S] in
theorem PoolInv.findRef (hp : PoolInv c p) (hr : r ∈ p.refs) (j : Fin 4) :
    p.findRef (p.slotBase r j) = some (r, j) :=
  find_page hp.fits (fun q hq => hp.far q hq r hr) hr j

omit [DecidableEq S] in
theorem PoolInv.uses (hp : PoolInv c p) (hr : r ∈ p.refs) (h : p.entry s = .coarse base)
    (hb : c.phyToVir base = p.slotBase r j) : p.uses c s = p.page r j := by
  unfold Pool.uses
  rw [h]
  dsimp only
  rw [hb, hp.findRef hr]
  rfl

omit [DecidableEq S] in
theorem PoolInv.blkUsed_le (hp : PoolInv c p) (hr : r ∈ p.refs) : p.blkUsed r ≤ 4 := by
  rw [hp.tally r hr]
  exact Finset.card_le_univ _

omit [DecidableEq S] in
theorem PoolInv.usedAll_le (hp : PoolInv c p) : p.blkUsedAll ≤ p.blkAllocated := by
  have h : (p.refs.map p.blkUsed).sum ≤ (p.refs.map p.blkUsed).length • 4 := by
    apply List.sum_le_card_nsmul
    intro x hx
    obtain ⟨r, hr, rfl⟩ := List.mem_map.mp hx
    exact hp.blkUsed_le hr
  rw [List.length_map, nsmul_eq_mul, Nat.cast_id] at h
  rw [hp.usedAll, hp.allocated]
  omega

omit [DecidableEq S] in
theorem PoolInv.findFree (hp : PoolInv c p) (hne : p.refs ≠ []) (h : p.blkUsedAll < p.blkAllocated) :
    ∃ r ∈ p.refs, ∃ j, p.findFree = some (r, j) ∧ p.page r j = 0 := by
  cases hf : p.findFree with
  | some x =>
    obtain ⟨r, hr, h1⟩ := List.exists_of_findSome?_eq_some hf
    obtain ⟨-, h1⟩ := Option.ite_none_left_eq_some.mp h1
    obtain ⟨j, hj, rfl⟩ := Option.map_eq_some_iff.mp h1
    have h2 := List.find?_some hj
    exact ⟨r, hr, j, rfl, of_decide_eq_true h2⟩
  | none =>
    have hfull : ∀ x ∈ p.refs.map p.blkUsed, x = 4 := by
      intro x hx
      obtain ⟨r, hr, rfl⟩ := List.mem_map.mp hx
      have h1 := List.findSome?_eq_none_iff.mp hf r hr
      by_contra hused
      rw [if_neg hused, Option.map_eq_none_iff, List.find?_eq_none] at h1
      refine hused ((hp.tally r hr).trans ?_)
      unfold holds
      rw [Finset.filter_true_of_mem fun j _ => ?_]
      · rfl
      · exact decide_eq_true fun h2 => h1 j (List.mem_finRange j) (decide_eq_true h2)
    have hsum := List.sum_eq_card_nsmul _ 4 hfull
    rw [← hp.usedAll, List.length_map, nsmul_eq_mul, Nat.cast_id] at hsum
    have hlen := List.length_pos_iff.mpr hne
    rw [hp.allocated] at h
    omega

/-! ## Counters -/

theorem sum_update {l : List L2Ptr} (hl : l.Nodup) (hr : r ∈ l) (f : L2Ptr → Nat) (n : Nat) :
    (l.map (update f r n)).sum + f r = (l.map f).sum + n := by
  have hrest : (l.erase r).map (update f r n) = (l.erase r).map f := by
    apply List.map_congr_left
    intro q hq
    exact update_of_ne (fun h => hl.not_mem_erase (h ▸ hq)) ..
  rw [← List.sum_map_erase (update f r n) hr, ← List.sum_map_erase f hr,
    update_self, hrest]
  omega

omit [DecidableEq S] in
theorem PoolInv.count (hp : PoolInv c p) (hr : r ∈ p.refs) {n m u : Nat} {entry : S → L1Entry}
    (hm : m + (inUse (p.page r j)).toNat = p.blkUsed r + (inUse n).toNat)
    (hu : u + p.blkUsed r = p.blkUsedAll + m)
    (htable : ∀ s b, entry s = .coarse b → ∃ q ∈ p.refs, ∃ k, c.phyToVir b = p.slotBase q k ∧
      ((q = r ∧ k = j) ∧ n ≠ 0 ∨ ¬ (q = r ∧ k = j) ∧ p.page q k ≠ 0))
    (hown : ∀ s s' b, entry s = .coarse b → entry s' = .coarse b → s = s') :
    PoolInv c { p with
      page := update p.page r (update (p.page r) j n)
      blkUsed := update p.blkUsed r m
      blkUsedAll := u
      entry := entry } where
  nodup := hp.nodup
  fits := hp.fits
  far := hp.far
  tally q hq := by
    by_cases h : q = r
    · have h1 := holds_update inUse (p.page r) j n
      have h2 := hp.tally r hr
      dsimp only
      rw [h, update_self, update_self]
      omega
    · exact (update_of_ne h ..).trans ((hp.tally q hq).trans
        (congrArg (holds inUse) (update_of_ne h ..).symm))
  table s b h := by
    obtain ⟨q, hq, k, hb, h1⟩ := htable s b h
    refine ⟨q, hq, k, hb, ?_⟩
    dsimp only
    rw [update_page]
    obtain ⟨h1, h2⟩ | ⟨h1, h2⟩ := h1
    · rwa [if_pos h1]
    · rwa [if_neg h1]
  own := hown
  allocated := hp.allocated
  usedAll := by
    have h1 := sum_update hp.nodup hr p.blkUsed m
    have h2 := hp.usedAll
    dsimp only
    omega

omit [DecidableEq S] in
theorem PoolInv.setPage (hp : PoolInv c p) (hr : r ∈ p.refs) {n : Nat} (hn : n ≠ 0)
    (hold : p.page r j ≠ 0) : PoolInv c (p.setPage r j n) := by
  have h := hp.count (m := p.blkUsed r) hr (j := j) (n := n)
    (by rw [inUse, inUse, decide_eq_true hn, decide_eq_true hold]) rfl (fun s b h => by
      obtain ⟨q, hq, k, hb, h1⟩ := hp.table s b h
      exact ⟨q, hq, k, hb, (em _).imp (⟨·, hn⟩) (⟨·, h1⟩)⟩) hp.own
  rwa [update_eq_self] at h

theorem PoolInv.take (hp : PoolInv c p) (hr : r ∈ p.refs) (hfree : p.page r j = 0) (s : S)
    (hbase : c.phyToVir base = p.slotBase r j) :
    PoolInv c (((p.takeTable r).setEntry s (.coarse base)).setPage r j 1) := by
  have hother {s' : S} {b : Word} (h : p.entry s' = .coarse b) : b ≠ base := by
    rintro rfl
    obtain ⟨q, hq, k, hb, h1⟩ := hp.table s' _ h
    have h2 := hp.findRef hq k
    rw [← hb, hbase, hp.findRef hr] at h2
    cases h2
    exact h1 hfree
  have hentry {s' : S} {b : Word}
      (h : update p.entry s (.coarse base) s' = .coarse b) :
      s' = s ∧ b = base ∨ s' ≠ s ∧ p.entry s' = .coarse b := by
    by_cases h1 : s' = s
    · rw [h1, update_self] at h
      exact Or.inl ⟨h1, (L1Entry.coarse.inj h).symm⟩
    · rw [update_of_ne h1] at h
      exact Or.inr ⟨h1, h⟩
  refine hp.count hr (m := p.blkUsed r + 1) (n := 1) (u := p.blkUsedAll + 1) (by rw [hfree]; rfl) (by omega)
    (fun s' b h => ?_) (fun s1 s2 b h1 h2 => ?_)
  · obtain ⟨-, rfl⟩ | ⟨-, h1⟩ := hentry h
    · exact ⟨r, hr, j, hbase, Or.inl ⟨⟨rfl, rfl⟩, Nat.one_ne_zero⟩⟩
    · obtain ⟨q, hq, k, hb, h3⟩ := hp.table s' b h1
      exact ⟨q, hq, k, hb, Or.inr ⟨fun h4 =>
        hother h1 (phyToVir_inj (by rw [hb, h4.1, h4.2, hbase])), h3⟩⟩
  · obtain ⟨h3, h4⟩ | ⟨h3, h4⟩ := hentry h1 <;> obtain ⟨h5, h6⟩ | ⟨h5, h6⟩ := hentry h2
    · rw [h3, h5]
    · exact absurd h4 (hother h6)
    · exact absurd h6 (hother h4)
    · exact hp.own s1 s2 b h4 h6

theorem PoolInv.release (hp : PoolInv c p) (hr : r ∈ p.refs) (hs : p.entry s = .coarse base)
    (hbase : c.phyToVir base = p.slotBase r j) :
    PoolInv c (p.releaseTable s r j) ∧ (p.releaseTable s r j).blkUsedAll ≤ p.blkUsedAll := by
  have hpos : p.page r j ≠ 0 := by
    obtain ⟨q, hq, k, hb, h1⟩ := hp.table s _ hs
    have h2 := hp.findRef hq k
    rw [← hb, hbase, hp.findRef hr] at h2
    cases h2
    exact h1
  have hsub : uintSub (p.page r j) 1 = p.page r j - 1 := if_pos (by omega)
  unfold Pool.releaseTable
  split_ifs with h0
  · have hone : inUse (p.page r j) = true := decide_eq_true hpos
    have h1 := holds_update inUse (p.page r) j 0
    have h2 := sum_update hp.nodup hr p.blkUsed 0
    have h3 := hp.tally r hr
    have h4 := hp.usedAll
    have h5 : inUse 0 = false := rfl
    rw [hone, h5] at h1
    change _ + 1 = _ + 0 at h1
    have hused : uintSub (p.blkUsed r) 1 = p.blkUsed r - 1 := if_pos (by omega)
    have hall : uintSub p.blkUsedAll 1 = p.blkUsedAll - 1 := if_pos (by omega)
    have hentry {s' : S} {b : Word} (h : update p.entry s .fault s' = .coarse b) :
        s' ≠ s ∧ p.entry s' = .coarse b := by
      by_cases h6 : s' = s
      · rw [h6, update_self] at h
        cases h
      · exact ⟨h6, by rwa [update_of_ne h6] at h⟩
    rw [hused, hall]
    refine ⟨hp.count hr (n := 0) ?_ ?_ (fun s' b h => ?_)
      (fun s1 s2 b h6 h7 => hp.own s1 s2 b (hentry h6).2 (hentry h7).2), Nat.sub_le ..⟩
    · rw [hone, h5]
      show p.blkUsed r - 1 + 1 = _ + 0
      omega
    · omega
    · obtain ⟨hne, h6⟩ := hentry h
      obtain ⟨q, hq, k, hb, h7⟩ := hp.table s' b h6
      refine ⟨q, hq, k, hb, Or.inr ⟨fun h8 => hne (hp.own s' s b h6 ?_), h7⟩⟩
      have hsame : b = base := phyToVir_inj (by rw [hb, h8.1, h8.2, hbase])
      rw [hs, hsame]
  · exact ⟨hp.setPage hr h0 hpos, Nat.le_refl _⟩

/-! ## Pages of the pool -/

omit [DecidableEq S] in
theorem PoolInv.add (hp : PoolInv c p) (h : OwnPage p r base) {n : Nat}
    (hn : n = 4 * max 1 (p.refs.length + 1)) :
    PoolInv c { p.addRef r base with blkAllocated := n } := by
  obtain ⟨hr, hfits, hfar⟩ := h
  have hne {q : L2Ptr} (hq : q ∈ p.refs) : q ≠ r := fun e => hr (e ▸ hq)
  have hbase {q : L2Ptr} (hq : q ∈ p.refs) :
      update p.pageBase r base q = p.pageBase q := update_of_ne (hne hq) ..
  have hmem {q : L2Ptr} (hq : q ∈ p.refs ++ [r]) : q ∈ p.refs ∨ q = r :=
    (List.mem_append.mp hq).imp_right List.mem_singleton.mp
  constructor
  · exact List.nodup_append.mpr ⟨hp.nodup, List.nodup_singleton r, fun q hq q' hq' =>
      List.mem_singleton.mp hq' ▸ hne hq⟩
  · intro q hq
    show (update p.pageBase r base q).toNat + _ < _
    obtain hq | rfl := hmem hq
    · rw [hbase hq]
      exact hp.fits q hq
    · rwa [update_self]
  · intro q hq q' hq'
    show _ ∨ Far (update p.pageBase r base q) (update p.pageBase r base q')
    obtain h1 | h1 := hmem hq <;> obtain h2 | h2 := hmem hq'
    · rw [hbase h1, hbase h2]
      exact hp.far q h1 q' h2
    · rw [hbase h1, h2, update_self]
      exact Or.inr (hfar q h1)
    · rw [hbase h2, h1, update_self]
      exact Or.inr (Or.symm (hfar q' h2))
    · exact Or.inl (h1.trans h2.symm)
  · intro q hq
    show update p.blkUsed r 0 q = holds inUse (update p.page r (fun _ => 0) q)
    obtain hq | rfl := hmem hq
    · rw [update_of_ne (hne hq), update_of_ne (hne hq)]
      exact hp.tally q hq
    · rw [update_self, update_self]
      exact ((holds_eq_zero_iff inUse _).mpr fun _ => rfl).symm
  · intro s b hs
    obtain ⟨q, hq, k, hb, h1⟩ := hp.table s b hs
    refine ⟨q, List.mem_append_left _ hq, k, hb.trans ?_, ?_⟩
    · show _ = update p.pageBase r base q + _
      rw [hbase hq]
      rfl
    · show update p.page r _ q k ≠ 0
      rwa [update_of_ne (hne hq)]
  · exact hp.own
  · show n = 4 * max 1 (p.refs ++ [r]).length
    rw [hn, List.length_append, List.length_singleton]
  · show p.blkUsedAll = ((p.refs ++ [r]).map (update p.blkUsed r 0)).sum
    rw [hp.usedAll, List.map_append, List.sum_append, List.map_singleton, update_self,
      List.sum_singleton, Nat.add_zero]
    congr 1
    exact List.map_congr_left fun q hq => (update_of_ne (hne hq) ..).symm

omit [DecidableEq S] in
theorem PoolInv.drop (hp : PoolInv c p) (hr : r ∈ p.refs) (h : p.shrinks r = true) :
    PoolInv c (p.dropRef r) ∧ p.blkUsedAll + 2 ≤ (p.dropRef r).blkAllocated ∧
      (p.dropRef r).refs.length + 1 = p.refs.length := by
  obtain ⟨h0, hspare⟩ := of_decide_eq_true h
  have hle := hp.usedAll_le
  have hall := hp.allocated
  have hlen : (p.refs.erase r).length = p.refs.length - 1 := List.length_erase_of_mem hr
  have hsum := List.sum_map_erase p.blkUsed hr
  have hsub : uintSub p.blkAllocated 4 = p.blkAllocated - 4 := if_pos (by omega)
  rw [show uintSub p.blkAllocated p.blkUsedAll = p.blkAllocated - p.blkUsedAll from if_pos hle]
    at hspare
  refine ⟨⟨hp.nodup.erase r, fun q hq => hp.fits q (List.mem_of_mem_erase hq),
    fun q hq q' hq' => hp.far q (List.mem_of_mem_erase hq) q' (List.mem_of_mem_erase hq'),
    fun q hq => hp.tally q (List.mem_of_mem_erase hq), fun s b hs => ?_, hp.own, ?_, ?_⟩, ?_, ?_⟩
  · obtain ⟨q, hq, k, hb, h1⟩ := hp.table s b hs
    refine ⟨q, (List.mem_erase_of_ne fun e => h1 ?_).mpr hq, k, hb, h1⟩
    have h2 := (holds_eq_zero_iff inUse _).mp ((hp.tally r hr).symm.trans h0) k
    rw [e]
    exact not_not.mp (of_decide_eq_false h2)
  · show uintSub p.blkAllocated 4 = 4 * max 1 (p.refs.erase r).length
    omega
  · show p.blkUsedAll = ((p.refs.erase r).map p.blkUsed).sum
    rw [hp.usedAll]
    omega
  · show _ ≤ uintSub p.blkAllocated 4
    omega
  · show (p.refs.erase r).length + 1 = _
    omega

/-! ## The calls -/

structure Mapped (c : Config S) (p p' : Pool S) : Prop where
  inv : PoolInv c p'
  allocated : p'.blkAllocated = p.blkAllocated
  used : p'.blkUsedAll ≤ p.blkUsedAll + 1
  refs : p.refs ≠ [] → p'.refs = p.refs ∧ p'.pageBase = p.pageBase

omit [DecidableEq S] in
theorem PoolInv.countPage (hp : PoolInv c p) (hr : r ∈ p.refs) (hroom : p.page r j + 1 < 2 ^ 32) :
    p.countPage (p.slotBase r j) = some (p.setPage r j (p.page r j + 1)) := by
  unfold Pool.countPage
  rw [hp.findRef hr, Option.some_or, Option.map_some, Nat.mod_eq_of_lt hroom]

theorem PoolInv.mapTaken (hp : PoolInv c p) (hr : r ∈ p.refs) (hfree : p.page r j = 0) (s : S)
    (hbase : c.phyToVir base = p.slotBase r j) :
    ∃ p', ((p.takeTable r).setEntry s (.coarse base)).countPage (p.slotBase r j) = some p' ∧
      Mapped c p p' ∧ p'.refs ≠ [] := by
  have h := hp.findRef hr j
  refine ⟨_, ?_, ⟨hp.take hr hfree s hbase, rfl, Nat.le_refl _, fun _ => ⟨rfl, rfl⟩⟩,
    List.ne_nil_of_mem hr⟩
  unfold Pool.countPage
  change (Option.or (p.findRef (p.slotBase r j)) _).map _ = _
  rw [h, Option.some_or, Option.map_some]
  show some (Pool.setPage _ r j ((p.page r j + 1) % 2 ^ 32)) = _
  rw [hfree]
  rfl

theorem PoolInv.mapSmallPage {phys : Word → Word} (hp : PoolInv c p) (hok : PageOk c p phys s)
    (hfree : p.blkUsedAll < p.blkAllocated) : ∃ p', p.mapSmallPage c phys s = some p' ∧
      Mapped c p p' ∧ (p.entry s ≠ .other → p'.refs ≠ []) := by
  obtain ⟨hroom, hplace⟩ := hok
  unfold Pool.mapSmallPage
  cases hs : p.entry s with
  | fault =>
    have hplace := hplace hs
    dsimp only
    unfold Pool.allocL2SecurePageTable at hplace ⊢
    split
    · rename_i hrefs
      have hnil {q : L2Ptr} (hq : q ∈ p.refs) : False := by
        rw [hrefs] at hq
        cases hq
      have h1 : PoolInv c (p.addRef c.staticRef c.staticPage) :=
        hp.add ⟨hnil, c.static_fits, fun q hq => (hnil hq).elim⟩ (by
          rw [hp.allocated, hrefs]
          rfl)
      have hzero : (p.addRef c.staticRef c.staticPage).page c.staticRef 0 = 0 := by
        show update p.page c.staticRef (fun _ => 0) c.staticRef 0 = 0
        rw [update_self]
      have hbase : (p.addRef c.staticRef c.staticPage).slotBase c.staticRef 0 = c.staticPage := by
        show update p.pageBase c.staticRef c.staticPage c.staticRef + 0#32 = _
        rw [update_self, BitVec.add_zero]
      rw [hrefs] at hplace
      obtain ⟨p', h2, h3, h4⟩ := h1.mapTaken (List.mem_append_right p.refs List.mem_cons_self) hzero s
        ((hplace _ rfl).trans hbase.symm)
      rw [hbase] at h2
      exact ⟨p', h2, { h3 with refs := fun h => absurd hrefs h }, fun _ => h4⟩
    · rename_i hrefs
      obtain ⟨r, hr, j, h1, h2⟩ := hp.findFree (by rw [hrefs]; exact List.cons_ne_nil _ _) hfree
      rw [hrefs, h1] at hplace
      obtain ⟨p', h3, h4, h5⟩ := hp.mapTaken hr h2 s (hplace _ rfl)
      refine ⟨p', ?_, h4, fun _ => h5⟩
      rw [h1]
      exact h3
  | coarse base =>
    obtain ⟨r, hr, j, hb, h1⟩ := hp.table s base hs
    rw [hp.uses hr hs hb] at hroom
    dsimp only
    rw [hb]
    exact ⟨_, hp.countPage hr hroom, ⟨hp.setPage hr (Nat.succ_ne_zero _) h1, rfl, Nat.le_succ _,
      fun _ => ⟨rfl, rfl⟩⟩, fun _ => List.ne_nil_of_mem hr⟩
  | other => exact ⟨p, rfl, ⟨hp, rfl, Nat.le_succ _, fun _ => ⟨rfl, rfl⟩⟩, fun h => absurd rfl h⟩

omit [DecidableEq S] in
theorem PoolInv.join (hp : PoolInv c p) (hne : p.refs ≠ []) (h : OwnPage p r base) :
    PoolInv c (p.join r base) :=
  hp.add h (by
    have hlen := List.length_pos_iff.mpr hne
    rw [hp.allocated]
    omega)

theorem PoolInv.refill {memory : Option Refill} (hp : PoolInv c p) (hne : p.refs ≠ [])
    (hfree : p.blkUsedAll < p.blkAllocated) (h : RefillOk c p memory) :
    ∃ p', p.refill c memory = some p' ∧ PoolInv c p' ∧ p'.blkAllocated = p.blkAllocated + 4 ∧
      p'.blkUsedAll ≤ p.blkUsedAll + 1 := by
  match memory, h with
  | some (.static r base), h => exact ⟨_, rfl, hp.join hne h, rfl, Nat.le_succ _⟩
  | some (.heap r (some base) phys), ⟨h, hpage⟩ =>
    obtain ⟨p1, h1, h2, -⟩ := hp.mapSmallPage hpage hfree
    obtain ⟨h3, h4⟩ := h2.refs hne
    refine ⟨p1.join r base, congrArg (Option.map _) h1, h2.inv.join (h3 ▸ hne) ?_,
      congrArg (· + 4) h2.allocated, h2.used⟩
    unfold OwnPage
    rwa [h3, h4]

theorem uintSub_of_le {a b : Nat} (h : b ≤ a) : uintSub a b = a - b := if_pos h

theorem PoolInv.mapSmallPageEntry {phys : Word → Word} {memory : Option Refill} (hp : PoolInv c p)
    (hspare : p.blkUsedAll + 2 ≤ p.blkAllocated) (hok : CallOk c p (.map s phys memory)) :
    ∃ p', p.mapSmallPageEntry c phys s memory = some p' ∧ PoolInv c p' ∧
      p'.blkUsedAll + 2 ≤ p'.blkAllocated := by
  obtain ⟨hpage, hrefill⟩ := hok
  unfold Pool.mapSmallPageEntry
  split_ifs with hother
  · exact ⟨p, rfl, hp, hspare⟩
  · obtain ⟨p1, h1, h2, h3⟩ := hp.mapSmallPage hpage (by omega)
    have hall := h2.allocated
    have hused := h2.used
    rw [h1, Option.bind_some]
    split_ifs with hlow
    · obtain ⟨p2, h4, h5, h6, h7⟩ := h2.inv.refill (h3 hother) (by omega)
        (hrefill p1 h1 hlow hother)
      exact ⟨p2, h4, h5, by omega⟩
    · have h4 := of_decide_eq_false (Bool.eq_false_iff.mpr hlow)
      rw [uintSub_of_le (by omega)] at h4
      exact ⟨p1, rfl, h2.inv, by omega⟩

theorem releaseTable_same (p : Pool S) (s : S) (r : L2Ptr) (j : Fin 4) :
    (p.releaseTable s r j).refs = p.refs ∧
      (p.releaseTable s r j).blkAllocated = p.blkAllocated := by
  unfold Pool.releaseTable
  split_ifs <;> exact ⟨rfl, rfl⟩

theorem PoolInv.unmap_cases (hp : PoolInv c p) (hspare : p.blkUsedAll + 2 ≤ p.blkAllocated) (s : S) :
    (∃ p', PoolInv c p' ∧ p'.blkUsedAll + 2 ≤ p'.blkAllocated ∧
      ∀ n, p.unmapSmallPageEntry c n s = some p') ∨
    ∃ q s', PoolInv c q ∧ q.blkUsedAll + 2 ≤ q.blkAllocated ∧ q.refs.length + 1 = p.refs.length ∧
      ∀ n, p.unmapSmallPageEntry c (n + 1) s = q.unmapSmallPageEntry c n s' := by
  cases hs : p.entry s with
  | coarse base =>
    obtain ⟨r, hr, j, hb, -⟩ := hp.table s base hs
    obtain ⟨hrel, hused⟩ := hp.release hr hs hb
    obtain ⟨hrefs, hall⟩ := releaseTable_same p s r j
    have hrun (n : Nat) : p.unmapSmallPageEntry c n s =
        if (p.releaseTable s r j).shrinks r then
          if c.isStatic r then some ((p.releaseTable s r j).dropRef r)
          else match n with
            | 0 => none
            | n + 1 => Pool.unmapSmallPageEntry c n ((p.releaseTable s r j).dropRef r)
              (c.kernelEntry (p.pageBase r))
        else some (p.releaseTable s r j) := by
      cases n <;>
      · rw [Pool.unmapSmallPageEntry, hs]
        dsimp only
        rw [hb, hp.findRef hr]
    by_cases hshrinks : (p.releaseTable s r j).shrinks r = true
    · obtain ⟨h1, h2, h3⟩ := hrel.drop (hrefs ▸ hr) hshrinks
      by_cases hstatic : c.isStatic r = true
      · exact Or.inl ⟨_, h1, h2, fun n => by rw [hrun, if_pos hshrinks, if_pos hstatic]⟩
      · exact Or.inr ⟨_, _, h1, h2, h3.trans (congrArg List.length hrefs), fun n => by
          rw [hrun, if_pos hshrinks, if_neg hstatic]⟩
    · exact Or.inl ⟨_, hrel, by omega, fun n => by rw [hrun, if_neg hshrinks]⟩
  | _ =>
    refine Or.inl ⟨p, hp, hspare, fun n => ?_⟩
    cases n <;> rw [Pool.unmapSmallPageEntry, hs]

theorem PoolInv.unmapSmallPageEntry {n : Nat} (hp : PoolInv c p)
    (hspare : p.blkUsedAll + 2 ≤ p.blkAllocated) (hn : p.refs.length ≤ n) (s : S) :
    ∃ p', p.unmapSmallPageEntry c n s = some p' ∧ PoolInv c p' ∧
      p'.blkUsedAll + 2 ≤ p'.blkAllocated := by
  induction n generalizing p s with
  | zero =>
    obtain ⟨p', h1, h2, h3⟩ | ⟨q, s', -, -, h3, -⟩ := hp.unmap_cases (c := c) hspare s
    · exact ⟨p', h3 0, h1, h2⟩
    · omega
  | succ n ih =>
    obtain ⟨p', h1, h2, h3⟩ | ⟨q, s', h1, h2, h3, h4⟩ := hp.unmap_cases (c := c) hspare s
    · exact ⟨p', h3 _, h1, h2⟩
    · rw [h4]
      exact ih h1 h2 (by omega) s'

omit [DecidableEq S] in
theorem newPool_inv (c : Config S) (isSection : S → Bool) : PoolInv c (newPool isSection) := by
  have hentry {s : S} {b : Word} (h : (newPool isSection).entry s = .coarse b) : False := by
    change (if isSection s then L1Entry.other else .fault) = _ at h
    split_ifs at h
  have hnil {q : L2Ptr} (hq : q ∈ (newPool isSection).refs) : False := by cases hq
  exact ⟨List.nodup_nil, fun q hq => (hnil hq).elim, fun q hq => (hnil hq).elim,
    fun q hq => (hnil hq).elim, fun s b h => (hentry h).elim, fun s _ b h => (hentry h).elim, rfl, rfl⟩

theorem step_fine (hp : PoolInv c p) (hspare : p.blkUsedAll + 2 ≤ p.blkAllocated) (call : Call S)
    (hok : CallOk c p call) :
    ∃ p', step c p call = some p' ∧ PoolInv c p' ∧ p'.blkUsedAll + 2 ≤ p'.blkAllocated := by
  cases call with
  | map s phys memory => exact hp.mapSmallPageEntry hspare hok
  | unmap s => exact hp.unmapSmallPageEntry hspare (Nat.le_refl _) s

/-- **No table is missing or shared** along calls for which the counters have room and the refills
get pages of their own. -/
theorem calls_fine (c : Config S) (isSection : S → Bool) {calls : List (Call S)}
    (hok : Along (step c) (CallOk c) (newPool isSection) calls) :
    Along (step c) (Fine c) (newPool isSection) calls := by
  refine along_mono (fun p => PoolInv c p ∧ p.blkUsedAll + 2 ≤ p.blkAllocated)
    (fun p call p' ⟨hp, hspare⟩ ha hs => ?_) (fun p call ⟨hp, hspare⟩ ha => ?_)
    ⟨newPool_inv c isSection, show 0 + 2 ≤ 4 by omega⟩ hok
  · obtain ⟨q, h1, h2⟩ := step_fine hp hspare call ha
    rw [hs] at h1
    cases h1
    exact h2
  · obtain ⟨q, h1, h2, -⟩ := step_fine hp hspare call ha
    exact ⟨q, h1, h2.usedAll_le, h2.own⟩

/-! ## A counter that wraps -/

theorem step_again (hs : p.entry s = .coarse base) (hr : p.findRef (c.phyToVir base) = some (r, j))
    (hlow : p.low = false) (phys : Word → Word) (memory : Option Refill) (k : Nat) :
    step c (p.setPage r j k) (.map s phys memory) = some (p.setPage r j ((k + 1) % 2 ^ 32)) := by
  have hcount : (p.setPage r j k).mapSmallPage c phys s = some (p.setPage r j ((k + 1) % 2 ^ 32)) := by
    unfold Pool.mapSmallPage Pool.countPage
    change (match p.entry s with | .fault => _ | .coarse base => _ | .other => _) = _
    rw [hs]
    change ((p.findRef (c.phyToVir base)).or _).map _ = _
    rw [hr, Option.some_or, Option.map_some]
    unfold Pool.setPage
    dsimp only
    rw [update_self, update_self, update_idem, update_idem]
  show (if p.entry s = .other then _ else _) = _
  rw [hs, if_neg L1Entry.noConfusion, hcount, Option.bind_some, if_neg]
  exact Bool.eq_false_iff.mp hlow

theorem run_again {b : Word} (hs : p.entry s = .coarse b)
    (hr : p.findRef (c.phyToVir b) = some (r, j)) (hlow : p.low = false) (phys : Word → Word)
    (memory : Option Refill) (n : Nat) :
    run (step c) (p.setPage r j 1) (List.replicate n (.map s phys memory))
      = some (p.setPage r j ((1 + n) % 2 ^ 32)) := by
  induction n with
  | zero => rfl
  | succ n ih =>
    rw [List.replicate_succ', run_snoc ih, step_again hs hr hlow, Nat.mod_add_mod, Nat.add_assoc]

end

/-- four static pages, and a kernel that maps its heap one to one -/
def bootConfig : Config Nat where
  staticRef := 0
  staticPage := 0x60000000
  static_fits := by decide
  isStatic r := r < 4
  kernelEntry a := (a >>> 20).toNat
  offset := 0

instance {S : Type} [DecidableEq S] (c : Config S) (p : Pool S) (phys : Word → Word) (s : S) :
    Decidable (PageOk c p phys s) :=
  inferInstanceAs (Decidable (_ ∧ (_ → _)))

instance {S : Type} (p : Pool S) (r : L2Ptr) (base : Word) : Decidable (OwnPage p r base) :=
  inferInstanceAs (Decidable (_ ∧ _ ∧ _))

instance {S : Type} [DecidableEq S] (c : Config S) (p : Pool S) : (memory : Option Refill) →
    Decidable (RefillOk c p memory)
  | some (.static _ _) => inferInstanceAs (Decidable (OwnPage ..))
  | some (.heap _ (some _) _) => inferInstanceAs (Decidable (OwnPage .. ∧ PageOk ..))
  | some (.heap _ none _) => isFalse id
  | none => isFalse id

instance {S : Type} [DecidableEq S] (c : Config S) (p : Pool S) : (call : Call S) →
    Decidable (CallOk c p call)
  | .map _ _ _ => inferInstanceAs (Decidable (PageOk .. ∧ _))
  | .unmap _ => isTrue trivial

/-- the second table leaves two, and the page that comes from the heap takes the third -/
def heapRefill : List (Call Nat) :=
  [.map 16 id none, .map 17 id (some (.heap 4 (some 0x70000000) id)), .unmap 17, .unmap 16]

theorem calls_fine_heapRefill :
    ((run (step bootConfig) (newPool fun _ => false) heapRefill).map fun p =>
      (p.refs, p.blkAllocated, p.blkUsedAll)) = some ([0, 4], 8, 1) ∧
    Along (step bootConfig) (Fine bootConfig) (newPool fun _ => false) heapRefill :=
  ⟨by decide, calls_fine bootConfig _ (by decide)⟩

/-- a page that is mapped `2 ^ 32` times leaves its table free for the next entry -/
theorem wrapped_counter_shared : ¬ ∀ calls : List (Call Nat),
    Along (step bootConfig) (Fine bootConfig) (newPool fun _ => false) calls := by
  intro h
  have hfirst : step bootConfig (newPool fun _ => false) (.map 16 id none) = some
      (((((newPool fun _ => false).addRef 0 0x60000000).takeTable 0).setEntry 16
        (.coarse 0x60000000)).setPage 0 0 1) := rfl
  have hrun : run (step bootConfig) (newPool fun _ => false)
      (.map 16 id none :: List.replicate (2 ^ 32 - 1) (.map 16 id none)) = some
      (((((newPool fun _ => false).addRef 0 0x60000000).takeTable 0).setEntry 16
        (.coarse 0x60000000)).setPage 0 0 0) := by
    rw [run_cons, hfirst, Option.bind_some]
    exact run_again (b := 0x60000000) rfl rfl rfl id none (2 ^ 32 - 1)
  obtain ⟨p', h1, -, hown⟩ := along_snoc
    (h (_ ++ [.map 17 id (some (.static 1 0x60001000))])) hrun
  have hshared : (some p').map (fun p => (p.entry 16, p.entry 17))
      = some (.coarse 0x60000000, .coarse 0x60000000) := by
    rw [← h1]
    decide
  obtain ⟨h16, h17⟩ := Prod.mk.inj (Option.some.inj hshared)
  exact absurd (hown 16 17 _ h16 h17) (by decide)

end SierraTee.L2Pool
