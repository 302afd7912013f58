import SierraTee.Paging.Mapped

/-!
# Sections of the address space

An abstract page table: what a section of 1 MB is mapped to, without the places of the tables.

* `PageTables.sect`, `translate_sect`   the sections of a page table, and what they translate to.
-/

namespace SierraTee
open Function FlatMemory

instance bitVecFintype (n : Nat) : Fintype (BitVec n) :=
  Fintype.ofEquiv (Fin (2 ^ n)) ⟨BitVec.ofFin, BitVec.toFin, fun _ => rfl, fun _ => rfl⟩

instance : DecidablePred Fault := fun w => inferInstanceAs (Decidable (descType w = _))

inductive Sect where
  | plain (w : Word)
  | table (ns : BitVec 1) (dom : BitVec 4) (uses : Nat) (l2 : BitVec 8 → Word)

namespace Sect

def tableBits (ns : BitVec 1) (dom : BitVec 4) : Word := field dom 5 ||| field ns 3

def translate (a : Word) : Sect → Option (Word × Attrs)
  | plain w =>
    if descType w = pageDescTypeSection then some (PageTables.translateL1 w a) else none
  | table ns dom _ l2 => PageTables.translateL2 (tableBits ns dom) (l2 (l2Index a)) a

/-- entry `k` becomes `d`, in the domain `dom`; the table of a free section is secure -/
def mapPage (dom : BitVec 4) (k : BitVec 8) (d : Word) : Sect → Sect
  | plain w => if Fault w then table 0 dom 1 (update (fun _ => 0) k d) else plain w
  | table ns _ n l2 => table ns dom (n + 1) (update l2 k d)

def unmapPage (k : BitVec 8) : Sect → Sect
  | plain w => plain w
  | table ns dom n l2 => if n = 1 then plain 0 else table ns dom (n - 1) (update l2 k 0)

def uses : Sect → Nat
  | plain _ => 0
  | table _ _ n _ => n

def mapSection (d : Word) : Sect → Sect
  | plain w => if Fault w then plain d else plain w
  | table ns dom n l2 => table ns dom n l2

def unmapSection : Sect → Sect
  | plain w => if descType w = pageDescTypeSection then plain 0 else plain w
  | table ns dom n l2 => table ns dom n l2

/-! ## Sets of pages -/

def mapPages (dom : BitVec 4) (s : Finset (BitVec 8)) (d : BitVec 8 → Word) : Sect → Sect
  | plain w =>
    if Fault w ∧ s.Nonempty then table 0 dom s.card fun k => if k ∈ s then d k else 0 else plain w
  | table ns dom' n l2 =>
    table ns (if s.Nonempty then dom else dom') (n + s.card) fun k => if k ∈ s then d k else l2 k

def unmapPages (s : Finset (BitVec 8)) : Sect → Sect
  | plain w => plain w
  | table ns dom n l2 =>
    if n ≤ s.card then plain 0 else table ns dom (n - s.card) fun k => if k ∈ s then 0 else l2 k

variable {dom : BitVec 4} {d : BitVec 8 → Word} {k : BitVec 8} {s : Finset (BitVec 8)} {w : Word}

theorem mapPage_free (h : Fault w) (dom : BitVec 4) (k : BitVec 8) (d : Word) :
    (plain w).mapPage dom k d = table 0 dom 1 (update (fun _ => 0) k d) := if_pos h

theorem mapPages_empty (x : Sect) : x.mapPages dom ∅ d = x := by
  cases x with
  | plain w => exact if_neg fun h => Finset.not_nonempty_empty h.2
  | table ns dom' n l2 =>
    show table ns (if (∅ : Finset (BitVec 8)).Nonempty then dom else dom') (n + 0) _ = _
    rw [if_neg Finset.not_nonempty_empty, Nat.add_zero]
    congr 1

theorem unmapPages_empty {x : Sect} (hx : ∀ ns dom n l2, x = table ns dom n l2 → n ≠ 0) :
    x.unmapPages ∅ = x := by
  cases x with
  | plain w => rfl
  | table ns dom n l2 =>
    have h1 := hx ns dom n l2 rfl
    exact if_neg fun h => h1 (Nat.le_zero.mp h)

end Sect

/-! ## The sections of a page table -/

namespace PageTables
variable (c : PageConfig) (pt : PageTables)

def uses (i : BitVec 12) : Nat := (pt.findRef (tableOf c (pt.entry c i))).elim 0 fun x => pt.page x.1 x.2

def sect (i : BitVec 12) : Sect :=
  if Coarse (pt.entry c i) then
    .table ((pt.entry c i).extractLsb' 3 1) ((pt.entry c i).extractLsb' 5 4) (pt.uses c i)
      (pt.l2At c i)
  else .plain (pt.entry c i)

end PageTables

section
variable {c : PageConfig} {pt pt' : PageTables} {a w w' d : Word} {i : BitVec 12}

theorem sect_coarse (h : Coarse (pt.entry c i)) :
    pt.sect c i = .table ((pt.entry c i).extractLsb' 3 1) ((pt.entry c i).extractLsb' 5 4)
      (pt.uses c i) (pt.l2At c i) := if_pos h

theorem sect_plain (h : ¬ Coarse (pt.entry c i)) : pt.sect c i = .plain (pt.entry c i) := if_neg h

end

end SierraTee
