import Mathlib.Data.List.Basic

/-!
# Writes to a memory

A memory is a function from addresses to values; a list of writes is done from the front.

* `applyWrites`            the memory after the writes;
* `applyWrites_of_notMem`  an address that is not written keeps its value;
* `applyWrites_cases`      an address keeps its value or holds one that is written to it;
* `applyWrites_of_unique`  it holds a value that is written to it, if no other one is;
* `mem_block_iff`          the writes that put a list of values to a row of addresses.
-/

namespace Writes
open Function

section
variable {A B : Type*}

/-- the writes that put value `k` of a list to the address `place k` -/
def block (place : Nat → A) (l : List B) : List (A × B) := l.mapIdx fun k b => (place k, b)

theorem mem_block_iff {a : A} {b : B} {place : Nat → A} {vs : List B} :
    (a, b) ∈ block place vs ↔ ∃ k, vs[k]? = some b ∧ a = place k := by
  rw [block, List.mem_mapIdx]
  constructor
  · rintro ⟨k, hk, e⟩
    obtain ⟨rfl, rfl⟩ := Prod.mk.injEq .. ▸ e
    exact ⟨k, List.getElem?_eq_getElem hk, rfl⟩
  · rintro ⟨k, hk, rfl⟩
    obtain ⟨hlt, rfl⟩ := List.getElem?_eq_some_iff.mp hk
    exact ⟨k, hlt, rfl⟩

variable [DecidableEq A]

/-- the memory after the writes -/
def applyWrites (m : A → B) : List (A × B) → A → B
  | [] => m
  | w :: l => applyWrites (update m w.1 w.2) l

variable {m : A → B} {l l' : List (A × B)} {a : A} {b : B}

theorem applyWrites_append : applyWrites m (l ++ l') = applyWrites (applyWrites m l) l' := by
  induction l generalizing m with
  | nil => rfl
  | cons w l ih => exact ih

theorem applyWrites_of_notMem (h : ∀ b, (a, b) ∉ l) : applyWrites m l a = m a := by
  induction l generalizing m with
  | nil => rfl
  | cons w l ih =>
    have hne : a ≠ w.1 := by
      intro e
      apply h w.2
      rw [e]
      exact List.mem_cons_self
    rw [applyWrites, ih fun b hb => h b (List.mem_cons_of_mem _ hb), update_of_ne hne]

theorem applyWrites_cases :
    (∀ b, (a, b) ∉ l) ∧ applyWrites m l a = m a ∨ (a, applyWrites m l a) ∈ l := by
  induction l generalizing m with
  | nil => exact Or.inl ⟨fun b h => absurd h List.not_mem_nil, rfl⟩
  | cons w l ih =>
    rw [applyWrites]
    obtain ⟨hnone, hval⟩ | hmem := ih (m := update m w.1 w.2)
    · by_cases ha : a = w.1
      · right
        rw [hval, ha, update_self]
        exact List.mem_cons_self
      · left
        refine ⟨fun b hb => ?_, by rw [hval, update_of_ne ha]⟩
        obtain e | hb := List.mem_cons.mp hb
        · exact ha (congrArg Prod.fst e)
        · exact hnone b hb
    · exact Or.inr (List.mem_cons_of_mem _ hmem)

theorem applyWrites_of_unique (h : (a, b) ∈ l) (hu : ∀ b', (a, b') ∈ l → b' = b) :
    applyWrites m l a = b := by
  obtain ⟨hnone, -⟩ | hmem := applyWrites_cases (m := m) (l := l) (a := a)
  · exact absurd h (hnone b)
  · exact hu _ hmem

end

end Writes
