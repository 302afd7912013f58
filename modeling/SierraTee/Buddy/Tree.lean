import Mathlib.Data.List.Perm.Basic
import Mathlib.Tactic.Linarith

/-!
# The two link structures of the buddy pool

A descriptor is named by its index in the `area` array, and `addr i` is its `mem_addr`.

Adding permutes the node in, and removing a node that a search has found permutes it out.
Neither fact asks for an order of the addresses: the removal takes the steps of the search.
-/

namespace SierraTee

inductive BTree where
  | nil
  | node (lchild : BTree) (i : Nat) (rchild : BTree)

namespace BTree

def toList : BTree → List Nat
  | nil => []
  | node l i r => l.toList ++ i :: r.toList

theorem toList_node (l r : BTree) (i : Nat) : (node l i r).toList = l.toList ++ i :: r.toList := rfl

/-- `get_min_node`, with the tree that is left when the node is taken out -/
def popMin : BTree → Nat → BTree → Nat × BTree
  | nil, i, r => (i, r)
  | node ll li lr, i, r => ((popMin ll li lr).1, node (popMin ll li lr).2 i r)

/-- `get_max_node`, with the tree that is left when the node is taken out -/
def popMax (l : BTree) (i : Nat) : BTree → Nat × BTree
  | nil => (i, l)
  | node rl ri rr => ((popMax rl ri rr).1, node l i (popMax rl ri rr).2)

def join : BTree → BTree → BTree
  | nil, nil => nil
  | node ll li lr, nil => node (popMax ll li lr).2 (popMax ll li lr).1 nil
  | l, node rl ri rr => node l (popMin rl ri rr).1 (popMin rl ri rr).2

section
variable (addr : Nat → Nat)

/-- `add_btree_node` below the header; an address that is there already is not added -/
def add (n : Nat) : BTree → BTree
  | nil => node nil n nil
  | node l i r =>
    if addr n < addr i then node (add n l) i r
    else if addr i < addr n then node l i (add n r)
    else node l i r

/-- `search_btree_node` below the header -/
def search (data : Nat) : BTree → Option Nat
  | nil => none
  | node l i r =>
    if addr i = data then some i
    else if data < addr i then search data l
    else search data r

/-- `remove_btree_node` below the header -/
def remove (del : Nat) : BTree → BTree
  | nil => nil
  | node l i r =>
    if addr del < addr i then node (remove del l) i r
    else if addr i < addr del then node l i (remove del r)
    else join l r

end

theorem popMin_perm (l : BTree) (i : Nat) (r : BTree) :
    ((popMin l i r).1 :: (popMin l i r).2.toList).Perm (node l i r).toList := by
  induction l generalizing i r with
  | nil => exact List.Perm.refl _
  | node ll li lr ihl _ =>
    show ((popMin ll li lr).1 :: ((popMin ll li lr).2.toList ++ i :: r.toList)).Perm _
    rw [← List.cons_append]
    exact (ihl li lr).append_right _

theorem popMax_perm (l : BTree) (i : Nat) (r : BTree) :
    ((popMax l i r).2.toList ++ [(popMax l i r).1]).Perm (node l i r).toList := by
  induction r generalizing l i with
  | nil => exact List.Perm.refl _
  | node rl ri rr _ ihr =>
    show ((l.toList ++ i :: (popMax rl ri rr).2.toList) ++ [(popMax rl ri rr).1]).Perm _
    rw [List.append_assoc, List.cons_append]
    exact ((ihr rl ri).cons i).append_left _

theorem join_perm (l r : BTree) : (join l r).toList.Perm (l.toList ++ r.toList) := by
  cases r with
  | nil =>
    cases l with
    | nil => exact List.Perm.refl _
    | node ll li lr =>
      have h := popMax_perm ll li lr
      rw [show (nil : BTree).toList = [] from rfl, List.append_nil]
      exact h
  | node rl ri rr =>
    have h := popMin_perm rl ri rr
    have e : (join l (node rl ri rr)).toList
        = l.toList ++ (popMin rl ri rr).1 :: (popMin rl ri rr).2.toList := by
      cases l <;> rfl
    rw [e]
    exact h.append_left _

section
variable {addr : Nat → Nat}

theorem search_node (data : Nat) (l r : BTree) (i : Nat) : search addr data (node l i r) =
    if addr i = data then some i
    else if data < addr i then search addr data l
    else search addr data r := rfl

theorem search_some {data n : Nat} {t : BTree} (h : search addr data t = some n) :
    n ∈ t.toList ∧ addr n = data := by
  induction t with
  | nil => cases h
  | node l i r ihl ihr =>
    rw [search_node] at h
    split at h
    · rename_i hi
      cases h
      exact ⟨by simp [toList_node], hi⟩
    · split at h
      · exact ⟨by simp [toList_node, (ihl h).1], (ihl h).2⟩
      · exact ⟨by simp [toList_node, (ihr h).1], (ihr h).2⟩

/-- **A node that the search finds is taken out by the removal.** -/
theorem remove_perm {data n : Nat} {t : BTree} (h : search addr data t = some n) :
    (n :: (remove addr n t).toList).Perm t.toList := by
  have ha : addr n = data := (search_some h).2
  induction t with
  | nil => cases h
  | node l i r ihl ihr =>
    rw [search_node] at h
    rw [remove, ha]
    split at h
    · rename_i hi
      cases h
      rw [if_neg (by omega), if_neg (by omega)]
      exact ((join_perm l r).cons n).trans List.perm_middle.symm
    · split at h
      · rename_i hlt
        rw [if_pos hlt]
        exact (ihl h).append_right (i :: r.toList)
      · rename_i hi hlt
        rw [if_neg hlt, if_pos (by omega)]
        calc n :: (l.toList ++ i :: (remove addr n r).toList)
          _ |>.Perm (l.toList ++ n :: i :: (remove addr n r).toList) := List.perm_middle.symm
          _ |>.Perm (l.toList ++ i :: n :: (remove addr n r).toList) :=
            (List.Perm.swap i n _).append_left _
          _ |>.Perm (l.toList ++ i :: r.toList) := ((ihr h).cons i).append_left _

theorem add_perm {n : Nat} {t : BTree} (h : ∀ i ∈ t.toList, addr i ≠ addr n) :
    (add addr n t).toList.Perm (n :: t.toList) := by
  induction t with
  | nil => exact List.Perm.refl _
  | node l i r ihl ihr =>
    have hi : addr i ≠ addr n := h i (by simp [toList_node])
    rw [add]
    split
    · exact (ihl fun j hj => h j (by simp [toList_node, hj])).append_right (i :: r.toList)
    · rw [if_pos (by omega)]
      have hr := ihr fun j hj => h j (by simp [toList_node, hj])
      exact ((hr.cons i).append_left l.toList).trans
        (((List.Perm.swap n i r.toList).append_left l.toList).trans List.perm_middle)

end

end BTree

/-! ## free lists -/

namespace Chain

section
variable (addr : Nat → Nat)

/-- `add_sorted_btree_node` behind the header of a bin -/
def addSorted (n : Nat) : List Nat → List Nat
  | [] => [n]
  | i :: l => if addr n < addr i then n :: i :: l else i :: addSorted n l

/-- `search_btree_node` behind the header of a bin: the left children are not used -/
def search (data : Nat) : List Nat → Option Nat
  | [] => none
  | i :: l => if addr i = data then some i else if data < addr i then none else search data l

/-- `remove_btree_node` behind the header of a bin -/
def remove (del : Nat) : List Nat → List Nat
  | [] => []
  | i :: l =>
    if addr del < addr i then i :: l
    else if addr i < addr del then i :: remove del l
    else l

end

section
variable {addr : Nat → Nat}

theorem addSorted_perm (n : Nat) (l : List Nat) : (addSorted addr n l).Perm (n :: l) := by
  induction l with
  | nil => exact List.Perm.refl _
  | cons i l ih =>
    rw [addSorted]
    split
    · exact List.Perm.refl _
    · exact (ih.cons i).trans (List.Perm.swap n i l)

theorem search_cons (data i : Nat) (l : List Nat) : search addr data (i :: l) =
    if addr i = data then some i else if data < addr i then none else search addr data l := rfl

theorem search_some {data n : Nat} {l : List Nat} (h : search addr data l = some n) :
    n ∈ l ∧ addr n = data := by
  induction l with
  | nil => cases h
  | cons i l ih =>
    rw [search_cons] at h
    split at h
    · rename_i hi
      cases h
      exact ⟨List.mem_cons_self, hi⟩
    · split at h
      · exact absurd h (by simp)
      · exact ⟨List.mem_cons_of_mem i (ih h).1, (ih h).2⟩

theorem remove_head (n : Nat) (l : List Nat) : remove addr n (n :: l) = l := by
  rw [remove, if_neg (by omega), if_neg (by omega)]

theorem remove_perm {data n : Nat} {l : List Nat} (h : search addr data l = some n) :
    (n :: remove addr n l).Perm l := by
  have ha : addr n = data := (search_some h).2
  induction l with
  | nil => cases h
  | cons i l ih =>
    rw [search_cons] at h
    split at h
    · cases h
      rw [remove_head]
    · rename_i hi
      split at h
      · exact absurd h (by simp)
      · rw [remove, ha, if_neg (by omega), if_pos (by omega)]
        exact (List.Perm.swap i n _).trans ((ih h).cons i)

end

end Chain
end SierraTee
