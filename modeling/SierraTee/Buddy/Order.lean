import SierraTee.Buddy.Tree

/-!
# The order of the free lists and of the allocation tree

Both are ordered by address, if the addresses differ.

* `Chain.addSorted_inOrder`, `BTree.add_inOrder`   adding keeps the order;
* `Chain.search_complete`, `BTree.search_complete`   a search finds every node.
-/

namespace SierraTee

section
variable {addr : Nat → Nat}

/-! ## free lists -/

namespace Chain

def InOrder (addr : Nat → Nat) (l : List Nat) : Prop := l.Pairwise fun i j => addr i < addr j

theorem InOrder.congr {addr' : Nat → Nat} {l : List Nat} (h : InOrder addr l)
    (he : ∀ i ∈ l, addr' i = addr i) : InOrder addr' l := by
  refine List.Pairwise.imp_of_mem (fun hi hj hij => ?_) h
  rw [he _ hi, he _ hj]
  exact hij

theorem addSorted_inOrder {n : Nat} {l : List Nat} (h : InOrder addr l)
    (hn : ∀ i ∈ l, addr i ≠ addr n) : InOrder addr (addSorted addr n l) := by
  induction l with
  | nil => exact List.pairwise_singleton _ _
  | cons i l ih =>
    obtain ⟨h1, h2⟩ := List.pairwise_cons.mp h
    have hi := hn i List.mem_cons_self
    rw [addSorted]
    split
    · rename_i hlt
      refine List.pairwise_cons.mpr ⟨fun j hj => ?_, h⟩
      rcases List.mem_cons.mp hj with rfl | hj
      · exact hlt
      · exact hlt.trans (h1 j hj)
    · refine List.pairwise_cons.mpr ⟨fun j hj => ?_, ih h2 fun j hj => hn j (List.mem_cons_of_mem i hj)⟩
      rcases List.mem_cons.mp ((addSorted_perm n l).subset hj) with rfl | hj
      · omega
      · exact h1 j hj

theorem remove_sublist (n : Nat) (l : List Nat) : (remove addr n l).Sublist l := by
  induction l with
  | nil => exact List.Sublist.refl _
  | cons i l ih =>
    rw [remove]
    split
    · exact List.Sublist.refl _
    · split
      · exact ih.cons_cons i
      · exact List.sublist_cons_self i l

theorem search_complete {n : Nat} {l : List Nat} (h : InOrder addr l) (hn : n ∈ l) :
    search addr (addr n) l = some n := by
  induction l with
  | nil => cases hn
  | cons i l ih =>
    obtain ⟨h1, h2⟩ := List.pairwise_cons.mp h
    rw [search]
    rcases List.mem_cons.mp hn with rfl | hn
    · rw [if_pos rfl]
    · have hlt := h1 n hn
      rw [if_neg (by omega), if_neg (by omega)]
      exact ih h2 hn

theorem search_none {data : Nat} {l : List Nat} (h : data ∉ l.map addr) :
    search addr data l = none := by
  cases hs : search addr data l with
  | none => rfl
  | some n =>
    obtain ⟨h1, h2⟩ := search_some hs
    exact absurd (List.mem_map.mpr ⟨n, h1, h2⟩) h

theorem map_addSorted (n : Nat) (l : List Nat) :
    (addSorted addr n l).map addr = addSorted id (addr n) (l.map addr) := by
  induction l with
  | nil => rfl
  | cons i l ih =>
    rw [addSorted, List.map_cons, addSorted]
    simp only [id]
    split
    · rfl
    · rw [List.map_cons, ih]

end Chain

/-! ## the allocation tree -/

namespace BTree

def InOrder (addr : Nat → Nat) (t : BTree) : Prop := Chain.InOrder addr t.toList

theorem popMin_toList (l : BTree) (i : Nat) (r : BTree) :
    (popMin l i r).1 :: (popMin l i r).2.toList = (node l i r).toList := by
  induction l generalizing i r with
  | nil => rfl
  | node ll li lr ihl _ =>
    show ((popMin ll li lr).1 :: (popMin ll li lr).2.toList) ++ i :: r.toList = _
    rw [ihl]
    rfl

theorem popMax_toList (l : BTree) (i : Nat) (r : BTree) :
    (popMax l i r).2.toList ++ [(popMax l i r).1] = (node l i r).toList := by
  induction r generalizing l i with
  | nil => rfl
  | node rl ri rr _ ihr =>
    show (l.toList ++ i :: (popMax rl ri rr).2.toList) ++ [(popMax rl ri rr).1] = _
    rw [List.append_assoc, List.cons_append, ihr]
    rfl

theorem join_toList (l r : BTree) : (join l r).toList = l.toList ++ r.toList := by
  cases r with
  | nil =>
    cases l with
    | nil => rfl
    | node ll li lr =>
      rw [toList.eq_1, List.append_nil]
      exact popMax_toList ll li lr
  | node rl ri rr =>
    have h := popMin_toList rl ri rr
    have e : (join l (node rl ri rr)).toList
        = l.toList ++ (popMin rl ri rr).1 :: (popMin rl ri rr).2.toList := by
      cases l <;> rfl
    rw [e, h]

theorem remove_sublist (n : Nat) (t : BTree) : (remove addr n t).toList.Sublist t.toList := by
  induction t with
  | nil => exact List.Sublist.refl _
  | node l i r ihl ihr =>
    rw [remove]
    split
    · exact ihl.append_right _
    · split
      · exact (ihr.cons_cons i).append_left _
      · rw [join_toList]
        exact (List.sublist_cons_self i _).append_left _

theorem add_inOrder {n : Nat} {t : BTree} (h : InOrder addr t)
    (hn : ∀ i ∈ t.toList, addr i ≠ addr n) : InOrder addr (add addr n t) := by
  induction t with
  | nil => exact List.pairwise_singleton _ _
  | node l i r ihl ihr =>
    obtain ⟨hl, hr, hlr⟩ := List.pairwise_append.mp h
    obtain ⟨hir, hr⟩ := List.pairwise_cons.mp hr
    have hnl : ∀ j ∈ l.toList, addr j ≠ addr n := fun j hj => hn j (by simp [toList, hj])
    have hnr : ∀ j ∈ r.toList, addr j ≠ addr n := fun j hj => hn j (by simp [toList, hj])
    have hi := hn i (by simp [toList])
    rw [add]
    split
    · rename_i hlt
      refine List.pairwise_append.mpr ⟨ihl hl hnl, List.pairwise_cons.mpr ⟨hir, hr⟩, ?_⟩
      intro j hj k hk
      rcases List.mem_cons.mp ((add_perm hnl).subset hj) with rfl | hj
      · rcases List.mem_cons.mp hk with rfl | hk
        · exact hlt
        · exact hlt.trans (hir k hk)
      · exact hlr j hj k hk
    · rename_i hle
      rw [if_pos (by omega)]
      refine List.pairwise_append.mpr ⟨hl, List.pairwise_cons.mpr ⟨fun k hk => ?_, ihr hr hnr⟩, ?_⟩
      · rcases List.mem_cons.mp ((add_perm hnr).subset hk) with rfl | hk
        · omega
        · exact hir k hk
      · intro j hj k hk
        rcases List.mem_cons.mp hk with rfl | hk
        · exact hlr j hj _ List.mem_cons_self
        · rcases List.mem_cons.mp ((add_perm hnr).subset hk) with rfl | hk
          · have := hlr j hj i List.mem_cons_self
            omega
          · exact hlr j hj k (List.mem_cons_of_mem i hk)

theorem search_complete {n : Nat} {t : BTree} (h : InOrder addr t) (hn : n ∈ t.toList) :
    search addr (addr n) t = some n := by
  induction t with
  | nil => cases hn
  | node l i r ihl ihr =>
    obtain ⟨hl, hr, hlr⟩ := List.pairwise_append.mp h
    obtain ⟨hir, hr⟩ := List.pairwise_cons.mp hr
    rw [search]
    rcases List.mem_append.mp hn with hn | hn
    · have hlt := hlr n hn i List.mem_cons_self
      rw [if_neg (by omega), if_pos hlt]
      exact ihl hl hn
    · rcases List.mem_cons.mp hn with rfl | hn
      · rw [if_pos rfl]
      · have hlt := hir n hn
        rw [if_neg (by omega), if_neg (by omega)]
        exact ihr hr hn

end BTree

end

end SierraTee
