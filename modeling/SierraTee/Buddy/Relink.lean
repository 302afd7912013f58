import SierraTee.Buddy.Links

/-!
# Trees in memory

`Below m p side t` says that the links of `p` on one side lead to the tree `t`, in which every
node names the node above it as its parent.

* `Below.congr`       nodes that stay as they are keep their tree;
* `getFarNode_below`  the last node on one side is the one that `popMin` or `popMax` takes out;
* `pullNode_below`    taking it out leaves the rest of the tree;
* `takeTree_below`    a subtree gets another parent.
-/

namespace SierraTee
open Function

def Below (m : AreaMemory) : Nat → Side → BTree → Prop
  | p, side, .nil => (m p).child side = none
  | p, side, .node l i r =>
    (m p).child side = some i ∧ (m i).parent = some p ∧ Below m i .left l ∧ Below m i .right r

/-! ## sides -/

namespace Side

@[simp] theorem other_other (d : Side) : d.other.other = d := by
  cases d <;> rfl

theorem other_ne (d : Side) : d.other ≠ d := by
  cases d <;> decide

end Side

namespace BTree

def fork (d : Side) (near : BTree) (i : Nat) (far : BTree) : BTree :=
  match d with
  | .left => node near i far
  | .right => node far i near

def pop (d : Side) (near : BTree) (i : Nat) (far : BTree) : Nat × BTree :=
  match d with
  | .left => popMin near i far
  | .right => popMax far i near

@[simp] theorem pop_nil (d : Side) (i : Nat) (far : BTree) : pop d nil i far = (i, far) := by
  cases d <;> rfl

theorem pop_fork (d : Side) (a : BTree) (j : Nat) (b : BTree) (i : Nat) (far : BTree) :
    pop d (fork d a j b) i far = ((pop d a j b).1, fork d (pop d a j b).2 i far) := by
  cases d <;> rfl

theorem fork_induction (d : Side) {motive : BTree → Prop} (nil : motive nil)
    (fork : ∀ a i b, motive a → motive b → motive (fork d a i b)) (t : BTree) : motive t := by
  induction t with
  | nil => exact nil
  | node l i r ihl ihr =>
    cases d with
    | left => exact fork l i r ihl ihr
    | right => exact fork r i l ihr ihl

section
variable {d : Side} {a b : BTree} {i x : Nat}

theorem mem_fork : x ∈ (fork d a i b).toList ↔ x = i ∨ x ∈ a.toList ∨ x ∈ b.toList := by
  cases d <;> simp only [fork, toList, List.mem_append, List.mem_cons] <;> tauto

theorem nodup_fork : (fork d a i b).toList.Nodup ↔ i ∉ a.toList ∧ i ∉ b.toList ∧
    a.toList.Nodup ∧ b.toList.Nodup ∧ ∀ x ∈ a.toList, x ∉ b.toList := by
  cases d
  all_goals
    simp only [fork, toList, List.nodup_append, List.nodup_cons, List.mem_cons]
    grind

theorem length_fork : (fork d a i b).toList.length = a.toList.length + b.toList.length + 1 := by
  cases d <;> simp only [fork, toList, List.length_append, List.length_cons] <;> omega

theorem length_node (l : BTree) (i : Nat) (r : BTree) :
    (node l i r).toList.length = l.toList.length + r.toList.length + 1 :=
  length_fork (d := .left)

theorem length_le_fuel {l r : BTree} {fuel : Nat} (h : (node l i r).toList.length ≤ fuel) :
    ∃ f, fuel = f + 1 ∧ l.toList.length + r.toList.length ≤ f := by
  rw [length_node] at h
  exact ⟨fuel - 1, by omega, by omega⟩

theorem pop_perm (d : Side) (a : BTree) (i : Nat) (b : BTree) :
    ((pop d a i b).1 :: (pop d a i b).2.toList).Perm (fork d a i b).toList := by
  cases d with
  | left => exact popMin_perm a i b
  | right => exact (List.perm_append_singleton _ _).symm.trans (popMax_perm b i a)

end

end BTree

open BTree

section
variable {m m' : AreaMemory} {p q i x : Nat} {d e : Side} {t a b : BTree}

/-! ## the links -/

@[simp] theorem AreaNode.child_withChild (n : AreaNode) (v : Option Nat) (d : Side) :
    (n.withChild v d).child d = v := by
  cases d <;> rfl

theorem AreaNode.child_withChild_ne (n : AreaNode) (v : Option Nat) (h : e ≠ d) :
    (n.withChild v d).child e = n.child e := by
  cases d <;> cases e <;> first | rfl | exact absurd rfl h

@[simp] theorem AreaNode.parent_withChild (n : AreaNode) (v : Option Nat) (d : Side) :
    (n.withChild v d).parent = n.parent := by
  cases d <;> rfl

@[simp] theorem AreaNode.memAddr_withChild (n : AreaNode) (v : Option Nat) (d : Side) :
    (n.withChild v d).memAddr = n.memAddr := by
  cases d <;> rfl

namespace AreaMemory

@[simp] theorem setChild_self (m : AreaMemory) (d : Side) (p : Nat) (v : Option Nat) :
    m.setChild d p v p = (m p).withChild v d := update_self ..

theorem setChild_ne (m : AreaMemory) (d : Side) (v : Option Nat) (h : x ≠ p) :
    m.setChild d p v x = m x := update_of_ne h ..

@[simp] theorem setParent_self (m : AreaMemory) (i : Nat) (v : Option Nat) :
    m.setParent i v i = { m i with parent := v } := update_self ..

theorem setParent_ne (m : AreaMemory) (v : Option Nat) (h : x ≠ i) : m.setParent i v x = m x :=
  update_of_ne h ..

@[simp] theorem clearLinks_self (m : AreaMemory) (i : Nat) :
    m.clearLinks i i = ⟨none, none, none, (m i).memAddr⟩ := update_self ..

theorem clearLinks_ne (m : AreaMemory) (h : x ≠ i) : m.clearLinks i x = m x :=
  update_of_ne h ..

@[simp] theorem child_setParent (m : AreaMemory) (i : Nat) (v : Option Nat) (x : Nat) (d : Side) :
    (m.setParent i v x).child d = (m x).child d := by
  by_cases h : x = i
  · subst h
    rw [setParent_self]
    cases d <;> rfl
  · rw [setParent_ne m v h]

end AreaMemory

def SameAddr (m m' : AreaMemory) : Prop := ∀ x, (m' x).memAddr = (m x).memAddr

theorem SameAddr.trans {u : AreaMemory} (h1 : SameAddr m m') (h2 : SameAddr m' u) :
    SameAddr m u := fun x => (h2 x).trans (h1 x)

theorem sameAddr_setChild (m : AreaMemory) (d : Side) (p : Nat) (v : Option Nat) :
    SameAddr m (m.setChild d p v) := by
  intro x
  by_cases h : x = p
  · subst h
    rw [AreaMemory.setChild_self, AreaNode.memAddr_withChild]
  · rw [AreaMemory.setChild_ne m d v h]

theorem sameAddr_setParent (m : AreaMemory) (i : Nat) (v : Option Nat) :
    SameAddr m (m.setParent i v) := by
  intro x
  by_cases h : x = i
  · subst h
    rw [AreaMemory.setParent_self]
  · rw [AreaMemory.setParent_ne m v h]

theorem sameAddr_clearLinks (m : AreaMemory) (i : Nat) : SameAddr m (m.clearLinks i) := by
  intro x
  by_cases h : x = i
  · subst h
    rw [AreaMemory.clearLinks_self]
  · rw [AreaMemory.clearLinks_ne m h]

/-! ## trees below a node -/

theorem below_fork : Below m p e (fork d a i b) ↔ (m p).child e = some i ∧
    (m i).parent = some p ∧ Below m i d a ∧ Below m i d.other b := by
  cases d with
  | left => exact Iff.rfl
  | right => exact and_congr_right fun _ => and_congr_right fun _ => and_comm

theorem Below.congr (h : Below m p d t) (hp : (m' p).child d = (m p).child d)
    (ht : ∀ x ∈ t.toList, m' x = m x) : Below m' p d t := by
  induction t generalizing p d with
  | nil => exact hp.trans h
  | node l i r ihl ihr =>
    obtain ⟨h1, h2, hl, hr⟩ := h
    have hi : m' i = m i := ht i (List.mem_append_right _ List.mem_cons_self)
    refine ⟨hp.trans h1, hi ▸ h2, ihl hl (by rw [hi]) fun x hx => ?_,
      ihr hr (by rw [hi]) fun x hx => ?_⟩
    · exact ht x (List.mem_append_left _ hx)
    · exact ht x (List.mem_append_right _ (List.mem_cons_of_mem i hx))

theorem Below.frame (h : Below m p d t) (hp : m' p = m p) (ht : ∀ x ∈ t.toList, m' x = m x) :
    Below m' p d t := h.congr (by rw [hp]) ht

theorem Below.root_mem {c : Nat} (h : Below m p d t) (hc : (m p).child d = some c) :
    c ∈ t.toList := by
  cases t with
  | nil => exact absurd (hc.symm.trans h) (by simp)
  | node l i r =>
    obtain rfl := Option.some.inj (hc.symm.trans h.1)
    exact List.mem_append_right _ List.mem_cons_self

theorem Below.child_eq_none (h : Below m p d .nil) : (m p).child d = none := h

theorem Below.move (h : Below m p d t) (hc : (m' q).child e = (m p).child d)
    (hroot : ∀ c, (m p).child d = some c → m' c = { m c with parent := some q })
    (ht : ∀ x ∈ t.toList, (m p).child d ≠ some x → m' x = m x) (hnd : t.toList.Nodup) :
    Below m' q e t := by
  induction t using fork_induction .left with
  | nil => exact hc.trans h
  | fork l c r _ _ =>
    obtain ⟨h1, h2, hl, hr⟩ := below_fork.1 h
    obtain ⟨hcl, hcr, -, -, -⟩ := nodup_fork.1 hnd
    have hc' := hroot c h1
    have hsame {x : Nat} (hx : x ∈ l.toList ∨ x ∈ r.toList) : m' x = m x := by
      refine ht x (mem_fork.2 (Or.inr hx)) fun he => ?_
      obtain rfl := Option.some.inj (h1.symm.trans he)
      exact hx.elim hcl hcr
    refine below_fork.2 ⟨hc.trans h1, by rw [hc'], ?_, ?_⟩
    · exact hl.congr (by rw [hc']; rfl) fun x hx => hsame (Or.inl hx)
    · exact hr.congr (by rw [hc']; rfl) fun x hx => hsame (Or.inr hx)

/-- `m` has become `m'`, and the tree on one side of `p` is now `t`; nothing but `p` and the nodes of
`t` has changed -/
structure Relinked (m m' : AreaMemory) (p : Nat) (d : Side) (t : BTree) : Prop where
  below : Below m' p d t
  top : ∃ v, m' p = (m p).withChild v d
  frame : ∀ x, x ≠ p → x ∉ t.toList → m' x = m x
  addr : SameAddr m m'

theorem Relinked.other (h : Relinked m m' p d t) : (m' p).child d.other = (m p).child d.other := by
  obtain ⟨v, hv⟩ := h.top
  rw [hv, AreaNode.child_withChild_ne _ _ d.other_ne]

theorem Relinked.parent (h : Relinked m m' p d t) : (m' p).parent = (m p).parent := by
  obtain ⟨v, hv⟩ := h.top
  rw [hv, AreaNode.parent_withChild]

theorem Relinked.fork {p : Nat} {e : Side} (h : Relinked m m' i d a)
    (h1 : (m p).child e = some i) (h2 : (m i).parent = some p) (hb : Below m i d.other b)
    (hp : p ∉ (BTree.fork d a i b).toList) (hia : i ∉ b.toList)
    (hab : ∀ x ∈ a.toList, x ∉ b.toList) : Relinked m m' p e (BTree.fork d a i b) := by
  obtain ⟨hpi, hpa, hpb⟩ : p ≠ i ∧ p ∉ a.toList ∧ p ∉ b.toList := by
    simpa [mem_fork] using hp
  have hpp : m' p = m p := h.frame p hpi hpa
  refine ⟨below_fork.2 ⟨by rw [hpp]; exact h1, h.parent.trans h2, h.below, ?_⟩, ?_, ?_, h.addr⟩
  · refine hb.congr h.other fun x hx => h.frame x (fun e => hia (e ▸ hx)) fun hxa => hab x hxa hx
  · refine ⟨(m p).child e, ?_⟩
    rw [hpp]
    cases e <;> rfl
  · intro x _ hx
    obtain ⟨hxi, hxa, -⟩ : x ≠ i ∧ x ∉ a.toList ∧ x ∉ b.toList := by simpa [mem_fork] using hx
    exact h.frame x hxi hxa

/-! ## the parts of the removal -/

theorem getFarNode_below {fuel : Nat} (h : Below m p e (fork d a i b))
    (hfuel : a.toList.length < fuel) :
    getFarNode d fuel m i = some (pop d a i b).1 ∧ (m (pop d a i b).1).child d = none := by
  induction a using fork_induction d generalizing p e i b fuel with
  | nil =>
    obtain ⟨fuel, rfl⟩ := Nat.exists_eq_succ_of_ne_zero (Nat.ne_of_gt hfuel)
    have hnone : (m i).child d = none := (below_fork.1 h).2.2.1
    rw [pop_nil]
    refine ⟨?_, hnone⟩
    rw [getFarNode, hnone]
  | fork a j c iha _ =>
    rw [length_fork] at hfuel
    obtain ⟨fuel, rfl⟩ := Nat.exists_eq_succ_of_ne_zero (show fuel ≠ 0 by omega)
    obtain ⟨-, -, hbelow, -⟩ := below_fork.1 h
    have hsome : (m i).child d = some j := (below_fork.1 hbelow).1
    rw [pop_fork, getFarNode, hsome]
    exact iha hbelow (by omega)

theorem takeTree_below {q : Nat} {c : Nat} (h : Below m p d t) (hc : (m p).child d = some c)
    (hq : q ∉ t.toList) (hnd : t.toList.Nodup) :
    Relinked m ((m.setChild e q (some c)).setParent c (some q)) q e t := by
  have hct : c ∈ t.toList := h.root_mem hc
  have hqc : q ≠ c := fun he => hq (he ▸ hct)
  refine ⟨h.move ?_ (fun c' hc' => ?_) (fun x hx hne => ?_) hnd, ⟨some c, ?_⟩, fun x hxq hx => ?_,
    SameAddr.trans (sameAddr_setChild _ _ _ _) (sameAddr_setParent _ _ _)⟩
  · rw [AreaMemory.child_setParent, AreaMemory.setChild_self, AreaNode.child_withChild, hc]
  · obtain rfl := Option.some.inj (hc.symm.trans hc')
    rw [AreaMemory.setParent_self, AreaMemory.setChild_ne _ _ _ hqc.symm]
  · have hxc : x ≠ c := fun he => hne (he ▸ hc)
    have hxq : x ≠ q := fun he => hq (he ▸ hx)
    rw [AreaMemory.setParent_ne _ _ hxc, AreaMemory.setChild_ne _ _ _ hxq]
  · rw [AreaMemory.setParent_ne _ _ hqc, AreaMemory.setChild_self]
  · have hxc : x ≠ c := fun he => hx (he ▸ hct)
    rw [AreaMemory.setParent_ne _ _ hxc, AreaMemory.setChild_ne _ _ _ hxq]

theorem pullNode_below (h : Below m p d (fork d a i b)) (hp : p ∉ (fork d a i b).toList)
    (hnd : (fork d a i b).toList.Nodup) :
    ∃ m', pullNode d m (pop d a i b).1 = some m' ∧ Relinked m m' p d (pop d a i b).2 := by
  induction a using fork_induction d generalizing p i b with
  | nil =>
    obtain ⟨-, hpar, -, hb⟩ := below_fork.1 h
    obtain ⟨-, -, -, hbd, -⟩ := nodup_fork.1 hnd
    have hpb : p ∉ b.toList := fun hx => hp (mem_fork.2 (Or.inr (Or.inr hx)))
    rw [pop_nil, pullNode, hpar, Option.map_some]
    cases hc : (m i).child d.other with
    | none =>
      refine ⟨m.setChild d p none, rfl, ?_, ⟨none, AreaMemory.setChild_self _ _ _ _⟩,
        fun x hx _ => AreaMemory.setChild_ne _ _ _ hx, sameAddr_setChild _ _ _ _⟩
      cases b with
      | nil =>
        show (m.setChild d p none p).child d = none
        rw [AreaMemory.setChild_self, AreaNode.child_withChild]
      | node l j r => exact absurd (hc.symm.trans hb.1) (by simp)
    | some c => exact ⟨_, rfl, takeTree_below hb hc hpb hbd⟩
  | fork a j c iha _ =>
    obtain ⟨h1, h2, hbelow, hb⟩ := below_fork.1 h
    obtain ⟨hia, hib, had, -, hdis⟩ := nodup_fork.1 hnd
    obtain ⟨m', hm', hr⟩ := iha hbelow hia had
    have hsub {x : Nat} (hx : x ∈ (pop d a j c).2.toList) : x ∈ (fork d a j c).toList :=
      (pop_perm d a j c).subset (List.mem_cons_of_mem _ hx)
    rw [pop_fork]
    refine ⟨m', hm', hr.fork h1 h2 hb (fun hx => hp ?_) hib fun x hx => hdis x (hsub hx)⟩
    rw [mem_fork] at hx ⊢
    exact hx.imp id (Or.imp_left hsub)

end

end SierraTee
