import SierraTee.Buddy.Relink

/-!
# Removing a node from the tree in memory (`remove_btree_node`)

The deleted node is replaced by the node that `BTree.join` puts above its two subtrees: one lemma
for each case of the source, and one for the walk down to the node.

* `removeOne_below`, `removeBoth_below`   the cases with one child and with two children;
* `removeFound_below`  the tree that is left is `BTree.join`;
* `removeBelow_below`  the walk: the tree that is left is `BTree.remove`.
-/

namespace SierraTee
open BTree

section
variable {m u : AreaMemory} {p q n del j fuel : Nat} {d e : Side} {a b l r : BTree}

/-! ## the first and the last assignments -/

theorem replaceChild_below (first : Side) (v : Option Nat) (hpar : (m del).parent = some p)
    (hc : (m p).child d = some del) (hoth : (m p).child d.other ≠ some del) :
    ∃ m1, replaceChild first m del v = some m1 ∧ m1 p = (m p).withChild v d ∧
      (∀ x, x ≠ p → m1 x = m x) ∧ SameAddr m m1 := by
  refine ⟨m.setChild d p v, ?_, AreaMemory.setChild_self _ _ _ _,
    fun x hx => AreaMemory.setChild_ne _ _ _ hx, sameAddr_setChild _ _ _ _⟩
  rw [replaceChild, hpar, Option.map_some]
  by_cases hd : first = d
  · subst hd
    rw [if_pos hc]
  · have hother : first = d.other := by
      cases first <;> cases d <;> first | rfl | exact absurd rfl hd
    subst hother
    rw [if_neg hoth, Side.other_other, if_pos hc]

theorem replaceNode_below (htop : u p = (m p).withChild (some n) d)
    (hpar : (u del).parent = some p) (ha : Below u n e a) (hb : Below u n e.other b)
    (hframe : ∀ x, x ≠ p → x ∉ (fork e a n b).toList → x ≠ del → u x = m x) (haddr : SameAddr m u)
    (hp : p ∉ (fork e a n b).toList) (hdel : del ∉ (fork e a n b).toList) (hpd : p ≠ del)
    (hnd : (fork e a n b).toList.Nodup) :
    Relinked (m.clearLinks del) (replaceNode u n del) p d (fork e a n b) := by
  obtain ⟨hna, hnb, -, -, -⟩ := nodup_fork.1 hnd
  obtain ⟨hpn, hpa, hpb⟩ : p ≠ n ∧ p ∉ a.toList ∧ p ∉ b.toList := by simpa [mem_fork] using hp
  obtain ⟨hdn, hda, hdb⟩ : del ≠ n ∧ del ∉ a.toList ∧ del ∉ b.toList := by
    simpa [mem_fork] using hdel
  rw [replaceNode, hpar]
  have hn : (u.setParent n (some p)).clearLinks del n = { u n with parent := some p } := by
    rw [AreaMemory.clearLinks_ne _ hdn.symm, AreaMemory.setParent_self]
  have hsame {x : Nat} (hxn : x ≠ n) (hxd : x ≠ del) :
      (u.setParent n (some p)).clearLinks del x = u x := by
    rw [AreaMemory.clearLinks_ne _ hxd, AreaMemory.setParent_ne _ _ hxn]
  have hchild (c : Side) : ((u.setParent n (some p)).clearLinks del n).child c = (u n).child c := by
    rw [AreaMemory.clearLinks_ne _ hdn.symm, AreaMemory.child_setParent]
  refine ⟨below_fork.2 ⟨?_, ?_, ?_, ?_⟩, ⟨some n, ?_⟩, fun x hxp hx => ?_, ?_⟩
  · rw [hsame hpn hpd, htop, AreaNode.child_withChild]
  · rw [hn]
  · exact ha.congr (hchild e) fun x hx =>
      hsame (fun h => hna (h ▸ hx)) fun h => hda (h ▸ hx)
  · exact hb.congr (hchild e.other) fun x hx =>
      hsame (fun h => hnb (h ▸ hx)) fun h => hdb (h ▸ hx)
  · rw [hsame hpn hpd, htop, AreaMemory.clearLinks_ne _ hpd]
  · by_cases hxd : x = del
    · subst hxd
      have hu : u.setParent n (some p) x = u x := AreaMemory.setParent_ne _ _ hdn
      rw [AreaMemory.clearLinks_self, AreaMemory.clearLinks_self, hu, haddr x]
    · have hxn : x ≠ n := fun h => hx (mem_fork.2 (Or.inl h))
      rw [hsame hxn hxd, AreaMemory.clearLinks_ne _ hxd, hframe x hxp hx hxd]
  · intro x
    rw [sameAddr_clearLinks, sameAddr_setParent, haddr x, sameAddr_clearLinks]

theorem pop_facts (h : (fork d a j b).toList.Nodup) :
    (pop d a j b).1 ∈ (fork d a j b).toList ∧ (pop d a j b).1 ∉ (pop d a j b).2.toList ∧
      (pop d a j b).2.toList.Nodup ∧
      ∀ x ∈ (pop d a j b).2.toList, x ∈ (fork d a j b).toList := by
  have hperm := pop_perm d a j b
  obtain ⟨h1, h2⟩ := List.nodup_cons.1 (hperm.nodup_iff.2 h)
  exact ⟨hperm.subset List.mem_cons_self, h1, h2,
    fun x hx => hperm.subset (List.mem_cons_of_mem _ hx)⟩

/-! ## one child -/

/-- the place of the deleted node, below `p` on one side and only there -/
structure Placed (m : AreaMemory) (p : Nat) (d : Side) (del : Nat) (t : BTree) : Prop where
  below : Below m p d t
  nodup : t.toList.Nodup
  outside : p ∉ t.toList
  other : (m p).child d.other ≠ some del

theorem removeOne_below (h : Placed m p d del (fork e (fork e.other a j b) del nil))
    (hfuel : a.toList.length < fuel) : ∃ m', removeOne e fuel m del j = some m' ∧
      Relinked (m.clearLinks del) m' p d
        (fork e (pop e.other a j b).2 (pop e.other a j b).1 nil) := by
  obtain ⟨hc, hpar, hbelow, -⟩ := below_fork.1 h.below
  obtain ⟨hdel, -, hnd, -, -⟩ := nodup_fork.1 h.nodup
  obtain ⟨hpd, hpt, -⟩ : p ≠ del ∧ p ∉ (fork e.other a j b).toList ∧ p ∉ nil.toList := by
    simpa only [mem_fork, not_or] using h.outside
  obtain ⟨hfar, hlast⟩ := getFarNode_below hbelow hfuel
  obtain ⟨hn, hnrest, hrest, hsub⟩ := pop_facts hnd
  have hnew : (fork e (pop e.other a j b).2 (pop e.other a j b).1 nil).toList.Nodup :=
    nodup_fork.2 ⟨hnrest, List.not_mem_nil, hrest, List.nodup_nil, fun _ _ => List.not_mem_nil⟩
  have hout {x : Nat} (hx : x ∉ (fork e.other a j b).toList) :
      x ∉ (fork e (pop e.other a j b).2 (pop e.other a j b).1 nil).toList := by
    rw [mem_fork]
    rintro (rfl | h1 | h1)
    · exact hx hn
    · exact hx (hsub x h1)
    · cases h1
  obtain ⟨m1, hfirst, h1top, h1, h1addr⟩ :=
    replaceChild_below .left (some (pop e.other a j b).1) hpar hc h.other
  rw [removeOne, hfar]
  simp only [Option.bind_eq_bind, Option.bind_some, Option.pure_def]
  have h1below : Below m1 del e (fork e.other a j b) :=
    hbelow.frame (h1 del hpd.symm) fun x hx => h1 x fun he => hpt (he ▸ hx)
  induction a using fork_induction e.other with
  | nil =>
    simp only [pop_nil] at *
    rw [if_pos trivial, hfirst, Option.bind_some]
    obtain ⟨-, -, hnone, hb⟩ := below_fork.1 h1below
    rw [Side.other_other] at hb
    exact ⟨_, rfl, replaceNode_below h1top (by rw [h1 del hpd.symm]; exact hpar) hb hnone
      (fun x hxp _ _ => h1 x hxp) h1addr (hout hpt) (hout hdel) hpd hnew⟩
  | fork a' j' c _ _ =>
    obtain ⟨hja, hjb, hand, -, hdis⟩ := nodup_fork.1 hnd
    obtain ⟨hn', -, -, hsub'⟩ := pop_facts hand
    simp only [pop_fork] at *
    have hjn : j ≠ (pop e.other a' j' c).1 := fun he => hja (he ▸ hn')
    rw [if_neg hjn, hfirst, Option.bind_some]
    obtain ⟨h1c, h1par, hinner, h1b⟩ := below_fork.1 h1below
    obtain ⟨m2, hm2, hr2⟩ := pullNode_below hinner hja hand
    replace hr2 := hr2.fork h1c h1par h1b (fun hx => hdel (hsub _ hx)) hjb
      fun x hx => hdis x (hsub' x hx)
    rw [hm2, Option.bind_some]
    have hdn : del ≠ (pop e.other a' j' c).1 := fun he => hdel (he ▸ hn)
    have hdrest : del ∉ (fork e.other (pop e.other a' j' c).2 j b).toList :=
      fun hx => hdel (hsub _ hx)
    have hprest : p ∉ (fork e.other (pop e.other a' j' c).2 j b).toList :=
      fun hx => hpt (hsub _ hx)
    have hpn : p ≠ (pop e.other a' j' c).1 := fun he => hpt (he ▸ hn)
    have hlink := (below_fork.1 hr2.below).1
    rw [takeChild, hlink, Option.map_some, Option.bind_some]
    have hr3 := @takeTree_below m2 del e e _ (pop e.other a' j' c).1 j hr2.below hlink hnrest hrest
    generalize (m2.setChild e (pop e.other a' j' c).1 (some j)).setParent j
      (some (pop e.other a' j' c).1) = m3 at hr3 ⊢
    have hp3 : m3 p = m1 p := (hr3.frame p hpn hprest).trans (hr2.frame p hpd hprest)
    refine ⟨_, rfl, replaceNode_below (hp3.trans h1top) ?_ hr3.below ?_ (fun x hxp hx hxd => ?_)
      ((h1addr.trans hr2.addr).trans hr3.addr) (hout hpt) (hout hdel) hpd hnew⟩
    · rw [hr3.frame del hdn hdrest, hr2.parent, h1 del hpd.symm, hpar]
    · show (m3 (pop e.other a' j' c).1).child e.other = none
      rw [hr3.other, hr2.frame _ hdn.symm hnrest, h1 _ hpn.symm]
      exact hlast
    · obtain ⟨hxn, hxr, -⟩ : x ≠ (pop e.other a' j' c).1 ∧
          x ∉ (fork e.other (pop e.other a' j' c).2 j b).toList ∧ x ∉ nil.toList := by
        simpa only [mem_fork (d := e), not_or] using hx
      rw [hr3.frame x hxn hxr, hr2.frame x hxd hxr, h1 x hxp]

/-! ## two children -/

theorem removeBoth_below {rl rr : BTree} {lc ri : Nat}
    (h : Placed m p d del (node l del (node rl ri rr))) (hlc : (m del).lchild = some lc)
    (hfuel : rl.toList.length < fuel) : ∃ m', removeBoth fuel m del ri = some m' ∧
      Relinked (m.clearLinks del) m' p d (node l (popMin rl ri rr).1 (popMin rl ri rr).2) := by
  obtain ⟨hc, hpar, hleft, hright⟩ := h.below
  obtain ⟨hdl, hdr, hndl, hndr, hdis⟩ := (nodup_fork (d := .left)).1 h.nodup
  obtain ⟨hpd, hpl, hpr⟩ : p ≠ del ∧ p ∉ l.toList ∧ p ∉ (node rl ri rr).toList := by
    have := h.outside
    rwa [show node l del (node rl ri rr) = fork .left l del (node rl ri rr) from rfl, mem_fork,
      not_or, not_or] at this
  obtain ⟨hfar, hlast⟩ := getFarNode_below (d := .left) (a := rl) (b := rr) hright hfuel
  obtain ⟨hn, hnrest, hrest, hsub⟩ := pop_facts (d := .left) hndr
  change getMinNode fuel m ri = some (popMin rl ri rr).1 at hfar
  change (popMin rl ri rr).1 ∈ (node rl ri rr).toList at hn
  change (popMin rl ri rr).1 ∉ (popMin rl ri rr).2.toList at hnrest
  change (popMin rl ri rr).2.toList.Nodup at hrest
  change ∀ x ∈ (popMin rl ri rr).2.toList, x ∈ (node rl ri rr).toList at hsub
  have hnl : (popMin rl ri rr).1 ∉ l.toList := fun hx => hdis _ hx hn
  have hnew : (fork .left l (popMin rl ri rr).1 (popMin rl ri rr).2).toList.Nodup :=
    nodup_fork.2 ⟨hnl, hnrest, hndl, hrest, fun x hx hx' => hdis x hx (hsub x hx')⟩
  have hout {x : Nat} (hxl : x ∉ l.toList) (hxr : x ∉ (node rl ri rr).toList) :
      x ∉ (fork .left l (popMin rl ri rr).1 (popMin rl ri rr).2).toList := by
    rw [mem_fork]
    rintro (rfl | h1 | h1)
    · exact hxr hn
    · exact hxl h1
    · exact hxr (hsub x h1)
  obtain ⟨m1, hfirst, h1top, h1, h1addr⟩ :=
    replaceChild_below .right (some (popMin rl ri rr).1) hpar hc h.other
  have h1left : Below m1 del .left l :=
    hleft.frame (h1 del hpd.symm) fun x hx => h1 x fun he => hpl (he ▸ hx)
  have h1right : Below m1 del .right (node rl ri rr) :=
    hright.frame (h1 del hpd.symm) fun x hx => h1 x fun he => hpr (he ▸ hx)
  have hlc1 : (m1 del).child .left = some lc := by rw [h1 del hpd.symm]; exact hlc
  have hdn : del ≠ (popMin rl ri rr).1 := fun he => hdr (he ▸ hn)
  have hpn : p ≠ (popMin rl ri rr).1 := fun he => hpr (he ▸ hn)
  rw [removeBoth, hfar]
  simp only [Option.bind_eq_bind, Option.bind_some, Option.pure_def]
  cases rl with
  | nil =>
    change ∃ m', (if ri = ri then _ else _) = some m' ∧ _
    rw [if_pos rfl, hfirst, Option.bind_some, takeChild, hlc1, Option.map_some, Option.bind_some]
    have hr2 := takeTree_below (e := .left) h1left hlc1 hnl hndl
    generalize (m1.setChild .left (popMin nil ri rr).1 (some lc)).setParent lc
      (some (popMin nil ri rr).1) = m2 at hr2 ⊢
    have hbelow : Below m2 ri .right rr := by
      refine h1right.2.2.2.congr hr2.other fun x hx => hr2.frame x (fun he => hnrest (he ▸ hx)) ?_
      exact fun hx' => hdis x hx' (hsub x hx)
    refine ⟨_, rfl, replaceNode_below (e := .left) ((hr2.frame p hpn hpl).trans h1top) ?_ hr2.below
      hbelow (fun x hxp hx hxd => ?_) (h1addr.trans hr2.addr) (hout hpl hpr) (hout hdl hdr) hpd hnew⟩
    · rw [hr2.frame del hdn hdl, h1 del hpd.symm, hpar]
    · rw [mem_fork, not_or, not_or] at hx
      rw [hr2.frame x hx.1 hx.2.1, h1 x hxp]
  | node a j c =>
    obtain ⟨hja, hjb, hand, -, hdis'⟩ := (nodup_fork (d := .left)).1 hndr
    obtain ⟨hn', -, -, hsub'⟩ := pop_facts (d := .left) hand
    have hdrest : del ∉ (popMin (node a j c) ri rr).2.toList := fun hx => hdr (hsub _ hx)
    have hprest : p ∉ (popMin (node a j c) ri rr).2.toList := fun hx => hpr (hsub _ hx)
    have hlrest {x : Nat} (hx : x ∈ l.toList) : x ∉ (popMin (node a j c) ri rr).2.toList :=
      fun hx' => hdis x hx (hsub x hx')
    have hne : (popMin (node a j c) ri rr).1 ≠ ri := fun he => hja (he ▸ hn')
    rw [if_neg hne, hfirst, Option.bind_some]
    obtain ⟨m2, hm2, hr2⟩ := pullNode_below (d := .left) (a := a) (b := c) h1right.2.2.1 hja hand
    change pullNode .left m1 (popMin (node a j c) ri rr).1 = some m2 at hm2
    replace hr2 : Relinked m1 m2 del .right (popMin (node a j c) ri rr).2 :=
      hr2.fork (b := rr) h1right.1 h1right.2.1 h1right.2.2.2 (fun hx => hdrest hx) hjb
        fun x hx => hdis' x (hsub' x hx)
    rw [hm2, Option.bind_some]
    have h2left : Below m2 del .left l :=
      h1left.congr hr2.other fun x hx => hr2.frame x (fun he => hdl (he ▸ hx)) (hlrest hx)
    have hlc2 : (m2 del).child .left = some lc := hr2.other.trans hlc1
    rw [takeChild, hlc2, Option.map_some, Option.bind_some]
    have hr3 := takeTree_below (e := .left) h2left hlc2 hnl hndl
    generalize (m2.setChild .left (popMin (node a j c) ri rr).1 (some lc)).setParent lc
      (some (popMin (node a j c) ri rr).1) = m3 at hr3 ⊢
    have h3del : m3 del = m2 del := hr3.frame del hdn hdl
    have h3right : Below m3 del .right (popMin (node a j c) ri rr).2 :=
      hr2.below.frame h3del fun x hx =>
        hr3.frame x (fun he => hnrest (he ▸ hx)) fun hx' => hlrest hx' hx
    have hri3 : (m3 del).child .right = some ri := h3del ▸ hr2.below.1
    rw [takeChild, hri3, Option.map_some, Option.bind_some]
    have hr4 := takeTree_below (e := .right) h3right hri3 hnrest hrest
    generalize (m3.setChild .right (popMin (node a j c) ri rr).1 (some ri)).setParent ri
      (some (popMin (node a j c) ri rr).1) = m4 at hr4 ⊢
    have h4left : Below m4 (popMin (node a j c) ri rr).1 .left l :=
      hr3.below.congr hr4.other fun x hx => hr4.frame x (fun he => hnl (he ▸ hx)) (hlrest hx)
    have hsame {x : Nat} (hxn : x ≠ (popMin (node a j c) ri rr).1) (hxl : x ∉ l.toList)
        (hxr : x ∉ (popMin (node a j c) ri rr).2.toList) : m4 x = m2 x :=
      (hr4.frame x hxn hxr).trans (hr3.frame x hxn hxl)
    refine ⟨_, rfl, replaceNode_below (e := .left) ?_ ?_ h4left hr4.below (fun x hxp hx hxd => ?_)
      (((h1addr.trans hr2.addr).trans hr3.addr).trans hr4.addr) (hout hpl hpr) (hout hdl hdr) hpd
      hnew⟩
    · rw [hsame hpn hpl hprest, hr2.frame p hpd hprest, h1top]
    · rw [hsame hdn hdl hdrest, hr2.parent, h1 del hpd.symm, hpar]
    · rw [mem_fork, not_or, not_or] at hx
      rw [hsame hx.1 hx.2.1 hx.2.2, hr2.frame x hxd hx.2.2, h1 x hxp]

/-! ## the node is found -/

theorem removeLeaf_below (h : Placed m p d del (node nil del nil)) :
    ∃ m1, replaceChild .left m del none = some m1 ∧
      Relinked (m.clearLinks del) (m1.clearLinks del) p d nil := by
  obtain ⟨hc, hpar, -, -⟩ := h.below
  have hpd : p ≠ del := fun he => h.outside (he ▸ List.mem_cons_self)
  obtain ⟨m1, hfirst, h1top, h1, h1addr⟩ := replaceChild_below .left none hpar hc h.other
  refine ⟨m1, hfirst, ?_, ⟨none, ?_⟩, fun x hxp _ => ?_, fun x => ?_⟩
  · show (m1.clearLinks del p).child d = none
    rw [AreaMemory.clearLinks_ne _ hpd, h1top, AreaNode.child_withChild]
  · rw [AreaMemory.clearLinks_ne _ hpd, AreaMemory.clearLinks_ne _ hpd, h1top]
  · by_cases hxd : x = del
    · subst hxd
      rw [AreaMemory.clearLinks_self, AreaMemory.clearLinks_self, h1addr x]
    · rw [AreaMemory.clearLinks_ne _ hxd, AreaMemory.clearLinks_ne _ hxd, h1 x hxp]
  · rw [sameAddr_clearLinks, sameAddr_clearLinks, h1addr x]

theorem removeFound_below (h : Placed m p d del (node l del r))
    (hfuel : l.toList.length + r.toList.length ≤ fuel) :
    ∃ m', removeFound fuel m del = some m' ∧ Relinked (m.clearLinks del) m' p d (join l r) := by
  obtain ⟨-, -, hl, hr⟩ := h.below
  unfold removeFound
  cases r with
  | nil =>
    have hrc : (m del).rchild = none := hr
    rw [hrc]
    cases l with
    | nil =>
      have hlc : (m del).lchild = none := hl
      rw [hlc]
      obtain ⟨m1, hm1, hr⟩ := removeLeaf_below h
      exact ⟨_, by rw [hm1]; rfl, hr⟩
    | node ll li lr =>
      have hlc : (m del).lchild = some li := hl.1
      rw [hlc]
      have hlen := length_node ll li lr
      exact removeOne_below (e := .left) (a := lr) (b := ll) h (by omega)
  | node rl ri rr =>
    have hrc : (m del).rchild = some ri := hr.1
    rw [hrc]
    have hlen := length_node rl ri rr
    cases l with
    | nil =>
      have hlc : (m del).lchild = none := hl
      rw [hlc]
      exact removeOne_below (e := .right) (a := rl) (b := rr) h (by omega)
    | node ll li lr =>
      have hlc : (m del).lchild = some li := hl.1
      rw [hlc]
      exact removeBoth_below h hlc (by omega)

/-! ## the walk -/

def removeBelow (fuel : Nat) (m : AreaMemory) (p : Nat) (d : Side) (del : Nat) :
    Option AreaMemory :=
  match (m p).child d with
  | some child => removeBtreeNode fuel m child del
  | none => some m

theorem removeBtreeNode_succ (fuel : Nat) (m : AreaMemory) (p del : Nat) :
    removeBtreeNode (fuel + 1) m p del =
      if (m del).memAddr < (m p).memAddr then removeBelow fuel m p .left del
      else if (m p).memAddr < (m del).memAddr then removeBelow fuel m p .right del
      else removeFound fuel m del := rfl

def AreaMemory.addr (m : AreaMemory) (i : Nat) : Nat := (m i).memAddr

/-- what the walk asks of the deleted node: if it is not in the tree it has no links, and no other
node has its address -/
structure Removable (m : AreaMemory) (del : Nat) (t : BTree) : Prop where
  fresh : del ∉ t.toList → m.clearLinks del = m
  alone : ∀ i ∈ t.toList, m.addr i = m.addr del → i = del
  order : BTree.InOrder m.addr t

theorem Removable.left {i : Nat} (h : Removable m del (node l i r))
    (hlt : m.addr del < m.addr i) : Removable m del l := by
  obtain ⟨hl, hr, -⟩ := List.pairwise_append.mp h.order
  obtain ⟨hir, -⟩ := List.pairwise_cons.mp hr
  refine ⟨fun hx => h.fresh fun hx' => ?_, fun j hj => h.alone j (List.mem_append_left _ hj), hl⟩
  rcases List.mem_append.mp hx' with hx' | hx'
  · exact hx hx'
  · rcases List.mem_cons.mp hx' with rfl | hx'
    · exact absurd hlt (Nat.lt_irrefl _)
    · exact absurd hlt (Nat.lt_asymm (hir del hx'))

theorem Removable.right {i : Nat} (h : Removable m del (node l i r))
    (hgt : m.addr i < m.addr del) : Removable m del r := by
  obtain ⟨-, hr, hlr⟩ := List.pairwise_append.mp h.order
  obtain ⟨-, hr⟩ := List.pairwise_cons.mp hr
  refine ⟨fun hx => h.fresh fun hx' => ?_, fun j hj =>
    h.alone j (List.mem_append_right _ (List.mem_cons_of_mem i hj)), hr⟩
  rcases List.mem_append.mp hx' with hx' | hx'
  · exact absurd hgt (Nat.lt_asymm (hlr del hx' i List.mem_cons_self))
  · rcases List.mem_cons.mp hx' with rfl | hx'
    · exact absurd hgt (Nat.lt_irrefl _)
    · exact hx hx'

theorem Relinked.removed {m' : AreaMemory} {i : Nat} {a' : BTree}
    (h : Relinked (m.clearLinks del) m' i e a') (hsub : ∀ x ∈ a'.toList, x ∈ a.toList)
    (hfresh : del ∉ a.toList → m.clearLinks del = m) (hc : (m p).child d = some i)
    (hpar : (m i).parent = some p) (hb : Below m i e.other b)
    (hnd : (BTree.fork e a i b).toList.Nodup) (hp : p ∉ (BTree.fork e a i b).toList) :
    Relinked (m.clearLinks del) m' p d (BTree.fork e a' i b) := by
  obtain ⟨hia, hib, -, -, hdis⟩ := nodup_fork.1 hnd
  rw [mem_fork, not_or, not_or] at hp
  have hclear {x : Nat} (hx : x ∉ a.toList) : m.clearLinks del x = m x := by
    by_cases hxd : x = del
    · subst hxd
      rw [hfresh hx]
    · exact AreaMemory.clearLinks_ne _ hxd
  refine h.fork ?_ ?_ ?_ ?_ hib fun x hx => hdis x (hsub x hx)
  · rw [hclear hp.2.1, hc]
  · rw [hclear hia, hpar]
  · exact hb.frame (hclear hia) fun x hx => hclear fun hx' => hdis x hx' hx
  · rw [mem_fork, not_or, not_or]
    exact ⟨hp.1, fun hx => hp.2.1 (hsub p hx), hp.2.2⟩

theorem removeBelow_below {t : BTree} (h : Below m p d t) (hnd : t.toList.Nodup)
    (hp : p ∉ t.toList) (hoth : del ∈ t.toList → (m p).child d.other ≠ some del)
    (hdel : Removable m del t) (hfuel : t.toList.length ≤ fuel) :
    ∃ m', removeBelow fuel m p d del = some m' ∧
      Relinked (m.clearLinks del) m' p d (BTree.remove m.addr del t) := by
  induction t generalizing p d fuel with
  | nil =>
    rw [hdel.fresh List.not_mem_nil]
    refine ⟨m, ?_, h, ⟨(m p).child d, ?_⟩, fun _ _ _ => rfl, fun _ => rfl⟩
    · rw [removeBelow, h.child_eq_none]
    · cases d <;> rfl
  | node l i r ihl ihr =>
    obtain ⟨hc, hpar, hl, hr⟩ := h
    obtain ⟨hil, hir, hndl, hndr, hdis⟩ := (nodup_fork (d := .left)).1 hnd
    obtain ⟨fuel, rfl, hlen⟩ := length_le_fuel hfuel
    rw [removeBelow, hc]
    dsimp only
    rw [removeBtreeNode_succ, BTree.remove]
    change ∃ m', (if m.addr del < m.addr i then _ else if m.addr i < m.addr del then _ else _) = _ ∧ _
    by_cases hlt : m.addr del < m.addr i
    · rw [if_pos hlt, if_pos hlt]
      have hdl := hdel.left hlt
      obtain ⟨m', hm', hrel⟩ :=
        ihl hl hndl hil (fun hx he => hdis del hx (hr.root_mem he)) hdl (Nat.le_of_add_right_le hlen)
      have hsub := (@BTree.remove_sublist m.addr del l).subset
      exact ⟨m', hm', hrel.removed (e := .left) (fun _ hx => hsub hx) hdl.fresh hc hpar hr hnd hp⟩
    · rw [if_neg hlt, if_neg hlt]
      by_cases hgt : m.addr i < m.addr del
      · rw [if_pos hgt, if_pos hgt]
        have hdr := hdel.right hgt
        obtain ⟨m', hm', hrel⟩ :=
          ihr hr hndr hir (fun hx he => hdis del (hl.root_mem he) hx) hdr (Nat.le_of_add_left_le hlen)
        have hsub := (@BTree.remove_sublist m.addr del r).subset
        exact ⟨m', hm', hrel.removed (e := .right) (fun _ hx => hsub hx) hdr.fresh hc hpar hl hnd hp⟩
      · rw [if_neg hgt, if_neg hgt]
        have hroot : i ∈ (node l i r).toList := List.mem_append_right _ List.mem_cons_self
        obtain rfl : i = del := hdel.alone i hroot (by omega)
        exact removeFound_below ⟨⟨hc, hpar, hl, hr⟩, hnd, hp, hoth hroot⟩ hlen

end

end SierraTee
